import StackCalc.Proofs.Number.Notation

/-! # Reading numerals

The conversion of text to floating point is meant for whatever a user types. A numeral is made of few characters
(`mem_alphabet`), none of which is a blank or an underscore, so it is read by its digits alone
(`readBinary64?_text`). -/

namespace StackCalc.Decimal.Spelling

/-! ### The characters of numerals -/

/-- The characters that numerals are made of. -/
def alphabet : List Char := "0123456789.e+-".toList

variable {s : Spelling}

theorem mem_alphabet_of_isDigit {c : Char} (h : c.isDigit = true) : c ∈ alphabet := by
  have hall : ∀ n : Fin 58, (Char.ofNat n).isDigit = true → Char.ofNat n ∈ alphabet := by decide
  have hlt : c.toNat < 58 := Nat.lt_succ_of_le (Char.isDigit_iff_toNat.1 h).2
  have hc := hall ⟨c.toNat, hlt⟩
  rw [Char.ofNat_toNat] at hc
  exact hc h

theorem mem_alphabet_exponentText (hs : s.Proper) {c : Char} (hc : c ∈ s.exponentText) : c ∈ alphabet := by
  unfold exponentText at hc
  rcases hexp : s.exponent with _ | ⟨neg, ds⟩ <;> rw [hexp] at hc
  · cases hc
  · rcases List.mem_cons.1 hc with rfl | hc
    · decide
    rcases List.mem_cons.1 hc with rfl | hc
    · cases neg <;> decide
    · exact mem_alphabet_of_isDigit ((hs.exponent neg ds hexp).2 c hc)

theorem mem_alphabet (hs : s.Proper) {c : Char} (hc : c ∈ s.text) : c ∈ alphabet := by
  unfold text at hc
  rcases List.mem_append.1 hc with hc | hc
  · exact mem_alphabet_of_isDigit (hs.whole c hc)
  rcases List.mem_append.1 hc with hc | hc
  · unfold pointText at hc
    split_ifs at hc
    · cases hc
    · rcases List.mem_cons.1 hc with rfl | hc
      · decide
      · exact mem_alphabet_of_isDigit (hs.fraction c hc)
  · exact mem_alphabet_exponentText hs hc

/-- The characters of a numeral with its sign. -/
theorem mem_alphabet_signed (hs : s.Proper) {neg : Bool} {c : Char}
    (hc : c ∈ (if neg then ['-'] else []) ++ s.text) : c ∈ alphabet := by
  rcases List.mem_append.1 hc with hc | hc
  · cases neg
    · cases hc
    · rcases List.mem_singleton.1 hc with rfl
      decide
  · exact mem_alphabet hs hc

/-- The point stands in front of a fraction, and nowhere else. -/
theorem point_mem_iff (hs : s.Proper) : '.' ∈ s.text ↔ s.fraction ≠ [] := by
  have hdigits : ∀ {ds : List Char}, (∀ c ∈ ds, c.isDigit = true) → '.' ∉ ds := fun hds hmem => by
    cases hds _ hmem
  have hexponent : '.' ∉ s.exponentText := by
    unfold exponentText
    rcases hexp : s.exponent with _ | ⟨neg, ds⟩
    · exact List.not_mem_nil
    · have hds := hdigits (hs.exponent neg ds hexp).2
      cases neg <;> simpa using hds
  unfold text
  rw [List.mem_append, List.mem_append, or_iff_right (hdigits hs.whole), or_iff_left hexponent]
  unfold pointText
  split_ifs with hf
  · simp [hf]
  · simp [hf]

/-- A numeral with its sign is taken apart. -/
theorem splitSign_signed (hs : s.Proper) (neg : Bool) :
    splitSign ((if neg then ['-'] else []) ++ s.text) = (neg, s.text) := by
  cases neg with
  | false => exact splitSign_text hs
  | true => rfl

/-! ### Numerals as the conversion to floating point reads them -/

theorem asciiNumber?_of_alphabet {cs : List Char} (h : ∀ c ∈ cs, c ∈ alphabet) : asciiNumber? cs = some cs := by
  have hall : ∀ c ∈ alphabet, c.toNat < 0x7F := List.all_iff_forall_prop.1 (by decide)
  unfold asciiNumber?
  induction cs with
  | nil => rfl
  | cons c cs ih =>
    rw [List.mapM_cons, if_pos (hall c (h c List.mem_cons_self)), ih fun d hd => h d (List.mem_cons_of_mem c hd)]
    rfl

theorem trim_of_alphabet {cs : List Char} (h : ∀ c ∈ cs, c ∈ alphabet) : Text.trim Text.isNumberBlank cs = cs := by
  have hall : ∀ c ∈ alphabet, Text.isNumberBlank c = false := List.all_iff_forall_prop.1 (by decide)
  have hstops : ∀ {ds : List Char}, (∀ c ∈ ds, c ∈ alphabet) → Stops Text.isNumberBlank ds := fun hds c hc =>
    hall c (hds c (List.mem_of_mem_head? hc))
  unfold Text.trim
  rw [dropWhile_of_stops (hstops h), dropWhile_of_stops (hstops fun c hc => h c (List.mem_reverse.1 hc)),
    List.reverse_reverse]

theorem dropUnderscores?_of_alphabet {cs : List Char} (h : ∀ c ∈ cs, c ∈ alphabet) :
    dropUnderscores? cs = some cs := by
  have hall : ∀ c ∈ alphabet, c ≠ '_' := List.all_iff_forall_prop.1 (by decide)
  suffices hgo : ∀ b, dropUnderscores?.go b cs = some cs from hgo false
  induction cs with
  | nil => exact fun _ => rfl
  | cons c cs ih =>
    intro b
    have hc := hall c (h c List.mem_cons_self)
    rw [dropUnderscores?.go]
    · rw [ih fun d hd => h d (List.mem_cons_of_mem c hd)]
      rfl
    · exact fun _ _ h _ => hc h
    · exact fun h _ => hc h

/-- A numeral is none of the words for values without digits. -/
theorem special?_text (hs : s.Proper) : special? s.text = none := by
  obtain ⟨c, cs, hw, hc⟩ := head_whole hs
  have hlower : ∀ d ∈ alphabet, d.toLower = d := List.all_iff_forall_prop.1 (by decide)
  have hmap : s.text.map Char.toLower = s.text :=
    (List.map_congr_left fun d hd => hlower d (mem_alphabet hs hd)).trans (List.map_id' _)
  have hne : ∀ {word : String} (d : Char) (ds : List Char), word = String.ofList (d :: ds) → d.isDigit = false →
      String.ofList s.text ≠ word := by
    intro word d ds hword hd heq
    have hlist := congrArg String.toList (heq.trans hword)
    rw [String.toList_ofList, String.toList_ofList] at hlist
    unfold text at hlist
    rw [hw] at hlist
    obtain ⟨rfl, -⟩ := List.cons.inj hlist
    rw [hc] at hd
    cases hd
  unfold special?
  rw [splitSign_text hs]
  dsimp only
  rw [hmap]
  have hinf : String.ofList s.text ≠ "inf" := hne 'i' ['n', 'f'] rfl (by decide)
  have hinfinity : String.ofList s.text ≠ "infinity" := hne 'i' "nfinity".toList rfl (by decide)
  have hnan : String.ofList s.text ≠ "nan" := hne 'n' ['a', 'n'] rfl (by decide)
  rw [if_neg (not_or.2 ⟨hinf, hinfinity⟩), if_neg hnan]

/-- **A numeral without a sign is read as what its digits round to.** -/
theorem readBinary64?_text (hs : s.Proper) :
    readBinary64? (String.ofList s.text) = some (Binary64.ofDecimal false s.decimal.digits s.decimal.exponent) := by
  have hchars : ∀ c ∈ s.text, c ∈ alphabet := fun c hc => mem_alphabet hs hc
  have hread := ofChars?_text hs false
  rw [if_neg (by decide), List.nil_append] at hread
  unfold readBinary64?
  rw [String.toList_ofList, asciiNumber?_of_alphabet hchars]
  simp only [Option.bind_eq_bind, Option.bind_some]
  rw [trim_of_alphabet hchars, dropUnderscores?_of_alphabet hchars]
  simp only [Option.bind_some]
  rw [special?_text hs, hread]
  rfl

end StackCalc.Decimal.Spelling
