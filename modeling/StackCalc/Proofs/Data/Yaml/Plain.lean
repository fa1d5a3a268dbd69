import StackCalc.Proofs.Data.Yaml.Document
import StackCalc.Proofs.Number.Numeral
import StackCalc.Proofs.Number.Sign
import StackCalc.Data.Json

/-! # Words and numerals in YAML

A word in a document has the tag that its spelling asks for. Truth values, null and integers are spelled as in JSON
(`spells_bool`, `spells_null`, `spells_int`). A numeral of floating point is one in YAML too if there is a point in it;
without a point it is a text (`spells_float`). -/

namespace StackCalc.Yaml

open Decimal (Spelling)
open Decimal.Spelling (alphabet mem_alphabet mem_alphabet_signed head_whole splitSign_signed)

/-! ### Numerals are words -/

theorem mem_alphanumerics_of_isDigit {c : Char} (h : c.isDigit = true) : c ∈ alphanumerics := by
  have hall : ∀ d ∈ alphabet, d.isDigit = true → d ∈ alphanumerics := List.all_iff_forall_prop.1 (by decide)
  exact hall c (Spelling.mem_alphabet_of_isDigit h) h

section
variable {s : Spelling}

theorem word_signed (hs : s.Proper) (neg : Bool) : Word ((if neg then ['-'] else []) ++ s.text) := by
  have hall : ∀ c ∈ alphabet, c ∈ '-' :: '+' :: '.' :: alphanumerics := List.all_iff_forall_prop.1 (by decide)
  refine ⟨fun c hc => hall c (mem_alphabet_signed hs hc), ?_⟩
  obtain ⟨c, cs, hw, hc⟩ := head_whole hs
  unfold Spelling.text
  rw [hw]
  cases neg
  · exact ⟨c, _, rfl, .inl (mem_alphanumerics_of_isDigit hc)⟩
  · exact ⟨'-', _, rfl, .inr ⟨rfl, c, _, rfl, mem_alphanumerics_of_isDigit hc⟩⟩

/-! ### Groups -/

namespace Numeral

theorem groups_of_no_colon {cs : List Char} (h : ∀ c ∈ cs, c ≠ ':') : groups cs = [cs] := by
  induction cs with
  | nil => rfl
  | cons c cs ih =>
    have hc : (c == ':') = false := beq_eq_false_iff_ne.2 (h c List.mem_cons_self)
    unfold groups at ih ⊢
    rw [List.foldr_cons, ih fun d hd => h d (List.mem_cons_of_mem c hd)]
    simp [hc]

theorem isExponent_text (hs : s.Proper) : isExponent s.exponentText = true := by
  unfold Spelling.exponentText
  rcases hexp : s.exponent with _ | ⟨neg, ds⟩
  · rfl
  · obtain ⟨hne, hdigits⟩ := hs.exponent neg ds hexp
    have hempty : ds.isEmpty = false := List.isEmpty_eq_false_iff.2 hne
    have hall : ds.all Char.isDigit = true := List.all_eq_true.2 hdigits
    cases neg <;> simp [isExponent, hempty, hall]

theorem isFraction_text (hs : s.Proper) : isFraction (s.fraction ++ s.exponentText) = true := by
  have hstops : Stops isDigitOrLow s.exponentText := by
    rcases Spelling.exponentText_cases s with h | ⟨r, h⟩ <;> rw [h]
    · exact Stops.nil
    · exact Stops.cons (by decide)
  unfold isFraction
  rw [dropWhile_run (fun c hc => by simp [isDigitOrLow, hs.fraction c hc]) hstops]
  exact isExponent_text hs

theorem ne_colon_of_mem (hs : s.Proper) {c : Char} (hc : c ∈ s.text) : c ≠ ':' := by
  have hall : ∀ d ∈ alphabet, d ≠ ':' := List.all_iff_forall_prop.1 (by decide)
  exact hall c (mem_alphabet hs hc)

/-- A numeral, taken apart at its first digit. -/
theorem exists_first (hs : s.Proper) (neg : Bool) : ∃ c cs, s.whole = c :: cs ∧ c.isDigit = true ∧
    unsigned ((if neg then ['-'] else []) ++ s.text) = c :: (cs ++ (s.pointText ++ s.exponentText)) := by
  obtain ⟨c, cs, hw, hc⟩ := head_whole hs
  refine ⟨c, cs, hw, hc, ?_⟩
  unfold unsigned
  rw [splitSign_signed hs]
  unfold Spelling.text
  rw [hw]
  rfl

theorem isReal_signed (hs : s.Proper) (neg : Bool) {c : Char} {cs : List Char} (hc : c.isDigit = true)
    (hunsigned : unsigned ((if neg then ['-'] else []) ++ s.text) = c :: cs) :
    isReal ((if neg then ['-'] else []) ++ s.text) = isDecimal cs := by
  obtain ⟨d, ds, htext, hd⟩ := (word_signed hs neg).head
  have hpoint : d ≠ '.' := by
    have hall : ∀ e ∈ alphanumerics, e ≠ '.' := List.all_iff_forall_prop.1 (by decide)
    rcases hd with hd | ⟨rfl, -⟩
    · exact hall d hd
    · decide
  unfold isReal
  split
  next heq =>
    rw [htext] at heq
    exact absurd (List.cons.inj heq).1 hpoint
  next =>
    rw [hunsigned]
    split
    next heq =>
      rw [(List.cons.inj heq).1] at hc
      cases hc
    next heq =>
      obtain ⟨rfl, rfl⟩ := List.cons.inj heq
      rw [hc, Bool.true_and]
    next heq => cases heq

/-- A numeral is one of floating point if it has a point. -/
theorem isReal_text (hs : s.Proper) (neg : Bool) :
    isReal ((if neg then ['-'] else []) ++ s.text) = !s.fraction.isEmpty := by
  obtain ⟨c, cs, hw, hc, hunsigned⟩ := exists_first hs neg
  have hdigits : ∀ d ∈ cs, d.isDigit = true := fun d hd => hs.whole d (by rw [hw]; exact List.mem_cons_of_mem c hd)
  have hne : ∀ {d : Char}, d.isDigit = true → d ≠ '.' ∧ d ≠ ':' := by
    intro d hd
    constructor <;>
    · rintro rfl
      cases hd
  rw [isReal_signed hs neg hc hunsigned]
  unfold isDecimal Spelling.pointText
  by_cases hf : s.fraction = []
  · -- no point is left
    have hnone : ∀ d ∈ cs ++ s.exponentText, (d != '.') = true := by
      intro d hd
      rw [bne_iff_ne]
      rintro rfl
      refine (Spelling.point_mem_iff hs).1 ?_ hf
      unfold Spelling.text
      rw [hw]
      rcases List.mem_append.1 hd with hd | hd
      · exact List.mem_append_left _ (List.mem_cons_of_mem c hd)
      · exact List.mem_append_right _ (List.mem_append_right _ hd)
    have hdrop : (cs ++ s.exponentText).dropWhile (· != '.') = [] := by
      have h := dropWhile_run hnone Stops.nil
      rwa [List.append_nil] at h
    rw [if_pos hf, List.nil_append, hdrop, hf]
    split
    next heq => cases heq
    next heq => cases heq
    next => rfl
  · have hstops : Stops (· != '.') ('.' :: (s.fraction ++ s.exponentText)) := Stops.cons (by decide)
    have hrun : ∀ d ∈ cs, (d != '.') = true := fun d hd => bne_iff_ne.2 (hne (hdigits d hd)).1
    have hall : cs.all isDigitOrLow = true := List.all_eq_true.2 fun d hd => by simp [isDigitOrLow, hdigits d hd]
    rw [if_neg hf, List.cons_append, takeWhile_run hrun hstops, dropWhile_run hrun hstops,
      groups_of_no_colon fun d hd => (hne (hdigits d hd)).2]
    change (cs.all isDigitOrLow && isFraction (s.fraction ++ s.exponentText)) = _
    rw [hall, isFraction_text hs, List.isEmpty_eq_false_iff.2 hf]
    rfl

/-- A numeral of an integer is one, -/
theorem isInteger_ofNat (n : ℕ) (neg : Bool) :
    isInteger ((if neg then ['-'] else []) ++ (Spelling.ofNat n).text) = true := by
  have hs := Spelling.ofNat_proper n
  obtain ⟨c, cs, hw, hc, hunsigned⟩ := exists_first hs neg
  have hdigits : ∀ d ∈ cs, d.isDigit = true := fun d hd => hs.whole d (by rw [hw]; exact List.mem_cons_of_mem c hd)
  have htail : cs ++ ((Spelling.ofNat n).pointText ++ (Spelling.ofNat n).exponentText) = cs := List.append_nil cs
  rw [htail] at hunsigned
  unfold isInteger
  rw [hunsigned]
  by_cases hzero : c = '0'
  · subst hzero
    have hwhole := hs.lead (by rw [hw]; rfl)
    rw [hw] at hwhole
    rw [(List.cons.inj hwhole).2]
    rfl
  · have hall : cs.all isDigitOrLow = true := List.all_eq_true.2 fun d hd => by simp [isDigitOrLow, hdigits d hd]
    have hgroups : groups cs = [cs] := groups_of_no_colon fun d hd => by
      rintro rfl
      cases hdigits _ hd
    split
    next heq => exact absurd (List.cons.inj heq).1 hzero
    next heq => exact absurd (List.cons.inj heq).1 hzero
    next heq => exact absurd (List.cons.inj heq).1 hzero
    next heq =>
      obtain ⟨rfl, rfl⟩ := List.cons.inj heq
      rw [hc, hgroups]
      simp [hall]
    next heq => cases heq

theorem groups_cons {c : Char} (hc : c ≠ ':') (cs : List Char) : ∃ g gs, groups (c :: cs) = (c :: g) :: gs := by
  have hne : ∀ ds : List Char, groups ds ≠ [] := by
    intro ds
    cases ds with
    | nil => exact List.cons_ne_nil _ _
    | cons d ds =>
      unfold groups
      rw [List.foldr_cons]
      split
      · split_ifs <;> exact List.cons_ne_nil _ _
      · exact List.cons_ne_nil _ _
  rcases hgs : groups cs with _ | ⟨g, gs⟩
  · exact absurd hgs (hne cs)
  · refine ⟨g, gs, ?_⟩
    unfold groups at hgs ⊢
    rw [List.foldr_cons, hgs]
    simp [hc]

/-- A numeral that has no point has one digit in front of its exponent. -/
theorem text_of_short (hs : s.Proper) (hf : s.fraction = []) (hshort : s.whole.length = 1)
    (hreal : s.isIntegral = false) : ∃ c r, s.text = c :: 'e' :: r ∧ c.isDigit = true := by
  obtain ⟨c, cs, hw, hc⟩ := head_whole hs
  have hcs : cs = [] := by
    rw [hw, List.length_cons] at hshort
    exact List.eq_nil_of_length_eq_zero (by omega)
  have hpoint : s.pointText = [] := if_pos hf
  rcases Spelling.exponentText_cases s with h | ⟨r, hexp⟩
  · unfold Spelling.isIntegral at hreal
    unfold Spelling.exponentText at h
    rcases hsome : s.exponent with _ | ⟨sign, ds⟩ <;> rw [hsome] at h hreal
    · rw [hf] at hreal
      cases hreal
    · cases h
  · refine ⟨c, r, ?_, hc⟩
    unfold Spelling.text
    rw [hw, hcs, hpoint, hexp]
    rfl

section
variable {c : Char} {r : List Char} (hs : s.Proper) (neg : Bool) (hc : c.isDigit = true)
  (htext : s.text = c :: 'e' :: r)

include hs hc htext

/-- Such a numeral is none of an integer, -/
theorem isInteger_short : isInteger ((if neg then ['-'] else []) ++ s.text) = false := by
  have hunsigned : unsigned ((if neg then ['-'] else []) ++ s.text) = c :: 'e' :: r := by
    unfold unsigned
    rw [splitSign_signed hs, htext]
  unfold isInteger
  rw [hunsigned]
  obtain ⟨g, gs, hgroups⟩ := groups_cons (show 'e' ≠ ':' by decide) r
  split
  next heq => cases heq
  next heq => cases heq
  next heq =>
    obtain ⟨-, rfl⟩ := List.cons.inj heq
    rfl
  next heq =>
    obtain ⟨rfl, rfl⟩ := List.cons.inj heq
    rw [hgroups]
    simp [isDigitOrLow]
  next heq => cases heq

omit hs in
/-- and no date: a date has a year of four digits in front. -/
theorem isPlain_short : Timestamp.isPlain ((if neg then ['-'] else []) ++ s.text) = false := by
  have hyear : Timestamp.digits 4 4 ((if neg then ['-'] else []) ++ s.text) = none := by
    rw [htext]
    cases neg <;> simp [Timestamp.digits, hc]
  have hnone : Timestamp.ofChars? ((if neg then ['-'] else []) ++ s.text) = none := by
    unfold Timestamp.ofChars?
    rw [hyear]
    rfl
  unfold Timestamp.isPlain
  rw [hnone]

end

end Numeral

/-! ### Tags -/

theorem spells_false {t w : String} (h : ∀ v ∈ [w, w.capitalize, w.toUpper], t ≠ v) : Tag.spells t w = false := by
  unfold Tag.spells
  simp only [List.mem_cons, List.not_mem_nil, or_false, forall_eq_or_imp, forall_eq] at h
  simp [h]

/-- **The tag of a numeral** is decided by the grammars of numbers and dates. -/
theorem ofPlain_signed (hs : s.Proper) (neg : Bool) :
    Tag.ofPlain (String.ofList ((if neg then ['-'] else []) ++ s.text)) =
      let cs := (if neg then ['-'] else []) ++ s.text
      if Numeral.isReal cs then .float
      else if Numeral.isInteger cs then .int
      else if Timestamp.isPlain cs then .timestamp
      else .str := by
  set t := String.ofList ((if neg then ['-'] else []) ++ s.text) with ht
  have htoList : t.toList = (if neg then ['-'] else []) ++ s.text := String.toList_ofList
  have hne : ∀ {v : String}, v.toList.head?.all (fun c => !(c.isDigit || c == '-')) = true → t ≠ v := by
    rintro v hv rfl
    obtain ⟨c, cs, hw, hc⟩ := head_whole hs
    rw [htoList] at hv
    unfold Spelling.text at hv
    rw [hw] at hv
    cases neg
    · simp [hc] at hv
    · simp at hv
  have hwords : ∀ w ∈ "null" :: Tag.truthWords.map (·.1), ∀ v ∈ [w, w.capitalize, w.toUpper],
      v.toList.head?.all (fun c => !(c.isDigit || c == '-')) = true := by decide +kernel
  have htruth : (Tag.truthWords.any fun w => Tag.spells t w.1) = false := by
    rw [List.any_eq_false]
    intro w hw
    rw [spells_false fun v hv => hne (hwords w.1 (List.mem_cons_of_mem _ (List.mem_map_of_mem hw)) v hv)]
    decide
  have hnull : Tag.spells t "null" = false :=
    spells_false fun v hv => hne (hwords "null" List.mem_cons_self v hv)
  have hmerge : (t == "<<") = false := beq_eq_false_iff_ne.2 (hne (by decide))
  have hempty : (t == "") = false := beq_eq_false_iff_ne.2 (hne (by decide))
  have htilde : (t == "~") = false := beq_eq_false_iff_ne.2 (hne (by decide))
  have hvalue : (t == "=") = false := beq_eq_false_iff_ne.2 (hne (by decide))
  unfold Tag.ofPlain
  rw [htruth, hmerge, hempty, htilde, hnull, hvalue, htoList]
  rfl

theorem render_eq (n : ℤ) : Integer.render n =
    String.ofList ((if decide (n < 0) then ['-'] else []) ++ (Spelling.ofNat n.natAbs).text) := by
  rw [← Integer.toList_render, String.ofList_toList]

theorem ofPlain_int (n : ℤ) : Tag.ofPlain (Integer.render n) = .int := by
  rw [render_eq, ofPlain_signed (Spelling.ofNat_proper _)]
  dsimp only
  rw [Numeral.isReal_text (Spelling.ofNat_proper _), Numeral.isInteger_ofNat]
  rfl

/-- A numeral of floating point is one in YAML if it has a point, and a text otherwise. -/
theorem ofPlain_real (hs : s.Proper) (neg : Bool) (hreal : s.isIntegral = false)
    (hshort : s.fraction = [] → s.whole.length = 1) :
    Tag.ofPlain (String.ofList ((if neg then ['-'] else []) ++ s.text)) =
      if s.fraction = [] then .str else .float := by
  rw [ofPlain_signed hs]
  dsimp only
  rw [Numeral.isReal_text hs]
  by_cases hf : s.fraction = []
  · obtain ⟨c, r, htext, hc⟩ := Numeral.text_of_short hs hf (hshort hf) hreal
    rw [hf, Numeral.isInteger_short hs neg hc htext, Numeral.isPlain_short neg hc htext]
    rfl
  · rw [List.isEmpty_eq_false_iff.2 hf, if_neg hf]
    rfl

/-! ### Values -/

theorem split_signed (hs : s.Proper) (neg : Bool) :
    Numeral.split (String.ofList ((if neg then ['-'] else []) ++ s.text)) = .ok (neg, s.text) := by
  have hlow : ((if neg then ['-'] else []) ++ s.text).filter (· != '_') = (if neg then ['-'] else []) ++ s.text := by
    have hall : ∀ c ∈ alphabet, (c != '_') = true := List.all_iff_forall_prop.1 (by decide)
    exact List.filter_eq_self.2 fun c hc => hall c (mem_alphabet_signed hs hc)
  obtain ⟨c, cs, hw, hc⟩ := head_whole hs
  unfold Numeral.split
  rw [String.toList_ofList, hlow]
  unfold Spelling.text
  rw [hw]
  cases neg
  · simp only [List.cons_append, Bool.false_eq_true, if_false, List.nil_append]
    split
    next heq => cases heq
    next heq =>
      rw [(List.cons.inj heq).1] at hc
      cases hc
    next heq =>
      rw [(List.cons.inj heq).1] at hc
      cases hc
    next => rfl
  · rfl

theorem readReal_signed (hs : s.Proper) (neg : Bool) :
    Numeral.readReal (String.ofList ((if neg then ['-'] else []) ++ s.text)) =
      .ok (Numeral.signed neg (Binary64.ofDecimal false s.decimal.digits s.decimal.exponent)) := by
  have hlower : s.text.map Char.toLower = s.text := by
    have hall : ∀ c ∈ alphabet, c.toLower = c := List.all_iff_forall_prop.1 (by decide)
    exact (List.map_congr_left fun c hc => hall c (mem_alphabet hs hc)).trans (List.map_id' _)
  have hcolon : s.text.contains ':' = false := by
    rw [List.contains_eq_mem, decide_eq_false_iff_not]
    exact fun hmem => Numeral.ne_colon_of_mem hs hmem rfl
  have hword : ∀ cs : List Char, (s.text == '.' :: cs) = false := by
    intro cs
    obtain ⟨c, ds, hw, hc⟩ := head_whole hs
    rw [beq_eq_false_iff_ne]
    unfold Spelling.text
    rw [hw]
    intro heq
    rw [(List.cons.inj heq).1] at hc
    cases hc
  unfold Numeral.readReal
  rw [split_signed hs]
  simp only [bind, Except.bind]
  have hinf : ".inf".toList = ['.', 'i', 'n', 'f'] := rfl
  have hnan : ".nan".toList = ['.', 'n', 'a', 'n'] := rfl
  rw [hlower, hinf, hnan, hword, hword, hcolon]
  unfold Numeral.ofDecimal
  rw [Spelling.readBinary64?_text hs]
  rfl

/-- The digits of base ten. -/
theorem foldlM_digits {ds : List Char} (h : ∀ c ∈ ds, c.isDigit = true) (n : ℕ) :
    ds.foldlM (fun n c => (Numeral.digitOf? 10 c).map (10 * n + ·)) n =
      some (ds.foldl (fun n c => 10 * n + (c.toNat - 48)) n) := by
  have hall : ∀ c ∈ alphabet, c.isDigit = true → Numeral.digitOf? 10 c = some (c.toNat - 48) :=
    List.all_iff_forall_prop.1 (by decide)
  induction ds generalizing n with
  | nil => rfl
  | cons c ds ih =>
    have hc := h c List.mem_cons_self
    rw [List.foldlM_cons, hall c (Spelling.mem_alphabet_of_isDigit hc) hc]
    exact ih (fun d hd => h d (List.mem_cons_of_mem c hd)) _

theorem ofBase_digits {n : ℕ} (hn : 0 < n) (hfits : Integer.fits (Nat.toDigits 10 n) = true) :
    Numeral.ofBase 10 (Nat.toDigits 10 n) = .ok n := by
  obtain ⟨c, cs, hds, hc⟩ := Decimal.head_toDigits hn
  have hdigits : ∀ d ∈ Nat.toDigits 10 n, d.isDigit = true := fun d hd => Decimal.isDigit_of_mem_toDigits hd
  have hchars : ∀ d ∈ Nat.toDigits 10 n, d ∈ alphabet := fun d hd => Spelling.mem_alphabet_of_isDigit (hdigits d hd)
  have hvalue := foldlM_digits hdigits 0
  have hread : (Nat.toDigits 10 n).foldl (fun n c => 10 * n + (c.toNat - 48)) 0 = n := Decimal.ofDigits_toDigits n
  rw [hread] at hvalue
  rw [hds] at hdigits hchars hvalue hfits ⊢
  unfold Numeral.ofBase
  rw [Spelling.asciiNumber?_of_alphabet hchars]
  dsimp only
  rw [Spelling.trim_of_alphabet hchars, Spelling.splitSign_of_isDigit (hdigits c List.mem_cons_self)]
  simp [hc, hfits, hvalue]

/-- **An integer is read back from its text.** -/
theorem readInteger_render {n : ℤ} (h : Integer.hasText n = true) : Numeral.readInteger (Integer.render n) = .ok n := by
  rcases Nat.eq_zero_or_pos n.natAbs with hzero | hpos
  · obtain rfl := Int.natAbs_eq_zero.1 hzero
    rfl
  have hbase := ofBase_digits hpos (Integer.fits_toDigits h)
  have hcolon : ':' ∉ Nat.toDigits 10 n.natAbs := fun hmem => by
    cases Decimal.isDigit_of_mem_toDigits hmem
  obtain ⟨c, cs, hds, hc⟩ := Decimal.head_toDigits hpos
  unfold Numeral.readInteger
  rw [render_eq, split_signed (Spelling.ofNat_proper _), Spelling.text_ofNat]
  rw [hds] at hbase hcolon ⊢
  simp only [bind, Except.bind]
  have hsign : (if n < 0 then -(n.natAbs : ℤ) else n.natAbs) = n := by
    split_ifs <;> omega
  simpa [hc, hcolon, hbase, pure, Except.pure] using hsign

end

/-! ### Documents -/

/-- **The text is a word, and a document of the data.** -/
structure Spells (text : String) (d : Data) : Prop where
  word : Word text.toList
  read_eq : read text = .ok d

/-- A word is a document of the data that it is tagged for. -/
theorem spells_of_tag {text : String} (hword : Word text.toList) {t : Tag} (htag : Tag.ofPlain text = t) {d : Data}
    (hread : t.read text = .ok d) : Spells text d := by
  have htokens := tokens_word hword
  have htag : Parsing.scalarTag none true text = t := by
    rw [← htag, Parsing.scalarTag, Text.blurred_ofString]
    rfl
  rw [String.ofList_toList] at htokens
  rw [← htag] at hread
  exact ⟨hword, read_of_tokens htokens hread⟩

theorem spells_null : Spells "null" .null :=
  spells_of_tag ⟨List.all_iff_forall_prop.1 (by decide), 'n', _, rfl, .inl (by decide)⟩
    (show _ = Tag.null by decide +kernel) rfl

theorem spells_bool (b : Bool) : Spells (if b then "true" else "false") (.bool b) := by
  have hlookup : Tag.truthWords.lookup ((if b then "true" else "false").map Char.toLower) = some b := by
    cases b <;> decide +kernel
  refine spells_of_tag (t := .bool) ?_ ?_ ?_
  · cases b
    · exact ⟨List.all_iff_forall_prop.1 (by decide), 'f', _, rfl, .inl (by decide)⟩
    · exact ⟨List.all_iff_forall_prop.1 (by decide), 't', _, rfl, .inl (by decide)⟩
  · cases b <;> decide +kernel
  · unfold Tag.read
    rw [Text.blurred_ofString, hlookup]

/-- **An integer that has a text is a document of it.** -/
theorem spells_int {n : ℤ} (h : Integer.hasText n = true) : Spells (Integer.render n) (.int n) := by
  refine spells_of_tag ?_ (ofPlain_int n) ?_
  · rw [Integer.toList_render]
    exact word_signed (Spelling.ofNat_proper _) _
  · unfold Tag.read
    rw [Text.blurred_ofString, readInteger_render h]
    rfl

/-- The word for infinity is a text in YAML. -/
theorem spells_infinity {text : String} (h : text.toList = "Infinity".toList ∨ text.toList = "-Infinity".toList) :
    '.' ∉ text.toList ∧ Spells text (.str text) := by
  have hword : Word text.toList := by
    rcases h with h | h <;> rw [h]
    · exact ⟨List.all_iff_forall_prop.1 (by decide), 'I', _, rfl, .inl (by decide)⟩
    · exact ⟨List.all_iff_forall_prop.1 (by decide), '-', _, rfl, .inr ⟨rfl, 'I', _, rfl, by decide⟩⟩
  have htag : Tag.ofPlain text = .str := by
    rcases h with h | h <;> rw [← String.ofList_toList (s := text), h] <;> decide +kernel
  constructor
  · rcases h with h | h <;> rw [h] <;> decide
  · exact spells_of_tag hword htag rfl

/-- **A float comes back as a float if its text has a point**, and as the text otherwise: YAML wants a point in front of
an exponent, and another word for infinity. -/
theorem spells_float {x : Binary64} (h : x.isNaN = false) {text : String}
    (htext : Decimal.render Json.numberLayout x = text) :
    Spells text (if '.' ∈ text.toList then .float x else .str text) := by
  rcases Binary64.read_cases h with ⟨neg, hinfinite, -⟩ | ⟨neg, m, q, hfinite⟩
  · have hcs : text.toList = "Infinity".toList ∨ text.toList = "-Infinity".toList := by
      rw [← htext, Decimal.toList_render_infinite Json.numberLayout hinfinite]
      cases neg
      · exact .inl rfl
      · exact .inr rfl
    obtain ⟨hpoint, hspells⟩ := spells_infinity hcs
    rwa [if_neg hpoint]
  · obtain ⟨s, hs, hreal, hshort, hsigned, hvalue⟩ := Decimal.exists_spelling Json.numberLayout hfinite
    rw [htext] at hsigned
    have hofList : text = String.ofList ((if neg then ['-'] else []) ++ s.text) := by
      rw [← hsigned, String.ofList_toList]
    have hword : Word text.toList := by
      rw [hsigned]
      exact word_signed hs neg
    have hpoint : '.' ∈ text.toList ↔ s.fraction ≠ [] := by
      rw [hsigned, List.mem_append, Spelling.point_mem_iff hs]
      cases neg <;> simp
    have htag := ofPlain_real hs neg hreal hshort
    rw [← hofList] at htag
    by_cases hf : s.fraction = []
    · rw [if_pos hf] at htag
      rw [if_neg fun hmem => hpoint.1 hmem hf]
      exact spells_of_tag hword htag rfl
    · rw [if_neg hf] at htag
      have hread : Numeral.readReal text = .ok x := by
        rw [hofList, readReal_signed hs, hvalue, (Binary64.of_read_finite hfinite).1]
        unfold Numeral.signed
        split_ifs with hneg
        · rw [Binary64.minusOne_mul hfinite, hneg]
        · rw [Bool.eq_false_of_not_eq_true hneg]
      rw [if_pos (hpoint.2 hf)]
      refine spells_of_tag hword htag ?_
      unfold Tag.read
      rw [Text.blurred_ofString, hread]
      rfl

end StackCalc.Yaml
