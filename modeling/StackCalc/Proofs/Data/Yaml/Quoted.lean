import StackCalc.Proofs.Data.Yaml.Document
import StackCalc.Proofs.Data.Yaml.Folding
import StackCalc.Proofs.Data.Json.Scalar

/-! # JSON texts in YAML

A text that is quoted as JSON demands is read by YAML as what folding makes of the text (`read_writeText`), as long as
YAML allows its characters: every escape that is written means the same, and what JSON writes as it is stands for
itself, or for a line end. One step of the scanner takes a character, an escape or a gap off the text and off its
meaning alike (`quotedText_step`). -/

namespace StackCalc.Yaml

open Json (escapeChar)

/-! ### Escapes -/

section
variable {k : Cursor} {r : List Char}

theorem Cursor.peek_of_rest {ch : Char} (hrest : k.rest = ch :: r) : k.peek = some ch := by
  unfold Cursor.peek
  rw [hrest]
  rfl

theorem Cursor.rest_advance_of_rest {ch : Char} (hrest : k.rest = ch :: r) : k.advance.rest = r := by
  rw [Cursor.rest_advance, hrest]
  rfl

theorem escape_letter {e ch : Char} (hrest : k.rest = e :: r) (he : letterEscape? e = some ch) :
    escape k = .ok ([.char ch], k.advance) := by
  unfold escape
  rw [Cursor.peek_of_rest hrest]
  dsimp only
  rw [he]
  rfl

theorem hexNumber?_hex {n : ℕ} (hn : n < 65536) : hexNumber? (Text.hex 4 n) = some n := by
  have htext : Text.hex 4 n = [Nat.digitChar (n / 16 / 16 / 16 % 16), Nat.digitChar (n / 16 / 16 % 16),
      Nat.digitChar (n / 16 % 16), Nat.digitChar (n % 16)] := rfl
  have hsum : 16 * (16 * (16 * (16 * 0 + n / 16 / 16 / 16 % 16) + n / 16 / 16 % 16) + n / 16 % 16) + n % 16 = n := by
    omega
  rw [htext]
  unfold hexNumber?
  simp only [List.foldlM_cons, List.foldlM_nil]
  repeat rw [Json.hexDigit?_digitChar (Nat.mod_lt _ (by norm_num))]
  simp only [Option.map_some, Option.bind_eq_bind, Option.bind_some, hsum]
  rfl

theorem numberedCode_toNat (c : Char) : numberedCode c.toNat = .ok (.char c) := by
  have hrange : c.toNat ≤ 0x10FFFF := by
    have hvalid : c.toNat.isValidChar := c.valid
    rcases hvalid with h | h <;> omega
  have hcode : CodePoint.ofNat c.toNat = .char c := CodePoint.ofNat_toNat (.char c)
  unfold numberedCode
  rw [if_neg (by omega), if_neg (by omega), hcode]

theorem escape_number {c : Char} (hc : c.toNat < 65536) (hrest : k.rest = 'u' :: (Text.hex 4 c.toNat ++ r)) :
    escape k = .ok ([.char c], Cursor.drop 5 k) := by
  have hdigits : k.advance.rest.take 4 = Text.hex 4 c.toNat := by
    rw [Cursor.rest_advance_of_rest hrest]
    exact List.take_left' (Text.length_hex 4 _)
  have hletter : letterEscape? 'u' = none := rfl
  have hwidth : escapeWidth? 'u' = some 4 := rfl
  have hlength : ¬ (Text.hex 4 c.toNat).length < 4 := by
    rw [Text.length_hex]
    omega
  unfold escape
  rw [Cursor.peek_of_rest hrest]
  simp only [hletter, hwidth, hdigits, hexNumber?_hex hc, hlength, numberedCode_toNat]
  rfl

end

/-- The text in quotes may have the character: JSON escapes it, or YAML allows it. -/
def readable (c : Char) : Bool := decide (c.toNat < 0x20) || isAllowed c

theorem isBreak_eq_false {c : Char} (hlow : ¬ c.toNat < 0x20) (hend : lineEnd? c = none) : isBreak c = false := by
  have hn : c ≠ '\n' := fun h => hlow (by rw [h]; decide)
  have hr : c ≠ '\r' := fun h => hlow (by rw [h]; decide)
  unfold lineEnd? at hend
  split_ifs at hend with hnext hsep
  unfold isBreak
  simp_all

/-- **What is written for a character** stands for itself, or is an escape that is read as the character. -/
theorem escapeChar_cases {c : Char} (hblank : c ≠ ' ') (hend : lineEnd? c = none) :
    (escapeChar c = [c] ∧ isGap (some c) = false ∧ c ≠ '"' ∧ c ≠ '\\') ∨
      ∃ es, escapeChar c = '\\' :: es ∧ ∀ {k : Cursor} {r : List Char}, k.rest = es ++ r →
        ∃ k', k'.rest = r ∧ escape k = .ok ([.char c], k') := by
  by_cases hletter : c ∈ ['"', '\\', '\n', '\r', '\t', '\x08', '\x0c']
  · have hall : ∀ d ∈ ['"', '\\', '\n', '\r', '\t', '\x08', '\x0c'],
        escapeChar d = ['\\', (escapeChar d).getLastD ' '] ∧ letterEscape? ((escapeChar d).getLastD ' ') = some d :=
      List.all_iff_forall_prop.1 (by decide)
    obtain ⟨htext, hread⟩ := hall c hletter
    exact .inr ⟨_, htext, fun hrest => ⟨_, Cursor.rest_advance_of_rest hrest, escape_letter hrest hread⟩⟩
  simp only [List.mem_cons, List.not_mem_nil, or_false, not_or] at hletter
  obtain ⟨hquote, hslash, hn, hr, ht, hb, hf⟩ := hletter
  by_cases hlow : c.toNat < 0x20
  · refine .inr ⟨'u' :: Text.hex 4 c.toNat, ?_, fun {k r} hrest => ⟨_, ?_, escape_number (by omega) hrest⟩⟩
    · simp [escapeChar, hquote, hslash, hn, hr, ht, hb, hf, hlow]
    · rw [Cursor.rest_drop, hrest]
      exact List.drop_left' (by rw [List.length_cons, Text.length_hex])
  · refine .inl ⟨by simp [escapeChar, hquote, hslash, hn, hr, ht, hb, hf, hlow], ?_, hquote, hslash⟩
    simp [isGap, isBreak_eq_false hlow hend, hblank, ht]

/-! ### What is written -/

/-- The text as it is written up to its closing quote, and what is behind it. -/
def written (s r : List Char) : List Char := s.flatMap escapeChar ++ '"' :: r

section
variable {c e : Char} {s : List Char} (r : List Char)

theorem written_cons (c : Char) (s : List Char) : written (c :: s) r = escapeChar c ++ written s r := by
  unfold written
  rw [List.flatMap_cons, List.append_assoc]

theorem written_ne_nil (s : List Char) : written s r ≠ [] := List.append_ne_nil_of_right_ne_nil _ (List.cons_ne_nil _ _)

theorem length_lt_written (s : List Char) : s.length < (written s r).length := by
  have := Json.length_le_flatMap Json.length_escapeChar_pos s
  unfold written
  rw [List.length_append, List.length_cons]
  omega

theorem written_end (h : lineEnd? c = some e) : written (c :: s) r = c :: written s r := by
  rw [written_cons]
  rcases lineEnd?_cases h with ⟨rfl, -⟩ | ⟨rfl | rfl, -⟩ <;> rfl

theorem written_blanks (m : ℕ) (s : List Char) :
    written (List.replicate m ' ' ++ s) r = List.replicate m ' ' ++ written s r := by
  induction m with
  | zero => rfl
  | succ m ih =>
    rw [List.replicate_succ, List.cons_append, written_cons, ih]
    rfl

/-- What is written begins with a gap only if the text does. -/
theorem stops_written {p : Char → Bool} (hp : ∀ c, p c = true → isGap (some c) = true)
    (h : ∀ c, s.head? = some c → c ≠ ' ' ∧ (p c = true → lineEnd? c = none)) : Stops p (written s r) := by
  have hstops : ∀ {d : Char} {ds : List Char}, isGap (some d) = false → Stops p (d :: ds) := fun hd =>
    Stops.cons (Bool.eq_false_iff.2 fun hpd => by rw [hp _ hpd] at hd; cases hd)
  rcases s with _ | ⟨c, s⟩
  · exact hstops (by decide)
  obtain ⟨hblank, hline⟩ := h c rfl
  rw [written_cons]
  cases hend : lineEnd? c with
  | none =>
    rcases escapeChar_cases hblank hend with ⟨htext, hgap, -⟩ | ⟨es, htext, -⟩ <;> rw [htext]
    · exact hstops hgap
    · exact hstops (by decide)
  | some e =>
    rw [← written_cons, written_end r hend]
    refine Stops.cons (Bool.eq_false_iff.2 fun hpc => ?_)
    rw [hline hpc] at hend
    cases hend

theorem written_mark {d : Char} (hd : d = '-' ∨ d = '.') (s : List Char) : written (d :: s) r = d :: written s r := by
  rw [written_cons]
  rcases hd with rfl | rfl <;> rfl

/-- A dash or a point is written only for itself. -/
theorem of_written_mark {d : Char} (hd : d = '-' ∨ d = '.') {x : List Char} (h : written s r = d :: x) :
    ∃ s', s = d :: s' ∧ written s' r = x := by
  rcases s with _ | ⟨c, s⟩
  · obtain ⟨hquote, -⟩ := List.cons.inj h
    rcases hd with rfl | rfl <;> cases hquote
  have hc : escapeChar c = [c] ∨ ∃ es, escapeChar c = '\\' :: es := by
    unfold escapeChar
    split_ifs <;> simp
  rw [written_cons] at h
  rcases hc with hc | ⟨es, hc⟩ <;> rw [hc] at h <;> obtain ⟨hhead, htail⟩ := List.cons.inj h
  · exact ⟨s, by rw [hhead], htail⟩
  · rcases hd with rfl | rfl <;> cases hhead

end

section
variable {s : List Char} (r : List Char)

theorem isGap_head_written (s : List Char) :
    isGap (written s r).head? = s.head?.any fun c => c == ' ' || (lineEnd? c).isSome := by
  rcases s with _ | ⟨c, s⟩
  · rfl
  rw [List.head?_cons, Option.any_some]
  cases hend : lineEnd? c with
  | some e =>
    rw [written_end r hend]
    rcases lineEnd?_cases hend with ⟨rfl, -⟩ | ⟨rfl | rfl, -⟩ <;> rfl
  | none =>
    by_cases hblank : c = ' '
    · subst hblank
      rfl
    have hc : (c == ' ') = false := beq_eq_false_iff_ne.2 hblank
    rw [written_cons, hc]
    rcases escapeChar_cases hblank hend with ⟨htext, hgap, -⟩ | ⟨es, htext, -⟩ <;> rw [htext]
    · exact hgap
    · rfl

/-- A separator of documents is written only for one. -/
theorem atSeparator_written {k : Cursor} (hrest : k.rest = written s r) : k.atSeparator = separates s := by
  have hthree : ∀ {l : List Char} {d : Char}, l.take 3 = [d, d, d] → l = d :: d :: d :: l.drop 3 := fun {l d} h =>
    calc l = l.take 3 ++ l.drop 3 := (List.take_append_drop 3 l).symm
      _ = d :: d :: d :: l.drop 3 := by rw [h]; rfl
  unfold Cursor.atSeparator Cursor.ahead separates
  rw [hrest]
  by_cases hmark : ∃ d s', (d = '-' ∨ d = '.') ∧ s = d :: d :: d :: s'
  · obtain ⟨d, s', hd, rfl⟩ := hmark
    have hgap := isGap_head_written r s'
    rw [List.head?_eq_getElem?, List.head?_eq_getElem?] at hgap
    rw [written_mark r hd, written_mark r hd, written_mark r hd]
    simp only [List.take_succ_cons, List.take_zero, List.getElem?_cons_succ, hgap]
  · have hplain : ∀ {d : Char}, d = '-' ∨ d = '.' → (s.take 3 == [d, d, d]) = false := fun hd =>
      beq_eq_false_iff_ne.2 fun h => hmark ⟨_, _, hd, hthree h⟩
    have hwritten : ∀ {d : Char}, d = '-' ∨ d = '.' → ((written s r).take 3 == [d, d, d]) = false := fun hd =>
      beq_eq_false_iff_ne.2 fun h => by
        obtain ⟨s₁, rfl, h₁⟩ := of_written_mark r hd (hthree h)
        obtain ⟨s₂, rfl, h₂⟩ := of_written_mark r hd h₁
        obtain ⟨s₃, rfl, -⟩ := of_written_mark r hd h₂
        exact hmark ⟨_, _, hd, rfl⟩
    rw [hplain (.inl rfl), hplain (.inr rfl), hwritten (.inl rfl), hwritten (.inr rfl)]
    rfl

end

/-! ### Gaps -/

theorem exists_blanks (s : List Char) : ∃ m s', s = List.replicate m ' ' ++ s' ∧ s'.head? ≠ some ' ' := by
  induction s with
  | nil => exact ⟨0, [], rfl, by simp⟩
  | cons c s ih =>
    by_cases hc : c = ' '
    · obtain ⟨m, s', rfl, hhead⟩ := ih
      exact ⟨m + 1, s', by rw [hc, List.replicate_succ, List.cons_append], hhead⟩
    · exact ⟨0, c :: s, rfl, by simpa using hc⟩

section
variable {c e : Char} {s r : List Char} {k : Cursor}

/-- The blanks in front are taken at once. -/
theorem span_written {m : ℕ} (hhead : s.head? ≠ some ' ') (hrest : k.rest = written (List.replicate m ' ' ++ s) r) :
    ∃ k', k'.rest = written s r ∧ k.span (fun ch => ch == ' ' || ch == '\t') = (List.replicate m ' ', k') := by
  rw [written_blanks] at hrest
  have hstops : Stops (fun ch => ch == ' ' || ch == '\t') (written s r) := by
    refine stops_written r (fun c hc => ?_) fun c hc => ⟨fun h => hhead (by rw [hc, h]), fun hp => ?_⟩
    · rcases (Bool.or_eq_true _ _).mp hc with h | h <;> rw [beq_iff_eq.1 h] <;> rfl
    · rcases (Bool.or_eq_true _ _).mp hp with h | h <;> rw [beq_iff_eq.1 h] <;> rfl
  refine ⟨Cursor.drop m k, ?_, ?_⟩
  · rw [Cursor.rest_drop, hrest, List.drop_left' List.length_replicate]
  · unfold Cursor.span
    rw [hrest, takeWhile_run (fun c hc => by simp [List.eq_of_mem_replicate hc]) hstops]
    dsimp only
    rw [List.length_replicate]

theorem takeBreak_written (hhead : s.head? ≠ some ' ') (hline : s.head?.bind lineEnd? = none)
    (hrest : k.rest = written s r) : k.takeBreak = ([], k) := by
  refine Cursor.takeBreak_of_stops (hrest ▸ stops_written r (fun c hc => by simp [isGap, hc]) fun c hc => ?_)
  rw [hc, Option.bind_some] at hline
  exact ⟨fun h => hhead (by rw [hc, h]), fun _ => hline⟩

theorem takeBreak_written_end (h : lineEnd? c = some e) (hrest : k.rest = written (c :: s) r) :
    ∃ k', k'.rest = written s r ∧ k.takeBreak = ([e], k') := by
  rw [written_end r h] at hrest
  refine ⟨k.advance, Cursor.rest_advance_of_rest hrest, ?_⟩
  unfold Cursor.takeBreak
  rw [hrest]
  rcases lineEnd?_cases h with ⟨rfl, rfl⟩ | ⟨rfl | rfl, rfl⟩ <;> rfl

end

/-- **Empty lines behind a line end** are taken off the text as folding takes them off, up to a line that separates
documents. The induction is on how long the text is, since the blanks of a line are taken at once. -/
theorem quotedEmpties_written (n : ℕ) : ∀ {s : List Char}, s.length = n → ∀ (fuel : ℕ) (done : List Char)
    {r : List Char} {k : Cursor}, k.rest = written s r → n < fuel →
      foldBehind s = none ∧ quotedEmpties fuel done k = .error .badYaml ∨
      ∃ ends s' k', s' <:+ s ∧ k'.rest = written s' r ∧ foldBehind s = (foldLine s').map (ends, ·) ∧
        quotedEmpties fuel done k = .ok (done ++ ends, k') := by
  induction n using Nat.strongRecOn with
  | ind n ih =>
    intro s hlength fuel done r k hrest hfuel
    obtain ⟨fuel, rfl⟩ : ∃ j, fuel = j + 1 := ⟨fuel - 1, by omega⟩
    rw [quotedEmpties, atSeparator_written r hrest]
    cases hseparates : separates s with
    | true =>
      refine .inl ⟨?_, rfl⟩
      unfold foldBehind
      rw [if_pos hseparates]
    | false =>
      have hbehind : foldBehind s = foldStart s := by
        unfold foldBehind
        rw [hseparates, if_neg Bool.false_ne_true]
      obtain ⟨m, s, rfl, hhead⟩ := exists_blanks s
      obtain ⟨k₁, hk₁, hspan⟩ := span_written hhead hrest
      have hskip : k.skip (fun ch => ch == ' ' || ch == '\t') = k₁ := congrArg Prod.snd hspan
      rw [hbehind, foldStart_blanks, if_neg Bool.false_ne_true]
      dsimp only
      rw [hskip]
      rcases s with _ | ⟨c, s⟩
      · rw [takeBreak_written hhead rfl hk₁]
        exact .inr ⟨[], [], k₁, List.nil_suffix, hk₁, rfl, by rw [List.append_nil]⟩
      cases hend : lineEnd? c with
      | none =>
        rw [takeBreak_written hhead (by rw [List.head?_cons, Option.bind_some, hend]) hk₁]
        have hblank : c ≠ ' ' := fun h => hhead (by rw [h]; rfl)
        exact .inr ⟨[], c :: s, k₁, List.suffix_append _ _, hk₁, foldStart_char hend hblank, by rw [List.append_nil]⟩
      | some e =>
        obtain ⟨k₂, hk₂, hbreak⟩ := takeBreak_written_end hend hk₁
        rw [hbreak, foldStart_end hend]
        rw [List.length_append, List.length_cons] at hlength
        rcases ih s.length (by omega) rfl fuel (done ++ [e]) hk₂ (by omega) with
          ⟨hnone, herror⟩ | ⟨ends, s', k', hsuffix, hk', hfold, hok⟩
        · exact .inl ⟨by rw [hnone]; rfl, herror⟩
        · refine .inr ⟨e :: ends, s', k', ?_, hk', ?_, ?_⟩
          · exact hsuffix.trans ((List.suffix_cons c s).trans (List.suffix_append _ _))
          · rw [hfold, Option.map_map]
            rfl
          · rw [List.append_assoc] at hok
            exact hok

/-- A gap is taken off the text and off its meaning alike. -/
theorem quotedGap_written {c : Char} {s r : List Char} {k : Cursor} (hgap : c = ' ' ∨ (lineEnd? c).isSome = true)
    (hrest : k.rest = written (c :: s) r) :
    foldLine (c :: s) = none ∧ quotedGap k = .error .badYaml ∨
    ∃ gap s' k', s' <:+ s ∧ k'.rest = written s' r ∧ foldLine (c :: s) = (foldLine s').map (gap ++ ·) ∧
      quotedGap k = .ok (gap, k') := by
  obtain ⟨m, t, heq, hhead⟩ := exists_blanks (c :: s)
  rw [heq] at hrest ⊢
  obtain ⟨k₁, hk₁, hspan⟩ := span_written hhead hrest
  unfold quotedGap
  rw [hspan]
  dsimp only
  by_cases hline : t.head?.bind lineEnd? = none
  · -- blanks alone, and at least one
    have hsuffix : t <:+ s := by
      rcases m with _ | m
      · rw [List.replicate_zero, List.nil_append] at heq
        subst heq
        rw [List.head?_cons, Option.bind_some] at hline
        rcases hgap with rfl | hgap
        · exact absurd rfl hhead
        · rw [hline] at hgap
          cases hgap
      · obtain ⟨-, rfl⟩ := List.cons.inj heq
        exact List.suffix_append _ _
    rw [takeBreak_written hhead hline hk₁]
    dsimp only
    rw [hk₁, List.isEmpty_eq_false_iff.2 (written_ne_nil r t)]
    exact .inr ⟨List.replicate m ' ', t, k₁, hsuffix, hk₁, foldLine_blanks m hhead hline, rfl⟩
  · obtain ⟨e, he⟩ := Option.ne_none_iff_exists'.1 hline
    obtain ⟨d, hd, hend⟩ := Option.bind_eq_some_iff.1 he
    rcases t with _ | ⟨d', t⟩
    · cases hd
    obtain rfl : d' = d := Option.some.inj hd
    have hsuffix : t <:+ s := by
      rcases m with _ | m
      · obtain ⟨-, rfl⟩ := List.cons.inj heq
        exact List.suffix_refl _
      · obtain ⟨-, rfl⟩ := List.cons.inj heq
        exact (List.suffix_cons _ _).trans (List.suffix_append _ _)
    obtain ⟨k₂, hk₂, hbreak⟩ := takeBreak_written_end hend hk₁
    have hfuel : t.length < k₂.rest.length + 1 := by
      rw [hk₂]
      exact (length_lt_written r t).trans (Nat.lt_succ_self _)
    rw [hbreak, foldLine_blanks_end m hend, foldLine_end hend]
    rcases quotedEmpties_written t.length rfl (k₂.rest.length + 1) [] hk₂ hfuel with
      ⟨hnone, herror⟩ | ⟨ends, s', k', hsuffix', hk', hfold, hok⟩
    · dsimp only
      rw [hnone, herror]
      exact .inl ⟨rfl, rfl⟩
    · dsimp only
      rw [hfold, hok, Option.map_map]
      exact .inr ⟨foldBreak [e] ends, s', k', hsuffix'.trans hsuffix, hk', rfl, rfl⟩

/-! ### Texts -/

section
variable {k k' : Cursor} {r : List Char} (fuel : ℕ) (done : List CodePoint)

theorem quotedText_char {c : Char} (hrest : k.rest = c :: r) (hgap : isGap (some c) = false) (hquote : c ≠ '"')
    (hslash : c ≠ '\\') : quotedText true (fuel + 1) done k = quotedText true fuel (.char c :: done) k.advance := by
  rw [quotedText, Cursor.peek_of_rest hrest]
  simp [hgap, hquote, hslash]

theorem quotedText_escape {cs : List CodePoint} (hrest : k.rest = '\\' :: r)
    (hescape : escape k.advance = .ok (cs, k')) :
    quotedText true (fuel + 1) done k = quotedText true fuel (cs.reverse ++ done) k' := by
  rw [quotedText, Cursor.peek_of_rest hrest]
  simp only [hescape, ← List.reverseAux_eq]
  rfl

theorem quotedText_gap {c : Char} (hrest : k.rest = c :: r) (hgap : isGap (some c) = true) :
    quotedText true (fuel + 1) done k =
      quotedGap k >>= fun p => quotedText true fuel ((p.1.map .char).reverse ++ done) p.2 := by
  rw [quotedText, Cursor.peek_of_rest hrest]
  simp only [hgap, if_true, List.reverseAux_eq]

end

/-- **One step** takes a character, an escape or a gap off the text and off its meaning alike, unless the text has no
meaning. -/
theorem quotedText_step {c : Char} {s r : List Char} {k : Cursor} (hrest : k.rest = written (c :: s) r) (fuel : ℕ)
    (done : List CodePoint) :
    foldLine (c :: s) = none ∧ quotedText true (fuel + 1) done k = .error .badYaml ∨
    ∃ taken s' k', s' <:+ s ∧ k'.rest = written s' r ∧ foldLine (c :: s) = (foldLine s').map (taken ++ ·) ∧
      quotedText true (fuel + 1) done k = quotedText true fuel ((taken.map .char).reverse ++ done) k' := by
  by_cases hgap : c = ' ' ∨ (lineEnd? c).isSome = true
  · obtain ⟨x, hx, hisGap⟩ : ∃ x, written (c :: s) r = c :: x ∧ isGap (some c) = true := by
      rcases hgap with rfl | hgap
      · exact ⟨_, rfl, rfl⟩
      · obtain ⟨e, hend⟩ := Option.isSome_iff_exists.1 hgap
        refine ⟨_, written_end r hend, ?_⟩
        rcases lineEnd?_cases hend with ⟨rfl, -⟩ | ⟨rfl | rfl, -⟩ <;> rfl
    rw [quotedText_gap fuel done (hrest.trans hx) hisGap]
    rcases quotedGap_written hgap hrest with ⟨hnone, herror⟩ | ⟨gap, s', k', hsuffix, hk', hfold, hok⟩
    · exact .inl ⟨hnone, by rw [herror]; rfl⟩
    · exact .inr ⟨gap, s', k', hsuffix, hk', hfold, by rw [hok]; rfl⟩
  · rw [not_or, Bool.not_eq_true, Option.isSome_eq_false_iff, Option.isNone_iff_eq_none] at hgap
    obtain ⟨hblank, hend⟩ := hgap
    have hfold : foldLine (c :: s) = (foldLine s).map ([c] ++ ·) := foldLine_char hend hblank
    rw [written_cons] at hrest
    rcases escapeChar_cases hblank hend with ⟨htext, hgap, hquote, hslash⟩ | ⟨es, htext, hread⟩ <;> rw [htext] at hrest
    · exact .inr ⟨[c], s, _, List.suffix_refl _, Cursor.rest_advance_of_rest hrest, hfold,
        quotedText_char fuel done hrest hgap hquote hslash⟩
    · obtain ⟨k', hk', hescape⟩ := hread (Cursor.rest_advance_of_rest hrest)
      exact .inr ⟨[c], s, k', List.suffix_refl _, hk', hfold, quotedText_escape fuel done hrest hescape⟩

/-- **A text in double quotes is read as its meaning**, and refused if it has none. -/
theorem quotedText_written (n : ℕ) : ∀ {s : List Char}, s.length = n → ∀ (fuel : ℕ) (done : List CodePoint)
    {r : List Char} {k : Cursor}, k.rest = written s r → n < fuel →
      foldLine s = none ∧ quotedText true fuel done k = .error .badYaml ∨
      ∃ t k', foldLine s = some t ∧ k'.rest = r ∧
        quotedText true fuel done k = .ok ((t.map .char).reverse ++ done, k') := by
  induction n using Nat.strongRecOn with
  | ind n ih =>
    intro s hlength fuel done r k hrest hfuel
    obtain ⟨fuel, rfl⟩ : ∃ j, fuel = j + 1 := ⟨fuel - 1, by omega⟩
    rcases s with _ | ⟨c, s⟩
    · refine .inr ⟨[], _, rfl, Cursor.rest_advance_of_rest hrest, ?_⟩
      rw [quotedText, Cursor.peek_of_rest hrest]
      rfl
    rw [List.length_cons] at hlength
    rcases quotedText_step hrest fuel done with hstep | ⟨taken, s', k₁, hsuffix, hk₁, hfold, hstep⟩
    · exact .inl hstep
    rw [hfold, hstep]
    have hless := hsuffix.length_le
    rcases ih s'.length (by omega) rfl fuel ((taken.map .char).reverse ++ done) hk₁ (by omega) with
      ⟨hnone, herror⟩ | ⟨t, k', hsome, hk', hok⟩
    · exact .inl ⟨by rw [hnone]; rfl, herror⟩
    · refine .inr ⟨taken ++ t, k', by rw [hsome]; rfl, hk', ?_⟩
      rw [hok, List.map_append, List.reverse_append, List.append_assoc]

/-! ### Documents -/

theorem isAllowed_escapeChar {c : Char} (hc : readable c = true) : (escapeChar c).all isAllowed = true := by
  by_cases hlow : c.toNat < 0x20
  · have hall : ∀ k : Fin 32, (escapeChar (Char.ofNat k)).all isAllowed = true := by decide
    have := hall ⟨c.toNat, hlow⟩
    rwa [Char.ofNat_toNat] at this
  · have hallowed : isAllowed c = true := by simpa [readable, hlow] using hc
    unfold escapeChar
    split_ifs <;> simp [hallowed] <;> decide

theorem writeText_ofChars (s : List Char) : Json.writeText (.ofChars s) = .ofChars ('"' :: written s []) := by
  have hcodes : (s.map CodePoint.char).flatMap Json.escapeCode = (s.flatMap escapeChar).map .char := by
    rw [List.flatMap_map, List.map_flatMap]
    rfl
  refine Text.ext ?_
  rw [Json.codes_writeText, Text.codes_ofChars, hcodes, written, Text.codes_ofChars, List.map_cons, List.map_append]
  rfl

/-- **The JSON text of a text is a document of its meaning**, and refused if it has none. -/
theorem read_writeText {s : List Char} (hs : s.all readable = true) :
    read (Json.writeText (.ofChars s)) = match foldLine s with
      | some t => .ok (.str (.ofChars t))
      | none => .error .badYaml := by
  rw [writeText_ofChars]
  have hallowed : ('"' :: written s []).all isAllowed = true := by
    rw [List.all_cons, written, List.all_append, List.all_flatMap,
      List.all_eq_true.2 fun c hc => isAllowed_escapeChar (List.all_eq_true.1 hs c hc)]
    rfl
  have hfuel : s.length < ('"' :: written s []).length + 1 :=
    (length_lt_written [] _).trans (by rw [List.length_cons]; omega)
  have hopen : (Cursor.start ('"' :: written s [])).advance.rest = written s [] := Cursor.rest_advance_of_rest rfl
  rcases quotedText_written s.length rfl (('"' :: written s []).length + 1) [] hopen hfuel with
    ⟨hnone, herror⟩ | ⟨t, k', hsome, hend, hok⟩
  · rw [hnone]
    have hscalar : quotedScalar true (Cursor.start ('"' :: written s [])) = .error .badYaml := by
      unfold quotedScalar
      exact congrArg (· >>= _) herror
    exact read_of_tokens_error (tokens_quoted_error hallowed hscalar)
  · rw [hsome]
    have hscalar : quotedScalar true (Cursor.start ('"' :: written s [])) = .ok (.ofChars t, k') := by
      unfold quotedScalar
      rw [List.append_nil] at hok
      calc _ = (Except.ok ((t.map CodePoint.char).reverse, k') >>= fun p => Except.ok (⟨p.1.reverse⟩, p.2)) :=
            congrArg (· >>= _) hok
        _ = .ok (⟨(t.map CodePoint.char).reverse.reverse⟩, k') := rfl
        _ = .ok (Text.ofChars t, k') := by rw [List.reverse_reverse]; rfl
    refine read_of_tokens (tokens_quoted hallowed hscalar hend) ?_
    rfl

/-- A text with a character that YAML does not allow, and that JSON does not escape, is refused. -/
theorem read_writeText_error {s : List Char} (hs : s.all readable = false) :
    read (Json.writeText (.ofChars s)) = .error .badYaml := by
  obtain ⟨c, hmem, hc⟩ := List.all_eq_false.1 hs
  have hnot : ¬ c.toNat < 0x20 ∧ isAllowed c = false := by simpa [readable] using hc
  have hself : c ∈ escapeChar c := by
    have hlow := hnot.1
    unfold escapeChar
    split_ifs <;> simp_all
  rw [writeText_ofChars]
  refine read_of_tokens_error (tokens_of_not_allowed ?_)
  rw [List.all_eq_false]
  refine ⟨c, ?_, by rw [hnot.2]; decide⟩
  exact List.mem_cons_of_mem _ (List.mem_append_left _ (List.mem_flatMap.2 ⟨c, hmem, hself⟩))

/-- Half of a surrogate pair, which JSON does not escape either, is refused. -/
theorem read_writeText_half {s : Text} {i : Fin 2048} (h : .half i ∈ s.codes) :
    read (Json.writeText s) = .error .badYaml := by
  refine read_of_half (i := i) ?_
  rw [Json.codes_writeText]
  exact List.mem_cons_of_mem _ (List.mem_append_left _ (List.mem_flatMap.2 ⟨_, h, List.mem_singleton_self _⟩))

end StackCalc.Yaml
