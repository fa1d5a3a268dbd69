import StackCalc.Number.Decimal
import StackCalc.Proofs.Number.Shortest
import Mathlib.Data.Bool.AllAny

/-! # Numerals

A numeral without its sign is a whole part, a fraction and an exponent (`Spelling`). Digits are laid out as
one of these (`exists_lays`), whichever layout is chosen, with the value of the digits, and the grammar takes it
apart again (`ofChars?_text`). So the digits in the text of a finite value round to the value (`exists_spelling`). -/

namespace StackCalc

open Binary64 (Near Canonical magnitudeOf two_zpow_pos)

/-! ### Runs -/

/-- A run of a class, as of characters, goes no further. -/
def Stops {α : Type} (p : α → Bool) (rest : List α) : Prop := ∀ c, rest.head? = some c → p c = false

section
variable {α : Type} {p : α → Bool} {run rest : List α}

theorem Stops.nil : Stops p [] := fun c h => by cases h

theorem Stops.cons {c : α} (h : p c = false) : Stops p (c :: rest) := fun d hd => by
  cases hd
  exact h

theorem takeWhile_of_stops (h : Stops p rest) : rest.takeWhile p = [] := by
  cases rest with
  | nil => rfl
  | cons c rest => exact List.takeWhile_cons_of_neg (by simp [h c rfl])

theorem dropWhile_of_stops (h : Stops p rest) : rest.dropWhile p = rest := by
  cases rest with
  | nil => rfl
  | cons c rest => exact List.dropWhile_cons_of_neg (by simp [h c rfl])

theorem takeWhile_run (hrun : ∀ c ∈ run, p c = true) (h : Stops p rest) : (run ++ rest).takeWhile p = run := by
  rw [List.takeWhile_append_of_pos hrun, takeWhile_of_stops h, List.append_nil]

theorem dropWhile_run (hrun : ∀ c ∈ run, p c = true) (h : Stops p rest) : (run ++ rest).dropWhile p = rest := by
  rw [List.dropWhile_append_of_pos hrun, dropWhile_of_stops h]

end

namespace Decimal

/-! ### Digits -/

theorem ofDigits_toDigits (n : ℕ) : ofDigits (Nat.toDigits 10 n) = n :=
  Nat.ofDigitChars_toDigits (by norm_num) le_rfl

theorem isDigit_of_mem_toDigits {n : ℕ} {c : Char} (h : c ∈ Nat.toDigits 10 n) : c.isDigit = true :=
  Nat.isDigit_of_mem_toDigits (by norm_num) le_rfl h

theorem ofDigits_zeros_append (k : ℕ) (ds : List Char) : ofDigits (List.replicate k '0' ++ ds) = ofDigits ds := by
  induction k with
  | zero => rfl
  | succ k ih => exact ih

theorem ofDigits_append_zeros (ds : List Char) (k : ℕ) :
    ofDigits (ds ++ List.replicate k '0') = ofDigits ds * 10 ^ k := by
  induction k with
  | zero => simp
  | succ k ih =>
    rw [List.replicate_succ', ← List.append_assoc]
    unfold ofDigits at ih ⊢
    rw [List.foldl_append, ih, pow_succ]
    simp only [List.foldl_cons, List.foldl_nil]
    have hzero : '0'.toNat - 48 = 0 := by decide
    rw [hzero]
    ring

/-- The digits of a positive number do not begin with zero. -/
theorem head_toDigits {n : ℕ} (hn : 0 < n) : ∃ c ds, Nat.toDigits 10 n = c :: ds ∧ c ≠ '0' := by
  induction n using Nat.strongRecOn with
  | ind n ih =>
    rw [Nat.toDigits_eq_if (by norm_num)]
    split_ifs with hlt
    · refine ⟨n.digitChar, [], rfl, ?_⟩
      have hall : ∀ k : Fin 10, k.1 ≠ 0 → k.1.digitChar ≠ '0' := by decide
      exact hall ⟨n, hlt⟩ hn.ne'
    · obtain ⟨c, ds, hds, hc⟩ := ih (n / 10) (by omega) (by omega)
      exact ⟨c, ds ++ [(n % 10).digitChar], by rw [hds, List.cons_append], hc⟩

/-! ### Spellings -/

/-- A numeral without its sign: a whole part, a fraction, and an exponent with its sign. -/
structure Spelling where
  whole : List Char
  fraction : List Char
  exponent : Option (Bool × List Char)

namespace Spelling

/-- The fraction with the point in front of it. -/
def pointText (s : Spelling) : List Char := if s.fraction = [] then [] else '.' :: s.fraction

/-- The exponent with its mark. -/
def exponentText (s : Spelling) : List Char :=
  match s.exponent with
  | none => []
  | some (neg, ds) => 'e' :: (if neg then '-' else '+') :: ds

/-- The characters of a numeral. -/
def text (s : Spelling) : List Char := s.whole ++ (s.pointText ++ s.exponentText)

/-- The power of ten that the exponent says. -/
def power (s : Spelling) : ℤ :=
  match s.exponent with
  | none => 0
  | some (neg, ds) => if neg then -(ofDigits ds : ℤ) else ofDigits ds

/-- What a numeral stands for. -/
def decimal (s : Spelling) : Decimal := ⟨ofDigits (s.whole ++ s.fraction), s.power - s.fraction.length⟩

/-- The numeral is one of an integer. -/
def isIntegral (s : Spelling) : Bool := s.fraction.isEmpty && s.exponent.isNone

/-- **The parts are digits**, the whole part has some and no leading zero, and so has the exponent some. -/
structure Proper (s : Spelling) : Prop where
  whole : ∀ c ∈ s.whole, c.isDigit = true
  fraction : ∀ c ∈ s.fraction, c.isDigit = true
  nonempty : s.whole ≠ []
  lead : s.whole.head? = some '0' → s.whole = ['0']
  exponent : ∀ neg ds, s.exponent = some (neg, ds) → ds ≠ [] ∧ ∀ c ∈ ds, c.isDigit = true

variable {s : Spelling}

theorem stops_exponentText (rest : List Char) (h : s.exponent = none → Stops Char.isDigit rest) :
    Stops Char.isDigit (s.exponentText ++ rest) := by
  unfold exponentText
  rcases hs : s.exponent with _ | ⟨neg, ds⟩
  · exact h hs
  · exact Stops.cons (by decide)

theorem stops_pointText (h : Stops Char.isDigit (s.exponentText ++ [])) :
    Stops Char.isDigit (s.pointText ++ s.exponentText) := by
  unfold pointText
  split_ifs
  · rwa [List.append_nil] at h
  · exact Stops.cons (by decide)

theorem exponent?_exponentText (hs : s.Proper) : exponent? s.exponentText = some s.power := by
  unfold exponentText power
  rcases hexp : s.exponent with _ | ⟨neg, ds⟩
  · rfl
  · obtain ⟨hne, hdigits⟩ := hs.exponent neg ds hexp
    have hempty : ds.isEmpty = false := by
      cases ds with
      | nil => exact absurd rfl hne
      | cons => rfl
    have hall : ds.all Char.isDigit = true := List.all_eq_true.2 hdigits
    unfold exponent?
    cases neg <;> simp [splitSign, hempty, hall]

theorem head_whole (hs : s.Proper) : ∃ c cs, s.whole = c :: cs ∧ c.isDigit = true := by
  rcases hw : s.whole with _ | ⟨c, cs⟩
  · exact absurd hw hs.nonempty
  · exact ⟨c, cs, rfl, hs.whole c (by rw [hw]; exact List.mem_cons_self)⟩

theorem splitSign_of_isDigit {c : Char} (hc : c.isDigit = true) (cs : List Char) :
    splitSign (c :: cs) = (false, c :: cs) := by
  unfold splitSign
  split
  next heq =>
    cases heq
    cases hc
  next heq =>
    cases heq
    cases hc
  next => rfl

theorem splitSign_text (hs : s.Proper) : splitSign s.text = (false, s.text) := by
  obtain ⟨c, cs, hw, hc⟩ := head_whole hs
  unfold text
  rw [hw, List.cons_append]
  exact splitSign_of_isDigit hc _

theorem exponentText_cases (s : Spelling) : s.exponentText = [] ∨ ∃ r, s.exponentText = 'e' :: r := by
  unfold exponentText
  split
  · exact .inl rfl
  · exact .inr ⟨_, rfl⟩

/-- **A numeral is taken apart into its parts.** -/
theorem ofChars?_text (hs : s.Proper) (neg : Bool) :
    Literal.ofChars? ((if neg then ['-'] else []) ++ s.text) = some ⟨neg, s.decimal.digits, s.decimal.exponent⟩ := by
  have hsplit : splitSign ((if neg then ['-'] else []) ++ s.text) = (neg, s.text) := by
    cases neg with
    | false => exact splitSign_text hs
    | true => rfl
  have hstops : Stops Char.isDigit (s.pointText ++ s.exponentText) :=
    stops_pointText (stops_exponentText [] fun _ => Stops.nil)
  have htake : s.text.takeWhile Char.isDigit = s.whole := takeWhile_run hs.whole hstops
  have hdrop : s.text.dropWhile Char.isDigit = s.pointText ++ s.exponentText := dropWhile_run hs.whole hstops
  have hwhole : s.whole.isEmpty = false := by
    obtain ⟨c, cs, hw, -⟩ := head_whole hs
    rw [hw]
    rfl
  unfold Literal.ofChars?
  rw [hsplit]
  dsimp only
  rw [htake, hdrop, hwhole, Bool.false_and]
  by_cases hf : s.fraction = []
  · have hpoint : s.pointText = [] := if_pos hf
    have hexp := exponent?_exponentText hs
    rw [hpoint, List.nil_append]
    unfold decimal
    rw [hf]
    rcases exponentText_cases s with h | ⟨r, h⟩ <;> rw [h] at hexp ⊢ <;> simp [hexp]
  · have hpoint : s.pointText = '.' :: s.fraction := if_neg hf
    have hend : Stops Char.isDigit s.exponentText := by
      have h := stops_exponentText (s := s) [] fun _ => Stops.nil
      rwa [List.append_nil] at h
    rw [hpoint, List.cons_append]
    simp [takeWhile_run hs.fraction hend, dropWhile_run hs.fraction hend, exponent?_exponentText hs, decimal]

end Spelling

/-! ### Laying digits out -/

/-- The value of digits does not depend on zeros behind them. -/
theorem value_mul_ten (n k : ℕ) (e : ℤ) : value ⟨n * 10 ^ k, e - k⟩ = value ⟨n, e⟩ := by
  have hsplit : (10 : ℚ) ^ e = 10 ^ (e - k) * 10 ^ (k : ℤ) := by
    rw [← ten_zpow_add, sub_add_cancel]
  unfold value
  dsimp only
  rw [hsplit, zpow_natCast]
  push_cast
  ring

/-- **The numeral is one that digits can be laid out as** with the point that many places to the right of the first:
it has the value of the digits, and it shows that it is none of an integer. Only a single digit in front of an
exponent is without a point. -/
structure Spelling.Lays (ds : List Char) (point : ℤ) (s : Spelling) : Prop where
  proper : s.Proper
  real : s.isIntegral = false
  short : s.fraction = [] → s.whole.length = 1
  value_eq : s.decimal.value = value ⟨ofDigits ds, point - ds.length⟩

theorem isDigit_of_mem_zeros {k : ℕ} {c : Char} (h : c ∈ List.replicate k '0') : c.isDigit = true := by
  rw [List.eq_of_mem_replicate h]
  rfl

theorem isDigit_of_mem_zero : ∀ c ∈ ['0'], c.isDigit = true := List.all_iff_forall_prop.1 (by decide)

theorem ofDigits_padded (n : ℕ) :
    ofDigits (if (Nat.toDigits 10 n).length < 2 then '0' :: Nat.toDigits 10 n else Nat.toDigits 10 n) = n := by
  split_ifs
  · exact (ofDigits_zeros_append 1 _).trans (ofDigits_toDigits n)
  · exact ofDigits_toDigits n

theorem isDigit_of_mem_padded {n : ℕ} {c : Char}
    (h : c ∈ if (Nat.toDigits 10 n).length < 2 then '0' :: Nat.toDigits 10 n else Nat.toDigits 10 n) :
    c.isDigit = true := by
  split_ifs at h
  · rcases List.mem_cons.1 h with rfl | h
    · rfl
    · exact isDigit_of_mem_toDigits h
  · exact isDigit_of_mem_toDigits h

theorem padded_ne_nil (n : ℕ) :
    (if (Nat.toDigits 10 n).length < 2 then '0' :: Nat.toDigits 10 n else Nat.toDigits 10 n) ≠ [] := by
  split_ifs
  · exact List.cons_ne_nil _ _
  · exact Nat.toDigits_ne_nil

section
variable {ds : List Char} (hdigits : ∀ c ∈ ds, c.isDigit = true) {c : Char} {cs : List Char} (hds : ds = c :: cs)
  (hc : c ≠ '0')

include hdigits hds

/-- Digits behind the point. -/
theorem lays_behind (k : ℕ) : Spelling.Lays ds (-k) ⟨['0'], List.replicate k '0' ++ ds, none⟩ := by
  have hne : List.replicate k '0' ++ ds ≠ [] := by simp [hds]
  have hread : ofDigits (['0'] ++ (List.replicate k '0' ++ ds)) = ofDigits ds := by
    rw [← List.append_assoc]
    exact ofDigits_zeros_append (k + 1) ds
  refine ⟨⟨isDigit_of_mem_zero, fun d hd => ?_, List.cons_ne_nil _ _, fun _ => rfl, fun _ _ h => (nomatch h)⟩, ?_,
    fun h => absurd h hne, ?_⟩
  · rcases List.mem_append.1 hd with hd | hd
    · exact isDigit_of_mem_zeros hd
    · exact hdigits d hd
  · simp [Spelling.isIntegral, hds]
  · unfold Spelling.decimal Spelling.power
    dsimp only
    rw [hread, List.length_append, List.length_replicate]
    congr 2
    push_cast
    ring

include hc

/-- All digits in front of the point. -/
theorem lays_front (k : ℕ) : Spelling.Lays ds (ds.length + k) ⟨ds ++ List.replicate k '0', ['0'], none⟩ := by
  have hread : ofDigits (ds ++ List.replicate k '0' ++ ['0']) = ofDigits ds * 10 ^ (k + 1) := by
    rw [List.append_assoc, ← List.replicate_succ']
    exact ofDigits_append_zeros ds (k + 1)
  refine ⟨⟨fun d hd => ?_, isDigit_of_mem_zero, by simp [hds], fun h => ?_, fun _ _ h => (nomatch h)⟩, rfl,
    fun h => (nomatch h), ?_⟩
  · rcases List.mem_append.1 hd with hd | hd
    · exact hdigits d hd
    · exact isDigit_of_mem_zeros hd
  · rw [hds] at h
    exact absurd (Option.some.inj h) hc
  · unfold Spelling.decimal Spelling.power
    dsimp only
    rw [hread, ← value_mul_ten (ofDigits ds) (k + 1)]
    congr 2
    rw [List.length_singleton]
    push_cast
    ring

/-- The point between two digits. -/
theorem lays_between {n : ℕ} (hn : 0 < n) (hlt : n < ds.length) : Spelling.Lays ds n ⟨ds.take n, ds.drop n, none⟩ := by
  have hne : ds.drop n ≠ [] := by simpa using hlt
  obtain ⟨k, rfl⟩ : ∃ k, n = k + 1 := ⟨n - 1, by omega⟩
  refine ⟨⟨fun d hd => hdigits d (List.mem_of_mem_take hd), fun d hd => hdigits d (List.mem_of_mem_drop hd),
    by simp [hds], fun h => ?_, fun _ _ h => (nomatch h)⟩, ?_, fun h => absurd h hne, ?_⟩
  · rw [hds] at h
    exact absurd (Option.some.inj h) hc
  · simpa [Spelling.isIntegral] using hlt
  · unfold Spelling.decimal Spelling.power
    dsimp only
    rw [List.take_append_drop, List.length_drop]
    congr 2
    omega

/-- One digit in front of the point, and an exponent; a fraction of zero may be left out. -/
theorem lays_scientific (point : ℤ) {tail : List Char} (htail : ds.drop 1 = [] ∧ tail = ['0'] ∨ tail = ds.drop 1) :
    Spelling.Lays ds point ⟨ds.take 1, tail, some (decide (point - 1 < 0),
      if (Nat.toDigits 10 (point - 1).natAbs).length < 2 then '0' :: Nat.toDigits 10 (point - 1).natAbs
      else Nat.toDigits 10 (point - 1).natAbs)⟩ := by
  have hpower : (if decide (point - 1 < 0) = true then -((point - 1).natAbs : ℤ) else ((point - 1).natAbs : ℤ)) =
      point - 1 := by
    simp only [decide_eq_true_eq]
    split_ifs <;> omega
  have htaildigits : ∀ d ∈ tail, d.isDigit = true := by
    rcases htail with ⟨-, rfl⟩ | rfl
    · exact isDigit_of_mem_zero
    · exact fun d hd => hdigits d (List.mem_of_mem_drop hd)
  refine ⟨⟨fun d hd => hdigits d (List.mem_of_mem_take hd), htaildigits, by simp [hds], fun h => ?_,
    fun neg es hes => ?_⟩, by simp [Spelling.isIntegral], fun _ => by simp [hds], ?_⟩
  · rw [hds] at h
    exact absurd (Option.some.inj h) hc
  · obtain ⟨-, rfl⟩ := Prod.mk.inj (Option.some.inj hes)
    exact ⟨padded_ne_nil _, fun d hd => isDigit_of_mem_padded hd⟩
  · unfold Spelling.decimal Spelling.power
    dsimp only
    rw [ofDigits_padded, hpower]
    rcases htail with ⟨hdrop, rfl⟩ | rfl
    · have hone : ds.take 1 ++ ['0'] = ds ++ List.replicate 1 '0' := by
        rw [List.take_of_length_le (List.drop_eq_nil_iff.1 hdrop)]
        rfl
      have hlength : ds.length = 1 := by
        have := List.drop_eq_nil_iff.1 hdrop
        rw [hds, List.length_cons] at this ⊢
        omega
      rw [hone, ofDigits_append_zeros, ← value_mul_ten (ofDigits ds) 1, hlength]
      rfl
    · rw [List.take_append_drop, List.length_drop, hds, List.length_cons]
      congr 2
      push_cast
      omega

/-- **Digits of a positive number are laid out as a numeral.** -/
theorem exists_lays (style : Layout) (point : ℤ) :
    ∃ s : Spelling, Spelling.Lays ds point s ∧ arrange style ds point = s.text := by
  unfold arrange
  by_cases hpositional : style.leastPoint ≤ point ∧ point ≤ style.greatestPoint
  · rw [if_pos hpositional]
    by_cases hpoint : point ≤ 0
    · rw [if_pos hpoint]
      have hlays := lays_behind hdigits hds (-point).toNat
      have heq : -((-point).toNat : ℤ) = point := by omega
      rw [heq] at hlays
      refine ⟨_, hlays, ?_⟩
      have hne : List.replicate (-point).toNat '0' ++ ds ≠ [] := by simp [hds]
      unfold Spelling.text Spelling.pointText Spelling.exponentText
      dsimp only
      rw [if_neg hne, List.append_nil]
      rfl
    · rw [if_neg hpoint]
      dsimp only
      rcases le_or_gt ds.length point.toNat with hle | hlt
      · have hlays := lays_front hdigits hds hc (point.toNat - ds.length)
        have heq : (ds.length : ℤ) + (point.toNat - ds.length : ℕ) = point := by omega
        rw [heq] at hlays
        refine ⟨_, hlays, ?_⟩
        rw [List.take_of_length_le hle, List.drop_of_length_le hle]
        rfl
      · have hlays := lays_between hdigits hds hc (n := point.toNat) (by omega) hlt
        have heq : (point.toNat : ℤ) = point := by omega
        rw [heq] at hlays
        refine ⟨_, hlays, ?_⟩
        have hne : ds.drop point.toNat ≠ [] := by simpa using hlt
        have hzeros : point.toNat - ds.length = 0 := by omega
        unfold Spelling.text Spelling.pointText Spelling.exponentText
        dsimp only
        rw [if_neg (by simpa using hne), if_neg hne, hzeros, List.replicate_zero, List.append_nil, List.append_nil]
  · rw [if_neg hpositional]
    dsimp only
    have hsign : (if point - 1 < 0 then '-' else '+') = if decide (point - 1 < 0) = true then '-' else '+' := by
      simp only [decide_eq_true_eq]
    rcases hdrop : ds.drop 1 with _ | ⟨d, rest⟩
    · cases style.pointBeforeExponent
      · refine ⟨_, lays_scientific hdigits hds hc point (.inr hdrop.symm), ?_⟩
        unfold Spelling.text Spelling.pointText Spelling.exponentText
        simp
      · refine ⟨_, lays_scientific hdigits hds hc point (.inl ⟨hdrop, rfl⟩), ?_⟩
        unfold Spelling.text Spelling.pointText Spelling.exponentText
        simp
    · refine ⟨_, lays_scientific hdigits hds hc point (.inr hdrop.symm), ?_⟩
      unfold Spelling.text Spelling.pointText Spelling.exponentText
      simp

end

/-! ### The text of a value -/

theorem toList_render_infinite (style : Layout) {x : Binary64} {neg : Bool} (h : x.read = .infinite neg) :
    (render style x).toList = (if neg then ['-'] else []) ++ style.infinity.toList := by
  unfold render
  rw [h]
  cases neg <;> simp

/-- **The text of a finite value** is its sign and a numeral, and the digits of the numeral round to the value,
whichever sign is put in front of them. -/
theorem exists_spelling (style : Layout) {x : Binary64} {neg : Bool} {m : ℕ} {q : ℤ} (h : x.read = .finite neg m q) :
    ∃ s : Spelling, s.Proper ∧ s.isIntegral = false ∧ (s.fraction = [] → s.whole.length = 1) ∧
      (render style x).toList = (if neg then ['-'] else []) ++ s.text ∧
      ∀ sign, Binary64.ofDecimal sign s.decimal.digits s.decimal.exponent = Binary64.pack sign (magnitudeOf m q) := by
  obtain ⟨-, hfinite, hcanonical⟩ := Binary64.of_read_finite h
  have hsign : (if neg then "-" else "").toList = if neg then ['-'] else [] := by cases neg <;> rfl
  unfold render
  rw [h]
  dsimp only
  by_cases hm : m = 0
  · obtain rfl := Binary64.exponent_of_read_zero h hm
    refine ⟨⟨['0'], ['0'], none⟩, ⟨isDigit_of_mem_zero, isDigit_of_mem_zero, List.cons_ne_nil _ _, fun _ => rfl,
      fun _ _ h => (nomatch h)⟩, rfl, fun h => (nomatch h), ?_, fun sign => ?_⟩
    · rw [if_pos hm, String.toList_append, hsign]
      rfl
    · rw [hm]
      rfl
  · set d := shortest m q
    have hnear : Near m q d.value := near_shortest hm q
    have hpos : 0 < d.digits := by
      have hvalue : (0 : ℚ) < d.value := lt_of_lt_of_le (two_zpow_pos _) (hnear.bounds (hcanonical hm) hfinite).1
      rcases Nat.eq_zero_or_pos d.digits with hzero | hpos
      · unfold value at hvalue
        rw [hzero] at hvalue
        simp at hvalue
      · exact hpos
    obtain ⟨c, cs, hds, hc⟩ := head_toDigits hpos
    obtain ⟨s, hs, htext⟩ := exists_lays (fun c hc => isDigit_of_mem_toDigits hc) hds hc style
      (d.exponent + (Nat.toDigits 10 d.digits).length)
    have hvalue : s.decimal.value = d.value := by
      rw [hs.value_eq, ofDigits_toDigits, add_sub_cancel_right]
    refine ⟨s, hs.proper, hs.real, hs.short, ?_, fun sign =>
      ofDecimal_of_near (hcanonical hm) hfinite (hvalue ▸ hnear) sign⟩
    rw [if_neg hm, String.toList_append, hsign, String.toList_ofList, htext]

/-! ### Integers -/

/-- The numeral of a number without a sign. -/
def Spelling.ofNat (n : ℕ) : Spelling := ⟨Nat.toDigits 10 n, [], none⟩

theorem Spelling.text_ofNat (n : ℕ) : (Spelling.ofNat n).text = Nat.toDigits 10 n := List.append_nil _

theorem Spelling.ofNat_proper (n : ℕ) : (Spelling.ofNat n).Proper := by
  refine ⟨fun c hc => isDigit_of_mem_toDigits hc, fun _ h => (nomatch h), Nat.toDigits_ne_nil, fun h => ?_,
    fun _ _ h => (nomatch h)⟩
  rcases Nat.eq_zero_or_pos n with rfl | hn
  · rfl
  · obtain ⟨c, cs, hds, hc⟩ := head_toDigits hn
    unfold Spelling.ofNat at h
    rw [hds] at h
    exact absurd (Option.some.inj h) hc

end Decimal

namespace Integer

open Decimal (Spelling)

theorem toList_render (n : ℤ) :
    (render n).toList = (if decide (n < 0) then ['-'] else []) ++ (Spelling.ofNat n.natAbs).text := by
  unfold render
  rw [Spelling.text_ofNat]
  by_cases h : n < 0
  · rw [if_pos h, if_pos (decide_eq_true h), String.toList_append, String.toList_ofList, String.toList_ofList]
  · rw [if_neg h, if_neg (by simpa using h), String.toList_ofList]
    rfl

/-- **The text of an integer is read as the integer.** -/
theorem ofChars?_render (n : ℤ) : ofChars? (render n).toList = some n := by
  have hsplit : Decimal.splitSign (render n).toList = (decide (n < 0), Nat.toDigits 10 n.natAbs) := by
    rw [toList_render]
    by_cases h : n < 0
    · rw [decide_eq_true h, Spelling.text_ofNat]
      rfl
    · rw [decide_eq_false h, ← Spelling.text_ofNat]
      exact Spelling.splitSign_text (Spelling.ofNat_proper _)
  have hempty : (Nat.toDigits 10 n.natAbs).isEmpty = false := by
    rw [List.isEmpty_eq_false_iff]
    exact Nat.toDigits_ne_nil
  have hall : (Nat.toDigits 10 n.natAbs).all Char.isDigit = true :=
    List.all_eq_true.2 fun c hc => Decimal.isDigit_of_mem_toDigits hc
  unfold ofChars?
  rw [hsplit]
  dsimp only
  rw [hempty, hall, Decimal.ofDigits_toDigits]
  simp only [Bool.not_true, Bool.or_self, Bool.false_eq_true, if_false, decide_eq_true_eq, Option.some.injEq]
  split_ifs <;> omega

theorem length_toDigits {n k : ℕ} (hk : 0 < k) (h : n < Nat.pow 10 k) : (Nat.toDigits 10 n).length ≤ k :=
  (Nat.length_toDigits_le_iff (by norm_num) hk).2 h

theorem fits_toDigits {n : ℤ} (h : hasText n = true) : fits (Nat.toDigits 10 n.natAbs) = true := by
  have hall : (Nat.toDigits 10 n.natAbs).filter Char.isDigit = Nat.toDigits 10 n.natAbs :=
    List.filter_eq_self.2 fun c hc => Decimal.isDigit_of_mem_toDigits hc
  unfold fits
  rw [decide_eq_true_eq, hall]
  exact length_toDigits (by decide) (of_decide_eq_true h)

theorem fits_render {n : ℤ} (h : hasText n = true) : fits (render n).toList = true := by
  have hsign : (if decide (n < 0) then ['-'] else []).filter Char.isDigit = [] := by
    split_ifs <;> rfl
  have hfits := fits_toDigits h
  unfold fits at hfits ⊢
  rw [toList_render, List.filter_append, Spelling.text_ofNat, hsign]
  exact hfits

end Integer

end StackCalc
