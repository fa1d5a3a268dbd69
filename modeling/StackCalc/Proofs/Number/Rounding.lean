import StackCalc.Number.Binary64
import Mathlib.Algebra.Order.Archimedean.Basic
import Mathlib.Algebra.Order.Field.Power
import Mathlib.Data.Rat.Cast.Order
import Mathlib.Tactic.FieldSimp
import Mathlib.Tactic.Linarith
import Mathlib.Tactic.NormNum
import Mathlib.Tactic.Positivity
import Mathlib.Tactic.Ring

/-! # Which ratios round to a value

A finite value other than zero is `m · 2 ^ q` with an `m` of 53 bits, or with fewer bits and the least
exponent (`Canonical`). The ratios that round to it are those between the midpoints to its neighbours,
the midpoints themselves among them if `m` is even (`Binary64.Near`); `ofRatio_of_near` is the one lemma that
opens the rounding. Below a power of two the neighbour is nearer by half, which is where the exponent of the
ratio is not that of the value. -/

namespace StackCalc.Binary64

/-! ### Powers of two -/

theorem two_zpow_pos (z : ℤ) : (0 : ℚ) < 2 ^ z := zpow_pos (by norm_num) z

/-- A power of two as a fraction of shifts. -/
theorem two_zpow_mul_shift (z : ℤ) : (2 : ℚ) ^ z * 2 ^ (-z).toNat = 2 ^ z.toNat := by
  rcases le_total 0 z with h | h
  · obtain ⟨n, rfl⟩ := Int.eq_ofNat_of_zero_le h
    simp
  · obtain ⟨n, hn⟩ := Int.eq_ofNat_of_zero_le (Int.neg_nonneg.2 h)
    obtain rfl : z = -n := by omega
    simp

theorem cast_shiftLeft (a n : ℕ) : ((a <<< n : ℕ) : ℚ) = a * 2 ^ n := by
  rw [Nat.shiftLeft_eq]
  push_cast
  ring

theorem two_zpow_le_iff {a b : ℤ} : (2 : ℚ) ^ a ≤ 2 ^ b ↔ a ≤ b := zpow_le_zpow_iff_right₀ (by norm_num)

theorem two_zpow_lt_iff {a b : ℤ} : (2 : ℚ) ^ a < 2 ^ b ↔ a < b := zpow_lt_zpow_iff_right₀ (by norm_num)

theorem two_zpow_add (a b : ℤ) : (2 : ℚ) ^ (a + b) = 2 ^ a * 2 ^ b := zpow_add₀ (by norm_num) a b

/-- The exponent of the leading bit. -/
theorem exists_binade {n : ℕ} (hn : n ≠ 0) : (2 : ℚ) ^ (n.log2 : ℤ) ≤ n ∧ (n : ℚ) < 2 ^ ((n.log2 : ℤ) + 1) := by
  have hlow : 2 ^ n.log2 ≤ n := Nat.log2_self_le hn
  have hhigh : n < 2 ^ (n.log2 + 1) := Nat.lt_log2_self
  constructor
  · rw [zpow_natCast]
    exact_mod_cast hlow
  · have hcast : (2 : ℚ) ^ ((n.log2 : ℤ) + 1) = ((2 ^ (n.log2 + 1) : ℕ) : ℚ) := by
      push_cast
      rw [← zpow_natCast]
      push_cast
      rfl
    rw [hcast]
    exact_mod_cast hhigh

/-! ### The exponent -/

variable {num den : ℕ}

/-- **The exponent of a ratio** is that of its leading bit, less the 52 bits behind it, within the range. -/
theorem exponentOf_eq (hnum : num ≠ 0) (hden : den ≠ 0) {e : ℤ} (hlow : (2 : ℚ) ^ e * den ≤ num)
    (hhigh : (num : ℚ) < 2 ^ (e + 1) * den) : exponentOf num den = max (e - 52) leastExponent := by
  have hden' : (0 : ℚ) < den := by positivity
  obtain ⟨hn, hn'⟩ := exists_binade hnum
  obtain ⟨hd, hd'⟩ := exists_binade hden
  set k : ℤ := (num.log2 : ℤ) - den.log2 with hk
  -- the bit lengths tell the exponent up to one
  have hle : e ≤ k := by
    have h : (2 : ℚ) ^ (e + den.log2) < 2 ^ ((num.log2 : ℤ) + 1) := by
      calc (2 : ℚ) ^ (e + den.log2) = 2 ^ e * 2 ^ (den.log2 : ℤ) := two_zpow_add _ _
        _ ≤ 2 ^ e * den := mul_le_mul_of_nonneg_left hd (two_zpow_pos e).le
        _ ≤ num := hlow
        _ < 2 ^ ((num.log2 : ℤ) + 1) := hn'
    have := two_zpow_lt_iff.1 h
    omega
  have hge : k ≤ e + 1 := by
    have h : (2 : ℚ) ^ (num.log2 : ℤ) < 2 ^ (e + 1 + (den.log2 + 1)) := by
      calc (2 : ℚ) ^ (num.log2 : ℤ) ≤ num := hn
        _ < 2 ^ (e + 1) * den := hhigh
        _ ≤ 2 ^ (e + 1) * 2 ^ ((den.log2 : ℤ) + 1) := mul_le_mul_of_nonneg_left hd'.le (two_zpow_pos _).le
        _ = 2 ^ (e + 1 + (den.log2 + 1)) := (two_zpow_add _ _).symm
    have := two_zpow_lt_iff.1 h
    omega
  have htest : den <<< k.toNat ≤ num <<< (-k).toNat ↔ (2 : ℚ) ^ k * den ≤ num := by
    rw [← @Nat.cast_le ℚ, cast_shiftLeft, cast_shiftLeft, ← two_zpow_mul_shift k]
    have hpos : (0 : ℚ) < 2 ^ (-k).toNat := by positivity
    constructor
    · intro h
      refine le_of_mul_le_mul_right ?_ hpos
      linarith
    · intro h
      have := mul_le_mul_of_nonneg_right h hpos.le
      linarith
  have hexponent : (if den <<< k.toNat ≤ num <<< (-k).toNat then k else k - 1) = e := by
    split_ifs with h
    · -- the ratio is at least `2 ^ k`
      have h' : (2 : ℚ) ^ k * den < 2 ^ (e + 1) * den := lt_of_le_of_lt (htest.1 h) hhigh
      have := two_zpow_lt_iff.1 (lt_of_mul_lt_mul_right h' hden'.le)
      omega
    · have h' : (2 : ℚ) ^ e * den < 2 ^ k * den := lt_of_le_of_lt hlow (not_le.1 fun h' => h (htest.2 h'))
      have := two_zpow_lt_iff.1 (lt_of_mul_lt_mul_right h' hden'.le)
      omega
  unfold exponentOf
  rw [← hk]
  dsimp only
  rw [hexponent]

/-- Every positive ratio has a leading bit. -/
theorem exists_exponent (hnum : num ≠ 0) (hden : den ≠ 0) :
    ∃ e : ℤ, (2 : ℚ) ^ e * den ≤ num ∧ (num : ℚ) < 2 ^ (e + 1) * den := by
  have hden' : (0 : ℚ) < den := by positivity
  have hpos : (0 : ℚ) < num / den := by positivity
  obtain ⟨e, he, he'⟩ := exists_mem_Ico_zpow hpos (by norm_num : (1 : ℚ) < 2)
  exact ⟨e, (le_div_iff₀ hden').1 he, (div_lt_iff₀ hden').1 he'⟩

/-! ### Halves -/

/-- **A quotient between two halves rounds to the integer between them**, and a half to the even one. -/
theorem divHalfEven_eq (hden : den ≠ 0) {m : ℕ} (hlow : 2 * m * den ≤ 2 * num + den)
    (hhigh : 2 * num ≤ 2 * m * den + den)
    (hodd : m % 2 = 1 → 2 * m * den ≠ 2 * num + den ∧ 2 * num ≠ 2 * m * den + den) : divHalfEven num den = m := by
  have hpos : 0 < den := Nat.pos_of_ne_zero hden
  have hdiv : den * (num / den) + num % den = num := Nat.div_add_mod num den
  have hmod : num % den < den := Nat.mod_lt _ hpos
  unfold divHalfEven
  dsimp only
  generalize hd : num / den = d at *
  generalize hr : num % den = r at *
  rcases Nat.lt_trichotomy d m with hlt | rfl | hgt
  · -- the quotient is one below
    have hm : m = d + 1 := by
      by_contra hne
      have h2 : d + 2 ≤ m := by omega
      have := Nat.mul_le_mul_right den h2
      nlinarith
    subst hm
    have hhalf : den ≤ 2 * r := by nlinarith
    split_ifs with h1 h2 h3
    · omega
    · rfl
    · exfalso
      have htie : 2 * r = den := by omega
      refine (hodd (by omega)).1 ?_
      nlinarith
    · rfl
  · have hhalf : 2 * r ≤ den := by nlinarith
    split_ifs with h1 h2 h3
    · rfl
    · omega
    · rfl
    · exfalso
      have htie : 2 * r = den := by omega
      refine (hodd (by omega)).2 ?_
      nlinarith
  · exfalso
    have := Nat.mul_le_mul_right den (Nat.succ_le_of_lt hgt)
    nlinarith

/-! ### Finite values -/

/-- A significand and an exponent that a finite value other than zero has. -/
structure Canonical (m : ℕ) (q : ℤ) : Prop where
  pos : m ≠ 0
  significand : m < significandEnd
  exponent : leastExponent ≤ q
  normal : q ≠ leastExponent → exponentWeight ≤ m

/-- Where the exponent changes, the neighbour below is nearer by half. -/
def isNarrow (m : ℕ) (q : ℤ) : Bool := m == exponentWeight && q != leastExponent

/-- **The number lies between the midpoints to the neighbours** of `m · 2 ^ q`, and on one of them only if `m` is
even. -/
structure Near (m : ℕ) (q : ℤ) (r : ℚ) : Prop where
  low : (m - if isNarrow m q then 1 / 4 else 1 / 2 : ℚ) * 2 ^ q ≤ r
  high : r ≤ (m + 1 / 2 : ℚ) * 2 ^ q
  odd : m % 2 = 1 → r ≠ (m - 1 / 2 : ℚ) * 2 ^ q ∧ r ≠ (m + 1 / 2 : ℚ) * 2 ^ q

/-- A value is near itself. -/
theorem near_self (m : ℕ) (q : ℤ) : Near m q (m * 2 ^ q) := by
  have hq := two_zpow_pos q
  refine ⟨?_, ?_, fun _ => ⟨?_, ?_⟩⟩
  · split_ifs <;> nlinarith
  · nlinarith
  · intro h
    nlinarith
  · intro h
    nlinarith

theorem exponentWeight_eq : exponentWeight = 4503599627370496 := by decide

theorem significandEnd_eq : significandEnd = 9007199254740992 := by decide

theorem infinityWeight_eq : infinityWeight = 9218868437227405312 := by decide

theorem signWeight_eq : signWeight = 9223372036854775808 := by decide

/-- The pattern of a finite value, without its sign. -/
def magnitudeOf (m : ℕ) (q : ℤ) : ℕ := (q - leastExponent).toNat * exponentWeight + m

/-- Shifting both numbers of a ratio divides it by a power of two. -/
theorem exists_cast_shift (num den : ℕ) (q : ℤ) : ∃ s : ℚ, 0 < s ∧
    ((num <<< (-q).toNat : ℕ) : ℚ) = num * s ∧ ((den <<< q.toNat : ℕ) : ℚ) = 2 ^ q * den * s := by
  refine ⟨2 ^ (-q).toNat, by positivity, cast_shiftLeft _ _, ?_⟩
  rw [cast_shiftLeft, ← two_zpow_mul_shift q]
  ring

/-- The significand of a ratio that is within half a unit of `m · 2 ^ q`. -/
theorem divHalfEven_shift_eq (hden : den ≠ 0) {m : ℕ} {q : ℤ} (hlow : (m - 1 / 2 : ℚ) * 2 ^ q * den ≤ num)
    (hhigh : (num : ℚ) ≤ (m + 1 / 2) * 2 ^ q * den)
    (hodd : m % 2 = 1 → (m - 1 / 2 : ℚ) * 2 ^ q * den ≠ num ∧ (num : ℚ) ≠ (m + 1 / 2) * 2 ^ q * den) :
    divHalfEven (num <<< (-q).toNat) (den <<< q.toNat) = m := by
  obtain ⟨s, hs, hnum, hden'⟩ := exists_cast_shift num den q
  generalize num <<< (-q).toNat = n at hnum ⊢
  have hd : den <<< q.toNat ≠ 0 := by
    rw [Nat.shiftLeft_eq]
    positivity
  generalize den <<< q.toNat = d at hden' hd ⊢
  have hscaled : ∀ {a b : ℚ}, a * s ≤ b * s ↔ a ≤ b := mul_le_mul_iff_left₀ hs
  refine divHalfEven_eq hd ?_ ?_ fun hm => ⟨fun h => ?_, fun h => ?_⟩
  · have h : (2 * m * d : ℚ) ≤ 2 * n + d := by
      rw [hnum, hden']
      have := mul_le_mul_of_nonneg_right hlow hs.le
      linarith
    exact_mod_cast h
  · have h : (2 * n : ℚ) ≤ 2 * m * d + d := by
      rw [hnum, hden']
      have := mul_le_mul_of_nonneg_right hhigh hs.le
      linarith
    exact_mod_cast h
  · refine (hodd hm).1 (mul_right_cancel₀ hs.ne' ?_)
    have h' : (2 * m * d : ℚ) = 2 * n + d := by exact_mod_cast h
    rw [hnum, hden'] at h'
    linarith
  · refine (hodd hm).2 (mul_right_cancel₀ hs.ne' ?_)
    have h' : (2 * n : ℚ) = 2 * m * d + d := by exact_mod_cast h
    rw [hnum, hden'] at h'
    linarith

/-- The factors of a ratio that is near a value. -/
theorem Near.factors {m : ℕ} {q : ℤ} (hden : den ≠ 0) (h : Near m q (num / den)) :
    (m - if isNarrow m q then 1 / 4 else 1 / 2 : ℚ) * 2 ^ q * den ≤ num ∧
      (num : ℚ) ≤ (m + 1 / 2) * 2 ^ q * den ∧
      (m % 2 = 1 → (m - 1 / 2 : ℚ) * 2 ^ q * den ≠ num ∧ (num : ℚ) ≠ (m + 1 / 2) * 2 ^ q * den) := by
  have hden' : (0 : ℚ) < den := by positivity
  refine ⟨(le_div_iff₀ hden').1 h.low, (div_le_iff₀ hden').1 h.high, fun hm => ⟨fun heq => ?_, fun heq => ?_⟩⟩
  · exact (h.odd hm).1 ((div_eq_iff hden'.ne').2 heq.symm)
  · exact (h.odd hm).2 ((div_eq_iff hden'.ne').2 heq)

theorem cast_exponentWeight : ((exponentWeight : ℕ) : ℚ) = 2 ^ (52 : ℤ) := by
  rw [exponentWeight_eq]
  norm_num

theorem cast_significandEnd : ((significandEnd : ℕ) : ℚ) = 2 * 2 ^ (52 : ℤ) := by
  rw [significandEnd_eq]
  norm_num

section
variable {m : ℕ} {q : ℤ} (hm : Canonical m q) (hden : den ≠ 0) (hnear : Near m q (num / den))
include hm hden hnear

omit hm in
/-- The ratio is at most half a unit below the value. -/
theorem Near.low_half : (m - 1 / 2 : ℚ) * 2 ^ q * den ≤ num := by
  have hunit : (0 : ℚ) < 2 ^ q * den := mul_pos (two_zpow_pos q) (by positivity)
  have hhalf : (m - 1 / 2 : ℚ) ≤ m - if isNarrow m q then 1 / 4 else 1 / 2 := by
    split_ifs <;> linarith
  have h := mul_le_mul_of_nonneg_right hhalf hunit.le
  have hlow := (hnear.factors hden).1
  linarith

theorem Near.num_ne_zero : num ≠ 0 := by
  rintro rfl
  have hlow := hnear.low_half hden
  have hm1 : (1 : ℚ) ≤ m := by exact_mod_cast Nat.one_le_iff_ne_zero.2 hm.pos
  have h : (0 : ℚ) < (m - 1 / 2) * 2 ^ q * den :=
    mul_pos (mul_pos (by linarith) (two_zpow_pos q)) (by positivity)
  push_cast at hlow
  linarith

/-- The exponent of the ratio is not above that of the value. -/
theorem Near.exponentOf_le : exponentOf num den ≤ q := by
  have hden' : (0 : ℚ) < den := by positivity
  have hunit : (0 : ℚ) < 2 ^ q * den := mul_pos (two_zpow_pos q) hden'
  obtain ⟨e, he, he'⟩ := exists_exponent (hnear.num_ne_zero hm hden) hden
  rw [exponentOf_eq (hnear.num_ne_zero hm hden) hden he he']
  have hmtop : (m : ℚ) + 1 ≤ 2 * 2 ^ (52 : ℤ) := by
    rw [← cast_significandEnd]
    exact_mod_cast hm.significand
  have h : (2 : ℚ) ^ e * den < 2 ^ (53 + q) * den := by
    calc (2 : ℚ) ^ e * den ≤ num := he
      _ ≤ (m + 1 / 2) * (2 ^ q * den) := by linarith [(hnear.factors hden).2.1]
      _ < 2 * 2 ^ (52 : ℤ) * (2 ^ q * den) := mul_lt_mul_of_pos_right (by linarith) hunit
      _ = 2 ^ (53 + q) * den := by
        rw [two_zpow_add]
        ring
  have := two_zpow_lt_iff.1 (lt_of_mul_lt_mul_right h hden'.le)
  exact max_le (by omega) hm.exponent

/-- **Only below a power of two the ratio has another exponent**, and then the next one. -/
theorem Near.of_exponentOf_lt (h : exponentOf num den < q) :
    m = exponentWeight ∧ isNarrow m q = true ∧ exponentOf num den = q - 1 ∧
      (num : ℚ) < 2 ^ (52 : ℤ) * (2 ^ q * den) := by
  have hden' : (0 : ℚ) < den := by positivity
  have hunit : (0 : ℚ) < 2 ^ q * den := mul_pos (two_zpow_pos q) hden'
  obtain ⟨e, he, he'⟩ := exists_exponent (hnear.num_ne_zero hm hden) hden
  have hexp := exponentOf_eq (hnear.num_ne_zero hm hden) hden he he'
  rw [hexp] at h ⊢
  have hq1 : e - 52 < q := lt_of_le_of_lt (le_max_left _ _) h
  have hq2 : leastExponent < q := lt_of_le_of_lt (le_max_right _ _) h
  have hbelow : (num : ℚ) < 2 ^ (52 : ℤ) * (2 ^ q * den) := by
    calc (num : ℚ) < 2 ^ (e + 1) * den := he'
      _ ≤ 2 ^ (52 + q) * den := mul_le_mul_of_nonneg_right (two_zpow_le_iff.2 (by omega)) hden'.le
      _ = 2 ^ (52 : ℤ) * (2 ^ q * den) := by
        rw [two_zpow_add]
        ring
  have hmeq : m = exponentWeight := by
    refine le_antisymm ?_ (hm.normal hq2.ne')
    have hlow := hnear.low_half hden
    have h' : (m - 1 / 2 : ℚ) * (2 ^ q * den) < exponentWeight * (2 ^ q * den) := by
      rw [cast_exponentWeight]
      linarith
    have hlt : (m : ℚ) < exponentWeight + 1 := by linarith [lt_of_mul_lt_mul_right h' hunit.le]
    exact Nat.lt_succ_iff.1 (by exact_mod_cast hlt)
  have hnarrow : isNarrow m q = true := by
    unfold isNarrow
    rw [hmeq, beq_self_eq_true, Bool.true_and, bne_iff_ne]
    exact hq2.ne'
  refine ⟨hmeq, hnarrow, ?_, hbelow⟩
  -- a quarter of a unit below the power of two is still above the one before it
  have hlow := (hnear.factors hden).1
  rw [hnarrow, if_pos rfl, hmeq, cast_exponentWeight] at hlow
  have hge : (2 : ℚ) ^ (51 + q) * den < 2 ^ (e + 1) * den := by
    have h51 : (2 : ℚ) ^ (51 : ℤ) ≤ 2 ^ (52 : ℤ) - 1 / 4 := by norm_num
    calc (2 : ℚ) ^ (51 + q) * den = 2 ^ (51 : ℤ) * (2 ^ q * den) := by
          rw [two_zpow_add]
          ring
      _ ≤ (2 ^ (52 : ℤ) - 1 / 4) * (2 ^ q * den) := mul_le_mul_of_nonneg_right h51 hunit.le
      _ ≤ num := by linarith
      _ < 2 ^ (e + 1) * den := he'
  have := two_zpow_lt_iff.1 (lt_of_mul_lt_mul_right hge hden'.le)
  omega

/-- There the significand rounds up to the power of two. -/
theorem Near.divHalfEven_of_exponentOf_lt (h : exponentOf num den < q) :
    divHalfEven (num <<< (-(q - 1)).toNat) (den <<< (q - 1).toNat) = significandEnd := by
  obtain ⟨hmeq, hnarrow, -, hbelow⟩ := hnear.of_exponentOf_lt hm hden h
  have hlow := (hnear.factors hden).1
  rw [hnarrow, if_pos rfl, hmeq, cast_exponentWeight] at hlow
  have hhalf : (2 : ℚ) ^ q = 2 * 2 ^ (q - 1) := by
    have h := two_zpow_add 1 (q - 1)
    rw [add_sub_cancel] at h
    simpa using h
  rw [hhalf] at hlow hbelow
  have hunit : (0 : ℚ) < 2 ^ (q - 1) * den := mul_pos (two_zpow_pos _) (by positivity)
  refine divHalfEven_shift_eq hden ?_ ?_ fun h => absurd h (by decide)
  · rw [cast_significandEnd]
    linarith
  · rw [cast_significandEnd]
    linarith

end

/-- **What is near a value rounds to it.** -/
theorem ofRatio_of_near {m : ℕ} {q : ℤ} (hm : Canonical m q) (hfinite : magnitudeOf m q < infinityWeight)
    (hden : den ≠ 0) (hnear : Near m q (num / den)) (neg : Bool) :
    ofRatio neg num den = pack neg (magnitudeOf m q) := by
  have hround : ∀ {m' : ℕ} {q' : ℤ}, exponentOf num den = q' →
      divHalfEven (num <<< (-q').toNat) (den <<< q'.toNat) = m' → magnitudeOf m' q' = magnitudeOf m q →
        ofRatio neg num den = pack neg (magnitudeOf m q) := by
    intro m' q' hq' hm' hmagnitude
    have hmin : min (magnitudeOf m' q') infinityWeight = magnitudeOf m q := by
      rw [hmagnitude]
      exact min_eq_left hfinite.le
    unfold ofRatio
    rw [if_neg (hnear.num_ne_zero hm hden), hq']
    dsimp only
    rw [hm']
    exact congrArg (pack neg) hmin
  rcases eq_or_lt_of_le (hnear.exponentOf_le hm hden) with heq | hlt
  · obtain ⟨-, hhigh, hodd⟩ := hnear.factors hden
    exact hround heq (divHalfEven_shift_eq hden (hnear.low_half hden) hhigh hodd) rfl
  · obtain ⟨hmeq, -, hexp, -⟩ := hnear.of_exponentOf_lt hm hden hlt
    have hq : leastExponent < q := lt_of_le_of_lt (le_max_right _ _) hlt
    refine hround hexp (hnear.divHalfEven_of_exponentOf_lt hm hden hlt) ?_
    unfold magnitudeOf
    rw [hmeq, significandEnd_eq, exponentWeight_eq]
    omega

/-! ### Reading a pattern -/

theorem pack_self (x : Binary64) : pack x.negative x.magnitude = x := by
  have hbits : (if x.negative then signWeight else 0) + x.magnitude = x.bits.toNat := by
    have hlt : x.bits.toNat < 18446744073709551616 := x.bits.toNat_lt
    unfold negative magnitude
    rw [signWeight_eq]
    split_ifs with h
    · have := of_decide_eq_true h
      omega
    · have : ¬ 9223372036854775808 ≤ x.bits.toNat := fun h' => h (decide_eq_true h')
      omega
  unfold pack
  rw [hbits, UInt64.ofNat_toNat]

/-- **A finite pattern is packed from its sign, its significand and its exponent.** -/
theorem of_read_finite {x : Binary64} {neg : Bool} {m : ℕ} {q : ℤ} (h : x.read = .finite neg m q) :
    x = pack neg (magnitudeOf m q) ∧ magnitudeOf m q < infinityWeight ∧ (m ≠ 0 → Canonical m q) := by
  have hmag : x.magnitude < signWeight := Nat.mod_lt _ (by decide)
  have hdiv : exponentWeight * (x.magnitude / exponentWeight) + x.magnitude % exponentWeight = x.magnitude :=
    Nat.div_add_mod _ _
  have hmod : x.magnitude % exponentWeight < exponentWeight := Nat.mod_lt _ (by decide)
  have hself := x.pack_self
  unfold read at h
  dsimp only at h
  generalize x.magnitude / exponentWeight = e at *
  generalize x.magnitude % exponentWeight = f at *
  rw [exponentWeight_eq] at hdiv hmod
  rw [signWeight_eq] at hmag
  split_ifs at h with h1 h2 h3
  · -- subnormal
    obtain ⟨rfl, rfl, rfl⟩ := Reading.finite.inj h
    have hmagnitude : magnitudeOf f leastExponent = x.magnitude := by
      unfold magnitudeOf
      rw [sub_self, Int.toNat_zero]
      omega
    rw [hmagnitude]
    refine ⟨hself.symm, ?_, fun hf => ⟨hf, ?_, le_refl _, fun hne => absurd rfl hne⟩⟩
    · rw [infinityWeight_eq]
      omega
    · rw [significandEnd_eq]
      omega
  · -- normal
    obtain ⟨rfl, rfl, rfl⟩ := Reading.finite.inj h
    have hmagnitude : magnitudeOf (exponentWeight + f) (leastExponent + (e - 1 : ℕ)) = x.magnitude := by
      unfold magnitudeOf
      rw [exponentWeight_eq]
      omega
    rw [hmagnitude]
    refine ⟨hself.symm, ?_, fun hf => ⟨hf, ?_, by omega, fun _ => Nat.le_add_right _ _⟩⟩
    · rw [infinityWeight_eq]
      omega
    · rw [significandEnd_eq, exponentWeight_eq]
      omega

/-- Only the least exponent has a zero. -/
theorem exponent_of_read_zero {x : Binary64} {neg : Bool} {m : ℕ} {q : ℤ} (h : x.read = .finite neg m q)
    (hm : m = 0) : q = leastExponent := by
  unfold read at h
  dsimp only at h
  split_ifs at h
  · exact (Reading.finite.inj h).2.2.symm
  · have := (Reading.finite.inj h).2.1
    have := exponentWeight_eq
    omega

/-- What a pattern that is a number stands for. -/
theorem read_cases {x : Binary64} (h : x.isNaN = false) :
    (∃ neg, x.read = .infinite neg ∧ x = infinity neg) ∨ ∃ neg m q, x.read = .finite neg m q := by
  have hmag : x.magnitude ≤ infinityWeight := not_lt.1 (of_decide_eq_false h)
  have hdiv : exponentWeight * (x.magnitude / exponentWeight) + x.magnitude % exponentWeight = x.magnitude :=
    Nat.div_add_mod _ _
  have hw := exponentWeight_eq
  have hi := infinityWeight_eq
  unfold read
  dsimp only
  split_ifs with htop hzero hlow
  · refine .inl ⟨_, rfl, ?_⟩
    have heq : x.magnitude = infinityWeight := by
      rw [htop, hzero] at hdiv
      omega
    unfold infinity
    rw [← heq, pack_self]
  · rw [htop] at hdiv
    omega
  · exact .inr ⟨_, _, _, rfl⟩
  · exact .inr ⟨_, _, _, rfl⟩

/-- The largest exponent of a finite value. -/
theorem Canonical.exponent_le {m : ℕ} {q : ℤ} (hm : Canonical m q) (hfinite : magnitudeOf m q < infinityWeight) :
    q ≤ 971 := by
  by_cases hq : q = leastExponent
  · subst hq
    decide
  · have hnormal := hm.normal hq
    have hexponent := hm.exponent
    unfold magnitudeOf at hfinite
    rw [exponentWeight_eq] at hnormal hfinite
    rw [infinityWeight_eq] at hfinite
    unfold leastExponent at hexponent hfinite
    omega

/-- The bounds of what is near a finite value. -/
theorem Near.bounds {m : ℕ} {q : ℤ} {r : ℚ} (hm : Canonical m q) (hfinite : magnitudeOf m q < infinityWeight)
    (h : Near m q r) : (2 : ℚ) ^ (-1075 : ℤ) ≤ r ∧ r < 2 ^ (1024 : ℤ) := by
  have hq := two_zpow_pos q
  have hm1 : (1 : ℚ) ≤ m := by exact_mod_cast Nat.one_le_iff_ne_zero.2 hm.pos
  have hmtop : (m : ℚ) + 1 ≤ 2 ^ (53 : ℤ) := by
    have h53 : (2 : ℚ) ^ (53 : ℤ) = (significandEnd : ℚ) := by
      rw [significandEnd_eq]
      norm_num
    rw [h53]
    exact_mod_cast hm.significand
  constructor
  · have hhalf : (1 / 2 : ℚ) ≤ m - if isNarrow m q then 1 / 4 else 1 / 2 := by
      split_ifs <;> linarith
    have hle : (2 : ℚ) ^ leastExponent ≤ 2 ^ q := two_zpow_le_iff.2 hm.exponent
    have hdouble : (2 : ℚ) ^ leastExponent = 2 * 2 ^ (-1075 : ℤ) := by
      have h := two_zpow_add 1 (-1075)
      exact h
    calc (2 : ℚ) ^ (-1075 : ℤ) ≤ 1 / 2 * 2 ^ q := by linarith
      _ ≤ (m - if isNarrow m q then 1 / 4 else 1 / 2) * 2 ^ q := mul_le_mul_of_nonneg_right hhalf hq.le
      _ ≤ r := h.low
  · have hle : (2 : ℚ) ^ q ≤ 2 ^ (971 : ℤ) := two_zpow_le_iff.2 (hm.exponent_le hfinite)
    calc r ≤ (m + 1 / 2) * 2 ^ q := h.high
      _ < 2 ^ (53 : ℤ) * 2 ^ q := mul_lt_mul_of_pos_right (by linarith) hq
      _ ≤ 2 ^ (53 : ℤ) * 2 ^ (971 : ℤ) := mul_le_mul_of_nonneg_left hle (two_zpow_pos 53).le
      _ = 2 ^ (1024 : ℤ) := (two_zpow_add 53 971).symm

end StackCalc.Binary64
