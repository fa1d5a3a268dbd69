import StackCalc.Number.Decimal
import StackCalc.Proofs.Number.Rounding
import Mathlib.Tactic.LinearCombination

/-! # Digits that read back

Whatever digits are selected for a value, they stand for a number that rounds to it: the grids are tried with
the test `readsBack`, which says just that (`near_of_readsBack`), and if none passes all digits are taken.
So reading does not depend on how few digits there are, nor on how they are laid out: any decimal with the value of
the digits selected is read as the value that they were selected for (`ofDecimal_of_near`). -/

namespace StackCalc

open Binary64 (Near Canonical magnitudeOf two_zpow_pos two_zpow_mul_shift cast_shiftLeft)

namespace Decimal

/-- The number that a decimal stands for. -/
def value (d : Decimal) : ℚ := d.digits * 10 ^ d.exponent

theorem ten_zpow_pos (z : ℤ) : (0 : ℚ) < 10 ^ z := zpow_pos (by norm_num) z

theorem ten_zpow_add (a b : ℤ) : (10 : ℚ) ^ (a + b) = 10 ^ a * 10 ^ b := zpow_add₀ (by norm_num) a b

/-- A power of ten as a fraction of powers. -/
theorem ten_zpow_mul (z : ℤ) : (10 : ℚ) ^ z * 10 ^ (-z).toNat = 10 ^ z.toNat := by
  rcases le_total 0 z with h | h
  · obtain ⟨n, rfl⟩ := Int.eq_ofNat_of_zero_le h
    simp
  · obtain ⟨n, hn⟩ := Int.eq_ofNat_of_zero_le (Int.neg_nonneg.2 h)
    obtain rfl : z = -n := by omega
    simp

theorem cast_pow_ten (n : ℕ) : ((Nat.pow 10 n : ℕ) : ℚ) = 10 ^ n := by
  have h : Nat.pow 10 n = 10 ^ n := rfl
  rw [h]
  push_cast
  rfl

/-! ### Comparisons -/

/-- The two sides of a comparison, both taken times the same number. -/
theorem exists_scaled (a : ℕ) (i : ℤ) (n : ℕ) (j : ℤ) : ∃ s : ℚ, 0 < s ∧
    (((a * Nat.pow 10 i.toNat) <<< (-j).toNat : ℕ) : ℚ) = a * 10 ^ i * s ∧
    ((n <<< j.toNat * Nat.pow 10 (-i).toNat : ℕ) : ℚ) = n * 2 ^ j * s := by
  refine ⟨10 ^ (-i).toNat * 2 ^ (-j).toNat, by positivity, ?_, ?_⟩
  · rw [cast_shiftLeft, Nat.cast_mul, cast_pow_ten, ← ten_zpow_mul i]
    ring
  · rw [Nat.cast_mul, cast_shiftLeft, cast_pow_ten, ← two_zpow_mul_shift j]
    ring

section
variable {a n : ℕ} {i j : ℤ}

theorem compareBinary_gt (h : compareBinary a i n j = .gt) : (n * 2 ^ j : ℚ) < a * 10 ^ i := by
  obtain ⟨s, hs, ha, hn⟩ := exists_scaled a i n j
  have hlt := Nat.compare_eq_gt.1 h
  rw [← @Nat.cast_lt ℚ, ha, hn] at hlt
  exact lt_of_mul_lt_mul_right hlt hs.le

theorem compareBinary_eq (h : compareBinary a i n j = .eq) : (a * 10 ^ i : ℚ) = n * 2 ^ j := by
  obtain ⟨s, hs, ha, hn⟩ := exists_scaled a i n j
  have heq := Nat.compare_eq_eq.1 h
  rw [← @Nat.cast_inj ℚ, ha, hn] at heq
  exact mul_right_cancel₀ hs.ne' heq

theorem compareBinary_lt (h : compareBinary a i n j = .lt) : (a * 10 ^ i : ℚ) < n * 2 ^ j := by
  obtain ⟨s, hs, ha, hn⟩ := exists_scaled a i n j
  have hlt := Nat.compare_eq_lt.1 h
  rw [← @Nat.cast_lt ℚ, ha, hn] at hlt
  exact lt_of_mul_lt_mul_right hlt hs.le

end

/-! ### The test -/

section
variable {m : ℕ} {q : ℤ}

theorem two_zpow_sub_two (q : ℤ) : (2 : ℚ) ^ (q - 2) * 4 = 2 ^ q := by
  have h := Binary64.two_zpow_add (q - 2) 2
  rw [sub_add_cancel] at h
  rw [h]
  norm_num

/-- The lower end of the interval, in quarters. -/
theorem cast_lowEnd (hm : m ≠ 0) :
    (((if (m == Binary64.exponentWeight && q != Binary64.leastExponent) = true then 4 * m - 1
      else 4 * m - 2 : ℕ) : ℚ)) * 2 ^ (q - 2) = (m - if Binary64.isNarrow m q then 1 / 4 else 1 / 2) * 2 ^ q := by
  rw [← two_zpow_sub_two q]
  unfold Binary64.isNarrow
  split_ifs <;> rw [Nat.cast_sub (by omega)] <;> push_cast <;> ring

/-- Its upper end. -/
theorem cast_highEnd (m : ℕ) (q : ℤ) : ((4 * m + 2 : ℕ) : ℚ) * 2 ^ (q - 2) = (m + 1 / 2) * 2 ^ q := by
  rw [← two_zpow_sub_two q]
  push_cast
  ring

/-- Below a power of two the interval is half as wide, and such a significand is even. -/
theorem isNarrow_of_odd (hm : m % 2 = 1) : Binary64.isNarrow m q = false := by
  have hne : (m == Binary64.exponentWeight) = false := by
    rw [beq_eq_false_iff_ne]
    rintro rfl
    exact absurd hm (by decide)
  unfold Binary64.isNarrow
  rw [hne]
  rfl

end

/-- **A decimal that passes the test is near the value.** -/
theorem near_of_readsBack {m : ℕ} {q : ℤ} (hm : m ≠ 0) {d : Decimal} (h : readsBack m q d = true) :
    Near m q d.value := by
  unfold readsBack at h
  dsimp only at h
  obtain ⟨hlow, hhigh⟩ := Bool.and_eq_true_iff.1 h
  replace hlow := Bool.or_eq_true_iff.1 hlow
  replace hhigh := Bool.or_eq_true_iff.1 hhigh
  have hodd : m % 2 = 1 → (m % 2 == 0) = false := by
    intro hm
    rw [hm]
    rfl
  refine ⟨?_, ?_, fun hm' => ⟨?_, ?_⟩⟩
  · rcases hlow with hgt | hclosed
    · have := compareBinary_gt (beq_iff_eq.1 hgt)
      rw [cast_lowEnd hm] at this
      exact this.le
    · have := compareBinary_eq (beq_iff_eq.1 (Bool.and_eq_true_iff.1 hclosed).2)
      rw [cast_lowEnd hm] at this
      exact this.ge
  · rcases hhigh with hlt | hclosed
    · have := compareBinary_lt (beq_iff_eq.1 hlt)
      rw [cast_highEnd] at this
      exact this.le
    · have := compareBinary_eq (beq_iff_eq.1 (Bool.and_eq_true_iff.1 hclosed).2)
      rw [cast_highEnd] at this
      exact this.le
  · rw [hodd hm'] at hlow
    rcases hlow with hgt | hfalse
    · have := compareBinary_gt (beq_iff_eq.1 hgt)
      rw [cast_lowEnd hm, isNarrow_of_odd hm'] at this
      exact this.ne'
    · cases hfalse
  · rw [hodd hm'] at hhigh
    rcases hhigh with hlt | hfalse
    · have := compareBinary_lt (beq_iff_eq.1 hlt)
      rw [cast_highEnd] at this
      exact this.ne
    · cases hfalse

/-! ### Selection -/

variable {m : ℕ} {q : ℤ}

theorem divHalfEven_cases (num den : ℕ) :
    Binary64.divHalfEven num den = num / den ∨ Binary64.divHalfEven num den = num / den + 1 := by
  unfold Binary64.divHalfEven
  dsimp only
  split_ifs <;> simp

theorem readsBack_onGrid {grid : ℤ} {d : Decimal} (h : onGrid? m q grid = some d) : readsBack m q d = true := by
  unfold onGrid? at h
  dsimp only at h
  split at h
  next hbelow habove =>
    obtain rfl := Option.some.inj h
    rcases divHalfEven_cases (m <<< q.toNat * Nat.pow 10 (-grid).toNat) (Nat.pow 10 grid.toNat <<< (-q).toNat)
      with hround | hround
    · rw [hround]
      exact hbelow
    · rw [hround]
      exact habove
  next hbelow _ =>
    obtain rfl := Option.some.inj h
    exact hbelow
  next _ habove =>
    obtain rfl := Option.some.inj h
    exact habove
  next => cases h

theorem readsBack_search {k : ℤ} {d : Decimal} : ∀ {fuel n : ℕ}, search m q k fuel n = some d →
    readsBack m q d = true
  | 0, _, h => by cases h
  | fuel + 1, n, h => by
    unfold search at h
    rcases Option.or_eq_some_iff.1 h with hgrid | ⟨-, hrest⟩
    · exact readsBack_onGrid hgrid
    · exact readsBack_search hrest

/-- Trailing zeros do not count. -/
theorem value_strip : ∀ (fuel : ℕ) (d : Decimal), (strip fuel d).value = d.value
  | 0, _ => rfl
  | fuel + 1, d => by
    unfold strip
    split_ifs with h
    · rw [value_strip fuel]
      have hdigits : 10 * (d.digits / 10) = d.digits := by omega
      have hcast : (d.digits : ℚ) = 10 * ((d.digits / 10 : ℕ) : ℚ) := by exact_mod_cast hdigits.symm
      unfold value
      dsimp only
      rw [ten_zpow_add, hcast]
      ring
    · rfl

/-- **The digits that are selected are near the value.** -/
theorem near_shortest (hm : m ≠ 0) (q : ℤ) : Near m q (shortest m q).value := by
  unfold shortest
  split
  next d hd =>
    rw [value_strip]
    exact near_of_readsBack hm (readsBack_search hd)
  next =>
    -- all digits of the value
    have hall : value ⟨m <<< q.toNat * Nat.pow 5 (-q).toNat, min q 0⟩ = m * 2 ^ q := by
      have hfive : ((Nat.pow 5 (-q).toNat : ℕ) : ℚ) = 5 ^ (-q).toNat := by
        have h : Nat.pow 5 (-q).toNat = 5 ^ (-q).toNat := rfl
        rw [h]
        push_cast
        rfl
      unfold value
      dsimp only
      rw [Nat.cast_mul, cast_shiftLeft, hfive, ← two_zpow_mul_shift q]
      have hten : (2 : ℚ) ^ (-q).toNat * 5 ^ (-q).toNat * 10 ^ min q 0 = 1 := by
        rw [← mul_pow]
        rcases le_total 0 q with h | h
        · have hzero : (-q).toNat = 0 := by omega
          rw [hzero, min_eq_right h]
          norm_num
        · obtain ⟨n, hn⟩ := Int.eq_ofNat_of_zero_le (Int.neg_nonneg.2 h)
          obtain rfl : q = -n := by omega
          rw [min_eq_left h]
          norm_num
      linear_combination (m * 2 ^ q : ℚ) * hten
    rw [hall]
    exact Binary64.near_self m q

/-! ### Reading decimals -/

/-- Ten is more than eight. -/
theorem two_zpow_le_ten (n : ℕ) : (2 : ℚ) ^ (3 * n : ℤ) ≤ 10 ^ (n : ℤ) := by
  have h : (8 : ℚ) ^ n ≤ 10 ^ n := pow_le_pow_left₀ (by norm_num) (by norm_num) n
  have height : (2 : ℚ) ^ (3 * n : ℤ) = 8 ^ n := by
    rw [zpow_mul, zpow_natCast]
    norm_num
  rw [height, zpow_natCast]
  exact h

/-- A number of digits by the length of the number in bits. -/
theorem lt_ten_zpow (digits : ℕ) : (digits : ℚ) < 10 ^ ((digits.log2 / 3 : ℕ) + 1 : ℤ) := by
  rcases Nat.eq_zero_or_pos digits with rfl | hpos
  · exact ten_zpow_pos _
  · calc (digits : ℚ) < 2 ^ ((digits.log2 : ℤ) + 1) := (Binary64.exists_binade hpos.ne').2
      _ ≤ 2 ^ (3 * (digits.log2 / 3 + 1 : ℕ) : ℤ) := Binary64.two_zpow_le_iff.2 (by omega)
      _ ≤ 10 ^ ((digits.log2 / 3 + 1 : ℕ) : ℤ) := two_zpow_le_ten _
      _ = 10 ^ ((digits.log2 / 3 : ℕ) + 1 : ℤ) := by rw [Nat.cast_add, Nat.cast_one]

/-- **A decimal that is near a value is read as the value.** -/
theorem ofDecimal_of_near (hm : Canonical m q) (hfinite : magnitudeOf m q < Binary64.infinityWeight)
    {d : Decimal} (h : Near m q d.value) (neg : Bool) :
    Binary64.ofDecimal neg d.digits d.exponent = Binary64.pack neg (magnitudeOf m q) := by
  obtain ⟨hlow, hhigh⟩ := h.bounds hm hfinite
  have hpos : (0 : ℚ) < d.value := lt_of_lt_of_le (two_zpow_pos _) hlow
  have hten := ten_zpow_pos d.exponent
  have hdigits : d.digits ≠ 0 := by
    intro h0
    unfold value at hpos
    rw [h0] at hpos
    simp at hpos
  have hone : (1 : ℚ) ≤ d.digits := by exact_mod_cast Nat.one_le_iff_ne_zero.2 hdigits
  have hlarge : ¬ d.exponent > 400 := by
    intro hexp
    have hle : (10 : ℚ) ^ (400 : ℤ) ≤ 10 ^ d.exponent := zpow_le_zpow_right₀ (by norm_num) (by omega)
    have hmax : (2 : ℚ) ^ (1024 : ℤ) ≤ 10 ^ (400 : ℤ) :=
      (Binary64.two_zpow_le_iff.2 (by norm_num)).trans (two_zpow_le_ten 400)
    have hge : (10 : ℚ) ^ d.exponent ≤ d.value := by
      unfold value
      nlinarith
    exact not_le.2 hhigh (hmax.trans (hle.trans hge))
  have hsmall : ¬ d.exponent + (d.digits.log2 / 3 : ℕ) < -400 := by
    intro hexp
    have hle : (10 : ℚ) ^ ((d.digits.log2 / 3 : ℕ) + 1 + d.exponent : ℤ) ≤ 10 ^ (-400 : ℤ) :=
      zpow_le_zpow_right₀ (by norm_num) (by omega)
    have hmin : (10 : ℚ) ^ (-400 : ℤ) ≤ 2 ^ (-1075 : ℤ) := by
      have hmax : (2 : ℚ) ^ (1075 : ℤ) ≤ 10 ^ (400 : ℤ) :=
        (Binary64.two_zpow_le_iff.2 (by norm_num)).trans (two_zpow_le_ten 400)
      rw [zpow_neg, zpow_neg]
      exact inv_anti₀ (two_zpow_pos _) hmax
    have hlt : d.value < 10 ^ ((d.digits.log2 / 3 : ℕ) + 1 + d.exponent : ℤ) := by
      rw [ten_zpow_add]
      exact mul_lt_mul_of_pos_right (lt_ten_zpow d.digits) hten
    exact not_lt.2 hlow (hlt.trans_le (hle.trans hmin))
  have hden : Nat.pow 10 (-d.exponent).toNat ≠ 0 := (Nat.pow_pos (by norm_num)).ne'
  have hratio : (((d.digits * Nat.pow 10 d.exponent.toNat : ℕ) : ℚ) / ((Nat.pow 10 (-d.exponent).toNat : ℕ) : ℚ)) =
      d.value := by
    rw [Nat.cast_mul, cast_pow_ten, cast_pow_ten, ← ten_zpow_mul d.exponent]
    unfold value
    field_simp
  unfold Binary64.ofDecimal
  dsimp only
  rw [if_neg hdigits, if_neg hlarge, if_neg (by exact_mod_cast hsmall)]
  refine Binary64.ofRatio_of_near hm hfinite hden ?_ neg
  rw [hratio]
  exact h

end Decimal

end StackCalc
