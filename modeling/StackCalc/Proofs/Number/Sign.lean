import StackCalc.Proofs.Number.Rounding

/-! # Signs

The sign of a pattern and the rest of it do not depend on each other (`read_pack`), and a product by minus one changes
nothing but the sign (`minusOne_mul`), since the product of the significands is exact. -/

namespace StackCalc.Binary64

theorem infinityWeight_lt_signWeight : infinityWeight < signWeight := by decide

theorem toNat_pack {w : ℕ} (h : w < signWeight) (b : Bool) :
    (pack b w).bits.toNat = (if b then signWeight else 0) + w := by
  have hs := signWeight_eq
  unfold pack
  rw [UInt64.toNat_ofNat']
  refine Nat.mod_eq_of_lt ?_
  split_ifs <;> omega

theorem magnitude_pack {w : ℕ} (h : w < signWeight) (b : Bool) : (pack b w).magnitude = w := by
  unfold magnitude
  rw [toNat_pack h]
  split_ifs
  · rw [Nat.add_mod_left, Nat.mod_eq_of_lt h]
  · rw [Nat.zero_add, Nat.mod_eq_of_lt h]

theorem negative_pack {w : ℕ} (h : w < signWeight) (b : Bool) : (pack b w).negative = b := by
  unfold negative
  rw [toNat_pack h]
  cases b
  · simpa using h
  · simp

/-- A value with a sign of its own. -/
theorem read_pack {x : Binary64} {neg : Bool} {m : ℕ} {q : ℤ} (h : x.read = .finite neg m q) (b : Bool) :
    (pack b (magnitudeOf m q)).read = .finite b m q := by
  obtain ⟨hx, hfinite, -⟩ := of_read_finite h
  have hlt : magnitudeOf m q < signWeight := hfinite.trans infinityWeight_lt_signWeight
  have hmag : x.magnitude = magnitudeOf m q := by rw [hx, magnitude_pack hlt]
  unfold read at h ⊢
  rw [magnitude_pack hlt, negative_pack hlt, ← hmag]
  dsimp only at h ⊢
  split_ifs at h ⊢ <;> cases h <;> rfl

/-- **Minus one times a value is the value with the other sign.** -/
theorem mul_of_read_minusOne {x y : Binary64} (hy : y.read = .finite true exponentWeight (-52)) (hnan : y.isNaN = false)
    (hnegative : y.negative = true) {neg : Bool} {m : ℕ} {q : ℤ} (h : x.read = .finite neg m q) :
    y.mul (pack false (magnitudeOf m q)) = pack true (magnitudeOf m q) := by
  obtain ⟨-, hfinite, hcanonical⟩ := of_read_finite h
  have hlt : magnitudeOf m q < signWeight := hfinite.trans infinityWeight_lt_signWeight
  have hnan' : (pack false (magnitudeOf m q)).isNaN = false := by
    unfold isNaN
    rw [magnitude_pack hlt, decide_eq_false_iff_not]
    exact hfinite.le.not_gt
  unfold mul lift
  rw [hnan, hnan', if_neg (by decide), if_neg (by decide)]
  unfold mulNumbers
  rw [hy, read_pack h, hnegative, negative_pack hlt]
  dsimp only
  unfold ofScaled
  by_cases hm : m = 0
  · obtain rfl := exponent_of_read_zero h hm
    subst hm
    rfl
  · refine ofRatio_of_near (hcanonical hm) hfinite (by simp) ?_ true
    have hvalue : (((exponentWeight * m) <<< (-52 + q).toNat : ℕ) : ℚ) / ((1 <<< (-(-52 + q)).toNat : ℕ) : ℚ) =
        m * 2 ^ q := by
      have hq : (2 : ℚ) ^ q = 2 ^ (52 : ℤ) * 2 ^ (-52 + q) := by
        rw [← two_zpow_add]
        congr 1
        ring
      rw [cast_shiftLeft, cast_shiftLeft, Nat.cast_mul, cast_exponentWeight, ← two_zpow_mul_shift (-52 + q), hq]
      field_simp
      simp
    rw [hvalue]
    exact near_self m q

theorem minusOne_mul {x : Binary64} {neg : Bool} {m : ℕ} {q : ℤ} (h : x.read = .finite neg m q) :
    (ofScaled true 1 0).mul (pack false (magnitudeOf m q)) = pack true (magnitudeOf m q) :=
  mul_of_read_minusOne rfl (by decide) (by decide) h

end StackCalc.Binary64
