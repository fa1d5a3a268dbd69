import StackCalc.Proofs.Wire.Reading

/-! # Length codes read back

What a length code is can be said without writing or reading one (`Codes`): groups of seven bits, the lowest first,
with the high bit set on all but the last. A number has many codes, for groups of zeros may follow. What is written is
one of them, and those of at most `maxGroups` groups are exactly what is read (`readGroups_of_codes`,
`readGroups_cases`).

So a number below `limit` is read back from the code that is written, whatever follows it; any other number is refused
when `maxGroups` bytes of its code have been read. What is read from any bytes is below `limit`, and takes at least one
of them. -/

namespace StackCalc.Wire.LengthCode

open Reader (Reads)

/-- The numbers that can be read back: those of at most `maxGroups` groups of seven bits. -/
def limit : Nat := 1 <<< 70

/-- One group more makes room for `128` times as many numbers. -/
theorem shift_succ (fuel : Nat) : 1 <<< (7 * (fuel + 1)) = 128 * 1 <<< (7 * fuel) := by
  rw [Nat.shiftLeft_eq, Nat.shiftLeft_eq, Nat.mul_succ, Nat.pow_add]
  omega

theorem encode_of_lt {n : Nat} (h : n < 128) : encode n = [UInt8.ofNat n] := by
  rw [encode, if_pos h]

theorem encode_of_le {n : Nat} (h : 128 ≤ n) :
    encode n = UInt8.ofNat (n % 128 + 128) :: encode (n / 128) := by
  rw [encode, if_neg (by omega)]

theorem length_encode_pos (n : Nat) : 0 < (encode n).length := by
  rw [encode]
  split_ifs <;> simp

/-- What a byte does to the reading: it is the last group, or the reading goes on. -/
theorem readGroups_succ (fuel : Nat) (b : UInt8) (s : Bytes) :
    (readGroups (fuel + 1)).outcome (b :: s) =
      if b.toNat < 128 then (.ok b.toNat, s)
      else match (readGroups fuel).outcome s with
        | (.ok n, rest) => (.ok (b.toNat - 128 + 128 * n), rest)
        | (.error e, rest) => (.error e, rest) := by
  rw [readGroups]
  rw [Reader.outcome_bind_of_ok (Reader.outcome_byte_cons b s)]
  split_ifs with hb
  · rfl
  · rw [Reader.outcome_bind]
    rcases (readGroups fuel).outcome s with ⟨e | n, rest⟩ <;> rfl

theorem toNat_last {n : Nat} (h : n < 128) : (UInt8.ofNat n).toNat = n := by
  rw [UInt8.toNat_ofNat']
  omega

theorem toNat_group (n : Nat) : (UInt8.ofNat (n % 128 + 128)).toNat = n % 128 + 128 := by
  rw [UInt8.toNat_ofNat']
  omega

/-! ### What a code is -/

/-- **The bytes are a code of the number.** -/
inductive Codes : Bytes → Nat → Prop where
  | last {b : UInt8} (hb : b.toNat < 128) : Codes [b] b.toNat
  | more {b : UInt8} {s : Bytes} {n : Nat} (hb : 128 ≤ b.toNat) (hs : Codes s n) :
      Codes (b :: s) (b.toNat - 128 + 128 * n)

namespace Codes

variable {s : Bytes} {n : Nat}

theorem length_pos (h : Codes s n) : 0 < s.length := by
  cases h <;> exact Nat.succ_pos _

/-- So many groups hold no more than their bits. -/
theorem lt_shift (h : Codes s n) : n < 1 <<< (7 * s.length) := by
  induction h with
  | last hb => exact hb
  | @more b s n hb _ ih =>
    have hlt : b.toNat < 256 := b.toNat_lt
    rw [List.length_cons, shift_succ]
    omega

end Codes

/-- **What is written is a code of the number.** -/
theorem codes_encode (n : Nat) : Codes (encode n) n := by
  induction n using encode.induct with
  | case1 n hn =>
    have hlast := Codes.last (b := UInt8.ofNat n) (by rwa [toNat_last hn])
    rw [toNat_last hn] at hlast
    rwa [encode_of_lt hn]
  | case2 n hn ih =>
    have hmore := Codes.more (b := UInt8.ofNat (n % 128 + 128)) (by rw [toNat_group]; omega) ih
    have hsum : n % 128 + 128 - 128 + 128 * (n / 128) = n := by omega
    rw [toNat_group, hsum] at hmore
    rwa [encode_of_le (Nat.not_lt.1 hn)]

/-- A number that so many groups hold has no more groups. -/
theorem length_encode_le : ∀ (k n : Nat), n < 1 <<< (7 * (k + 1)) → (encode n).length ≤ k + 1
  | 0, n, h => by
    rw [encode_of_lt h]
    exact Nat.le_refl 1
  | k + 1, n, h => by
    by_cases hn : n < 128
    · rw [encode_of_lt hn]
      exact Nat.succ_pos _
    · rw [shift_succ] at h
      have hrest := length_encode_le k (n / 128) (by omega)
      rw [encode_of_le (Nat.not_lt.1 hn), List.length_cons]
      omega

/-! ### What is read -/

/-- **Every code of no more groups than are read is read**, whatever follows it. -/
theorem readGroups_of_codes {s : Bytes} {n : Nat} (h : Codes s n) : ∀ {fuel : Nat}, s.length ≤ fuel →
    Reads (readGroups fuel) n s := by
  induction h with
  | last hb =>
    rintro (_ | fuel) hfuel rest
    · cases hfuel
    · rw [List.singleton_append, readGroups_succ, if_pos hb]
  | more hb _ ih =>
    rintro (_ | fuel) hfuel rest
    · cases hfuel
    · rw [List.cons_append, readGroups_succ, if_neg (Nat.not_lt.2 hb), ih (Nat.le_of_succ_le_succ hfuel) rest]

/-- Whatever the bytes, a code is taken off their front, or they are no data of a store. -/
theorem readGroups_cases : ∀ (fuel : Nat) (bytes : Bytes),
    (∃ s n rest, bytes = s ++ rest ∧ s.length ≤ fuel ∧ Codes s n ∧ (readGroups fuel).outcome bytes = (.ok n, rest)) ∨
      ∃ f rest, (readGroups fuel).outcome bytes = (.error f, rest) ∧ f.category = .dataStore
  | 0, bytes => .inr ⟨.longLengthCode, bytes, rfl, rfl⟩
  | fuel + 1, [] => .inr ⟨.endOfStream 1 0, [], rfl, rfl⟩
  | fuel + 1, b :: bytes => by
    rw [readGroups_succ]
    by_cases hb : b.toNat < 128
    · rw [if_pos hb]
      exact .inl ⟨[b], b.toNat, bytes, rfl, Nat.succ_pos fuel, .last hb, rfl⟩
    · rw [if_neg hb]
      rcases readGroups_cases fuel bytes with ⟨s, n, rest, rfl, hlen, hs, hread⟩ | ⟨f, rest, hread, hf⟩ <;> rw [hread]
      · exact .inl ⟨b :: s, _, rest, rfl, Nat.succ_le_succ hlen, .more (Nat.not_lt.1 hb) hs, rfl⟩
      · exact .inr ⟨f, rest, rfl, hf⟩

/-- **A number is read back from its code.** -/
theorem reads_encode {n : Nat} (h : n < limit) : Reads read n (encode n) :=
  readGroups_of_codes (codes_encode n) (length_encode_le 9 n h)

theorem shift_pos (fuel : Nat) : 0 < 1 <<< (7 * fuel) := by
  rw [Nat.shiftLeft_eq, Nat.one_mul]
  exact Nat.two_pow_pos _

/-- A number that so many groups do not hold is refused when they have been read. -/
theorem readGroups_encode_of_le : ∀ (fuel n : Nat) (rest : Bytes), 1 <<< (7 * fuel) ≤ n →
    (readGroups fuel).outcome (encode n ++ rest) = (.error .longLengthCode, (encode n ++ rest).drop fuel)
  | 0, _, _, _ => rfl
  | fuel + 1, n, rest, h => by
    rw [shift_succ] at h
    have hpos := shift_pos fuel
    have hrest := readGroups_encode_of_le fuel (n / 128) rest (by omega)
    rw [encode_of_le (by omega), List.cons_append, readGroups_succ, toNat_group, if_neg (by omega), hrest]
    rfl

/-- **What comes of reading a code**: the number, or a fault for a number that has more groups than are read. -/
theorem outcome_read_encode (n : Nat) (rest : Bytes) : read.outcome (encode n ++ rest) =
    if n < limit then (.ok n, rest) else (.error .longLengthCode, (encode n ++ rest).drop maxGroups) := by
  split_ifs with h
  · exact reads_encode h rest
  · exact readGroups_encode_of_le maxGroups n rest (Nat.not_lt.1 h)

/-- What is read from any bytes is below `limit`, and takes at least one of them. -/
theorem read_bounds {s : Bytes} {n : Nat} {rest : Bytes} (h : read.outcome s = (.ok n, rest)) :
    n < limit ∧ rest.length < s.length := by
  rcases readGroups_cases maxGroups s with ⟨taken, m, left, rfl, hlen, htaken, hread⟩ | ⟨f, left, hread, -⟩ <;>
    cases h.symm.trans hread
  have hpos := htaken.length_pos
  have hshift : 1 <<< (7 * taken.length) ≤ limit := by
    rw [limit, Nat.shiftLeft_eq, Nat.shiftLeft_eq, Nat.one_mul, Nat.one_mul]
    exact Nat.pow_le_pow_right (by decide) (Nat.mul_le_mul_left 7 hlen)
  refine ⟨Nat.lt_of_lt_of_le htaken.lt_shift hshift, ?_⟩
  rw [List.length_append]
  omega

end StackCalc.Wire.LengthCode
