import StackCalc.Proofs.Wire.Record
import Mathlib.Data.Nat.Size
import Mathlib.Data.Nat.Basic
import Mathlib.Order.Basic

/-! # Length codes are the shortest

Of all codes of a number the one that is written is the shortest: it has as many groups as the bits of the number need
(`shortest_encode`). A negative number is refused, and nothing is written (`write_of_neg`); the refusal quotes the
number, which cannot be done for one with too many digits. -/

namespace StackCalc.Wire.LengthCode

/-- **The code of a number that has the fewest groups**: as many as its bits need, and one for zero. -/
structure Shortest (s : Bytes) (n : Nat) : Prop where
  codes : Codes s n
  least : ∀ t, Codes t n → s.length ≤ t.length
  length_eq : s.length = max 1 ((n.size + 6) / 7)
  marked : ∀ b ∈ s.dropLast, 128 ≤ b.toNat
  unmarked : ∀ b ∈ s.getLast?, b.toNat < 128

namespace Codes

variable {s : Bytes} {n : Nat}

/-- The high bit is set on all groups but the last. -/
theorem marked (h : Codes s n) : ∀ b ∈ s.dropLast, 128 ≤ b.toNat := by
  induction h with
  | last => exact List.forall_mem_nil _
  | more hb hs ih =>
    rw [List.dropLast_cons_of_ne_nil (List.ne_nil_of_length_pos hs.length_pos)]
    exact List.forall_mem_cons.2 ⟨hb, ih⟩

theorem unmarked (h : Codes s n) : ∀ b ∈ s.getLast?, b.toNat < 128 := by
  induction h with
  | last hb =>
    rintro _ ⟨⟩
    exact hb
  | more hb hs ih =>
    rwa [List.getLast?_cons_of_ne_nil (List.ne_nil_of_length_pos hs.length_pos)]

end Codes

/-- A group takes seven bits. -/
theorem size_div (n : Nat) : (n / 128).size = n.size - 7 := by
  refine eq_of_forall_ge_iff fun m => ?_
  have hpow : 2 ^ (m + 7) = 2 ^ m * 128 := Nat.pow_add 2 m 7
  rw [Nat.size_le, Nat.sub_le_iff_le_add, Nat.size_le, hpow]
  exact Nat.div_lt_iff_lt_mul (by decide)

theorem length_encode (n : Nat) : (encode n).length = max 1 ((n.size + 6) / 7) := by
  induction n using encode.induct with
  | case1 n hn =>
    have hsize : n.size ≤ 7 := Nat.size_le.2 hn
    rw [encode_of_lt hn, List.length_singleton]
    omega
  | case2 n hn ih =>
    have hsize : 7 < n.size := Nat.lt_size.2 (Nat.not_lt.1 hn)
    rw [encode_of_le (Nat.not_lt.1 hn), List.length_cons, ih, size_div]
    omega

/-- **The code that is written is the shortest.** -/
theorem shortest_encode (n : Nat) : Shortest (encode n) n where
  codes := codes_encode n
  least := fun t ht => by
    obtain ⟨k, hk⟩ := Nat.exists_eq_succ_of_ne_zero (Nat.pos_iff_ne_zero.1 ht.length_pos)
    have hlt := ht.lt_shift
    rw [hk] at hlt ⊢
    exact length_encode_le k n hlt
  length_eq := length_encode n
  marked := (codes_encode n).marked
  unmarked := (codes_encode n).unmarked

/-- **A negative number is refused**, and nothing is written. -/
theorem write_of_neg {n : Int} (hn : n < 0) : write n = .fail
    (if n.natAbs < Nat.pow 10 Integer.digitLimit then .negativeLengthCode (Integer.render n) else .tooManyDigits) := by
  unfold write showInt Integer.render? Integer.hasText
  rw [if_pos hn]
  by_cases hdigits : n.natAbs < Nat.pow 10 Integer.digitLimit
  · rw [if_pos hdigits, if_pos (decide_eq_true hdigits)]
  · rw [if_neg hdigits, if_neg (by rwa [decide_eq_true_iff])]

/-! ### Writing and reading -/

/-- **Length codes.** Every natural number has its shortest code written, and that is read back, whatever follows it,
if the number is below `limit`; if not, it is refused as no data of a store. A negative number is refused so when it is
written, and nothing is written, unless it has too many digits to be quoted. Of whatever bytes, reading takes a code of
at most `maxGroups` groups and gives its number, which is below `limit`, or refuses them. -/
theorem writes_shortest_and_reads_back (rest bytes : Bytes) :
    (∀ n : Nat, ∃ s, write n = .ok s ∧ Shortest s n ∧
      (n < limit → read.outcome (s ++ rest) = (.ok n, rest)) ∧
      (limit ≤ n → ∃ f left, read.outcome (s ++ rest) = (.error f, left) ∧ f.category = .dataStore)) ∧
    (∀ n : Int, n < 0 → ∃ f, write n = .fail f ∧
      (n.natAbs < Nat.pow 10 Integer.digitLimit → f.category = .dataStore) ∧
      (Nat.pow 10 Integer.digitLimit ≤ n.natAbs → f = .tooManyDigits)) ∧
    ((∃ s n left, bytes = s ++ left ∧ s.length ≤ maxGroups ∧ Codes s n ∧ n < limit ∧
        read.outcome bytes = (.ok n, left)) ∨
      ∃ f left, read.outcome bytes = (.error f, left) ∧ f.category = .dataStore) := by
  refine ⟨fun n => ?_, fun n hn => ?_, ?_⟩
  · have hread := outcome_read_encode n rest
    refine ⟨encode n, write_natCast n, shortest_encode n, fun h => ?_, fun h => ?_⟩
    · rwa [if_pos h] at hread
    · rw [if_neg (Nat.not_lt.2 h)] at hread
      exact ⟨.longLengthCode, _, hread, rfl⟩
  · refine ⟨_, write_of_neg hn, fun hdigits => ?_, fun hdigits => if_neg (Nat.not_lt.2 hdigits)⟩
    rw [if_pos hdigits]
    rfl
  · rcases readGroups_cases maxGroups bytes with ⟨s, n, left, hbytes, hlen, hs, hread⟩ | hfault
    · exact .inl ⟨s, n, left, hbytes, hlen, hs, (read_bounds hread).1, hread⟩
    · exact .inr hfault

/-- The largest number that is read back, the smallest that is not, and a negative number. -/
theorem writes_shortest_and_reads_back_limit :
    (∃ s, write (limit - 1 : Nat) = .ok s ∧ read.outcome (s ++ [7]) = (.ok (limit - 1), [7])) ∧
    (∃ s f left, write limit = .ok s ∧ read.outcome (s ++ [7]) = (.error f, left) ∧ f.category = .dataStore) ∧
    ∃ f, write (-1) = .fail f ∧ f.category = .dataStore := by
  obtain ⟨hwrite, hnegative, -⟩ := writes_shortest_and_reads_back [7] []
  obtain ⟨s, hs, -, hread, -⟩ := hwrite (limit - 1)
  obtain ⟨t, ht, -, -, hrefused⟩ := hwrite limit
  obtain ⟨f, left, hfault⟩ := hrefused (Nat.le_refl limit)
  obtain ⟨g, hg, hcategory, -⟩ := hnegative (-1) (by decide)
  exact ⟨⟨s, hs, hread (by decide)⟩, ⟨t, f, left, ht, hfault⟩, g, hg, hcategory (by decide +kernel)⟩

/-- **A number can be refused as something else**: one with too many digits cannot be quoted. -/
theorem write_raises_large :
    let n : Int := -(Int.ofNat (Nat.pow 10 4300))
    n < 0 ∧ (write n).fault = some .tooManyDigits ∧ Fault.tooManyDigits.category ≠ .dataStore := by
  intro n
  have hn : n < 0 := by decide +kernel
  refine ⟨hn, ?_, by decide⟩
  rw [write_of_neg hn]
  decide +kernel

end StackCalc.Wire.LengthCode
