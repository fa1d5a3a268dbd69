import StackCalc.Proofs.Wire.LengthCode
import StackCalc.Wire.Scalar
import Mathlib.Data.List.Basic

/-! # Scalars read back

Each scalar is read back from its bytes, whatever follows them: an integer of 64 bits, every
floating-point number, down to its bits, every truth value, and every text whose bytes can be asked for
at once. -/

namespace StackCalc.Wire

open Reader (Reads)

/-! ### Bytes of a number -/

theorem ofBigEndian_append_single (s : Bytes) (b : UInt8) :
    ofBigEndian (s ++ [b]) = 256 * ofBigEndian s + b.toNat := by
  unfold ofBigEndian
  rw [List.foldl_append]
  rfl

/-- One byte more makes room for `256` times as many numbers. -/
theorem shift_succ_byte (count : Nat) : 1 <<< (8 * (count + 1)) = 256 * 1 <<< (8 * count) := by
  rw [Nat.shiftLeft_eq, Nat.shiftLeft_eq, Nat.mul_succ, Nat.pow_add]
  omega

/-- So many bytes hold the number up to that size. -/
theorem ofBigEndian_bigEndian : ∀ count n : Nat,
    ofBigEndian (bigEndian count n) = n % 1 <<< (8 * count)
  | 0, n => by
    rw [Nat.mul_zero, Nat.shiftLeft_zero, Nat.mod_one]
    rfl
  | count + 1, n => by
    have ih := ofBigEndian_bigEndian count (n / 256)
    have hlast : (UInt8.ofNat n).toNat = n % 256 := by rw [UInt8.toNat_ofNat']
    rw [bigEndian, ofBigEndian_append_single, ih, hlast, shift_succ_byte, Nat.mod_mul]
    omega

theorem reads_word {n : Nat} (h : n < 1 <<< 64) :
    Reads (do return ofBigEndian (← Reader.bytes 8)) n (bigEndian 8 n) := by
  have hlen : (bigEndian 8 n).length = 8 := length_bigEndian 8 n
  have hread := (Reads.bytes (s := bigEndian 8 n) (by rw [hlen]; decide)).map ofBigEndian
  rw [hlen, ofBigEndian_bigEndian, Nat.mod_eq_of_lt h] at hread
  exact hread

/-! ### Numbers and truth values -/

/-- The two readings of a word: as a number, and as a number with a sign. -/
theorem decodeInt_toNat {n : Int} (h : fitsInt64 n = true) :
    decodeInt (n % (1 <<< 64 : Nat)).toNat = n := by
  have hfits : -(1 <<< 63 : Nat) ≤ n ∧ n < (1 <<< 63 : Nat) := of_decide_eq_true h
  have h63 : (1 <<< 63 : Nat) = 9223372036854775808 := by decide
  have h64 : (1 <<< 64 : Nat) = 18446744073709551616 := by decide
  unfold decodeInt
  rw [h63] at hfits ⊢
  rw [h64]
  split_ifs <;> omega

theorem reads_int {n : Int} (h : fitsInt64 n = true) : Reads readInt n (encodeInt n) := by
  have hword : (n % (1 <<< 64 : Nat)).toNat < 1 <<< 64 := by
    have h64 : (1 <<< 64 : Nat) = 18446744073709551616 := by decide
    rw [h64]
    omega
  have hread := (reads_word hword).map decodeInt
  rw [decodeInt_toNat h] at hread
  intro rest
  rw [← hread rest]
  unfold readInt
  simp only [bind_assoc, pure_bind]
  rfl

theorem reads_float (x : Binary64) : Reads readFloat x (encodeFloat x) := by
  have hword : x.bits.toNat < 1 <<< 64 := x.bits.toNat_lt
  have hread := (reads_word hword).map fun n => (⟨UInt64.ofNat n⟩ : Binary64)
  rw [UInt64.ofNat_toNat] at hread
  intro rest
  rw [← hread rest]
  unfold readFloat
  simp only [bind_assoc, pure_bind]
  rfl

theorem reads_bool (b : Bool) : Reads readBool b (encodeBool b) := by
  intro rest
  cases b <;> rfl

/-! ### Texts -/

theorem byteArray_loop (bs : ByteArray) (i : Nat) (acc : List UInt8) :
    ByteArray.toList.loop bs i acc = acc.reverse ++ bs.data.toList.drop i := by
  fun_induction ByteArray.toList.loop bs i acc with
  | case1 i acc hi ih =>
    have hlt : i < bs.data.toList.length := hi
    have hget : bs.get! i = bs.data.toList[i] := by
      rw [ByteArray.get!, Array.getElem_toList]
      exact getElem!_pos bs.data i hi
    rw [ih, List.drop_eq_getElem_cons hlt, hget, List.reverse_cons, List.append_assoc]
    rfl
  | case2 i acc hi =>
    have hle : bs.data.toList.length ≤ i := Nat.not_lt.mp hi
    rw [List.drop_eq_nil_of_le hle, List.append_nil]

theorem toList_eq (bs : ByteArray) : bs.toList = bs.data.toList := byteArray_loop bs 0 []

theorem fromUTF8?_toUTF8 (s : String) : String.fromUTF8? ⟨s.toUTF8.toList.toArray⟩ = some s := by
  rw [toList_eq]
  exact dif_pos s.isValidUTF8

/-- The bytes of a text, if it has any, can be asked for. -/
def IsShort (s : Text) : Prop := ∀ bytes, s.utf8? = some bytes → bytes.length < Reader.sizeLimit

/-- A text is written exactly if it has bytes. -/
theorem encodeText_eq_ok_iff {s : Text} {bytes : Bytes} : encodeText s = .ok bytes ↔
    ∃ t : String, s = t ∧ bytes = LengthCode.encode t.toUTF8.toList.length ++ t.toUTF8.toList := by
  unfold encodeText Text.utf8?
  constructor
  · intro h
    rcases ht : s.string? with _ | t <;> rw [ht] at h <;> cases h
    exact ⟨t, Text.eq_ofString_of_string? ht, rfl⟩
  · rintro ⟨t, rfl, rfl⟩
    rw [Text.string?_ofString]
    rfl

theorem length_toUTF8 (t : String) : t.toUTF8.toList.length = t.utf8ByteSize := by
  rw [toList_eq]
  exact Array.length_toList

theorem encodeText_ofString (t : String) :
    encodeText t = .ok (LengthCode.encode t.utf8ByteSize ++ t.toUTF8.data.toList) :=
  encodeText_eq_ok_iff.2 ⟨t, rfl, by rw [length_toUTF8, toList_eq]⟩

theorem isShort_ofString {t : String} (h : t.utf8ByteSize < Reader.sizeLimit) : IsShort t := fun bytes hb => by
  rw [Text.utf8?, Text.string?_ofString] at hb
  cases hb
  rwa [length_toUTF8]

theorem reads_text {s : Text} {bytes : Bytes} (hs : encodeText s = .ok bytes) (h : IsShort s) :
    Reads readText s bytes := by
  obtain ⟨t, rfl, rfl⟩ := encodeText_eq_ok_iff.1 hs
  have hlength : t.toUTF8.toList.length < Reader.sizeLimit := h _ (by rw [Text.utf8?, Text.string?_ofString]; rfl)
  have hbytes := Reads.bytes hlength
  refine (LengthCode.reads_encode (Nat.lt_trans hlength (by decide))).bind ?_
  generalize t.toUTF8.toList.length = size at hbytes ⊢
  rw [← List.append_nil t.toUTF8.toList]
  refine hbytes.bind ?_
  rw [fromUTF8?_toUTF8]
  exact Reads.pure _

end StackCalc.Wire
