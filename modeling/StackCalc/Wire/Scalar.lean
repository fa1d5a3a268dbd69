import StackCalc.Data.Basic
import StackCalc.Value.Show
import StackCalc.Wire.Bytes

/-! # Numbers and texts on the wire

A length code is a natural number of any size in groups of seven bits, the lowest first; every byte but the last has
its high bit set. Any number can be written. Reading stops at `LengthCode.maxGroups` bytes, which are enough for 70
bits. Integers are signed 64-bit numbers and floating-point numbers their bit patterns, both with the highest byte
first; a truth value is one byte; a text is its UTF-8 bytes behind their number, and half of a surrogate pair has
none. -/

namespace StackCalc.Wire

/-! ### Length codes -/

namespace LengthCode

/-- The most bytes that a length code may have when it is read. -/
def maxGroups : Nat := 10

/-- The groups of a number. -/
def encode (n : Nat) : Bytes :=
  if n < 128 then [UInt8.ofNat n] else UInt8.ofNat (n % 128 + 128) :: encode (n / 128)
termination_by n

/-- Reads at most so many groups. -/
def readGroups : Nat → Reader Nat
  | 0 => throw .longLengthCode
  | fuel + 1 => do
    let b ← Reader.byte
    if b.toNat < 128 then return b.toNat
    else return b.toNat - 128 + 128 * (← readGroups fuel)

/-- Reads a length code. -/
def read : Reader Nat := readGroups maxGroups

/-- Writes a number, which must not be negative. -/
def write (n : Int) : Written :=
  if n < 0 then
    match showInt n with
    | .ok s => .fail (.negativeLengthCode s)
    | .error f => .fail f
  else .ok (encode n.toNat)

end LengthCode

/-! ### Bytes of a number -/

/-- The lowest `count` bytes of a number, the highest first. -/
def bigEndian : Nat → Nat → Bytes
  | 0, _ => []
  | count + 1, n => bigEndian count (n / 256) ++ [UInt8.ofNat n]

/-- The number that bytes stand for, the highest first. -/
def ofBigEndian (bytes : Bytes) : Nat := bytes.foldl (fun n b => 256 * n + b.toNat) 0

theorem length_bigEndian (count n : Nat) : (bigEndian count n).length = count := by
  induction count generalizing n with
  | zero => rfl
  | succ count ih => simp [bigEndian, ih]

/-- The range of a 64-bit integer. -/
def fitsInt64 (n : Int) : Bool := decide (-(1 <<< 63 : Nat) ≤ n ∧ n < (1 <<< 63 : Nat))

/-- The bytes of a 64-bit integer. -/
def encodeInt (n : Int) : Bytes := bigEndian 8 (n % (1 <<< 64 : Nat)).toNat

/-- The 64-bit integer of a number below `2 ^ 64`. -/
def decodeInt (n : Nat) : Int := if n < 1 <<< 63 then n else (n : Int) - (1 <<< 64 : Nat)

def encodeFloat (x : Binary64) : Bytes := bigEndian 8 x.bits.toNat

def encodeBool (b : Bool) : Bytes := [if b then 1 else 0]

/-- The bytes of a text behind their number. A text with half of a pair has none. -/
def encodeText (s : Text) : Written :=
  match s.utf8? with
  | some bytes => .ok (LengthCode.encode bytes.length ++ bytes)
  | none => .fail .unencodableText

/-! ### Reading -/

def readInt : Reader Int := do return decodeInt (ofBigEndian (← Reader.bytes 8))

def readFloat : Reader Binary64 := do return ⟨UInt64.ofNat (ofBigEndian (← Reader.bytes 8))⟩

def readBool : Reader Bool := do
  let b ← Reader.byte
  if 1 < b.toNat then throw (.badFlag b.toNat) else return b == 1

def readText : Reader Text := do
  let size ← LengthCode.read
  let bytes ← Reader.bytes size
  match String.fromUTF8? ⟨bytes.toArray⟩ with
  | some s => return s
  | none => throw .badUtf8

/-! ### Writing host data -/

/-- The fault of data that a codec has no bytes for. -/
def unencodable (d : Data) : Fault :=
  match d.shown Naming.standard with
  | .ok s => .unencodable s
  | .error f => f

/-- The integer that data can stand for. -/
def integer? : Data → Option Int
  | .bool b => some (if b then 1 else 0)
  | d => d.integer?

/-- The number that data can stand for. -/
def number? : Data → Option Binary64
  | .float x | .subFloat _ x => some x
  | d => (integer? d).bind Binary64.ofInt?

/-- The codecs of the store for scalars. -/
inductive ScalarCodec where
  | length | int | float | bool | text
  deriving DecidableEq, Repr

namespace ScalarCodec

/-- The codecs by name. -/
def named : List (Text × ScalarCodec) :=
  [("vli", length), ("int", int), ("float", float), ("bool", bool), ("str", text)]

def ofName? (name : Text) : Option ScalarCodec := named.lookup name

def read : ScalarCodec → Reader Data
  | length => do return .int (← LengthCode.read)
  | int => do return .int (← readInt)
  | float => do return .float (← readFloat)
  | bool => do return .bool (← readBool)
  | text => do return .str (← readText)

/-- A number that is no integer has no length code; a negative one is refused as such. -/
def writeLength (d : Data) : Written :=
  match integer? d, d with
  | some n, _ => LengthCode.write n
  | none, .float x | none, .subFloat _ x =>
    if x.lt (Binary64.zero false) then .fail (.negativeLengthCode (showFloat x)) else .fail .wrongHostType
  | none, _ => .fail .wrongHostType

def write : ScalarCodec → Data → Written
  | length, d => writeLength d
  | int, d =>
    match integer? d with
    | some n => if fitsInt64 n then .ok (encodeInt n) else .fail (unencodable d)
    | none => .fail (unencodable d)
  | float, d =>
    match number? d with
    | some x => .ok (encodeFloat x)
    | none => .fail (unencodable d)
  | bool, d => .ok (encodeBool d.truthy)
  | text, d =>
    match d.string? with
    | some s => encodeText s
    | none => .fail .notText

end ScalarCodec

end StackCalc.Wire
