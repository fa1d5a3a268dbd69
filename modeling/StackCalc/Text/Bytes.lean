import StackCalc.Text.Class
import StackCalc.Text.Quoted

/-! # Bytes as text

In base sixteen, two digits a byte, the high one first; and in base sixty-four, four characters for three bytes.
Characters outside that alphabet are passed over; padding ends the text once it completes a group. -/

namespace StackCalc.Text

/-! ### Base sixteen -/

/-- The digits of bytes. -/
def hexOfBytes (bytes : List UInt8) : String := String.ofList (bytes.flatMap fun b => hex 2 b.toNat)

/-- The bytes of pairs of digits, if that is what the characters are. -/
def bytesOfHex? : List Char → Option (List UInt8)
  | [] => some []
  | a :: b :: rest => do
    let high ← hexDigit? a
    let low ← hexDigit? b
    return UInt8.ofNat (16 * high + low) :: (← bytesOfHex? rest)
  | _ => none

/-! ### Base sixty-four -/

/-- The six bits that a character of the alphabet stands for. -/
def base64Digit? (c : Char) : Option Nat :=
  if c.isUpper then some (c.toNat - 65)
  else if c.isLower then some (c.toNat - 71)
  else if c.isDigit then some (c.toNat + 4)
  else if c == '+' then some 62
  else if c == '/' then some 63
  else none

/-- Decodes from a place in a group of four: `taken` characters of it are there, `left` holds the bits
that no byte has taken yet, and `pads` counts the padding. -/
def decodeBase64From : (taken left pads : Nat) → List Char → Option (List UInt8)
  | taken, _, _, [] => if taken = 0 then some [] else none
  | taken, left, pads, c :: rest =>
    if c == '=' then
      if 2 ≤ taken then
        if 4 ≤ taken + (pads + 1) then some [] else decodeBase64From taken left (pads + 1) rest
      else decodeBase64From taken left pads rest
    else
      match base64Digit? c with
      | none => decodeBase64From taken left pads rest
      | some d =>
        match taken with
        | 0 => decodeBase64From 1 d 0 rest
        | 1 => (decodeBase64From 2 (d % 16) 0 rest).map (UInt8.ofNat (left * 4 + d / 16) :: ·)
        | 2 => (decodeBase64From 3 (d % 4) 0 rest).map (UInt8.ofNat (left * 16 + d / 4) :: ·)
        | _ => (decodeBase64From 0 0 0 rest).map (UInt8.ofNat (left * 64 + d) :: ·)

/-- The bytes of a text. -/
def decodeBase64? (s : List Char) : Option (List UInt8) := decodeBase64From 0 0 0 s

end StackCalc.Text
