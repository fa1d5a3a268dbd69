import StackCalc.Wire.Scalar
import StackCalc.Wire.CodecTable
import StackCalc.Domain

/-! # Values on the wire

A value is the number of its kind, as a length code, followed by its payload. A pair is its two members
one after the other, each with the number of its own kind; null has no payload. -/

namespace StackCalc.Wire

/-- Writes a value with its kind. -/
def writeValue (t : CodecTable) : Value → Written
  | .mk d p =>
    match t.idFor p.kind with
    | .error f => .fail f
    | .ok id => (LengthCode.write id).andThen
      (match p with
        | .int n => ScalarCodec.int.write (.int n)
        | .float x _ => .ok (encodeFloat x)
        | .str s => encodeText s
        | .bool b => .ok (encodeBool b)
        | .null => .ok []
        | .cons a b => (writeValue t a).andThen (writeValue t b)
        | p => .fail ((Value.mk d p).wrongKind Naming.standard .null (some "codec payload")))

/-- Writes the payload of a value that has to be of a kind, without the kind. -/
def writeAs (t : CodecTable) (k : Kind) (v : Value) : Written :=
  match k, v.payload with
  | .int, .int n => ScalarCodec.int.write (.int n)
  | .float, .float x _ => .ok (encodeFloat x)
  | .str, .str s => encodeText s
  | .bool, .bool b => .ok (encodeBool b)
  | .null, .null => .ok []
  | .cons, .cons a b => (writeValue t a).andThen (writeValue t b)
  | _, _ => .fail (v.wrongKind Naming.standard k (some "codec payload"))

/-- Reads a payload of a kind; `values` reads the members of a pair. -/
def readPayload (d : DomainId) (values : Reader Value) : Kind → Reader Value
  | .int => do return .mk d (.int (← readInt))
  | .float => do return .mk d (.float (← readFloat) 0)
  | .str => do return .mk d (.str (← readText))
  | .bool => do return .mk d (.bool (← readBool))
  | .cons => do
    let a ← values
    return .mk d (.cons a (← values))
  | _ => pure (.mk d .null)

/-- The kind that a number on the wire stands for. -/
def kindOnWire (t : CodecTable) (id : Nat) : Except Fault Kind :=
  match t.tagFor id with
  | .ok k => .ok k
  | .error (.unknownCodecId s) => .error (.noCodecForId s)
  | .error f => .error f

/-- Reads a value nested at most so deep. -/
def readNested (t : CodecTable) (d : DomainId) : Nat → Reader Value
  | 0 => throw .depthExceeded
  | fuel + 1 => do
    let id ← LengthCode.read
    let k ← (kindOnWire t id : Except Fault Kind)
    readPayload d (readNested t d fuel) k

/-- Reads a value. Each level takes at least one byte, so no more levels are met than there are bytes. -/
def readValue (t : CodecTable) (d : DomainId) : Reader Value := do
  readNested t d ((← get).length + 1)

end StackCalc.Wire
