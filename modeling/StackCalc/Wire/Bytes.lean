import StackCalc.Fault

/-! # Bytes

Reading takes bytes off the front of what is left of a stream. A read that meets the end takes what there
is and fails, so the position after a failure shows as well. Writing yields the bytes written up to the
first fault, if there is one. -/

namespace StackCalc.Wire

abbrev Bytes := List UInt8

/-- Reads from the front of a stream; what is left survives a fault. -/
abbrev Reader := ExceptT Fault (StateM Bytes)

namespace Reader

/-- The outcome of reading, and what is left. -/
def outcome {α : Type} (r : Reader α) (s : Bytes) : Except Fault α × Bytes := (ExceptT.run r).run s

/-- The least number of bytes that a stream cannot be asked for. -/
def sizeLimit : Nat := 1 <<< 63

/-- Takes so many bytes. -/
def bytes (count : Nat) : Reader Bytes := do
  if sizeLimit ≤ count then throw .numberTooLarge
  let s ← get
  set (s.drop count)
  let taken := s.take count
  if taken.length = count then return taken else throw (.endOfStream count taken.length)

/-- Takes one byte. -/
def byte : Reader UInt8 := do
  match ← bytes 1 with
  | b :: _ => return b
  | [] => throw (.endOfStream 1 0)

end Reader

/-- What has been written, and the fault that ended the writing. -/
structure Written where
  bytes : Bytes
  fault : Option Fault

namespace Written

def ok (bytes : Bytes) : Written := ⟨bytes, none⟩

def fail (f : Fault) : Written := ⟨[], some f⟩

/-- Goes on writing unless there was a fault. -/
def andThen (a b : Written) : Written :=
  match a.fault with
  | some _ => a
  | none => ⟨a.bytes ++ b.bytes, b.fault⟩

/-- Writes in order. -/
def all (ws : List Written) : Written := ws.foldr andThen (ok [])

@[simp] theorem ok_andThen (bytes : Bytes) (b : Written) :
    (ok bytes).andThen b = ⟨bytes ++ b.bytes, b.fault⟩ := rfl

end Written

/-- A buffer that is written and read at a position. -/
structure Buffer where
  bytes : Bytes
  position : Nat

namespace Buffer

def empty : Buffer := ⟨[], 0⟩

/-- Writes over what is at the position. -/
def write (b : Buffer) (new : Bytes) : Buffer :=
  ⟨b.bytes.take b.position ++ new ++ b.bytes.drop (b.position + new.length), b.position + new.length⟩

/-- Reads at the position. -/
def read {α : Type} (b : Buffer) (r : Reader α) : Except Fault α × Buffer :=
  let (result, rest) := r.outcome (b.bytes.drop b.position)
  (result, ⟨b.bytes, b.bytes.length - rest.length⟩)

end Buffer

end StackCalc.Wire
