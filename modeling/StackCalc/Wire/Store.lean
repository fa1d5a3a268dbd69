import StackCalc.Wire.Scalar

/-! # Data stores

A record is the number of its entries, as a length code, and then the keys and values one after the other.
Reading makes a store of it: each key once, at its first place, with its last value. A wrapper activates
the store: every visitor is taken through it, in the order in which they were registered, and then the
callback is told. Visitors and callback work on a state that the host chooses. -/

namespace StackCalc.Wire

variable {κ ν σ : Type}

/-- Sets a key of a store. -/
def storeInsert (same : κ → κ → Bool) (key : κ) (value : ν) : List (κ × ν) → List (κ × ν)
  | [] => [(key, value)]
  | (k, v) :: rest =>
    if same k key then (k, value) :: rest else (k, v) :: storeInsert same key value rest

/-- Reads so many entries into a store. -/
def readEntries (same : κ → κ → Bool) (key : Reader κ) (value : Reader ν) :
    Nat → List (κ × ν) → Reader (List (κ × ν))
  | 0, store => pure store
  | n + 1, store => do
    let k ← key
    let v ← value
    readEntries same key value n (storeInsert same k v store)

/-- Reads a record: the number of entries it announces, and the store they make. -/
def readRecord (same : κ → κ → Bool) (key : Reader κ) (value : Reader ν) :
    Reader (Nat × List (κ × ν)) := do
  let size ← LengthCode.read
  return (size, ← readEntries same key value size [])

/-- Writes a record. -/
def writeRecord (key : κ → Written) (value : ν → Written) (entries : List (κ × ν)) : Written :=
  (LengthCode.write entries.length).andThen
    (Written.all (entries.map fun e => (key e.1).andThen (value e.2)))

/-- What is taken through a store; it may refuse an entry. -/
structure Visitor (κ ν σ : Type) where
  begin : Nat → σ → σ
  entry : κ → ν → σ → Except Fault Unit × σ
  finish : σ → σ

namespace Visitor

/-- Takes the entries to a visitor, up to the first that it refuses. -/
def entries (vis : Visitor κ ν σ) : List (κ × ν) → σ → Except Fault Unit × σ
  | [], s => (.ok (), s)
  | (k, v) :: rest, s =>
    match vis.entry k v s with
    | (.ok (), s') => vis.entries rest s'
    | (.error f, s') => (.error f, s')

/-- Takes a visitor through a whole store. -/
def replay (vis : Visitor κ ν σ) (store : List (κ × ν)) (s : σ) : Except Fault Unit × σ :=
  match vis.entries store (vis.begin store.length s) with
  | (.ok (), s') => (.ok (), vis.finish s')
  | (.error f, s') => (.error f, s')

end Visitor

/-- The active store, who visits it, and who is told. -/
structure Wrapper (κ ν σ : Type) where
  store : Option (List (κ × ν))
  visitors : List (Visitor κ ν σ)
  callback : Option (List (κ × ν) → σ → Except Fault Unit × σ)

namespace Wrapper

/-- Adds a visitor, after those that are there. -/
def addVisitor (w : Wrapper κ ν σ) (vis : Visitor κ ν σ) : Wrapper κ ν σ :=
  { w with visitors := w.visitors ++ [vis] }

/-- Takes visitors through a store in turn. -/
def replayAll (store : List (κ × ν)) : List (Visitor κ ν σ) → σ → Except Fault Unit × σ
  | [], s => (.ok (), s)
  | vis :: rest, s =>
    match vis.replay store s with
    | (.ok (), s') => replayAll store rest s'
    | (.error f, s') => (.error f, s')

/-- Makes a store the active one. -/
def activate (w : Wrapper κ ν σ) (store : List (κ × ν)) (s : σ) :
    Except Fault Unit × Wrapper κ ν σ × σ :=
  let w' := { w with store := some store }
  match replayAll store w.visitors s with
  | (.error f, s') => (.error f, w', s')
  | (.ok (), s') =>
    match w.callback with
    | none => (.ok (), w', s')
    | some tell =>
      let (result, s'') := tell store s'
      (result, w', s'')

/-- Takes a visitor through the active store. -/
def visit (w : Wrapper κ ν σ) (vis : Visitor κ ν σ) (s : σ) : Except Fault Unit × σ :=
  match w.store with
  | none => (.error .noStore, s)
  | some store => vis.replay store s

/-- Reads a record and makes its store the active one. -/
def read (w : Wrapper κ ν σ) (same : κ → κ → Bool) (key : Reader κ) (value : Reader ν) (bytes : Bytes)
    (s : σ) : Except Fault (Nat × List (κ × ν)) × Bytes × Wrapper κ ν σ × σ :=
  match (readRecord same key value).outcome bytes with
  | (.error f, rest) => (.error f, rest, w, s)
  | (.ok record, rest) =>
    match w.activate record.2 s with
    | (.ok (), w', s') => (.ok record, rest, w', s')
    | (.error f, w', s') => (.error f, rest, w', s')

end Wrapper

end StackCalc.Wire
