import StackCalc.Data.Basic

/-! # Codec tables

A table gives kinds of value the numbers under which they are written: a map from kinds to numbers and the
map back, kept in step. Entries are made one by one. An entry that would give a number to a second kind is
refused and changes nothing; a kind that is entered again gives up its number. Loading starts from an
empty table, and a refused entry leaves the table as far as it has come. -/

namespace StackCalc.Wire

/-- The kinds with a codec, in order. -/
def encodedKinds : List Kind := [.int, .float, .str, .bool, .null, .cons]

/-- The kind with a codec that goes by a tag. -/
def kindOfTag? (tag : Text) : Option Kind := encodedKinds.find? fun k => k.name == tag

/-- The numbers of the kinds, both ways. -/
structure CodecTable where
  ids : List (Kind × Nat)
  tags : List (Nat × Kind)
  deriving Inhabited

namespace CodecTable

def empty : CodecTable := ⟨[], []⟩

/-- Sets the number of a kind; a kind that has one keeps its place. -/
def setId (k : Kind) (id : Nat) : List (Kind × Nat) → List (Kind × Nat)
  | [] => [(k, id)]
  | (l, n) :: rest => if l == k then (k, id) :: rest else (l, n) :: setId k id rest

/-- Sets the kind of a number. -/
def setTag (id : Nat) (k : Kind) (tags : List (Nat × Kind)) : List (Nat × Kind) :=
  tags.filter (fun e => e.1 != id) ++ [(id, k)]

/-- The text of a codec id in a message. -/
def clashFault (id : Nat) (first second : Kind) : Fault :=
  match showInt id with
  | .ok s => .codecIdClash s first.name second.name
  | .error f => f

/-- Gives a number to a kind. -/
def enter (t : CodecTable) (k : Kind) (id : Nat) : Except Fault CodecTable :=
  match t.tags.lookup id with
  | some other => if other == k then .ok (set t k id) else .error (clashFault id other k)
  | none => .ok (set t k id)
where
  set (t : CodecTable) (k : Kind) (id : Nat) : CodecTable :=
    let kept := match t.ids.lookup k with
      | some previous => t.tags.filter fun e => e.1 != previous
      | none => t.tags
    ⟨setId k id t.ids, setTag id k kept⟩

/-- An entry as the host gives it: a tag and a number that is not negative. -/
def checkEntry (tag id : Data) : Except Fault (Kind × Nat) := do
  if !tag.isKey then throw .wrongHostType
  let some kind := tag.string?.bind kindOfTag? | throw (.unknownTag (← tag.shown Naming.standard))
  match id.integer? with
  | some n => if 0 ≤ n then return (kind, n.toNat) else throw (.badCodecId kind.name (← showInt n))
  | none => throw (.badCodecId kind.name (← id.shown Naming.standard))

/-- Makes an entry. -/
def entry (t : CodecTable) (tag id : Data) : Except Fault CodecTable := do
  let (k, n) ← checkEntry tag id
  t.enter k n

/-- Makes entries in order, up to the first that is refused. -/
def enterAll : CodecTable → List (Data × Data) → Except Fault Unit × CodecTable
  | t, [] => (.ok (), t)
  | t, (tag, id) :: rest =>
    match t.entry tag id with
    | .ok t' => enterAll t' rest
    | .error f => (.error f, t)

/-- Loads a table: what was there is given up first, so after a refused entry only those before it are
left. -/
def load (_t : CodecTable) (entries : List (Data × Data)) : Except Fault Unit × CodecTable :=
  enterAll empty entries

/-- The number of a kind. -/
def idFor (t : CodecTable) (k : Kind) : Except Fault Nat :=
  match t.ids.lookup k with
  | some id => .ok id
  | none => .error (.unregisteredTag k.name)

/-- The number of the kind that goes by a tag. -/
def idForTag (t : CodecTable) (tag : Text) : Except Fault Nat :=
  match kindOfTag? tag with
  | some k => t.idFor k
  | none => .error (.unregisteredTag tag)

/-- The kind of a number. -/
def tagFor (t : CodecTable) (id : Int) : Except Fault Kind :=
  match (if id < 0 then none else t.tags.lookup id.toNat) with
  | some k => .ok k
  | none => do throw (.unknownCodecId (← showInt id))

def contains (t : CodecTable) (tag : Text) : Bool :=
  match kindOfTag? tag with
  | some k => (t.ids.lookup k).isSome
  | none => false

/-- The table as it is shown in the log. -/
def toList (t : CodecTable) : List (Text × Nat) := t.ids.map fun e => (e.1.name, e.2)

end CodecTable

end StackCalc.Wire
