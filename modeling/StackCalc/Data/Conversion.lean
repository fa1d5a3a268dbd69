import StackCalc.Domain

/-! # Values and plain data

The data form of a value: scalars as they are, a proper list as a list, any other pair as a mapping of
`car` and `cdr`, an object with members as a mapping that is tagged with its type, where each listed name has
the member that is found for it. Code and callables have none. The way back reads scalars, sequences and such
mappings of two keys. Members of a list are converted back from the last to the first, so of two bad ones the
last is reported. -/

namespace StackCalc

/-- The key that holds the type of an object. -/
def structKey : Text := "__struct__"

/-- The fault of a value that has no data form. -/
def noDataForm (v : Value) : Fault :=
  match v.shown Naming.standard with
  | .ok s => .noDataForm s
  | .error f => f

mutual

/-- The data form of a value. -/
def Value.toData : Value → Except Fault Data
  | .mk d p =>
    match p with
    | .int n => pure (.int n)
    | .float x _ => pure (.float x)
    | .str s => pure (.str s)
    | .bool b => pure (.bool b)
    | .null => pure .null
    | .cons a b => do
      let first ← a.toData
      match ← b.toDataTail with
      | some rest => return .list (first :: rest)
      | none => return .map [(.str "car", first), (.str "cdr", ← b.toData)]
    | .object c => do
      match ← c.toDataEntries with
      | some entries => return .map (Data.mapOf (((structKey, .str c.name) :: entries).map fun e => (.str e.1, e.2)))
      | none => throw (noDataForm (.mk d (.object c)))
    | p => throw (noDataForm (.mk d p))

/-- The data forms of the items of the rest of a list, if it ends in null. -/
def Value.toDataTail : Value → Except Fault (Option (List Data))
  | .mk _ p =>
    match p with
    | .null => pure (some [])
    | .cons a b => do
      let first ← a.toData
      return (← b.toDataTail).map (first :: ·)
    | _ => pure none

/-- The data forms of the members of an object, if it has any. -/
def Composite.toDataEntries : Composite → Except Fault (Option (List (Text × Data)))
  | .record t vs => do return some (← Members.forms (t.fields.zip (toDataEach vs)))
  | .host _ _ _ traits => toDataTraits traits
  | _ => pure none

def toDataTraits : List Trait → Except Fault (Option (List (Text × Data)))
  | [] => pure none
  | .members _ entries :: _ => do return some (← Members.forms (toDataMembers entries))
  | .hiddenMembers _ :: _ => pure (some [])
  | _ :: rest => toDataTraits rest

def toDataMembers : List (Text × Value) → List (Text × Except Fault Data)
  | [] => []
  | (k, v) :: rest => (k, v.toData) :: toDataMembers rest

def toDataEach : List Value → List (Except Fault Data)
  | [] => []
  | v :: vs => v.toData :: toDataEach vs

end

/-! ### The way back -/

/-- A list of values, in a domain. -/
def Value.ofList (d : DomainId) : List Value → Value
  | [] => .mk d .null
  | v :: vs => .mk d (.cons v (Value.ofList d vs))

/-- The fault of data that is no value. -/
def noValueForm (d : Data) : Fault :=
  match d.shown Naming.standard with
  | .ok s => .noValueForm d.className s
  | .error f => f

mutual

/-- The value that plain data stands for, in a standard domain. -/
def Data.toValue (id : DomainId) : Data → Except Fault Value
  | .int n => pure (.mk id (.int n))
  | .float x => pure (.mk id (.float x 0))
  | .str s => pure (.mk id (.str s))
  | .bool b => pure (.mk id (.bool b))
  | .null => pure (.mk id .null)
  | .list items => Data.toValueList id items
  | .tuple items => Data.toValueList id items
  | .map [(k, v), (l, w)] => do
    if k.sameKey (.str "car") && l.sameKey (.str "cdr") then
      let a ← v.toValue id
      return .mk id (.cons a (← w.toValue id))
    else if k.sameKey (.str "cdr") && l.sameKey (.str "car") then
      let a ← w.toValue id
      return .mk id (.cons a (← v.toValue id))
    else throw (noValueForm (.map [(k, v), (l, w)]))
  | .map entries => throw (noValueForm (.map entries))
  | .subList _ items => Data.toValueList id items
  | .subInt name _ | .subFloat name _ | .subStr name _ => throw (.unregisteredKind name)
  | .cycle _ => throw .depthExceeded
  | d => throw (noValueForm d)

/-- The list of the given items; the last item is converted first. -/
def Data.toValueList (id : DomainId) : List Data → Except Fault Value
  | [] => pure (.mk id .null)
  | item :: rest => do
    let tail ← Data.toValueList id rest
    return .mk id (.cons (← item.toValue id) tail)

end

end StackCalc
