import StackCalc.Data.Basic
import StackCalc.Value.Equality

/-! # Domains

A domain owns kinds of value: it gives each kind it admits a name of its own and a notion of truth. Values
are made through a domain, which checks that the payload is of the kind asked for; the class of a piece of
host data picks the kind if none is asked for. The standard domain admits the nine kinds of the
calculator. -/

namespace StackCalc

/-- When a payload counts as true. -/
inductive Truth where
  | natural | always | never | negated
  deriving DecidableEq, Repr

namespace Kind

/-- The class behind a kind. -/
def className : Kind → Text
  | int => "int" | float => "float" | str => "str" | bool => "bool" | null => "NoneType" | cons => "Cons"
  | code => "Code" | callable => "ICallable" | object => "IComposite" | hostList => "list"
  | hostMap => "dict"

/-- The kinds of the standard domain, in order. -/
def standard : List Kind := [int, float, str, bool, null, cons, code, callable, object]

/-- The kind with a name in the standard domain. -/
def ofName? (s : Text) : Option Kind := standard.find? fun k => k.name == s

/-- When a value of a standard kind counts as true: numbers that are not zero, texts that are not empty,
and whatever has structure. -/
def standardTruth : Kind → Truth
  | null => .never
  | cons | code | callable | object => .always
  | _ => .natural

end Kind

/-- A payload counts as true on its own. -/
def Payload.natural : Payload → Bool
  | .int n => n != 0
  | .float x _ => !x.isZero
  | .str s => s != ""
  | .bool b => b
  | .null => false
  | .code c => !c.steps.isEmpty
  | .host _ _ truthy => truthy
  | _ => true

def Truth.of (t : Truth) (p : Payload) : Bool :=
  match t with
  | natural => p.natural
  | always => true
  | never => false
  | negated => !p.natural

/-- A kind that a domain admits. -/
structure Admission where
  kind : Kind
  name : Text
  truth : Truth

/-- The kinds that a domain admits, in the order in which they were registered. -/
structure Domain where
  admissions : List Admission
  deriving Inhabited

namespace Domain

def empty : Domain := ⟨[]⟩

def standard : Domain := ⟨Kind.standard.map fun k => ⟨k, k.name, k.standardTruth⟩⟩

def find? (d : Domain) (k : Kind) : Option Admission := d.admissions.find? fun a => a.kind == k

def isRegistered (d : Domain) (k : Kind) : Bool := (d.find? k).isSome

/-- The name of a kind; a kind that is not admitted shows its class. -/
def nameOf (d : Domain) (k : Kind) : Text :=
  match d.find? k with
  | some a => a.name
  | none => "<unregistered " ++ k.className ++ ">"

def kindOf? (d : Domain) (name : Text) : Option Kind :=
  (d.admissions.find? fun a => a.name == name).map (·.kind)

def names (d : Domain) : List Text := d.admissions.map (·.name)

/-- Admits a kind under a name; neither may have been taken before. -/
def register (d : Domain) (k : Kind) (name : Text) (truth : Truth) : Except Fault Domain :=
  match d.find? k with
  | some a => .error (.kindTaken k.className a.name)
  | none =>
    if (d.kindOf? name).isSome then .error (.nameTaken name)
    else .ok ⟨d.admissions ++ [⟨k, name, truth⟩]⟩

/-- The payload that host data makes for a kind, if it is of that kind. -/
def payload? (names : Naming) (k : Kind) (d : Data) : Except Fault (Option Payload) :=
  match k, d with
  | .int, .int n => pure (some (.int n))
  | .float, .float x => pure (some (.float x 0))
  | .str, .str s => pure (some (.str s))
  | .bool, .bool b => pure (some (.bool b))
  | .null, .null => pure (some .null)
  | .cons, .pair a b => pure (some (.cons a b))
  | .code, .code c => pure (some (.code c))
  | .hostList, .list items | .hostList, .subList _ items => do
    return some (.host .hostList (← d.shown names) (!items.isEmpty))
  | .hostMap, .map entries => do return some (.host .hostMap (← d.shown names) (!entries.isEmpty))
  | _, _ => pure none

/-- Makes a value of a kind. -/
def create (names : Naming) (id : DomainId) (dom : Domain) (k : Kind) (d : Data) : Except Fault Value :=
  match dom.find? k with
  | none => .error (.unregisteredKind k.className)
  | some a => do
    match ← payload? names k d with
    | some p => return .mk id p
    | none => throw (.badPayload (← d.shown names) a.name)

/-- The kinds that the class of a piece of data belongs to, the closest first. -/
def kindsOf : Data → List Kind
  | .int _ | .subInt .. => [.int]
  | .float _ | .subFloat .. => [.float]
  | .str _ | .subStr .. => [.str]
  | .bool _ => [.bool, .int]
  | .null => [.null]
  | .list _ | .subList .. => [.hostList]
  | .map _ => [.hostMap]
  | .pair .. => [.cons]
  | .code _ => [.code]
  | _ => []

/-- Makes a value of host data, of the closest kind that the domain admits. A value is passed through if
it is the domain's own. -/
def wrap (names : Naming) (id : DomainId) (dom : Domain) (d : Data) : Except Fault Value :=
  match d with
  | .value v => do
    if v.domain == id then return v else throw (.foreignDomain (← v.shown names))
  | d =>
    match (kindsOf d).find? dom.isRegistered with
    | some k => create names id dom k d
    | none => do throw (.noKindFor (← d.shown names) d.className)

/-- Whether a payload counts as true in the domain. -/
def isTrue (dom : Domain) (p : Payload) : Bool :=
  match dom.find? p.kind with
  | some a => a.truth.of p
  | none => p.natural

end Domain

/-- The fault of a value that is not of the kind expected. -/
def Value.wrongKind (names : Naming) (k : Kind) (context : Option Text) (v : Value) : Fault :=
  match v.payload.shown names with
  | .ok s => .wrongKind (names v.domain k) (names v.domain v.kind) s context
  | .error f => f

/-- The payload of a value if it is of the kind expected. -/
def Value.expect (names : Naming) (k : Kind) (context : Option Text) (v : Value) : Except Fault Payload :=
  if v.kind == k then .ok v.payload else .error (v.wrongKind names k context)

/-- Whether a value counts as true in the standard domain. -/
def Value.truthy (v : Value) : Bool := v.kind.standardTruth.of v.payload

end StackCalc
