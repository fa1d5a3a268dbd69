import StackCalc.Domain
import StackCalc.Fault
import StackCalc.Scope
import StackCalc.Value.Basic

/-! # Patterns

A pattern literal is first evaluated where unknown names become placeholders; `Part.ofValue` tells what
the value that results expects. A part is then matched against one value at a time (`Part.accepts`). The
names it binds are collected in order and stay collected when a later part fails. A plain mismatch answers
`false`; a constructor that is no constructor is a fault.

A pattern is put together piece by piece: first what it expects of each value, then its actions. Guarded actions come
before the default; a second default takes the place of the first. A piece that comes too late is refused and changes
nothing. -/

namespace StackCalc

/-- The name that matches anything and is not bound. -/
def wildcard : Text := "_"

/-! ### Parts of literals -/

mutual

/-- What the value of a pattern literal expects. -/
def Part.ofValue : Value → Part
  | .mk d p =>
    match p with
    | .object (.binder _ name) => if name == wildcard then .any else .bind name
    | .object (.construction _ name args) => .construct name (Part.ofValues args)
    | .cons a b => .cons (Part.ofValue a) (Part.ofValue b)
    | p => .exact (.mk d p)

def Part.ofValues : List Value → List Part
  | [] => []
  | v :: vs => Part.ofValue v :: Part.ofValues vs

end

/-! ### Matching -/

/-- A match in progress: the bindings made so far survive a fault. -/
abbrev Matching := ExceptT Fault (StateM Bindings)

namespace Matching

/-- Binds a name. -/
def bind (name : Text) (v : Value) : Matching Unit := modify (Bindings.put name v)

/-- The outcome, with the bindings that have been made. -/
def outcome {α : Type} (m : Matching α) (b : Bindings) : Except Fault α × Bindings := (ExceptT.run m).run b

end Matching

/-- How an object that can be a constructor takes a value apart into `count` values. -/
def Composite.decompose? (c : Composite) (v : Value) (count : Nat) : Option (List Value) :=
  match c with
  | .struct t =>
    match v.payload with
    | .object (.record u vs) => if u.serial == t.serial && count == t.fields.length then some vs else none
    | _ => none
  | c =>
    match c.trait? .decomposes with
    | some (.repeats (some n)) => some (List.replicate n v)
    | _ => none

/-- The object can be a constructor. -/
def Composite.isConstructor : Composite → Bool
  | .struct _ => true
  | c => (c.trait? .decomposes).isSome

/-- The fault of a name that is no constructor. -/
def notDecomposable (v : Value) : Fault :=
  match v.shown Naming.standard with
  | .ok s => .notDecomposable s
  | .error f => f

/-- The object that a constructor name stands for. -/
def findConstructor (env : Text → Option Symbol) (name : Text) : Except Fault Composite :=
  match env name with
  | none => .error (.noConstructor name)
  | some (.placeholder n) => .error (notDecomposable (.mk 0 (.object (.binder 0 n))))
  | some (.value v) =>
    match v.payload with
    | .object c => if c.isConstructor then .ok c else .error (notDecomposable v)
    | _ => .error (notDecomposable v)

/-- The values that a constructor takes a value apart into, as many as are expected. -/
def takeApart (env : Text → Option Symbol) (name : Text) (count : Nat) (v : Value) :
    Except Fault (Option (List Value)) := do
  let c ← findConstructor env name
  match c.decompose? v count with
  | none => return none
  | some vs => if vs.length = count then return some vs else throw (.brokenDecomposition count vs.length)

mutual

/-- Whether a part accepts a value; constructors are looked up in `env`. -/
def Part.accepts (env : Text → Option Symbol) : Part → Value → Matching Bool
  | .any, _ => pure true
  | .bind name, v => do
    Matching.bind name v
    return true
  | .exact expected, v => pure (v.eq expected)
  | .cons a b, v =>
    match v.payload with
    | .cons x y => do
      if ← a.accepts env x then b.accepts env y else return false
    | _ => pure false
  | .construct name args, v => do
    match ← (takeApart env name args.length v : Except Fault _) with
    | none => return false
    | some vs => acceptsAll env args vs

/-- Whether parts accept values, one by one. -/
def acceptsAll (env : Text → Option Symbol) : List Part → List Value → Matching Bool
  | p :: ps, v :: vs => do
    if ← p.accepts env v then acceptsAll env ps vs else return false
  | _, _ => pure true

end

/-- Whether a pattern accepts as many values as it has parts. -/
def Pattern.accepts (env : Text → Option Symbol) (p : Pattern) (vs : List Value) : Matching Bool :=
  if vs.length = p.parts.length then acceptsAll env p.parts vs
  else throw (.candidateCount p.parts.length vs.length)

/-! ### Building -/

/-- The pieces of a pattern under construction. -/
structure PatternBuilder where
  parts : List Part
  clauses : List (Code × Code)
  fallback : Option Code
  /-- Some action has been added. -/
  hasAction : Bool
  deriving Inhabited

namespace PatternBuilder

def empty : PatternBuilder := ⟨[], [], none, false⟩

/-- Adds what is expected of the next value; all parts come before the actions. -/
def addPart (b : PatternBuilder) (p : Part) : Except Fault PatternBuilder :=
  if b.hasAction then .error .partAfterAction else .ok { b with parts := b.parts ++ [p] }

/-- Adds an action under a guard; all of them come before the default. -/
def addGuarded (b : PatternBuilder) (guard action : Code) : Except Fault PatternBuilder :=
  if b.fallback.isSome then .error .guardAfterDefault
  else .ok { b with clauses := b.clauses ++ [(guard, action)], hasAction := true }

/-- Sets the default action. -/
def addDefault (b : PatternBuilder) (action : Code) : PatternBuilder :=
  { b with fallback := some action, hasAction := true }

/-- The pattern, which has to have an action. Without guarded actions the default is the only one. -/
def build (b : PatternBuilder) : Except Fault Pattern :=
  match b.clauses, b.fallback with
  | [], none => .error .noAction
  | [], some action => .ok (.plain b.parts action)
  | clauses, fallback => .ok (.guarded b.parts clauses fallback)

end PatternBuilder

end StackCalc
