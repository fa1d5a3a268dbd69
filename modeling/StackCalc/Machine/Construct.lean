import StackCalc.Machine.Step
import StackCalc.Pattern.Match
import StackCalc.Expr.Compile

/-! # Constructing patterns

The program of a clause runs in a scope of its own, which knows nothing but the three functions that add a
piece to the pattern under construction. A literal is evaluated where unknown names are placeholders, on
an empty stack, and its one value gives the part. -/

namespace StackCalc

/-- The scope of the names that pattern literals know. -/
def patternScope : ScopeId := 1

/-- The pieces of a pattern under construction. -/
def findBuilder (id : Nat) : Run PatternBuilder := do return (← get).builders[id]?.getD .empty

def setBuilder (id : Nat) (b : PatternBuilder) : Run Unit :=
  modify fun m => { m with builders := m.builders.setIfInBounds id b }

/-- Begins a pattern. -/
def newBuilder : Run Nat := do
  let m ← get
  set { m with builders := m.builders.push .empty }
  return m.builders.size

/-- Evaluates a pattern literal and adds the part it stands for. -/
def addPart (call : Caller) (f : Frame) (builder : Nat) : Run Unit := do
  let code ← ((← Run.pop f).wantCode "variable pattern" : Except Fault Code)
  let literals ← Run.grow (.literal patternScope)
  match ← runAside call literals f.trace code with
  | [v] => do
    let b ← findBuilder builder
    setBuilder builder (← (b.addPart (Part.ofValue v) : Except Fault PatternBuilder))
  | vs => throw (literalFault vs)
where
  literalFault (vs : List Value) : Fault :=
    match showStack Naming.standard vs with
    | .ok s => .literalResult s
    | .error f => f

/-- Adds an action under a guard. -/
def addGuarded (f : Frame) (builder : Nat) : Run Unit := do
  let action ← ((← Run.pop f).wantCode "pattern action" : Except Fault Code)
  let guard ← ((← Run.pop f).wantCode "pattern guard" : Except Fault Code)
  let b ← findBuilder builder
  setBuilder builder (← (b.addGuarded guard action : Except Fault PatternBuilder))

/-- Sets the default action. -/
def addDefault (f : Frame) (builder : Nat) : Run Unit := do
  let action ← ((← Run.pop f).wantCode "pattern action" : Except Fault Code)
  let b ← findBuilder builder
  if b.fallback.isSome then Run.note .replacedDefault
  setBuilder builder (b.addDefault action)

/-- The pattern that a construction program builds. -/
def construct (call : Caller) (traced : Bool) (program : Code) : Run Pattern := do
  let builder ← newBuilder
  let scope ← Run.grow (.root
    [(partName, .own (.callable (.addPart builder))),
      (guardedName, .own (.callable (.addGuarded builder))),
      (defaultName, .own (.callable (.addDefault builder)))])
  match ← runAside call scope traced program with
  | [] => ((← findBuilder builder).build : Except Fault Pattern)
  | vs => throw (leftoverFault vs)
where
  leftoverFault (vs : List Value) : Fault :=
    match showStack Naming.standard vs with
    | .ok s => .patternLeftovers s
    | .error f => f

end StackCalc
