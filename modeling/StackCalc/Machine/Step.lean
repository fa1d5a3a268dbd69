import StackCalc.Machine.Basic

/-! # Steps

What each step of code does to the machine, given how to call a value (`Caller`). A frame's steps are
logged, before they are taken, if the frame is traced. -/

namespace StackCalc

/-- How a value is called in a frame, with the number of arguments and of results declared, if any. -/
abbrev Caller := Frame → Value → (args results : Option Int) → Run Unit

/-- A function with any number of arguments and one result. -/
def callSingle (results : Option Int) (evaluate : Run Value) : Run Unit := do
  match results with
  | some r => if r ≠ 1 then throw (.singleResult r)
  | none => pure ()
  Run.push (← evaluate)

/-- Stands in for the call of an unknown constructor in a pattern literal. -/
def callPlaceholder (f : Frame) (name : Text) (args results : Option Int) : Run Unit :=
  callSingle results do
    match args with
    | none => throw .constructorWithoutCount
    | some n => do
      let given ← Run.take f n
      Run.object fun serial => .construction serial name given

/-- Pushes what a name stands for. -/
def getSymbol : Symbol → Run Unit
  | .value v => Run.push v
  | .placeholder name => do Run.push (← Run.object fun serial => .binder serial name)

/-- Calls what a name stands for. -/
def callSymbol (call : Caller) (f : Frame) (args results : Option Int) : Symbol → Run Unit
  | .value v => call f v args results
  | .placeholder name => callPlaceholder f name args results

/-- What a name stands for, if anything. -/
def resolve (f : Frame) (name : Text) : Run Symbol := do
  match ← Run.find? f.scope name with
  | some s => return s
  | none => throw (.unknownSymbol name)

/-- Takes one step. -/
def step (call : Caller) (f : Frame) : Instr → Run Unit
  | .push v => Run.push v
  | .get name => do getSymbol (← resolve f name)
  | .call name args results => do callSymbol call f args results (← resolve f name)
  | .binary op => do
    let right ← Run.pop f
    let left ← Run.pop f
    let v ← (Operator.binary op left right : Except Fault Value)
    Run.push (← Run.distinguish v)
  | .unary op => do
    let operand ← Run.pop f
    let v ← (Operator.unary op operand : Except Fault Value)
    Run.push (← Run.distinguish v)
  | .closure params body => do Run.push (← Run.callable fun serial => .closure serial params body f.scope)

/-- Logs a step that is about to be taken. -/
def trace (f : Frame) (i : Instr) : Run Unit := do
  if f.trace then Run.note (.step i (← Run.values f))

/-- Takes steps in order. -/
def runSteps (call : Caller) (f : Frame) : List Instr → Run Unit
  | [] => pure ()
  | i :: rest => do
    trace f i
    step call f i
    runSteps call f rest

/-- Runs code on an empty stack, and takes what it leaves there. -/
def runAside (call : Caller) (scope : ScopeId) (traced : Bool) (code : Code) : Run (List Value) :=
  Run.aside do
    let f : Frame := ⟨scope, View.whole, traced⟩
    runSteps call f code.steps
    Run.values f

end StackCalc
