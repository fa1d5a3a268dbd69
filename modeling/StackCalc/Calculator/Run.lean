import StackCalc.Calculator.Basic
import StackCalc.Expr.Clause

/-! # Running code

A host builds an expression from the leaves up. Values have to be the calculator's own; a call of `match` is a form of
its own; an operator is named by its symbol. Blocks and matches get serial numbers.

A program is an expression, which is compiled first, or code. `evaluate` wants one value of it and lets faults pass;
`execute` reports how it ended, with the lines printed on the way. A host may also call functions, take steps one by
one, and look at single steps of matching: the value of a pattern literal and the part it stands for, one part or one
pattern against values, and the names that are bound on the way, which stay bound after a mismatch or a fault. -/

namespace StackCalc

/-! ### Building expressions -/

namespace Build

/-- A value. -/
def value (d : Data) : Run Expr := do
  let v ← (Domain.wrap Naming.standard 0 .standard d : Except Fault Value)
  match d with
  | .value _ => return .value v
  | _ => return .value (← Run.distinguish v)

/-- A call by name, or a match. -/
def call (name : Text) (args : List Expr) : Run Expr := do
  if name == matchName then (Expr.matchOf (← Run.fresh) args : Except Fault Expr) else return .call name args

def binary (symbol : Text) (left right : Expr) : Run Expr :=
  match BinaryOp.ofSymbol? symbol with
  | some op => return .binary op left right
  | none => throw (.unknownBinary symbol)

def unary (symbol : Text) (arg : Expr) : Run Expr :=
  match UnaryOp.ofSymbol? symbol with
  | some op => return .unary op arg
  | none => throw (.unknownUnary symbol)

/-- Code that is a value. -/
def block (body : Expr) : Run Expr := do return .block (← Run.fresh) body

/-- Code that a host puts together step by step. -/
def code (steps : List Instr) : Run Code := do return .mk [← Run.fresh] steps

end Build

/-! ### Programs -/

/-- What can be run. -/
inductive Program where
  | expr (e : Expr)
  | steps (steps : List Instr)

/-- The steps of a program. -/
def Program.compile : Program → Except Fault (List Instr)
  | expr e => e.compile
  | steps s => .ok s

/-- How an execution ended. -/
structure Execution where
  outcome : Except Text (List Value)
  effects : List Effect

namespace Calculator

/-- Runs a program on an empty stack over the global names, and takes what it leaves there. -/
def runProgram (p : Program) : Calculation (List Value) := do
  let steps ← (p.compile : Except Fault (List Instr))
  runAside call globalScope (← Calculation.current).traced (.mk [] steps)

/-- The one value of a program. -/
def evaluate (p : Program) : Calculation Value := do
  match ← runProgram p with
  | [v] => return v
  | vs => throw (.resultsLeft vs.length 1)

/-- Forgets what has been printed. -/
def clearEffects : Calculation Unit :=
  Calculation.change fun c => { c with machine := { c.machine with effects := #[] } }

def effects : Calculation (List Effect) := do return (← Calculation.current).machine.effects.toList

/-- Runs a program and reports how it ended; only faults that are none of its own making pass. -/
def execute (p : Program) : Calculation Execution := do
  clearEffects
  try
    let vs ← runProgram p
    return ⟨.ok vs, ← effects⟩
  catch f =>
    if f.isReported then
      Run.note (.runFailed f.report)
      Run.emit .stderr f.report
      return ⟨.error f.report, ← effects⟩
    else throw f

/-! ### Calls from outside -/

/-- What to call: a global name, or a value. -/
inductive Target where
  | name (s : Text)
  | value (v : Value)

def Target.resolve : Target → Run Value
  | name s => lookup s
  | value v => return v

/-- The results of a call with data as arguments. -/
def callTarget (target : Target) (args : List Data) (results : Option Int) : Calculation (List Value) := do
  let traced := (← Calculation.current).traced
  let f : Frame := ⟨globalScope, .whole, traced⟩
  let body : Run (List Value) := do
    let fn ← target.resolve
    Run.aside do
      args.forM fun d => do Run.push (← toValue d)
      call f fn (some args.length) results
      Run.values f
  body

/-- The one result of a call with data as arguments. -/
def callForValue (target : Target) (args : List Data) : Calculation Value := do
  match ← callTarget target args (some 1) with
  | v :: _ => return v
  | [] => throw .indexOutOfRange

/-- A run on a stack of its own that begins with the given values: how it ends, and what is left there. -/
def onStack (start : List Value) (traced : Bool) (scope : ScopeId) (body : Frame → Run Unit) :
    Run (Option Fault × List Value) := do
  let f : Frame := ⟨scope, .whole, traced⟩
  Run.aside do
    Run.pushAll start
    let fault ← tryCatch (do body f; pure none) fun e => pure (some e)
    return (fault, ← Run.values f)

/-- A call on a stack that begins with the given values. -/
def invoke (fn : Value) (stack : List Value) (args results : Option Int) : Calculation (Option Fault × List Value) := do
  onStack stack (← Calculation.current).traced globalScope fun f => call f fn args results

/-- Takes the steps of a program one by one, up to the first fault: how each ends, and what the stack is. -/
def stepwise (traced : Bool) : List Instr → List Value → Run (List (Option Fault × List Value))
  | [], _ => pure []
  | i :: rest, stack => do
    let (fault, stack') ← onStack stack traced globalScope fun f => runSteps call f [i]
    if fault.isSome then return [(fault, stack')]
    else return (fault, stack') :: (← stepwise traced rest stack')

/-! ### Patterns from outside -/

/-- The value of a pattern literal: unknown names stand for themselves. -/
def literal (p : Program) : Calculation Value := do
  let steps ← (p.compile : Except Fault (List Instr))
  let scope ← Run.grow (.literal patternScope)
  match ← runAside call scope false (.mk [] steps) with
  | [v] => return v
  | vs => throw (.resultsLeft vs.length 1)

/-- The outcome of a match, with the names it bound in a layer over the global names. -/
def withBindings {α : Type} (body : ScopeId → Run α) : Run (Except Fault α × Bindings) := do
  let bindings ← Run.grow (.layer globalScope [])
  let result ← tryCatch (do return .ok (← body bindings)) fun f => pure (.error f)
  return (result, (← get).scopes.own bindings)

/-- Whether a part accepts a value, and the names it binds. -/
def matchPart (part : Part) (v : Value) : Run (Except Fault Bool × Bindings) :=
  withBindings fun scope => do
    let scopes := (← get).scopes
    let (accepted, made) := Matching.outcome (part.accepts (scopes.find? globalScope) v) []
    Run.putAll scope made
    (accepted : Except Fault Bool)

/-- The pattern in a value. -/
def patternOf (v : Value) : Except Fault Pattern :=
  match v.payload with
  | .object (.pattern _ p) => .ok p
  | .object c => .error (.missingTrait c.name "IPattern")
  | _ => .error (v.wrongKind Naming.standard .object none)

/-- The action that a pattern selects for values, if it accepts them, and the names it binds. -/
def matchPattern (p : Pattern) (vs : List Value) : Run (Except Fault (Option Code) × Bindings) :=
  withBindings fun scope => p.select call globalScope scope false vs

end Calculator

end StackCalc
