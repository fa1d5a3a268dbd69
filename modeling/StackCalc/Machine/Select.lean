import StackCalc.Machine.Step
import StackCalc.Pattern.Match

/-! # Selecting an alternative

The alternatives of a matching function are tried in order. One whose number of parts does not suit the
call is passed over; the others are matched against the top values of the stack, each binding names in a
layer of its own over the scope the function was defined in. A pattern that matches selects an action: its
only one, or that of the first guard that comes out true, or its default. Guards run on an empty stack and
cannot bind. The values are taken off the stack once an action is selected, not before. -/

namespace StackCalc

/-- Whether a guard comes out true in a scope of bindings. -/
def runGuard (call : Caller) (bindings : ScopeId) (traced : Bool) (guard : Code) : Run Bool := do
  let scope ← Run.grow (.shield bindings)
  match ← runAside call scope traced guard with
  | [v] => return v.truthy
  | vs => throw (.guardResults vs.length)

/-- The action of the first guard that comes out true, or else the default. -/
def selectClause (call : Caller) (bindings : ScopeId) (traced : Bool) (fallback : Option Code) :
    List (Code × Code) → Run (Option Code)
  | [] => pure fallback
  | (guard, action) :: rest => do
    if ← runGuard call bindings traced guard then return some action
    else selectClause call bindings traced fallback rest

/-- The action that a pattern selects once its parts have matched. -/
def Pattern.selectAction (call : Caller) (bindings : ScopeId) (traced : Bool) : Pattern → Run (Option Code)
  | .plain _ action => pure (some action)
  | .guarded _ clauses fallback => selectClause call bindings traced fallback clauses

/-- Matches values against a pattern, binding names in the given scope, and selects an action. Names that
were bound before a mismatch or a fault stay bound. -/
def Pattern.select (call : Caller) (env bindings : ScopeId) (traced : Bool) (p : Pattern)
    (vs : List Value) : Run (Option Code) := do
  let scopes := (← get).scopes
  let (accepted, made) := Matching.outcome (p.accepts (scopes.find? env) vs) []
  Run.putAll bindings made
  match accepted with
  | .error f => throw f
  | .ok false => return none
  | .ok true => p.selectAction call bindings traced

/-- Whether the number of parts suits a call: the declared number of arguments, or if none is declared at
most the number of values there are. -/
def suits (required : Nat) (args : Option Int) (size : Int) : Bool :=
  match args with
  | some n => n == required
  | none => required ≤ size

/-- Runs the action of the first alternative that matches; `index` counts the alternatives passed over. -/
def callMatching (call : Caller) (f : Frame) (scope : ScopeId) (args results : Option Int) (total : Nat) :
    Nat → List Pattern → Run Unit
  | _, [] => throw .noAlternative
  | index, p :: rest => do
    let required := p.parts.length
    if suits required args (← Run.size f) then
      let candidates ← Run.sub f required
      let bindings ← Run.grow (.layer scope [])
      match ← p.select call scope bindings f.trace (candidates.values (← get).storage) with
      | none => callMatching call f scope args results total (index + 1) rest
      | some action => do
        Run.note (.alternative (index + 1) total)
        modify fun m => { m with storage := candidates.clear m.storage }
        let frame ← Run.inner f bindings 0
        runSteps call frame action.steps
        Run.checkResults frame results
    else callMatching call f scope args results total (index + 1) rest

end StackCalc
