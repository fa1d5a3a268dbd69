import StackCalc.Machine.Construct
import StackCalc.Machine.Select
import StackCalc.Operator
import StackCalc.Template
import StackCalc.Data.Conversion

/-! # Calls

A call declares how many arguments it passes and how many results it wants; either count may be missing.
Conventions differ in what they make of the counts. A fixed function wants exactly its own counts and is
checked for its balance; one with a single result takes any number of arguments; closures and matching
functions run code on the part of the stack above their arguments, and what the code leaves there is
counted. A value that cannot be called pushes itself, if it is given no arguments.

`callWith` is one call, given how to make the calls nested in it. `callAt` ties the knot: a call may nest
`depthLimit` deep, and a deeper one is a fault. -/

namespace StackCalc

/-! ### Functions with fixed counts -/

/-- A function with fixed counts of arguments and results. The body works on the whole frame; only the
balance is checked. -/
def callFixed (f : Frame) (takes gives : Nat) (args results : Option Int) (body : Run Unit) :
    Run Unit := do
  if let some n := args then
    if n ≠ takes then throw (.argumentCount takes n)
  if let some r := results then
    if r ≠ gives then throw (.resultCount gives r)
  let before ← Run.size f
  if before < takes then throw (.tooFewValues takes before)
  body
  let after ← Run.size f
  let expected := before - takes + gives
  if after ≠ expected then throw (.unbalancedCall after expected takes gives)

/-- The data that a template is filled with: the members of an object, or nothing for null. -/
def templateData (v : Value) : Except Fault (List (Data × Data)) :=
  match v.payload with
  | .null => .ok []
  | _ => do
    match ← v.toData with
    | .map entries => return entries
    | _ => throw (v.faultWith .templateContext)

/-- The functions whose value depends on nothing but their arguments. -/
def Builtin.value : Builtin → List Value → Except Fault Value
  | .car, [v] => do return (← v.wantPair "'car' argument").1
  | .cdr, [v] => do return (← v.wantPair "'cdr' argument").2
  | .cons, [a, b] => Operator.binary .cons a b
  | .type, [v] => .ok (.own (.str v.kind.name))
  | .int, [v] => Convert.toInt v
  | .float, [v] => Convert.toFloat v
  | .str, [v] => Convert.toText v
  | .bool, [v] => .ok (.own (.bool v.truthy))
  | .template, [text, context] => do
    let source ← text.wantText "template text"
    return .own (.str (← Template.render source (← templateData context)))
  | _, _ => .error .nativeArguments

/-- A function of its arguments alone: they are taken off the stack first, and stay off if it fails. -/
def callPure (f : Frame) (takes gives : Nat) (args results : Option Int)
    (fn : List Value → Except Fault (List Value)) : Run Unit :=
  callFixed f takes gives args results do
    let given ← Run.take f takes
    for v in ← (fn given : Except Fault (List Value)) do
      Run.push (← Run.distinguish v)

/-- Binds a name in the calling scope, and results in the value. -/
def callDefine (f : Frame) (args results : Option Int) : Run Unit :=
  callFixed f 2 1 args results do
    let v ← Run.pop f
    let name ← ((← Run.pop f).wantText "'define' name" : Except Fault Text)
    Run.put f.scope name v
    Run.push v

/-- Runs code with the members of an object in scope, on an empty stack, for one result. -/
def callWithMembers (call : Caller) (f : Frame) (args results : Option Int) : Run Unit :=
  callFixed f 2 1 args results do
    let code ← ((← Run.pop f).wantCode "'with' block" : Except Fault Code)
    let target ← Run.pop f
    match target.members? with
    | none => throw (target.faultWith fun s => .noMembers s "'with' target")
    | some members => do
      let scope ← Run.grow (.layer f.scope [])
      Run.putAll scope members.toList
      match ← runAside call scope f.trace code with
      | [v] => Run.push v
      | vs => throw (.resultsLeft vs.length 1)

/-- Runs a construction program, and results in the pattern. -/
def callPattern (call : Caller) (f : Frame) (args results : Option Int) : Run Unit :=
  callFixed f 1 1 args results do
    let program ← ((← Run.pop f).wantCode "pattern constructor code (first arg)" : Except Fault Code)
    let p ← construct call f.trace program
    Run.push (← Run.object fun serial => .pattern serial p)

/-- Pops values one by one, and pushes the numbers from zero on. -/
def callShuffle (f : Frame) (s : Shuffle) (args results : Option Int) : Run Unit :=
  callFixed f s.takes s.gives args results do
    for _ in List.range s.pops do
      let _ ← Run.pop f
    Run.pushAll ((List.range s.pushes).map fun (n : Nat) => .own (.int n))

/-! ### Functions with one result -/

/-- The declared number of arguments, or the whole stack if none is declared. -/
def takeArguments (f : Frame) (args : Option Int) : Run (List Value) := do
  match args with
  | some n => Run.take f n
  | none => do Run.take f (← Run.size f)

def callList (f : Frame) (args results : Option Int) : Run Unit :=
  callSingle results do return Value.ofList 0 (← takeArguments f args)

/-- A value as it is printed: a text by itself, anything else as it is written. -/
def printed (v : Value) : Except Fault Text :=
  match v.payload with
  | .str s => .ok s
  | _ => v.written

def callPrint (f : Frame) (args results : Option Int) : Run Unit :=
  callSingle results do
    let given ← takeArguments f args
    let words ← (given.mapM printed : Except Fault (List Text))
    Run.emit .stdout (Text.intercalate " " words)
    return .own .null

/-- The name and the fields of a declaration. -/
def structParts : List Value → Except Fault (Text × List Text)
  | [] => .error .structWithoutName
  | v :: vs => do
    let name ← v.wantText "struct name"
    let fields ← vs.mapM (Value.wantText ("field of struct " ++ name))
    if fields.eraseDups.length = fields.length then return (name, fields)
    else throw (.duplicateFields name (showList (fields.map Text.quoted)))

/-- Declares a record type. -/
def callStruct (f : Frame) (args results : Option Int) : Run Unit :=
  callSingle results do
    let given ← takeArguments f args
    let (name, fields) ← (structParts given : Except Fault (Text × List Text))
    Run.note (.declared name fields)
    Run.object fun serial => .struct ⟨serial, name, fields⟩

/-- The pattern that an argument of a match holds. -/
def wantPattern (v : Value) : Except Fault Pattern := do
  match ← v.wantObject "'match' argument" with
  | .pattern _ p => return p
  | c => throw (.missingTrait c.name "IPattern")

/-- Pops as many patterns; the first popped is the last of the list. -/
def popPatterns (f : Frame) : Nat → Run (List Pattern)
  | 0 => pure []
  | n + 1 => do
    let p ← (wantPattern (← Run.pop f) : Except Fault Pattern)
    return (← popPatterns f n) ++ [p]

/-- Bundles patterns into a function over the calling scope. -/
def callMatch (f : Frame) (args results : Option Int) : Run Unit :=
  callSingle results do
    match args with
    | none => throw .matchWithoutCount
    | some n => do
      let patterns ← popPatterns f n.toNat
      Run.callable fun serial => .matching serial f.scope patterns

/-- Counts the declared arguments and drops them. -/
def callCounter (f : Frame) (args results : Option Int) : Run Unit :=
  callSingle results do
    let given ← Run.take f (args.getD 0)
    return .own (.int given.length)

/-! ### Functions that run code in the calling frame -/

/-- Calls the first argument with the others. -/
def callApply (call : Caller) (f : Frame) (args results : Option Int) : Run Unit := do
  match args with
  | none => throw .applyWithoutTarget
  | some n => do
    if n < 1 then throw .applyWithoutTarget
    match ← Run.take f n with
    | [] => throw .applyWithoutTarget
    | target :: given => do
      Run.pushAll given
      call f target (some (n - 1)) results

/-- Runs a code value on the calling stack, in a layer over the calling scope. -/
def callExecute (call : Caller) (f : Frame) (args results : Option Int) : Run Unit := do
  if let some n := args then
    if n ≠ 1 then throw (.executeArguments n)
  let code ← ((← Run.pop f).wantCode "'execute' argument" : Except Fault Code)
  let frame ← Run.inner f f.scope 0
  runSteps call frame code.steps
  Run.checkResults frame results

/-- Runs the body of a closure in a layer over the scope it was made in. -/
def callClosure (call : Caller) (f : Frame) (params : List Text) (body : List Instr) (scope : ScopeId)
    (args results : Option Int) : Run Unit := do
  let required := params.length
  if let some n := args then
    if n ≠ required then throw (.functionArguments required n)
  let frame ← Run.inner f scope required
  let given ← Run.values frame
  modify fun m => { m with storage := frame.view.clear m.storage }
  Run.putAll frame.scope (params.zip given)
  runSteps call frame body
  Run.checkResults frame results

/-- Makes an instance of a record type. -/
def callConstructor (f : Frame) (t : StructType) (args results : Option Int) : Run Unit := do
  if let some n := args then
    if n ≠ t.fields.length then throw (.structArguments t.name t.fields.length n)
  callSingle results do
    let given ← Run.take f t.fields.length
    return .own (.object (.record t given))

/-! ### Dispatch -/

def callBuiltin (call : Caller) (f : Frame) (b : Builtin) (args results : Option Int) : Run Unit :=
  match b.arity? with
  | some n => callPure f n 1 args results fun given => do return [← b.value given]
  | none =>
    match b with
    | .apply => callApply call f args results
    | .withMembers => callWithMembers call f args results
    | .define => callDefine f args results
    | .execute => callExecute call f args results
    | .list => callList f args results
    | .print => callPrint f args results
    | .struct => callStruct f args results
    | .matchSymbol => callMatch f args results
    | _ => callPattern call f args results

def callCallable (call : Caller) (f : Frame) (args results : Option Int) : Callable → Run Unit
  | .builtin b => callBuiltin call f b args results
  | .native _ index _ takes gives => do
    let fn := (← get).natives[index]?.getD fun _ => .error .nativeArguments
    callPure f takes gives args results fun given => do (← fn given).spread gives
  | .shuffle _ index => do
    match (← get).shuffles[index]? with
    | some s => callShuffle f s args results
    | none => throw .nativeArguments
  | .counter _ => callCounter f args results
  | .closure _ params body scope => callClosure call f params body scope args results
  | .matching _ scope patterns => callMatching call f scope args results patterns.length 0 patterns
  | .addPart builder => callFixed f 1 0 args results (addPart call f builder)
  | .addGuarded builder => callFixed f 2 0 args results (addGuarded f builder)
  | .addDefault builder => callFixed f 1 0 args results (addDefault f builder)

/-- A value that is no function: it takes no arguments and is its own result. -/
def callPlain (v : Value) (args results : Option Int) : Run Unit := do
  if let some n := args then
    if n ≠ 0 then throw (v.faultWith .notCallable)
  if let some r := results then
    if r ≠ 1 then throw (.valueSingleResult r)
  Run.push v

/-- One call, given how to make the calls nested in it. -/
def callWith (call : Caller) : Caller := fun f v args results =>
  match v.payload with
  | .callable c => callCallable call f args results c
  | .object (.struct t) => callConstructor f t args results
  | .object c =>
    match c.trait? .callable with
    | some _ => do
      let given ← takeArguments f args
      Run.push (.own (.int given.length))
    | none => callPlain v args results
  | _ => callPlain v args results

/-- How deep calls may nest. -/
def depthLimit : Nat := 1000

/-- A call that may nest so many calls. -/
def callAt : Nat → Caller
  | 0 => fun _ _ _ _ => throw .depthExceeded
  | depth + 1 => callWith (callAt depth)

/-- A call from outside. -/
def call : Caller := callAt depthLimit

end StackCalc
