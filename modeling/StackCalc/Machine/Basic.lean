import StackCalc.Stack
import StackCalc.Scope
import StackCalc.Pattern.Match
import StackCalc.Operator

/-! # The machine

The state that running code works on: the storage of the current stack, the forest of scopes, the patterns
under construction, what has been printed, and the log. A run (`Run`) changes the state and ends in a
result or a fault; the state as it was when the fault arose is kept.

A frame says where code runs: the scope that names are looked up in, the view of the storage that it may
take values from, and whether its steps are logged. Frames that start on an empty stack of their own put
the storage aside for that time (`aside`). -/

namespace StackCalc

/-- Where a line of output goes. -/
inductive Channel where
  | stdout | stderr
  deriving DecidableEq, Repr

def Channel.topic : Channel → Text
  | stdout => "stdout"
  | stderr => "stderr"

/-- A line of output. -/
structure Effect where
  channel : Channel
  message : Text
  deriving DecidableEq, Repr

/-- A record of the debug log. -/
inductive Event where
  /-- A step is about to be taken, on the given stack, bottom first. -/
  | step (i : Instr) (stack : List Value)
  | declared (name : Text) (fields : List Text)
  | alternative (index total : Nat)
  | replacedDefault
  | codecsLoaded (table : List (Text × Nat))
  | storeRead (count : Nat)
  | storeActivated (count : Nat)
  | runFailed (report : Text)

/-- The text of a record of the log. -/
def Event.text : Event → Except Fault Text
  | step i stack => do
    return "exec " ++ (← i.shown Naming.standard) ++ " stack=" ++ (← showStack Naming.standard stack)
  | declared name fields => pure ("Declared struct " ++ name ++ "(" ++ Text.intercalate ", " fields ++ ")")
  | alternative index total =>
    pure ("Alternative " ++ toString index ++ " of " ++ toString total ++ " matched")
  | replacedDefault => pure "Replacing default action of pattern"
  | codecsLoaded table => do
    let entry (e : Text × Nat) : Except Fault Text := do
      return Text.quoted e.1 ++ ": " ++ (← showInt e.2)
    return "Codec registry loaded: \x7b" ++ Text.intercalate ", " (← table.mapM entry) ++ "\x7d"
  | storeRead count => pure ("Read " ++ toString count ++ " data store entries")
  | storeActivated count => pure ("Activating data store with " ++ toString count ++ " entries")
  | runFailed report => pure ("Execution failed: " ++ report)

/-- What a function of the host gives back. -/
inductive NativeResult where
  | one (v : Value)
  | several (vs : List Value)
  | nothing

/-- The values that count as the result of a function that declares so many: what is given back must be one
value for one, several for more, and does not matter for none. -/
def NativeResult.spread (count : Nat) : NativeResult → Except Fault (List Value)
  | one v => if count = 0 then .ok [] else if count = 1 then .ok [v] else .error .wrongHostType
  | several vs => if count = 0 then .ok [] else if count = 1 then .error .wrongHostType else .ok vs
  | nothing => if count = 0 then .ok [] else .error .wrongHostType

/-- A function of the host, on the values it is called with. -/
abbrev NativeFunction := List Value → Except Fault NativeResult

/-- A function of the host that works on the stack itself: it takes values off one by one and pushes the
numbers from zero on, under declared counts of arguments and results. -/
structure Shuffle where
  takes : Nat
  gives : Nat
  pops : Nat
  pushes : Nat
  deriving DecidableEq, Repr, Inhabited

/-- The state of a run. -/
structure Machine where
  /-- The storage of the current stack, the top first. -/
  storage : List Value
  scopes : Forest
  builders : Array PatternBuilder
  natives : Array NativeFunction
  shuffles : Array Shuffle
  /-- The next serial number. -/
  next : Nat
  effects : Array Effect
  /-- The debug log is kept. -/
  logging : Bool
  log : Array Event

namespace Machine

def empty : Machine := ⟨[], Forest.empty, #[], #[], #[], 1, #[], false, #[]⟩

end Machine

/-- A computation on the state; the state survives a fault. -/
abbrev Run := ExceptT Fault (StateM Machine)

/-- Where code runs. -/
structure Frame where
  scope : ScopeId
  view : View
  trace : Bool
  deriving Inhabited

/-- The diagnostic text of a frame. -/
def Frame.shown (f : Frame) (m : Machine) : Except Fault Text := do
  let stack ← showStack Naming.standard (f.view.values m.storage)
  return "<Frame symbols=" ++ m.scopes.shown f.scope ++ " stack=" ++ stack ++ ">"

namespace Run

/-- The outcome of a run, and the state it ends in. -/
def outcome {α : Type} (r : Run α) (m : Machine) : Except Fault α × Machine := (ExceptT.run r).run m

/-- A run given by its outcome on every state. -/
def ofOutcome {α : Type} (f : Machine → Except Fault α × Machine) : Run α :=
  ExceptT.mk fun m => f m

/-- Hands out a serial number. -/
def fresh : Run Nat := do
  let m ← get
  set { m with next := m.next + 1 }
  return m.next

/-- Keeps a record of the log. -/
def note (e : Event) : Run Unit :=
  modify fun m => if m.logging then { m with log := m.log.push e } else m

/-- Prints a line. -/
def emit (channel : Channel) (message : Text) : Run Unit :=
  modify fun m => { m with effects := m.effects.push ⟨channel, message⟩ }

/-! ### The stack -/

def push (v : Value) : Run Unit := modify fun m => { m with storage := v :: m.storage }

/-- Pushes values in order. -/
def pushAll (vs : List Value) : Run Unit := modify fun m => { m with storage := vs.reverse ++ m.storage }

/-- The number of values a frame may take. -/
def size (f : Frame) : Run Int := do return f.view.size (← get).storage

/-- The values a frame may take, bottom first. -/
def values (f : Frame) : Run (List Value) := do return f.view.values (← get).storage

def pop (f : Frame) : Run Value := do
  let (v, rest) ← (f.view.pop (← get).storage : Except Fault _)
  modify fun m => { m with storage := rest }
  return v

/-- Takes the top values, bottom first. -/
def take (f : Frame) (count : Int) : Run (List Value) := do
  let (vs, rest) ← (f.view.take (← get).storage count : Except Fault _)
  modify fun m => { m with storage := rest }
  return vs

/-- A view of the top values. -/
def sub (f : Frame) (count : Int) : Run View := do
  (f.view.sub (← get).storage count : Except Fault View)

/-- The number of results a call was declared to have must be the number of values it left. -/
def checkResults (f : Frame) (results : Option Int) : Run Unit := do
  match results with
  | none => return
  | some r =>
    let actual ← size f
    if actual ≠ r then throw (.resultsLeft actual r)

/-- Runs on an empty stack, and brings the storage back. -/
def aside {α : Type} (r : Run α) : Run α :=
  ofOutcome fun m =>
    let (result, m') := r.outcome { m with storage := [] }
    (result, { m' with storage := m.storage })

/-! ### Scopes -/

def find? (scope : ScopeId) (name : Text) : Run (Option Symbol) := do
  return (← get).scopes.find? scope name

/-- Binds a name through a scope. -/
def put (scope : ScopeId) (name : Text) (v : Value) : Run Unit := do
  let scopes ← ((← get).scopes.put scope name v : Except Fault Forest)
  modify fun m => { m with scopes := scopes }

def putAll (scope : ScopeId) (entries : List (Text × Value)) : Run Unit :=
  entries.forM fun e => put scope e.1 e.2

/-- Adds a scope. -/
def grow (s : Scope) : Run ScopeId := do
  let (id, scopes) := (← get).scopes.grow s
  modify fun m => { m with scopes := scopes }
  return id

/-- A frame over the top values of another one, with a layer of its own over a scope. -/
def inner (f : Frame) (scope : ScopeId) (count : Int) : Run Frame := do
  let view ← sub f count
  let layer ← grow (.layer scope [])
  return ⟨layer, view, f.trace⟩

/-! ### New values -/

/-- Gives a floating-point payload that is not a number a cell of its own. -/
def distinguish : Value → Run Value
  | .mk d (.float x 0) => do
    if x.isNaN then return .mk d (.float x (← fresh)) else return .mk d (.float x 0)
  | v => pure v

/-- Gives every leaf of a tree of pairs that is not a number a cell of its own. -/
def distinguishAll : Value → Run Value
  | .mk d p =>
    match p with
    | .cons a b => do
      let first ← distinguishAll a
      return .mk d (.cons first (← distinguishAll b))
    | p => distinguish (.mk d p)

/-- Makes a callable. -/
def callable (make : Nat → Callable) : Run Value := do return .own (.callable (make (← fresh)))

/-- Makes a composite. -/
def object (make : Nat → Composite) : Run Value := do return .own (.object (make (← fresh)))

end Run

end StackCalc
