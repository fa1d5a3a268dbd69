import StackCalc.Config
import StackCalc.Host
import StackCalc.Machine.Call
import StackCalc.Wire.CodecTable

/-! # Calculators

A calculator is a machine whose first two scopes hold the global names and the names that pattern literals
know, together with its codec table. What is done with it is a calculation: it changes the calculator and
ends in a result or a fault; the calculator as it was when the fault arose is kept. -/

namespace StackCalc

/-- A machine that is set up. -/
structure Calculator where
  machine : Machine
  /-- Steps are logged. -/
  traced : Bool
  codecs : Wire.CodecTable

/-- A computation on a calculator; the calculator survives a fault. -/
abbrev Calculation := ExceptT Fault (StateM Calculator)

/-- The scope of the global names. -/
def globalScope : ScopeId := 0

namespace Calculation

/-- The outcome of a calculation, and the calculator it ends with. -/
def outcome {α : Type} (r : Calculation α) (c : Calculator) : Except Fault α × Calculator :=
  (ExceptT.run r).run c

/-- The calculator as it is. -/
def current : Calculation Calculator := ExceptT.mk fun c => (.ok c, c)

/-- Changes the calculator. -/
def change (f : Calculator → Calculator) : Calculation Unit := ExceptT.mk fun c => (.ok (), f c)

/-- A run on the machine. -/
def onMachine {α : Type} (r : Run α) : Calculation α :=
  ExceptT.mk fun c =>
    let (result, m) := r.outcome c.machine
    (result, { c with machine := m })

instance : MonadLift Run Calculation := ⟨onMachine⟩

end Calculation

namespace Calculator

/-! ### What every calculator knows -/

/-- The constants, which pattern literals know as well. -/
def constants : Bindings :=
  [("true", .own (.bool true)), ("false", .own (.bool false)), ("null", .own .null)]

def bind (b : Builtin) : Text × Value := (b.name, .own (.callable (.builtin b)))

/-- The global names, in order. -/
def standardNames : Bindings :=
  [Builtin.bool, .car, .cdr, .cons, .float, .int, .str, .template, .type, .apply, .withMembers, .define, .execute,
    .list, .print, .struct].map bind ++ constants ++ [Builtin.matchSymbol, .pattern].map bind

/-- A calculator that nothing has been defined in. -/
def bare (logging traced : Bool) : Calculator :=
  ⟨{ Machine.empty with scopes := ⟨#[.root standardNames, .root constants]⟩, logging := logging }, traced, .empty⟩

/-! ### Definitions -/

/-- The value of data: a list as a list of values, anything else as it is. -/
def toValue (d : Data) : Run Value := do
  let v ← (match d with
    | .list items | .tuple items | .subList _ items => Data.toValueList 0 items
    | d => Domain.wrap Naming.standard 0 .standard d : Except Fault Value)
  match d with
  | .value _ => return v
  | _ => Run.distinguishAll v

/-- The value of plain data, pairs and lists taken apart. -/
def ofData (d : Data) : Run Value := do
  Run.distinguishAll (← (d.toValue 0 : Except Fault Value))

/-- Defines a global name. -/
def define (name : Text) (d : Data) : Run Value := do
  let v ← toValue d
  Run.put globalScope name v
  return v

/-- The value of a global name. -/
def lookup (name : Text) : Run Value := do
  match ← Run.find? globalScope name with
  | some (.value v) => return v
  | _ => throw (.unknownSymbol name)

/-- Defines a function of the host. -/
def register (f : HostFunction) : Run Unit := do
  let m ← get
  let index := m.natives.size
  set { m with natives := m.natives.push f.fn }
  let v ← Run.callable fun serial => .native serial index f.name f.args f.results
  Run.put globalScope f.name v

/-- A function of the host that works on the stack itself. -/
def shuffle (s : Shuffle) : Run Value := do
  let m ← get
  let index := m.shuffles.size
  set { m with shuffles := m.shuffles.push s }
  Run.callable fun serial => .shuffle serial index

/-- The global names, in order. -/
def globalNames (c : Calculator) : List Text := (c.machine.scopes.own globalScope).map (·.1)

/-- The names that pattern literals know, in order. -/
def patternNames (c : Calculator) : List Text := (c.machine.scopes.own patternScope).map (·.1)

/-! ### Setting up -/

/-- Loads a codec table. A refused entry leaves the table as far as it has come. -/
def loadCodecs (entries : List (Data × Data)) : Calculation Unit := do
  let (result, table) := (← Calculation.current).codecs.load entries
  Calculation.change fun c => { c with codecs := table }
  let _ ← (result : Except Fault Unit)
  Run.note (.codecsLoaded table.toList)

/-- Sets up what a configuration asks for, and the functions of a host. -/
def install (host : List HostFunction) (config : Config) : Calculation Unit := do
  loadCodecs config.codecs
  config.globals.forM fun e => do
    let _ ← define e.1 e.2
  host.forM fun f => register f

/-- A new calculator. -/
def create (host : List HostFunction) (config : Config) (logging : Bool) : Except Fault Calculator :=
  match (install host config).outcome (bare logging config.traced) with
  | (.ok (), c) => .ok c
  | (.error f, _) => .error f

end Calculator

end StackCalc
