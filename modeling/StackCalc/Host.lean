import StackCalc.Domain
import StackCalc.Machine.Basic

/-! # Functions of a host

A host lends a calculator functions of its own: any that work on values and have any number of results, and the
methods that a host object exposes. A method works on payloads and has one result, which becomes a value of the
calculator as host data does (`Domain.wrap`).

A host may raise errors of the calculator's own kinds itself. What it gives is quoted: a message, as a rule; for a wrong
type also the part of the program it was met in; for an undefined symbol its name, and perhaps a message in place of
the usual one. -/

namespace StackCalc

/-- A function of the host, with its counts of arguments and results. -/
structure HostFunction where
  name : Text
  args : Nat
  results : Nat
  fn : NativeFunction

/-- What a method of a host object results in. -/
inductive HostResult where
  /-- A payload of the calculator's own. -/
  | payload (p : Payload)
  | data (d : Data)

/-- The result as a value. A payload becomes a new value, which is another object. -/
def HostResult.wrapped : HostResult → Except Fault Value
  | payload (.float x _) => .ok (.own (.float x 0))
  | payload p => .ok (.own p)
  | data d => Domain.wrap Naming.standard 0 .standard d

/-- A method that a host object exposes. -/
structure HostMethod where
  name : Text
  args : Nat
  fn : List Payload → Except Fault HostResult

/-- The function that a method is lent as. -/
def HostMethod.function (m : HostMethod) : HostFunction :=
  ⟨m.name, m.args, 1, fun given => do return .one (← (← m.fn (given.map Value.payload)).wrapped)⟩

/-! ### Errors that a host raises -/

/-- The kind with a name among the calculator's own. -/
def Category.ofName? (s : Text) : Option Category := Category.own.find? fun c => c.name == s

/-- An error as a host sees it. -/
structure Raised where
  category : Category
  text : Text
  context : Option Text

namespace Raised

/-- The text of what an error of a plain kind was given. -/
def plainText (category : Category) : List Data → Except Fault Text
  | [] => .ok (if category == .compilation then "None" else "")
  | [d] => d.text
  | ds => if category == .compilation then .error .wrongHostType else (Data.tuple ds).text

/-- The text of a wrong type. -/
def contextText (message context : Data) : Except Fault Text := do
  if context.truthy then return (← message.text) ++ " (in " ++ (← context.text) ++ ")" else message.text

/-- Raises an error of a kind. A wrong type and an undefined symbol want one or two arguments. -/
def make (category : Category) (args : List Data) : Except Fault Raised :=
  match category, args with
  | .wrongType, [m] => do return ⟨category, ← m.text, none⟩
  | .wrongType, [m, .null] => do return ⟨category, ← m.text, none⟩
  | .wrongType, [m, c] => do return ⟨category, ← contextText m c, some (← c.text)⟩
  | .undefinedSymbol, [name] => do return ⟨category, ← unknown name, none⟩
  | .undefinedSymbol, [name, m] => do
    return ⟨category, ← (if m.truthy then m.text else unknown name), none⟩
  | .wrongType, _ | .undefinedSymbol, _ => .error .wrongHostType
  | _, args => do return ⟨category, ← plainText category args, none⟩
where
  unknown (name : Data) : Except Fault Text := do
    return "Unknown symbol: " ++ (← name.shown Naming.standard)

end Raised

end StackCalc
