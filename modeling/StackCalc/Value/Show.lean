import StackCalc.Value.Members
import StackCalc.Fault
import StackCalc.Number.Decimal

/-! # Diagnostic text of values and code

The form in which messages quote a value: its kind, a colon and its payload, with code spelled out step by
step. The name of a kind is a matter of the domain, so all functions take a `Naming`. A text that would
need an integer of too many digits does not exist, hence the results in `Except`. -/

namespace StackCalc

/-- The names that domains give to kinds. -/
abbrev Naming := DomainId → Kind → Text

/-- The name of a kind in a domain with the standard kinds. -/
def Kind.name : Kind → Text
  | int => "int" | float => "float" | str => "str" | bool => "bool" | null => "null" | cons => "cons"
  | code => "code" | callable => "callable" | object => "object"
  | hostList => "<unregistered list>" | hostMap => "<unregistered dict>"

/-- All domains have the standard names. -/
def Naming.standard : Naming := fun _ k => k.name

/-- The text of an integer, if it is within the limit. -/
def showInt (n : Int) : Except Fault Text :=
  match Integer.render? n with
  | some s => .ok s
  | none => .error .tooManyDigits

def showFloat (x : Binary64) : Text := Decimal.render Decimal.Layout.plain x

def showBool (b : Bool) : Text := if b then "True" else "False"

/-- A tuple: one element keeps its comma. -/
def showTuple (items : List Text) : Text :=
  match items with
  | [s] => "(" ++ s ++ ",)"
  | _ => "(" ++ Text.intercalate ", " items ++ ")"

def showList (items : List Text) : Text := "[" ++ Text.intercalate ", " items ++ "]"

/-- An object that has no text of its own shows its class. -/
def showObject (className : Text) : Text := "<tcalc." ++ className ++ " object>"

def Builtin.shown (b : Builtin) : Text :=
  match b.arity? with
  | some n => "<native " ++ b.name ++ "/" ++ toString n ++ ">"
  | none =>
    match b with
    | .apply => showObject "tcalc_stdlib.ApplySymbol"
    | .withMembers => showObject "tcalc_stdlib.WithSymbol"
    | .define => showObject "tcalc_stdlib.DefineSymbol"
    | .execute => showObject "tcalc_stdlib.ExecuteSymbol"
    | .list => showObject "tcalc_stdlib.ListSymbol"
    | .print => showObject "tcalc_stdlib.PrintSymbol"
    | .struct => showObject "tcalc_stdlib.StructSymbol"
    | .matchSymbol => showObject "tcalc_match.MatchSymbol"
    | _ => showObject "tcalc_match.PatternSymbol"

def Callable.shown : Callable → Text
  | .builtin b => b.shown
  | .native _ _ name args _ => "<native " ++ name ++ "/" ++ toString args ++ ">"
  | .shuffle .. => "<shuffle>"
  | .counter _ => "<counter>"
  | .closure _ params _ _ => "<closure (" ++ Text.intercalate ", " params ++ ")>"
  | .matching _ _ patterns => "<match " ++ toString patterns.length ++ " alternative(s)>"
  | .addPart .. => showObject "tcalc_match.PatternBuilderVarSymbol"
  | .addGuarded _ => showObject "tcalc_match.PatternBuilderGuardedActionSymbol"
  | .addDefault _ => showObject "tcalc_match.PatternBuilderDefaultActionSymbol"

def Composite.shown : Composite → Text
  | .struct t => "<struct " ++ t.name ++ "(" ++ Text.intercalate ", " t.fields ++ ")>"
  | c => "<composite " ++ c.name ++ ">"

/-- A declared number of arguments or results. -/
def showCount : Option Int → Text
  | none => "?"
  | some n => toString n

mutual

/-- A value with its kind. -/
def Value.shown (names : Naming) : Value → Except Fault Text
  | .mk d p => do return names d p.kind ++ ":" ++ (← p.shown names)

/-- A payload. -/
def Payload.shown (names : Naming) : Payload → Except Fault Text
  | .int n => showInt n
  | .float x _ => pure (showFloat x)
  | .str s => pure (Text.quoted s)
  | .bool b => pure (showBool b)
  | .null => pure "None"
  | .cons a b => do return "(" ++ (← a.shown names) ++ " : " ++ (← b.shown names) ++ ")"
  | .code c => c.shown names
  | .callable f => pure f.shown
  | .object c => pure c.shown
  | .host _ s _ => pure s

/-- A code value: its steps in order. -/
def Code.shown (names : Naming) : Code → Except Fault Text
  | .mk _ steps => do return "Code(" ++ showList (← showSteps names steps) ++ ")"

/-- One step. -/
def Instr.shown (names : Naming) : Instr → Except Fault Text
  | .push v => do return "push " ++ (← v.shown names)
  | .get name => pure ("get " ++ name)
  | .call name args results =>
    pure ("call " ++ name ++ "(" ++ showCount args ++ " -> " ++ showCount results ++ ")")
  | .binary op => pure ("op " ++ op.symbol)
  | .unary op => pure ("unary " ++ op.symbol)
  | .closure params body =>
    pure ("closure (" ++ Text.intercalate ", " params ++ ") [" ++ toString body.length ++ " steps]")

def showSteps (names : Naming) : List Instr → Except Fault (List Text)
  | [] => pure []
  | i :: is => do return (← i.shown names) :: (← showSteps names is)

end

mutual

/-- What a pattern expects of one value. -/
def Part.shown (names : Naming) : Part → Except Fault Text
  | .any => pure "PatternAny()"
  | .bind name => pure ("PatternBindName(name=" ++ Text.quoted name ++ ")")
  | .exact v => do return "PatternMatchExact(expected=" ++ (← v.shown names) ++ ")"
  | .cons a b => do return "PatternMatchCons(car=" ++ (← a.shown names) ++ ", cdr=" ++ (← b.shown names) ++ ")"
  | .construct name args => do
    return "PatternMatchDecomposable(type_name=" ++ Text.quoted name ++ ", arg_matchers=" ++
      showTuple (← showParts names args) ++ ")"

def showParts (names : Naming) : List Part → Except Fault (List Text)
  | [] => pure []
  | p :: ps => do return (← p.shown names) :: (← showParts names ps)

end

/-- A guard and the action it selects. -/
def showClause (names : Naming) (clause : Code × Code) : Except Fault Text := do
  return "GuardedPatternClause(guard=" ++ (← clause.1.shown names) ++ ", action=" ++ (← clause.2.shown names) ++ ")"

/-- A whole alternative. -/
def Pattern.shown (names : Naming) : Pattern → Except Fault Text
  | .plain parts action => do
    return "UnguardedPattern(parts=" ++ showTuple (← showParts names parts) ++ ", action=" ++
      (← action.shown names) ++ ")"
  | .guarded parts clauses fallback => do
    let fallbackText ← match fallback with
      | some c => c.shown names
      | none => pure "None"
    return "GuardedPattern(parts=" ++ showTuple (← showParts names parts) ++ ", clauses=" ++
      showTuple (← clauses.mapM (showClause names)) ++ ", default_action=" ++ fallbackText ++ ")"

/-- Values in order, in brackets. -/
def showValues (names : Naming) (vs : List Value) : Except Fault Text := do
  return showList (← vs.mapM (Value.shown names))

/-- The values of a stack, bottom first. -/
def showStack (names : Naming) (vs : List Value) : Except Fault Text := do
  return "Stack(" ++ (← showValues names vs) ++ ")"

end StackCalc
