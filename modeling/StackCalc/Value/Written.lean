import StackCalc.Value.Members
import StackCalc.Value.Show

/-! # Values as they are written in an expression

Proper lists appear in brackets, other pairs with a colon, records as calls of their constructor, with the members that
are found for the listed names. What has no literal form shows its diagnostic text. -/

namespace StackCalc

def writtenBool (b : Bool) : Text := if b then "true" else "false"

mutual

/-- A value as it is written in an expression. -/
def Value.written : Value → Except Fault Text
  | .mk _ p => p.written

def Payload.written : Payload → Except Fault Text
  | .int n => showInt n
  | .float x _ => pure (showFloat x)
  | .str s => pure (Text.written s)
  | .bool b => pure (writtenBool b)
  | .null => pure "null"
  | .cons a b => do
    match ← b.writtenTail with
    | some items => return showList ((← a.written) :: items)
    | none => return "(" ++ (← a.written) ++ " : " ++ (← b.written) ++ ")"
  | .code c => pure ("\x7b" ++ toString c.steps.length ++ " step(s)\x7d")
  | .callable f => pure f.shown
  | .object c => c.written
  | .host _ s _ => pure s

/-- The items of the rest of a list, if it ends in null. -/
def Value.writtenTail : Value → Except Fault (Option (List Text))
  | .mk _ p => p.writtenTail

def Payload.writtenTail : Payload → Except Fault (Option (List Text))
  | .null => pure (some [])
  | .cons a b => do
    match ← b.writtenTail with
    | some items => return some ((← a.written) :: items)
    | none => return none
  | _ => pure none

def Composite.written : Composite → Except Fault Text
  | .record t vs => do
    let members ← Members.forms (t.fields.zip (writtenEach vs))
    return t.name ++ "(" ++ Text.intercalate ", " (members.map Prod.snd) ++ ")"
  | .host _ _ n traits => do
    match ← writtenMembers traits with
    | some items => return n ++ "(" ++ Text.intercalate ", " items ++ ")"
    | none => return "<composite " ++ n ++ ">"
  | c => pure c.shown

/-- The members of the first trait that has any. -/
def writtenMembers : List Trait → Except Fault (Option (List Text))
  | [] => pure none
  | .members _ entries :: _ => do return some ((← Members.forms (writtenEntries entries)).map Prod.snd)
  | .hiddenMembers _ :: _ => pure (some [])
  | _ :: rest => writtenMembers rest

def writtenEntries : List (Text × Value) → List (Text × Except Fault Text)
  | [] => []
  | (k, v) :: rest => (k, v.written) :: writtenEntries rest

def writtenEach : List Value → List (Except Fault Text)
  | [] => []
  | v :: vs => v.written :: writtenEach vs

end

end StackCalc
