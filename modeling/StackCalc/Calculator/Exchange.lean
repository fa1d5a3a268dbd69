import StackCalc.Calculator.Basic
import StackCalc.Calculator.Run
import StackCalc.Data.Json
import StackCalc.Wire.Store
import StackCalc.Wire.ValueCodec

/-! # Values and code outside of a calculator

Values are exchanged as JSON or YAML. A text that begins like a JSON list or object is taken for JSON unless a format
is named. Code is listed one step a line, with numbers.

Global names are stored with their values in a record, written under the calculator's codec table. A record is read as
a whole before anything is defined, so one that is broken defines nothing. -/

namespace StackCalc

/-! ### Text formats -/

/-- A text format for values. -/
inductive TextFormat where
  | json | yaml
  deriving DecidableEq, Repr

namespace TextFormat

def name : TextFormat → Text
  | json => "json"
  | yaml => "yaml"

/-- The format with a name, in letters of either case. -/
def ofName? (s : Text) : Option TextFormat :=
  let lower := s.map Char.toLower
  if lower == "json" then some json else if lower == "yaml" then some yaml else none

/-- The format that a text looks like. -/
def detect (text : Text) : TextFormat :=
  match text.codes.dropWhile (·.isIn Text.isBlank) with
  | .char '\x7b' :: _ | .char '[' :: _ => json
  | _ => yaml

/-- The data of a text. -/
def read (f : TextFormat) (text : Text) : Except Fault Data :=
  match f with
  | json => Json.read text
  | yaml => Yaml.read text

/-- The text of data; only JSON may be written on one line. -/
def write (f : TextFormat) (pretty : Bool) (d : Data) : Except Fault Text :=
  match f with
  | json => Json.write (if pretty then .indented 0 else .flat) d
  | yaml => Yaml.write d

end TextFormat

/-- The fault of a format that is not known. -/
def unsupported (format : Option Text) : Fault :=
  .unsupportedFormat (match format with
    | some s => Text.quoted s
    | none => "None")

/-- The text of a value in a format. That the value has a data form is checked before the format. -/
def Value.serialize (v : Value) (format : Option Text) (pretty : Bool) : Except Fault Text := do
  let d ← v.toData
  match format.bind TextFormat.ofName? with
  | some f => f.write pretty d
  | none => throw (unsupported format)

/-- The value of a text in a format, or in the format it looks like if none is named. -/
def deserialize (text : Text) (format : Option Text) : Run Value := do
  let f := match format.filter fun (s : Text) => s != "" with
    | none => some (TextFormat.detect text)
    | some s => TextFormat.ofName? s
  match f with
  | some f => Calculator.ofData (← (f.read text : Except Fault Data))
  | none => throw (unsupported format)

/-! ### Listings -/

/-- A number at the right end of a column. -/
def rightAligned (width n : Nat) : Text :=
  let digits := toString n
  Text.ofChars (List.replicate (width - digits.length) ' ') ++ digits

/-- The lines of steps, numbered from `n` on. -/
def listingFrom (width n : Nat) : List Instr → Except Fault (List Text)
  | [] => .ok []
  | i :: rest => do
    let line := rightAligned width n ++ ": " ++ (← i.shown Naming.standard)
    return line :: (← listingFrom width (n + 1) rest)

/-- The numbered steps of code. -/
def listing (steps : List Instr) : Except Fault Text := do
  let width := (toString (steps.length - 1)).length
  return Text.intercalate "\n" (← listingFrom width 0 steps)

/-! ### Stores -/

namespace Calculator

/-- The values of names, each name once. -/
def lookupAll (names : List Text) : Run Bindings := do
  let mut found : Bindings := []
  for name in names do
    found := Bindings.put name (← lookup name) found
  return found

/-- The record of the named globals; what was written before a fault is part of the answer. -/
def dumpGlobals (names : List Text) : Calculation Wire.Written := do
  let entries ← lookupAll names
  let table := (← Calculation.current).codecs
  return Wire.writeRecord Wire.encodeText (Wire.writeValue table) entries

/-- Reads a record and defines every entry; results in the store and the bytes that are left. -/
def loadGlobals (bytes : Wire.Bytes) : Calculation (Bindings × Wire.Bytes) := do
  let table := (← Calculation.current).codecs
  let (result, rest) := (Wire.readRecord (· == ·) Wire.readText (Wire.readValue table 0)).outcome bytes
  let (size, entries) ← (result : Except Fault (Nat × Bindings))
  let store ← (entries.mapM fun e => do return (e.1, ← Run.distinguishAll e.2) : Run Bindings)
  Run.note (.storeRead size)
  Run.note (.storeActivated store.length)
  Run.putAll globalScope store
  return (store, rest)

end Calculator

end StackCalc
