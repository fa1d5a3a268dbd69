import StackCalc.Value.Show
import StackCalc.Value.Equality

/-! # Plain data

What the calculator exchanges with its host and with text formats: scalars, sequences and ordered
mappings. Some kinds only ever come from the host: a value of a calculator, a code object, a bare pair, a
number, text or list of a class that is derived from theirs and changes nothing about them, and anything else
by the name of its class and its text. Data that was read from a text may contain itself; the place where it
does is a leaf of its own. A mapping keeps the order in which its keys first came up; keys that are equal as
numbers, or as texts, are the same key. -/

namespace StackCalc

/-- Plain data. -/
inductive Data where
  | int (n : Int)
  | float (x : Binary64)
  | str (s : Text)
  | bool (b : Bool)
  | null
  | list (items : List Data)
  | tuple (items : List Data)
  | map (entries : List (Data × Data))
  | value (v : Value)
  | code (c : Code)
  | pair (car cdr : Value)
  | subInt (className : Text) (n : Int)
  | subFloat (className : Text) (x : Binary64)
  | subStr (className : Text) (s : Text)
  | subList (className : Text) (items : List Data)
  | other (className shown : Text)
  /-- A list, or a mapping, around this place. -/
  | cycle (mapping : Bool)

instance : Inhabited Data := ⟨.null⟩

namespace Data

/-- The name of the class of a piece of data. -/
def className : Data → Text
  | int _ => "int" | float _ => "float" | str _ => "str" | bool _ => "bool" | null => "NoneType"
  | list _ => "list" | tuple _ => "tuple" | map _ => "dict" | value _ => "TypedValue" | code _ => "Code"
  | pair .. => "Cons" | subInt name _ | subFloat name _ | subStr name _ | subList name _ | other name _ => name
  | cycle mapping => if mapping then "dict" else "list"

/-- One entry of a mapping in diagnostic text. -/
def showEntry (key value : Text) : Text := key ++ ": " ++ value

mutual

/-- The diagnostic text of data. -/
def shown (names : Naming) : Data → Except Fault Text
  | int n => showInt n
  | float x => pure (showFloat x)
  | str s => pure (Text.quoted s)
  | bool b => pure (showBool b)
  | null => pure "None"
  | list items => do return showList (← showAll names items)
  | tuple items => do return showTuple (← showAll names items)
  | map entries => do return "\x7b" ++ Text.intercalate ", " (← showEntries names entries) ++ "\x7d"
  | value v => v.shown names
  | code c => c.shown names
  | pair a b => (Payload.cons a b).shown names
  | subInt _ n => showInt n
  | subFloat _ x => pure (showFloat x)
  | subStr _ s => pure (Text.quoted s)
  | subList _ items => do return showList (← showAll names items)
  | other _ s => pure s
  | cycle mapping => pure (if mapping then "\x7b...\x7d" else "[...]")

def showAll (names : Naming) : List Data → Except Fault (List Text)
  | [] => pure []
  | d :: ds => do return (← d.shown names) :: (← showAll names ds)

def showEntries (names : Naming) : List (Data × Data) → Except Fault (List Text)
  | [] => pure []
  | (k, v) :: rest => do
    let key ← k.shown names
    let value ← v.shown names
    return showEntry key value :: (← showEntries names rest)

end

/-- The text that data is. -/
def string? : Data → Option Text
  | str s | subStr _ s => some s
  | _ => none

/-- The integer that data is; a truth value is none. -/
def integer? : Data → Option Int
  | int n | subInt _ n => some n
  | _ => none

theorem shown_of_integer? {d : Data} {n : Int} (h : d.integer? = some n) (names : Naming) :
    d.shown names = showInt n := by
  cases d <;> cases h <;> rw [shown]

/-- The text of data: a text by itself, anything else in its diagnostic form. -/
def text (d : Data) : Except Fault Text :=
  match d.string? with
  | some s => pure s
  | none => d.shown Naming.standard

/-! ### Keys -/

/-- A number by its value, whatever its class. -/
inductive Numeric where
  | integer (n : Int)
  | real (x : Binary64)

def numeric? : Data → Option Numeric
  | int n | subInt _ n => some (.integer n)
  | bool b => some (.integer (if b then 1 else 0))
  | float x | subFloat _ x => some (.real x)
  | _ => none

def Numeric.eq : Numeric → Numeric → Bool
  | integer m, integer n => m == n
  | integer m, real x | real x, integer m => x.eqInt m
  | real x, real y => x.eq y

mutual

/-- The same key of a mapping. -/
def sameKey : Data → Data → Bool
  | str s, str t | str s, subStr _ t | subStr _ s, str t | subStr _ s, subStr _ t => s == t
  | null, null => true
  | tuple as, tuple bs => sameKeys as bs
  | value v, value w => v.eq w
  | code c, code d => c.label == d.label
  | pair a b, pair c d => a.agrees c && b.agrees d
  | other c s, other d t => c == d && s == t
  | a, b =>
    match a.numeric?, b.numeric? with
    | some m, some n => m.eq n
    | _, _ => false

def sameKeys : List Data → List Data → Bool
  | [], [] => true
  | a :: as, b :: bs => sameKey a b && sameKeys as bs
  | _, _ => false

end

mutual

/-- Can be a key. -/
def isKey : Data → Bool
  | list _ | subList .. | map _ | cycle _ => false
  | tuple items => areKeys items
  | other name _ => name != "set"
  | _ => true

def areKeys : List Data → Bool
  | [] => true
  | d :: ds => isKey d && areKeys ds

end

/-- Sets a key of a mapping: a new key goes to the end, a present one keeps its place and its spelling. -/
def insert (key value : Data) : List (Data × Data) → List (Data × Data)
  | [] => [(key, value)]
  | (k, v) :: rest => if k.sameKey key then (k, value) :: rest else (k, v) :: insert key value rest

/-- The value of a key. -/
def lookup? (key : Data) (entries : List (Data × Data)) : Option Data :=
  (entries.find? fun e => e.1.sameKey key).map (·.2)

/-- The mapping with the given entries, later ones last. -/
def mapOf (entries : List (Data × Data)) : List (Data × Data) :=
  entries.foldl (fun m e => insert e.1 e.2 m) []

/-- The texts of the other containers that a text can give, when they hold nothing: a set, and bytes. -/
def emptyTexts : List Text := ["set()", "b''"]

/-- Counts as true: a number that is not zero, and a container that holds something. -/
def truthy : Data → Bool
  | int n | subInt _ n => n != 0
  | float x | subFloat _ x => !x.isZero
  | str s | subStr _ s => s != ""
  | bool b => b
  | null => false
  | list items | tuple items | subList _ items => !items.isEmpty
  | map entries => !entries.isEmpty
  | code c => !c.steps.isEmpty
  | other _ shown => !emptyTexts.contains shown
  | _ => true

end Data

end StackCalc
