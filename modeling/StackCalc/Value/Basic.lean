import StackCalc.Text.Basic
import StackCalc.Number.Binary64

/-! # Values and code

A value is a payload owned by a domain. Payloads reach code, callables and composite objects, and these
reach values again, so all of them are one family of types.

What has an identity of its own carries it as a number: a code value the label of the block it was
compiled from, a callable and a composite the serial number it got when it was made. A floating-point
payload carries a cell, zero for a number: two values that are not numbers are the same object exactly if
they have the same cell, and nothing but that tells them apart. -/

namespace StackCalc

/-- Identifies a domain; `0` is the calculator's own. -/
abbrev DomainId := Nat

/-- Identifies a scope in the forest of scopes. -/
abbrev ScopeId := Nat

/-- Identifies a piece of code: the serial number of the expression that it was compiled from, and the
place of the piece within. What one expression is compiled to twice has the same labels, and so is equal
here; a program that keeps both has two pieces of code that it tells apart. -/
abbrev Label := List Nat

/-- The kinds of value. The last two are containers of the host, which a domain may admit. -/
inductive Kind where
  | int | float | str | bool | null | cons | code | callable | object | hostList | hostMap
  deriving DecidableEq, Repr, Inhabited

/-- The operators with two operands. The last two have a meaning for the compiler only. -/
inductive BinaryOp where
  | add | sub | mul | div | mod | eq | ne | lt | le | gt | ge | and | or | cons | dot | lambda | split
  deriving DecidableEq, Repr, Inhabited

/-- The operators with one operand. -/
inductive UnaryOp where
  | neg | not
  deriving DecidableEq, Repr, Inhabited

/-- The functions that every calculator has. -/
inductive Builtin where
  | bool | car | cdr | cons | float | int | str | template | type
  | apply | withMembers | define | execute | list | print | struct | matchSymbol | pattern
  deriving DecidableEq, Repr, Inhabited

/-- A declared record type: its serial number, its name and its fields. -/
structure StructType where
  serial : Nat
  name : Text
  fields : List Text
  deriving DecidableEq, Repr, Inhabited

mutual

/-- An immutable value: a payload and the domain that owns it. -/
inductive Value where
  | mk (domain : DomainId) (payload : Payload)

/-- What a value holds, by kind. -/
inductive Payload where
  | int (n : Int)
  | float (x : Binary64) (cell : Nat)
  | str (s : Text)
  | bool (b : Bool)
  | null
  | cons (car cdr : Value)
  | code (c : Code)
  | callable (f : Callable)
  | object (c : Composite)
  /-- A container of the host, known by its text and its truth. -/
  | host (kind : Kind) (shown : Text) (truthy : Bool)

/-- A step of the stack machine. -/
inductive Instr where
  | push (v : Value)
  | get (name : Text)
  | call (name : Text) (args results : Option Int)
  | binary (op : BinaryOp)
  | unary (op : UnaryOp)
  | closure (params : List Text) (body : List Instr)

/-- A sequence of steps as a value. -/
inductive Code where
  | mk (label : Label) (steps : List Instr)

/-- What can be called. -/
inductive Callable where
  | builtin (b : Builtin)
  /-- A function of the host, by its place in the table of such functions. -/
  | native (serial : Nat) (index : Nat) (name : Text) (args results : Nat)
  /-- A function of the host that works on the stack itself, by its place in the table of such functions. -/
  | shuffle (serial : Nat) (index : Nat)
  /-- Results in the number of arguments it was declared to have. -/
  | counter (serial : Nat)
  | closure (serial : Nat) (params : List Text) (body : List Instr) (scope : ScopeId)
  | matching (serial : Nat) (scope : ScopeId) (patterns : List Pattern)
  /-- Adds a literal, a guarded action or a default to a pattern under construction. -/
  | addPart (builder : Nat)
  | addGuarded (builder : Nat)
  | addDefault (builder : Nat)

/-- A structured object, described by what it can do. -/
inductive Composite where
  | struct (type : StructType)
  | record (type : StructType) (values : List Value)
  | pattern (serial : Nat) (p : Pattern)
  /-- Stands for a name that a pattern literal binds. -/
  | binder (serial : Nat) (name : Text)
  /-- Stands for a call of an unknown constructor in a pattern literal. -/
  | construction (serial : Nat) (name : Text) (args : List Value)
  /-- An object of the host, with one trait or several. -/
  | host (serial : Nat) (single : Bool) (name : Text) (traits : List Trait)

/-- An ability of a host's object. -/
inductive Trait where
  /-- Named members that are listed. -/
  | members (special : Bool) (entries : List (Text × Value))
  /-- Named members that are found but not listed. -/
  | hiddenMembers (entries : List (Text × Value))
  /-- Comes apart into so many copies of the value, or never. -/
  | repeats (count : Option Nat)
  /-- Can be called, and counts its arguments. -/
  | counts

/-- What a pattern expects of one value. -/
inductive Part where
  | any
  | bind (name : Text)
  | exact (expected : Value)
  | cons (car cdr : Part)
  | construct (name : Text) (args : List Part)

/-- An alternative: what it expects of each value, and what it selects. -/
inductive Pattern where
  | plain (parts : List Part) (action : Code)
  | guarded (parts : List Part) (clauses : List (Code × Code)) (fallback : Option Code)

end

instance : Inhabited Payload := ⟨.null⟩
instance : Inhabited Value := ⟨.mk 0 .null⟩
instance : Inhabited Code := ⟨.mk [] []⟩
instance : Inhabited Instr := ⟨.get ""⟩
instance : Inhabited Part := ⟨.any⟩

namespace Value

def domain : Value → DomainId
  | mk d _ => d

def payload : Value → Payload
  | mk _ p => p

end Value

namespace Payload

def kind : Payload → Kind
  | int _ => .int
  | float _ _ => .float
  | str _ => .str
  | bool _ => .bool
  | null => .null
  | cons _ _ => .cons
  | code _ => .code
  | callable _ => .callable
  | object _ => .object
  | host k _ _ => k

end Payload

def Value.kind (v : Value) : Kind := v.payload.kind

namespace Code

def label : Code → Label
  | mk l _ => l

def steps : Code → List Instr
  | mk _ s => s

end Code

namespace Pattern

def parts : Pattern → List Part
  | plain ps _ => ps
  | guarded ps _ _ => ps

end Pattern

namespace Callable

/-- The serial number of a callable that has one. -/
def serial? : Callable → Option Nat
  | native n .. | shuffle n .. | counter n | closure n .. | matching n .. => some n
  | _ => none

end Callable

namespace BinaryOp

def symbol : BinaryOp → Text
  | add => "+" | sub => "-" | mul => "*" | div => "/" | mod => "%"
  | eq => "==" | ne => "!=" | lt => "<" | le => "<=" | gt => ">" | ge => ">="
  | and => "&&" | or => "||" | cons => ":" | dot => "." | lambda => "->" | split => "\\"

def all : List BinaryOp :=
  [add, sub, mul, div, mod, eq, ne, lt, le, gt, ge, and, or, cons, dot, lambda, split]

/-- The operator with a symbol. -/
def ofSymbol? (s : Text) : Option BinaryOp := all.find? fun op => op.symbol == s

/-- Has a meaning for the compiler only. -/
def isMarker (op : BinaryOp) : Bool := op == lambda || op == split

theorem ofSymbol?_symbol (op : BinaryOp) : ofSymbol? op.symbol = some op := by
  cases op <;> decide

end BinaryOp

namespace UnaryOp

def symbol : UnaryOp → Text
  | neg => "-" | not => "!"

/-- The operator with a symbol. -/
def ofSymbol? (s : Text) : Option UnaryOp := [neg, not].find? fun op => op.symbol == s

end UnaryOp

namespace Builtin

def name : Builtin → Text
  | bool => "bool" | car => "car" | cdr => "cdr" | cons => "cons" | float => "float" | int => "int"
  | str => "str" | template => "template" | type => "type" | apply => "apply" | withMembers => "with"
  | define => "define" | execute => "execute" | list => "list" | print => "print" | struct => "struct"
  | matchSymbol => "match" | pattern => "pattern"

/-- The functions that take a fixed number of values and result in one, which depends on these only. -/
def arity? : Builtin → Option Nat
  | bool | car | cdr | float | int | str | type => some 1
  | cons | template => some 2
  | _ => none

end Builtin

end StackCalc
