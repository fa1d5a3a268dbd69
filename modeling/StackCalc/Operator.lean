import StackCalc.Domain
import StackCalc.Value.Written

/-! # Operators and conversions

The operators on values. Results belong to the calculator's own domain, whatever the domain of the operands.
Arithmetic wants two numbers of one kind, ordering two numbers or two texts; equality, truth and pairing take anything.
The conversions take a value of one kind to another: numbers to numbers, texts to numbers, anything to text. -/

namespace StackCalc

/-- A value of the calculator's own domain. -/
def Value.own (p : Payload) : Value := .mk 0 p

/-- The fault that quotes a value. -/
def Value.faultWith (cause : Text → Fault) (v : Value) : Fault :=
  match v.shown Naming.standard with
  | .ok s => cause s
  | .error f => f

/-- The fault that quotes two values. -/
def Value.faultWith2 (cause : Text → Text → Fault) (v w : Value) : Fault :=
  match v.shown Naming.standard, w.shown Naming.standard with
  | .ok s, .ok t => cause s t
  | .error f, _ | _, .error f => f

/-- The fault of a value that is not of the kind a part of the program wants. -/
def Value.unwanted (k : Kind) (context : Text) (v : Value) : Fault :=
  v.wrongKind Naming.standard k (some context)

/-- The text of a value that has to be one. -/
def Value.wantText (context : Text) (v : Value) : Except Fault Text :=
  match v.payload with
  | .str s => .ok s
  | _ => .error (v.unwanted .str context)

/-- The code of a value that has to be some. -/
def Value.wantCode (context : Text) (v : Value) : Except Fault Code :=
  match v.payload with
  | .code c => .ok c
  | _ => .error (v.unwanted .code context)

/-- The pair of a value that has to be one. -/
def Value.wantPair (context : Text) (v : Value) : Except Fault (Value × Value) :=
  match v.payload with
  | .cons a b => .ok (a, b)
  | _ => .error (v.unwanted .cons context)

/-- The composite of a value that has to be an object. -/
def Value.wantObject (context : Text) (v : Value) : Except Fault Composite :=
  match v.payload with
  | .object c => .ok c
  | _ => .error (v.unwanted .object context)

namespace Operator

/-- Arithmetic on two numbers of one kind. -/
def arithmetic (op : BinaryOp) (onInts : Int → Int → Except Fault Payload)
    (onFloats : Binary64 → Binary64 → Except Fault Payload) (a b : Value) : Except Fault Value :=
  match a.payload, b.payload with
  | .int m, .int n => (onInts m n).map .own
  | .float x _, .float y _ => (onFloats x y).map .own
  | _, _ => .error (a.faultWith2 (.notNumbers op.symbol) b)

/-- A result that is a floating-point number. -/
def float (x : Binary64) : Except Fault Payload := .ok (.float x 0)

def ofFloat? : Option Binary64 → Except Fault Payload
  | some x => float x
  | none => .error .numberTooLarge

def add (a b : Value) : Except Fault Value :=
  match a.payload, b.payload with
  | .str s, .str t => .ok (.own (.str (s ++ t)))
  | _, _ => arithmetic .add (fun m n => .ok (.int (m + n))) (fun x y => float (x.add y)) a b

def sub : Value → Value → Except Fault Value :=
  arithmetic .sub (fun m n => .ok (.int (m - n))) fun x y => float (x.sub y)

def mul : Value → Value → Except Fault Value :=
  arithmetic .mul (fun m n => .ok (.int (m * n))) fun x y => float (x.mul y)

/-- The quotient, a floating-point number also for integers. -/
def div : Value → Value → Except Fault Value :=
  arithmetic .div
    (fun m n => if n = 0 then .error .divisionByZero else ofFloat? (Binary64.ofQuotient? m n))
    fun x y => if y.isZero then .error .divisionByZero else float (x.div y)

/-- The remainder with the sign of the divisor. -/
def mod : Value → Value → Except Fault Value :=
  arithmetic .mod
    (fun m n => if n = 0 then .error .divisionByZero else .ok (.int (m.fmod n)))
    fun x y => if y.isZero then .error .divisionByZero else float (x.mod y)

/-- A comparison of two numbers or two texts. -/
def comparison (op : BinaryOp) (onInts : Int → Int → Bool) (onFloats : Binary64 → Binary64 → Bool)
    (onTexts : Text → Text → Bool) (a b : Value) : Except Fault Value :=
  match a.payload, b.payload with
  | .int m, .int n => .ok (.own (.bool (onInts m n)))
  | .float x _, .float y _ => .ok (.own (.bool (onFloats x y)))
  | .str s, .str t => .ok (.own (.bool (onTexts s t)))
  | _, _ => .error (a.faultWith2 (.notComparable op.symbol) b)

/-- The member of an object with a name. -/
def member (target key : Value) : Except Fault Value := do
  let name ← key.wantText "member name"
  match target.payload, target.members? with
  | .object c, some m =>
    match m.get? name with
    | some v => return v
    | none => throw (.noMember name c.name)
  | _, _ => throw (target.faultWith fun s => .noMembers s ("'." ++ name ++ "'"))

/-- The value of a binary operator. -/
def binary : BinaryOp → Value → Value → Except Fault Value
  | .add, a, b => add a b
  | .sub, a, b => sub a b
  | .mul, a, b => mul a b
  | .div, a, b => div a b
  | .mod, a, b => mod a b
  | .eq, a, b => .ok (.own (.bool (a.eq b)))
  | .ne, a, b => .ok (.own (.bool (!a.eq b)))
  | .lt, a, b =>
    comparison .lt (fun m n => decide (m < n)) Binary64.lt (fun s t => decide (s < t)) a b
  | .le, a, b =>
    comparison .le (fun m n => decide (m ≤ n)) Binary64.le (fun s t => !decide (t < s)) a b
  | .gt, a, b =>
    comparison .gt (fun m n => decide (n < m)) (fun x y => y.lt x) (fun s t => decide (t < s)) a b
  | .ge, a, b =>
    comparison .ge (fun m n => decide (n ≤ m)) (fun x y => y.le x) (fun s t => !decide (s < t)) a b
  | .and, a, b => .ok (.own (.bool (a.truthy && b.truthy)))
  | .or, a, b => .ok (.own (.bool (a.truthy || b.truthy)))
  | .cons, a, b => .ok (.own (.cons a b))
  | .dot, a, b => member a b
  | .lambda, _, _ => .error (.markerOperator BinaryOp.lambda.symbol)
  | .split, _, _ => .error (.markerOperator BinaryOp.split.symbol)

/-- The value of a unary operator. -/
def unary : UnaryOp → Value → Except Fault Value
  | .neg, a =>
    match a.payload with
    | .int n => .ok (.own (.int (-n)))
    | .float x _ => .ok (.own (.float x.neg 0))
    | _ => .error (a.faultWith .notNegatable)
  | .not, a => .ok (.own (.bool (!a.truthy)))

end Operator

/-! ### Conversions

Half of a pair is part of no number, and neither is the character that stands in for it. -/

namespace Convert

/-- The fault of a payload that has no counterpart in the target kind. -/
def unconvertible (target : Text) (p : Payload) : Fault :=
  match p.shown Naming.standard with
  | .ok s => .unconvertible s target
  | .error f => f

def toInt (v : Value) : Except Fault Value :=
  match v.payload with
  | .int n => .ok (.own (.int n))
  | .bool b => .ok (.own (.int (if b then 1 else 0)))
  | .float x c =>
    match x.truncate? with
    | some n => .ok (.own (.int n))
    | none => .error (unconvertible "int" (.float x c))
  | .str s =>
    match Integer.read? s.blurred with
    | some n => .ok (.own (.int n))
    | none => .error (unconvertible "int" (.str s))
  | _ => .error (v.faultWith fun s => .unconvertible s "int")

def toFloat (v : Value) : Except Fault Value :=
  match v.payload with
  | .int n => (Operator.ofFloat? (Binary64.ofInt? n)).map .own
  | .bool b => (Operator.ofFloat? (Binary64.ofInt? (if b then 1 else 0))).map .own
  | .float x _ => .ok (.own (.float x 0))
  | .str s =>
    match Decimal.readBinary64? s.blurred with
    | some x => .ok (.own (.float x 0))
    | none => .error (unconvertible "float" (.str s))
  | _ => .error (v.faultWith fun s => .unconvertible s "float")

/-- A text stays as it is; anything else is written as in an expression. -/
def toText (v : Value) : Except Fault Value :=
  match v.payload with
  | .str _ => .ok v
  | _ => do return .own (.str (← v.written))

end Convert

end StackCalc
