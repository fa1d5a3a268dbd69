/-! # Binary floating point

Numbers of the 64-bit binary format, held as their bit pattern, so that a pattern that is not a number
keeps its payload. Every operation computes the exact result over the integers and rounds it once, to
the nearest value and a tie to the even one (`ofRatio`), so the whole arithmetic is decided by that one
function and by `read`, which gives a pattern its meaning. Order goes by the integer `key`, which is
monotone in the value and equal on the two zeros. -/

namespace StackCalc

/-- A number of the 64-bit binary format, as its bit pattern. -/
structure Binary64 where
  bits : UInt64
  deriving DecidableEq, Inhabited

namespace Binary64

/-- What a bit pattern stands for; a finite one is `m · 2 ^ q` with its sign. -/
inductive Reading where
  | notANumber
  | infinite (negative : Bool)
  | finite (negative : Bool) (m : Nat) (q : Int)

/-- The weight of the sign bit. -/
def signWeight : Nat := 1 <<< 63

/-- One more than the largest significand. -/
def significandEnd : Nat := 1 <<< 53

/-- The distance of two neighbouring exponents in a pattern read as a number. -/
def exponentWeight : Nat := 1 <<< 52

/-- The pattern without its sign, for an infinite value. -/
def infinityWeight : Nat := 2047 * exponentWeight

/-- The least exponent of a finite value. -/
def leastExponent : Int := -1074

def negative (x : Binary64) : Bool := decide (signWeight ≤ x.bits.toNat)

/-- The pattern without its sign. -/
def magnitude (x : Binary64) : Nat := x.bits.toNat % signWeight

/-- The meaning of a bit pattern. -/
def read (x : Binary64) : Reading :=
  let e := x.magnitude / exponentWeight
  let f := x.magnitude % exponentWeight
  if e = 2047 then
    if f = 0 then .infinite x.negative else .notANumber
  else if e = 0 then .finite x.negative f leastExponent
  else .finite x.negative (exponentWeight + f) (leastExponent + (e - 1 : Nat))

/-- The value of a sign and a pattern without sign. -/
def pack (negative : Bool) (magnitude : Nat) : Binary64 :=
  ⟨UInt64.ofNat ((if negative then signWeight else 0) + magnitude)⟩

def zero (negative : Bool) : Binary64 := pack negative 0

def infinity (negative : Bool) : Binary64 := pack negative infinityWeight

/-- The pattern that text reads as not a number. -/
def quietNaN : Binary64 := ⟨0x7FF8000000000000⟩

/-- The pattern that an undefined operation results in. -/
def undefinedResult : Binary64 := ⟨0xFFF8000000000000⟩

def isNaN (x : Binary64) : Bool := decide (infinityWeight < x.magnitude)

def isInfinite (x : Binary64) : Bool := x.magnitude == infinityWeight

/-! ### Rounding -/

/-- The quotient rounded to the nearest integer, a half to the even one. -/
def divHalfEven (num den : Nat) : Nat :=
  let d := num / den
  let r := num % den
  if 2 * r < den then d
  else if den < 2 * r then d + 1
  else if d % 2 = 0 then d else d + 1

/-- The exponent at which the quotient of two positive numbers has a significand of 53 bits, or the least
exponent if that is larger. -/
def exponentOf (num den : Nat) : Int :=
  let k : Int := (num.log2 : Int) - den.log2
  let e := if den <<< k.toNat ≤ num <<< (-k).toNat then k else k - 1
  max (e - 52) leastExponent

/-- The value nearest to `num / den`. A significand that rounds up to the next power of two carries into
the exponent by itself. -/
def ofRatio (negative : Bool) (num den : Nat) : Binary64 :=
  if num = 0 then zero negative
  else
    let q := exponentOf num den
    let m := divHalfEven (num <<< (-q).toNat) (den <<< q.toNat)
    pack negative (min ((q - leastExponent).toNat * exponentWeight + m) infinityWeight)

/-- The value nearest to `m · 2 ^ q`. -/
def ofScaled (negative : Bool) (m : Nat) (q : Int) : Binary64 :=
  ofRatio negative (m <<< q.toNat) (1 <<< (-q).toNat)

/-- The value nearest to `digits · 10 ^ exponent`. Exponents far outside the range of the format are
settled before any power is computed. -/
def ofDecimal (negative : Bool) (digits : Nat) (exponent : Int) : Binary64 :=
  let top : Int := exponent + digits.log2 / 3
  if digits = 0 then zero negative
  else if exponent > 400 then infinity negative
  else if top < -400 then zero negative
  else ofRatio negative (digits * Nat.pow 10 exponent.toNat) (Nat.pow 10 (-exponent).toNat)

/-- The value nearest to an integer; none if it is too large. -/
def ofInt? (n : Int) : Option Binary64 :=
  let x := ofRatio (decide (n < 0)) n.natAbs 1
  if x.isInfinite then none else some x

/-- The value nearest to the quotient of two integers; none if it is too large. The sign of a zero is
that of the signs combined. -/
def ofQuotient? (a b : Int) : Option Binary64 :=
  let x := ofRatio (decide (a < 0) != decide (b < 0)) a.natAbs b.natAbs
  if x.isInfinite then none else some x

/-! ### Arithmetic -/

def neg (x : Binary64) : Binary64 := pack (!x.negative) x.magnitude

/-- A pattern that is not a number, marked as quiet. -/
def quiet (x : Binary64) : Binary64 := ⟨x.bits ||| 0x0008000000000000⟩

/-- An operation on numbers, extended so that an operand that is not a number is the result, the first
one first. -/
def lift (op : Binary64 → Binary64 → Binary64) (x y : Binary64) : Binary64 :=
  if x.isNaN then x.quiet else if y.isNaN then y.quiet else op x y

/-- A finite value as an integer multiple of a power of two not above its own. -/
def scaledTo (negative : Bool) (m : Nat) (q low : Int) : Int :=
  (if negative then -1 else 1) * (m <<< (q - low).toNat : Nat)

def addNumbers (x y : Binary64) : Binary64 :=
  match x.read, y.read with
  | .infinite a, .infinite b => if a == b then x else undefinedResult
  | .infinite _, _ => x
  | _, .infinite _ => y
  | .finite a m p, .finite b n q =>
    let low := min p q
    let s := scaledTo a m p low + scaledTo b n q low
    if s = 0 then zero (a && b) else ofScaled (decide (s < 0)) s.natAbs low
  | _, _ => undefinedResult

def add : Binary64 → Binary64 → Binary64 := lift addNumbers

def sub (x y : Binary64) : Binary64 := lift (fun x y => addNumbers x y.neg) x y

def mulNumbers (x y : Binary64) : Binary64 :=
  let sign := x.negative != y.negative
  match x.read, y.read with
  | .finite _ m p, .finite _ n q => ofScaled sign (m * n) (p + q)
  | .finite _ m _, _ => if m = 0 then undefinedResult else infinity sign
  | _, .finite _ n _ => if n = 0 then undefinedResult else infinity sign
  | _, _ => infinity sign

def mul : Binary64 → Binary64 → Binary64 := lift mulNumbers

/-- The quotient by a divisor that is not zero. -/
def divNumbers (x y : Binary64) : Binary64 :=
  let sign := x.negative != y.negative
  match x.read, y.read with
  | .finite _ m p, .finite _ n q =>
    ofRatio sign (m <<< (p - q).toNat) (n <<< (q - p).toNat)
  | .finite _ _ _, _ => zero sign
  | _, .finite _ _ _ => infinity sign
  | _, _ => undefinedResult

def div : Binary64 → Binary64 → Binary64 := lift divNumbers

/-- The remainder that has the sign of the first number. -/
def remNumbers (x y : Binary64) : Binary64 :=
  match x.read, y.read with
  | .finite a m p, .finite _ n q =>
    let low := min p q
    ofScaled a (m <<< (p - low).toNat % n <<< (q - low).toNat) low
  | .finite _ _ _, _ => x
  | _, _ => undefinedResult

/-- Zero, of either sign. -/
def isZero (x : Binary64) : Bool := x.magnitude == 0

/-- The remainder that has the sign of the divisor, which is not zero. -/
def mod (x y : Binary64) : Binary64 :=
  let r := lift remNumbers x y
  if r.isZero then zero y.negative
  else if !r.isNaN && (r.negative != y.negative) then add r y
  else r

/-! ### Order -/

/-- Increases with the value, and is the same for the two zeros. -/
def key (x : Binary64) : Int := if x.negative then -(x.magnitude : Int) else x.magnitude

/-- A comparison of keys that no pattern passes that is not a number. -/
def compareBy (test : Int → Int → Bool) (x y : Binary64) : Bool :=
  !x.isNaN && !y.isNaN && test x.key y.key

def eq : Binary64 → Binary64 → Bool := compareBy fun a b => a == b

def lt : Binary64 → Binary64 → Bool := compareBy fun a b => decide (a < b)

def le : Binary64 → Binary64 → Bool := compareBy fun a b => decide (a ≤ b)

/-! ### Integers -/

/-- The integer next to a finite value on the side of zero. -/
def truncate? (x : Binary64) : Option Int :=
  match x.read with
  | .finite neg m q =>
    let n : Nat := m <<< q.toNat >>> (-q).toNat
    some (if neg then -(n : Int) else n)
  | _ => none

/-- Whether the value is exactly the given integer. -/
def eqInt (x : Binary64) (n : Int) : Bool :=
  match x.read with
  | .finite neg m q =>
    decide ((if neg then -1 else 1) * (m <<< q.toNat : Nat) = n * (1 <<< (-q).toNat : Nat))
  | _ => false

theorem eq_comm (x y : Binary64) : x.eq y = y.eq x := by
  simp only [eq, compareBy, Bool.and_comm (!x.isNaN), Bool.beq_comm (a := x.key)]

theorem eq_self_iff (x : Binary64) : x.eq x = true ↔ x.isNaN = false := by
  simp [eq, compareBy]

end Binary64

end StackCalc
