import StackCalc.Number.Decimal
import StackCalc.Fault

/-! # Numerals

Integers of base two, eight, ten, sixteen and sixty, and decimal fractions, which may be of base sixty as
well. The predicates say which plain scalars are numerals. The readers go further: they take whatever a tag
declares to be a number. Both restate PyYAML 6.0.3, the predicates its resolver and the readers its safe
constructor. -/

namespace StackCalc.Yaml.Numeral

/-! ### Plain scalars -/

def isDigitOrLow (c : Char) : Bool := c.isDigit || c == '_'

/-- A text without its sign. -/
def unsigned (cs : List Char) : List Char := (Decimal.splitSign cs).2

/-- A group of base sixty: at most two digits, below sixty. -/
def isSixty : List Char → Bool
  | [d] => d.isDigit
  | [a, b] => '0' ≤ a && a ≤ '5' && b.isDigit
  | _ => false

/-- The pieces between the colons of a text. -/
def groups (cs : List Char) : List (List Char) :=
  cs.foldr (fun c gs =>
    match gs with
    | g :: rest => if c == ':' then [] :: g :: rest else (c :: g) :: rest
    | [] => [[c]]) [[]]

/-- A plain scalar that is an integer. -/
def isInteger (cs : List Char) : Bool :=
  match unsigned cs with
  | '0' :: 'b' :: rest => !rest.isEmpty && rest.all fun c => c == '0' || c == '1' || c == '_'
  | '0' :: 'x' :: rest =>
    !rest.isEmpty && rest.all fun c => c.isDigit || ('a' ≤ c && c ≤ 'f') || ('A' ≤ c && c ≤ 'F') || c == '_'
  | '0' :: rest => rest.all fun c => ('0' ≤ c && c ≤ '7') || c == '_'
  | c :: rest =>
    c.isDigit &&
      match groups rest with
      | first :: more => first.all isDigitOrLow && more.all isSixty
      | [] => true
  | [] => false

/-- An exponent, which has a sign, or nothing. -/
def isExponent : List Char → Bool
  | [] => true
  | e :: s :: ds => (e == 'e' || e == 'E') && (s == '+' || s == '-') && !ds.isEmpty && ds.all Char.isDigit
  | _ => false

/-- The part of a decimal behind its point. -/
def isFraction (cs : List Char) : Bool := isExponent (cs.dropWhile isDigitOrLow)

/-- Digits and a point, with groups of base sixty before it. -/
def isDecimal (cs : List Char) : Bool :=
  match groups (cs.takeWhile (· != '.')), cs.dropWhile (· != '.') with
  | [whole], '.' :: rest => whole.all isDigitOrLow && isFraction rest
  | whole :: more, '.' :: rest => whole.all isDigitOrLow && more.all isSixty && rest.all isDigitOrLow
  | _, _ => false

/-- A plain scalar that is a floating-point number. -/
def isReal (cs : List Char) : Bool :=
  match cs with
  | '.' :: c :: rest => (c.isDigit && isFraction rest) || isWord (String.ofList cs)
  | cs =>
    match unsigned cs with
    | '.' :: rest => isInfinity (String.ofList ('.' :: rest))
    | c :: rest => c.isDigit && isDecimal rest
    | [] => false
where
  isInfinity (s : String) : Bool := s == ".inf" || s == ".Inf" || s == ".INF"
  isWord (s : String) : Bool := isInfinity s || s == ".nan" || s == ".NaN" || s == ".NAN"

/-! ### Reading -/

/-- A digit of a base up to sixteen. -/
def digitOf? (base : Nat) (c : Char) : Option Nat :=
  match Text.hexDigit? c with
  | some d => if d < base then some d else none
  | none => none

/-- The letter that may stand behind a zero in front of digits of a base. -/
def baseLetter? : Nat → Option Char
  | 2 => some 'b'
  | 8 => some 'o'
  | 16 => some 'x'
  | _ => none

/-- Digits of a base, with a sign, blanks around them and the mark of the base. -/
def ofBase (base : Nat) (cs : List Char) : Except Fault Int :=
  match Decimal.asciiNumber? cs with
  | none => .error .scalarRange
  | some ascii =>
    let (neg, body) := Decimal.splitSign (Text.trim Text.isNumberBlank ascii)
    let ds := match body with
      | '0' :: c :: rest => if some c.toLower == baseLetter? base then rest else body
      | body => body
    if ds.isEmpty || (base == 10 && !Integer.fits ds) then .error .scalarRange
    else
      match ds.foldlM (fun n c => (digitOf? base c).map (base * n + ·)) 0 with
      | some n => .ok (if neg then -(n : Int) else n)
      | none => .error .scalarRange

/-- Groups of base sixty. -/
def ofSixties (parts : List Int) : Int := parts.foldl (fun n d => 60 * n + d) 0

/-- A numeral without underscores, taken apart into sign and body. -/
def split (s : String) : Except Fault (Bool × List Char) :=
  match s.toList.filter (· != '_') with
  | [] => .error .scalarEmpty
  | '-' :: rest => .ok (true, rest)
  | '+' :: rest => .ok (false, rest)
  | cs => .ok (false, cs)

/-- The integer that a numeral stands for. -/
def readInteger (s : String) : Except Fault Int := do
  let (neg, cs) ← split s
  let n ← match cs with
    | [] => throw .scalarEmpty
    | ['0'] => pure 0
    | '0' :: 'b' :: ds => ofBase 2 ds
    | '0' :: 'x' :: ds => ofBase 16 ds
    | '0' :: ds => ofBase 8 ('0' :: ds)
    | cs =>
      if cs.contains ':' then do
        pure (ofSixties (← (groups cs).mapM (ofBase 10)))
      else ofBase 10 cs
  return if neg then -n else n

/-- A number with the sign in front of it. -/
def signed (neg : Bool) (x : Binary64) : Binary64 :=
  if neg then (Binary64.ofScaled true 1 0).mul x else x

def ofDecimal (cs : List Char) : Except Fault Binary64 :=
  match Decimal.readBinary64? (String.ofList cs) with
  | some x => .ok x
  | none => .error .scalarRange

/-- The sum of groups of base sixty, the lowest first; `weight` is that of the first group. -/
def sumSixties (weight : Int) (sum : Binary64) : List Binary64 → Except Fault Binary64
  | [] => .ok sum
  | d :: ds =>
    match Binary64.ofInt? weight with
    | some w => sumSixties (60 * weight) (sum.add (d.mul w)) ds
    | none => .error .numberTooLarge

/-- The floating-point number that a numeral stands for. -/
def readReal (s : String) : Except Fault Binary64 := do
  let (neg, cs) ← split s
  let cs := cs.map Char.toLower
  if cs == ".inf".toList then return signed neg (Binary64.infinity false)
  else if cs == ".nan".toList then return Binary64.undefinedResult
  else if cs.contains ':' then do
    let parts ← (groups cs).mapM ofDecimal
    return signed neg (← sumSixties 1 (Binary64.zero false) parts.reverse)
  else return signed neg (← ofDecimal cs)

end StackCalc.Yaml.Numeral
