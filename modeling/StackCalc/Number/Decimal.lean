import StackCalc.Number.Binary64
import StackCalc.Text.Class

/-! # Decimal notation of numbers

Writing a floating-point number has two stages. `shortest` selects digits: on the grids of one, two, … seventeen
digits it looks at the two neighbours of the value and takes the first that reads back to it, the nearer one of two,
the even one of a tie. A `Layout` lays the digits out. Reading goes the other way: `Literal.ofChars?` knows the
grammar, and `Binary64.ofDecimal` rounds.

Integers have no bound, but their decimal text has: numbers of more than `Integer.digitLimit` digits are neither
written nor read. -/

namespace StackCalc

/-- The value `digits · 10 ^ exponent`. -/
structure Decimal where
  digits : Nat
  exponent : Int
  deriving DecidableEq

namespace Decimal

/-- Compares `a · 10 ^ i` with `n · 2 ^ j`. -/
def compareBinary (a : Nat) (i : Int) (n : Nat) (j : Int) : Ordering :=
  compare ((a * Nat.pow 10 i.toNat) <<< (-j).toNat) (n <<< j.toNat * Nat.pow 10 (-i).toNat)

/-- The decimal lies among the reals that round to `m · 2 ^ q`: between the midpoints to its two
neighbours, which themselves belong to it if `m` is even. Below a power of two the gap is halved. -/
def readsBack (m : Nat) (q : Int) (d : Decimal) : Bool :=
  let narrow := m == Binary64.exponentWeight && q != Binary64.leastExponent
  let low := compareBinary d.digits d.exponent (if narrow then 4 * m - 1 else 4 * m - 2) (q - 2)
  let high := compareBinary d.digits d.exponent (4 * m + 2) (q - 2)
  let closed := m % 2 == 0
  (low == .gt || (closed && low == .eq)) && (high == .lt || (closed && high == .eq))

/-- The least `k ≥ start` with `m · 2 ^ q < 10 ^ k`, looked for in a few steps. -/
def scaleFrom (m : Nat) (q : Int) : Nat → Int → Int
  | 0, k => k
  | fuel + 1, k => if compareBinary 1 k m q == .gt then k else scaleFrom m q fuel (k + 1)

/-- The least `k` with `m · 2 ^ q < 10 ^ k`, for a positive value. -/
def scale (m : Nat) (q : Int) : Int :=
  scaleFrom m q 6 (((m.log2 : Int) + q) * 30103 / 100000 - 1)

/-- The best decimal of a grid that reads back to the value, if there is one. -/
def onGrid? (m : Nat) (q : Int) (grid : Int) : Option Decimal :=
  let num := m <<< q.toNat * Nat.pow 10 (-grid).toNat
  let den := Nat.pow 10 grid.toNat <<< (-q).toNat
  let below : Decimal := ⟨num / den, grid⟩
  let above : Decimal := ⟨num / den + 1, grid⟩
  match readsBack m q below, readsBack m q above with
  | true, true => some ⟨Binary64.divHalfEven num den, grid⟩
  | true, false => some below
  | false, true => some above
  | false, false => none

/-- The decimal without trailing zeros, as far as the fuel goes. -/
def strip : Nat → Decimal → Decimal
  | 0, d => d
  | fuel + 1, d =>
    if d.digits % 10 = 0 ∧ d.digits ≠ 0 then strip fuel ⟨d.digits / 10, d.exponent + 1⟩ else d

/-- Tries the grids of `n`, `n + 1`, … digits, `fuel` of them. -/
def search (m : Nat) (q k : Int) : Nat → Nat → Option Decimal
  | 0, _ => none
  | fuel + 1, n => (onGrid? m q (k - n)).or (search m q k fuel (n + 1))

/-- The fewest digits that read back to the positive value `m · 2 ^ q`, and of those the nearest. -/
def shortest (m : Nat) (q : Int) : Decimal :=
  match search m q (scale m q) 17 1 with
  | some d => strip 18 d
  | none => ⟨m <<< q.toNat * Nat.pow 5 (-q).toNat, min q 0⟩

/-! ### Layout -/

/-- How the digits of a number are laid out. -/
structure Layout where
  /-- The decimal point may stand at most this far left of the first digit … -/
  leastPoint : Int
  /-- … and at most this far right of it; outside, an exponent is written. -/
  greatestPoint : Int
  /-- A significand of one digit keeps its point before an exponent. -/
  pointBeforeExponent : Bool
  infinity : String
  notANumber : String

/-- Values in diagnostics and in expressions: positional from `0.0001` to below `10 ^ 16`, otherwise with
a signed exponent of at least two digits. -/
def Layout.plain : Layout := ⟨-3, 16, false, "inf", "nan"⟩

/-- The significand with its point, and the exponent if one is needed, for the digits `ds` with the point
`point` places to the right of the first. -/
def arrange (style : Layout) (ds : List Char) (point : Int) : List Char :=
  if style.leastPoint ≤ point ∧ point ≤ style.greatestPoint then
    if point ≤ 0 then '0' :: '.' :: (List.replicate (-point).toNat '0' ++ ds)
    else
      let n := point.toNat
      let whole := ds.take n ++ List.replicate (n - ds.length) '0'
      let rest := ds.drop n
      whole ++ '.' :: (if rest.isEmpty then ['0'] else rest)
  else
    let e := point - 1
    let digits := Nat.toDigits 10 e.natAbs
    let padded := if digits.length < 2 then '0' :: digits else digits
    let fraction := match ds.drop 1 with
      | [] => if style.pointBeforeExponent then ['.', '0'] else []
      | rest => '.' :: rest
    ds.take 1 ++ fraction ++ 'e' :: (if e < 0 then '-' else '+') :: padded

/-- The text of a number. -/
def render (style : Layout) (x : Binary64) : String :=
  match x.read with
  | .notANumber => style.notANumber
  | .infinite neg => (if neg then "-" else "") ++ style.infinity
  | .finite neg m q =>
    let body := if m = 0 then ['0', '.', '0'] else
      let d := shortest m q
      let ds := Nat.toDigits 10 d.digits
      arrange style ds (d.exponent + ds.length)
    (if neg then "-" else "") ++ String.ofList body

/-! ### Reading -/

/-- A decimal literal: sign, digits and power of ten. -/
structure Literal where
  negative : Bool
  digits : Nat
  exponent : Int

/-- The number a run of digits stands for. -/
def ofDigits (ds : List Char) : Nat :=
  ds.foldl (fun n c => 10 * n + (c.toNat - 48)) 0

/-- A sign in front of a text, if there is one. -/
def splitSign : List Char → Bool × List Char
  | '-' :: rest => (true, rest)
  | '+' :: rest => (false, rest)
  | rest => (false, rest)

/-- The exponent that ends a literal; nothing at all stands for zero. -/
def exponent? : List Char → Option Int
  | [] => some 0
  | c :: rest =>
    let (neg, ds) := splitSign rest
    if (c == 'e' || c == 'E') && !ds.isEmpty && ds.all Char.isDigit then
      some (if neg then -(ofDigits ds : Int) else ofDigits ds)
    else none

/-- A decimal literal of ASCII digits: a sign, digits with a point anywhere among them, an exponent. Only
the sign and the exponent may be left out, and the point if there is no fraction. -/
def Literal.ofChars? (s : List Char) : Option Literal :=
  let (neg, s) := splitSign s
  let whole := s.takeWhile Char.isDigit
  let (fraction, rest) := match s.dropWhile Char.isDigit with
    | '.' :: r => (r.takeWhile Char.isDigit, r.dropWhile Char.isDigit)
    | r => ([], r)
  if whole.isEmpty && fraction.isEmpty then none
  else (exponent? rest).map fun e => ⟨neg, ofDigits (whole ++ fraction), e - fraction.length⟩

def Literal.toBinary64 (l : Literal) : Binary64 := Binary64.ofDecimal l.negative l.digits l.exponent

/-- The text without its underscores, if each of them stands between two digits. -/
def dropUnderscores? (s : List Char) : Option (List Char) :=
  let rec go (afterDigit : Bool) : List Char → Option (List Char)
    | [] => some []
    | '_' :: c :: rest => if afterDigit && c.isDigit then (go true rest).map (c :: ·) else none
    | ['_'] => none
    | c :: rest => (go c.isDigit rest).map (c :: ·)
  go false s

/-- A text with the digits of all scripts made ASCII and wide spaces made blanks; none if it has another
character beyond ASCII. -/
def asciiNumber? (s : List Char) : Option (List Char) :=
  s.mapM fun c =>
    if c.toNat < 0x7F then some c
    else if Text.isWideSpace c then some ' '
    else (Text.digit? c).map Nat.digitChar

/-- The words for the values that have no digits. -/
def special? (s : List Char) : Option Binary64 :=
  let (neg, body) := splitSign s
  let word := String.ofList (body.map Char.toLower)
  if word = "inf" ∨ word = "infinity" then some (Binary64.infinity neg)
  else if word = "nan" then some (if neg then Binary64.quietNaN.neg else Binary64.quietNaN)
  else none

/-- Reads a number as the conversion to floating point does: blanks around it, digits of any script,
underscores between digits, and the words for infinity and not a number. -/
def readBinary64? (s : String) : Option Binary64 := do
  let ascii ← asciiNumber? s.toList
  let body ← dropUnderscores? (Text.trim Text.isNumberBlank ascii)
  (special? body).or ((Literal.ofChars? body).map Literal.toBinary64)

end Decimal

/-! ### Integers -/

namespace Integer

/-- The most digits an integer may have in decimal text. -/
def digitLimit : Nat := 4300

/-- The number has a text. -/
def hasText (n : Int) : Bool := decide (n.natAbs < Nat.pow 10 digitLimit)

/-- The decimal text of any integer. -/
def render (n : Int) : String :=
  if n < 0 then "-" ++ String.ofList (Nat.toDigits 10 n.natAbs) else String.ofList (Nat.toDigits 10 n.natAbs)

/-- The decimal text of an integer, within the limit. -/
def render? (n : Int) : Option String := if hasText n then some (render n) else none

/-- An integer of ASCII digits, with a sign; the flag tells that there are too many digits. -/
def ofChars? (s : List Char) : Option Int :=
  let (neg, ds) := Decimal.splitSign s
  if ds.isEmpty || !ds.all Char.isDigit then none
  else some (if neg then -(Decimal.ofDigits ds : Int) else Decimal.ofDigits ds)

/-- The digits of a text are within the limit. -/
def fits (s : List Char) : Bool := decide ((s.filter Char.isDigit).length ≤ digitLimit)

/-- Reads an integer as the conversion to an integer does: blanks around it, digits of any script and
underscores between digits. -/
def read? (s : String) : Option Int := do
  let ascii ← Decimal.asciiNumber? s.toList
  let body ← Decimal.dropUnderscores? (Text.trim Text.isNumberBlank ascii)
  if fits body then ofChars? body else none

end Integer

end StackCalc
