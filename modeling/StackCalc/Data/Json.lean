import StackCalc.Data.Basic

/-! # JSON

Data as JSON text. Writing escapes what the grammar demands and nothing else, on one line or indented by
two blanks a level; reading takes the same grammar with the three words for values that have no digits, and
of two members with one name the last. The reader works on the characters that are left and hands on the
rest; its fuel is the length of the text. -/

namespace StackCalc.Json

/-! ### Writing -/

/-- The words for values that have no digits. -/
def numberLayout : Decimal.Layout := { Decimal.Layout.plain with infinity := "Infinity", notANumber := "NaN" }

/-- One character of a text. -/
def escapeChar (c : Char) : List Char :=
  if c == '"' || c == '\\' then ['\\', c]
  else if c == '\n' then ['\\', 'n']
  else if c == '\r' then ['\\', 'r']
  else if c == '\t' then ['\\', 't']
  else if c == '\x08' then ['\\', 'b']
  else if c == '\x0c' then ['\\', 'f']
  else if c.toNat < 0x20 then '\\' :: 'u' :: Text.hex 4 c.toNat
  else [c]

/-- One code point of a text. Half of a pair stands for itself. -/
def escapeCode : CodePoint → List CodePoint
  | .char c => (escapeChar c).map .char
  | .half i => [.half i]

/-- A text in quotes. -/
def writeText (s : Text) : Text := "\"" ++ ⟨s.codes.flatMap escapeCode⟩ ++ "\""

/-- Where a list or an object is broken into lines: at the given depth, or not at all. -/
inductive Breaking where
  | flat
  | indented (depth : Nat)

namespace Breaking

def deeper : Breaking → Breaking
  | flat => flat
  | indented n => indented (n + 1)

def newline (n : Nat) : Text := "\n" ++ Text.ofChars (List.replicate (2 * n) ' ')

/-- Puts items between brackets. -/
def wrap (b : Breaking) (left right : Text) (items : List Text) : Text :=
  if items.isEmpty then left ++ right
  else
    match b with
    | flat => left ++ Text.intercalate ", " items ++ right
    | indented n =>
      left ++ newline (n + 1) ++ Text.intercalate ("," ++ newline (n + 1)) items ++ newline n ++ right

end Breaking

mutual

/-- The text of data. -/
def write (b : Breaking) : Data → Except Fault Text
  | .int n | .subInt _ n => showInt n
  | .float x | .subFloat _ x => pure (Decimal.render numberLayout x)
  | .str s | .subStr _ s => pure (writeText s)
  | .bool v => pure (if v then "true" else "false")
  | .list items | .tuple items | .subList _ items => do return b.wrap "[" "]" (← writeAll b.deeper items)
  | .map entries => do return b.wrap "\x7b" "\x7d" (← writeEntries b.deeper entries)
  | _ => pure "null"

def writeAll (b : Breaking) : List Data → Except Fault (List Text)
  | [] => pure []
  | d :: ds => do
    let first ← write b d
    return first :: (← writeAll b ds)

def writeEntries (b : Breaking) : List (Data × Data) → Except Fault (List Text)
  | [] => pure []
  | (k, v) :: rest => do
    let key ← write b k
    let value ← write b v
    return (key ++ ": " ++ value) :: (← writeEntries b rest)

end

/-! ### Reading -/

/-- The blanks between tokens. -/
def isSpace (c : Char) : Bool := c == ' ' || c == '\t' || c == '\n' || c == '\r'

def skipSpace (cs : List CodePoint) : List CodePoint := cs.dropWhile (·.isIn isSpace)

/-- Four digits of base sixteen. -/
def hex4? : List CodePoint → Option (Nat × List CodePoint)
  | .char a :: .char b :: .char c :: .char d :: rest => do
    let w ← Text.hexDigit? a
    let x ← Text.hexDigit? b
    let y ← Text.hexDigit? c
    let z ← Text.hexDigit? d
    return (4096 * w + 256 * x + 16 * y + z, rest)
  | _ => none

/-- The character for an escape of one letter. -/
def simpleEscape? : Char → Option Char
  | '"' => some '"' | '\\' => some '\\' | '/' => some '/' | 'b' => some '\x08' | 'f' => some '\x0c'
  | 'n' => some '\n' | 'r' => some '\r' | 't' => some '\t' | _ => none

/-- The code point of a numbered escape; two halves of a pair that are escaped one after the other make one. -/
def numberedEscape? (cs : List CodePoint) : Option (CodePoint × List CodePoint) := do
  let (n, rest) ← hex4? cs
  if 0xD800 ≤ n ∧ n < 0xDC00 then
    match rest with
    | .char '\\' :: .char 'u' :: more =>
      match hex4? more with
      | some (m, rest') =>
        if 0xDC00 ≤ m ∧ m < 0xE000 then
          return (.ofNat (0x10000 + (n - 0xD800) * 1024 + (m - 0xDC00)), rest')
        else return (.ofNat n, rest)
      | none => return (.ofNat n, rest)
    | _ => return (.ofNat n, rest)
  else return (.ofNat n, rest)

/-- The code points of a text up to its closing quote. -/
def textBody : Nat → List CodePoint → List CodePoint → Except Fault (Text × List CodePoint)
  | 0, _, _ => .error .badJson
  | fuel + 1, done, cs =>
    match cs with
    | [] => .error .badJson
    | .char '"' :: rest => .ok (⟨done.reverse⟩, rest)
    | .char '\\' :: .char 'u' :: rest =>
      match numberedEscape? rest with
      | some (c, rest') => textBody fuel (c :: done) rest'
      | none => .error .badJson
    | .char '\\' :: .char e :: rest =>
      match simpleEscape? e with
      | some c => textBody fuel (.char c :: done) rest
      | none => .error .badJson
    | c :: rest => if c.toNat < 0x20 || c == '\\' then .error .badJson else textBody fuel (c :: done) rest

/-- The longest number at the front, and whether it is an integer. -/
def number? (cs : List Char) : Option (List Char × Bool) :=
  let (sign, body) := match cs with
    | '-' :: rest => (['-'], rest)
    | rest => ([], rest)
  let whole := match body with
    | '0' :: _ => ['0']
    | body => body.takeWhile Char.isDigit
  if whole.isEmpty then none
  else
    let afterWhole := body.drop whole.length
    let fraction := match afterWhole with
      | '.' :: rest =>
        let ds := rest.takeWhile Char.isDigit
        if ds.isEmpty then [] else '.' :: ds
      | _ => []
    let afterFraction := afterWhole.drop fraction.length
    let exponent := match afterFraction with
      | e :: rest =>
        if e == 'e' || e == 'E' then
          let mark := match rest with
            | '+' :: _ => ['+']
            | '-' :: _ => ['-']
            | _ => []
          let ds := (rest.drop mark.length).takeWhile Char.isDigit
          if ds.isEmpty then [] else e :: mark ++ ds
        else []
      | _ => []
    some (sign ++ whole ++ fraction ++ exponent, fraction.isEmpty && exponent.isEmpty)

/-- The value of a number token. -/
def numberData (text : List Char) (integral : Bool) : Except Fault Data :=
  if integral then
    match Integer.ofChars? text with
    | some n => if Integer.fits text then .ok (.int n) else .error .tooManyDigits
    | none => .error .badJson
  else
    match Decimal.Literal.ofChars? text with
    | some l => .ok (.float l.toBinary64)
    | none => .error .badJson

/-- The words of the grammar. -/
def words : List (String × Data) :=
  [("null", .null), ("true", .bool true), ("false", .bool false), ("NaN", .float Binary64.quietNaN),
    ("Infinity", .float (Binary64.infinity false)), ("-Infinity", .float (Binary64.infinity true))]

/-- The characters up to the first half of a pair. -/
def characters : List CodePoint → List Char
  | .char c :: rest => c :: characters rest
  | _ => []

/-- A word or a number. -/
def scalar (cs : List CodePoint) : Except Fault (Data × List CodePoint) :=
  match words.find? fun w => w.1.toList.isPrefixOf (characters cs) with
  | some (w, d) => .ok (d, cs.drop w.length)
  | none =>
    match number? (characters cs) with
    | some (text, integral) => do return (← numberData text integral, cs.drop text.length)
    | none => .error .badJson

mutual

/-- A value at the front of a text. -/
def value : Nat → List CodePoint → Except Fault (Data × List CodePoint)
  | 0, _ => .error .badJson
  | fuel + 1, cs =>
    match cs with
    | .char '"' :: rest => do
      let (s, rest') ← textBody rest.length.succ [] rest
      return (.str s, rest')
    | .char '[' :: rest =>
      match skipSpace rest with
      | .char ']' :: rest' => .ok (.list [], rest')
      | rest' => items fuel [] rest'
    | .char '\x7b' :: rest =>
      match skipSpace rest with
      | .char '\x7d' :: rest' => .ok (.map [], rest')
      | rest' => members fuel [] rest'
    | cs => scalar cs

/-- The items of a list, from an item on. -/
def items : Nat → List Data → List CodePoint → Except Fault (Data × List CodePoint)
  | 0, _, _ => .error .badJson
  | fuel + 1, done, cs => do
    let (d, rest) ← value fuel cs
    match skipSpace rest with
    | .char ']' :: rest' => return (.list (d :: done).reverse, rest')
    | .char ',' :: rest' => items fuel (d :: done) (skipSpace rest')
    | _ => throw .badJson

/-- The members of an object, from a name on. -/
def members : Nat → List (Data × Data) → List CodePoint → Except Fault (Data × List CodePoint)
  | 0, _, _ => .error .badJson
  | fuel + 1, done, cs => do
    match cs with
    | .char '"' :: rest =>
      let (name, rest') ← textBody rest.length.succ [] rest
      match skipSpace rest' with
      | .char ':' :: rest'' =>
        let (d, more) ← value fuel (skipSpace rest'')
        let done' := Data.insert (.str name) d done
        match skipSpace more with
        | .char '\x7d' :: more' => return (.map done', more')
        | .char ',' :: more' => members fuel done' (skipSpace more')
        | _ => throw .badJson
      | _ => throw .badJson
    | _ => throw .badJson

end

/-- Reads a whole text. -/
def read (s : Text) : Except Fault Data := do
  let cs := s.codes
  let (d, rest) ← value (2 * cs.length + 2) (skipSpace cs)
  if (skipSpace rest).isEmpty then return d else throw .badJson

end StackCalc.Json
