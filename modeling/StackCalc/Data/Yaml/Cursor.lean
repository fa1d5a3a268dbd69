/-! # Places in a text

A cursor is what is left of a text, and where that is: the number of characters before it, and its line
and column. A line ends at any of five breaks; a carriage return before a line feed does not end one by
itself. The byte order mark takes no column.

The modules under `Yaml` restate what PyYAML 6.0.3 does with a text, from its reader up to the safe loader,
and with data, in the safe dumper. That package is not part of the development: what is said about YAML
rests on these definitions being faithful to it. -/

namespace StackCalc.Yaml

/-- The characters that end a line. -/
def isBreak (c : Char) : Bool :=
  c == '\n' || c == '\r' || c == '\x85' || c == '\u2028' || c == '\u2029'

/-- The end of the text or a break. -/
def endsLine : Option Char → Bool
  | none => true
  | some c => isBreak c

/-- The end of the text, a break or a blank. -/
def endsWord : Option Char → Bool
  | none => true
  | some c => isBreak c || c == ' '

/-- The end of the text, a break, a blank or a tab. -/
def isGap : Option Char → Bool
  | none => true
  | some c => isBreak c || c == ' ' || c == '\t'

/-- The characters that a text may hold. -/
def isAllowed (c : Char) : Bool :=
  let n := c.toNat
  n == 0x09 || n == 0x0A || n == 0x0D || (0x20 ≤ n && n ≤ 0x7E) || n == 0x85 || (0xA0 ≤ n && n ≤ 0xD7FF) ||
    (0xE000 ≤ n && n ≤ 0xFFFD) || 0x10000 ≤ n

/-- What is left of a text, and where. -/
structure Cursor where
  rest : List Char
  index : Nat
  line : Nat
  column : Nat
  deriving Inhabited

namespace Cursor

/-- The beginning of a text. -/
def start (text : List Char) : Cursor := ⟨text, 0, 0, 0⟩

def peek (c : Cursor) : Option Char := c.rest.head?

/-- The character so many places ahead. -/
def ahead (c : Cursor) (n : Nat) : Option Char := c.rest[n]?

/-- A character ends a line, given what follows it. -/
def breaksLine (ch : Char) (rest : List Char) : Bool :=
  isBreak ch && !(ch == '\r' && rest.head? == some '\n')

/-- Passes one character. -/
def advance (c : Cursor) : Cursor :=
  match c.rest with
  | [] => c
  | ch :: rest =>
    if breaksLine ch rest then ⟨rest, c.index + 1, c.line + 1, 0⟩
    else ⟨rest, c.index + 1, c.line, if ch == '\uFEFF' then c.column else c.column + 1⟩

/-- Passes so many characters. -/
def drop : Nat → Cursor → Cursor
  | 0, c => c
  | n + 1, c => drop n c.advance

/-- The characters of a class, and the place behind them. -/
def span (p : Char → Bool) (c : Cursor) : List Char × Cursor :=
  let taken := c.rest.takeWhile p
  (taken, drop taken.length c)

def skip (p : Char → Bool) (c : Cursor) : Cursor := (c.span p).2

def skipBlanks (c : Cursor) : Cursor := c.skip (· == ' ')

/-- Passes a comment up to the end of its line, if there is one. -/
def skipComment (c : Cursor) : Cursor :=
  if c.peek == some '#' then c.skip fun ch => !isBreak ch else c

/-- Passes one line break and tells what it stands for: the two separators for themselves, any other for a
line feed; nothing if there is none. -/
def takeBreak (c : Cursor) : List Char × Cursor :=
  match c.rest with
  | '\r' :: '\n' :: _ => (['\n'], drop 2 c)
  | ch :: _ =>
    if !isBreak ch then ([], c)
    else if ch == '\u2028' || ch == '\u2029' then ([ch], c.advance)
    else (['\n'], c.advance)
  | [] => ([], c)

/-- A mark that separates documents, at the beginning of a line. -/
def atSeparator (c : Cursor) : Bool :=
  (c.rest.take 3 == ['-', '-', '-'] || c.rest.take 3 == ['.', '.', '.']) && isGap (c.ahead 3)

end Cursor

end StackCalc.Yaml
