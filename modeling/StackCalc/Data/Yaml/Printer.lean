import StackCalc.Data.Basic
import StackCalc.Data.Yaml.Cursor
import StackCalc.Data.Yaml.Tag
import StackCalc.Text.Quoted

/-! # Writing data

Collections are written as blocks, two columns deeper at each level; a sequence that is the value of a key
stands at the column of the key. A scalar is plain if it can be and reads back as what it is, otherwise in
single quotes, and in double quotes if something has to be escaped, which is all that is not ASCII. Lines
are broken at blanks behind `lineWidth`. These are the choices of the safe dumper of PyYAML 6.0.3. -/

namespace StackCalc.Yaml

/-! ### Pages -/

/-- The column behind which a line is broken at the next chance. -/
def lineWidth : Nat := 80

/-- Text in the making, with what matters for what comes next: the column, whether a blank stands before it, whether
nothing but marks and blanks stands in its line, and whether the last text may be read on. -/
structure Page where
  text : String
  column : Nat
  /-- A blank, or the beginning of a line, stands before. -/
  spaced : Bool
  /-- Only marks and blanks stand in the line. -/
  leading : Bool
  /-- A plain scalar that no mark ends is the whole document. -/
  openEnded : Bool

namespace Page

def blank : Page := ⟨"", 0, true, true, false⟩

/-- Writes text within a line. -/
def write (cs : List Char) (p : Page) : Page :=
  { p with text := p.text ++ String.ofList cs, column := p.column + cs.length }

def newline (p : Page) : Page :=
  { p with text := p.text.push '\n', column := 0, spaced := true, leading := true }

/-- Text other than a mark follows. -/
def within (p : Page) : Page := { p with spaced := false, leading := false }

/-- Writes a mark; one that needs a blank before it gets it. -/
def mark (s : String) (needsBlank spaced leading : Bool) (p : Page) : Page :=
  let p' := p.write ((if p.spaced || !needsBlank then [] else [' ']) ++ s.toList)
  { p' with spaced := spaced, leading := p.leading && leading, openEnded := false }

/-- Goes to a column: in this line if there are but marks before it, else in the next. -/
def goTo (column : Nat) (p : Page) : Page :=
  let p' := if !p.leading || column < p.column || (p.column == column && !p.spaced) then p.newline else p
  if p'.column < column then { p'.write (List.replicate (column - p'.column) ' ') with spaced := true } else p'

end Page

/-! ### Which quotes a text needs -/

/-- What stands around a blank or a break decides how a text may be written. -/
structure Shape where
  /-- The text has a line break. -/
  multiline : Bool
  plain : Bool
  singleQuoted : Bool

namespace Shape

/-- The characters that are written as they are. -/
def isSimple (c : Char) : Bool := c == '\n' || (' ' ≤ c && c ≤ '~')

/-- Two neighbours in a text, somewhere. -/
def hasPair (p : Char → Char → Bool) : List Char → Bool
  | a :: b :: rest => p a b || hasPair p (b :: rest)
  | _ => false

/-- Marks that must not begin a plain scalar. -/
def isOpening (c : Char) : Bool := "#,[]\x7b\x7d&*!|>'\"%@".toList.contains c || c == '\x60'

/-- A text begins like something that is no plain scalar. -/
def beginsMarked : List Char → Bool
  | [] => false
  | c :: rest =>
    isOpening c || ((c == '?' || c == ':' || c == '-') && isGap rest.head?) ||
      (c :: rest).take 3 == ['-', '-', '-'] || (c :: rest).take 3 == ['.', '.', '.']

/-- A text has a colon that ends a key or a mark that begins a comment, behind its first character. -/
def hasMark (cs : List Char) : Bool :=
  hasPair (fun a b => a == ':' && isGap (some b)) (cs.drop 1) || (1 < cs.length && cs.getLast? == some ':') ||
    hasPair (fun a b => isGap (some a) && b == '#') cs

/-- The shape of a text. -/
def of (cs : List Char) : Shape :=
  if cs.isEmpty then ⟨false, true, true⟩
  else
    let multiline := cs.contains '\n'
    let outerGap := [cs.head?, cs.getLast?].any fun c => c == some ' ' || c == some '\n'
    let breakSpace := hasPair (fun a b => a == '\n' && b == ' ') cs
    let spaceBreak := hasPair (fun a b => a == ' ' && b == '\n') cs
    let quotable := cs.all isSimple && !breakSpace && !spaceBreak
    ⟨multiline, quotable && !multiline && !outerGap && !beginsMarked cs && !hasMark cs, quotable⟩

end Shape

/-! ### Scalars on the page -/

/-- What a run of characters is to the writer. -/
inductive RunKind where
  | word | blanks | breaks | quote
  deriving DecidableEq

def RunKind.of (c : Char) : RunKind :=
  if c == ' ' then .blanks else if c == '\n' then .breaks else if c == '\'' then .quote else .word

/-- The runs of a text; every quote is one by itself. -/
def runs : List Char → List (RunKind × List Char)
  | [] => []
  | c :: rest =>
    match runs rest with
    | (k, cs) :: more =>
      if k == .of c && k != .quote then (k, c :: cs) :: more else (.of c, [c]) :: (k, cs) :: more
    | [] => [(.of c, [c])]

/-- Writes the runs of a plain scalar; a single blank may be written as the break of a long line. -/
def writePlain (indent : Nat) (split : Bool) (cs : List Char) (p : Page) : Page :=
  let p := (if p.spaced then p else p.write [' ']).within
  (runs cs).foldl (fun p run =>
    if run.1 == .blanks && run.2.length == 1 && lineWidth < p.column && split then (p.goTo indent).within
    else p.write run.2) p

/-- Writes the runs of a scalar in single quotes. A break is written as one more than there are; the blanks
at either end are kept. -/
def writeSingleRuns (indent : Nat) (split : Bool) : Bool → List (RunKind × List Char) → Page → Page
  | _, [], p => p
  | first, (kind, cs) :: rest, p =>
    let p' := match kind with
      | .blanks =>
        if cs.length == 1 && lineWidth < p.column && split && !first && !rest.isEmpty then p.goTo indent
        else p.write cs
      | .breaks => ((cs.foldl (fun p _ => p.newline) p).newline).goTo indent
      | .quote => p.write ['\'', '\'']
      | .word => p.write cs
    writeSingleRuns indent split false rest p'

def writeSingleQuoted (indent : Nat) (split : Bool) (cs : List Char) (p : Page) : Page :=
  (writeSingleRuns indent split true (runs cs) (p.mark "'" true false false)).mark "'" false false false

/-- The letter of an escape that has one. -/
def escapeLetter? : Char → Option Char
  | '\x00' => some '0' | '\x07' => some 'a' | '\x08' => some 'b' | '\t' => some 't' | '\n' => some 'n'
  | '\x0b' => some 'v' | '\x0c' => some 'f' | '\r' => some 'r' | '\x1b' => some 'e' | '"' => some '"'
  | '\\' => some '\\' | '\x85' => some 'N' | '\u00a0' => some '_' | '\u2028' => some 'L' | '\u2029' => some 'P'
  | _ => none

def upperHex (width n : Nat) : List Char := (Text.hex width n).map Char.toUpper

/-- An escape. -/
def escaped (c : CodePoint) : List Char :=
  match c.char?.bind escapeLetter? with
  | some l => ['\\', l]
  | none =>
    if c.toNat ≤ 0xFF then '\\' :: 'x' :: upperHex 2 c.toNat
    else if c.toNat ≤ 0xFFFF then '\\' :: 'u' :: upperHex 4 c.toNat
    else '\\' :: 'U' :: upperHex 8 c.toNat

def needsEscape (c : Char) : Bool := c == '"' || c == '\\' || !(' ' ≤ c && c ≤ '~')

/-- The character that a code point is written as within double quotes, unless it is escaped. -/
def unescaped? : CodePoint → Option Char
  | .char c => if needsEscape c then none else some c
  | .half _ => none

/-- Breaks a line within double quotes; a blank that begins the next line is escaped. -/
def breakDouble (indent : Nat) (next : Option CodePoint) (p : Page) : Page :=
  let p := ((p.write ['\\']).goTo indent).within
  if next == some (.char ' ') then p.write ['\\'] else p

/-- Writes the code points of a scalar in double quotes; `pending` holds, in reverse, the characters that wait for
the next blank or escape. -/
def writeDoubleCodes (indent : Nat) (split : Bool) :
    (first : Bool) → (pending : List Char) → List CodePoint → Page → Page
  | _, pending, [], p => p.write pending.reverse
  | first, pending, c :: rest, p =>
    let mayBreak := split && !first && !rest.isEmpty
    match unescaped? c with
    | none =>
      let p := (p.write pending.reverse).write (escaped c)
      let p := if mayBreak && lineWidth + 1 < p.column then breakDouble indent rest.head? p else p
      writeDoubleCodes indent split false [] rest p
    | some ch =>
      if mayBreak && (ch == ' ' || pending.isEmpty) && lineWidth < p.column + pending.length then
        writeDoubleCodes indent split false [ch] rest (breakDouble indent (some c) (p.write pending.reverse))
      else writeDoubleCodes indent split false (ch :: pending) rest p

def writeDoubleQuoted (indent : Nat) (split : Bool) (s : Text) (p : Page) : Page :=
  (writeDoubleCodes indent split true [] s.codes (p.mark "\"" true false false)).mark "\"" false false false

/-- Writes a scalar in the plainest way that it can be read back from; `asIs` tells that its spelling alone
says what it is. A key stays on its line. Half of a pair shapes a text as any character does that is escaped. -/
def writeScalar (indent : Nat) (root key asIs : Bool) (s : Text) (p : Page) : Page :=
  let cs := s.blurred.toList
  let shape := Shape.of cs
  if asIs && shape.plain && !(key && cs.isEmpty) then
    { writePlain indent (!key) cs p with openEnded := p.openEnded || root }
  else if shape.singleQuoted && !(key && shape.multiline) then writeSingleQuoted indent (!key) cs p
  else writeDoubleQuoted indent (!key) s p

/-! ### Data on the page -/

/-- Numbers: positional from `0.0001` to below `10 ^ 16`, and with a point also before an exponent. -/
def numberLayout : Decimal.Layout := ⟨-3, 16, true, ".inf", ".nan"⟩

/-- The text of a scalar, and whether its spelling says what it is. Classes that are derived are refused. -/
def scalarText : Data → Except Fault (Text × Bool)
  | .int n => do return (← showInt n, true)
  | .float x => pure (Decimal.render numberLayout x, true)
  | .bool b => pure (if b then "true" else "false", true)
  | .str s => pure (s, Tag.ofPlain s.blurred == .str)
  | .subInt .. | .subFloat .. | .subStr .. | .subList .. => .error .badYaml
  | _ => pure ("null", true)

/-- The greatest length of a text that is a key on one line. -/
def keyWidth : Nat := 122

/-- A text can be a key on one line. -/
def isLineKey (s : Text) : Bool :=
  s != "" && (s.blurred.toList.all fun c => !isBreak c || c == '\r') && s.length ≤ keyWidth

/-- The column of a block within another. -/
def deeper : Option Nat → Nat
  | none => 0
  | some n => n + 2

/-- The column of the further lines of a scalar. -/
def scalarIndent : Option Nat → Nat
  | none => 2
  | some n => n + 2

mutual

/-- Writes data within a block at a column; `asValue` tells that it is the value of a key. -/
def writeData (indent : Option Nat) (asValue : Bool) (d : Data) (p : Page) : Except Fault Page :=
  match d with
  | .list [] | .tuple [] => pure ((p.mark "[" true true false).mark "]" false false false)
  | .map [] => pure ((p.mark "\x7b" true true false).mark "\x7d" false false false)
  | .list items | .tuple items =>
    let column := match indent with
      | some n => if asValue && !p.leading then n else n + 2
      | none => 0
    writeItems column items p
  | .map entries => writeEntries (deeper indent) entries p
  | d => do
    let (s, asIs) ← scalarText d
    return writeScalar (scalarIndent indent) indent.isNone false asIs s p

def writeItems (column : Nat) : List Data → Page → Except Fault Page
  | [], p => pure p
  | d :: ds, p => do
    let p ← writeData (some column) false d ((p.goTo column).mark "-" true false true)
    writeItems column ds p

def writeEntries (column : Nat) : List (Data × Data) → Page → Except Fault Page
  | [], p => pure p
  | (k, v) :: rest, p => do
    let (s, asIs) ← scalarText k
    let p := p.goTo column
    let p :=
      if isLineKey s then (writeScalar (column + 2) false true asIs s p).mark ":" false false false
      else
        let p := writeScalar (column + 2) false false asIs s (p.mark "?" true false true)
        (p.goTo column).mark ":" true false true
    let p ← writeData (some column) true v p
    writeEntries column rest p

end

/-- The text of data. -/
def write (d : Data) : Except Fault String := do
  let p := (← writeData none false d .blank).goTo 0
  if p.openEnded then return ((p.mark "..." true false false).goTo 0).text else return p.text

end StackCalc.Yaml
