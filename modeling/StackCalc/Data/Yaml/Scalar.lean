import StackCalc.Data.Yaml.Cursor
import StackCalc.Text.Class
import StackCalc.Fault

/-! # Scalars as they are spelled

A scalar is written plainly, between quotes, or as a block of lines under a header. Each function here
reads one at a cursor and answers its text and the place behind it. Line breaks inside a plain or a quoted
scalar are folded: one break alone is a blank, of several the first is dropped. The rules restate the scanner
of PyYAML 6.0.3. -/

namespace StackCalc.Yaml

/-- A line break within a scalar, and the empty lines behind it. -/
def foldBreak (first empties : List Char) : List Char :=
  if first != ['\n'] then first ++ empties
  else if empties.isEmpty then [' ']
  else empties

/-! ### Plain scalars -/

/-- The characters that separate the members of a collection in brackets. -/
def isFlowMark (c : Char) : Bool := c == ',' || c == '[' || c == ']' || c == '\x7b' || c == '\x7d'

/-- The run of characters of a plain scalar: up to a gap, or a colon that ends a key, and between brackets
also up to a mark of the collection. -/
def plainRun (flow : Bool) : List Char → List Char
  | [] => []
  | c :: rest =>
    if isGap (some c) then []
    else if c == ':' && (isGap rest.head? || (flow && (rest.head?.any isFlowMark))) then []
    else if flow && (isFlowMark c || c == '?') then []
    else c :: plainRun flow rest

/-- The empty lines behind a break in a plain scalar; none if a separator of documents follows. -/
def plainEmpties : Nat → List Char → Cursor → Option (List Char) × Cursor
  | 0, done, c => (some done, c)
  | fuel + 1, done, c =>
    match c.peek with
    | some ' ' => plainEmpties fuel done c.advance
    | some ch =>
      if isBreak ch then
        let (b, c') := c.takeBreak
        if c'.atSeparator then (none, c') else plainEmpties fuel (done ++ b) c'
      else (some done, c)
    | none => (some done, c)

/-- The gap between two runs of a plain scalar, and whether it crosses a line. -/
def plainGap (c : Cursor) : Option (List Char) × Bool × Cursor :=
  let (blanks, c') := c.span (· == ' ')
  match c'.takeBreak with
  | ([], _) => (some blanks, false, c')
  | (b, c'') =>
    if c''.atSeparator then (none, true, c'')
    else
      let (empties, c''') := plainEmpties c''.rest.length [] c''
      (empties.map (foldBreak b), true, c''')

/-- The runs of a plain scalar and the gaps between them. -/
def plainRuns (flow : Bool) (indent : Int) : Nat → List Char → Cursor → List Char × Bool × Cursor
  | 0, done, c => (done, false, c)
  | fuel + 1, done, c =>
    let run := plainRun flow c.rest
    let (gap, crossed, c') := plainGap (c.drop run.length)
    let stop := (done ++ run, crossed, c')
    match gap with
    | none | some [] => stop
    | some gap =>
      if c'.peek == some '#' || (!flow && (c'.column : Int) < indent) || (plainRun flow c'.rest).isEmpty then stop
      else plainRuns flow indent fuel (done ++ run ++ gap) c'

/-- A plain scalar: its text, whether a line was crossed behind it, and the place there. In a block its
further lines stand at least at the given column. -/
def plainScalar (flow : Bool) (indent : Int) (c : Cursor) : String × Bool × Cursor :=
  let (text, crossed, c') := plainRuns flow indent c.rest.length [] c
  (String.ofList text, crossed, c')

/-! ### Quoted scalars -/

/-- The character for an escape of one letter. -/
def letterEscape? : Char → Option Char
  | '0' => some '\x00' | 'a' => some '\x07' | 'b' => some '\x08' | 't' => some '\t' | '\t' => some '\t'
  | 'n' => some '\n' | 'v' => some '\x0b' | 'f' => some '\x0c' | 'r' => some '\r' | 'e' => some '\x1b'
  | ' ' => some ' ' | '"' => some '"' | '\\' => some '\\' | '/' => some '/' | 'N' => some '\x85'
  | '_' => some '\u00a0' | 'L' => some '\u2028' | 'P' => some '\u2029' | _ => none

/-- The number of digits of a numbered escape. -/
def escapeWidth? : Char → Option Nat
  | 'x' => some 2 | 'u' => some 4 | 'U' => some 8 | _ => none

/-- The number that digits of base sixteen stand for. -/
def hexNumber? (ds : List Char) : Option Nat :=
  ds.foldlM (fun n c => (Text.hexDigit? c).map (16 * n + ·)) 0

/-- The code point with a number. -/
def numberedCode (n : Nat) : Except Fault CodePoint :=
  if 0x80000000 ≤ n then .error .numberTooLarge
  else if 0x10FFFF < n then .error .scalarRange
  else .ok (.ofNat n)

/-- The empty lines behind a break in a quoted scalar, which no separator of documents may interrupt. -/
def quotedEmpties : Nat → List Char → Cursor → Except Fault (List Char × Cursor)
  | 0, done, c => .ok (done, c)
  | fuel + 1, done, c =>
    if c.atSeparator then .error .badYaml
    else
      let c' := c.skip fun ch => ch == ' ' || ch == '\t'
      match c'.takeBreak with
      | ([], _) => .ok (done, c')
      | (b, c'') => quotedEmpties fuel (done ++ b) c''

/-- A gap in a quoted scalar: blanks, or a break with what surrounds it. -/
def quotedGap (c : Cursor) : Except Fault (List Char × Cursor) := do
  let (blanks, c') := c.span fun ch => ch == ' ' || ch == '\t'
  match c'.takeBreak with
  | ([], _) => if c'.rest.isEmpty then throw .badYaml else return (blanks, c')
  | (b, c'') => do
    let (empties, c''') ← quotedEmpties (c''.rest.length + 1) [] c''
    return (foldBreak b empties, c''')

/-- What stands behind a backslash, and the text it stands for. -/
def escape (c : Cursor) : Except Fault (List CodePoint × Cursor) := do
  let some ch := c.peek | throw .badYaml
  if let some e := letterEscape? ch then return ([.char e], c.advance)
  if let some width := escapeWidth? ch then
    let ds := c.advance.rest.take width
    let some n := hexNumber? ds | throw .badYaml
    if ds.length < width then throw .badYaml
    return ([← numberedCode n], c.drop (width + 1))
  if isBreak ch then
    let c' := c.takeBreak.2
    let (empties, c'') ← quotedEmpties (c'.rest.length + 1) [] c'
    return (empties.map .char, c'')
  else throw .badYaml

/-- The text up to the closing quote, in reverse, and the place behind it. -/
def quotedText (double : Bool) : Nat → List CodePoint → Cursor → Except Fault (List CodePoint × Cursor)
  | 0, _, _ => .error .badYaml
  | fuel + 1, done, c =>
    match c.peek with
    | none => .error .badYaml
    | some ch =>
      if isGap (some ch) then do
        let (gap, c') ← quotedGap c
        quotedText double fuel ((gap.map .char).reverseAux done) c'
      else if ch == '\'' && !double then
        if c.ahead 1 == some '\'' then quotedText double fuel (.char '\'' :: done) (c.drop 2)
        else .ok (done, c.advance)
      else if ch == '"' && double then .ok (done, c.advance)
      else if ch == '\\' && double then do
        let (text, c') ← escape c.advance
        quotedText double fuel (text.reverseAux done) c'
      else quotedText double fuel (.char ch :: done) c.advance

/-- A scalar in quotes. -/
def quotedScalar (double : Bool) (c : Cursor) : Except Fault (Text × Cursor) := do
  let (text, c') ← quotedText double (c.rest.length + 1) [] c.advance
  return (⟨text.reverse⟩, c')

/-! ### Block scalars -/

/-- What becomes of the line breaks at the end of a block scalar. -/
inductive Chomping where
  | clip | strip | keep
  deriving DecidableEq

def Chomping.ofMark? : Option Char → Option Chomping
  | some '+' => some .keep
  | some '-' => some .strip
  | _ => none

/-- A digit in the header of a block scalar tells its indentation; zero is refused. -/
def blockIncrement (c : Cursor) : Except Fault (Option Nat × Cursor) :=
  match c.peek.bind Text.asciiDigit? with
  | some 0 => .error .badYaml
  | some n => .ok (some n, c.advance)
  | none => .ok (none, c)

/-- The header of a block scalar: an end mark and a digit in either order, then nothing but a comment. -/
def blockHeader (c : Cursor) : Except Fault (Chomping × Option Nat × Cursor) := do
  let (mark, increment, c') ← match Chomping.ofMark? c.peek with
    | some m => do
      let (n, c') ← blockIncrement c.advance
      pure (some m, n, c')
    | none => do
      let (n, c') ← blockIncrement c
      match n, Chomping.ofMark? c'.peek with
      | some n, some m => pure (some m, some n, c'.advance)
      | n, _ => pure (none, n, c')
  if !endsWord c'.peek then throw .badYaml
  let c'' := c'.skipBlanks.skipComment
  if !endsLine c''.peek then throw .badYaml
  return (mark.getD .clip, increment, c''.takeBreak.2)

/-- The empty lines in front of a block scalar, and the widest indentation met. -/
def blockLead : Nat → List Char → Nat → Cursor → List Char × Nat × Cursor
  | 0, done, widest, c => (done, widest, c)
  | fuel + 1, done, widest, c =>
    if c.peek == some ' ' then blockLead fuel done (max widest c.advance.column) c.advance
    else
      match c.takeBreak with
      | ([], _) => (done, widest, c)
      | (b, c') => blockLead fuel (done ++ b) widest c'

/-- Passes blanks up to a column. -/
def skipIndent (indent : Int) : Nat → Cursor → Cursor
  | 0, c => c
  | fuel + 1, c =>
    if (c.column : Int) < indent && c.peek == some ' ' then skipIndent indent fuel c.advance else c

/-- The empty lines before the next line of a block scalar. -/
def blockEmpties (indent : Int) : Nat → List Char → Cursor → List Char × Cursor
  | 0, done, c => (done, c)
  | fuel + 1, done, c =>
    let c' := skipIndent indent c.rest.length c
    match c'.takeBreak with
    | ([], _) => (done, c')
    | (b, c'') => blockEmpties indent fuel (done ++ b) c''

/-- The lines of a block scalar: its text, its last line break, and the empty lines behind it. In a folded
scalar a break between two lines that do not begin with a blank is folded. -/
def blockLines (folded : Bool) (indent : Int) : Nat → List Char → List Char → Cursor →
    List Char × List Char × List Char × Cursor
  | 0, done, empties, c => (done, [], empties, c)
  | fuel + 1, done, empties, c =>
    if (c.column : Int) == indent && !c.rest.isEmpty then
      let starts (c : Cursor) : Bool := c.peek == some ' ' || c.peek == some '\t'
      let (line, ending) := c.span fun ch => !isBreak ch
      let (b, after) := ending.takeBreak
      let (gap, next) := blockEmpties indent (after.rest.length + 1) [] after
      let text := done ++ empties ++ line
      if (next.column : Int) == indent && !next.rest.isEmpty then
        let joint :=
          if folded && b == ['\n'] && !starts c && !starts next then (if gap.isEmpty then [' '] else []) else b
        blockLines folded indent fuel (text ++ joint) gap next
      else (text, b, gap, next)
    else (done, [], empties, c)

/-- A block scalar; its lines stand deeper than the given column. -/
def blockScalar (folded : Bool) (outer : Int) (c : Cursor) : Except Fault (String × Cursor) := do
  let (chomping, increment, c') ← blockHeader c.advance
  let least := max (outer + 1) 1
  let fuel := c'.rest.length + 1
  let (indent, empties, c'') := match increment with
    | some n =>
      let indent := least + n - 1
      let (empties, c'') := blockEmpties indent fuel [] c'
      (indent, empties, c'')
    | none =>
      let (empties, widest, c'') := blockLead fuel [] 0 c'
      (max least widest, empties, c'')
  let (text, last, empties, rest) := blockLines folded indent fuel [] empties c''
  let tail := match chomping with
    | .strip => []
    | .clip => last
    | .keep => last ++ empties
  return (String.ofList (text ++ tail), rest)

end StackCalc.Yaml
