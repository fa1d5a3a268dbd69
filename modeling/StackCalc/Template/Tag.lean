import StackCalc.Text.Basic
import StackCalc.Text.Class

/-! # Tags in a template

A tag stands between delimiters, which a tag can change. Behind the opening delimiter a mark may tell what
kind of tag it is; then comes the key. Blanks around mark and key do not count, but a key is never empty:
it takes blanks, or even the closing delimiter of its own tag, if nothing else is there, as long as the tag
is closed further on. So all ways to read a tag are tried in a fixed order: the longest run of blanks first,
the shortest key that a closing delimiter follows. The order restates the backtracking of the expression by
which pystache 0.6.8 finds a tag. -/

namespace StackCalc.Template

/-- What opens and closes a tag. -/
structure Delimiters where
  opening : List CodePoint
  closing : List CodePoint

def Delimiters.standard : Delimiters := ⟨[.char '\x7b', .char '\x7b'], [.char '\x7d', .char '\x7d']⟩

/-- What a tag is for. -/
inductive Mark where
  | value | beginSection | inverted | endSection | comment | inclusion | delimiters
  deriving DecidableEq

namespace Mark

/-- The characters that mark a tag. A variable may be marked as one that is not escaped, which makes no
difference. -/
def ofChar? : Char → Option Mark
  | '!' => some comment
  | '>' => some inclusion
  | '&' => some value
  | '/' => some endSection
  | '#' => some beginSection
  | '^' => some inverted
  | _ => none

/-- The other tags leave nothing where they stand, and take an empty line along. -/
def isValue (m : Mark) : Bool := m == value

end Mark

/-- What follows a literal at the front of a text. -/
def strip? : List CodePoint → List CodePoint → Option (List CodePoint)
  | [], rest => some rest
  | c :: cs, d :: ds => if c == d then strip? cs ds else none
  | _ :: _, [] => none

/-- What follows the end of a tag: blanks, a last character if there is one, and the delimiter. -/
def close? (d : Delimiters) (last : Option Char) (cs : List CodePoint) : Option (List CodePoint) :=
  let cs := cs.dropWhile (·.isIn Text.isBlank)
  match last with
  | none => strip? d.closing cs
  | some c => (strip? [.char c] cs).bind fun cs => strip? d.closing (cs.dropWhile (·.isIn Text.isBlank))

/-- The shortest key that the end of a tag follows, and what comes behind; some keys stay on one line. -/
def shortestKey (line : Bool) (closed : List CodePoint → Option (List CodePoint)) :
    List CodePoint → Option (List CodePoint × List CodePoint)
  | [] => none
  | c :: cs =>
    if line && c == '\n' then none
    else
      match closed cs with
      | some rest => some ([c], rest)
      | none => (shortestKey line closed cs).map fun k => (c :: k.1, k.2)

/-- Tries a reading behind blanks, the longest run of them first. -/
def behindBlanks {α : Type} (read : List CodePoint → Option α) : List CodePoint → Option α
  | [] => read []
  | c :: cs =>
    if c.isIn Text.isBlank then (behindBlanks read cs).or (read (c :: cs)) else read (c :: cs)

/-- A key, behind blanks. -/
def key? (d : Delimiters) (line : Bool) (last : Option Char) (cs : List CodePoint) :
    Option (List CodePoint × List CodePoint) :=
  behindBlanks (shortestKey line (close? d last)) cs

/-- A tag between two characters of its own: new delimiters between equal signs, a variable in braces. -/
def enclosed? (d : Delimiters) : List CodePoint → Option (Mark × List CodePoint × List CodePoint)
  | .char '=' :: cs => (key? d true (some '=') cs).map fun k => (.delimiters, k)
  | .char '\x7b' :: cs => (key? d true (some '\x7d') cs).map fun k => (.value, k)
  | _ => none

/-- A tag with a mark. -/
def marked? (d : Delimiters) : List CodePoint → Option (Mark × List CodePoint × List CodePoint)
  | .char c :: cs => (Mark.ofChar? c).bind fun m => (key? d false none cs).map fun k => (m, k)
  | _ => none

/-- The rest of a tag behind its opening delimiter: its mark, its key, and what follows it. -/
def body? (d : Delimiters) : List CodePoint → Option (Mark × List CodePoint × List CodePoint) :=
  behindBlanks fun cs =>
    (enclosed? d cs).or ((marked? d cs).or ((key? d false none cs).map fun k => (.value, k)))

/-- A tag in a text, and what stands around it. -/
structure Found where
  before : List CodePoint
  /-- The blanks and tabs in front of the tag. -/
  margin : List CodePoint
  mark : Mark
  key : List CodePoint
  after : List CodePoint

/-- The first tag of a text. -/
def findTag (d : Delimiters) : List CodePoint → Option Found
  | [] => none
  | c :: cs =>
    let margin := (c :: cs).takeWhile fun c : CodePoint => c == ' ' || c == '\t'
    match (strip? d.opening ((c :: cs).drop margin.length)).bind (body? d) with
    | some (mark, key, after) => some ⟨[], margin, mark, key, after⟩
    | none => (findTag d cs).map fun f => { f with before := c :: f.before }

end StackCalc.Template
