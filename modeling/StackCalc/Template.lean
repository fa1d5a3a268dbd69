import StackCalc.Template.Tag
import StackCalc.Data.Basic

/-! # Templates

A template is text with variables and sections. A variable is replaced by what its key stands for. A
section is rendered once for each item of a list, once for anything else that is true, and not at all
otherwise; an inverted one just if the other is not. Keys are looked up in the data of the sections around,
the innermost first; a key with points leads from member to member. What is not found is an empty text, and
so is every other template that is to be included. A tag of any kind but a variable takes its line along if
it stands there alone.

All this is how pystache 0.6.8 renders. That package is not part of the development: the definitions here and
in `Template/Tag` restate what it does, and what is said about rendering rests on their being faithful. -/

namespace StackCalc.Template

/-- A piece of a template. -/
inductive Piece where
  | text (s : Text)
  | value (key : Text)
  | part (inverted : Bool) (key : Text) (body : List Piece)

/-- A section that has not been closed: how it began, and the pieces before it, the last one first. -/
structure Opened where
  inverted : Bool
  key : Text
  before : List Piece

/-- The state between two tags; pieces are in reverse. -/
structure Scan where
  delimiters : Delimiters
  /-- The character before. -/
  previous : Option CodePoint
  position : Nat
  opened : List Opened
  pieces : List Piece

/-! ### From text to pieces -/

def isLineEnd (c : CodePoint) : Bool := c == '\r' || c == '\n'

/-- Passes the end of a line. -/
def dropLineEnd : List CodePoint → List CodePoint
  | .char '\r' :: .char '\n' :: cs => cs
  | .char '\r' :: cs => cs
  | .char '\n' :: cs => cs
  | cs => cs

/-- Adds text, if there is any. -/
def addText (cs : List CodePoint) (ps : List Piece) : List Piece :=
  if cs.isEmpty then ps else .text ⟨cs⟩ :: ps

/-- The text of a tag. -/
def tagText (content : Text) : Text := "\x7b\x7b" ++ content ++ "\x7d\x7d"

/-- The fault of an end tag: a section of another name is open, or none that it could close has begun. -/
def mismatch (position : Nat) (key : Text) (opened : Option Text) : Fault :=
  let expected := match opened with
    | some other => "/" ++ other
    | none => "#" ++ key
  .badTemplate ("Section end tag mismatch at position " ++ toString position ++ ". Found " ++ tagText ("/" ++ key) ++
    ", expected " ++ tagText expected)

/-- The two delimiters that a tag sets. -/
def newDelimiters (key : List CodePoint) : Except Fault Delimiters :=
  match (Text.split (·.isIn Text.isBlank) ⟨key⟩).filter (· != ⟨[]⟩) with
  | a :: b :: _ => .ok ⟨a.codes, b.codes⟩
  | _ => .error .missingDelimiter

/-- What a tag does. -/
def applyTag (mark : Mark) (key : List CodePoint) (s : Scan) : Except Fault Scan :=
  let name : Text := ⟨key⟩
  match mark with
  | .value => .ok { s with pieces := .value name :: s.pieces }
  | .beginSection => .ok { s with opened := ⟨false, name, s.pieces⟩ :: s.opened, pieces := [] }
  | .inverted => .ok { s with opened := ⟨true, name, s.pieces⟩ :: s.opened, pieces := [] }
  | .endSection =>
    match s.opened with
    | o :: rest =>
      if o.key == name then
        .ok { s with opened := rest, pieces := .part o.inverted name s.pieces.reverse :: o.before }
      else .error (mismatch s.position name (some o.key))
    | [] => .error (mismatch s.position name none)
  | .comment | .inclusion => .ok s
  | .delimiters => do return { s with delimiters := ← newDelimiters key }

/-- Passes a tag and the text before it. -/
def passTag (f : Found) (length : Nat) (s : Scan) : Except Fault (Scan × List CodePoint) := do
  let begins := (f.before.getLast?.or s.previous).all isLineEnd
  let ends := f.after.head?.all isLineEnd
  let alone := begins && ends && !f.mark.isValue
  let after := if alone then dropLineEnd f.after else f.after
  let text := if alone then f.before else f.before ++ f.margin
  let last := if after.length < f.after.length then f.after[f.after.length - after.length - 1]?
    else s.delimiters.closing.getLast?
  let s ← applyTag f.mark f.key
    { s with previous := last, position := s.position + (length - after.length), pieces := addText text s.pieces }
  return (s, after)

/-- The pieces of a text; a section that is not closed is all there is. -/
def scan : Nat → Scan → List CodePoint → Except Fault (List Piece)
  | 0, s, _ => .ok s.pieces.reverse
  | fuel + 1, s, cs =>
    match findTag s.delimiters cs with
    | none => .ok (addText cs s.pieces).reverse
    | some f => do
      let (s, after) ← passTag f cs.length s
      scan fuel s after

/-- The pieces of a template. Each tag takes at least one character. -/
def parse (source : Text) : Except Fault (List Piece) :=
  scan (source.length + 1) ⟨.standard, none, 0, [], []⟩ source.codes

/-! ### Rendering -/

/-- A member of data, by name. -/
def member? (d : Data) (name : Text) : Option Data :=
  match d with
  | .map entries => Data.lookup? (.str name) entries
  | _ => none

/-- What a key stands for, with the innermost data first. -/
def lookup (stack : List Data) (key : Text) : Data :=
  let found : Option Data :=
    if key == "." then stack.head?
    else
      match key.split (· == '.') with
      | [] => none
      | first :: path => do path.foldlM member? (← stack.findSome? fun d => member? d first)
  found.getD (.str "")

/-- The data that a section is rendered for. -/
def occasions (d : Data) : List Data :=
  if !d.truthy then []
  else
    match d with
    | .list items | .tuple items | .subList _ items => items
    | d => [d]

mutual

/-- The text of a piece. -/
def Piece.render (stack : List Data) : Piece → Except Fault Text
  | .text s => .ok s
  | .value key => (lookup stack key).text
  | .part inverted key body =>
    let d := lookup stack key
    if inverted then (if d.truthy then .ok "" else renderAll stack body)
    else do
      let parts ← (occasions d).mapM fun item => renderAll (item :: stack) body
      return Text.join parts

def renderAll (stack : List Data) : List Piece → Except Fault Text
  | [] => .ok ""
  | p :: ps => do
    let first ← p.render stack
    return first ++ (← renderAll stack ps)

end

/-- Fills a template with data. -/
def render (source : Text) (context : List (Data × Data)) : Except Fault Text := do
  renderAll [.map context] (← parse source)

end StackCalc.Template
