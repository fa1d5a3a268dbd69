import StackCalc.Data.Yaml.Scalar
import StackCalc.Number.Decimal

/-! # Tokens

The pieces that a text falls into. Some have no characters of their own: a mapping or a sequence in a block
begins and ends by its indentation, and a key is marked in front once its colon has been found. Which tokens
there are, and where they begin, is as in the scanner of PyYAML 6.0.3. -/

namespace StackCalc.Yaml

/-- A token. -/
inductive Token where
  -- directives
  | version (major : Nat)
  | shorthand (handle expansion : String)
  | otherDirective
  -- documents
  | documentStart | documentEnd | streamEnd
  -- collections in a block
  | sequenceStart | mappingStart | blockEnd | entry
  -- collections in brackets
  | squareOpen | squareClose | curlyOpen | curlyClose | comma
  -- members of a mapping
  | key | value
  -- nodes
  | alias (name : String)
  | anchor (name : String)
  | tag (handle : Option String) (suffix : String)
  | scalar (text : Text) (plain : Bool)
  deriving DecidableEq

/-! ### Names and tags -/

/-- The characters of a name: letters, digits, the hyphen and the underscore. -/
def isNameChar (c : Char) : Bool := c.isAlphanum || c == '-' || c == '_'

/-- The characters of a tag, the percent sign for escapes among them. -/
def isTagChar (c : Char) : Bool := c.isAlphanum || "-;/?:@&=+$,_.!~*'()[]%".toList.contains c

/-- What may stand behind the name of an anchor. -/
def endsAnchor : Option Char → Bool
  | none => true
  | some c => isGap (some c) || "?:,]\x7d%@".toList.contains c || c == '\x60'

/-- The name of an anchor or an alias, behind its mark. -/
def anchorName (c : Cursor) : Except Fault (String × Cursor) :=
  let (name, c') := c.advance.span isNameChar
  if name.isEmpty || !endsAnchor c'.peek then .error .badYaml else .ok (String.ofList name, c')

/-- The bytes of a run of numbered escapes in a tag. -/
def escapedBytes : Nat → List UInt8 → Cursor → Except Fault (List UInt8 × Cursor)
  | 0, done, c => .ok (done, c)
  | fuel + 1, done, c =>
    if c.peek != some '%' then .ok (done, c)
    else
      match (c.ahead 1).bind Text.hexDigit?, (c.ahead 2).bind Text.hexDigit? with
      | some a, some b => escapedBytes fuel (done ++ [UInt8.ofNat (16 * a + b)]) (c.drop 3)
      | _, _ => .error .badYaml

/-- The text of a tag, in reverse; it may not be empty. -/
def tagChars : Nat → List Char → Cursor → Except Fault (List Char × Cursor)
  | 0, _, _ => .error .badYaml
  | fuel + 1, done, c =>
    match c.peek with
    | some '%' => do
      let (bytes, c') ← escapedBytes c.rest.length [] c
      match String.fromUTF8? ⟨bytes.toArray⟩ with
      | some s => tagChars fuel (s.toList.reverseAux done) c'
      | none => throw .badYaml
    | some ch =>
      if isTagChar ch then tagChars fuel (ch :: done) c.advance
      else if done.isEmpty then .error .badYaml else .ok (done, c)
    | none => if done.isEmpty then .error .badYaml else .ok (done, c)

def tagText (c : Cursor) : Except Fault (String × Cursor) := do
  let (text, c') ← tagChars (c.rest.length + 1) [] c
  return (String.ofList text.reverse, c')

/-- A handle: one exclamation mark, or a name between two. -/
def tagHandle (c : Cursor) : Except Fault (String × Cursor) :=
  if c.peek != some '!' then .error .badYaml
  else if c.ahead 1 == some ' ' then .ok ("!", c.advance)
  else
    let (name, c') := c.advance.span isNameChar
    if c'.peek == some '!' then .ok ("!" ++ String.ofList name ++ "!", c'.advance) else .error .badYaml

/-- A tag in front of a node: in full between angle brackets, with a handle, or the mark alone. -/
def nodeTag (c : Cursor) : Except Fault (Token × Cursor) := do
  let (token, c') ←
    if c.ahead 1 == some '<' then do
      let (text, c') ← tagText (c.drop 2)
      if c'.peek == some '>' then pure (.tag none text, c'.advance) else throw .badYaml
    else if isGap (c.ahead 1) then pure (.tag none "!", c.advance)
    else if (c.advance.rest.takeWhile fun ch => !endsWord (some ch)).contains '!' then do
      let (handle, c') ← tagHandle c
      let (text, c'') ← tagText c'
      pure (.tag (some handle) text, c'')
    else do
      let (text, c') ← tagText c.advance
      pure (.tag (some "!") text, c')
  if endsWord c'.peek then return (token, c') else throw .badYaml

/-! ### Directives -/

/-- A number of a version. -/
def versionNumber (c : Cursor) : Except Fault (Nat × Cursor) :=
  let (ds, c') := c.span Char.isDigit
  if ds.isEmpty then .error .badYaml
  else if Integer.fits ds then .ok (Decimal.ofDigits ds, c')
  else .error .tooManyDigits

/-- The version that a document is written in. -/
def versionDirective (c : Cursor) : Except Fault (Token × Cursor) := do
  let (major, c') ← versionNumber c.skipBlanks
  if c'.peek != some '.' then throw .badYaml
  let (_, c'') ← versionNumber c'.advance
  if endsWord c''.peek then return (.version major, c'') else throw .badYaml

/-- The text that a handle stands for. -/
def shorthandDirective (c : Cursor) : Except Fault (Token × Cursor) := do
  let (handle, c') ← tagHandle c.skipBlanks
  if c'.peek != some ' ' then throw .badYaml
  let (text, c'') ← tagText c'.skipBlanks
  if endsWord c''.peek then return (.shorthand handle text, c'') else throw .badYaml

/-- A directive, up to the end of its line. -/
def directive (c : Cursor) : Except Fault (Token × Cursor) := do
  let (name, c') := c.advance.span isNameChar
  if name.isEmpty || !endsWord c'.peek then throw .badYaml
  let (token, c'') ←
    if name == "YAML".toList then versionDirective c'
    else if name == "TAG".toList then shorthandDirective c'
    else pure (.otherDirective, c'.skip fun ch => !isBreak ch)
  let c''' := c''.skipBlanks.skipComment
  if endsLine c'''.peek then return (token, c'''.takeBreak.2) else throw .badYaml

end StackCalc.Yaml
