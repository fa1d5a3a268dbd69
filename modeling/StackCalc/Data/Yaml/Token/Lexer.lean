import StackCalc.Data.Yaml.Token

/-! # From text to tokens

In a block, indentation makes the structure: a column deeper than the current one opens a collection, and
a line that begins further left closes those that are deeper. Whether something is a key shows only at the
colon behind it, so the place of the last token that may turn out to be one is kept for each level of
brackets (`Candidate`); at the colon the mark goes in front of that token. A candidate is given up at the
end of its line, or after `keyLimit` characters; one that stands at the indentation of its block has to be
a key, since nothing else may.

Tokens are read up to the first fault, which is kept beside them. Candidates, levels and the order of the checks
restate the scanner of PyYAML 6.0.3. -/

namespace StackCalc.Yaml

/-- The most characters between the beginning of a key and its colon. -/
def keyLimit : Nat := 1024

/-- A token that may turn out to be a key. -/
structure Candidate where
  /-- The level of brackets that it stands in. -/
  level : Nat
  /-- The number of tokens before it. -/
  position : Nat
  required : Bool
  place : Cursor

/-- The state between two tokens. -/
structure Lexer where
  cursor : Cursor
  tokens : Array Token
  /-- The number of brackets that are open. -/
  level : Nat
  /-- The column of the current block, `-1` outside of all. -/
  indent : Int
  outer : List Int
  keysAllowed : Bool
  candidates : List Candidate

/-- Reads tokens; those that have been read survive a fault. -/
abbrev Lexing := ExceptT Fault (StateM Lexer)

namespace Lexing

def emit (t : Token) : Lexing Unit := modify fun l => { l with tokens := l.tokens.push t }

def moveTo (c : Cursor) : Lexing Unit := modify fun l => { l with cursor := c }

def allowKeys (allowed : Bool) : Lexing Unit := modify fun l => { l with keysAllowed := allowed }

/-- Passes a token of so many characters. -/
def pass (t : Token) (length : Nat) : Lexing Unit :=
  modify fun l => { l with tokens := l.tokens.push t, cursor := l.cursor.drop length }

/-! ### Keys -/

/-- Gives up a candidate of the current level. -/
def giveUpCandidate : Lexing Unit := do
  let l ← get
  if l.candidates.any fun k => k.level == l.level && k.required then throw .badYaml
  set { l with candidates := l.candidates.filter fun k => k.level != l.level }

/-- Gives up the candidates that are too far behind. -/
def giveUpStale : Lexing Unit := do
  let l ← get
  let stale (k : Candidate) : Bool :=
    k.place.line != l.cursor.line || keyLimit < l.cursor.index - k.place.index
  if l.candidates.any fun k => stale k && k.required then throw .badYaml
  set { l with candidates := l.candidates.filter fun k => !stale k }

/-- The next token may turn out to be a key. -/
def markCandidate : Lexing Unit := do
  if (← get).keysAllowed then
    giveUpCandidate
    modify fun l =>
      let required := l.level == 0 && l.indent == l.cursor.column
      { l with candidates := ⟨l.level, l.tokens.size, required, l.cursor⟩ :: l.candidates }

/-! ### Blocks -/

/-- The blocks that are deeper than a column, and those that are left. -/
def closing (column : Int) : Int → List Int → Nat × Int × List Int
  | indent, [] => (0, indent, [])
  | indent, next :: rest =>
    if column < indent then
      let (n, indent', rest') := closing column next rest
      (n + 1, indent', rest')
    else (0, indent, next :: rest)

/-- Closes the blocks that are deeper than a column; between brackets indentation does not count. -/
def closeBlocks (column : Int) : Lexing Unit :=
  modify fun l =>
    if l.level != 0 then l
    else
      let (n, indent, outer) := closing column l.indent l.outer
      { l with indent := indent, outer := outer, tokens := l.tokens ++ Array.replicate n .blockEnd }

/-- Opens a block at a column, if that is deeper than the current one; its mark goes to the given
position. -/
def openBlock (t : Token) (column : Int) (position : Nat) : Lexing Unit :=
  modify fun l =>
    if l.indent < column then
      { l with
        indent := column
        outer := l.indent :: l.outer
        tokens := l.tokens.extract 0 position ++ #[t] ++ l.tokens.extract position l.tokens.size }
    else l

/-- In a block, a mark of a member needs a place where a key may begin, and opens the block it belongs
to. -/
def openMember (t : Token) : Lexing Unit := do
  let l ← get
  if l.level == 0 then
    if !l.keysAllowed then throw .badYaml
    openBlock t l.cursor.column l.tokens.size

/-! ### Tokens -/

/-- Passes blanks, comments and line breaks. -/
def skipToToken : Nat → Lexing Unit
  | 0 => pure ()
  | fuel + 1 => do
    let c := (← get).cursor.skipBlanks.skipComment
    match c.takeBreak with
    | ([], _) => moveTo c
    | (_, c') => do
      moveTo c'
      if (← get).level == 0 then allowKeys true
      skipToToken fuel

def streamEnd : Lexing Unit := do
  closeBlocks (-1)
  giveUpCandidate
  emit .streamEnd

/-- A directive or a separator of documents closes all blocks. -/
def documentMark (read : Lexing Unit) : Lexing Unit := do
  closeBlocks (-1)
  giveUpCandidate
  allowKeys false
  read

def openBracket (t : Token) : Lexing Unit := do
  markCandidate
  modify fun l => { l with level := l.level + 1 }
  allowKeys true
  pass t 1

def closeBracket (t : Token) : Lexing Unit := do
  giveUpCandidate
  if (← get).level == 0 then throw .badYaml
  modify fun l => { l with level := l.level - 1 }
  allowKeys false
  pass t 1

def comma : Lexing Unit := do
  allowKeys true
  giveUpCandidate
  pass .comma 1

def entry : Lexing Unit := do
  openMember .sequenceStart
  allowKeys true
  giveUpCandidate
  pass .entry 1

def key : Lexing Unit := do
  openMember .mappingStart
  allowKeys ((← get).level == 0)
  giveUpCandidate
  pass .key 1

/-- A colon makes a key of the candidate of its level; without one it stands behind a key of several
lines. -/
def value : Lexing Unit := do
  let l ← get
  match l.candidates.find? fun k => k.level == l.level with
  | some k => do
    set { l with
      candidates := l.candidates.filter fun k => k.level != l.level
      tokens := l.tokens.extract 0 k.position ++ #[Token.key] ++ l.tokens.extract k.position l.tokens.size }
    if l.level == 0 then openBlock .mappingStart k.place.column k.position
    allowKeys false
  | none => do
    openMember .mappingStart
    allowKeys (l.level == 0)
    giveUpCandidate
  pass .value 1

/-- A token that may be a key, by a function that reads it. -/
def node (read : Cursor → Except Fault (Token × Cursor)) : Lexing Unit := do
  markCandidate
  allowKeys false
  let (t, c) ← (read (← get).cursor : Except Fault (Token × Cursor))
  emit t
  moveTo c

def plain : Lexing Unit := do
  markCandidate
  let l ← get
  let (text, crossed, c) := plainScalar (l.level != 0) (l.indent + 1) l.cursor
  allowKeys crossed
  emit (.scalar text true)
  moveTo c

def block (folded : Bool) : Lexing Unit := do
  allowKeys true
  giveUpCandidate
  let l ← get
  let (text, c) ← (blockScalar folded l.indent l.cursor : Except Fault (String × Cursor))
  emit (.scalar text false)
  moveTo c

/-- The characters that no plain scalar begins with, gaps aside. -/
def isIndicator (c : Char) : Bool := "-?:,[]\x7b\x7d#&*!|>'\"%@".toList.contains c || c == '\x60'

/-- A plain scalar begins here. -/
def startsPlain (flow : Bool) (ch : Char) (next : Option Char) : Bool :=
  (!isGap (some ch) && !isIndicator ch) ||
    (!isGap next && (ch == '-' || (!flow && (ch == '?' || ch == ':'))))

/-- Reads the next token, and those that come with it; `false` at the end of the text. -/
def next : Lexing Bool := do
  skipToToken ((← get).cursor.rest.length + 1)
  giveUpStale
  let l ← get
  let c := l.cursor
  closeBlocks c.column
  let flow := l.level != 0
  match c.peek with
  | none => do
    streamEnd
    return false
  | some ch => do
    let next := c.ahead 1
    if ch == '%' && c.column == 0 then
      documentMark do
        let (t, c') ← (directive c : Except Fault (Token × Cursor))
        emit t
        moveTo c'
    else if c.column == 0 && c.atSeparator then
      documentMark (pass (if ch == '-' then .documentStart else .documentEnd) 3)
    else if ch == '[' then openBracket .squareOpen
    else if ch == '\x7b' then openBracket .curlyOpen
    else if ch == ']' then closeBracket .squareClose
    else if ch == '\x7d' then closeBracket .curlyClose
    else if ch == ',' then comma
    else if ch == '-' && isGap next then entry
    else if ch == '?' && (flow || isGap next) then key
    else if ch == ':' && (flow || isGap next) then value
    else if ch == '*' then node fun c => do
      let (name, c') ← anchorName c
      return (.alias name, c')
    else if ch == '&' then node fun c => do
      let (name, c') ← anchorName c
      return (.anchor name, c')
    else if ch == '!' then node nodeTag
    else if ch == '|' && !flow then block false
    else if ch == '>' && !flow then block true
    else if ch == '\'' || ch == '"' then node fun c => do
      let (text, c') ← quotedScalar (ch == '"') c
      return (.scalar text false, c')
    else if startsPlain flow ch next then plain
    else throw .badYaml
    return true

/-- Reads all tokens. -/
def all : Nat → Lexing Unit
  | 0 => throw .badYaml
  | fuel + 1 => do
    if ← next then all fuel

end Lexing

/-- The tokens of a text, and the fault behind the last of them, if there is one. Each step takes at least
one character. -/
def tokens (text : List Char) : List Token × Option Fault :=
  if !text.all isAllowed then ([], some .badYaml)
  else
    let c := Cursor.start text
    let c := if text.head? == some '\uFEFF' then c.advance else c
    let l : Lexer := ⟨c, #[], 0, -1, [], true, []⟩
    let (outcome, l') := (ExceptT.run (Lexing.all (text.length + 2))).run l
    match outcome with
    | .ok () => (l'.tokens.toList, none)
    | .error f => (l'.tokens.toList, some f)

end StackCalc.Yaml
