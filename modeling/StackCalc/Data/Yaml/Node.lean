import StackCalc.Data.Yaml.Tag
import StackCalc.Data.Yaml.Token.Lexer

/-! # Nodes

The tree of a document. An alias is a copy of the node it stands for; one that stands for a collection
around it would go on for ever and is a leaf instead. The tree is the one that the parser and the composer
of PyYAML 6.0.3 build. -/

namespace StackCalc.Yaml

/-- A node of a document. -/
inductive Node where
  | scalar (tag : Tag) (text : Text)
  | sequence (tag : Tag) (items : List Node)
  | mapping (tag : Tag) (entries : List (Node × Node))
  /-- An alias of a sequence, or a mapping, around this place. -/
  | around (mapping : Bool)

namespace Node

instance : Inhabited Node := ⟨.scalar .null ""⟩

/-- A node that is left out. -/
def empty : Node := .scalar (.ofPlain "") ""

def tag : Node → Tag
  | scalar t _ | sequence t _ | mapping t _ => t
  | around m => if m then .map else .seq

end Node

/-- The state between two nodes: the tokens that are left, the fault behind them, the handles of the
document and the nodes that have a name. -/
structure NodeParser where
  tokens : List Token
  fault : Fault
  handles : List (String × String)
  anchors : List (String × Node)

/-- Reads nodes. -/
abbrev Parsing := StateT NodeParser (Except Fault)

namespace Parsing

/-- The handles that every document has. -/
def standardHandles : List (String × String) := [("!", "!"), ("!!", Tag.standard)]

/-- The next token. -/
def peek : Parsing Token := do
  match (← get).tokens with
  | t :: _ => return t
  | [] => throw (← get).fault

/-- Passes a token. -/
def skip : Parsing Unit := modify fun p => { p with tokens := p.tokens.drop 1 }

/-- Passes a token if it is the given one. -/
def skipIf (t : Token) : Parsing Bool := do
  if (← peek) == t then
    skip
    return true
  else return false

/-- Gives a name to a node; no name may be given twice. -/
def declare (anchor : Option String) (n : Node) : Parsing Unit := do
  match anchor with
  | none => return
  | some name => do
    if ((← get).anchors.lookup name).isSome then throw .badYaml
    modify fun p => { p with anchors := (name, n) :: p.anchors }

/-- Puts the finished node in the place of the one that its name was declared with. -/
def complete (anchor : Option String) (n : Node) : Parsing Node := do
  if let some name := anchor then
    modify fun p => { p with anchors := p.anchors.map fun e => if e.1 == name then (name, n) else e }
  return n

/-- The full name of a tag. -/
def fullName (handle : Option String) (suffix : String) : Parsing String := do
  match handle with
  | none => return suffix
  | some h =>
    match (← get).handles.lookup h with
    | some expansion => return expansion ++ suffix
    | none => throw .badYaml

/-- The tag in front of a node, if there is one. -/
def nodeTag? : Parsing (Option String) := do
  match ← peek with
  | .tag handle suffix => do
    skip
    return some (← fullName handle suffix)
  | _ => return none

/-- The name in front of a node, if there is one. -/
def anchor? : Parsing (Option String) := do
  match ← peek with
  | .anchor name => do
    skip
    return some name
  | _ => return none

/-- The name and the tag in front of a node, in either order. -/
def properties : Parsing (Option String × Option String) := do
  match ← anchor? with
  | some name => return (some name, ← nodeTag?)
  | none => do
    let tag ← nodeTag?
    return (← anchor?, tag)

/-- The tag of a scalar. The mark alone asks for the tag of its spelling. -/
def scalarTag (tag : Option String) (plain : Bool) (text : Text) : Tag :=
  match tag with
  | none => if plain then .ofPlain text.blurred else .str
  | some name => if name == "!" then .ofPlain text.blurred else .ofName name

/-- The tag of a collection. -/
def collectionTag (tag : Option String) (shape : Tag) : Tag :=
  match tag with
  | none => shape
  | some name => if name == "!" then shape else .ofName name

mutual

/-- A node; `block` allows a collection in a block, `flush` a sequence that is no deeper than the key it
belongs to. -/
def node (block flush : Bool) : Nat → Parsing Node
  | 0 => throw .badYaml
  | fuel + 1 => do
    if let .alias name ← peek then
      skip
      match (← get).anchors.lookup name with
      | some n => return n
      | none => throw .badYaml
    let (anchor, tag) ← properties
    let sequence (items : Parsing (List Node)) : Parsing Node := do
      declare anchor (.around false)
      complete anchor (.sequence (collectionTag tag .seq) (← items))
    let mapping (entries : Parsing (List (Node × Node))) : Parsing Node := do
      declare anchor (.around true)
      complete anchor (.mapping (collectionTag tag .map) (← entries))
    let scalar (plain : Bool) (text : Text) : Parsing Node := do
      let n := Node.scalar (scalarTag tag plain text) text
      declare anchor n
      return n
    match ← peek, block, flush with
    | .entry, _, true => sequence (flushItems fuel)
    | .scalar text plain, _, _ => do
      skip
      scalar plain text
    | .squareOpen, _, _ => do
      skip
      sequence (squareItems true fuel)
    | .curlyOpen, _, _ => do
      skip
      mapping (curlyEntries true fuel)
    | .sequenceStart, true, _ => do
      skip
      sequence (blockItems fuel)
    | .mappingStart, true, _ => do
      skip
      mapping (blockEntries fuel)
    | _, _, _ => if anchor.isSome || tag.isSome then scalar true "" else throw .badYaml

/-- A node, or nothing in front of one of the given tokens. -/
def nodeUnless (stops : List Token) (block flush : Bool) : Nat → Parsing Node
  | 0 => throw .badYaml
  | fuel + 1 => do if stops.contains (← peek) then return .empty else node block flush fuel

/-- The items of a sequence in a block. -/
def blockItems : Nat → Parsing (List Node)
  | 0 => throw .badYaml
  | fuel + 1 => do
    if ← skipIf .entry then
      let item ← nodeUnless [.entry, .blockEnd] true false fuel
      return item :: (← blockItems fuel)
    else if ← skipIf .blockEnd then return []
    else throw .badYaml

/-- The items of a sequence that is no deeper than its key; nothing marks its end. -/
def flushItems : Nat → Parsing (List Node)
  | 0 => throw .badYaml
  | fuel + 1 => do
    if ← skipIf .entry then
      let item ← nodeUnless [.entry, .key, .value, .blockEnd] true false fuel
      return item :: (← flushItems fuel)
    else return []

/-- The entries of a mapping in a block. -/
def blockEntries : Nat → Parsing (List (Node × Node))
  | 0 => throw .badYaml
  | fuel + 1 => do
    let stops := [.key, .value, .blockEnd]
    if ← skipIf .key then
      let key ← nodeUnless stops true true fuel
      let value ← if ← skipIf .value then nodeUnless stops true true fuel else pure .empty
      return (key, value) :: (← blockEntries fuel)
    else if ← skipIf .blockEnd then return []
    else throw .badYaml

/-- A key and a value between brackets. -/
def flowEntry (close : Token) : Nat → Parsing (Node × Node)
  | 0 => throw .badYaml
  | fuel + 1 => do
    let key ← nodeUnless [.value, .comma, close] false false fuel
    let value ← if ← skipIf .value then nodeUnless [.comma, close] false false fuel else pure .empty
    return (key, value)

/-- The items of a sequence in brackets; one may be a mapping of a single entry. -/
def squareItems (first : Bool) : Nat → Parsing (List Node)
  | 0 => throw .badYaml
  | fuel + 1 => do
    if ← skipIf .squareClose then return []
    if !first then
      if !(← skipIf .comma) then throw .badYaml
    if ← skipIf .key then
      let entry ← flowEntry .squareClose fuel
      return .mapping .map [entry] :: (← squareItems false fuel)
    else if ← skipIf .squareClose then return []
    else
      let item ← node false false fuel
      return item :: (← squareItems false fuel)

/-- The entries of a mapping in brackets; a key may stand alone. -/
def curlyEntries (first : Bool) : Nat → Parsing (List (Node × Node))
  | 0 => throw .badYaml
  | fuel + 1 => do
    if ← skipIf .curlyClose then return []
    if !first then
      if !(← skipIf .comma) then throw .badYaml
    if ← skipIf .key then
      let entry ← flowEntry .curlyClose fuel
      return entry :: (← curlyEntries false fuel)
    else if ← skipIf .curlyClose then return []
    else
      let key ← node false false fuel
      return (key, .empty) :: (← curlyEntries false fuel)

end

/-- The directives in front of a document: one version at most, of the first generation, and handles that
differ. -/
def directives (versioned : Bool) (handles : List (String × String)) : Nat → Parsing (List (String × String))
  | 0 => throw .badYaml
  | fuel + 1 => do
    match ← peek with
    | .version major => do
      skip
      if versioned || major != 1 then throw .badYaml
      directives true handles fuel
    | .shorthand handle expansion => do
      skip
      if (handles.lookup handle).isSome then throw .badYaml
      directives versioned ((handle, expansion) :: handles) fuel
    | .otherDirective => do
      skip
      directives versioned handles fuel
    | _ => return handles

def isDirective : Token → Bool
  | .version _ | .shorthand .. | .otherDirective => true
  | _ => false

/-- Passes the marks that end documents. -/
def skipEnds : Nat → Parsing Unit
  | 0 => pure ()
  | fuel + 1 => do if ← skipIf .documentEnd then skipEnds fuel

/-- The content of a document that has a mark in front. -/
def markedContent (fuel : Nat) : Parsing Node := do
  let custom ← directives false [] fuel
  if !(← skipIf .documentStart) then throw .badYaml
  modify fun p => { p with handles := custom ++ standardHandles }
  let t ← peek
  if isDirective t || [Token.documentStart, .documentEnd, .streamEnd].contains t then return .empty
  else node true false fuel

/-- The only document of a text, if there is one. -/
def document? (fuel : Nat) : Parsing (Option Node) := do
  let t ← peek
  if t == .streamEnd then return none
  let root ←
    if isDirective t || t == .documentStart then markedContent fuel
    else node true false fuel
  skipEnds fuel
  if (← peek) == .streamEnd then return some root
  else do
    let _ ← directives false [] fuel
    let _ ← peek
    throw .badYaml

end Parsing

/-- The root of the only document of a text; none if there is no document. Every call takes a token or
is made by one that does, so a multiple of their number is enough fuel. -/
def Node.ofChars? (text : List Char) : Except Fault (Option Node) := do
  let (ts, fault) := tokens text
  let p : NodeParser := ⟨ts, fault.getD .badYaml, Parsing.standardHandles, []⟩
  let (n, _) ← (Parsing.document? (4 * ts.length + 8)).run p
  return n

end StackCalc.Yaml
