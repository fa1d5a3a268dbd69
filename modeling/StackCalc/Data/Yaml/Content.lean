import StackCalc.Data.Basic
import StackCalc.Data.Yaml.Node
import StackCalc.Text.Bytes

/-! # The data that nodes stand for

Scalars become data by their tags, collections by their tags and their parts. A mapping may take over the
entries of others under a key of its own (`Tag.merge`); its own entries win. Of several faults the one is
reported that lies closest to the root, and of those the first: collections are filled level by level. This
restates the safe constructor of PyYAML 6.0.3. -/

namespace StackCalc.Yaml

/-- The data of a scalar. -/
def Tag.read (t : Tag) (s : Text) : Except Fault Data :=
  match t with
  | null => .ok .null
  | bool =>
    match truthWords.lookup (s.blurred.map Char.toLower) with
    | some b => .ok (.bool b)
    | none => .error .scalarWord
  | int => do return .int (← Numeral.readInteger s.blurred)
  | float => do return .float (← Numeral.readReal s.blurred)
  | timestamp =>
    match Timestamp.ofChars? s.blurred.toList with
    | some t => if t.isValid then .ok (.other t.className t.shown) else .error .scalarRange
    | none => .error .scalarShape
  | binary =>
    match (if s.codes.all (·.toNat < 0x80) then Text.decodeBase64? s.blurred.toList else none) with
    | some bytes => .ok (.other "bytes" (Text.quotedBytes bytes))
    | none => .error .badYaml
  | str => .ok (.str s)
  | _ => .error .badYaml

/-- A set of data, known by its text. -/
def setData (items : List Data) : Except Fault Data := do
  if items.isEmpty then return .other "set" "set()"
  else return .other "set" ("\x7b" ++ Text.intercalate ", " (← Data.showAll Naming.standard items) ++ "\x7d")

namespace Node

mutual

/-- The text of a node that has to be a scalar: a mapping has one under the key of its value. -/
def text : Node → Except Fault Text
  | .scalar _ s => .ok s
  | .mapping _ entries => valueText entries
  | _ => .error .badYaml

def valueText : List (Node × Node) → Except Fault Text
  | [] => .error .badYaml
  | (k, v) :: rest => if k.tag == .value then v.text else valueText rest

end

/-- A key that is spelled as the key of a value is an ordinary text in a mapping. -/
def asKey : Node → Node
  | .scalar .value s => .scalar .str s
  | n => n

/-- The node becomes a key at once, and a collection is none. -/
def isPlainKey : Node → Bool
  | .around _ => false
  | n => !n.tag.isCollection

/-! ### Data -/

mutual

/-- The data of a node. -/
def data : Node → Except Fault Data
  | .around m => .ok (.cycle m)
  | .scalar t s => t.read s
  | .sequence t items =>
    match t with
    | .seq => do return .list (← dataAll items)
    | .omap | .pairs => do return .list (← dataPairs items)
    | _ => .error .badYaml
  | .mapping t entries => do
    match t with
    | .map => do
      let (taken, own) ← dataEntries entries
      return .map (Data.mapOf (taken ++ own))
    | .set => do
      let (taken, own) ← dataEntries entries
      setData ((Data.mapOf (taken ++ own)).map (·.1))
    | t => if t.isCollection then throw .badYaml else t.read (← valueText entries)

def dataAll : List Node → Except Fault (List Data)
  | [] => .ok []
  | n :: ns => do
    let first ← n.data
    return first :: (← dataAll ns)

/-- The entries of a mapping: those it takes over, and its own. -/
def dataEntries : List (Node × Node) → Except Fault (List (Data × Data) × List (Data × Data))
  | [] => .ok ([], [])
  | (k, v) :: rest => do
    if k.tag == .merge then
      let first ← match v with
        | .sequence _ items => do pure (← dataMerged items).reverse.flatten
        | v => v.merged
      let (taken, own) ← dataEntries rest
      return (first ++ taken, own)
    else
      let key ← if k.tag == .value then (do return .str (← k.text)) else k.data
      if !key.isKey then throw .badYaml
      let value ← v.data
      let (taken, own) ← dataEntries rest
      return (taken, (key, value) :: own)

/-- The entries that another mapping takes over from this one. -/
def merged : Node → Except Fault (List (Data × Data))
  | .mapping _ entries => do
    let (taken, own) ← dataEntries entries
    return taken ++ own
  | .around true => .ok []
  | _ => .error .badYaml

def dataMerged : List Node → Except Fault (List (List (Data × Data)))
  | [] => .ok []
  | n :: ns => do
    let first ← n.merged
    return first :: (← dataMerged ns)

/-- Pairs, each from a mapping of one entry. -/
def dataPairs : List Node → Except Fault (List Data)
  | [] => .ok []
  | .mapping _ [(k, v)] :: ns => do
    let first ← k.data
    let second ← v.data
    return .tuple [first, second] :: (← dataPairs ns)
  | _ :: _ => .error .badYaml

end

/-! ### The first fault -/

mutual

/-- The entries of a mapping, those it takes over in front. -/
def entries : Node → Except Fault (List (Node × Node))
  | .mapping _ es => do
    let (taken, own) ← splitEntries es
    return taken ++ own
  | .around true => .ok []
  | _ => .error .badYaml

def splitEntries : List (Node × Node) → Except Fault (List (Node × Node) × List (Node × Node))
  | [] => .ok ([], [])
  | (k, v) :: rest => do
    if k.tag == .merge then
      let first ← match v with
        | .sequence _ items => do pure (← allEntries items).reverse.flatten
        | v => v.entries
      let (taken, own) ← splitEntries rest
      return (first ++ taken, own)
    else
      let (taken, own) ← splitEntries rest
      return (taken, (k.asKey, v) :: own)

def allEntries : List Node → Except Fault (List (List (Node × Node)))
  | [] => .ok []
  | n :: ns => do
    let first ← n.entries
    return first :: (← allEntries ns)

end

/-- A collection is made empty first; anything else has its data at once. -/
def begin (n : Node) : Except Fault Unit :=
  match n with
  | .around _ => .ok ()
  | n => if n.tag.isCollection then .ok () else do let _ ← n.tag.read (← n.text)

/-- Begins the parts of a collection, and answers them. -/
def fill (n : Node) : Except Fault (List Node) := do
  match n.tag, n with
  | .seq, .sequence _ items => do
    items.forM begin
    return items
  | .omap, .sequence _ items | .pairs, .sequence _ items => do
    let parts ← items.mapM fun
      | .mapping _ [(k, v)] => do
        k.begin
        v.begin
        return [k, v]
      | _ => throw .badYaml
    return parts.flatten
  | .map, .mapping .. | .set, .mapping .. => do
    let es ← n.entries
    es.forM fun e => do
      e.1.begin
      if !e.1.isPlainKey then throw .badYaml
      e.2.begin
    return es.flatMap fun e => [e.1, e.2]
  | _, .around _ => return []
  | t, _ => if t.isCollection then throw .badYaml else return []

/-- Fills collections level by level, so many levels deep. -/
def fillLevels : Nat → List Node → Except Fault Unit
  | 0, _ => .ok ()
  | fuel + 1, level => do
    let parts ← level.mapM fill
    if parts.flatten.isEmpty then return else fillLevels fuel parts.flatten

/-- The data of the root of a document, or the first fault in it; no path is longer than `depth`. -/
def content (depth : Nat) (n : Node) : Except Fault Data :=
  match n.data with
  | .ok d => .ok d
  | .error f =>
    match (do n.begin; fillLevels depth [n] : Except Fault Unit) with
    | .error first => .error first
    | .ok () => .error f

end Node

/-- The data of a text; one without a document stands for null. A text with half of a pair is refused as a whole. -/
def read (text : Text) : Except Fault Data := do
  let some cs := text.chars? | throw .badYaml
  match ← Node.ofChars? cs with
  | some n => n.content (cs.length + 1)
  | none => return .null

end StackCalc.Yaml
