import StackCalc.Data.Yaml.Numeral
import StackCalc.Data.Yaml.Timestamp

/-! # Tags

A tag says what a node stands for. Nodes carry one, or get one: a plain scalar by its spelling, anything
else by its shape. The spellings are those that the resolver of PyYAML 6.0.3 knows. -/

namespace StackCalc.Yaml

/-- What a node stands for. -/
inductive Tag where
  | null | bool | int | float | timestamp | binary | str
  | seq | map | omap | pairs | set
  /-- The key of mappings whose entries are taken over. -/
  | merge
  /-- The key of the value that a mapping has as a scalar. -/
  | value
  | unknown
  deriving DecidableEq, Repr, Inhabited

namespace Tag

/-- The tags of the standard, by name. -/
def named : List (String × Tag) :=
  [("null", null), ("bool", bool), ("int", int), ("float", float), ("timestamp", timestamp), ("binary", binary),
    ("str", str), ("seq", seq), ("map", map), ("omap", omap), ("pairs", pairs), ("set", set), ("merge", merge),
    ("value", value)]

/-- What the names of the standard begin with. -/
def standard : String := "tag:yaml.org,2002:"

/-- The tag with a full name. -/
def ofName (s : String) : Tag := ((named.map fun e => (standard ++ e.1, e.2)).lookup s).getD unknown

/-- The words for truth values. -/
def truthWords : List (String × Bool) :=
  [("yes", true), ("no", false), ("true", true), ("false", false), ("on", true), ("off", false)]

/-- A word in one of its three spellings: small, capitalised or capital letters. -/
def spells (s word : String) : Bool := s == word || s == word.capitalize || s == word.toUpper

/-- The tag of a plain scalar. -/
def ofPlain (s : String) : Tag :=
  let cs := s.toList
  if truthWords.any fun w => spells s w.1 then bool
  else if Numeral.isReal cs then float
  else if Numeral.isInteger cs then int
  else if s == "<<" then merge
  else if s == "" || s == "~" || spells s "null" then null
  else if Timestamp.isPlain cs then timestamp
  else if s == "=" then value
  else str

/-- The tags of nodes that have parts. -/
def isCollection : Tag → Bool
  | seq | map | omap | pairs | set => true
  | _ => false

end Tag

end StackCalc.Yaml
