import StackCalc.Data.Yaml.Content
import StackCalc.Data.Yaml.Printer

/-! # Configuration

What a calculator is set up with: how much it logs, whether it traces its steps, the names it defines and
the codec table of its stores. A configuration comes as a mapping with these four keys, or as YAML text of
one; every key may be left out, and a mapping that is null, or counts as false, is the empty one. -/

namespace StackCalc

/-- What a calculator is set up with. -/
structure Config where
  logLevel : Option Text
  traced : Bool
  globals : List (Text × Data)
  codecs : List (Data × Data)

namespace Config

def default : Config := ⟨none, false, [], []⟩

def knownKeys : List Text := ["log_level", "trace", "globals", "codecs"]

/-! ### Levels -/

/-- The levels of the log, by weight. -/
def levels : List (Text × Nat) :=
  [("CRITICAL", 50), ("FATAL", 50), ("ERROR", 40), ("WARN", 30), ("WARNING", 30), ("INFO", 20), ("DEBUG", 10),
    ("NOTSET", 0)]

/-- A letter as a capital, for the letters whose capitals are in ASCII. -/
def capital (c : Char) : Char :=
  if c == 'ı' then 'I' else if c == 'ſ' then 'S' else c.toUpper

/-- The weight of the level that a configuration sets; the present one otherwise. -/
def level (c : Config) (present : Nat) : Nat :=
  (c.logLevel.bind fun name => levels.lookup name).getD present

/-- A level at which the debug log is kept. A log without a level of its own goes by the one above it, which
keeps no debug log. -/
def keepsDebug (level : Nat) : Bool := 0 < level && level ≤ 10

/-! ### Checks -/

/-- The fault that quotes data. -/
def faultWith (cause : Text → Fault) (d : Data) : Fault :=
  match d.shown Naming.standard with
  | .ok s => cause s
  | .error f => f

mutual

/-- A global is a scalar, or a list of such. -/
def checkGlobal (name : Text) : Data → Except Fault Unit
  | .int _ | .float _ | .str _ | .bool _ | .null | .subInt .. | .subFloat .. | .subStr .. => .ok ()
  | .list items | .subList _ items => checkGlobals name items
  | .cycle false => .error .depthExceeded
  | d => .error (.badGlobal name d.className)

def checkGlobals (name : Text) : List Data → Except Fault Unit
  | [] => .ok ()
  | d :: ds => do
    checkGlobal name d
    checkGlobals name ds

end

/-- The globals, each of them checked. -/
def namedGlobals : List (Data × Data) → Except Fault (List (Text × Data))
  | [] => .ok []
  | (k, v) :: rest =>
    match k.string? with
    | some name => do
      checkGlobal name v
      return (name, v) :: (← namedGlobals rest)
    | none => .error (faultWith .badGlobalName k)

/-- The entries of a mapping that may be left out. -/
def optionalMap (cause : Fault) : Option Data → Except Fault (List (Data × Data))
  | none => .ok []
  | some d =>
    if !d.truthy then .ok []
    else
      match d with
      | .map entries => .ok entries
      | _ => .error cause

def readLevel : Option Data → Except Fault (Option Text)
  | none | some .null => .ok none
  | some d =>
    match d.string?.map (Text.map capital) with
    | some name => if (levels.lookup name).isSome then .ok (some name) else .error (faultWith .badLogLevel d)
    | none => .error (faultWith .badLogLevel d)

def readTrace : Option Data → Except Fault Bool
  | none => .ok false
  | some (.bool b) => .ok b
  | some d => .error (faultWith .badTrace d)

def isKnownKey (d : Data) : Bool := d.string?.any knownKeys.contains

/-- The configuration in a mapping. Unknown keys are reported first, and then the first bad entry in the
order of `knownKeys`. -/
def ofEntries (entries : List (Data × Data)) : Except Fault Config := do
  let unknown := (entries.map (·.1)).filter fun k => !isKnownKey k
  if !unknown.isEmpty then
    throw (.unknownConfigKeys (Text.intercalate ", " (← unknown.mapM Data.text)))
  let get (key : Text) : Option Data := Data.lookup? (.str key) entries
  let level ← readLevel (get "log_level")
  let traced ← readTrace (get "trace")
  let globals ← namedGlobals (← optionalMap .globalsNotMapping (get "globals"))
  let codecs ← optionalMap .codecsNotMapping (get "codecs")
  return ⟨level, traced, globals, codecs⟩

/-- The configuration in data, which has to be a mapping. -/
def ofMapping : Data → Except Fault Config
  | .map entries => ofEntries entries
  | d => .error (.configNotMapping d.className)

/-! ### Sources -/

/-- A path without empty steps and steps that stay where they are. -/
def cleanPath (path : Text) : Text :=
  let steps := (path.split (· == .char '/')).filter fun (s : Text) => s != "" && s != "."
  let root :=
    if path.startsWith "/" then (if path.startsWith "//" && !path.startsWith "///" then "//" else "/") else ""
  let joined := root ++ Text.intercalate "/" steps
  if joined == "" then "." else joined

/-- A text that is the path of a file. -/
def isPath (s : Text) : Bool := s.endsWith ".yaml" || s.endsWith ".yml"

/-- The fault of a file that is not there. -/
def missingFile (path : Text) : Fault :=
  .unreadableFile path ("[Errno 2] No such file or directory: " ++ Text.quoted path)

/-- The configuration in a text. -/
def ofText (text : Text) : Except Fault Config := do
  let d ← match Yaml.read text with
    | .error .badYaml => throw .badYamlConfig
    | r => r
  if d.truthy then ofMapping d else ofEntries []

/-- The configuration from a source: none, a mapping, or a text, which is the path of a file if it ends like
one. No file is looked for, so none is found. -/
def ofSource : Data → Except Fault Config
  | .null => .ok default
  | .map entries => ofEntries entries
  | d =>
    match d.string? with
    | some s => if isPath s then .error (missingFile (cleanPath s)) else ofText s
    | none => .error .notText

end Config

end StackCalc
