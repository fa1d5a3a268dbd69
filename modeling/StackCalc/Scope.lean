import StackCalc.Value.Show

/-! # Scopes

Names are bound in scopes, and scopes hang together in a forest: each one but a root points to an older
one. A layer has bindings of its own in front of its parent's; a passage hands reading and writing on to
its parent; a shield hands on reading and refuses to bind; a literal scope refuses as well, and invents a
placeholder for every name that its parent does not know. Scopes are never removed, so closures may refer
to them for good. -/

namespace StackCalc

/-- Names with their values, in the order of first binding. -/
abbrev Bindings := List (Text × Value)

namespace Bindings

/-- Binds a name; a name that is bound keeps its place. -/
def put (name : Text) (v : Value) : Bindings → Bindings
  | [] => [(name, v)]
  | (n, w) :: rest => if n == name then (n, v) :: rest else (n, w) :: put name v rest

def putAll (b : Bindings) (entries : List (Text × Value)) : Bindings :=
  entries.foldl (fun b e => put e.1 e.2 b) b

theorem lookup_put_self (b : Bindings) (name : Text) (v : Value) :
    (put name v b).lookup name = some v := by
  induction b with
  | nil => simp [put]
  | cons e rest ih =>
    obtain ⟨n, w⟩ := e
    by_cases h : n = name
    · subst h; simp [put]
    · have : (name == n) = false := by simpa using Ne.symm h
      simp [put, h, List.lookup_cons, this, ih]

theorem lookup_put_of_ne (b : Bindings) {name other : Text} (v : Value) (h : other ≠ name) :
    (put name v b).lookup other = b.lookup other := by
  have hb : (other == name) = false := by simpa using h
  induction b with
  | nil => simp [put, List.lookup_cons, hb]
  | cons e rest ih =>
    obtain ⟨n, w⟩ := e
    by_cases hn : n = name
    · subst hn; simp [put, List.lookup_cons, hb]
    · by_cases ho : other = n
      · subst ho; simp [put, hn]
      · have : (other == n) = false := by simpa using ho
        simp [put, hn, List.lookup_cons, this, ih]

end Bindings

/-- A place where names are looked up. -/
inductive Scope where
  | root (bindings : Bindings)
  | passage (parent : ScopeId)
  | layer (parent : ScopeId) (bindings : Bindings)
  | shield (parent : ScopeId)
  | literal (parent : ScopeId)

instance : Inhabited Scope := ⟨.root []⟩

/-- What a name stands for. -/
inductive Symbol where
  | value (v : Value)
  | placeholder (name : Text)

namespace Symbol

/-- The name of the class of a symbol. -/
def className : Symbol → Text
  | value _ => "ValueSymbol"
  | placeholder _ => "PlaceholderSymbol"

/-- The diagnostic text of a symbol. -/
def shown (names : Naming) : Symbol → Except Fault Text
  | value v => do return "ValueSymbol(" ++ (← v.shown names) ++ ")"
  | placeholder _ => pure (showObject "tcalc_match.PlaceholderSymbol")

end Symbol

/-- Where a binding made through a scope ends up. -/
inductive Target where
  | scope (owner : ScopeId)
  | shielded
  | literal
  | none
  deriving DecidableEq, Repr

/-- All scopes, the oldest first. -/
structure Forest where
  scopes : Array Scope
  deriving Inhabited

namespace Forest

def empty : Forest := ⟨#[]⟩

/-- Looks a name up, passing through at most `fuel` scopes. -/
def findWithin (f : Forest) (name : Text) : Nat → ScopeId → Option Symbol
  | 0, _ => none
  | fuel + 1, id =>
    match f.scopes[id]? with
    | none => none
    | some (.root b) => (b.lookup name).map .value
    | some (.passage p) | some (.shield p) => f.findWithin name fuel p
    | some (.layer p b) =>
      match b.lookup name with
      | some v => some (.value v)
      | none => f.findWithin name fuel p
    | some (.literal p) =>
      match f.findWithin name fuel p with
      | some s => some s
      | none => some (.placeholder name)

/-- What a name stands for in a scope. Parents are older, so as many steps as the scope is old suffice. -/
def find? (f : Forest) (id : ScopeId) (name : Text) : Option Symbol := f.findWithin name (id + 1) id

/-- Follows a scope to the one that owns its bindings, through at most `fuel` scopes. -/
def targetWithin (f : Forest) : Nat → ScopeId → Target
  | 0, _ => .none
  | fuel + 1, id =>
    match f.scopes[id]? with
    | none => .none
    | some (.root _) | some (.layer ..) => .scope id
    | some (.passage p) => f.targetWithin fuel p
    | some (.shield _) => .shielded
    | some (.literal _) => .literal

/-- Where a binding made through a scope ends up. -/
def target (f : Forest) (id : ScopeId) : Target := f.targetWithin (id + 1) id

/-- Changes the bindings that a scope owns. -/
def Scope.update (g : Bindings → Bindings) : Scope → Scope
  | .root b => .root (g b)
  | .layer p b => .layer p (g b)
  | s => s

/-- Binds a name through a scope. -/
def put (f : Forest) (id : ScopeId) (name : Text) (v : Value) : Except Fault Forest :=
  match f.target id with
  | .scope owner => .ok ⟨f.scopes.modify owner (Scope.update (Bindings.put name v))⟩
  | .literal => .error (.patternScope name)
  | _ => .error (.protectedScope name)

/-- Adds a scope. -/
def grow (f : Forest) (s : Scope) : ScopeId × Forest := (f.scopes.size, ⟨f.scopes.push s⟩)

/-- The bindings that a scope owns itself. -/
def own (f : Forest) (id : ScopeId) : Bindings :=
  match f.scopes[id]? with
  | some (.root b) | some (.layer _ b) => b
  | _ => []

/-- The diagnostic text of a scope; one that only hands on shows its parent. -/
def shownWithin (f : Forest) : Nat → ScopeId → Text
  | 0, _ => ""
  | fuel + 1, id =>
    let names (b : Bindings) := "bindings=[" ++ Text.intercalate ", " (b.map (·.1)) ++ "]"
    match f.scopes[id]? with
    | none => ""
    | some (.root b) => "<TopSymbolMap " ++ names b ++ ">"
    | some (.passage p) => "<NestedSymbolMap parent=" ++ f.shownWithin fuel p ++ ">"
    | some (.layer _ b) => "<LocalSymbolMap " ++ names b ++ " parent=#ID>"
    | some (.shield p) => "<ProtectionSymbolMap parent=" ++ f.shownWithin fuel p ++ ">"
    | some (.literal p) => "<PatternPlaceholdersSymbolMap parent=" ++ f.shownWithin fuel p ++ ">"

def shown (f : Forest) (id : ScopeId) : Text := f.shownWithin (id + 1) id

end Forest

end StackCalc
