import StackCalc.Fault
import StackCalc.Value.Basic

/-! # What composites can do

A composite is never asked for its class, only for an ability: to give out named members, to come apart
into values, to be called. A host's object keeps its abilities by class, so of two of the same class the
later one takes the place of the earlier. -/

namespace StackCalc

/-- The named members of a composite. Hidden members are found by name but not listed. -/
structure Members where
  listed : Bool
  entries : List (Text × Value)

namespace Members

/-- The names of the members, in order. -/
def keys (m : Members) : List Text := if m.listed then m.entries.map (·.1) else []

def get? (m : Members) (name : Text) : Option Value := m.entries.lookup name

/-- The listed members, in order. -/
def toList (m : Members) : List (Text × Value) := if m.listed then m.entries else []

/-- The forms of listed members, where a member may have none: each name in order, with what is found for it. -/
def forms {α : Type} (entries : List (Text × Except Fault α)) : Except Fault (List (Text × α)) :=
  entries.mapM fun e => do return (e.1, ← (entries.lookup e.1).getD e.2)

theorem lookup_of_mem {α : Type} {e : Text × α} : ∀ {entries : List (Text × α)}, (entries.map Prod.fst).Nodup →
    e ∈ entries → entries.lookup e.1 = some e.2
  | first :: rest, hnodup, he => by
    obtain ⟨hfirst, hrest⟩ := List.nodup_cons.1 hnodup
    rcases List.mem_cons.1 he with rfl | he
    · exact List.lookup_cons_self
    · have hne : (e.1 == first.1) = false :=
        beq_eq_false_iff_ne.2 fun heq => hfirst (heq ▸ List.mem_map_of_mem he)
      rw [List.lookup_cons, hne]
      exact lookup_of_mem hrest he

theorem mapM_congr {α β : Type} {f g : α → Except Fault β} : ∀ {xs : List α}, (∀ x ∈ xs, f x = g x) →
    xs.mapM f = xs.mapM g
  | [], _ => rfl
  | x :: xs, h => by
    rw [List.mapM_cons, List.mapM_cons, h x List.mem_cons_self, mapM_congr fun y hy => h y (List.mem_cons_of_mem _ hy)]

/-- If no name is listed twice, each member has the form at its place. -/
theorem forms_zip {α : Type} {names : List Text} (hnodup : names.Nodup) {found : List (Except Fault α)}
    (hlength : found.length = names.length) :
    forms (names.zip found) = (names.zip found).mapM fun e => do return (e.1, ← e.2) := by
  have hnames : (names.zip found).map Prod.fst = names := List.map_fst_zip (Nat.le_of_eq hlength.symm)
  rw [← hnames] at hnodup
  exact mapM_congr fun e he => by rw [lookup_of_mem hnodup he, Option.getD_some]

end Members

namespace Trait

/-- The abilities that a host can ask for. -/
inductive Ability where
  | decomposes | structured | callable
  deriving DecidableEq, Repr

namespace Ability

def name : Ability → Text
  | decomposes => "Decomposable"
  | structured => "Structured"
  | callable => "CallableTrait"

def ofName? (s : Text) : Option Ability := [decomposes, structured, callable].find? fun a => a.name == s

end Ability

/-- The class a trait belongs to. -/
def className : Trait → Text
  | members special _ => if special then "SpecialMembers" else "Members"
  | hiddenMembers _ => "MembersNoKeys"
  | repeats _ => "Repeats"
  | counts => "CountArgs"

def ability : Trait → Ability
  | members .. | hiddenMembers _ => .structured
  | repeats _ => .decomposes
  | counts => .callable

/-- Adds a trait to the traits of an object, in the place of one of the same class. -/
def insert (t : Trait) : List Trait → List Trait
  | [] => [t]
  | u :: us => if u.className == t.className then t :: us else u :: insert t us

def members? : Trait → Option Members
  | members _ entries => some ⟨true, entries⟩
  | hiddenMembers entries => some ⟨false, entries⟩
  | _ => none

end Trait

namespace Composite

/-- A host's object with several traits, or with the first one alone. -/
def ofTraits (serial : Nat) (single : Bool) (name : Text) (traits : List Trait) : Composite :=
  .host serial single name (if single then traits.take 1 else traits.foldl (fun ts t => t.insert ts) [])

/-- The name a composite goes by. -/
def name : Composite → Text
  | struct t | record t _ => t.name
  | pattern .. => "pattern"
  | binder .. => "patternBind"
  | construction .. => "patternCtor"
  | host _ _ n _ => n

/-- The first trait of a host's object with an ability. -/
def trait? (c : Composite) (a : Trait.Ability) : Option Trait :=
  match c with
  | host _ _ _ traits => traits.find? fun t => t.ability == a
  | _ => none

/-- The named members of a composite that has any. -/
def members? : Composite → Option Members
  | record t values => some ⟨true, t.fields.zip values⟩
  | c => (c.trait? .structured).bind Trait.members?

end Composite

/-- The named members of a value, if it is an object that has any. -/
def Value.members? (v : Value) : Option Members :=
  match v.payload with
  | .object c => c.members?
  | _ => none

end StackCalc
