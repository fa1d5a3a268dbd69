import StackCalc.Pattern.Match
import Mathlib.Tactic.Common

/-! # Pieces of a pattern in any order

The program of a clause may add the pieces of its pattern in any order and any number of times, and the pattern may be
built at any point. What a builder refuses and what it builds is a matter of the calls that it has accepted so far
(`History`): after any calls it holds the pieces of those, and its mark says whether an action is among them
(`builder_history`), since one more call adds its piece or changes nothing (`perform_cases`). The mark decides what is
refused, and the pieces decide what is built; the two are never at odds (`hasAction_iff`). -/

namespace StackCalc.PatternBuilder

/-! ### Calls -/

/-- What a builder is asked for. -/
inductive Call where
  | part (p : Part)
  | guarded (guard action : Code)
  | fallback (action : Code)
  | build

namespace Call

/-- The call adds an action, under a guard or as the default. -/
def isAction : Call → Bool
  | guarded .. | fallback _ => true
  | _ => false

def part? : Call → Option Part
  | part p => some p
  | _ => none

def clause? : Call → Option (Code × Code)
  | guarded guard action => some (guard, action)
  | _ => none

def fallback? : Call → Option Code
  | fallback action => some action
  | _ => none

end Call

/-- What comes of a call, with the pattern if one was built, and the builder that it leaves. -/
def perform (b : PatternBuilder) : Call → Except Fault (Option Pattern) × PatternBuilder
  | .part p =>
    match b.addPart p with
    | .ok b' => (.ok none, b')
    | .error f => (.error f, b)
  | .guarded guard action =>
    match b.addGuarded guard action with
    | .ok b' => (.ok none, b')
    | .error f => (.error f, b)
  | .fallback action => (.ok none, b.addDefault action)
  | .build =>
    match b.build with
    | .ok p => (.ok (some p), b)
    | .error f => (.error f, b)

/-- A builder, and the calls that it has accepted, in order. -/
structure History where
  builder : PatternBuilder
  accepted : List Call

/-- One more call, which the builder accepts or refuses. -/
def History.next (h : History) (c : Call) : History where
  builder := (h.builder.perform c).2
  accepted := if (h.builder.perform c).1.isOk then h.accepted ++ [c] else h.accepted

/-- What calls make of a new builder. -/
def history (calls : List Call) : History := calls.foldl History.next ⟨empty, []⟩

/-! ### What a builder holds -/

/-- The builder with the piece of a call added. -/
def hold (b : PatternBuilder) : Call → PatternBuilder
  | .part p => { b with parts := b.parts ++ [p] }
  | .guarded guard action => { b with clauses := b.clauses ++ [(guard, action)], hasAction := true }
  | .fallback action => { b with fallback := some action, hasAction := true }
  | .build => b

/-- **The phase in which a call is out of place**: a part after an action, a guarded action after a default, and the
pattern when there is no action yet. -/
def Refuses (b : PatternBuilder) : Call → Prop
  | .part _ => b.hasAction = true
  | .guarded .. => b.fallback.isSome = true
  | .fallback _ => False
  | .build => b.clauses = [] ∧ b.fallback = none

/-- **A call is refused and changes nothing, or it adds its piece.** -/
theorem perform_cases (b : PatternBuilder) (c : Call) :
    (b.Refuses c ∧ ∃ f, b.perform c = (.error f, b) ∧ f.category = .patternUsage) ∨
      ¬ b.Refuses c ∧ ∃ p, b.perform c = (.ok p, b.hold c) := by
  cases c with
  | part p =>
    obtain ⟨parts, clauses, fallback, _ | _⟩ := b
    · exact .inr ⟨Bool.false_ne_true, none, rfl⟩
    · exact .inl ⟨rfl, _, rfl, rfl⟩
  | guarded guard action =>
    unfold perform addGuarded Refuses
    dsimp only
    rcases b.fallback.isSome with _ | _
    · exact .inr ⟨Bool.false_ne_true, none, rfl⟩
    · exact .inl ⟨rfl, _, rfl, rfl⟩
  | fallback action => exact .inr ⟨id, none, rfl⟩
  | build =>
    obtain ⟨parts, clauses, fallback, acted⟩ := b
    rcases clauses with _ | ⟨clause, clauses⟩
    · rcases fallback with _ | action
      · exact .inl ⟨⟨rfl, rfl⟩, _, rfl, rfl⟩
      · exact .inr ⟨fun h => Option.some_ne_none _ h.2, _, rfl⟩
    · exact .inr ⟨fun h => List.cons_ne_nil _ _ h.1, _, rfl⟩

/-- The builder that holds the pieces of calls, and is marked if an action is among them. -/
def holding (made : List Call) : PatternBuilder where
  parts := made.filterMap Call.part?
  clauses := made.filterMap Call.clause?
  fallback := (made.filterMap Call.fallback?).getLast?
  hasAction := made.any Call.isAction

theorem holding_concat (made : List Call) (c : Call) : holding (made ++ [c]) = (holding made).hold c := by
  unfold holding
  simp only [List.filterMap_append, List.getLast?_append, List.any_append]
  cases c with
  | part p => simp [hold, Call.part?, Call.clause?, Call.fallback?, Call.isAction]
  | guarded guard action => simp [hold, Call.part?, Call.clause?, Call.fallback?, Call.isAction]
  | fallback action => simp [hold, Call.part?, Call.clause?, Call.fallback?, Call.isAction]
  | build => simp [hold, Call.part?, Call.clause?, Call.fallback?, Call.isAction]

/-- One more call keeps the builder holding what it has accepted. -/
theorem History.next_holding {h : History} (hh : h.builder = holding h.accepted) (c : Call) :
    (h.next c).builder = holding (h.next c).accepted := by
  unfold next
  dsimp only
  rcases h.builder.perform_cases c with ⟨-, f, hc, -⟩ | ⟨-, p, hc⟩ <;> rw [hc]
  · exact hh
  · exact (congrArg (hold · c) hh).trans (holding_concat h.accepted c).symm

theorem History.foldl_holding : ∀ (calls : List Call) {h : History}, h.builder = holding h.accepted →
    (calls.foldl next h).builder = holding (calls.foldl next h).accepted
  | [], _, hh => hh
  | c :: calls, _, hh => foldl_holding calls (next_holding hh c)

/-- **A builder holds the pieces of the calls that it has accepted.** -/
theorem builder_history (calls : List Call) : (history calls).builder = holding (history calls).accepted :=
  History.foldl_holding calls rfl

/-! ### The phases -/

/-- Something has been taken from the calls exactly if one of them has it. -/
theorem filterMap_ne_nil_iff {α : Type} {made : List Call} {piece? : Call → Option α} :
    made.filterMap piece? ≠ [] ↔ ∃ c ∈ made, (piece? c).isSome = true := by
  rw [Ne, List.filterMap_eq_nil_iff]
  simp only [not_forall, exists_prop, Option.ne_none_iff_isSome]

theorem isSome_fallback_holding {made : List Call} :
    (holding made).fallback.isSome = true ↔ ∃ action, .fallback action ∈ made := by
  have hlast : (holding made).fallback.isSome = true ↔ made.filterMap Call.fallback? ≠ [] := List.getLast?_isSome
  rw [hlast, filterMap_ne_nil_iff]
  constructor
  · rintro ⟨c, hc, hpiece⟩
    cases c with
    | fallback action => exact ⟨action, hc⟩
    | _ => cases hpiece
  · rintro ⟨action, hc⟩
    exact ⟨_, hc, rfl⟩

/-- The mark of a builder says whether there is something to build. -/
theorem hasAction_iff {made : List Call} : (holding made).hasAction = true ↔
    ¬ ((holding made).clauses = [] ∧ (holding made).fallback = none) := by
  have hclauses : (holding made).clauses ≠ [] ↔ ∃ c ∈ made, (Call.clause? c).isSome = true := filterMap_ne_nil_iff
  rw [not_and_or, ← Ne, hclauses, ← Ne, Option.ne_none_iff_isSome, isSome_fallback_holding]
  constructor
  · intro h
    obtain ⟨c, hc, haction⟩ := List.any_eq_true.1 h
    cases c with
    | guarded guard action => exact .inl ⟨_, hc, rfl⟩
    | fallback action => exact .inr ⟨action, hc⟩
    | _ => cases haction
  · rintro (⟨c, hc, hpiece⟩ | ⟨action, hc⟩)
    · cases c with
      | guarded guard action => exact List.any_eq_true.2 ⟨_, hc, rfl⟩
      | _ => cases hpiece
    · exact List.any_eq_true.2 ⟨_, hc, rfl⟩

/-- **What a builder accepts and builds when it has accepted certain calls**, and that refusing changes nothing. -/
structure Follows (b : PatternBuilder) (made : List Call) : Prop where
  part_iff : ∀ p, (b.perform (.part p)).1.isOk ↔ ¬ ∃ c ∈ made, c.isAction
  guarded_iff : ∀ guard action, (b.perform (.guarded guard action)).1.isOk ↔ ¬ ∃ action, .fallback action ∈ made
  fallback_ok : ∀ action, (b.perform (.fallback action)).1.isOk
  build_iff : (b.perform .build).1.isOk ↔ ∃ c ∈ made, c.isAction
  refused : ∀ c f, (b.perform c).1 = .error f → f.category = .patternUsage ∧ (b.perform c).2 = b
  build_guarded : made.filterMap Call.clause? ≠ [] → b.perform .build =
    (.ok (some (.guarded (made.filterMap Call.part?) (made.filterMap Call.clause?)
      (made.filterMap Call.fallback?).getLast?)), b)
  build_plain : made.filterMap Call.clause? = [] → ∀ action, (made.filterMap Call.fallback?).getLast? = some action →
    b.perform .build = (.ok (some (.plain (made.filterMap Call.part?) action)), b)

theorem isOk_perform_iff {b : PatternBuilder} {c : Call} : (b.perform c).1.isOk ↔ ¬ b.Refuses c := by
  rcases b.perform_cases c with ⟨hrefuses, f, hc, -⟩ | ⟨haccepts, p, hc⟩ <;> rw [hc]
  · exact iff_of_false Bool.false_ne_true (not_not_intro hrefuses)
  · exact iff_of_true rfl haccepts

/-- **The phases of a pattern under construction**, whatever has been asked of the builder, and in whatever order: parts
are accepted until an action is, guarded actions until a default is, and defaults always. What can be built at any point
has the parts and the actions that have been accepted, in order, with the last of the defaults. -/
theorem follows_history (calls : List Call) : (history calls).builder.Follows (history calls).accepted := by
  rw [builder_history]
  generalize (history calls).accepted = made
  exact {
    part_iff := fun p => isOk_perform_iff.trans (not_congr List.any_eq_true)
    guarded_iff := fun guard action => isOk_perform_iff.trans (not_congr isSome_fallback_holding)
    fallback_ok := fun action => rfl
    build_iff := isOk_perform_iff.trans (hasAction_iff.symm.trans List.any_eq_true)
    refused := fun c f h => by
      rcases (holding made).perform_cases c with ⟨-, g, hc, hg⟩ | ⟨-, p, hc⟩ <;> rw [hc] at h ⊢
      · cases h
        exact ⟨hg, rfl⟩
      · cases h
    build_guarded := fun hclauses => by
      obtain ⟨clause, clauses, hcons⟩ := List.exists_cons_of_ne_nil hclauses
      unfold perform build holding
      dsimp only
      rw [hcons]
    build_plain := fun hclauses action hlast => by
      unfold perform build holding
      dsimp only
      rw [hclauses, hlast] }

end StackCalc.PatternBuilder
