import StackCalc.Proofs.Machine.Confinement
import StackCalc.Proofs.Machine.Conventions
import StackCalc.Proofs.Pattern.Match
import StackCalc.Proofs.Scope.Binding
import StackCalc.Proofs.Scope.Lookup

/-! # The first alternative that matches

A matching function tries its alternatives in order. For one of them, on the machine it is tried on, there
are three possibilities (`alternative_cases`): it is passed over, since its arity is wrong, a part does not
match or no action is chosen (`PassedOver`); it is selected (`Selects`); or it breaks, and that ends the
call (`Breaks`). They are told apart by what parts match and by how guards come out. -/

namespace StackCalc

/-- The values on top, bottom first. -/
def Machine.topValues (m : Machine) (count : Nat) : List Value := (m.storage.take count).reverse

/-- The machine with a new layer of bindings over a scope. -/
def Machine.withLayer (m : Machine) (scope : ScopeId) (b : Bindings) : Machine :=
  { m with scopes := ⟨m.scopes.scopes.push (.layer scope b)⟩ }

/-! ### Choosing an action -/

section Choosing

variable (c : Caller) (bindings : ScopeId) (traced : Bool)

/-- **Guards are tried in order**: the first that comes out true has its action chosen, and if none does
it is the fallback that is chosen. -/
inductive ChoosesClause (fallback : Option Code) :
    List (Code × Code) → Machine → Option Code → Machine → Prop where
  | fallback (m : Machine) : ChoosesClause fallback [] m fallback m
  | here {guard action : Code} {clauses : List (Code × Code)} {m m' : Machine}
      (h : (runGuard c bindings traced guard).outcome m = (.ok true, m')) :
      ChoosesClause fallback ((guard, action) :: clauses) m (some action) m'
  | next {guard action : Code} {clauses : List (Code × Code)} {m m' m'' : Machine} {chosen : Option Code}
      (h : (runGuard c bindings traced guard).outcome m = (.ok false, m'))
      (hrest : ChoosesClause fallback clauses m' chosen m'') :
      ChoosesClause fallback ((guard, action) :: clauses) m chosen m''

/-- The action that a pattern chooses once its parts have matched, if any. -/
inductive Pattern.Chooses : Pattern → Machine → Option Code → Machine → Prop where
  | plain (parts : List Part) (action : Code) (m : Machine) :
      Pattern.Chooses (.plain parts action) m (some action) m
  | guarded {parts : List Part} {clauses : List (Code × Code)} {fallback chosen : Option Code}
      {m m' : Machine} (h : ChoosesClause c bindings traced fallback clauses m chosen m') :
      Pattern.Chooses (.guarded parts clauses fallback) m chosen m'

/-- A guard ends in a fault, after others that came out false. -/
inductive GuardFails : List (Code × Code) → Machine → Fault → Machine → Prop where
  | here {guard action : Code} {clauses : List (Code × Code)} {m m' : Machine} {e : Fault}
      (h : (runGuard c bindings traced guard).outcome m = (.error e, m')) :
      GuardFails ((guard, action) :: clauses) m e m'
  | next {guard action : Code} {clauses : List (Code × Code)} {m m' m'' : Machine} {e : Fault}
      (h : (runGuard c bindings traced guard).outcome m = (.ok false, m'))
      (hrest : GuardFails clauses m' e m'') : GuardFails ((guard, action) :: clauses) m e m''

/-- The guards of a pattern. -/
def Pattern.clauses : Pattern → List (Code × Code)
  | .plain _ _ => []
  | .guarded _ clauses _ => clauses

variable {c bindings traced}

theorem ChoosesClause.outcome {fallback chosen : Option Code} {clauses : List (Code × Code)} {m m' : Machine}
    (h : ChoosesClause c bindings traced fallback clauses m chosen m') :
    (selectClause c bindings traced fallback clauses).outcome m = (.ok chosen, m') := by
  induction h with
  | fallback m => rfl
  | here h =>
    rw [selectClause, Run.outcome_bind_of_ok h]
    rfl
  | next h _ ih =>
    rw [selectClause, Run.outcome_bind_of_ok h]
    exact ih

theorem GuardFails.outcome {fallback : Option Code} {clauses : List (Code × Code)} {m m' : Machine} {e : Fault}
    (h : GuardFails c bindings traced clauses m e m') :
    (selectClause c bindings traced fallback clauses).outcome m = (.error e, m') := by
  induction h with
  | here h => rw [selectClause, Run.outcome_bind_of_error h]
  | next h _ ih =>
    rw [selectClause, Run.outcome_bind_of_ok h]
    exact ih

theorem Pattern.Chooses.outcome {p : Pattern} {chosen : Option Code} {m m' : Machine}
    (h : p.Chooses c bindings traced m chosen m') :
    (p.selectAction c bindings traced).outcome m = (.ok chosen, m') := by
  cases h with
  | plain => rfl
  | guarded h => exact h.outcome

theorem GuardFails.outcome_selectAction {p : Pattern} {m m' : Machine} {e : Fault}
    (h : GuardFails c bindings traced p.clauses m e m') :
    (p.selectAction c bindings traced).outcome m = (.error e, m') := by
  cases p with
  | plain => cases h
  | guarded => exact h.outcome

theorem clause_cases (fallback : Option Code) : ∀ (clauses : List (Code × Code)) (m : Machine),
    (∃ chosen m', ChoosesClause c bindings traced fallback clauses m chosen m') ∨
      ∃ e m', GuardFails c bindings traced clauses m e m'
  | [], m => .inl ⟨fallback, m, .fallback m⟩
  | (guard, action) :: clauses, m => by
    rcases h : (runGuard c bindings traced guard).outcome m with ⟨e | _ | _, m'⟩
    · exact .inr ⟨e, m', .here h⟩
    · rcases clause_cases fallback clauses m' with ⟨chosen, m'', hrest⟩ | ⟨e, m'', hrest⟩
      · exact .inl ⟨chosen, m'', .next h hrest⟩
      · exact .inr ⟨e, m'', .next h hrest⟩
    · exact .inl ⟨some action, m', .here h⟩

/-- A pattern chooses, or one of its guards fails. -/
theorem Pattern.chooses_cases (p : Pattern) (m : Machine) :
    (∃ chosen m', p.Chooses c bindings traced m chosen m') ∨
      ∃ e m', GuardFails c bindings traced p.clauses m e m' := by
  cases p with
  | plain parts action => exact .inl ⟨some action, m, .plain parts action m⟩
  | guarded parts clauses fallback =>
    rcases clause_cases fallback clauses m with ⟨chosen, m', h⟩ | h
    · exact .inl ⟨chosen, m', .guarded h⟩
    · exact .inr h

end Choosing

/-! ### One alternative -/

/-- The machine on which guards are tried: the entries are bound in a layer of their own. -/
def Machine.bound (m : Machine) (scope : ScopeId) (entries : Bindings) : Machine :=
  m.withLayer scope (Bindings.putAll [] entries)

section Alternative

variable (c : Caller) (f : Frame) (env : Text → Option Symbol) (scope : ScopeId) (args : Option Int)

/-- The arity of a pattern is right, and there are as many values as it wants. -/
structure Pattern.Fits (m : Machine) (p : Pattern) : Prop where
  suits : suits p.parts.length args (f.view.size m.storage) = true
  depth : (p.parts.length : Int) ≤ f.view.size m.storage

/-- **An alternative is passed over.** -/
inductive PassedOver : Machine → Pattern → Machine → Prop where
  | arity {m : Machine} {p : Pattern}
      (h : suits p.parts.length args (f.view.size m.storage) = false) : PassedOver m p m
  | mismatch {m : Machine} {p : Pattern} {made : Bindings} (hfits : p.Fits f args m)
      (h : (p.accepts env (m.topValues p.parts.length)).outcome [] = (.ok false, made)) :
      PassedOver m p (m.bound scope made)
  | noAction {m m' : Machine} {p : Pattern} {entries : Bindings} (hfits : p.Fits f args m)
      (hparts : Part.MatchAll env p.parts (m.topValues p.parts.length) entries)
      (h : p.Chooses c m.scopes.scopes.size f.trace (m.bound scope entries) none m') : PassedOver m p m'

/-- **An alternative is selected**: its parts match the values on top and bind the entries, and it chooses
the action. -/
structure Selects (m : Machine) (p : Pattern) (entries : Bindings) (action : Code) (m' : Machine) : Prop where
  fits : p.Fits f args m
  parts : Part.MatchAll env p.parts (m.topValues p.parts.length) entries
  chooses : p.Chooses c m.scopes.scopes.size f.trace (m.bound scope entries) (some action) m'

/-- **An alternative breaks**: the declared number of values is not there, a constructor is none or breaks
its contract, or a guard fails. -/
inductive Breaks : Machine → Pattern → Fault → Machine → Prop where
  | depth {m : Machine} {p : Pattern} {n : Int} (hargs : args = some n) (hn : n = p.parts.length)
      (h : f.view.size m.storage < n) : Breaks m p (.tooFewValues n (f.view.size m.storage)) m
  | parts {m : Machine} {p : Pattern} {e : Fault} {made : Bindings} (hfits : p.Fits f args m)
      (h : (p.accepts env (m.topValues p.parts.length)).outcome [] = (.error e, made)) :
      Breaks m p e (m.bound scope made)
  | guard {m m' : Machine} {p : Pattern} {entries : Bindings} {e : Fault} (hfits : p.Fits f args m)
      (hparts : Part.MatchAll env p.parts (m.topValues p.parts.length) entries)
      (h : GuardFails c m.scopes.scopes.size f.trace p.clauses (m.bound scope entries) e m') : Breaks m p e m'

variable {c f env scope args}

theorem length_topValues {m : Machine} {p : Pattern} (h : p.Fits f args m) :
    (m.topValues p.parts.length).length = p.parts.length := by
  have hdepth := h.depth
  unfold View.size at hdepth
  rw [Machine.topValues, List.length_reverse, List.length_take]
  omega

/-- An alternative of the right arity that wants more values than there are: the count is declared. -/
theorem exists_declared {required : Nat} {size : Int} (h : suits required args size = true)
    (hsize : size < required) : ∃ n : Int, args = some n ∧ n = required := by
  unfold suits at h
  rcases args with _ | n
  · simp only [decide_eq_true_eq] at h
    omega
  · exact ⟨n, rfl, eq_of_beq h⟩

/-- **There is no fourth possibility.** -/
theorem alternative_cases (c : Caller) (f : Frame) (env : Text → Option Symbol) (scope : ScopeId)
    (args : Option Int) (m : Machine) (p : Pattern) :
    (∃ m', PassedOver c f env scope args m p m') ∨
      (∃ entries action m', Selects c f env scope args m p entries action m') ∨
      ∃ e m', Breaks c f env scope args m p e m' := by
  rcases hsuits : suits p.parts.length args (f.view.size m.storage) with _ | _
  · exact .inl ⟨m, .arity hsuits⟩
  · by_cases hdepth : f.view.size m.storage < p.parts.length
    · obtain ⟨n, hargs, hn⟩ := exists_declared hsuits hdepth
      exact .inr (.inr ⟨_, m, .depth hargs hn (hn ▸ hdepth)⟩)
    · have hfits : p.Fits f args m := ⟨hsuits, Int.not_lt.mp hdepth⟩
      rcases ha : (p.accepts env (m.topValues p.parts.length)).outcome [] with ⟨e | _ | _, made⟩
      · exact .inr (.inr ⟨e, _, .parts hfits ha⟩)
      · exact .inl ⟨_, .mismatch hfits ha⟩
      · obtain ⟨entries, hparts, rfl⟩ := (Pattern.outcome_accepts_iff (length_topValues hfits)).1 ha
        rcases p.chooses_cases (m.bound scope entries) with ⟨_ | action, m', hc⟩ | ⟨e, m', hg⟩
        · exact .inl ⟨m', .noAction hfits hparts hc⟩
        · exact .inr (.inl ⟨entries, action, m', hfits, hparts, hc⟩)
        · exact .inr (.inr ⟨e, m', .guard hfits hparts hg⟩)

/-! ### What trying an alternative changes -/

/-- The stack stays as it is, and no scope that was there is bound in. -/
structure Machine.Tried (m m' : Machine) : Prop where
  storage : m'.storage = m.storage
  scopes : ∀ i < m.scopes.scopes.size, m'.scopes.scopes[i]? = m.scopes.scopes[i]?
  size_le : m.scopes.scopes.size ≤ m'.scopes.scopes.size

theorem Machine.Tried.refl (m : Machine) : m.Tried m := ⟨rfl, fun _ _ => rfl, le_rfl⟩

theorem Machine.Tried.trans {m n o : Machine} (h : m.Tried n) (h' : n.Tried o) : m.Tried o where
  storage := h'.storage.trans h.storage
  scopes := fun i hi => (h'.scopes i (Nat.lt_of_lt_of_le hi h.size_le)).trans (h.scopes i hi)
  size_le := Nat.le_trans h.size_le h'.size_le

theorem Machine.tried_withLayer (m : Machine) (scope : ScopeId) (b : Bindings) : m.Tried (m.withLayer scope b) where
  storage := rfl
  scopes := fun i hi => by
    rw [Machine.withLayer, Array.getElem?_push_lt hi, Array.getElem?_eq_getElem hi]
  size_le := by simp [Machine.withLayer]

/-- Runs that are idle and bind nothing try. -/
theorem Machine.tried_of_outcome {α : Type} {r : Run α} (hi : Run.Idle r) (hw : Run.Within none r)
    {m m' : Machine} {x : Except Fault α} (h : r.outcome m = (x, m')) : m.Tried m' := by
  have hstorage := hi m
  have hscopes := (hw m).scopes
  rw [h] at hstorage hscopes
  exact ⟨hstorage, fun i hi => hscopes.kept i hi (by simp [Forest.targetVia]), hscopes.size_le⟩

theorem Pattern.Chooses.tried (hc : c.Confined) {bindings : ScopeId} {traced : Bool} {p : Pattern}
    {chosen : Option Code} {m m' : Machine} (h : p.Chooses c bindings traced m chosen m') : m.Tried m' :=
  Machine.tried_of_outcome (selectAction_idle c bindings traced p) (selectAction_within hc bindings traced p)
    h.outcome

theorem GuardFails.tried (hc : c.Confined) {bindings : ScopeId} {traced : Bool} {p : Pattern} {e : Fault}
    {m m' : Machine} (h : GuardFails c bindings traced p.clauses m e m') : m.Tried m' :=
  Machine.tried_of_outcome (selectAction_idle c bindings traced p) (selectAction_within hc bindings traced p)
    h.outcome_selectAction

theorem PassedOver.tried (hc : c.Confined) {m m' : Machine} {p : Pattern}
    (h : PassedOver c f env scope args m p m') : m.Tried m' := by
  cases h with
  | arity => exact .refl m
  | mismatch => exact m.tried_withLayer scope _
  | noAction _ _ h => exact (m.tried_withLayer scope _).trans (h.tried hc)

theorem Breaks.tried (hc : c.Confined) {m m' : Machine} {p : Pattern} {e : Fault}
    (h : Breaks c f env scope args m p e m') : m.Tried m' := by
  cases h with
  | depth => exact .refl m
  | parts => exact m.tried_withLayer scope _
  | guard _ _ h => exact (m.tried_withLayer scope _).trans (h.tried hc)

/-! ### Running an alternative -/

/-- Selecting in a layer that has just been made: the entries are bound in it, and then guards are tried. -/
theorem Pattern.outcome_select (p : Pattern) (traced : Bool) (vs : List Value) (m : Machine) :
    (p.select c scope m.scopes.scopes.size traced vs).outcome (m.withLayer scope []) =
      match (p.accepts ((m.withLayer scope []).scopes.find? scope) vs).outcome [] with
      | (.error e, made) => (.error e, m.bound scope made)
      | (.ok false, made) => (.ok none, m.bound scope made)
      | (.ok true, made) => (p.selectAction c m.scopes.scopes.size traced).outcome (m.bound scope made) := by
  have howns : (m.withLayer scope []).scopes.Owns m.scopes.scopes.size :=
    Forest.owns_of_layer Array.getElem?_push_size
  have hbound : ∀ made, (Run.putAll m.scopes.scopes.size made).outcome (m.withLayer scope []) =
      (.ok (), m.bound scope made) := fun made => by
    rw [Run.outcome_putAll made howns, Machine.withLayer, Forest.bindAll_push]
    rfl
  unfold Pattern.select
  rw [Run.outcome_get_bind]
  dsimp only
  rcases (p.accepts ((m.withLayer scope []).scopes.find? scope) vs).outcome [] with ⟨e | _ | _, made⟩ <;>
    rw [Run.outcome_bind_of_ok (hbound made)] <;> rfl

/-- Looking constructors up while an alternative is tried: the scope does not lead to the layer for the
names that are bound, and what it leads to is as it was. -/
theorem find?_withLayer {m m' : Machine} (hm : m.scopes.Ordered) (hscope : scope < m.scopes.scopes.size)
    (h : m.Tried m') : (m'.withLayer scope []).scopes.find? scope = m.scopes.find? scope := by
  funext name
  have hkept : ∀ i < m.scopes.scopes.size, (m'.withLayer scope []).scopes.scopes[i]? = m.scopes.scopes[i]? :=
    (h.trans (m'.tried_withLayer scope [])).scopes
  have hlt : (scope : Nat) < scope + 1 := Nat.lt_succ_self _
  exact Forest.findWithin_congr hm hkept name _ _ _ hscope hlt hlt

/-- The machine on which an action starts: the values have been taken off the stack, and there is a new
layer over the bindings. -/
def Machine.entered (m : Machine) (bindings : ScopeId) (required : Nat) (e : Event) : Machine :=
  { m with
    storage := m.storage.drop required
    scopes := ⟨m.scopes.scopes.push (.layer bindings [])⟩
    log := if m.logging then m.log.push e else m.log }

/-- The frame in which an action runs: its scope is new, and it sees nothing of the stack. -/
def Machine.actionFrame (m : Machine) (traced : Bool) (required : Nat) : Frame :=
  ⟨m.scopes.scopes.size, ⟨(m.storage.drop required).length⟩, traced⟩

theorem outcome_enter (e : Event) {candidates : View} (bindings : ScopeId) {required : Nat} (k : Frame → Run Unit)
    {m : Machine} (hcandidates : candidates.base = m.storage.length - required)
    (hdepth : (required : Int) ≤ f.view.size m.storage) :
    (do
      Run.note e
      modify fun m => { m with storage := candidates.clear m.storage }
      let frame ← Run.inner f bindings 0
      k frame : Run Unit).outcome m =
      (k (m.actionFrame f.trace required)).outcome (m.entered bindings required e) := by
  have hclear : candidates.clear m.storage = m.storage.drop required := by
    unfold View.size at hdepth
    rw [View.clear, hcandidates]
    congr 1
    omega
  have hview : f.view.sub (m.storage.drop required) 0 = .ok ⟨(m.storage.drop required).length⟩ := by
    unfold View.size at hdepth
    rw [View.sub, if_neg (by omega), if_neg (by rw [View.size, List.length_drop]; omega)]
    rfl
  have hnote : (Run.note e).outcome m = (.ok (), { m with log := if m.logging then m.log.push e else m.log }) := by
    change (Except.ok (), if m.logging then { m with log := m.log.push e } else m) = _
    split_ifs <;> rfl
  rw [Run.outcome_bind_of_ok hnote, Run.outcome_bind_of_ok (Run.outcome_modify _ _)]
  dsimp only
  rw [hclear]
  refine Run.outcome_bind_of_ok ?_
  rw [Run.inner, Run.outcome_bind_of_ok (by rw [Run.outcome_sub, hview])]
  rfl

section Running

variable {m m' : Machine} {p : Pattern} {rest : List Pattern} {index total : Nat} {results : Option Int}

/-- An alternative that fits: its action is selected in a layer of its own, and run if there is one. -/
theorem outcome_callMatching_of_fits (hfits : p.Fits f args m) :
    (callMatching c f scope args results total index (p :: rest)).outcome m =
      match (p.select c scope m.scopes.scopes.size f.trace (m.topValues p.parts.length)).outcome
        (m.withLayer scope []) with
      | (.error e, m') => (.error e, m')
      | (.ok none, m') => (callMatching c f scope args results total (index + 1) rest).outcome m'
      | (.ok (some action), m') =>
        (do
          let frame := m'.actionFrame f.trace p.parts.length
          runSteps c frame action.steps
          Run.checkResults frame results).outcome
            (m'.entered m.scopes.scopes.size p.parts.length (.alternative (index + 1) total)) := by
  obtain ⟨hsuits, hdepth⟩ := hfits
  have hsub : (Run.sub f p.parts.length).outcome m = (.ok ⟨m.storage.length - p.parts.length⟩, m) := by
    rw [Run.outcome_sub, View.sub, if_neg (by omega), if_neg (by omega), Int.toNat_natCast]
  have hvalues : View.values ⟨m.storage.length - p.parts.length⟩ m.storage = m.topValues p.parts.length := by
    unfold View.size at hdepth
    rw [View.values, Machine.topValues]
    congr 2
    dsimp only
    omega
  rw [callMatching, Run.outcome_bind_of_ok (Run.outcome_size f m), if_pos hsuits, Run.outcome_bind_of_ok hsub,
    Run.outcome_bind_of_ok (Run.outcome_grow _ m), Run.outcome_get_bind]
  dsimp only
  rw [hvalues]
  change ((p.select c scope m.scopes.scopes.size f.trace (m.topValues p.parts.length)) >>= _).outcome
    (m.withLayer scope []) = _
  have hidle := select_idle c scope m.scopes.scopes.size f.trace p (m.topValues p.parts.length) (m.withLayer scope [])
  rcases hselect : (p.select c scope m.scopes.scopes.size f.trace (m.topValues p.parts.length)).outcome
    (m.withLayer scope []) with ⟨e | _ | action, m'⟩
  · rw [Run.outcome_bind_of_error hselect]
  · rw [Run.outcome_bind_of_ok hselect]
  · rw [hselect] at hidle
    have hstorage : m'.storage = m.storage := hidle
    rw [Run.outcome_bind_of_ok hselect]
    exact outcome_enter _ _ _ (by rw [hstorage]) (by rw [hstorage]; exact hdepth)

variable (henv : (m.withLayer scope []).scopes.find? scope = env)
include henv

/-- Selecting after a match: it is left to the guards. -/
theorem Pattern.outcome_select_of_matches {entries : Bindings} (hfits : p.Fits f args m)
    (hparts : Part.MatchAll env p.parts (m.topValues p.parts.length) entries) :
    (p.select c scope m.scopes.scopes.size f.trace (m.topValues p.parts.length)).outcome (m.withLayer scope []) =
      (p.selectAction c m.scopes.scopes.size f.trace).outcome (m.bound scope entries) := by
  have haccepts : (p.accepts env (m.topValues p.parts.length)).outcome [] =
      (.ok true, Bindings.putAll [] entries) :=
    (Pattern.outcome_accepts_iff (length_topValues hfits)).2 ⟨entries, hparts, rfl⟩
  have hbound : m.bound scope (Bindings.putAll [] entries) = m.bound scope entries := by
    rw [Machine.bound, Bindings.putAll_putAll_nil, Machine.bound]
  rw [Pattern.outcome_select, henv, haccepts]
  dsimp only
  rw [hbound]

theorem PassedOver.outcome (h : PassedOver c f env scope args m p m') :
    (callMatching c f scope args results total index (p :: rest)).outcome m =
      (callMatching c f scope args results total (index + 1) rest).outcome m' := by
  cases h with
  | arity h => rw [callMatching, Run.outcome_bind_of_ok (Run.outcome_size f m), if_neg (by rw [h]; decide)]
  | mismatch hfits h => rw [outcome_callMatching_of_fits hfits, Pattern.outcome_select, henv, h]
  | noAction hfits hparts h =>
    rw [outcome_callMatching_of_fits hfits, Pattern.outcome_select_of_matches henv hfits hparts, h.outcome]

theorem Selects.outcome {entries : Bindings} {action : Code} (h : Selects c f env scope args m p entries action m') :
    (callMatching c f scope args results total index (p :: rest)).outcome m =
      (do
        let frame := m'.actionFrame f.trace p.parts.length
        runSteps c frame action.steps
        Run.checkResults frame results).outcome
          (m'.entered m.scopes.scopes.size p.parts.length (.alternative (index + 1) total)) := by
  rw [outcome_callMatching_of_fits h.fits, Pattern.outcome_select_of_matches henv h.fits h.parts, h.chooses.outcome]

theorem Breaks.outcome {e : Fault} (h : Breaks c f env scope args m p e m') :
    (callMatching c f scope args results total index (p :: rest)).outcome m = (.error e, m') := by
  cases h with
  | @depth _ n hargs hn h =>
    have hsuits : suits p.parts.length args (f.view.size m.storage) = true := by
      rw [hargs, hn, suits]
      exact beq_self_eq_true _
    have hsub : (Run.sub f p.parts.length).outcome m = (.error (.tooFewValues n (f.view.size m.storage)), m) := by
      rw [Run.outcome_sub, View.sub, if_neg (by omega), if_pos (by omega), hn]
    rw [callMatching, Run.outcome_bind_of_ok (Run.outcome_size f m), if_pos hsuits, Run.outcome_bind_of_error hsub]
  | parts hfits h => rw [outcome_callMatching_of_fits hfits, Pattern.outcome_select, henv, h]
  | guard hfits hparts h =>
    rw [outcome_callMatching_of_fits hfits, Pattern.outcome_select_of_matches henv hfits hparts,
      h.outcome_selectAction]

end Running

end Alternative

end StackCalc
