import StackCalc.Proofs.Run.Outcome

/-! # How deep calls may nest

The limit on nested calls matters to a run only by ending it: one that does not exceed the limit ends in the same
way, on the same machine, under every higher limit (`refines_callAt`). `Run.Refines r s` says this of two runs:
`r` ends as `s` does, unless it ends because its calls nest too deep.

The proof goes through the functions of the machine that make calls or run code, and on to calls by induction on
the depth of nesting. What makes no calls is the same run twice. -/

namespace StackCalc

namespace Run

variable {α β : Type}

/-- **The one run ends as the other does**, unless its calls nest too deep. -/
def Refines (r s : Run α) : Prop :=
  ∀ m : Machine, (r.outcome m).1 = .error .depthExceeded ∨ r.outcome m = s.outcome m

namespace Refines

theorem refl (r : Run α) : Refines r r := fun _ => .inr rfl

/-- A run that ends too deep says nothing of the other. -/
theorem tooDeep (s : Run α) : Refines (throw .depthExceeded) s := fun _ => .inl rfl

theorem bind {r s : Run α} {k l : α → Run β} (h : Refines r s) (hk : ∀ a, Refines (k a) (l a)) :
    Refines (r >>= k) (s >>= l) := by
  intro m
  rw [outcome_bind, outcome_bind]
  rcases h m with hdeep | hsame
  · rcases hr : r.outcome m with ⟨e | a, m'⟩ <;> rw [hr] at hdeep <;> cases hdeep
    exact .inl rfl
  · rw [← hsame]
    rcases r.outcome m with ⟨e | a, m'⟩
    · exact .inr rfl
    · exact hk a m'

/-- After the same run. -/
theorem after (r : Run α) {k l : α → Run β} (hk : ∀ a, Refines (k a) (l a)) : Refines (r >>= k) (r >>= l) :=
  bind (refl r) hk

theorem ite {p : Prop} [Decidable p] {r s r' s' : Run α} (h : Refines r s) (h' : Refines r' s') :
    Refines (if p then r else r') (if p then s else s') := by
  by_cases hp : p
  · rwa [if_pos hp, if_pos hp]
  · rwa [if_neg hp, if_neg hp]

theorem aside {r s : Run α} (h : Refines r s) : Refines (aside r) (aside s) := fun m => by
  rw [outcome_aside, outcome_aside]
  exact (h { m with storage := [] }).imp_right fun hsame => by rw [hsame]

end Refines

end Run

open Run (Refines)

/-- The calls of the one end as those of the other, unless they nest too deep. -/
def Caller.Refines (c d : Caller) : Prop :=
  ∀ (f : Frame) (v : Value) (args results : Option Int), Run.Refines (c f v args results) (d f v args results)

theorem callFixed_refines (f : Frame) (takes gives : Nat) (args results : Option Int) {body body' : Run Unit}
    (h : Refines body body') :
    Refines (callFixed f takes gives args results body) (callFixed f takes gives args results body') := by
  rw [callFixed_eq, callFixed_eq]
  refine Refines.after _ fun _ => Refines.after _ fun _ => Refines.after _ fun before => ?_
  exact Refines.ite (Refines.refl _) (Refines.bind h fun _ => Refines.refl _)

section
variable {c d : Caller} (hc : c.Refines d)
include hc

/-! ### Running steps -/

theorem callSymbol_refines (f : Frame) (args results : Option Int) (s : Symbol) :
    Refines (callSymbol c f args results s) (callSymbol d f args results s) := by
  cases s with
  | value v => exact hc f v args results
  | placeholder name => exact Refines.refl _

theorem step_refines (f : Frame) (i : Instr) : Refines (step c f i) (step d f i) := by
  cases i with
  | call name args results => exact Refines.after _ fun s => callSymbol_refines hc f args results s
  | _ => exact Refines.refl _

theorem runSteps_refines (f : Frame) : ∀ steps : List Instr, Refines (runSteps c f steps) (runSteps d f steps)
  | [] => Refines.refl _
  | i :: steps => Refines.after _ fun _ => Refines.bind (step_refines hc f i) fun _ => runSteps_refines f steps

theorem runAside_refines (scope : ScopeId) (traced : Bool) (code : Code) :
    Refines (runAside c scope traced code) (runAside d scope traced code) :=
  Refines.aside (Refines.bind (runSteps_refines hc _ _) fun _ => Refines.refl _)

/-! ### Matching -/

theorem runGuard_refines (bindings : ScopeId) (traced : Bool) (guard : Code) :
    Refines (runGuard c bindings traced guard) (runGuard d bindings traced guard) :=
  Refines.after _ fun scope => Refines.bind (runAside_refines hc scope traced guard) fun _ => Refines.refl _

theorem selectClause_refines (bindings : ScopeId) (traced : Bool) (fallback : Option Code) :
    ∀ clauses : List (Code × Code),
      Refines (selectClause c bindings traced fallback clauses) (selectClause d bindings traced fallback clauses)
  | [] => Refines.refl _
  | (guard, _) :: rest => Refines.bind (runGuard_refines hc bindings traced guard) fun _ =>
      Refines.ite (Refines.refl _) (selectClause_refines bindings traced fallback rest)

theorem selectAction_refines (bindings : ScopeId) (traced : Bool) (p : Pattern) :
    Refines (p.selectAction c bindings traced) (p.selectAction d bindings traced) := by
  cases p with
  | plain parts action => exact Refines.refl _
  | guarded parts clauses fallback => exact selectClause_refines hc bindings traced fallback clauses

theorem select_refines (env bindings : ScopeId) (traced : Bool) (p : Pattern) (vs : List Value) :
    Refines (p.select c env bindings traced vs) (p.select d env bindings traced vs) := by
  refine Refines.after _ fun m => ?_
  dsimp only
  generalize Matching.outcome (p.accepts (m.scopes.find? env) vs) [] = result
  obtain ⟨accepted, made⟩ := result
  refine Refines.after _ fun _ => ?_
  rcases accepted with e | _ | _
  · exact Refines.refl _
  · exact Refines.refl _
  · exact selectAction_refines hc bindings traced p

theorem callMatching_refines (f : Frame) (scope : ScopeId) (args results : Option Int) (total : Nat) :
    ∀ (index : Nat) (ps : List Pattern), Refines (callMatching c f scope args results total index ps)
      (callMatching d f scope args results total index ps)
  | _, [] => Refines.refl _
  | index, p :: rest => by
    have hrest := callMatching_refines f scope args results total (index + 1) rest
    refine Refines.after _ fun size => Refines.ite ?_ hrest
    refine Refines.after _ fun candidates => Refines.after _ fun bindings => Refines.after _ fun m => ?_
    refine Refines.bind (select_refines hc scope bindings f.trace p _) fun action => ?_
    cases action with
    | none => exact hrest
    | some action =>
      refine Refines.after _ fun _ => Refines.after _ fun _ => Refines.after _ fun frame => ?_
      exact Refines.bind (runSteps_refines hc frame _) fun _ => Refines.refl _

/-! ### Constructing patterns -/

theorem addPart_refines (f : Frame) (builder : Nat) : Refines (addPart c f builder) (addPart d f builder) := by
  refine Refines.after _ fun v => Refines.after _ fun code => Refines.after _ fun literals => ?_
  exact Refines.bind (runAside_refines hc literals f.trace code) fun _ => Refines.refl _

theorem construct_refines (traced : Bool) (program : Code) :
    Refines (construct c traced program) (construct d traced program) :=
  Refines.after _ fun _ => Refines.after _ fun scope =>
    Refines.bind (runAside_refines hc scope traced program) fun _ => Refines.refl _

/-! ### Functions that run code -/

theorem callWithMembers_refines (f : Frame) (args results : Option Int) :
    Refines (callWithMembers c f args results) (callWithMembers d f args results) := by
  refine callFixed_refines f 2 1 args results ?_
  refine Refines.after _ fun v => Refines.after _ fun code => Refines.after _ fun target => ?_
  cases target.members? with
  | none => exact Refines.refl _
  | some members =>
    refine Refines.after _ fun scope => Refines.after _ fun _ => ?_
    exact Refines.bind (runAside_refines hc scope f.trace code) fun _ => Refines.refl _

theorem callPattern_refines (f : Frame) (args results : Option Int) :
    Refines (callPattern c f args results) (callPattern d f args results) := by
  refine callFixed_refines f 1 1 args results ?_
  refine Refines.after _ fun v => Refines.after _ fun program => ?_
  exact Refines.bind (construct_refines hc f.trace program) fun _ => Refines.refl _

theorem callApply_refines (f : Frame) (args results : Option Int) :
    Refines (callApply c f args results) (callApply d f args results) := by
  cases args with
  | none => exact Refines.refl _
  | some n =>
    rw [callApply_some, callApply_some]
    refine Refines.ite (Refines.refl _) (Refines.after _ fun vs => ?_)
    cases vs with
    | nil => exact Refines.refl _
    | cons target given => exact Refines.after _ fun _ => hc f target _ results

theorem callExecute_refines (f : Frame) (args results : Option Int) :
    Refines (callExecute c f args results) (callExecute d f args results) := by
  rw [callExecute_eq, callExecute_eq]
  refine Refines.after _ fun _ => Refines.after _ fun v => Refines.after _ fun code => ?_
  exact Refines.after _ fun frame => Refines.bind (runSteps_refines hc frame _) fun _ => Refines.refl _

theorem callClosure_refines (f : Frame) (params : List Text) (body : List Instr) (scope : ScopeId)
    (args results : Option Int) :
    Refines (callClosure c f params body scope args results) (callClosure d f params body scope args results) := by
  rw [callClosure_eq, callClosure_eq]
  refine Refines.after _ fun _ => Refines.after _ fun frame => Refines.after _ fun given => ?_
  refine Refines.after _ fun _ => Refines.after _ fun _ => ?_
  exact Refines.bind (runSteps_refines hc frame body) fun _ => Refines.refl _

theorem callBuiltin_refines (f : Frame) (b : Builtin) (args results : Option Int) :
    Refines (callBuiltin c f b args results) (callBuiltin d f b args results) := by
  cases b with
  | apply => exact callApply_refines hc f args results
  | withMembers => exact callWithMembers_refines hc f args results
  | execute => exact callExecute_refines hc f args results
  | pattern => exact callPattern_refines hc f args results
  | _ => exact Refines.refl _

theorem callCallable_refines (f : Frame) (args results : Option Int) (h : Callable) :
    Refines (callCallable c f args results h) (callCallable d f args results h) := by
  cases h with
  | builtin b => exact callBuiltin_refines hc f b args results
  | closure serial params body scope => exact callClosure_refines hc f params body scope args results
  | matching serial scope patterns => exact callMatching_refines hc f scope args results patterns.length 0 patterns
  | addPart builder => exact callFixed_refines f 1 0 args results (addPart_refines hc f builder)
  | _ => exact Refines.refl _

theorem callWith_refines : Caller.Refines (callWith c) (callWith d) := by
  intro f v args results
  by_cases hv : ∃ h, v.payload = .callable h
  · obtain ⟨h, hv⟩ := hv
    unfold callWith
    rw [hv]
    exact callCallable_refines hc f args results h
  · rw [callWith_of_not_callable (not_exists.1 hv) c d]
    exact Refines.refl _

end

/-- **A call ends in the same way under every higher limit**, unless it exceeds its own. -/
theorem refines_callAt : ∀ depth extra : Nat, Caller.Refines (callAt depth) (callAt (depth + extra))
  | 0, _ => fun _ _ _ _ => Refines.tooDeep _
  | depth + 1, extra => by
    rw [Nat.succ_add]
    exact callWith_refines (refines_callAt depth extra)

/-- **Code ends in the same way under every higher limit**, unless it exceeds its own. -/
theorem refines_runSteps (depth extra : Nat) (f : Frame) (steps : List Instr) :
    Refines (runSteps (callAt depth) f steps) (runSteps (callAt (depth + extra)) f steps) :=
  runSteps_refines (refines_callAt depth extra) f steps

end StackCalc
