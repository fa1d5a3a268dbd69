import StackCalc.Proofs.Machine.Isolation
import StackCalc.Proofs.Machine.Sparing

/-! # Calling conventions

What each convention does to the stack when `n` arguments and `r` results are declared: it spares what
lies below the arguments, and leaves `r` values there if it succeeds. The conventions come to this in
different ways. Functions with fixed counts are checked for their balance afterwards; those with one
result take their arguments off first; closures, matching functions and code values run code on a view
that begins below their arguments, where isolation keeps what is below and the count is checked in the
view.

Each lemma compares two views, both of which begin below the arguments. The balance that is quoted in a
fault depends on the view: this is why a function with fixed counts is asked to be balanced if the views
are different (`callFixed_spares`). -/

namespace StackCalc

open Run (Spares SparesAt Idle)

/-- Keeps to its declared counts: pops no more than its arguments, and leaves its results. -/
def Shuffle.Balanced (s : Shuffle) : Prop := s.pops ≤ s.takes ∧ s.pushes + s.takes = s.gives + s.pops

variable {rest : List Value} {n : Nat} {r : Int}

/-! ### Selecting an alternative -/

theorem runGuard_idle (c : Caller) (bindings : ScopeId) (traced : Bool) (guard : Code) :
    Idle (runGuard c bindings traced guard) := by
  refine Idle.bind (Idle.grow _) fun scope => Idle.bind (Idle.aside _) fun vs => ?_
  rcases vs with _ | ⟨v, _ | ⟨w, vs⟩⟩
  · exact Idle.throw _
  · exact Idle.pure _
  · exact Idle.throw _

theorem selectClause_idle (c : Caller) (bindings : ScopeId) (traced : Bool) (fallback : Option Code) :
    ∀ clauses : List (Code × Code), Idle (selectClause c bindings traced fallback clauses)
  | [] => Idle.pure _
  | (guard, _) :: clauses => Idle.bind (runGuard_idle c bindings traced guard) fun _ =>
      Idle.ite (Idle.pure _) (selectClause_idle c bindings traced fallback clauses)

theorem selectAction_idle (c : Caller) (bindings : ScopeId) (traced : Bool) (p : Pattern) :
    Idle (p.selectAction c bindings traced) := by
  cases p with
  | plain parts action => exact Idle.pure _
  | guarded parts clauses fallback => exact selectClause_idle c bindings traced fallback clauses

theorem select_idle (c : Caller) (env bindings : ScopeId) (traced : Bool) (p : Pattern)
    (vs : List Value) : Idle (p.select c env bindings traced vs) := by
  unfold Pattern.select
  refine Idle.get_bind fun m => ?_
  dsimp only
  generalize Matching.outcome (p.accepts (m.scopes.find? env) vs) [] = result
  obtain ⟨accepted, made⟩ := result
  refine Idle.bind (Idle.putAll bindings made) fun _ => ?_
  rcases accepted with e | _ | _
  · exact Idle.throw e
  · exact Idle.pure _
  · exact selectAction_idle c bindings traced p

theorem findBuilder_idle (id : Nat) : Idle (findBuilder id) := fun _ => rfl

theorem setBuilder_idle (id : Nat) (b : PatternBuilder) : Idle (setBuilder id b) := fun _ => rfl

theorem construct_idle (c : Caller) (traced : Bool) (program : Code) :
    Idle (construct c traced program) := by
  refine Idle.bind (fun _ => rfl) fun builder => Idle.bind (Idle.grow _) fun scope => ?_
  refine Idle.bind (Idle.aside _) fun vs => ?_
  rcases vs with _ | ⟨v, vs⟩
  · exact Idle.bind (findBuilder_idle builder) fun b => Idle.lift _
  · exact Idle.throw _

/-! ### Code on the values above `rest` -/

theorem runSteps_spares {c : Caller} (hi : c.Isolated fun _ => true) {g : Frame}
    (hg : g.view = ⟨rest.length⟩) (steps : List Instr) :
    Spares rest n (runSteps c g steps) (runSteps c g steps) fun _ _ => True := by
  intro m top hm _
  have hf : g.RestsOn rest (fun _ => true) { g with view := View.whole } :=
    ⟨rfl, by rw [hg]; simp [View.raise, View.whole], .inl rfl⟩
  have hr : m.RestsOn rest (fun _ => true) { m with storage := top } :=
    { Machine.Agrees.refl _ m with storage := hm }
  have h := runSteps_alike hi hf steps m _ hr
  refine ⟨rfl, ?_⟩
  generalize (runSteps c g steps).outcome m = x at h ⊢
  generalize (runSteps c { g with view := View.whole } steps).outcome { m with storage := top } = y at h
  cases h with
  | result h => exact ⟨_, h.2.storage, fun _ _ => trivial⟩
  | fault h => exact ⟨_, h.storage, fun _ _ => trivial⟩

/-- Code whose results are counted. -/
theorem runSteps_checkResults_spares {c : Caller} (hi : c.Isolated fun _ => true) {g : Frame}
    (hg : g.view = ⟨rest.length⟩) (steps : List Instr) (r : Int) :
    Spares rest n (do runSteps c g steps; Run.checkResults g (some r))
      (do runSteps c g steps; Run.checkResults g (some r)) fun _ k => (k : Int) = r :=
  Spares.bind (runSteps_spares hi hg steps) fun _ _ _ => Spares.checkResults hg r

/-! ### Conventions -/

section
variable {f : Frame} {w : View} (hf : f.view.base ≤ rest.length) (hw : w.base ≤ rest.length)

/-- A declared count that is wrong is a fault, and one that is right is no matter. -/
theorem wants_spares {declared count : Int} {fault : Int → Fault} {k l : Unit → Run Unit}
    {K : Unit → Nat → Prop} (h : declared = count → Spares rest n (k ()) (l ()) K) :
    Spares rest n (Run.wants (some declared) count fault >>= k)
      (Run.wants (some declared) count fault >>= l) K := by
  by_cases hd : declared = count
  · rw [hd, Run.wants_self, pure_bind, pure_bind]
    exact h hd
  · rw [Run.wants_of_ne hd, Run.throw_bind, Run.throw_bind]
    exact Spares.throw _

include hf hw in
/-- The check of the balance finds what was declared, wherever the view begins, if the body is
balanced; and if it is not, one view is like the other only if they are the same. -/
theorem callFixed_spares {takes gives : Nat} {body body' : Run Unit}
    (h : r = gives → Spares rest takes body body' fun _ k => w = f.view ∨ k = gives) :
    Spares rest n (callFixed f takes gives (some n) (some r) body)
      (callFixed { f with view := w } takes gives (some n) (some r) body') fun _ k => (k : Int) = r := by
  rw [callFixed_eq, callFixed_eq]
  refine wants_spares fun hn => wants_spares fun hr => ?_
  obtain rfl : n = takes := by omega
  -- both views hold the arguments
  refine Spares.size_bind ?_
  rw [if_neg (by omega), if_neg (by dsimp only; omega)]
  refine Spares.bind (h hr) fun _ k hk => Spares.size_bind ?_
  by_cases hg : k = gives
  · rw [if_neg (by omega), if_neg (by dsimp only; omega)]
    exact Spares.pure (by rw [hg, hr])
  · rcases hk with rfl | hk
    · rw [if_pos (by omega)]
      exact Spares.throw _
    · exact absurd hk hg

theorem callSingle_spares {evaluate evaluate' : Run Value}
    (h : Spares rest n evaluate evaluate' fun _ k => k = 0) :
    Spares rest n (callSingle (some r) evaluate) (callSingle (some r) evaluate')
      fun _ k => (k : Int) = r := by
  rw [callSingle_eq, callSingle_eq]
  refine wants_spares fun hr => Spares.bind_const h fun v => ?_
  exact (Spares.push v).mono fun _ k hk => by omega

include hf hw

/-- A function of all the arguments. -/
theorem takeAll_spares {k : List Value → Run Value} (h : ∀ vs, Idle (k vs)) :
    Spares rest n (Run.take f n >>= k) (Run.take { f with view := w } n >>= k) fun _ k => k = 0 := by
  refine Spares.bind (Spares.takeAll hf hw) fun vs j hj => ?_
  rw [hj.2]
  exact Spares.of_idle (h vs)

/-! ### Functions with fixed counts -/

theorem popLoop_spares : ∀ (as : List Nat) (k : Nat), Spares rest (as.length + k)
    (as.forM fun _ => do let _ ← Run.pop f) (as.forM fun _ => do let _ ← Run.pop { f with view := w })
    fun _ j => j = k
  | [], k => by
    rw [List.length_nil, Nat.zero_add]
    exact Spares.pure rfl
  | a :: as, k => by
    have hpop : Spares rest (as.length + k + 1) (do let _ ← Run.pop f)
        (do let _ ← Run.pop { f with view := w }) fun _ j => j = as.length + k :=
      Spares.bind_const (Spares.pop hf hw) fun _ => Spares.pure rfl
    rw [List.length_cons, Nat.add_right_comm]
    exact Spares.bind_const hpop fun _ => popLoop_spares as k

theorem callPure_spares {takes gives : Nat} {fn : List Value → Except Fault (List Value)}
    (hfn : r = gives → w = f.view ∨ ∀ given vs, fn given = .ok vs → vs.length = gives) :
    Spares rest n (callPure f takes gives (some n) (some r) fn)
      (callPure { f with view := w } takes gives (some n) (some r) fn) fun _ k => (k : Int) = r := by
  rw [callPure_eq, callPure_eq]
  refine callFixed_spares hf hw fun hr => ?_
  refine Spares.bind (Spares.takeAll hf hw) fun given j hj => ?_
  rw [hj.2]
  refine Spares.bind (Spares.lift _) fun vs j hvs => ?_
  obtain ⟨hvs, rfl⟩ := hvs
  have hpush : ∀ (v : Value) (k : Nat), Spares rest k (do Run.push (← Run.distinguish v))
      (do Run.push (← Run.distinguish v)) fun _ j => j = k + 1 := fun v _ =>
    Spares.idle_bind (Idle.distinguish v) fun u => Spares.push u
  refine (Spares.forM hpush vs 0).mono fun _ k hk => ?_
  rcases hfn hr with hfn | hfn
  · exact .inl hfn
  · exact .inr (by rw [hk, Nat.zero_add, hfn given vs hvs])

omit hf hw in
theorem length_builtin {b : Builtin} {given vs : List Value}
    (h : (do return [← b.value given]) = (.ok vs : Except Fault (List Value))) : vs.length = 1 := by
  rcases hv : b.value given with e | v <;> rw [hv] at h <;> cases h
  rfl

omit hf hw in
/-- What a function of the host gives back as one result is one value. -/
theorem length_spread_one {fn : NativeFunction} {given vs : List Value}
    (h : (do (← fn given).spread 1) = (.ok vs : Except Fault (List Value))) : vs.length = 1 := by
  rcases hg : fn given with e | (v | us | _) <;> rw [hg] at h <;> cases h
  rfl

theorem callDefine_spares :
    Spares rest n (callDefine f (some n) (some r)) (callDefine { f with view := w } (some n) (some r))
      fun _ k => (k : Int) = r := by
  refine callFixed_spares hf hw fun _ => ?_
  refine Spares.bind_const (Spares.pop hf hw) fun v => Spares.bind_const (Spares.pop hf hw) fun x => ?_
  refine Spares.idle_bind (Idle.lift _) fun name => Spares.idle_bind (Idle.put f.scope name v) fun _ => ?_
  exact (Spares.push v).mono fun _ _ => .inr

theorem callWithMembers_spares (c : Caller) :
    Spares rest n (callWithMembers c f (some n) (some r))
      (callWithMembers c { f with view := w } (some n) (some r)) fun _ k => (k : Int) = r := by
  refine callFixed_spares hf hw fun _ => ?_
  refine Spares.bind_const (Spares.pop hf hw) fun v => Spares.idle_bind (Idle.lift _) fun code => ?_
  refine Spares.bind_const (Spares.pop hf hw) fun target => ?_
  cases target.members? with
  | none => exact Spares.throw _
  | some members =>
    refine Spares.idle_bind (Idle.grow _) fun scope => Spares.idle_bind (Idle.putAll _ _) fun _ => ?_
    refine Spares.idle_bind (Idle.aside _) fun vs => ?_
    rcases vs with _ | ⟨v, _ | ⟨x, vs⟩⟩
    · exact Spares.throw _
    · exact (Spares.push v).mono fun _ _ => .inr
    · exact Spares.throw _

theorem callPattern_spares (c : Caller) :
    Spares rest n (callPattern c f (some n) (some r))
      (callPattern c { f with view := w } (some n) (some r)) fun _ k => (k : Int) = r := by
  refine callFixed_spares hf hw fun _ => ?_
  refine Spares.bind_const (Spares.pop hf hw) fun v => Spares.idle_bind (Idle.lift _) fun program => ?_
  refine Spares.idle_bind (construct_idle c f.trace program) fun p => ?_
  refine Spares.idle_bind (Idle.object _) fun v => (Spares.push v).mono fun _ _ => .inr

theorem callShuffle_spares {s : Shuffle} (hs : s.Balanced) :
    Spares rest n (callShuffle f s (some n) (some r))
      (callShuffle { f with view := w } s (some n) (some r)) fun _ k => (k : Int) = r := by
  obtain ⟨hpops, hcount⟩ := hs
  obtain ⟨k, hk⟩ := Nat.exists_eq_add_of_le hpops
  rw [callShuffle_eq, callShuffle_eq]
  refine callFixed_spares hf hw fun _ => ?_
  have hloop := popLoop_spares hf hw (List.range s.pops) k
  rw [List.length_range, ← hk] at hloop
  refine Spares.bind_const hloop fun _ => (Spares.pushAll _).mono fun _ j hj => .inr ?_
  rw [hj, List.length_map, List.length_range]
  omega

theorem addPart_spares (c : Caller) (builder : Nat) :
    Spares rest 1 (addPart c f builder) (addPart c { f with view := w } builder) fun _ k => k = 0 := by
  refine Spares.bind_const (Spares.pop hf hw) fun v => Spares.idle_bind (Idle.lift _) fun code => ?_
  refine Spares.idle_bind (Idle.grow _) fun literals => Spares.idle_bind (Idle.aside _) fun vs => ?_
  rcases vs with _ | ⟨v, _ | ⟨x, vs⟩⟩
  · exact Spares.throw _
  · refine Spares.idle_bind (findBuilder_idle builder) fun b => ?_
    exact Spares.idle_bind (Idle.lift _) fun _ => Spares.of_idle (setBuilder_idle builder _)
  · exact Spares.throw _

theorem addGuarded_spares (builder : Nat) :
    Spares rest 2 (addGuarded f builder) (addGuarded { f with view := w } builder) fun _ k => k = 0 := by
  refine Spares.bind_const (Spares.pop hf hw) fun v => Spares.idle_bind (Idle.lift _) fun action => ?_
  refine Spares.bind_const (Spares.pop hf hw) fun v => Spares.idle_bind (Idle.lift _) fun guard => ?_
  refine Spares.idle_bind (findBuilder_idle builder) fun b => ?_
  exact Spares.idle_bind (Idle.lift _) fun _ => Spares.of_idle (setBuilder_idle builder _)

theorem addDefault_spares (builder : Nat) :
    Spares rest 1 (addDefault f builder) (addDefault { f with view := w } builder) fun _ k => k = 0 := by
  refine Spares.bind_const (Spares.pop hf hw) fun v => Spares.idle_bind (Idle.lift _) fun action => ?_
  refine Spares.idle_bind (findBuilder_idle builder) fun b => Spares.of_idle ?_
  exact Idle.ite (Idle.bind (Idle.note _) fun _ => setBuilder_idle builder _) (setBuilder_idle builder _)

/-! ### Functions with one result -/

theorem callList_spares :
    Spares rest n (callList f (some n) (some r)) (callList { f with view := w } (some n) (some r))
      fun _ k => (k : Int) = r :=
  callSingle_spares (takeAll_spares hf hw fun _ => Idle.pure _)

theorem callPrint_spares :
    Spares rest n (callPrint f (some n) (some r)) (callPrint { f with view := w } (some n) (some r))
      fun _ k => (k : Int) = r := by
  refine callSingle_spares (takeAll_spares hf hw fun given => ?_)
  exact Idle.bind (Idle.lift _) fun words => Idle.bind (Idle.emit _ _) fun _ => Idle.pure _

theorem callStruct_spares :
    Spares rest n (callStruct f (some n) (some r)) (callStruct { f with view := w } (some n) (some r))
      fun _ k => (k : Int) = r := by
  refine callSingle_spares (takeAll_spares hf hw fun given => ?_)
  exact Idle.bind (Idle.lift _) fun parts => Idle.bind (Idle.note _) fun _ => Idle.object _

theorem popPatterns_spares : ∀ k : Nat,
    Spares rest k (popPatterns f k) (popPatterns { f with view := w } k) fun _ j => j = 0
  | 0 => Spares.pure rfl
  | k + 1 => Spares.bind_const (Spares.pop hf hw) fun _ => Spares.idle_bind (Idle.lift _) fun _ =>
      Spares.bind_const (popPatterns_spares k) fun _ => Spares.pure rfl

theorem callMatch_spares :
    Spares rest n (callMatch f (some n) (some r)) (callMatch { f with view := w } (some n) (some r))
      fun _ k => (k : Int) = r := by
  refine callSingle_spares ?_
  dsimp only
  rw [Int.toNat_natCast]
  exact Spares.bind_const (popPatterns_spares hf hw n) fun _ => Spares.of_idle (Idle.callable _)

theorem callCounter_spares :
    Spares rest n (callCounter f (some n) (some r)) (callCounter { f with view := w } (some n) (some r))
      fun _ k => (k : Int) = r :=
  callSingle_spares (takeAll_spares hf hw fun _ => Idle.pure _)

theorem callPlaceholder_spares (name : Text) :
    Spares rest n (callPlaceholder f name (some n) (some r))
      (callPlaceholder { f with view := w } name (some n) (some r)) fun _ k => (k : Int) = r :=
  callSingle_spares (takeAll_spares hf hw fun _ => Idle.object _)

theorem callConstructor_spares (t : StructType) :
    Spares rest n (callConstructor f t (some n) (some r))
      (callConstructor { f with view := w } t (some n) (some r)) fun _ k => (k : Int) = r := by
  rw [callConstructor_eq, callConstructor_eq]
  refine wants_spares fun hn => callSingle_spares ?_
  rw [← hn]
  exact takeAll_spares hf hw fun _ => Idle.pure _

omit hf hw in
theorem callPlain_spares (v : Value) :
    Spares rest n (callPlain v (some n) (some r)) (callPlain v (some n) (some r))
      fun _ k => (k : Int) = r := by
  rw [callPlain_eq]
  exact wants_spares fun hn => wants_spares fun hr => (Spares.push v).mono fun _ k hk => by omega

/-! ### Functions that run code -/

theorem callExecute_spares {c : Caller} (hi : c.Isolated fun _ => true) :
    Spares rest n (callExecute c f (some n) (some r))
      (callExecute c { f with view := w } (some n) (some r)) fun _ k => (k : Int) = r := by
  rw [callExecute_eq, callExecute_eq]
  refine wants_spares fun hn => ?_
  obtain rfl : n = 1 := by omega
  refine Spares.bind_const (Spares.pop hf hw) fun v => Spares.idle_bind (Idle.lift _) fun code => ?_
  refine Spares.bind (Spares.inner hf hw f.scope) fun g k hg => ?_
  exact runSteps_checkResults_spares hi hg.1 _ r

theorem callClosure_spares {c : Caller} (hi : c.Isolated fun _ => true) (params : List Text)
    (body : List Instr) (scope : ScopeId) :
    Spares rest n (callClosure c f params body scope (some n) (some r))
      (callClosure c { f with view := w } params body scope (some n) (some r))
      fun _ k => (k : Int) = r := by
  rw [callClosure_eq, callClosure_eq]
  refine wants_spares fun hn => ?_
  rw [← hn]
  refine Spares.bind (Spares.inner hf hw scope) fun g k hg => ?_
  obtain ⟨hg, rfl⟩ := hg
  refine Spares.idle_bind (Idle.values g) fun given => ?_
  rw [hg]
  refine Spares.bind_const Spares.clear fun _ => Spares.idle_bind (Idle.putAll _ _) fun _ => ?_
  exact runSteps_checkResults_spares hi hg _ r

theorem callMatching_spares {c : Caller} (hi : c.Isolated fun _ => true) (scope : ScopeId) (total : Nat) :
    ∀ (index : Nat) (ps : List Pattern),
      Spares rest n (callMatching c f scope (some n) (some r) total index ps)
        (callMatching c { f with view := w } scope (some n) (some r) total index ps)
        fun _ k => (k : Int) = r
  | _, [] => Spares.throw _
  | index, p :: ps => by
    have hrest := callMatching_spares hi scope total (index + 1) ps
    unfold callMatching
    refine Spares.size_bind ?_
    -- with a declared count the alternative is suitable or not whatever the size
    change Spares rest n (if ((n : Int) == p.parts.length) = true then _ else _)
      (if ((n : Int) == p.parts.length) = true then _ else _) _
    by_cases hn : ((n : Int) == p.parts.length) = true
    · rw [if_pos hn, if_pos hn, ← eq_of_beq hn]
      refine Spares.bind (Spares.sub hf hw) fun candidates k hk => ?_
      obtain ⟨rfl, rfl⟩ := hk
      refine Spares.idle_bind (Idle.grow _) fun bindings => Spares.get_bind fun m => ?_
      refine Spares.idle_bind (select_idle c scope bindings _ p _) fun action => ?_
      cases action with
      | none => exact hrest
      | some action =>
        refine Spares.idle_bind (Idle.note _) fun _ => Spares.bind_const Spares.clear fun _ => ?_
        refine Spares.bind (Spares.inner hf hw bindings) fun g k hg => ?_
        exact runSteps_checkResults_spares hi hg.1 _ r
    · rw [if_neg hn, if_neg hn]
      exact hrest

end

end StackCalc
