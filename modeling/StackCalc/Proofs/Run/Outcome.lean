import StackCalc.Calculator.Run
import StackCalc.Proofs.Stack.Resting
import Mathlib.Tactic.Common

/-! # Outcomes of runs

A run is known by its outcome on every machine: a result or a fault, and the machine it ends with.
Here are the outcomes of the pieces that runs are made of. `outcome_bind` is the one that all others
are read through: what comes second sees the machine that the first has left, and does not happen
after a fault.

The functions with declared counts all begin with the same test of a count; `wants` is that test, and
the `_eq` lemmas write the functions as plain sequences that begin with it. -/

namespace StackCalc

/-- The record of a step that is about to be taken. -/
def Event.isStep : Event → Bool
  | .step .. => true
  | _ => false

namespace Run

variable {α β : Type}

theorem outcome_bind (r : Run α) (k : α → Run β) (m : Machine) :
    (r >>= k).outcome m =
      match r.outcome m with
      | (.ok a, m') => (k a).outcome m'
      | (.error e, m') => (.error e, m') := by
  rcases h : r.outcome m with ⟨a | a, m'⟩ <;>
    simp only [outcome, ExceptT.run_bind, StateT.run_bind] at h ⊢ <;> rw [h] <;> rfl

theorem outcome_lift (x : Except Fault α) (m : Machine) : (liftM x : Run α).outcome m = (x, m) :=
  rfl

theorem outcome_lift_bind (x : Except Fault α) (k : α → Run β) (m : Machine) :
    ((liftM x : Run α) >>= k).outcome m =
      match x with
      | .ok a => (k a).outcome m
      | .error e => (.error e, m) := by
  cases x <;> rfl

theorem outcome_modify (g : Machine → Machine) (m : Machine) :
    (modify g : Run PUnit).outcome m = (.ok ⟨⟩, g m) := rfl

theorem outcome_get_bind (k : Machine → Run α) (m : Machine) :
    ((get : Run Machine) >>= k).outcome m = (k m).outcome m := rfl

theorem outcome_bind_of_ok {r : Run α} {k : α → Run β} {m m' : Machine} {a : α}
    (h : r.outcome m = (.ok a, m')) : (r >>= k).outcome m = (k a).outcome m' := by
  rw [outcome_bind, h]

theorem outcome_bind_of_error {r : Run α} {k : α → Run β} {m m' : Machine} {e : Fault}
    (h : r.outcome m = (.error e, m')) : (r >>= k).outcome m = (.error e, m') := by
  rw [outcome_bind, h]

/-- What follows the same outcome has the same outcome. -/
theorem outcome_bind_congr {r s : Run α} {m n : Machine} (h : r.outcome m = s.outcome n) (k : α → Run β) :
    (r >>= k).outcome m = (s >>= k).outcome n := by
  rw [outcome_bind, outcome_bind, h]

/-- A sequence that succeeds has succeeded in both parts. -/
theorem exists_of_outcome_bind_ok {r : Run α} {k : α → Run β} {m : Machine} {b : β}
    (h : ((r >>= k).outcome m).1 = .ok b) :
    ∃ a m', r.outcome m = (.ok a, m') ∧ ((k a).outcome m').1 = .ok b := by
  rw [outcome_bind] at h
  rcases hr : r.outcome m with ⟨e | a, m'⟩ <;> rw [hr] at h
  · cases h
  · exact ⟨a, m', rfl, h⟩

theorem outcome_tryCatch (r : Run α) (k : Fault → Run α) (m : Machine) :
    (tryCatch r k).outcome m =
      match r.outcome m with
      | (.ok a, m') => (.ok a, m')
      | (.error e, m') => (k e).outcome m' := by
  rcases h : r.outcome m with ⟨e | a, m'⟩ <;>
  · have hrun : r m = _ := h
    unfold outcome tryCatch
    simp only [instMonadExceptOfMonadExceptOf, tryCatchThe, MonadExceptOf.tryCatch, ExceptT.tryCatch,
      ExceptT.run_mk, StateT.run, bind, StateT.bind]
    rw [hrun]
    rfl

theorem throw_bind (e : Fault) (k : α → Run β) : ((throw e : Run α) >>= k) = throw e := rfl

/-- A record of the log changes the log at most. -/
theorem outcome_note (e : Event) (m : Machine) :
    ∃ log, (note e).outcome m = (.ok (), { m with log := log }) := by
  have hnote : (note e).outcome m = (.ok (), if m.logging then { m with log := m.log.push e } else m) := rfl
  rw [hnote]
  split_ifs
  · exact ⟨m.log.push e, rfl⟩
  · exact ⟨m.log, rfl⟩

/-! ### The stack -/

theorem outcome_pushAll (vs : List Value) (m : Machine) :
    (pushAll vs).outcome m = (.ok (), { m with storage := vs.reverse ++ m.storage }) := rfl

theorem outcome_size (f : Frame) (m : Machine) : (size f).outcome m = (.ok (f.view.size m.storage), m) :=
  rfl

theorem outcome_values (f : Frame) (m : Machine) :
    (values f).outcome m = (.ok (f.view.values m.storage), m) := rfl

theorem outcome_pop (f : Frame) (m : Machine) :
    (pop f).outcome m =
      match f.view.pop m.storage with
      | .ok (v, rest) => (.ok v, { m with storage := rest })
      | .error e => (.error e, m) := by
  unfold pop
  rw [outcome_get_bind, outcome_lift_bind]
  rcases f.view.pop m.storage with e | ⟨v, rest⟩ <;> rfl

theorem outcome_take (f : Frame) (count : Int) (m : Machine) :
    (take f count).outcome m =
      match f.view.take m.storage count with
      | .ok (vs, rest) => (.ok vs, { m with storage := rest })
      | .error e => (.error e, m) := by
  unfold take
  rw [outcome_get_bind, outcome_lift_bind]
  rcases f.view.take m.storage count with e | ⟨v, rest⟩ <;> rfl

/-- The value on top, if the view covers it. -/
theorem outcome_pop_cons {f : Frame} {v : Value} {s : List Value} {m : Machine} (hm : m.storage = v :: s)
    (hs : f.view.base ≤ s.length) : (pop f).outcome m = (.ok v, { m with storage := s }) := by
  have hpop : f.view.pop (v :: s) = .ok (v, s) := View.pop_cons (s := []) hs
  rw [outcome_pop, hm, hpop]

/-- The values on top, if the view covers them. -/
theorem outcome_take_append {f : Frame} {vs s : List Value} {m : Machine} (hm : m.storage = vs.reverse ++ s)
    (hs : f.view.base ≤ s.length) :
    (take f (vs.length : Nat)).outcome m = (.ok vs, { m with storage := s }) := by
  have htop := View.take_append (v := f.view) (s := vs.reverse) (t := []) hs
  rw [List.append_nil, List.nil_append, List.reverse_reverse, List.length_reverse] at htop
  rw [outcome_take, hm, htop]

theorem outcome_sub (f : Frame) (count : Int) (m : Machine) :
    (sub f count).outcome m = (f.view.sub m.storage count, m) := rfl

theorem outcome_checkResults (f : Frame) (r : Int) (m : Machine) :
    (checkResults f (some r)).outcome m =
      (if f.view.size m.storage ≠ r then .error (.resultsLeft (f.view.size m.storage) r) else .ok (),
        m) := by
  unfold checkResults
  rw [outcome_bind_of_ok (outcome_size f m)]
  split_ifs <;> rfl

theorem outcome_aside (r : Run α) (m : Machine) :
    (aside r).outcome m =
      ((r.outcome { m with storage := [] }).1,
        { (r.outcome { m with storage := [] }).2 with storage := m.storage }) := rfl

/-! ### Scopes -/

theorem outcome_find? (scope : ScopeId) (name : Text) (m : Machine) :
    (find? scope name).outcome m = (.ok (m.scopes.find? scope name), m) := rfl

theorem outcome_put (scope : ScopeId) (name : Text) (v : Value) (m : Machine) :
    (put scope name v).outcome m =
      match m.scopes.put scope name v with
      | .ok scopes => (.ok (), { m with scopes := scopes })
      | .error e => (.error e, m) := by
  unfold put
  rw [outcome_get_bind, outcome_lift_bind]
  rcases m.scopes.put scope name v with e | scopes <;> rfl

theorem outcome_grow (s : Scope) (m : Machine) :
    (grow s).outcome m =
      (.ok m.scopes.scopes.size, { m with scopes := ⟨m.scopes.scopes.push s⟩ }) := rfl

/-- A part of a frame, with a new layer, if there are as many values. -/
theorem outcome_inner (f : Frame) (scope : ScopeId) (count : Int) (m : Machine) :
    (inner f scope count).outcome m =
      match f.view.sub m.storage count with
      | .ok view =>
        (.ok ⟨m.scopes.scopes.size, view, f.trace⟩, { m with scopes := ⟨m.scopes.scopes.push (.layer scope [])⟩ })
      | .error e => (.error e, m) := by
  unfold inner
  rw [outcome_bind, outcome_sub]
  rcases f.view.sub m.storage count with e | view <;> rfl

/-- A name that stands for something. -/
theorem outcome_resolve {f : Frame} {name : Text} {s : Symbol} {m : Machine}
    (h : m.scopes.find? f.scope name = some s) : (resolve f name).outcome m = (.ok s, m) := by
  unfold resolve
  rw [outcome_bind_of_ok (outcome_find? f.scope name m), h]
  rfl

/-! ### Declared counts -/

/-- A count that is declared has to be the right one. -/
def wants (declared : Option Int) (count : Int) (fault : Int → Fault) : Run Unit :=
  match declared with
  | some n => if n = count then pure () else throw (fault n)
  | none => pure ()

theorem wants_self (count : Int) (fault : Int → Fault) :
    wants (some count) count fault = pure () := if_pos rfl

theorem wants_of_ne {n count : Int} (h : n ≠ count) (fault : Int → Fault) :
    wants (some n) count fault = throw (fault n) := if_neg h

/-- The test as the functions write it: what follows a fault is written, and not reached. -/
theorem wants_bind (declared : Option Int) (count : Int) (fault : Int → Fault) (k : Unit → Run α) :
    (wants declared count fault >>= k) =
      match declared with
      | some n => if n ≠ count then (throw (fault n) : Run Unit) >>= k else k ()
      | none => k () := by
  rcases declared with _ | n
  · rfl
  · by_cases h : n = count
    · subst h; rw [wants_self]; simp only [ne_eq, not_true_eq_false, if_false]; rfl
    · rw [wants_of_ne h]; simp only [ne_eq, h, not_false_eq_true, if_true]

/-! ### Loops -/

/-- A loop over a list that runs to the end of it. -/
theorem forIn_eq_forM (k : α → Run PUnit) : ∀ as : List α,
    (forIn as PUnit.unit fun a _ => do k a; return .yield PUnit.unit) = as.forM k
  | [] => rfl
  | a :: as => by
    have ih := forIn_eq_forM k as
    simp only [List.forIn_cons, bind_assoc, pure_bind, ih]
    rfl

end Run

/-! ### Functions with declared counts -/

theorem callPure_eq (f : Frame) (takes gives : Nat) (args results : Option Int)
    (fn : List Value → Except Fault (List Value)) :
    callPure f takes gives args results fn = callFixed f takes gives args results (do
      let given ← Run.take f takes
      let vs ← (fn given : Except Fault (List Value))
      vs.forM fun v => do Run.push (← Run.distinguish v)) := by
  unfold callPure
  congr 1
  refine bind_congr fun given => bind_congr fun vs => ?_
  rw [← Run.forIn_eq_forM]
  simp only [bind_assoc, bind_pure_unit]

theorem callShuffle_eq (f : Frame) (s : Shuffle) (args results : Option Int) :
    callShuffle f s args results = callFixed f s.takes s.gives args results (do
      (List.range s.pops).forM fun _ => do let _ ← Run.pop f
      Run.pushAll ((List.range s.pushes).map fun (n : Nat) => .own (.int n))) := by
  unfold callShuffle
  congr 1
  rw [← Run.forIn_eq_forM]
  simp only [bind_assoc, pure_bind]

theorem callFixed_eq (f : Frame) (takes gives : Nat) (args results : Option Int) (body : Run Unit) :
    callFixed f takes gives args results body = (do
      Run.wants args takes (.argumentCount takes)
      Run.wants results gives (.resultCount gives)
      let before ← Run.size f
      if before < takes then throw (.tooFewValues takes before)
      else do
        body
        let after ← Run.size f
        if after ≠ before - takes + gives then
          throw (.unbalancedCall after (before - takes + gives) takes gives)
        else pure ()) := by
  simp only [Run.wants_bind]
  rcases args with _ | n <;> rcases results with _ | r <;> rfl

section Fixed
variable {f : Frame} {takes gives : Nat} {body : Run Unit} {m m' : Machine} {top s : List Value}
  (hm : m.storage = top ++ s) (htop : top.length = takes) (hbase : f.view.base ≤ s.length)
include hm htop hbase

/-- With the arguments on the stack, a function fails as its body does. -/
theorem outcome_callFixed_of_error {e : Fault} (hbody : body.outcome m = (.error e, m')) :
    (callFixed f takes gives (some takes) (some gives) body).outcome m = (.error e, m') := by
  have hsize : ¬ f.view.size m.storage < takes := by
    rw [hm, View.size_append, htop]
    omega
  rw [callFixed_eq, Run.wants_self, Run.wants_self, pure_bind, pure_bind,
    Run.outcome_bind_of_ok (Run.outcome_size f m), if_neg hsize, Run.outcome_bind_of_error hbody]

/-- With the arguments on the stack, a function ends well if its body leaves the results in their place. -/
theorem outcome_callFixed_of_ok {t : List Value} (hbody : body.outcome m = (.ok (), m'))
    (hm' : m'.storage = t ++ s) (ht : t.length = gives) :
    (callFixed f takes gives (some takes) (some gives) body).outcome m = (.ok (), m') := by
  have hsize : ¬ f.view.size m.storage < takes := by
    rw [hm, View.size_append, htop]
    omega
  have hbalance : f.view.size m'.storage = f.view.size m.storage - takes + gives := by
    rw [hm', hm, View.size_append, View.size_append, htop, ht]
    omega
  rw [callFixed_eq, Run.wants_self, Run.wants_self, pure_bind, pure_bind,
    Run.outcome_bind_of_ok (Run.outcome_size f m), if_neg hsize, Run.outcome_bind_of_ok hbody,
    Run.outcome_bind_of_ok (Run.outcome_size f m'), hbalance, if_neg (not_not_intro rfl)]
  rfl

end Fixed

theorem callSingle_eq (results : Option Int) (evaluate : Run Value) :
    callSingle results evaluate = (do
      Run.wants results 1 .singleResult
      let v ← evaluate
      Run.push v) := by
  rw [Run.wants_bind]
  rcases results with _ | r <;> rfl

theorem callPlain_eq (v : Value) (args results : Option Int) :
    callPlain v args results = (do
      Run.wants args 0 fun _ => v.faultWith .notCallable
      Run.wants results 1 .valueSingleResult
      Run.push v) := by
  simp only [Run.wants_bind]
  rcases args with _ | n <;> rcases results with _ | r <;> rfl

theorem callConstructor_eq (f : Frame) (t : StructType) (args results : Option Int) :
    callConstructor f t args results = (do
      Run.wants args t.fields.length (.structArguments t.name t.fields.length)
      callSingle results do
        let given ← Run.take f t.fields.length
        return .own (.object (.record t given))) := by
  rw [Run.wants_bind]
  rcases args with _ | n <;> rfl

theorem callExecute_eq (call : Caller) (f : Frame) (args results : Option Int) :
    callExecute call f args results = (do
      Run.wants args 1 .executeArguments
      let v ← Run.pop f
      let code ← (v.wantCode "'execute' argument" : Except Fault Code)
      let frame ← Run.inner f f.scope 0
      runSteps call frame code.steps
      Run.checkResults frame results) := by
  rw [Run.wants_bind]
  rcases args with _ | n <;> rfl

theorem callClosure_eq (call : Caller) (f : Frame) (params : List Text) (body : List Instr)
    (scope : ScopeId) (args results : Option Int) :
    callClosure call f params body scope args results = (do
      Run.wants args params.length (.functionArguments params.length)
      let frame ← Run.inner f scope params.length
      let given ← Run.values frame
      modify fun m => { m with storage := frame.view.clear m.storage }
      Run.putAll frame.scope (params.zip given)
      runSteps call frame body
      Run.checkResults frame results) := by
  rw [Run.wants_bind]
  rcases args with _ | n <;> rfl

theorem callApply_some (call : Caller) (f : Frame) (n : Int) (results : Option Int) :
    callApply call f (some n) results =
      (if n < 1 then throw .applyWithoutTarget
      else do
        match ← Run.take f n with
        | [] => throw .applyWithoutTarget
        | target :: given => do
          Run.pushAll given
          call f target (some (n - 1)) results) := rfl

/-- A call of a function. -/
theorem callAt_of_callable {v : Value} {h : Callable} (hv : v.payload = .callable h) (depth : Nat) (f : Frame)
    (args results : Option Int) :
    callAt (depth + 1) f v args results = callCallable (callAt depth) f args results h := by
  change callWith (callAt depth) f v args results = _
  unfold callWith
  rw [hv]

/-- What is no function makes no calls. -/
theorem callWith_of_not_callable {v : Value} (hv : ∀ h, v.payload ≠ .callable h) (c c' : Caller) (f : Frame)
    (args results : Option Int) : callWith c f v args results = callWith c' f v args results := by
  obtain ⟨d, p⟩ := v
  cases p with
  | callable h => exact absurd rfl (hv h)
  | object o => cases o <;> rfl
  | _ => rfl

end StackCalc
