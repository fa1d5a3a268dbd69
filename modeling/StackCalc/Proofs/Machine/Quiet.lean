import StackCalc.Proofs.Machine.Isolation
import StackCalc.Proofs.Scope.Lookup

/-! # Code that calls nothing

Where no name stands for a function, code computes with values and does nothing else: it moves values on the
stack, hands out serial numbers and keeps records of the log, but scopes, patterns under construction, lines
printed and all the rest stay as they are, however it ends (`runSteps_quiet`). Pattern literals are run in
such a place. -/

namespace StackCalc

/-- **What code that calls nothing may change.** -/
def Machine.Quiet (m n : Machine) : Prop := ∃ s next log, n = { m with storage := s, next := next, log := log }

theorem Machine.Quiet.refl (m : Machine) : m.Quiet m := ⟨m.storage, m.next, m.log, rfl⟩

theorem Machine.Quiet.trans {m n o : Machine} : m.Quiet n → n.Quiet o → m.Quiet o := by
  rintro ⟨s, next, log, rfl⟩ ⟨s', next', log', rfl⟩
  exact ⟨s', next', log', rfl⟩

theorem Machine.Quiet.scopes {m n : Machine} : m.Quiet n → n.scopes = m.scopes := by
  rintro ⟨s, next, log, rfl⟩
  rfl

namespace Run

variable {α β : Type} {forest : Forest}

/-- A run that changes no more than that where these are the scopes. -/
def Quiet (forest : Forest) (r : Run α) : Prop := ∀ m : Machine, m.scopes = forest → m.Quiet (r.outcome m).2

namespace Quiet

theorem pure (a : α) : Quiet forest (Pure.pure a : Run α) := fun m _ => .refl m

theorem throw (e : Fault) : Quiet forest (throw e : Run α) := fun m _ => .refl m

theorem lift (x : Except Fault α) : Quiet forest (liftM x : Run α) := fun m _ => .refl m

theorem bind {r : Run α} {k : α → Run β} (h : Quiet forest r) (hk : ∀ a, Quiet forest (k a)) :
    Quiet forest (r >>= k) := by
  intro m hm
  have hr := h m hm
  rw [outcome_bind]
  rcases hrm : r.outcome m with ⟨e | a, m'⟩ <;> rw [hrm] at hr
  · exact hr
  · exact hr.trans (hk a m' (hr.scopes.trans hm))

theorem ite {p : Prop} [Decidable p] {r s : Run α} (hr : Quiet forest r) (hs : Quiet forest s) :
    Quiet forest (if p then r else s) := by
  by_cases hp : p
  · rwa [if_pos hp]
  · rwa [if_neg hp]

theorem wants (declared : Option Int) (count : Int) (fault : Int → Fault) :
    Quiet forest (wants declared count fault) := by
  rcases declared with _ | n
  · exact pure _
  · exact ite (pure _) (throw _)

theorem push (v : Value) : Quiet forest (push v) := fun m _ => ⟨v :: m.storage, m.next, m.log, rfl⟩

theorem size (f : Frame) : Quiet forest (size f) := fun m _ => .refl m

theorem values (f : Frame) : Quiet forest (values f) := fun m _ => .refl m

theorem pop (f : Frame) : Quiet forest (pop f) := by
  intro m _
  rw [outcome_pop]
  rcases f.view.pop m.storage with e | ⟨v, rest⟩
  · exact .refl m
  · exact ⟨rest, m.next, m.log, rfl⟩

theorem take (f : Frame) (count : Int) : Quiet forest (take f count) := by
  intro m _
  rw [outcome_take]
  rcases f.view.take m.storage count with e | ⟨vs, rest⟩
  · exact .refl m
  · exact ⟨rest, m.next, m.log, rfl⟩

theorem fresh : Quiet forest fresh := fun m _ => ⟨m.storage, m.next + 1, m.log, rfl⟩

theorem note (e : Event) : Quiet forest (note e) := by
  intro m _
  obtain ⟨log, hlog⟩ := outcome_note e m
  rw [hlog]
  exact ⟨m.storage, m.next, log, rfl⟩

theorem distinguish (v : Value) : Quiet forest (distinguish v) := by
  unfold Run.distinguish
  split
  · exact ite (bind fresh fun _ => pure _) (pure _)
  · exact pure _

theorem callable (make : Nat → Callable) : Quiet forest (callable make) := bind fresh fun _ => pure _

theorem object (make : Nat → Composite) : Quiet forest (object make) := bind fresh fun _ => pure _

end Quiet

end Run

open Run (Quiet)

/-- The value can be called with any arguments: it is a function. -/
def Value.IsFunction (v : Value) : Prop := ∃ c, v.payload = .callable c

/-- **No name stands for a function.** -/
def Forest.Inert (forest : Forest) (scope : ScopeId) : Prop :=
  ∀ name v, forest.find? scope name = some (.value v) → ¬ v.IsFunction

variable {forest : Forest} {f : Frame}

theorem trace_quiet (f : Frame) (i : Instr) : Quiet forest (trace f i) :=
  Quiet.ite (Quiet.bind (Quiet.values f) fun _ => Quiet.note _) (Quiet.pure _)

/-- What follows a name has to be quiet for what the name stands for. -/
theorem resolve_bind_quiet {name : Text} {k : Symbol → Run Unit}
    (hk : ∀ s, forest.find? f.scope name = some s → Quiet forest (k s)) :
    Quiet forest (resolve f name >>= k) := by
  rintro m rfl
  rcases hs : m.scopes.find? f.scope name with _ | s
  · have hresolve : (resolve f name).outcome m = (.error (.unknownSymbol name), m) := by
      unfold resolve
      rw [Run.outcome_bind_of_ok (Run.outcome_find? f.scope name m), hs]
      rfl
    rw [Run.outcome_bind_of_error hresolve]
    exact .refl m
  · rw [Run.outcome_bind_of_ok (Run.outcome_resolve hs)]
    exact hk s hs m rfl

theorem callSingle_quiet {r : Run Value} (h : Quiet forest r) (results : Option Int) :
    Quiet forest (callSingle results r) := by
  rw [callSingle_eq]
  exact Quiet.bind (Quiet.wants _ _ _) fun _ => Quiet.bind h fun v => Quiet.push v

theorem callPlaceholder_quiet (f : Frame) (name : Text) (args results : Option Int) :
    Quiet forest (callPlaceholder f name args results) := by
  refine callSingle_quiet ?_ _
  cases args with
  | none => exact Quiet.throw _
  | some n => exact Quiet.bind (Quiet.take f n) fun _ => Quiet.object _

theorem getSymbol_quiet (s : Symbol) : Quiet forest (getSymbol s) := by
  cases s with
  | value v => exact Quiet.push v
  | placeholder name => exact Quiet.bind (Quiet.object _) fun v => Quiet.push v

theorem takeArguments_quiet (f : Frame) (args : Option Int) : Quiet forest (takeArguments f args) := by
  cases args with
  | none => exact Quiet.bind (Quiet.size f) fun n => Quiet.take f n
  | some n => exact Quiet.take f n

theorem callConstructor_quiet (f : Frame) (r : StructType) (args results : Option Int) :
    Quiet forest (callConstructor f r args results) := by
  rw [callConstructor_eq]
  refine Quiet.bind (Quiet.wants _ _ _) fun _ => callSingle_quiet ?_ results
  exact Quiet.bind (Quiet.take f _) fun _ => Quiet.pure _

theorem callPlain_quiet (v : Value) (args results : Option Int) : Quiet forest (callPlain v args results) := by
  rw [callPlain_eq]
  exact Quiet.bind (Quiet.wants _ _ _) fun _ => Quiet.bind (Quiet.wants _ _ _) fun _ => Quiet.push v

/-- Calling what is no function runs no code, so it does not matter how nested calls are made. -/
theorem callWith_quiet (c : Caller) {v : Value} (hv : ¬ v.IsFunction) (args results : Option Int) :
    Quiet forest (callWith c f v args results) := by
  unfold callWith
  split
  case h_1 h hpayload => exact absurd ⟨h, hpayload⟩ hv
  case h_2 => exact callConstructor_quiet f _ args results
  case h_3 =>
    split
    · exact Quiet.bind (takeArguments_quiet f args) fun given => Quiet.push _
    · exact callPlain_quiet v args results
  case h_4 => exact callPlain_quiet v args results

theorem callAt_quiet (depth : Nat) {v : Value} (hv : ¬ v.IsFunction) (args results : Option Int) :
    Quiet forest (callAt depth f v args results) := by
  cases depth with
  | zero => exact Quiet.throw _
  | succ depth => exact callWith_quiet _ hv args results

theorem step_quiet (h : forest.Inert f.scope) (depth : Nat) (i : Instr) :
    Quiet forest (step (callAt depth) f i) := by
  cases i with
  | push v => exact Quiet.push v
  | get name => exact resolve_bind_quiet fun s _ => getSymbol_quiet s
  | call name args results =>
    refine resolve_bind_quiet fun s hs => ?_
    cases s with
    | value v => exact callAt_quiet depth (h name v hs) args results
    | placeholder name => exact callPlaceholder_quiet f name args results
  | binary op =>
    refine Quiet.bind (Quiet.pop f) fun right => Quiet.bind (Quiet.pop f) fun left => ?_
    refine Quiet.bind (Quiet.lift _) fun v => ?_
    exact Quiet.bind (Quiet.distinguish v) fun w => Quiet.push w
  | unary op =>
    refine Quiet.bind (Quiet.pop f) fun operand => Quiet.bind (Quiet.lift _) fun v => ?_
    exact Quiet.bind (Quiet.distinguish v) fun w => Quiet.push w
  | closure params body => exact Quiet.bind (Quiet.callable _) fun v => Quiet.push v

/-- **Code that calls nothing changes nothing but the stack, the serial numbers and the log.** -/
theorem runSteps_quiet (h : forest.Inert f.scope) (depth : Nat) :
    ∀ steps : List Instr, Quiet forest (runSteps (callAt depth) f steps)
  | [] => Quiet.pure _
  | i :: steps => Quiet.bind (trace_quiet f i) fun _ =>
      Quiet.bind (step_quiet h depth i) fun _ => runSteps_quiet h depth steps

/-- On an empty stack of its own it does not change the stack either. -/
theorem outcome_runAside_quiet {scope : ScopeId} {m : Machine} (h : m.scopes.Inert scope) (depth : Nat)
    (traced : Bool) (code : Code) : ∃ next log,
      ((runAside (callAt depth) scope traced code).outcome m).2 = { m with next := next, log := log } := by
  have hquiet : Quiet m.scopes (do
      runSteps (callAt depth) ⟨scope, View.whole, traced⟩ code.steps
      Run.values ⟨scope, View.whole, traced⟩) :=
    Quiet.bind (runSteps_quiet h depth code.steps) fun _ => Quiet.values _
  obtain ⟨s, next, log, hm⟩ := hquiet { m with storage := [] } rfl
  refine ⟨next, log, ?_⟩
  rw [runAside, Run.outcome_aside]
  exact congrArg (fun n : Machine => { n with storage := m.storage }) hm

/-! ### Pattern literals -/

/-- In a new placeholder scope no name stands for a function, if none does that patterns know. -/
theorem inert_literal {m : Machine} {b : Bindings} (hb : m.scopes.scopes[patternScope]? = some (.root b))
    (hplain : ∀ e ∈ b, ¬ e.2.IsFunction) :
    (⟨m.scopes.scopes.push (.literal patternScope)⟩ : Forest).Inert m.scopes.scopes.size := by
  intro name v hv
  rw [Forest.find?_push_literal hb] at hv
  rcases hlookup : b.lookup name with _ | w <;> rw [hlookup] at hv
  · cases hv
  · cases hv
    exact hplain _ (Bindings.mem_of_lookup hlookup)

end StackCalc
