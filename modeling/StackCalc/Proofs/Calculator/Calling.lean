import StackCalc.Calculator.Run
import StackCalc.Proofs.Calculator.Outcome
import StackCalc.Proofs.Machine.Closure
import StackCalc.Proofs.Machine.Depth
import StackCalc.Proofs.Machine.Discipline

/-! # Ways of calling

A value is called by a name that stands for it, by `apply` with the value below the arguments, by an expression of
either form, or from outside. The arguments are shifted about in different ways before the value gets to see them.
In code the two calls come to one and the same, made in the same frame (`outcome_step_apply`), but for the depth of
nesting, which matters only to calls that nest too deep (`Proofs/Machine/Depth`).

From outside, the call is made on a stack of its own. Code that makes it has the values pushed step by step, and its
log may show that; the log is never read. The first of the results is wanted here and the only one there: a call for
one result on a stack that holds nothing but its arguments leaves one value, whatever is called (`callAt_alone`). So
all come to the call of the value on a stack that holds the arguments (`Calculator.callOwn`). -/

namespace StackCalc

open Run (Spares SparesAt)

/-! ### Calls in code -/

/-- A call by name is a call of what the name stands for. -/
theorem outcome_step_call {f : Frame} {name : Text} {v : Value} {m : Machine}
    (h : m.scopes.find? f.scope name = some (.value v)) (c : Caller) (args results : Option Int) :
    (step c f (.call name args results)).outcome m = (c f v args results).outcome m :=
  Run.outcome_bind_of_ok (Run.outcome_resolve h)

/-- **What is applied is called in the place of `apply`**, one call deeper. -/
theorem outcome_step_apply (depth : Nat) {f : Frame} {m : Machine} {v apply : Value} (args : List Value)
    {rest : List Value} (results : Option Int)
    (happly : m.scopes.find? f.scope applyName = some (.value apply))
    (hbuiltin : apply.payload = .callable (.builtin .apply)) (hf : f.view.base ≤ rest.length) :
    (step (callAt (depth + 1)) f (.call applyName (some ((1 + args.length : Nat) : Int)) results)).outcome
        { m with storage := args.reverse ++ v :: rest } =
      (callAt depth f v (some (args.length : Nat)) results).outcome { m with storage := args.reverse ++ rest } := by
  have happly' : ({ m with storage := args.reverse ++ v :: rest } : Machine).scopes.find? f.scope applyName =
      some (.value apply) := happly
  rw [outcome_step_call happly', callAt_of_callable hbuiltin]
  exact outcome_callApply results rfl hf

section
variable {f : Frame} {m : Machine} {name : Text} {v apply : Value} (args : List Value) {rest : List Value}
  (results : Option Int) (hname : m.scopes.find? f.scope name = some (.value v))
  (happly : m.scopes.find? f.scope applyName = some (.value apply))
  (hbuiltin : apply.payload = .callable (.builtin .apply)) (hf : f.view.base ≤ rest.length)
include hname happly hbuiltin hf

/-- **To apply a value is to call it by its name**, one call deeper. -/
theorem step_apply_eq_call (depth : Nat) :
    (step (callAt (depth + 1)) f (.call applyName (some ((1 + args.length : Nat) : Int)) results)).outcome
        { m with storage := args.reverse ++ v :: rest } =
      (step (callAt depth) f (.call name (some (args.length : Nat)) results)).outcome
        { m with storage := args.reverse ++ rest } :=
  (outcome_step_apply depth args results happly hbuiltin hf).trans
    (outcome_step_call (m := { m with storage := args.reverse ++ rest }) hname _ _ _).symm

/-- At one and the same depth the value that is applied may nest too deep, where a call by name does not yet. -/
theorem step_apply_refines_call : ∀ depth : Nat,
    let applied := (step (callAt depth) f (.call applyName (some ((1 + args.length : Nat) : Int)) results)).outcome
      { m with storage := args.reverse ++ v :: rest }
    applied.1 = .error .depthExceeded ∨
      applied = (step (callAt depth) f (.call name (some (args.length : Nat)) results)).outcome
        { m with storage := args.reverse ++ rest }
  | 0 => by
    left
    rw [outcome_step_call (m := { m with storage := args.reverse ++ v :: rest }) happly]
    rfl
  | depth + 1 => by
    rw [step_apply_eq_call args results hname happly hbuiltin hf depth]
    exact step_refines (refines_callAt depth 1) f _ _

end

/-! ### Calls on a stack of their own -/

/-- A run on a stack of its own spares nothing. -/
theorem Run.Spares.alone {α : Type} (n : Nat) (r : Run α) : Spares [] n r r fun _ _ => True := fun m _ _ _ =>
  ⟨rfl, (r.outcome m).2.storage, (List.append_nil _).symm, fun _ _ => trivial⟩

section
variable {f : Frame} (hf : f.view.base ≤ ([] : List Value).length) {n : Nat}
include hf

/-- The check of the balance sees the whole stack, so it does not matter what is pushed and popped. -/
theorem callShuffle_alone (s : Shuffle) {r : Int} :
    Spares [] n (callShuffle f s (some n) (some r)) (callShuffle f s (some n) (some r)) fun _ k => (k : Int) = r := by
  rw [callShuffle_eq]
  exact callFixed_spares (w := f.view) hf hf fun _ => (Spares.alone _ _).mono fun _ _ _ => .inl rfl

/-- What `apply` calls is on such a stack as well. -/
theorem callApply_alone {c : Caller} (hc : ∀ (k : Nat) (v : Value),
    Spares [] k (c f v (some k) (some 1)) (c f v (some k) (some 1)) fun _ j => (j : Int) = 1) :
    Spares [] n (callApply c f (some n) (some 1)) (callApply c f (some n) (some 1)) fun _ k => (k : Int) = 1 := by
  intro m top hm hn
  rcases htop : top.reverse with _ | ⟨target, args⟩
  · have hzero : n = 0 := by rw [← hn, ← List.length_reverse, htop, List.length_nil]
    rw [hzero]
    exact Spares.throw _ m top hm rfl
  · have hlast : top = args.reverse ++ [target] := by rw [← List.reverse_cons, ← htop, List.reverse_reverse]
    have hcount : n = 1 + args.length := by rw [← hn, ← List.length_reverse, htop, List.length_cons, Nat.add_comm]
    rw [List.append_nil, hlast] at hm
    rw [hcount]
    have hcall := outcome_callApply (c := c) (some 1) hm hf
    exact SparesAt.of_outcome hcall hcall (hc args.length target _ args.reverse rfl List.length_reverse)

/-- **A call for one result leaves one value** on a stack that held its arguments and nothing else. -/
theorem callAt_alone : ∀ (depth n : Nat) (v : Value),
    Spares [] n (callAt depth f v (some n) (some 1)) (callAt depth f v (some n) (some 1)) fun _ k => (k : Int) = 1
  | 0, _, _ => Spares.throw _
  | depth + 1, n, v => by
    by_cases hv : ∃ h, v.payload = .callable h
    · obtain ⟨h, hv⟩ := hv
      rw [callAt_of_callable hv]
      by_cases ha : h = .builtin .apply
      · rw [ha]
        exact callApply_alone hf (callAt_alone depth)
      · intro m top hm hn
        subst hn
        cases h with
        | shuffle serial index =>
          refine SparesAt.of_outcome (Run.outcome_get_bind _ m) (Run.outcome_get_bind _ m) ?_
          cases m.shuffles[index]? with
          | none => exact Spares.throw _ m top hm rfl
          | some s => exact callShuffle_alone hf s m top hm rfl
        | _ =>
          exact callCallable_spares (w := f.view) hf hf (isolated_callAt _ depth) ha (.inl rfl) hm nofun
    · exact callOther_spares (w := f.view) hf hf (not_exists.1 hv) (.inl rfl)

end

/-! ### The log does not matter -/

/-- With another log a call does the same, but for the log. -/
theorem outcome_callAt_log (depth : Nat) (f : Frame) (v : Value) (args results : Option Int) (m : Machine)
    (log : Array Event) : ∃ log', (callAt depth f v args results).outcome { m with log := log } =
      let o := (callAt depth f v args results).outcome m
      (o.1, { o.2 with log := log' }) := by
  have hframe : f.RestsOn [] (fun _ => false) f := ⟨rfl, rfl, .inl rfl⟩
  have hmachine : Machine.RestsOn [] (fun _ => false) { m with log := log } m :=
    { Machine.Agrees.refl (fun _ => false) m with
      storage := (List.append_nil _).symm
      log := (List.filter_eq_nil_iff.2 nofun).trans (List.filter_eq_nil_iff.2 nofun).symm }
  have halike := isolated_callAt (fun _ => false) depth [] f f v args results hframe _ _ hmachine
  dsimp only
  generalize (callAt depth f v args results).outcome { m with log := log } = o at halike ⊢
  generalize (callAt depth f v args results).outcome m = o' at halike ⊢
  cases halike with
  | result h => exact ⟨_, Prod.ext rfl h.2.eq_but_log⟩
  | fault h => exact ⟨_, Prod.ext rfl h.eq_but_log⟩

/-! ### Calls from outside -/

namespace Calculator

/-- The arguments as the host writes them out. -/
def writeOut (args : List Value) : Run (List Expr) := args.mapM fun a => Build.value (.value a)

/-- Evaluates an expression over arguments that are written out. -/
def evaluateOver (e : List Expr → Expr) (args : List Value) : Calculation Value := do
  let given ← (writeOut args : Run (List Expr))
  evaluate (.expr (e given))

/-- The frame that a calculator runs code and makes calls in. -/
abbrev frame (c : Calculator) : Frame := ⟨globalScope, View.whole, c.traced⟩

/-- How a calculator ends that wants one value of a stack of its own. -/
def wantOne (c : Calculator) : Except Fault Unit × Machine → Except Fault Value × Calculator
  | (.ok (), m) =>
    (match m.storage.reverse with
      | [v] => .ok v
      | vs => .error (.resultsLeft vs.length 1), { c with machine := { m with storage := c.machine.storage } })
  | (.error e, m) => (.error e, { c with machine := { m with storage := c.machine.storage } })

/-- The calculator with another log. -/
def withLog (c : Calculator) (log : Array Event) : Calculator := { c with machine := { c.machine with log := log } }

theorem wantOne_log (c : Calculator) (o : Except Fault Unit × Machine) (log : Array Event) :
    c.wantOne (o.1, { o.2 with log := log }) = ((c.wantOne o).1, (c.wantOne o).2.withLog log) := by
  obtain ⟨e | ⟨⟩, m⟩ := o <;> rfl

theorem outcome_evaluate {e : Expr} {steps : List Instr} (h : e.compile = .ok steps) (c : Calculator) :
    (evaluate (.expr e)).outcome c =
      c.wantOne ((runSteps call c.frame steps).outcome { c.machine with storage := [] }) := by
  have hsteps : (liftM ((Program.expr e).compile) : Calculation (List Instr)).outcome c = (.ok steps, c) := by
    rw [Program.compile, h]
    rfl
  have hrun : (runProgram (.expr e)).outcome c =
      (liftM (runAside call globalScope c.traced (.mk [] steps)) : Calculation (List Value)).outcome c := by
    rw [runProgram, Calculation.outcome_bind_of_ok hsteps, Calculation.outcome_current_bind]
  rw [evaluate, Calculation.outcome_bind, hrun, Calculation.outcome_run]
  rcases ho : (runSteps call c.frame steps).outcome { c.machine with storage := [] } with
    ⟨e | ⟨⟩, m⟩
  · rw [outcome_runAside_of_error _ ho]
    rfl
  · rw [outcome_runAside_of_ok _ ho, wantOne]
    rcases m.storage.reverse with _ | ⟨v, _ | ⟨w, vs⟩⟩ <;> rfl

/-- How the arguments of a call from outside are put on its stack. -/
def pushData (args : List Data) : Run Unit := args.forM fun d => do Run.push (← toValue d)

/-- A value that is the calculator's own is taken as it is, and any other is refused, here and there. -/
theorem outcome_own_or_foreign (a : Value) :
    (∀ m : Machine, (Build.value (.value a)).outcome m = (.ok (.value a), m) ∧
      (toValue (.value a)).outcome m = (.ok a, m)) ∨
    ∃ e, ∀ m : Machine, (Build.value (.value a)).outcome m = (.error e, m) ∧
      (toValue (.value a)).outcome m = (.error e, m) := by
  unfold Build.value toValue
  dsimp only
  rcases hwrap : Domain.wrap Naming.standard 0 .standard (.value a) with e | b
  · exact .inr ⟨e, fun m => ⟨rfl, rfl⟩⟩
  · obtain rfl : b = a := by
      unfold Domain.wrap at hwrap
      dsimp only at hwrap
      split_ifs at hwrap
      · cases hwrap
        rfl
      · rcases hshown : a.shown Naming.standard with e | s <;> rw [hshown] at hwrap <;> cases hwrap
    exact .inl fun m => ⟨rfl, rfl⟩

/-- Arguments that are the calculator's own are written out and pushed as they are; if one is not, both fail alike. -/
theorem outcome_writeOut (args : List Value) :
    (∀ m : Machine, (writeOut args).outcome m = (.ok (args.map .value), m) ∧
      (pushData (args.map .value)).outcome m = (.ok (), { m with storage := args.reverse ++ m.storage })) ∨
    ∃ e, ∀ m : Machine, (writeOut args).outcome m = (.error e, m) ∧
      ∃ s, (pushData (args.map .value)).outcome m = (.error e, { m with storage := s }) := by
  induction args with
  | nil => exact .inl fun m => ⟨rfl, rfl⟩
  | cons a args ih =>
    have hwrite : writeOut (a :: args) =
        (Build.value (.value a) >>= fun e => writeOut args >>= fun es => pure (e :: es)) := List.mapM_cons
    have hpush : pushData ((a :: args).map .value) =
        ((toValue (.value a) >>= Run.push) >>= fun _ => pushData (args.map .value)) := rfl
    rw [hwrite, hpush]
    rcases outcome_own_or_foreign a with hown | ⟨e, hforeign⟩
    · have hfirst : ∀ m : Machine, (toValue (.value a) >>= Run.push).outcome m =
          (.ok (), { m with storage := a :: m.storage }) := fun m => Run.outcome_bind_of_ok (hown m).2
      rcases ih with ih | ⟨e, ih⟩
      · refine .inl fun m => ⟨?_, ?_⟩
        · rw [Run.outcome_bind_of_ok (hown m).1, Run.outcome_bind_of_ok (ih m).1]
          rfl
        · rw [Run.outcome_bind_of_ok (hfirst m), (ih _).2, List.reverse_cons, List.append_assoc]
          rfl
      · refine .inr ⟨e, fun m => ⟨?_, ?_⟩⟩
        · rw [Run.outcome_bind_of_ok (hown m).1, Run.outcome_bind_of_error (ih m).1]
        · obtain ⟨s, hs⟩ := (ih { m with storage := a :: m.storage }).2
          exact ⟨s, by rw [Run.outcome_bind_of_ok (hfirst m), hs]⟩
    · refine .inr ⟨e, fun m => ⟨?_, m.storage, ?_⟩⟩
      · rw [Run.outcome_bind_of_error (hforeign m).1]
      · rw [Run.outcome_bind_of_error (Run.outcome_bind_of_error (hforeign m).2)]

/-- The call that all ways of calling come to: of the value, on a stack that holds the arguments. -/
def callOwn (c : Calculator) (depth : Nat) (v : Value) (args : List Value) : Except Fault Unit × Machine :=
  (callAt depth c.frame v (some (args.length : Nat)) (some 1)).outcome
    { c.machine with storage := args.reverse }

/-- A global name stands for what it is bound to. -/
theorem outcome_resolve_name {name : Text} {v : Value} {c : Calculator}
    (h : c.machine.scopes.find? globalScope name = some (.value v)) :
    (Target.name name).resolve.outcome c.machine = (.ok v, c.machine) := by
  unfold Target.resolve lookup
  rw [Run.outcome_bind_of_ok (Run.outcome_find? globalScope name c.machine), h]
  rfl

/-- A call from outside puts its arguments on a stack of its own. -/
theorem outcome_callTarget {target : Target} {v : Value} {c : Calculator}
    (h : target.resolve.outcome c.machine = (.ok v, c.machine)) (args : List Data) (results : Option Int) :
    (callTarget target args results).outcome c =
      (liftM (Run.aside do
        pushData args
        call c.frame v (some args.length) results
        Run.values c.frame) : Calculation (List Value)).outcome c := by
  rw [callTarget, Calculation.outcome_current_bind]
  dsimp only
  rw [Calculation.outcome_run, Run.outcome_bind_of_ok h]
  rfl

/-- **A call from outside for one value** is the call of the value on a stack that holds the arguments. -/
theorem outcome_callForValue {target : Target} {v : Value} {args : List Value} {c : Calculator}
    (h : target.resolve.outcome c.machine = (.ok v, c.machine))
    (hpush : (pushData (args.map .value)).outcome { c.machine with storage := [] } =
      (.ok (), { c.machine with storage := args.reverse })) :
    (callForValue target (args.map .value)).outcome c = c.wantOne (c.callOwn depthLimit v args) := by
  rw [callForValue, Calculation.outcome_bind, outcome_callTarget h, Calculation.outcome_run, Run.outcome_aside,
    Run.outcome_bind_of_ok hpush, List.length_map]
  rcases hown : c.callOwn depthLimit v args with ⟨e | ⟨⟩, m⟩ <;>
    have hcall : (call c.frame v (some args.length) (some 1)).outcome { c.machine with storage := args.reverse } = _ :=
      hown
  · rw [Run.outcome_bind_of_error hcall]
    rfl
  · -- the call leaves one value, so the first of its results is the only one
    have halone := callAt_alone (f := c.frame) (Nat.le_refl _) depthLimit args.length v
      { c.machine with storage := args.reverse } args.reverse (List.append_nil _).symm List.length_reverse
    obtain ⟨top, htop, hone⟩ := halone.of_ok hcall
    obtain ⟨w, rfl⟩ := List.length_eq_one_iff.1 (Int.ofNat_inj.1 hone)
    rw [Run.outcome_bind_of_ok hcall, Run.outcome_values, wantOne, htop]
    rfl

/-- A call of which an argument cannot be pushed ends before it is made. -/
theorem outcome_callForValue_of_error {target : Target} {v : Value} {args : List Data} {c : Calculator} {e : Fault}
    {s : List Value} (h : target.resolve.outcome c.machine = (.ok v, c.machine))
    (hpush : (pushData args).outcome { c.machine with storage := [] } = (.error e, { c.machine with storage := s })) :
    (callForValue target args).outcome c = (.error e, c) := by
  rw [callForValue, Calculation.outcome_bind, outcome_callTarget h, Calculation.outcome_run, Run.outcome_aside,
    Run.outcome_bind_of_error hpush]

/-! ### All ways of calling -/

section
variable {c : Calculator} {v : Value}

/-- Steps that push values and end with a call. -/
theorem outcome_runSteps_last {steps : List Instr} {s : List Value} {i : Instr} {depth : Nat} {args : List Value}
    (hsteps : ∃ log, (runSteps call c.frame steps).outcome { c.machine with storage := [] } =
      (runSteps call c.frame [i]).outcome { c.machine with storage := s, log := log })
    (hlast : ∀ log, (step call c.frame i).outcome { c.machine with storage := s, log := log } =
      (callAt depth c.frame v (some (args.length : Nat)) (some 1)).outcome
        { c.machine with storage := args.reverse, log := log }) :
    ∃ log, (runSteps call c.frame steps).outcome { c.machine with storage := [] } =
      ((c.callOwn depth v args).1, { (c.callOwn depth v args).2 with log := log }) := by
  obtain ⟨log, hsteps⟩ := hsteps
  obtain ⟨log', hcons⟩ := outcome_runSteps_cons call c.frame i [] { c.machine with storage := s, log := log }
  obtain ⟨log'', hcall⟩ := outcome_callAt_log depth c.frame v (some (args.length : Nat)) (some 1)
    { c.machine with storage := args.reverse } log'
  have hstep : (step call c.frame i >>= fun _ => runSteps call c.frame []) = step call c.frame i := bind_pure_unit
  rw [hstep] at hcons
  exact ⟨log'', hsteps.trans (hcons.trans ((hlast log').trans hcall))⟩

/-- A call by name of values that are written out. -/
theorem outcome_evaluate_call {name : Text} (h : c.machine.scopes.find? globalScope name = some (.value v))
    (args : List Value) : ∃ log, (evaluate (.expr (.call name (args.map .value)))).outcome c =
      let o := c.wantOne (c.callOwn depthLimit v args)
      (o.1, o.2.withLog log) := by
  have hcompile : (Expr.call name (args.map .value)).compile =
      .ok (args.map .push ++ [.callWith name args.length 1]) := by
    rw [Expr.compile, Expr.compileAs, Expr.compileAll_map_value, List.length_map]
    rfl
  have hpush := outcome_runSteps_push call c.frame [.callWith name args.length 1] args
    { c.machine with storage := [] }
  rw [List.append_nil] at hpush
  obtain ⟨log, hrun⟩ := outcome_runSteps_last hpush fun log => outcome_step_call h call _ _
  refine ⟨log, ?_⟩
  rw [outcome_evaluate hcompile, hrun, wantOne_log]

/-- The steps that push what is to be called, and then its arguments. -/
theorem outcome_runSteps_target {name : Text} (h : c.machine.scopes.find? globalScope name = some (.value v))
    {t : Expr} (ht : t = .value v ∨ t = .name name) :
    ∃ i, t.compile = .ok [i] ∧ ∀ (args : List Value) (rest : List Instr),
      ∃ log, (runSteps call c.frame (i :: (args.map .push ++ rest))).outcome
          { c.machine with storage := [] } =
        (runSteps call c.frame rest).outcome
          { c.machine with storage := args.reverse ++ [v], log := log } := by
  have hpush : ∀ {i : Instr}, (∀ log, (step call c.frame i).outcome { c.machine with storage := [], log := log } =
        (.ok (), { c.machine with storage := [v], log := log })) → ∀ (args : List Value) (rest : List Instr),
      ∃ log, (runSteps call c.frame (i :: (args.map .push ++ rest))).outcome { c.machine with storage := [] } =
        (runSteps call c.frame rest).outcome { c.machine with storage := args.reverse ++ [v], log := log } := by
    intro i hi args rest
    obtain ⟨log, hcons⟩ := outcome_runSteps_cons call c.frame i (args.map .push ++ rest)
      { c.machine with storage := [] }
    obtain ⟨log', hargs⟩ := outcome_runSteps_push call c.frame rest args { c.machine with storage := [v], log := log }
    exact ⟨log', hcons.trans ((Run.outcome_bind_of_ok (hi log)).trans hargs)⟩
  rcases ht with rfl | rfl
  · exact ⟨.push v, rfl, hpush fun _ => rfl⟩
  · refine ⟨.get name, rfl, hpush fun log => ?_⟩
    have hresolve : (resolve c.frame name).outcome { c.machine with storage := [], log := log } =
        (.ok (.value v), { c.machine with storage := [], log := log }) := Run.outcome_resolve h
    exact Run.outcome_bind_of_ok hresolve

/-- **An expression that calls what another one gives**, one call deeper than a call by name. -/
theorem outcome_evaluate_invoke {name : Text} {apply : Value}
    (h : c.machine.scopes.find? globalScope name = some (.value v))
    (happly : c.machine.scopes.find? globalScope applyName = some (.value apply))
    (hbuiltin : apply.payload = .callable (.builtin .apply)) {t : Expr} (ht : t = .value v ∨ t = .name name)
    (args : List Value) : ∃ log, (evaluate (.expr (.invoke t (args.map .value)))).outcome c =
      let o := c.wantOne (c.callOwn (depthLimit - 1) v args)
      (o.1, o.2.withLog log) := by
  obtain ⟨i, hi, hpush⟩ := outcome_runSteps_target h ht
  have hcompile : (Expr.invoke t (args.map .value)).compile =
      .ok (i :: (args.map .push ++ [.applyTo args.length])) := by
    have hi : t.compileAs .operand = .ok [i] := hi
    rw [Expr.compile, Expr.compileAs, hi, Expr.compileAll_map_value, List.length_map]
    rfl
  have hlast : ∀ log, (step call c.frame (.applyTo args.length)).outcome
        { c.machine with storage := args.reverse ++ [v], log := log } =
      (callAt (depthLimit - 1) c.frame v (some (args.length : Nat)) (some 1)).outcome
        { c.machine with storage := args.reverse, log := log } := fun log => by
    have hbase : c.frame.view.base ≤ ([] : List Value).length := Nat.le_refl _
    have hstep := outcome_step_apply (depthLimit - 1) (m := { c.machine with log := log }) (v := v) args (some 1) happly
      hbuiltin hbase
    rw [List.append_nil] at hstep
    exact hstep
  obtain ⟨log, hrun⟩ := outcome_runSteps_last (hpush args [.applyTo args.length]) hlast
  refine ⟨log, ?_⟩
  rw [outcome_evaluate hcompile, hrun, wantOne_log]

/-- One call less deep comes to the same, unless it nests too deep. -/
theorem wantOne_callOwn_refines (c : Calculator) (v : Value) (args : List Value) :
    (c.wantOne (c.callOwn (depthLimit - 1) v args)).1 = .error .depthExceeded ∨
      c.wantOne (c.callOwn (depthLimit - 1) v args) = c.wantOne (c.callOwn depthLimit v args) := by
  have hrefines : (c.callOwn (depthLimit - 1) v args).1 = .error .depthExceeded ∨
      c.callOwn (depthLimit - 1) v args = c.callOwn depthLimit v args := refines_callAt (depthLimit - 1) 1 _ v _ _ _
  rcases hrefines with hdeep | hsame
  · left
    rcases ho : c.callOwn (depthLimit - 1) v args with ⟨x, m⟩
    rw [ho] at hdeep
    obtain rfl : x = .error .depthExceeded := hdeep
    rfl
  · exact .inr (congrArg c.wantOne hsame)

end

/-- **All ways of calling agree.** In code, what is called by a name does what it does when it is handed to `apply`
with its arguments, whatever is declared: it ends in the same way, on the same machine, one call deeper, so that at
the same depth the two can differ only in that the second nests too deep. From outside, calling a value, or a global
name that stands for it, comes to what evaluating the call by name comes to, and evaluating the call of the value
itself, all but the records that the evaluation leaves in the log. -/
theorem calls_agree :
    (∀ (depth : Nat) (f : Frame) (m : Machine) (name : Text) (v apply : Value) (args rest : List Value)
        (results : Option Int),
      m.scopes.find? f.scope name = some (.value v) → m.scopes.find? f.scope applyName = some (.value apply) →
      apply.payload = .callable (.builtin .apply) → f.view.base ≤ rest.length →
      let named (depth : Nat) := (step (callAt depth) f (.call name (some (args.length : Nat)) results)).outcome
        { m with storage := args.reverse ++ rest }
      let applied (depth : Nat) :=
        (step (callAt depth) f (.call applyName (some ((1 + args.length : Nat) : Int)) results)).outcome
          { m with storage := args.reverse ++ v :: rest }
      applied (depth + 1) = named depth ∧
        ((applied depth).1 = .error .depthExceeded ∨ applied depth = named depth)) ∧
    ∀ (c : Calculator) (name : Text) (v apply : Value) (args : List Value),
      c.machine.scopes.find? globalScope name = some (.value v) →
      c.machine.scopes.find? globalScope applyName = some (.value apply) →
      apply.payload = .callable (.builtin .apply) →
      let called := (callForValue (.value v) (args.map .value)).outcome c
      let evaluated (e : List Expr → Expr) := (evaluateOver e args).outcome c
      (callForValue (.name name) (args.map .value)).outcome c = called ∧
      (∃ log, evaluated (.call name) = (called.1, called.2.withLog log)) ∧
      ∀ t : Expr, t = .value v ∨ t = .name name →
        (evaluated (.invoke t)).1 = .error .depthExceeded ∨
          ∃ log, evaluated (.invoke t) = (called.1, called.2.withLog log) := by
  constructor
  · intro depth f m name v apply args rest results hname happly hbuiltin hf named applied
    exact ⟨step_apply_eq_call args results hname happly hbuiltin hf depth,
      step_apply_refines_call args results hname happly hbuiltin hf depth⟩
  · intro c name v apply args hname happly hbuiltin called evaluated
    have hresolve := outcome_resolve_name hname
    rcases outcome_writeOut args with hown | ⟨e, hforeign⟩
    · have hpush : (pushData (args.map .value)).outcome { c.machine with storage := [] } =
          (.ok (), { c.machine with storage := args.reverse }) := by
        rw [(hown _).2, List.append_nil]
      have hvalue : called = c.wantOne (c.callOwn depthLimit v args) := outcome_callForValue rfl hpush
      have hevaluated : ∀ e : List Expr → Expr, evaluated e = (evaluate (.expr (e (args.map .value)))).outcome c :=
        fun e => Calculation.outcome_bind_of_ok (Calculation.outcome_run_of_eq (hown c.machine).1)
      refine ⟨(outcome_callForValue hresolve hpush).trans hvalue.symm, ?_, fun t ht => ?_⟩
      · rw [hevaluated, hvalue]
        exact outcome_evaluate_call hname args
      · obtain ⟨log, hinvoke⟩ := outcome_evaluate_invoke hname happly hbuiltin ht args
        rw [hevaluated, hinvoke, hvalue]
        exact (c.wantOne_callOwn_refines v args).imp_right fun hsame => ⟨log, by rw [hsame]⟩
    · obtain ⟨s, hpush⟩ := (hforeign { c.machine with storage := [] }).2
      have hvalue : called = (.error e, c) := outcome_callForValue_of_error rfl hpush
      have hevaluated : ∀ e' : List Expr → Expr, evaluated e' = (.error e, c) := fun _ =>
        Calculation.outcome_bind_of_error (Calculation.outcome_run_of_eq (hforeign c.machine).1)
      have hsame : ∀ e' : List Expr → Expr, ∃ log, evaluated e' = (called.1, called.2.withLog log) := fun e' =>
        ⟨c.machine.log, by rw [hevaluated, hvalue]; rfl⟩
      exact ⟨(outcome_callForValue_of_error hresolve hpush).trans hvalue.symm, hsame _, fun t _ => .inr (hsame _)⟩

/-- The kind of a number, asked for in all these ways. -/
theorem calls_agree_type :
    let c := bare false false
    let type : Value := .own (.callable (.builtin .type))
    let apply : Value := .own (.callable (.builtin .apply))
    let one : Value := .own (.int 1)
    let f : Frame := ⟨globalScope, View.whole, false⟩
    c.machine.scopes.find? f.scope "type" = some (.value type) ∧
      c.machine.scopes.find? f.scope applyName = some (.value apply) ∧
      (step (callAt 2) f (.call applyName (some 2) (some 1))).outcome { c.machine with storage := [one, type] } =
        (step (callAt 1) f (.call "type" (some 1) (some 1))).outcome { c.machine with storage := [one] } ∧
      ((callForValue (.value type) [.value one]).outcome c).1 = .ok (.own (.str "int")) ∧
      ((evaluateOver (.call "type") [one]).outcome c).1 = .ok (.own (.str "int")) := by
  intro c type apply one f
  have htype : c.machine.scopes.find? f.scope "type" = some (.value type) := rfl
  have happly : c.machine.scopes.find? f.scope applyName = some (.value apply) := rfl
  obtain ⟨hshift, -⟩ := calls_agree.1 1 f c.machine "type" type apply [one] [] (some 1) htype happly rfl (Nat.zero_le _)
  obtain ⟨-, ⟨log, hcall⟩, -⟩ := calls_agree.2 c "type" type apply [one] htype happly rfl
  have hvalue : ((callForValue (.value type) [.value one]).outcome c).1 = .ok (.own (.str "int")) := rfl
  exact ⟨htype, happly, hshift, hvalue, (congrArg Prod.fst hcall).trans hvalue⟩

end Calculator

end StackCalc
