import StackCalc.Proofs.Machine.Isolation
import StackCalc.Proofs.Scope.Binding

/-! # Calling closures

A closure that is called takes its arguments off the stack, binds its parameters to them in a new layer over the
scope that it was made in, and runs its body there, on what is left of the stack (`outcome_callClosure`). Code
that makes a closure, pushes arguments and applies the one to the others comes to just that
(`outcome_applyClosure`). -/

namespace StackCalc

/-- The machine that the body of a closure starts on: the arguments are bound, in a new layer. -/
def Machine.entering (m : Machine) (scope : ScopeId) (b : Bindings) (s : List Value) : Machine :=
  { m with storage := s, scopes := ⟨m.scopes.scopes.push (.layer scope (Bindings.putAll [] b))⟩ }

theorem outcome_callClosure {c : Caller} {f : Frame} {params : List Text} (body : List Instr) (scope : ScopeId)
    {args s : List Value} (results : Option Int) {m : Machine} (hlen : params.length = args.length)
    (hm : m.storage = args.reverse ++ s) (hs : f.view.base ≤ s.length) :
    (callClosure c f params body scope (some (args.length : Nat)) results).outcome m =
      (do
        let frame : Frame := ⟨m.scopes.scopes.size, ⟨s.length⟩, f.trace⟩
        runSteps c frame body
        Run.checkResults frame results : Run Unit).outcome (m.entering scope (params.zip args) s) := by
  have hsub : f.view.sub m.storage (params.length : Nat) = .ok ⟨s.length⟩ := by
    rw [hm, hlen, View.sub_append hs (Nat.le_of_eq List.length_reverse.symm), List.length_reverse, Nat.sub_self,
      Nat.zero_add]
  have hvalues : View.values ⟨s.length⟩ m.storage = args := by
    rw [hm, View.values, List.length_append, Nat.add_sub_cancel, List.take_left, List.reverse_reverse]
  have hinner := Run.outcome_inner f scope (params.length : Nat) m
  rw [hsub] at hinner
  have howns : Forest.Owns ⟨m.scopes.scopes.push (.layer scope [])⟩ m.scopes.scopes.size :=
    Forest.owns_of_layer (b := []) Array.getElem?_push_size
  rw [callClosure_eq, ← hlen, Run.wants_self, pure_bind, Run.outcome_bind_of_ok hinner,
    Run.outcome_bind_of_ok (Run.outcome_values _ _), Run.outcome_bind_of_ok (Run.outcome_modify _ _)]
  dsimp only
  rw [hvalues, hm, View.clear_append, Run.outcome_bind_of_ok (Run.outcome_putAll (params.zip args) howns)]
  dsimp only
  rw [Forest.bindAll_push]
  rfl

/-- Values that are written out are pushed. -/
theorem Expr.compileAll_map_value (vs : List Value) : compileAll (vs.map .value) = .ok (vs.map .push) := by
  induction vs with
  | nil => rfl
  | cons v vs ih =>
    rw [List.map_cons, compileAll, ih]
    rfl

/-- Values that are pushed one after the other. -/
theorem outcome_runSteps_push (c : Caller) (f : Frame) (rest : List Instr) : ∀ (vs : List Value) (m : Machine),
    ∃ log, (runSteps c f (vs.map .push ++ rest)).outcome m =
      (runSteps c f rest).outcome { m with storage := vs.reverse ++ m.storage, log := log }
  | [], m => ⟨m.log, rfl⟩
  | v :: vs, m => by
    obtain ⟨log, hlog⟩ := outcome_runSteps_cons c f (.push v) (vs.map .push ++ rest) m
    obtain ⟨log', hlog'⟩ := outcome_runSteps_push c f rest vs { m with storage := v :: m.storage, log := log }
    refine ⟨log', hlog.trans (hlog'.trans ?_)⟩
    rw [List.reverse_cons, List.append_assoc]
    rfl

/-- A call of the builtin function that calls what lies below the arguments. -/
theorem outcome_callApply {c : Caller} {f : Frame} {target : Value} {args s : List Value} (results : Option Int)
    {m : Machine} (hm : m.storage = args.reverse ++ target :: s) (hs : f.view.base ≤ s.length) :
    (callApply c f (some ((1 + args.length : Nat) : Int)) results).outcome m =
      (c f target (some (args.length : Nat)) results).outcome { m with storage := args.reverse ++ s } := by
  have hstorage : m.storage = (target :: args).reverse ++ s := by
    rw [hm, List.reverse_cons, List.append_assoc]
    rfl
  have hcount : ((1 + args.length : Nat) : Int) = ((target :: args).length : Nat) := by
    rw [List.length_cons, Nat.add_comm]
  have hrest : ((target :: args).length : Int) - 1 = args.length := by
    rw [List.length_cons]
    omega
  rw [callApply_some, if_neg (by omega), hcount, Run.outcome_bind_of_ok (Run.outcome_take_append hstorage hs)]
  dsimp only
  rw [Run.outcome_bind_of_ok (Run.outcome_pushAll args _), hrest]

/-- **Code that makes a closure and applies it to values** runs the body of the closure, with the values bound. -/
theorem outcome_applyClosure (depth : Nat) (f : Frame) {params : List Text} (body : List Instr) {args : List Value}
    {m : Machine} (hlen : params.length = args.length) (hs : f.view.base ≤ m.storage.length)
    (happly : m.scopes.find? f.scope applyName = some (.value (.own (.callable (.builtin .apply))))) :
    ∃ log,
      (runSteps (callAt (depth + 2)) f (.closure params body :: (args.map .push ++ [.applyTo args.length]))).outcome m =
      (do
        let frame : Frame := ⟨m.scopes.scopes.size, ⟨m.storage.length⟩, f.trace⟩
        runSteps (callAt depth) frame body
        Run.checkResults frame (some 1) : Run Unit).outcome
          ({ m with next := m.next + 1, log := log }.entering f.scope (params.zip args) m.storage) := by
  let made : Value := .own (.callable (.closure m.next params body f.scope))
  obtain ⟨log, hclosure⟩ := outcome_runSteps_cons (callAt (depth + 2)) f (.closure params body)
    (args.map .push ++ [.applyTo args.length]) m
  have hmade : (step (callAt (depth + 2)) f (.closure params body)).outcome { m with log := log } =
      (.ok (), { m with storage := made :: m.storage, next := m.next + 1, log := log }) := rfl
  obtain ⟨log', hpush⟩ := outcome_runSteps_push (callAt (depth + 2)) f [.applyTo args.length] args
    { m with storage := made :: m.storage, next := m.next + 1, log := log }
  obtain ⟨log'', hcall⟩ := outcome_runSteps_cons (callAt (depth + 2)) f (.applyTo args.length) []
    { m with storage := args.reverse ++ made :: m.storage, next := m.next + 1, log := log' }
  let called : Machine := { m with storage := args.reverse ++ made :: m.storage, next := m.next + 1, log := log'' }
  have hresolve : (resolve f applyName).outcome called =
      (.ok (.value (.own (.callable (.builtin .apply)))), called) := Run.outcome_resolve happly
  have hstep : (step (callAt (depth + 2)) f (.applyTo args.length)).outcome called =
      (callApply (callAt (depth + 1)) f (some ((1 + args.length : Nat) : Int)) (some 1)).outcome called :=
    Run.outcome_bind_of_ok hresolve
  refine ⟨log'', ?_⟩
  rw [hclosure, Run.outcome_bind_of_ok hmade, hpush, hcall]
  have hlast : (step (callAt (depth + 2)) f (.applyTo args.length) >>= fun _ => runSteps (callAt (depth + 2)) f []) =
      step (callAt (depth + 2)) f (.applyTo args.length) := bind_pure_unit
  rw [hlast, hstep, outcome_callApply (some 1) rfl hs]
  have hclosureCall : callAt (depth + 1) f made (some (args.length : Nat)) (some 1) =
      callClosure (callAt depth) f params body f.scope (some (args.length : Nat)) (some 1) :=
    callAt_of_callable (h := .closure m.next params body f.scope) rfl depth f _ _
  rw [hclosureCall, outcome_callClosure body f.scope (some 1) hlen rfl hs]
  rfl

end StackCalc
