import StackCalc.Proofs.Machine.Resting
import StackCalc.Machine.Call

/-! # Code on a part of the stack

Code that runs on a view of a storage does exactly what it does on a stack of its own that holds the
values of the view: it ends in the same way, with the same scopes, the same lines printed and the same
log, and it leaves on the storage what it leaves on the stack of its own, on top of the values below the
view, which stay as they are (`runSteps_append`).

The proof goes through the functions of the machine one by one: each is alike on frames that rest on
each other, provided that the calls nested in it are (`Caller.Isolated`). By induction on the depth of
nesting all calls are (`isolated_callAt`). -/

namespace StackCalc

open Run (Alike)

variable {below : List Value} {keep : Event → Bool} {f g : Frame} {s t : Bool}

/-- Calls are alike in frames that rest on each other. -/
def Caller.Isolated (keep : Event → Bool) (c : Caller) : Prop :=
  ∀ (below : List Value) (f g : Frame) (v : Value) (args results : Option Int),
    f.RestsOn below keep g → Alike below keep Eq (c f v args results) (c g v args results)

/-! ### Names and traces -/

/-- The record of a step is the only trace it leaves. -/
theorem outcome_trace (hk : ∀ i vs, keep (.step i vs) = false) (f : Frame) (i : Instr) (m : Machine) :
    ∃ log, (trace f i).outcome m = (.ok (), { m with log := log }) ∧
      log.toList.filter keep = m.log.toList.filter keep := by
  unfold trace
  by_cases hf : f.trace = true
  · rw [if_pos hf, Run.outcome_bind_of_ok (Run.outcome_values f m)]
    by_cases hl : m.logging = true
    · refine ⟨m.log.push (.step i (f.view.values m.storage)), ?_, by simp [hk]⟩
      simp only [Run.note, Run.outcome_modify, if_pos hl]
    · refine ⟨m.log, ?_, rfl⟩
      simp only [Run.note, Run.outcome_modify, if_neg hl]
  · rw [if_neg hf]
    exact ⟨m.log, rfl, rfl⟩

/-- Steps are taken one after the other; before a step at most the log changes. -/
theorem outcome_runSteps_cons (c : Caller) (f : Frame) (i : Instr) (rest : List Instr) (m : Machine) :
    ∃ log, (runSteps c f (i :: rest)).outcome m =
      (step c f i >>= fun _ => runSteps c f rest).outcome { m with log := log } := by
  obtain ⟨log, hlog, -⟩ : ∃ log, (trace f i).outcome m = (.ok (), { m with log := log }) ∧
      log.toList.filter (fun _ => false) = m.log.toList.filter fun _ => false := outcome_trace (fun _ _ => rfl) f i m
  exact ⟨log, Run.outcome_bind_of_ok hlog⟩

/-- Code on an empty stack of its own fails as its steps do. -/
theorem outcome_runAside_of_error {c : Caller} {scope : ScopeId} {traced : Bool} (code : Code) {m n : Machine}
    {e : Fault} (h : (runSteps c ⟨scope, View.whole, traced⟩ code.steps).outcome { m with storage := [] } =
      (.error e, n)) :
    (runAside c scope traced code).outcome m = (.error e, { n with storage := m.storage }) := by
  rw [runAside, Run.outcome_aside, Run.outcome_bind_of_error h]

/-- Its results are what the steps leave there. -/
theorem outcome_runAside_of_ok {c : Caller} {scope : ScopeId} {traced : Bool} (code : Code) {m n : Machine}
    (h : (runSteps c ⟨scope, View.whole, traced⟩ code.steps).outcome { m with storage := [] } = (.ok (), n)) :
    (runAside c scope traced code).outcome m = (.ok n.storage.reverse, { n with storage := m.storage }) := by
  have hvalues : View.whole.values n.storage = n.storage.reverse := by
    rw [View.values, View.whole, Nat.sub_zero, List.take_length]
  rw [runAside, Run.outcome_aside, Run.outcome_bind_of_ok h, Run.outcome_values, hvalues]

theorem trace_alike (hf : f.RestsOn below keep g) (i : Instr) :
    Alike below keep Eq (trace f i) (trace g i) := by
  rcases hf.trace with h | h
  · unfold trace
    rw [h]
    exact Alike.ite (Alike.bind_eq (Run.values_alike hf) fun _ => Run.note_alike _) (Alike.pure rfl)
  · intro m n hm
    obtain ⟨l, hl, hl'⟩ := outcome_trace h f i m
    obtain ⟨l', hn, hn'⟩ := outcome_trace h g i n
    rw [hl, hn]
    exact .result ⟨rfl, { hm with log := by rw [hl', hn', hm.log] }⟩

theorem resolve_alike (hf : f.RestsOn below keep g) (name : Text) :
    Alike below keep Eq (resolve f name) (resolve g name) := by
  unfold resolve
  rw [hf.scope]
  refine Alike.bind_eq (Run.find?_alike _ _) fun found => ?_
  cases found with
  | none => exact Alike.throw _
  | some s => exact Alike.pure rfl

theorem callSingle_alike {r r' : Run Value} (h : Alike below keep Eq r r') (results : Option Int) :
    Alike below keep Eq (callSingle results r) (callSingle results r') := by
  rw [callSingle_eq, callSingle_eq]
  exact Alike.bind_eq (Alike.wants _ _ _) fun _ => Alike.bind_eq h fun v => Run.push_alike v

theorem callPlaceholder_alike (hf : f.RestsOn below keep g) (name : Text) (args results : Option Int) :
    Alike below keep Eq (callPlaceholder f name args results) (callPlaceholder g name args results) := by
  unfold callPlaceholder
  refine callSingle_alike ?_ _
  cases args with
  | none => exact Alike.throw _
  | some n => exact Alike.bind_eq (Run.take_alike hf n) fun _ => Run.object_alike _

theorem getSymbol_alike (s : Symbol) : Alike below keep Eq (getSymbol s) (getSymbol s) := by
  cases s with
  | value v => exact Run.push_alike v
  | placeholder name => exact Alike.bind_eq (Run.object_alike _) fun v => Run.push_alike v

/-! ### Pieces of patterns under construction -/

theorem findBuilder_alike (id : Nat) : Alike below keep Eq (findBuilder id) (findBuilder id) := by
  refine Alike.get_bind fun m n hm => ?_
  rw [hm.builders]
  exact Alike.pure rfl

theorem setBuilder_alike (id : Nat) (b : PatternBuilder) :
    Alike below keep Eq (setBuilder id b) (setBuilder id b) :=
  Alike.modify fun _ _ hm => { hm with builders := congrArg (·.setIfInBounds id b) hm.builders }

theorem newBuilder_alike : Alike below keep Eq newBuilder newBuilder := by
  intro m n hm
  have h : m.builders = n.builders := hm.builders
  exact .result ⟨congrArg Array.size h, { hm with builders := congrArg (·.push .empty) h }⟩

theorem addGuarded_alike (hf : f.RestsOn below keep g) (builder : Nat) :
    Alike below keep Eq (addGuarded f builder) (addGuarded g builder) := by
  refine Alike.bind_eq (Run.pop_alike hf) fun v => Alike.bind_eq (Alike.lift _) fun action => ?_
  refine Alike.bind_eq (Run.pop_alike hf) fun w => Alike.bind_eq (Alike.lift _) fun guard => ?_
  refine Alike.bind_eq (findBuilder_alike builder) fun b => ?_
  exact Alike.bind_eq (Alike.lift _) fun _ => setBuilder_alike builder _

theorem addDefault_alike (hf : f.RestsOn below keep g) (builder : Nat) :
    Alike below keep Eq (addDefault f builder) (addDefault g builder) := by
  refine Alike.bind_eq (Run.pop_alike hf) fun v => Alike.bind_eq (Alike.lift _) fun action => ?_
  refine Alike.bind_eq (findBuilder_alike builder) fun b => ?_
  have hset : Alike below keep Eq (setBuilder builder (b.addDefault action))
      (setBuilder builder (b.addDefault action)) := setBuilder_alike _ _
  exact Alike.ite (Alike.bind_eq (Run.note_alike _) fun _ => hset) hset

/-! ### Functions that run no code -/

theorem callFixed_alike (hf : f.RestsOn below keep g) (takes gives : Nat) (args results : Option Int)
    {body body' : Run Unit} (h : Alike below keep Eq body body') :
    Alike below keep Eq (callFixed f takes gives args results body)
      (callFixed g takes gives args results body') := by
  rw [callFixed_eq, callFixed_eq]
  refine Alike.bind_eq (Alike.wants _ _ _) fun _ => Alike.bind_eq (Alike.wants _ _ _) fun _ => ?_
  refine Alike.bind_eq (Run.size_alike hf) fun before => Alike.ite (Alike.throw _) ?_
  refine Alike.bind_eq h fun _ => Alike.bind_eq (Run.size_alike hf) fun after => ?_
  exact Alike.ite (Alike.throw _) (Alike.pure rfl)

theorem callPure_alike (hf : f.RestsOn below keep g) (takes gives : Nat) (args results : Option Int)
    (fn : List Value → Except Fault (List Value)) :
    Alike below keep Eq (callPure f takes gives args results fn)
      (callPure g takes gives args results fn) := by
  rw [callPure_eq, callPure_eq]
  refine callFixed_alike hf takes gives args results ?_
  refine Alike.bind_eq (Run.take_alike hf _) fun given => Alike.bind_eq (Alike.lift _) fun vs => ?_
  exact Alike.forM (fun v => Alike.bind_eq (Run.distinguish_alike v) fun w => Run.push_alike w) vs

theorem callDefine_alike (hf : f.RestsOn below keep g) (args results : Option Int) :
    Alike below keep Eq (callDefine f args results) (callDefine g args results) := by
  refine callFixed_alike hf 2 1 args results ?_
  rw [hf.scope]
  refine Alike.bind_eq (Run.pop_alike hf) fun v => Alike.bind_eq (Run.pop_alike hf) fun w => ?_
  refine Alike.bind_eq (Alike.lift _) fun name => ?_
  exact Alike.bind_eq (Run.put_alike _ _ _) fun _ => Run.push_alike v

theorem callShuffle_alike (hf : f.RestsOn below keep g) (h : Shuffle) (args results : Option Int) :
    Alike below keep Eq (callShuffle f h args results) (callShuffle g h args results) := by
  rw [callShuffle_eq, callShuffle_eq]
  refine callFixed_alike hf _ _ args results ?_
  have hpop : Alike below keep Eq (do let _ ← Run.pop f) (do let _ ← Run.pop g) :=
    Alike.bind_eq (Run.pop_alike hf) fun _ => Alike.pure rfl
  exact Alike.bind_eq (Alike.forM (fun _ => hpop) _) fun _ => Run.pushAll_alike _

theorem takeArguments_alike (hf : f.RestsOn below keep g) (args : Option Int) :
    Alike below keep Eq (takeArguments f args) (takeArguments g args) := by
  cases args with
  | none => exact Alike.bind_eq (Run.size_alike hf) fun n => Run.take_alike hf n
  | some n => exact Run.take_alike hf n

theorem callList_alike (hf : f.RestsOn below keep g) (args results : Option Int) :
    Alike below keep Eq (callList f args results) (callList g args results) :=
  callSingle_alike (Alike.bind_eq (takeArguments_alike hf args) fun _ => Alike.pure rfl) results

theorem callPrint_alike (hf : f.RestsOn below keep g) (args results : Option Int) :
    Alike below keep Eq (callPrint f args results) (callPrint g args results) := by
  refine callSingle_alike ?_ results
  refine Alike.bind_eq (takeArguments_alike hf args) fun given => ?_
  refine Alike.bind_eq (Alike.lift _) fun words => ?_
  exact Alike.bind_eq (Run.emit_alike _ _) fun _ => Alike.pure rfl

theorem callStruct_alike (hf : f.RestsOn below keep g) (args results : Option Int) :
    Alike below keep Eq (callStruct f args results) (callStruct g args results) := by
  refine callSingle_alike ?_ results
  refine Alike.bind_eq (takeArguments_alike hf args) fun given => ?_
  refine Alike.bind_eq (Alike.lift _) fun parts => ?_
  exact Alike.bind_eq (Run.note_alike _) fun _ => Run.object_alike _

theorem popPatterns_alike (hf : f.RestsOn below keep g) :
    ∀ n : Nat, Alike below keep Eq (popPatterns f n) (popPatterns g n)
  | 0 => Alike.pure rfl
  | n + 1 => Alike.bind_eq (Run.pop_alike hf) fun _ => Alike.bind_eq (Alike.lift _) fun _ =>
      Alike.bind_eq (popPatterns_alike hf n) fun _ => Alike.pure rfl

theorem callMatch_alike (hf : f.RestsOn below keep g) (args results : Option Int) :
    Alike below keep Eq (callMatch f args results) (callMatch g args results) := by
  refine callSingle_alike ?_ results
  rw [hf.scope]
  cases args with
  | none => exact Alike.throw _
  | some n => exact Alike.bind_eq (popPatterns_alike hf _) fun _ => Run.callable_alike _

theorem callCounter_alike (hf : f.RestsOn below keep g) (args results : Option Int) :
    Alike below keep Eq (callCounter f args results) (callCounter g args results) :=
  callSingle_alike (Alike.bind_eq (Run.take_alike hf _) fun _ => Alike.pure rfl) results

theorem callConstructor_alike (hf : f.RestsOn below keep g) (r : StructType)
    (args results : Option Int) :
    Alike below keep Eq (callConstructor f r args results) (callConstructor g r args results) := by
  rw [callConstructor_eq, callConstructor_eq]
  refine Alike.bind_eq (Alike.wants _ _ _) fun _ => callSingle_alike ?_ results
  exact Alike.bind_eq (Run.take_alike hf _) fun _ => Alike.pure rfl

theorem callPlain_alike (v : Value) (args results : Option Int) :
    Alike below keep Eq (callPlain v args results) (callPlain v args results) := by
  rw [callPlain_eq]
  exact Alike.bind_eq (Alike.wants _ _ _) fun _ =>
    Alike.bind_eq (Alike.wants _ _ _) fun _ => Run.push_alike v

section
variable {c : Caller} (hc : c.Isolated keep)
include hc

/-! ### Running steps -/

theorem callSymbol_alike (hf : f.RestsOn below keep g) (args results : Option Int) (s : Symbol) :
    Alike below keep Eq (callSymbol c f args results s) (callSymbol c g args results s) := by
  cases s with
  | value v => exact hc below f g v args results hf
  | placeholder name => exact callPlaceholder_alike hf name args results

theorem step_alike (hf : f.RestsOn below keep g) (i : Instr) :
    Alike below keep Eq (step c f i) (step c g i) := by
  cases i with
  | push v => exact Run.push_alike v
  | get name => exact Alike.bind_eq (resolve_alike hf name) fun s => getSymbol_alike s
  | call name args results =>
    exact Alike.bind_eq (resolve_alike hf name) fun s => callSymbol_alike hc hf args results s
  | binary op =>
    refine Alike.bind_eq (Run.pop_alike hf) fun right => Alike.bind_eq (Run.pop_alike hf) fun left => ?_
    refine Alike.bind_eq (Alike.lift _) fun v => ?_
    exact Alike.bind_eq (Run.distinguish_alike v) fun w => Run.push_alike w
  | unary op =>
    refine Alike.bind_eq (Run.pop_alike hf) fun operand => Alike.bind_eq (Alike.lift _) fun v => ?_
    exact Alike.bind_eq (Run.distinguish_alike v) fun w => Run.push_alike w
  | closure params body =>
    unfold step
    rw [hf.scope]
    exact Alike.bind_eq (Run.callable_alike _) fun v => Run.push_alike v

theorem runSteps_alike (hf : f.RestsOn below keep g) :
    ∀ steps : List Instr, Alike below keep Eq (runSteps c f steps) (runSteps c g steps)
  | [] => Alike.pure rfl
  | i :: steps =>
    Alike.bind_eq (trace_alike hf i) fun _ =>
      Alike.bind_eq (step_alike hc hf i) fun _ => runSteps_alike hf steps

theorem runAside_alike (ht : SameTrace keep s t) (scope : ScopeId) (code : Code) :
    Alike below keep Eq (runAside c scope s code) (runAside c scope t code) := by
  have h0 : Frame.RestsOn [] keep ⟨scope, View.whole, s⟩ ⟨scope, View.whole, t⟩ := ⟨rfl, rfl, ht⟩
  exact Alike.aside (Alike.bind_eq (runSteps_alike hc h0 _) fun _ => Run.values_alike h0)

/-! ### Matching -/

theorem runGuard_alike (ht : SameTrace keep s t) (bindings : ScopeId) (guard : Code) :
    Alike below keep Eq (runGuard c bindings s guard) (runGuard c bindings t guard) := by
  refine Alike.bind_eq (Run.grow_alike _) fun scope => ?_
  refine Alike.bind_eq (runAside_alike hc ht scope guard) fun vs => ?_
  rcases vs with _ | ⟨v, _ | ⟨w, vs⟩⟩
  · exact Alike.throw _
  · exact Alike.pure rfl
  · exact Alike.throw _

theorem selectClause_alike (ht : SameTrace keep s t) (bindings : ScopeId) (fallback : Option Code) :
    ∀ clauses : List (Code × Code), Alike below keep Eq (selectClause c bindings s fallback clauses)
      (selectClause c bindings t fallback clauses)
  | [] => Alike.pure rfl
  | (guard, _) :: rest => Alike.bind_eq (runGuard_alike hc ht bindings guard) fun _ =>
      Alike.ite (Alike.pure rfl) (selectClause_alike ht bindings fallback rest)

theorem selectAction_alike (ht : SameTrace keep s t) (bindings : ScopeId) (p : Pattern) :
    Alike below keep Eq (p.selectAction c bindings s) (p.selectAction c bindings t) := by
  cases p with
  | plain parts action => exact Alike.pure rfl
  | guarded parts clauses fallback => exact selectClause_alike hc ht bindings fallback clauses

theorem select_alike (ht : SameTrace keep s t) (env bindings : ScopeId) (p : Pattern)
    (vs : List Value) :
    Alike below keep Eq (p.select c env bindings s vs) (p.select c env bindings t vs) := by
  unfold Pattern.select
  refine Alike.get_bind fun m n hm => ?_
  rw [hm.scopes]
  dsimp only
  generalize Matching.outcome (p.accepts (n.scopes.find? env) vs) [] = result
  obtain ⟨accepted, made⟩ := result
  refine Alike.bind_eq (Run.putAll_alike bindings made) fun _ => ?_
  rcases accepted with e | _ | _
  · exact Alike.throw e
  · exact Alike.pure rfl
  · exact selectAction_alike hc ht bindings p

theorem callMatching_alike (hf : f.RestsOn below keep g) (scope : ScopeId) (args results : Option Int)
    (total : Nat) :
    ∀ (index : Nat) (patterns : List Pattern), Alike below keep Eq
      (callMatching c f scope args results total index patterns)
      (callMatching c g scope args results total index patterns)
  | _, [] => Alike.throw _
  | index, p :: rest => by
    have ih := callMatching_alike hf scope args results total (index + 1) rest
    refine Alike.bind_eq (Run.size_alike hf) fun size => Alike.ite ?_ ih
    refine Alike.bind (Run.sub_alike hf _) fun v w hv => ?_
    refine Alike.bind_eq (Run.grow_alike _) fun bindings => Alike.get_bind fun m n hm => ?_
    rw [hm.storage, hv, View.values_raise]
    refine Alike.bind_eq (select_alike hc hf.trace scope bindings p _) fun action => ?_
    cases action with
    | none => exact ih
    | some action =>
      have hclear : ∀ m n : Machine, m.RestsOn below keep n →
          Machine.RestsOn below keep { m with storage := (w.raise below.length).clear m.storage }
            { n with storage := w.clear n.storage } := fun m n hm =>
        { hm with storage := by simp only [hm.storage, View.clear_raise] }
      refine Alike.bind_eq (Run.note_alike _) fun _ => Alike.bind_eq (Alike.modify hclear) fun _ => ?_
      refine Alike.bind (Run.inner_alike hf bindings 0) fun f' g' hf' => ?_
      exact Alike.bind_eq (runSteps_alike hc hf' _) fun _ => Run.checkResults_alike hf' results

/-! ### Constructing patterns -/

theorem addPart_alike (hf : f.RestsOn below keep g) (builder : Nat) :
    Alike below keep Eq (addPart c f builder) (addPart c g builder) := by
  refine Alike.bind_eq (Run.pop_alike hf) fun v => Alike.bind_eq (Alike.lift _) fun code => ?_
  refine Alike.bind_eq (Run.grow_alike _) fun literals => ?_
  refine Alike.bind_eq (runAside_alike hc hf.trace literals code) fun vs => ?_
  rcases vs with _ | ⟨v, _ | ⟨w, vs⟩⟩
  · exact Alike.throw _
  · exact Alike.bind_eq (findBuilder_alike builder) fun b =>
      Alike.bind_eq (Alike.lift _) fun _ => setBuilder_alike builder _
  · exact Alike.throw _

theorem construct_alike (ht : SameTrace keep s t) (program : Code) :
    Alike below keep Eq (construct c s program) (construct c t program) := by
  refine Alike.bind_eq newBuilder_alike fun builder => Alike.bind_eq (Run.grow_alike _) fun scope => ?_
  refine Alike.bind_eq (runAside_alike hc ht scope program) fun vs => ?_
  rcases vs with _ | ⟨v, vs⟩
  · exact Alike.bind_eq (findBuilder_alike builder) fun b => Alike.lift _
  · exact Alike.throw _

/-! ### Functions that run code -/

theorem callWithMembers_alike (hf : f.RestsOn below keep g) (args results : Option Int) :
    Alike below keep Eq (callWithMembers c f args results) (callWithMembers c g args results) := by
  refine callFixed_alike hf 2 1 args results ?_
  rw [hf.scope]
  refine Alike.bind_eq (Run.pop_alike hf) fun v => Alike.bind_eq (Alike.lift _) fun code => ?_
  refine Alike.bind_eq (Run.pop_alike hf) fun target => ?_
  cases target.members? with
  | none => exact Alike.throw _
  | some members =>
    refine Alike.bind_eq (Run.grow_alike _) fun scope => ?_
    refine Alike.bind_eq (Run.putAll_alike scope _) fun _ => ?_
    refine Alike.bind_eq (runAside_alike hc hf.trace scope code) fun vs => ?_
    rcases vs with _ | ⟨v, _ | ⟨w, vs⟩⟩
    · exact Alike.throw _
    · exact Run.push_alike v
    · exact Alike.throw _

theorem callPattern_alike (hf : f.RestsOn below keep g) (args results : Option Int) :
    Alike below keep Eq (callPattern c f args results) (callPattern c g args results) := by
  refine callFixed_alike hf 1 1 args results ?_
  refine Alike.bind_eq (Run.pop_alike hf) fun v => Alike.bind_eq (Alike.lift _) fun program => ?_
  refine Alike.bind_eq (construct_alike hc hf.trace program) fun p => ?_
  exact Alike.bind_eq (Run.object_alike _) fun v => Run.push_alike v

theorem callApply_alike (hf : f.RestsOn below keep g) (args results : Option Int) :
    Alike below keep Eq (callApply c f args results) (callApply c g args results) := by
  cases args with
  | none => exact Alike.throw _
  | some n =>
    rw [callApply_some, callApply_some]
    refine Alike.ite (Alike.throw _) (Alike.bind_eq (Run.take_alike hf n) fun vs => ?_)
    cases vs with
    | nil => exact Alike.throw _
    | cons target given =>
      exact Alike.bind_eq (Run.pushAll_alike given) fun _ => hc below f g target _ results hf

theorem callExecute_alike (hf : f.RestsOn below keep g) (args results : Option Int) :
    Alike below keep Eq (callExecute c f args results) (callExecute c g args results) := by
  rw [callExecute_eq, callExecute_eq, hf.scope]
  refine Alike.bind_eq (Alike.wants _ _ _) fun _ => Alike.bind_eq (Run.pop_alike hf) fun v => ?_
  refine Alike.bind_eq (Alike.lift _) fun code => ?_
  refine Alike.bind (Run.inner_alike hf g.scope 0) fun f' g' hf' => ?_
  exact Alike.bind_eq (runSteps_alike hc hf' _) fun _ => Run.checkResults_alike hf' results

theorem callClosure_alike (hf : f.RestsOn below keep g) (params : List Text) (body : List Instr)
    (scope : ScopeId) (args results : Option Int) :
    Alike below keep Eq (callClosure c f params body scope args results)
      (callClosure c g params body scope args results) := by
  rw [callClosure_eq, callClosure_eq]
  refine Alike.bind_eq (Alike.wants _ _ _) fun _ => ?_
  refine Alike.bind (Run.inner_alike hf scope _) fun f' g' hf' => ?_
  refine Alike.bind_eq (Run.values_alike hf') fun given => ?_
  have hclear : ∀ m n : Machine, m.RestsOn below keep n →
      Machine.RestsOn below keep { m with storage := f'.view.clear m.storage }
        { n with storage := g'.view.clear n.storage } := fun m n hm =>
    { hm with storage := by simp only [hm.storage, hf'.view, View.clear_raise] }
  refine Alike.bind_eq (Alike.modify hclear) fun _ => ?_
  rw [hf'.scope]
  refine Alike.bind_eq (Run.putAll_alike _ _) fun _ => ?_
  exact Alike.bind_eq (runSteps_alike hc hf' _) fun _ => Run.checkResults_alike hf' results

theorem callBuiltin_alike (hf : f.RestsOn below keep g) (b : Builtin) (args results : Option Int) :
    Alike below keep Eq (callBuiltin c f b args results) (callBuiltin c g b args results) := by
  cases b with
  | apply => exact callApply_alike hc hf args results
  | withMembers => exact callWithMembers_alike hc hf args results
  | define => exact callDefine_alike hf args results
  | execute => exact callExecute_alike hc hf args results
  | list => exact callList_alike hf args results
  | print => exact callPrint_alike hf args results
  | struct => exact callStruct_alike hf args results
  | matchSymbol => exact callMatch_alike hf args results
  | pattern => exact callPattern_alike hc hf args results
  | bool | car | cdr | cons | float | int | str | template | type =>
    exact callPure_alike hf _ 1 args results _

theorem callCallable_alike (hf : f.RestsOn below keep g) (args results : Option Int) (h : Callable) :
    Alike below keep Eq (callCallable c f args results h) (callCallable c g args results h) := by
  cases h with
  | builtin b => exact callBuiltin_alike hc hf b args results
  | native serial index name takes gives =>
    refine Alike.get_bind fun m n hm => ?_
    rw [hm.natives]
    exact callPure_alike hf takes gives args results _
  | shuffle serial index =>
    refine Alike.get_bind fun m n hm => ?_
    rw [hm.shuffles]
    cases n.shuffles[index]? with
    | none => exact Alike.throw _
    | some h => exact callShuffle_alike hf h args results
  | counter serial => exact callCounter_alike hf args results
  | closure serial params body scope => exact callClosure_alike hc hf params body scope args results
  | matching serial scope patterns =>
    exact callMatching_alike hc hf scope args results patterns.length 0 patterns
  | addPart builder => exact callFixed_alike hf 1 0 args results (addPart_alike hc hf builder)
  | addGuarded builder => exact callFixed_alike hf 2 0 args results (addGuarded_alike hf builder)
  | addDefault builder => exact callFixed_alike hf 1 0 args results (addDefault_alike hf builder)

theorem callWith_isolated : Caller.Isolated keep (callWith c) := by
  intro below f g v args results hf
  unfold callWith
  split
  · exact callCallable_alike hc hf args results _
  · exact callConstructor_alike hf _ args results
  · split
    · exact Alike.bind_eq (takeArguments_alike hf args) fun given => Run.push_alike _
    · exact callPlain_alike v args results
  · exact callPlain_alike v args results

end

theorem isolated_callAt (keep : Event → Bool) : ∀ depth : Nat, Caller.Isolated keep (callAt depth)
  | 0 => fun _ _ _ _ _ _ _ => Alike.throw _
  | depth + 1 => callWith_isolated (isolated_callAt keep depth)

/-- **Code on a view of a storage does what it does on a stack of its own.** The view begins above
`below`; the stack of its own holds what is above that. Outcome, scopes, lines printed, log and all the
rest are the same, and the storage ends as the stack of its own ends, on top of `below`: so nothing of
`below` is read, changed or removed, however the run ends. -/
theorem runSteps_append (depth : Nat) (scope : ScopeId) (traced : Bool) (steps : List Instr)
    (m : Machine) (below : List Value) :
    (runSteps (callAt depth) ⟨scope, ⟨below.length⟩, traced⟩ steps).outcome
        { m with storage := m.storage ++ below } =
      let alone := (runSteps (callAt depth) ⟨scope, View.whole, traced⟩ steps).outcome m
      (alone.1, { alone.2 with storage := alone.2.storage ++ below }) := by
  have hf : Frame.RestsOn below (fun _ => true) ⟨scope, ⟨below.length⟩, traced⟩
      ⟨scope, View.whole, traced⟩ := ⟨rfl, by simp [View.raise, View.whole], .inl rfl⟩
  have hm : Machine.RestsOn below (fun _ => true) { m with storage := m.storage ++ below } m :=
    { Machine.Agrees.refl _ m with storage := rfl }
  have h := runSteps_alike (isolated_callAt _ depth) hf steps _ _ hm
  dsimp only
  generalize (runSteps (callAt depth) ⟨scope, View.whole, traced⟩ steps).outcome m = y at h ⊢
  generalize Run.outcome _ { m with storage := m.storage ++ below } = x at h ⊢
  cases h with
  | result h => exact Prod.ext rfl h.2.eq
  | fault h => exact Prod.ext rfl h.eq

end StackCalc
