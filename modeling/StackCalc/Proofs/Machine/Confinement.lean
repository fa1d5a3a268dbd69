import StackCalc.Proofs.Machine.Within
import StackCalc.Machine.Call

/-! # Where a run binds names

A run in a frame binds names through the scope of the frame and in scopes that it has made itself, and
nowhere else: every other scope that was there before keeps its bindings, however the run ends
(`scope_kept`). Functions that run code of their own put a scope of their own in front of it, so calling
them binds nothing in any scope that was there; `define` is what binds in the calling scope.

The host's functions are values of the machine's tables, and the tables stay as they are. -/

namespace StackCalc

open Run (Within)

/-- Calls bind no names but through the scope of the frame they are made in. -/
def Caller.Confined (c : Caller) : Prop :=
  ∀ (f : Frame) (v : Value) (args results : Option Int), Within (some f.scope) (c f v args results)

variable {via : Option ScopeId}

/-! ### Names and traces -/

theorem trace_within (f : Frame) (i : Instr) : Within via (trace f i) :=
  Within.ite (Within.bind (Within.values f) fun _ => Within.note _) (Within.pure _)

theorem resolve_within (f : Frame) (name : Text) : Within via (resolve f name) := by
  refine Within.bind (Within.find? _ _) fun found => ?_
  cases found with
  | none => exact Within.throw _
  | some s => exact Within.pure _

theorem callSingle_within {r : Run Value} (h : Within via r) (results : Option Int) :
    Within via (callSingle results r) := by
  rw [callSingle_eq]
  exact Within.bind (Within.wants _ _ _) fun _ => Within.bind h fun v => Within.push v

theorem callPlaceholder_within (f : Frame) (name : Text) (args results : Option Int) :
    Within via (callPlaceholder f name args results) := by
  refine callSingle_within ?_ _
  cases args with
  | none => exact Within.throw _
  | some n => exact Within.bind (Within.take f n) fun _ => Within.object _

theorem getSymbol_within (s : Symbol) : Within via (getSymbol s) := by
  cases s with
  | value v => exact Within.push v
  | placeholder name => exact Within.bind (Within.object _) fun v => Within.push v

/-! ### Pieces of patterns under construction -/

theorem findBuilder_within (id : Nat) : Within via (findBuilder id) := fun m => .refl via m

theorem setBuilder_within (id : Nat) (b : PatternBuilder) : Within via (setBuilder id b) :=
  Within.modify (fun _ => rfl) (fun _ => rfl) fun _ => rfl

theorem newBuilder_within : Within via newBuilder := fun _ => ⟨Forest.Grows.refl _ _, rfl, rfl⟩

theorem addGuarded_within (f : Frame) (builder : Nat) : Within via (addGuarded f builder) := by
  refine Within.bind (Within.pop f) fun v => Within.bind (Within.lift _) fun action => ?_
  refine Within.bind (Within.pop f) fun w => Within.bind (Within.lift _) fun guard => ?_
  refine Within.bind (findBuilder_within builder) fun b => ?_
  exact Within.bind (Within.lift _) fun _ => setBuilder_within builder _

theorem addDefault_within (f : Frame) (builder : Nat) : Within via (addDefault f builder) := by
  refine Within.bind (Within.pop f) fun v => Within.bind (Within.lift _) fun action => ?_
  refine Within.bind (findBuilder_within builder) fun b => ?_
  have hset : Within via (setBuilder builder (b.addDefault action)) := setBuilder_within _ _
  exact Within.ite (Within.bind (Within.note _) fun _ => hset) hset

/-! ### Functions that run no code -/

theorem callFixed_within (f : Frame) (takes gives : Nat) (args results : Option Int) {body : Run Unit}
    (h : Within via body) : Within via (callFixed f takes gives args results body) := by
  rw [callFixed_eq]
  refine Within.bind (Within.wants _ _ _) fun _ => Within.bind (Within.wants _ _ _) fun _ => ?_
  refine Within.bind (Within.size f) fun before => Within.ite (Within.throw _) ?_
  refine Within.bind h fun _ => Within.bind (Within.size f) fun after => ?_
  exact Within.ite (Within.throw _) (Within.pure _)

theorem callPure_within (f : Frame) (takes gives : Nat) (args results : Option Int)
    (fn : List Value → Except Fault (List Value)) :
    Within via (callPure f takes gives args results fn) := by
  rw [callPure_eq]
  refine callFixed_within f takes gives args results ?_
  refine Within.bind (Within.take f _) fun given => Within.bind (Within.lift _) fun vs => ?_
  exact Within.forM (fun v => Within.bind (Within.distinguish v) fun w => Within.push w) vs

theorem callDefine_within (f : Frame) (args results : Option Int) :
    Within (some f.scope) (callDefine f args results) := by
  refine callFixed_within f 2 1 args results ?_
  refine Within.bind (Within.pop f) fun v => Within.bind (Within.pop f) fun w => ?_
  refine Within.bind (Within.lift _) fun name => ?_
  exact Within.bind (Within.put f.scope name v) fun _ => Within.push v

theorem callShuffle_within (f : Frame) (h : Shuffle) (args results : Option Int) :
    Within via (callShuffle f h args results) := by
  rw [callShuffle_eq]
  refine callFixed_within f _ _ args results ?_
  have hpop : Within via (do let _ ← Run.pop f) := Within.bind (Within.pop f) fun _ => Within.pure _
  exact Within.bind (Within.forM (fun _ => hpop) _) fun _ => Within.pushAll _

theorem takeArguments_within (f : Frame) (args : Option Int) : Within via (takeArguments f args) := by
  cases args with
  | none => exact Within.bind (Within.size f) fun n => Within.take f n
  | some n => exact Within.take f n

theorem callList_within (f : Frame) (args results : Option Int) :
    Within via (callList f args results) :=
  callSingle_within (Within.bind (takeArguments_within f args) fun _ => Within.pure _) results

theorem callPrint_within (f : Frame) (args results : Option Int) :
    Within via (callPrint f args results) := by
  refine callSingle_within ?_ results
  refine Within.bind (takeArguments_within f args) fun given => ?_
  refine Within.bind (Within.lift _) fun words => ?_
  exact Within.bind (Within.emit _ _) fun _ => Within.pure _

theorem callStruct_within (f : Frame) (args results : Option Int) :
    Within via (callStruct f args results) := by
  refine callSingle_within ?_ results
  refine Within.bind (takeArguments_within f args) fun given => ?_
  refine Within.bind (Within.lift _) fun parts => ?_
  exact Within.bind (Within.note _) fun _ => Within.object _

theorem popPatterns_within (f : Frame) : ∀ n : Nat, Within via (popPatterns f n)
  | 0 => Within.pure _
  | n + 1 => Within.bind (Within.pop f) fun _ => Within.bind (Within.lift _) fun _ =>
      Within.bind (popPatterns_within f n) fun _ => Within.pure _

theorem callMatch_within (f : Frame) (args results : Option Int) :
    Within via (callMatch f args results) := by
  refine callSingle_within ?_ results
  cases args with
  | none => exact Within.throw _
  | some n => exact Within.bind (popPatterns_within f _) fun _ => Within.callable _

theorem callCounter_within (f : Frame) (args results : Option Int) :
    Within via (callCounter f args results) :=
  callSingle_within (Within.bind (Within.take f _) fun _ => Within.pure _) results

theorem callConstructor_within (f : Frame) (r : StructType) (args results : Option Int) :
    Within via (callConstructor f r args results) := by
  rw [callConstructor_eq]
  refine Within.bind (Within.wants _ _ _) fun _ => callSingle_within ?_ results
  exact Within.bind (Within.take f _) fun _ => Within.pure _

theorem callPlain_within (v : Value) (args results : Option Int) :
    Within via (callPlain v args results) := by
  rw [callPlain_eq]
  exact Within.bind (Within.wants _ _ _) fun _ =>
    Within.bind (Within.wants _ _ _) fun _ => Within.push v

section
variable {c : Caller} (hc : c.Confined)
include hc

/-! ### Running steps -/

theorem callSymbol_within (f : Frame) (args results : Option Int) (s : Symbol) :
    Within (some f.scope) (callSymbol c f args results s) := by
  cases s with
  | value v => exact hc f v args results
  | placeholder name => exact callPlaceholder_within f name args results

theorem step_within (f : Frame) (i : Instr) : Within (some f.scope) (step c f i) := by
  cases i with
  | push v => exact Within.push v
  | get name => exact Within.bind (resolve_within f name) fun s => getSymbol_within s
  | call name args results =>
    exact Within.bind (resolve_within f name) fun s => callSymbol_within hc f args results s
  | binary op =>
    refine Within.bind (Within.pop f) fun right => Within.bind (Within.pop f) fun left => ?_
    refine Within.bind (Within.lift _) fun v => ?_
    exact Within.bind (Within.distinguish v) fun w => Within.push w
  | unary op =>
    refine Within.bind (Within.pop f) fun operand => Within.bind (Within.lift _) fun v => ?_
    exact Within.bind (Within.distinguish v) fun w => Within.push w
  | closure params body => exact Within.bind (Within.callable _) fun v => Within.push v

theorem runSteps_within (f : Frame) :
    ∀ steps : List Instr, Within (some f.scope) (runSteps c f steps)
  | [] => Within.pure _
  | i :: steps =>
    Within.bind (trace_within f i) fun _ => Within.bind (step_within hc f i) fun _ =>
      runSteps_within f steps

theorem runAside_within (scope : ScopeId) (traced : Bool) (code : Code) :
    Within (some scope) (runAside c scope traced code) :=
  Within.aside (Within.bind (runSteps_within hc ⟨scope, View.whole, traced⟩ _) fun _ => Within.values _)

/-! ### Matching -/

theorem runGuard_within (bindings : ScopeId) (traced : Bool) (guard : Code) :
    Within none (runGuard c bindings traced guard) := by
  refine Within.grow_bind id fun scope => ?_
  refine Within.bind (runAside_within hc scope traced guard) fun vs => ?_
  rcases vs with _ | ⟨v, _ | ⟨w, vs⟩⟩
  · exact Within.throw _
  · exact Within.pure _
  · exact Within.throw _

theorem selectClause_within (bindings : ScopeId) (traced : Bool) (fallback : Option Code) :
    ∀ clauses : List (Code × Code), Within none (selectClause c bindings traced fallback clauses)
  | [] => Within.pure _
  | (guard, _) :: rest => Within.bind (runGuard_within hc bindings traced guard) fun _ =>
      Within.ite (Within.pure _) (selectClause_within bindings traced fallback rest)

theorem selectAction_within (bindings : ScopeId) (traced : Bool) (p : Pattern) :
    Within none (p.selectAction c bindings traced) := by
  cases p with
  | plain parts action => exact Within.pure _
  | guarded parts clauses fallback => exact selectClause_within hc bindings traced fallback clauses

theorem select_within (env bindings : ScopeId) (traced : Bool) (p : Pattern) (vs : List Value) :
    Within (some bindings) (p.select c env bindings traced vs) := by
  unfold Pattern.select
  refine Within.get_bind fun m => ?_
  dsimp only
  generalize Matching.outcome (p.accepts (m.scopes.find? env) vs) [] = result
  obtain ⟨accepted, made⟩ := result
  refine Within.bind (Within.putAll bindings made) fun _ => ?_
  rcases accepted with e | _ | _
  · exact Within.throw e
  · exact Within.pure _
  · exact (selectAction_within hc bindings traced p).mono

theorem callMatching_within (f : Frame) (scope : ScopeId) (args results : Option Int) (total : Nat) :
    ∀ (index : Nat) (ps : List Pattern),
      Within none (callMatching c f scope args results total index ps)
  | _, [] => Within.throw _
  | index, p :: rest => by
    have hrest := callMatching_within f scope args results total (index + 1) rest
    unfold callMatching
    refine Within.bind (Within.size f) fun size => Within.ite ?_ hrest
    refine Within.bind (Within.sub f _) fun candidates => ?_
    -- the alternative binds in the layer it has been given, and its action in one over that
    refine Within.grow_bind id fun bindings => ?_
    refine Within.get_bind fun m => Within.bind (select_within hc scope bindings _ p _) fun action => ?_
    cases action with
    | none => exact hrest.mono
    | some action =>
      refine Within.bind (Within.note _) fun _ => ?_
      refine Within.bind (Within.modify (fun _ => rfl) (fun _ => rfl) fun _ => rfl) fun _ => ?_
      refine Within.mono (Within.inner_bind fun frame => ?_)
      exact Within.bind (runSteps_within hc frame _) fun _ => Within.checkResults frame results

/-! ### Constructing patterns -/

theorem addPart_within (f : Frame) (builder : Nat) : Within none (addPart c f builder) := by
  refine Within.bind (Within.pop f) fun v => Within.bind (Within.lift _) fun code => ?_
  refine Within.grow_bind id fun literals => ?_
  refine Within.bind (runAside_within hc literals f.trace code) fun vs => ?_
  rcases vs with _ | ⟨v, _ | ⟨w, vs⟩⟩
  · exact Within.throw _
  · exact Within.bind (findBuilder_within builder) fun b =>
      Within.bind (Within.lift _) fun _ => setBuilder_within builder _
  · exact Within.throw _

theorem construct_within (traced : Bool) (program : Code) : Within none (construct c traced program) := by
  refine Within.bind newBuilder_within fun builder => ?_
  refine Within.grow_bind id fun scope => ?_
  refine Within.bind (runAside_within hc scope traced program) fun vs => ?_
  rcases vs with _ | ⟨v, vs⟩
  · exact Within.bind (findBuilder_within builder) fun b => Within.lift _
  · exact Within.throw _

/-! ### Functions that run code -/

theorem callWithMembers_within (f : Frame) (args results : Option Int) :
    Within none (callWithMembers c f args results) := by
  refine callFixed_within f 2 1 args results ?_
  refine Within.bind (Within.pop f) fun v => Within.bind (Within.lift _) fun code => ?_
  refine Within.bind (Within.pop f) fun target => ?_
  cases target.members? with
  | none => exact Within.throw _
  | some members =>
    refine Within.grow_bind id fun scope => ?_
    refine Within.bind (Within.putAll scope _) fun _ => ?_
    refine Within.bind (runAside_within hc scope f.trace code) fun vs => ?_
    rcases vs with _ | ⟨v, _ | ⟨w, vs⟩⟩
    · exact Within.throw _
    · exact Within.push v
    · exact Within.throw _

theorem callPattern_within (f : Frame) (args results : Option Int) :
    Within none (callPattern c f args results) := by
  refine callFixed_within f 1 1 args results ?_
  refine Within.bind (Within.pop f) fun v => Within.bind (Within.lift _) fun program => ?_
  refine Within.bind (construct_within hc f.trace program) fun p => ?_
  exact Within.bind (Within.object _) fun v => Within.push v

theorem callApply_within (f : Frame) (args results : Option Int) :
    Within (some f.scope) (callApply c f args results) := by
  cases args with
  | none => exact Within.throw _
  | some n =>
    rw [callApply_some]
    refine Within.ite (Within.throw _) (Within.bind (Within.take f n) fun vs => ?_)
    cases vs with
    | nil => exact Within.throw _
    | cons target given => exact Within.bind (Within.pushAll given) fun _ => hc f target _ results

theorem callExecute_within (f : Frame) (args results : Option Int) :
    Within none (callExecute c f args results) := by
  rw [callExecute_eq]
  refine Within.bind (Within.wants _ _ _) fun _ => Within.bind (Within.pop f) fun v => ?_
  refine Within.bind (Within.lift _) fun code => Within.inner_bind fun frame => ?_
  exact Within.bind (runSteps_within hc frame _) fun _ => Within.checkResults frame results

theorem callClosure_within (f : Frame) (params : List Text) (body : List Instr) (scope : ScopeId)
    (args results : Option Int) : Within none (callClosure c f params body scope args results) := by
  rw [callClosure_eq]
  refine Within.bind (Within.wants _ _ _) fun _ => Within.inner_bind fun frame => ?_
  refine Within.bind (Within.values frame) fun given => ?_
  refine Within.bind (Within.modify (fun _ => rfl) (fun _ => rfl) fun _ => rfl) fun _ => ?_
  refine Within.bind (Within.putAll frame.scope _) fun _ => ?_
  exact Within.bind (runSteps_within hc frame _) fun _ => Within.checkResults frame results

theorem callBuiltin_within (f : Frame) (b : Builtin) (args results : Option Int) :
    Within (some f.scope) (callBuiltin c f b args results) := by
  cases b with
  | apply => exact callApply_within hc f args results
  | withMembers => exact (callWithMembers_within hc f args results).mono
  | define => exact callDefine_within f args results
  | execute => exact (callExecute_within hc f args results).mono
  | list => exact callList_within f args results
  | print => exact callPrint_within f args results
  | struct => exact callStruct_within f args results
  | matchSymbol => exact callMatch_within f args results
  | pattern => exact (callPattern_within hc f args results).mono
  | bool | car | cdr | cons | float | int | str | template | type =>
    exact callPure_within f _ 1 args results _

theorem callCallable_within (f : Frame) (args results : Option Int) (h : Callable) :
    Within (some f.scope) (callCallable c f args results h) := by
  cases h with
  | builtin b => exact callBuiltin_within hc f b args results
  | native serial index name takes gives =>
    exact Within.get_bind fun m => callPure_within f takes gives args results _
  | shuffle serial index =>
    refine Within.get_bind fun m => ?_
    cases m.shuffles[index]? with
    | none => exact Within.throw _
    | some h => exact callShuffle_within f h args results
  | counter serial => exact callCounter_within f args results
  | closure serial params body scope =>
    exact (callClosure_within hc f params body scope args results).mono
  | matching serial scope patterns =>
    exact (callMatching_within hc f scope args results patterns.length 0 patterns).mono
  | addPart builder => exact (callFixed_within f 1 0 args results (addPart_within hc f builder)).mono
  | addGuarded builder => exact callFixed_within f 2 0 args results (addGuarded_within f builder)
  | addDefault builder => exact callFixed_within f 1 0 args results (addDefault_within f builder)

theorem callWith_confined : Caller.Confined (callWith c) := by
  intro f v args results
  unfold callWith
  split
  · exact callCallable_within hc f args results _
  · exact callConstructor_within f _ args results
  · split
    · exact Within.bind (takeArguments_within f args) fun given => Within.push _
    · exact callPlain_within v args results
  · exact callPlain_within v args results

end

theorem confined_callAt : ∀ depth : Nat, Caller.Confined (callAt depth)
  | 0 => fun _ _ _ _ => Within.throw _
  | depth + 1 => callWith_confined (confined_callAt depth)

/-! ### Every scope but one keeps its bindings -/

/-- Runs code of its own, in a scope that it makes for it. -/
def Callable.Encloses : Callable → Prop
  | .closure .. | .matching .. | .builtin .withMembers | .builtin .execute | .builtin .pattern => True
  | _ => False

/-- A call of such a function binds nothing in any scope that is there. -/
theorem callAt_within_of_encloses {v : Value} {h : Callable} (hv : v.payload = .callable h)
    (he : h.Encloses) (depth : Nat) (f : Frame) (args results : Option Int) :
    Within none (callAt depth f v args results) := by
  cases depth with
  | zero => exact Within.throw _
  | succ depth =>
    have hc := confined_callAt depth
    rw [callAt_of_callable hv]
    unfold Callable.Encloses at he
    split at he
    · exact callClosure_within hc f _ _ _ args results
    · exact callMatching_within hc f _ args results _ 0 _
    · exact callWithMembers_within hc f args results
    · exact callExecute_within hc f args results
    · exact callPattern_within hc f args results
    · exact he.elim

/-- **A scope that was there keeps its bindings**, unless bindings made through the scope of the frame
end up in it: none does if that is a shield or a literal scope. Calls that run code of their own and
guards keep every scope as it is. All of this holds however the run ends. -/
theorem scope_kept (depth : Nat) (m : Machine) (id : ScopeId) (hid : id < m.scopes.scopes.size) :
    (∀ (f : Frame) (steps : List Instr), m.scopes.target f.scope ≠ .scope id →
      ((runSteps (callAt depth) f steps).outcome m).2.scopes.scopes[id]? = m.scopes.scopes[id]?) ∧
    (∀ (f : Frame) (v : Value) (h : Callable) (args results : Option Int), v.payload = .callable h →
      h.Encloses →
      ((callAt depth f v args results).outcome m).2.scopes.scopes[id]? = m.scopes.scopes[id]?) ∧
    (∀ (bindings : ScopeId) (traced : Bool) (guard : Code),
      ((runGuard (callAt depth) bindings traced guard).outcome m).2.scopes.scopes[id]? =
        m.scopes.scopes[id]?) := by
  have hc := confined_callAt depth
  refine ⟨fun f steps ht => ?_, fun f v h args results hv he => ?_, fun bindings traced guard => ?_⟩
  · exact (runSteps_within hc f steps m).scopes.kept id hid ht
  · have h := (callAt_within_of_encloses hv he depth f args results m).scopes
    exact h.kept id hid (by simp [Forest.targetVia])
  · have h := (runGuard_within hc bindings traced guard m).scopes
    exact h.kept id hid (by simp [Forest.targetVia])

/-- Binding a name in a layer, and calling a closure that binds one, over a root that stays as it is. -/
theorem scope_kept_below_layer :
    let define : Value := .own (.callable (.builtin .define))
    let m : Machine :=
      { Machine.empty with scopes := ⟨#[.root [("define", define)], .layer 0 []]⟩ }
    let f : Frame := ⟨1, View.whole, false⟩
    let steps : List Instr :=
      [.push (.own (.str "x")), .push (.own (.int 1)), .call "define" (some 2) (some 1)]
    let closure : Callable := .closure 1 [] steps 0
    0 < m.scopes.scopes.size ∧ m.scopes.target f.scope ≠ .scope 0 ∧ closure.Encloses ∧
      ((runSteps (callAt 1) f steps).outcome m).2.scopes.scopes[0]? = m.scopes.scopes[0]? ∧
      ((callAt 2 ⟨0, View.whole, false⟩ (.own (.callable closure)) (some 0) (some 1)).outcome
        m).2.scopes.scopes[0]? = m.scopes.scopes[0]? :=
  ⟨by decide, by decide, trivial, (scope_kept 1 _ 0 (by decide)).1 _ _ (by decide),
    (scope_kept 2 _ 0 (by decide)).2.1 _ _ _ _ _ rfl trivial⟩

end StackCalc
