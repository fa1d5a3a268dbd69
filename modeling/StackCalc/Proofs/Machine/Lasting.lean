import StackCalc.Proofs.Run.Outcome

/-! # What holds across every run

A run changes the machine in a few ways only: values are pushed and popped, names are bound, scopes and patterns are
made, lines are printed, records are kept and numbers are handed out. So a relation of machines that no single change
breaks, and that holds from the first to the last of a series if it holds from each to the next (`Machine.Lasting`),
holds between the machine that a run begins with and the one that it leaves, however it ends (`lasts_runSteps`).

The proof goes through the functions of the machine one by one: the relation lasts through each, provided that it
lasts through the calls nested in it (`Caller.Lasts`). By induction on the depth of nesting it lasts through all
calls (`lasts_callAt`).

Serial numbers are counted up (`next_le_runSteps`): what is made later, such as a record type or a function, never has
a number that has been given before. -/

namespace StackCalc

/-- **A relation of machines that no single change breaks.** -/
class Machine.Lasting (R : Machine → Machine → Prop) : Prop where
  refl (m : Machine) : R m m
  trans {m n o : Machine} (h : R m n) (h' : R n o) : R m o
  storage (m : Machine) (s : List Value) : R m { m with storage := s }
  put {m : Machine} {scope : ScopeId} {name : Text} {v : Value} {scopes : Forest}
    (h : m.scopes.put scope name v = .ok scopes) : R m { m with scopes := scopes }
  grow (m : Machine) (s : Scope) : R m { m with scopes := (m.scopes.grow s).2 }
  setBuilder (m : Machine) (id : Nat) (b : PatternBuilder) : R m { m with builders := m.builders.setIfInBounds id b }
  newBuilder (m : Machine) : R m { m with builders := m.builders.push .empty }
  fresh (m : Machine) : R m { m with next := m.next + 1 }
  emit (m : Machine) (e : Effect) : R m { m with effects := m.effects.push e }
  note (m : Machine) (e : Event) : R m { m with log := m.log.push e }

open Machine (Lasting)

variable {R : Machine → Machine → Prop}

namespace Run

variable {α β : Type}

/-- **The relation lasts through the run.** -/
def Lasts (R : Machine → Machine → Prop) (r : Run α) : Prop := ∀ m : Machine, R m (r.outcome m).2

namespace Lasts

theorem get_bind {k : Machine → Run α} (h : ∀ m, Lasts R (k m)) : Lasts R (get >>= k) := fun m => h m m

theorem ite {p : Prop} [Decidable p] {r s : Run α} (hr : Lasts R r) (hs : Lasts R s) :
    Lasts R (if p then r else s) := by
  by_cases hp : p
  · rwa [if_pos hp]
  · rwa [if_neg hp]

variable [Lasting R]

theorem pure (a : α) : Lasts R (Pure.pure a : Run α) := fun m => Lasting.refl m

theorem throw (e : Fault) : Lasts R (throw e : Run α) := fun m => Lasting.refl m

theorem lift (x : Except Fault α) : Lasts R (liftM x : Run α) := fun m => Lasting.refl m

theorem bind {r : Run α} {k : α → Run β} (h : Lasts R r) (hk : ∀ a, Lasts R (k a)) : Lasts R (r >>= k) := by
  intro m
  have hr := h m
  rw [outcome_bind]
  rcases hrm : r.outcome m with ⟨e | a, m'⟩ <;> rw [hrm] at hr
  · exact hr
  · exact Lasting.trans hr (hk a m')

theorem forM {k : α → Run PUnit} (h : ∀ a, Lasts R (k a)) : ∀ as : List α, Lasts R (as.forM k)
  | [] => pure _
  | a :: as => bind (h a) fun _ => forM h as

/-- What happens aside begins with another stack, and ends with the one that was there. -/
theorem aside {r : Run α} (h : Lasts R r) : Lasts R (aside r) := fun m =>
  have hbegin : R m { m with storage := [] } := Lasting.storage m []
  have hend := Lasting.storage (R := R) (r.outcome { m with storage := [] }).2 m.storage
  Lasting.trans (Lasting.trans hbegin (h _)) hend

theorem wants (declared : Option Int) (count : Int) (fault : Int → Fault) : Lasts R (wants declared count fault) := by
  rcases declared with _ | n
  · exact pure _
  · exact ite (pure _) (throw _)

/-! ### Pieces of runs -/

theorem setStorage (g : List Value → List Value) :
    Lasts R (modify fun m => { m with storage := g m.storage } : Run PUnit) := fun m => Lasting.storage m _

theorem push (v : Value) : Lasts R (push v) := setStorage _

theorem pushAll (vs : List Value) : Lasts R (pushAll vs) := setStorage _

theorem size (f : Frame) : Lasts R (size f) := fun m => Lasting.refl m

theorem values (f : Frame) : Lasts R (values f) := fun m => Lasting.refl m

theorem sub (f : Frame) (count : Int) : Lasts R (sub f count) := fun m => by
  rw [outcome_sub]
  exact Lasting.refl m

theorem find? (scope : ScopeId) (name : Text) : Lasts R (find? scope name) := fun m => Lasting.refl m

theorem grow (s : Scope) : Lasts R (grow s) := fun m => Lasting.grow m s

theorem pop (f : Frame) : Lasts R (pop f) := by
  intro m
  rw [outcome_pop]
  rcases f.view.pop m.storage with e | ⟨v, rest⟩
  · exact Lasting.refl m
  · exact Lasting.storage m rest

theorem take (f : Frame) (count : Int) : Lasts R (take f count) := by
  intro m
  rw [outcome_take]
  rcases f.view.take m.storage count with e | ⟨vs, rest⟩
  · exact Lasting.refl m
  · exact Lasting.storage m rest

theorem put (scope : ScopeId) (name : Text) (v : Value) : Lasts R (put scope name v) := by
  intro m
  rw [outcome_put]
  rcases h : m.scopes.put scope name v with e | scopes
  · exact Lasting.refl m
  · exact Lasting.put h

theorem putAll (scope : ScopeId) (entries : List (Text × Value)) : Lasts R (putAll scope entries) := by
  have h : ∀ e : Text × Value, Lasts R (Run.put scope e.1 e.2) := fun e => put scope e.1 e.2
  exact forM h entries

theorem fresh : Lasts R fresh := fun m => Lasting.fresh m

theorem note (e : Event) : Lasts R (note e) := by
  intro m
  change R m (if m.logging then { m with log := m.log.push e } else m)
  split_ifs
  · exact Lasting.note m e
  · exact Lasting.refl m

theorem emit (c : Channel) (s : Text) : Lasts R (emit c s) := fun m => Lasting.emit m ⟨c, s⟩

theorem distinguish (v : Value) : Lasts R (distinguish v) := by
  unfold Run.distinguish
  split
  · exact ite (bind fresh fun _ => pure _) (pure _)
  · exact pure _

theorem callable (make : Nat → Callable) : Lasts R (callable make) := bind fresh fun _ => pure _

theorem object (make : Nat → Composite) : Lasts R (object make) := bind fresh fun _ => pure _

theorem checkResults (f : Frame) (results : Option Int) : Lasts R (checkResults f results) := by
  rcases results with _ | r
  · exact pure _
  · exact bind (size f) fun actual => ite (throw _) (pure _)

theorem inner (f : Frame) (scope : ScopeId) (count : Int) : Lasts R (inner f scope count) :=
  bind (sub f count) fun _ => bind (grow _) fun _ => pure _

end Lasts

end Run

open Run (Lasts)

variable [Lasting R]

/-- The relation lasts through calls. -/
def Caller.Lasts (R : Machine → Machine → Prop) (c : Caller) : Prop :=
  ∀ (f : Frame) (v : Value) (args results : Option Int), Run.Lasts R (c f v args results)

/-! ### Functions that run no code -/

theorem trace_lasts (f : Frame) (i : Instr) : Lasts R (trace f i) :=
  Lasts.ite (Lasts.bind (Lasts.values f) fun _ => Lasts.note _) (Lasts.pure _)

theorem resolve_lasts (f : Frame) (name : Text) : Lasts R (resolve f name) := by
  refine Lasts.bind (Lasts.find? _ _) fun found => ?_
  cases found with
  | none => exact Lasts.throw _
  | some s => exact Lasts.pure _

theorem getSymbol_lasts (s : Symbol) : Lasts R (getSymbol s) := by
  cases s with
  | value v => exact Lasts.push v
  | placeholder name => exact Lasts.bind (Lasts.object _) fun v => Lasts.push v

theorem callSingle_lasts {r : Run Value} (h : Lasts R r) (results : Option Int) : Lasts R (callSingle results r) := by
  rw [callSingle_eq]
  exact Lasts.bind (Lasts.wants _ _ _) fun _ => Lasts.bind h fun v => Lasts.push v

theorem callPlaceholder_lasts (f : Frame) (name : Text) (args results : Option Int) :
    Lasts R (callPlaceholder f name args results) := by
  refine callSingle_lasts ?_ _
  cases args with
  | none => exact Lasts.throw _
  | some n => exact Lasts.bind (Lasts.take f n) fun _ => Lasts.object _

theorem findBuilder_lasts (id : Nat) : Lasts R (findBuilder id) := fun m => Lasting.refl m

theorem setBuilder_lasts (id : Nat) (b : PatternBuilder) : Lasts R (setBuilder id b) := fun m =>
  Lasting.setBuilder m id b

theorem newBuilder_lasts : Lasts R newBuilder := fun m => Lasting.newBuilder m

theorem addGuarded_lasts (f : Frame) (builder : Nat) : Lasts R (addGuarded f builder) := by
  refine Lasts.bind (Lasts.pop f) fun v => Lasts.bind (Lasts.lift _) fun action => ?_
  refine Lasts.bind (Lasts.pop f) fun w => Lasts.bind (Lasts.lift _) fun guard => ?_
  refine Lasts.bind (findBuilder_lasts builder) fun b => ?_
  exact Lasts.bind (Lasts.lift _) fun _ => setBuilder_lasts builder _

theorem addDefault_lasts (f : Frame) (builder : Nat) : Lasts R (addDefault f builder) := by
  refine Lasts.bind (Lasts.pop f) fun v => Lasts.bind (Lasts.lift _) fun action => ?_
  refine Lasts.bind (findBuilder_lasts builder) fun b => ?_
  have hset : Lasts R (setBuilder builder (b.addDefault action)) := setBuilder_lasts _ _
  exact Lasts.ite (Lasts.bind (Lasts.note _) fun _ => hset) hset

theorem callFixed_lasts (f : Frame) (takes gives : Nat) (args results : Option Int) {body : Run Unit}
    (h : Lasts R body) : Lasts R (callFixed f takes gives args results body) := by
  rw [callFixed_eq]
  refine Lasts.bind (Lasts.wants _ _ _) fun _ => Lasts.bind (Lasts.wants _ _ _) fun _ => ?_
  refine Lasts.bind (Lasts.size f) fun before => Lasts.ite (Lasts.throw _) ?_
  refine Lasts.bind h fun _ => Lasts.bind (Lasts.size f) fun after => ?_
  exact Lasts.ite (Lasts.throw _) (Lasts.pure _)

theorem callPure_lasts (f : Frame) (takes gives : Nat) (args results : Option Int)
    (fn : List Value → Except Fault (List Value)) : Lasts R (callPure f takes gives args results fn) := by
  rw [callPure_eq]
  refine callFixed_lasts f takes gives args results ?_
  refine Lasts.bind (Lasts.take f _) fun given => Lasts.bind (Lasts.lift _) fun vs => ?_
  exact Lasts.forM (fun v => Lasts.bind (Lasts.distinguish v) fun w => Lasts.push w) vs

theorem callDefine_lasts (f : Frame) (args results : Option Int) : Lasts R (callDefine f args results) := by
  refine callFixed_lasts f 2 1 args results ?_
  refine Lasts.bind (Lasts.pop f) fun v => Lasts.bind (Lasts.pop f) fun w => ?_
  refine Lasts.bind (Lasts.lift _) fun name => ?_
  exact Lasts.bind (Lasts.put f.scope name v) fun _ => Lasts.push v

theorem callShuffle_lasts (f : Frame) (h : Shuffle) (args results : Option Int) :
    Lasts R (callShuffle f h args results) := by
  rw [callShuffle_eq]
  refine callFixed_lasts f _ _ args results ?_
  have hpop : Lasts R (do let _ ← Run.pop f) := Lasts.bind (Lasts.pop f) fun _ => Lasts.pure _
  exact Lasts.bind (Lasts.forM (fun _ => hpop) _) fun _ => Lasts.pushAll _

theorem takeArguments_lasts (f : Frame) (args : Option Int) : Lasts R (takeArguments f args) := by
  cases args with
  | none => exact Lasts.bind (Lasts.size f) fun n => Lasts.take f n
  | some n => exact Lasts.take f n

theorem callList_lasts (f : Frame) (args results : Option Int) : Lasts R (callList f args results) :=
  callSingle_lasts (Lasts.bind (takeArguments_lasts f args) fun _ => Lasts.pure _) results

theorem callPrint_lasts (f : Frame) (args results : Option Int) : Lasts R (callPrint f args results) := by
  refine callSingle_lasts ?_ results
  refine Lasts.bind (takeArguments_lasts f args) fun given => ?_
  refine Lasts.bind (Lasts.lift _) fun words => ?_
  exact Lasts.bind (Lasts.emit _ _) fun _ => Lasts.pure _

theorem callStruct_lasts (f : Frame) (args results : Option Int) : Lasts R (callStruct f args results) := by
  refine callSingle_lasts ?_ results
  refine Lasts.bind (takeArguments_lasts f args) fun given => ?_
  refine Lasts.bind (Lasts.lift _) fun parts => ?_
  exact Lasts.bind (Lasts.note _) fun _ => Lasts.object _

theorem popPatterns_lasts (f : Frame) : ∀ n : Nat, Lasts R (popPatterns f n)
  | 0 => Lasts.pure _
  | n + 1 => Lasts.bind (Lasts.pop f) fun _ => Lasts.bind (Lasts.lift _) fun _ =>
      Lasts.bind (popPatterns_lasts f n) fun _ => Lasts.pure _

theorem callMatch_lasts (f : Frame) (args results : Option Int) : Lasts R (callMatch f args results) := by
  refine callSingle_lasts ?_ results
  cases args with
  | none => exact Lasts.throw _
  | some n => exact Lasts.bind (popPatterns_lasts f _) fun _ => Lasts.callable _

theorem callCounter_lasts (f : Frame) (args results : Option Int) : Lasts R (callCounter f args results) :=
  callSingle_lasts (Lasts.bind (Lasts.take f _) fun _ => Lasts.pure _) results

theorem callConstructor_lasts (f : Frame) (t : StructType) (args results : Option Int) :
    Lasts R (callConstructor f t args results) := by
  rw [callConstructor_eq]
  refine Lasts.bind (Lasts.wants _ _ _) fun _ => callSingle_lasts ?_ results
  exact Lasts.bind (Lasts.take f _) fun _ => Lasts.pure _

theorem callPlain_lasts (v : Value) (args results : Option Int) : Lasts R (callPlain v args results) := by
  rw [callPlain_eq]
  exact Lasts.bind (Lasts.wants _ _ _) fun _ => Lasts.bind (Lasts.wants _ _ _) fun _ => Lasts.push v

section
variable {c : Caller} (hc : Caller.Lasts R c)
include hc

/-! ### Running steps -/

theorem callSymbol_lasts (f : Frame) (args results : Option Int) (s : Symbol) :
    Lasts R (callSymbol c f args results s) := by
  cases s with
  | value v => exact hc f v args results
  | placeholder name => exact callPlaceholder_lasts f name args results

theorem step_lasts (f : Frame) (i : Instr) : Lasts R (step c f i) := by
  cases i with
  | push v => exact Lasts.push v
  | get name => exact Lasts.bind (resolve_lasts f name) fun s => getSymbol_lasts s
  | call name args results =>
    exact Lasts.bind (resolve_lasts f name) fun s => callSymbol_lasts hc f args results s
  | binary op =>
    refine Lasts.bind (Lasts.pop f) fun right => Lasts.bind (Lasts.pop f) fun left => ?_
    refine Lasts.bind (Lasts.lift _) fun v => ?_
    exact Lasts.bind (Lasts.distinguish v) fun w => Lasts.push w
  | unary op =>
    refine Lasts.bind (Lasts.pop f) fun operand => Lasts.bind (Lasts.lift _) fun v => ?_
    exact Lasts.bind (Lasts.distinguish v) fun w => Lasts.push w
  | closure params body => exact Lasts.bind (Lasts.callable _) fun v => Lasts.push v

theorem runSteps_lasts (f : Frame) : ∀ steps : List Instr, Lasts R (runSteps c f steps)
  | [] => Lasts.pure _
  | i :: steps => Lasts.bind (trace_lasts f i) fun _ => Lasts.bind (step_lasts hc f i) fun _ =>
      runSteps_lasts f steps

theorem runAside_lasts (scope : ScopeId) (traced : Bool) (code : Code) : Lasts R (runAside c scope traced code) :=
  Lasts.aside (Lasts.bind (runSteps_lasts hc ⟨scope, View.whole, traced⟩ _) fun _ => Lasts.values _)

/-! ### Matching -/

theorem runGuard_lasts (bindings : ScopeId) (traced : Bool) (guard : Code) :
    Lasts R (runGuard c bindings traced guard) := by
  refine Lasts.bind (Lasts.grow _) fun scope => ?_
  refine Lasts.bind (runAside_lasts hc scope traced guard) fun vs => ?_
  rcases vs with _ | ⟨v, _ | ⟨w, vs⟩⟩
  · exact Lasts.throw _
  · exact Lasts.pure _
  · exact Lasts.throw _

theorem selectClause_lasts (bindings : ScopeId) (traced : Bool) (fallback : Option Code) :
    ∀ clauses : List (Code × Code), Lasts R (selectClause c bindings traced fallback clauses)
  | [] => Lasts.pure _
  | (guard, _) :: rest => Lasts.bind (runGuard_lasts hc bindings traced guard) fun _ =>
      Lasts.ite (Lasts.pure _) (selectClause_lasts bindings traced fallback rest)

theorem select_lasts (env bindings : ScopeId) (traced : Bool) (p : Pattern) (vs : List Value) :
    Lasts R (p.select c env bindings traced vs) := by
  unfold Pattern.select
  refine Lasts.get_bind fun m => ?_
  dsimp only
  generalize Matching.outcome (p.accepts (m.scopes.find? env) vs) [] = result
  obtain ⟨accepted, made⟩ := result
  refine Lasts.bind (Lasts.putAll bindings made) fun _ => ?_
  rcases accepted with e | _ | _
  · exact Lasts.throw e
  · exact Lasts.pure _
  · cases p with
    | plain parts action => exact Lasts.pure _
    | guarded parts clauses fallback => exact selectClause_lasts hc bindings traced fallback clauses

theorem callMatching_lasts (f : Frame) (scope : ScopeId) (args results : Option Int) (total : Nat) :
    ∀ (index : Nat) (ps : List Pattern), Lasts R (callMatching c f scope args results total index ps)
  | _, [] => Lasts.throw _
  | index, p :: rest => by
    have hrest := callMatching_lasts f scope args results total (index + 1) rest
    unfold callMatching
    refine Lasts.bind (Lasts.size f) fun size => Lasts.ite ?_ hrest
    refine Lasts.bind (Lasts.sub f _) fun candidates => Lasts.bind (Lasts.grow _) fun bindings => ?_
    refine Lasts.get_bind fun m => Lasts.bind (select_lasts hc scope bindings _ p _) fun action => ?_
    cases action with
    | none => exact hrest
    | some action =>
      refine Lasts.bind (Lasts.note _) fun _ => Lasts.bind (Lasts.setStorage _) fun _ => ?_
      refine Lasts.bind (Lasts.inner f bindings 0) fun frame => ?_
      exact Lasts.bind (runSteps_lasts hc frame _) fun _ => Lasts.checkResults frame results

/-! ### Constructing patterns -/

theorem addPart_lasts (f : Frame) (builder : Nat) : Lasts R (addPart c f builder) := by
  refine Lasts.bind (Lasts.pop f) fun v => Lasts.bind (Lasts.lift _) fun code => ?_
  refine Lasts.bind (Lasts.grow _) fun literals => ?_
  refine Lasts.bind (runAside_lasts hc literals f.trace code) fun vs => ?_
  rcases vs with _ | ⟨v, _ | ⟨w, vs⟩⟩
  · exact Lasts.throw _
  · exact Lasts.bind (findBuilder_lasts builder) fun b =>
      Lasts.bind (Lasts.lift _) fun _ => setBuilder_lasts builder _
  · exact Lasts.throw _

theorem construct_lasts (traced : Bool) (program : Code) : Lasts R (construct c traced program) := by
  refine Lasts.bind newBuilder_lasts fun builder => Lasts.bind (Lasts.grow _) fun scope => ?_
  refine Lasts.bind (runAside_lasts hc scope traced program) fun vs => ?_
  rcases vs with _ | ⟨v, vs⟩
  · exact Lasts.bind (findBuilder_lasts builder) fun b => Lasts.lift _
  · exact Lasts.throw _

/-! ### Functions that run code -/

theorem callWithMembers_lasts (f : Frame) (args results : Option Int) :
    Lasts R (callWithMembers c f args results) := by
  refine callFixed_lasts f 2 1 args results ?_
  refine Lasts.bind (Lasts.pop f) fun v => Lasts.bind (Lasts.lift _) fun code => ?_
  refine Lasts.bind (Lasts.pop f) fun target => ?_
  cases target.members? with
  | none => exact Lasts.throw _
  | some members =>
    refine Lasts.bind (Lasts.grow _) fun scope => Lasts.bind (Lasts.putAll scope _) fun _ => ?_
    refine Lasts.bind (runAside_lasts hc scope f.trace code) fun vs => ?_
    rcases vs with _ | ⟨v, _ | ⟨w, vs⟩⟩
    · exact Lasts.throw _
    · exact Lasts.push v
    · exact Lasts.throw _

theorem callPattern_lasts (f : Frame) (args results : Option Int) : Lasts R (callPattern c f args results) := by
  refine callFixed_lasts f 1 1 args results ?_
  refine Lasts.bind (Lasts.pop f) fun v => Lasts.bind (Lasts.lift _) fun program => ?_
  refine Lasts.bind (construct_lasts hc f.trace program) fun p => ?_
  exact Lasts.bind (Lasts.object _) fun v => Lasts.push v

theorem callApply_lasts (f : Frame) (args results : Option Int) : Lasts R (callApply c f args results) := by
  cases args with
  | none => exact Lasts.throw _
  | some n =>
    rw [callApply_some]
    refine Lasts.ite (Lasts.throw _) (Lasts.bind (Lasts.take f n) fun vs => ?_)
    cases vs with
    | nil => exact Lasts.throw _
    | cons target given => exact Lasts.bind (Lasts.pushAll given) fun _ => hc f target _ results

theorem callExecute_lasts (f : Frame) (args results : Option Int) : Lasts R (callExecute c f args results) := by
  rw [callExecute_eq]
  refine Lasts.bind (Lasts.wants _ _ _) fun _ => Lasts.bind (Lasts.pop f) fun v => ?_
  refine Lasts.bind (Lasts.lift _) fun code => Lasts.bind (Lasts.inner f f.scope 0) fun frame => ?_
  exact Lasts.bind (runSteps_lasts hc frame _) fun _ => Lasts.checkResults frame results

theorem callClosure_lasts (f : Frame) (params : List Text) (body : List Instr) (scope : ScopeId)
    (args results : Option Int) : Lasts R (callClosure c f params body scope args results) := by
  rw [callClosure_eq]
  refine Lasts.bind (Lasts.wants _ _ _) fun _ => Lasts.bind (Lasts.inner f scope _) fun frame => ?_
  refine Lasts.bind (Lasts.values frame) fun given => Lasts.bind (Lasts.setStorage _) fun _ => ?_
  refine Lasts.bind (Lasts.putAll frame.scope _) fun _ => ?_
  exact Lasts.bind (runSteps_lasts hc frame _) fun _ => Lasts.checkResults frame results

theorem callBuiltin_lasts (f : Frame) (b : Builtin) (args results : Option Int) :
    Lasts R (callBuiltin c f b args results) := by
  cases b with
  | apply => exact callApply_lasts hc f args results
  | withMembers => exact callWithMembers_lasts hc f args results
  | define => exact callDefine_lasts f args results
  | execute => exact callExecute_lasts hc f args results
  | list => exact callList_lasts f args results
  | print => exact callPrint_lasts f args results
  | struct => exact callStruct_lasts f args results
  | matchSymbol => exact callMatch_lasts f args results
  | pattern => exact callPattern_lasts hc f args results
  | bool | car | cdr | cons | float | int | str | template | type => exact callPure_lasts f _ 1 args results _

theorem callCallable_lasts (f : Frame) (args results : Option Int) (h : Callable) :
    Lasts R (callCallable c f args results h) := by
  cases h with
  | builtin b => exact callBuiltin_lasts hc f b args results
  | native serial index name takes gives =>
    exact Lasts.get_bind fun m => callPure_lasts f takes gives args results _
  | shuffle serial index =>
    refine Lasts.get_bind fun m => ?_
    cases m.shuffles[index]? with
    | none => exact Lasts.throw _
    | some h => exact callShuffle_lasts f h args results
  | counter serial => exact callCounter_lasts f args results
  | closure serial params body scope => exact callClosure_lasts hc f params body scope args results
  | matching serial scope patterns => exact callMatching_lasts hc f scope args results patterns.length 0 patterns
  | addPart builder => exact callFixed_lasts f 1 0 args results (addPart_lasts hc f builder)
  | addGuarded builder => exact callFixed_lasts f 2 0 args results (addGuarded_lasts f builder)
  | addDefault builder => exact callFixed_lasts f 1 0 args results (addDefault_lasts f builder)

theorem callWith_lasts : Caller.Lasts R (callWith c) := by
  intro f v args results
  unfold callWith
  split
  · exact callCallable_lasts hc f args results _
  · exact callConstructor_lasts f _ args results
  · split
    · exact Lasts.bind (takeArguments_lasts f args) fun given => Lasts.push _
    · exact callPlain_lasts v args results
  · exact callPlain_lasts v args results

end

theorem lasts_callAt : ∀ depth : Nat, Caller.Lasts R (callAt depth)
  | 0 => fun _ _ _ _ => Lasts.throw _
  | depth + 1 => callWith_lasts (lasts_callAt depth)

/-- **What no single change breaks holds across every run**, however it ends. -/
theorem lasts_runSteps (depth : Nat) (f : Frame) (steps : List Instr) (m : Machine) :
    R m ((runSteps (callAt depth) f steps).outcome m).2 :=
  runSteps_lasts (lasts_callAt depth) f steps m

/-! ### Serial numbers -/

instance : Lasting fun m n => m.next ≤ n.next where
  refl _ := Nat.le_refl _
  trans := Nat.le_trans
  storage _ _ := Nat.le_refl _
  put _ := Nat.le_refl _
  grow _ _ := Nat.le_refl _
  setBuilder _ _ _ := Nat.le_refl _
  newBuilder _ := Nat.le_refl _
  fresh m := Nat.le_succ m.next
  emit _ _ := Nat.le_refl _
  note _ _ := Nat.le_refl _

/-- **No code counts back.** -/
theorem next_le_runSteps (depth : Nat) (f : Frame) (steps : List Instr) (m : Machine) :
    m.next ≤ ((runSteps (callAt depth) f steps).outcome m).2.next :=
  lasts_runSteps (R := fun m n => m.next ≤ n.next) depth f steps m

end StackCalc
