import StackCalc.Proofs.Machine.Conventions
import StackCalc.Proofs.Machine.Congruent

/-! # What running admitted code ends in

Every function of the machine is steady on admitted values, given that the calls nested in it are
(`Caller.Steady`), and by induction on the depth of nesting all calls are (`steady_callAt`): a run of admitted
code ends in the same way on all machines that it cannot tell apart, and in a fault that is tolerated if it does
not succeed. The functions that run no code log no steps, so they do not ask whether steps may be recorded. -/

namespace StackCalc

open Run (Steady Settles)
open Vocabulary (Admits)

variable [Vocabulary]

/-- Calls of admitted values are steady, given a number of arguments that is admitted, or none. -/
def Caller.Steady (c : Caller) : Prop :=
  ∀ (f : Frame) (v : Value) (args results : Option Int), f.Admitted → v.Admitted →
    (∀ n, args = some n → Admits (.count n)) → Settles f.view.base (c f v args results)

variable {base : Nat} {f : Frame} {args : Option Int}

/-! ### Values that have to be of a kind -/

theorem Value.Admitted.wantCode {v : Value} (h : v.Admitted) (context : Text) :
    Yields Code.Admitted (v.wantCode context) :=
  (v.yields_wantCode context).mono fun _ hv => h.code hv

theorem Value.Admitted.wantPattern {v : Value} (h : v.Admitted) : Yields Pattern.Admitted (wantPattern v) := by
  refine (yields_wantPattern v).mono ?_
  rintro p ⟨serial, hv⟩
  exact h.pattern hv

/-! ### Names and traces -/

theorem trace_steady (hf : f.Admitted) (i : Instr) : Settles base (trace f i) :=
  Steady.ite (fun htrace => Steady.bind Steady.values fun _ _ => Steady.note (hf.trace htrace i _)) fun _ =>
    Steady.pure trivial

theorem resolve_steady (hf : Admits (.scope f.scope)) {name : Text} (hname : Admits (.name name)) :
    Steady base Symbol.Admitted (resolve f name) := by
  refine Steady.bind (Steady.find? hf hname) fun found hfound => ?_
  cases found with
  | none => exact Steady.fault rfl
  | some s => exact Steady.pure (hfound s rfl)

theorem callSingle_steady {r : Run Value} (h : Steady base Value.Admitted r) (results : Option Int) :
    Settles base (callSingle results r) := by
  rw [callSingle_eq]
  refine Steady.bind (Steady.wants _ _ fun _ => .ordinary rfl) fun _ _ => ?_
  exact Steady.bind h fun v hv => Steady.push hv

theorem callPlaceholder_steady {name : Text} (hname : Admits (.name name)) (results : Option Int)
    (hargs : ∀ n, args = some n → Admits (.count n)) :
    Settles f.view.base (callPlaceholder f name args results) := by
  refine callSingle_steady ?_ _
  cases args with
  | none => exact Steady.fault rfl
  | some n =>
    refine Steady.bind (Steady.take (hargs n rfl)) fun given hgiven => ?_
    refine Steady.object fun serial => List.forall_mem_cons.2 ⟨hname, fun x hx => ?_⟩
    obtain ⟨v, hv, hx⟩ := mem_valueMentions.1 hx
    exact hgiven.2 v hv x hx

theorem getSymbol_steady {s : Symbol} (h : s.Admitted) : Settles base (getSymbol s) := by
  cases s with
  | value v => exact Steady.push h
  | placeholder name =>
    exact Steady.bind (Steady.object fun serial x hx => by cases hx) fun v hv => Steady.push hv

/-! ### Pieces of patterns under construction -/

namespace PatternBuilder

theorem admitted_empty : empty.Admitted where
  parts := fun _ h => by cases h
  guards := fun _ h => by cases h
  actions := fun _ h => by cases h
  fallback := fun _ h => by cases h

theorem Admitted.addPart {b : PatternBuilder} (h : b.Admitted) {p : Part} (hp : p.Admitted) :
    Yields PatternBuilder.Admitted (b.addPart p) := by
  unfold PatternBuilder.addPart
  refine Yields.ite (fun _ => .ordinary rfl) fun _ => .ok { h with parts := ?_ }
  exact List.forall_mem_append.2 ⟨h.parts, List.forall_mem_singleton.2 hp⟩

theorem Admitted.addGuarded {b : PatternBuilder} (h : b.Admitted) {guard action : Code} (hguard : guard.Admitted)
    (haction : action.Admitted) : Yields PatternBuilder.Admitted (b.addGuarded guard action) := by
  unfold PatternBuilder.addGuarded
  refine Yields.ite (fun _ => .ordinary rfl) fun _ => .ok { h with guards := ?_, actions := ?_ }
  · exact List.forall_mem_append.2 ⟨h.guards, List.forall_mem_singleton.2 hguard⟩
  · exact List.forall_mem_append.2 ⟨h.actions, List.forall_mem_singleton.2 haction⟩

theorem Admitted.addDefault {b : PatternBuilder} (h : b.Admitted) {action : Code} (haction : action.Admitted) :
    (b.addDefault action).Admitted where
  parts := h.parts
  guards := h.guards
  actions := h.actions
  fallback := fun c hc => by
    cases hc
    exact haction

theorem Admitted.build {b : PatternBuilder} (h : b.Admitted) : Yields Pattern.Admitted b.build := by
  unfold PatternBuilder.build
  split
  · exact .ordinary rfl
  next action _ hfallback => exact .ok (Pattern.admitted_plain h.parts (h.fallback action hfallback))
  · exact .ok (Pattern.admitted_guarded h.parts h.guards h.actions h.fallback)

end PatternBuilder

theorem findBuilder_steady {id : Nat} (hid : Admits (.builder id)) :
    Steady base PatternBuilder.Admitted (findBuilder id) := by
  refine Steady.get_bind fun m n hmn => ⟨by rw [hmn.builders], Steady.pure ?_⟩
  rcases hb : m.builders[id]? with _ | b
  · exact PatternBuilder.admitted_empty
  · exact hmn.pieces id b hid hb

theorem setBuilder_steady (id : Nat) {b : PatternBuilder} (h : b.Admitted) : Settles base (setBuilder id b) := by
  intro m n hmn hb
  refine .ok trivial { hmn with builders := ?_, pieces := ?_, fresh := ?_ } (.of_silent hb rfl rfl rfl)
  · exact congrArg (·.setIfInBounds id b) hmn.builders
  · intro i b' hi hpiece
    rw [Array.getElem?_setIfInBounds] at hpiece
    split_ifs at hpiece
    · cases hpiece
      exact h
    · exact hmn.pieces i b' hi hpiece
  · intro i hi
    rw [Array.size_setIfInBounds] at hi
    exact hmn.fresh i hi

theorem newBuilder_steady : Steady base (fun id => Admits (.builder id)) newBuilder := by
  intro m n hmn hb
  have houtcome : newBuilder.outcome n = (.ok m.builders.size, { n with builders := m.builders.push .empty }) := by
    rw [hmn.builders]
    rfl
  rw [houtcome]
  refine .ok (hmn.fresh _ (Nat.le_refl _)) { hmn with builders := rfl, pieces := ?_, fresh := ?_ }
    (.of_silent hb rfl rfl rfl)
  · intro i b hi hpiece
    rw [Array.getElem?_push] at hpiece
    split_ifs at hpiece
    · cases hpiece
      exact PatternBuilder.admitted_empty
    · exact hmn.pieces i b hi hpiece
  · intro i hi
    rw [Array.size_push] at hi
    exact hmn.fresh i (by omega)

/-- The names that a construction program knows. -/
theorem admitted_construction {builder : Nat} (h : Admits (.builder builder)) :
    ∀ e ∈ ([(partName, .own (.callable (.addPart builder))), (guardedName, .own (.callable (.addGuarded builder))),
      (defaultName, .own (.callable (.addDefault builder)))] : Bindings), e.2.Admitted := by
  have hadds : ∀ f : Callable, f.mentions = [.builder builder] → (Value.own (.callable f)).Admitted :=
    fun f hf => Value.admitted_own (p := .callable f) (by
      unfold Payload.mentions
      rw [hf]
      exact List.forall_mem_singleton.2 h)
  simp only [List.forall_mem_cons]
  exact ⟨hadds _ rfl, hadds _ rfl, hadds _ rfl, fun _ h => by cases h⟩

theorem addGuarded_steady {builder : Nat} (hbuilder : Admits (.builder builder)) :
    Settles f.view.base (addGuarded f builder) := by
  refine Steady.bind Steady.pop fun v hv => Steady.bind (Steady.lift (hv.wantCode _)) fun action haction => ?_
  refine Steady.bind Steady.pop fun w hw => Steady.bind (Steady.lift (hw.wantCode _)) fun guard hguard => ?_
  refine Steady.bind (findBuilder_steady hbuilder) fun b hb => ?_
  exact Steady.bind (Steady.lift (hb.addGuarded hguard haction)) fun _ hb' => setBuilder_steady builder hb'

theorem addDefault_steady {builder : Nat} (hbuilder : Admits (.builder builder)) :
    Settles f.view.base (addDefault f builder) := by
  refine Steady.bind Steady.pop fun v hv => Steady.bind (Steady.lift (hv.wantCode _)) fun action haction => ?_
  refine Steady.bind (findBuilder_steady hbuilder) fun b hb => ?_
  have hset : Settles f.view.base (setBuilder builder (b.addDefault action)) :=
    setBuilder_steady builder (hb.addDefault haction)
  have hnote : Settles f.view.base (Run.note .replacedDefault) :=
    Steady.note (Vocabulary.records fun _ _ h => by cases h)
  exact Steady.ite (fun _ => Steady.bind hnote fun _ _ => hset) fun _ => hset

/-! ### Functions that run no code -/

theorem callFixed_steady (takes gives : Nat) (args results : Option Int) {body : Run Unit}
    (h : Settles f.view.base body) : Settles f.view.base (callFixed f takes gives args results body) := by
  rw [callFixed_eq]
  refine Steady.bind (Steady.wants _ _ fun _ => .ordinary rfl) fun _ _ => ?_
  refine Steady.bind (Steady.wants _ _ fun _ => .ordinary rfl) fun _ _ => ?_
  refine Steady.bind Steady.size fun before _ => Steady.ite (fun _ => Steady.fault rfl) fun _ => ?_
  refine Steady.bind h fun _ _ => Steady.bind Steady.size fun after _ => ?_
  exact Steady.ite (fun _ => Steady.fault rfl) fun _ => Steady.pure trivial

theorem callPure_steady (takes gives : Nat) (args results : Option Int)
    {fn : List Value → Except Fault (List Value)}
    (h : ∀ given, given.length = takes → (∀ v ∈ given, v.Admitted) →
      Yields (fun vs => ∀ v ∈ vs, v.Admitted) (fn given)) :
    Settles f.view.base (callPure f takes gives args results fn) := by
  rw [callPure_eq]
  refine callFixed_steady takes gives args results ?_
  refine Steady.bind (Steady.take (Vocabulary.count takes)) fun given hgiven => ?_
  refine Steady.bind (Steady.lift (h given hgiven.1 hgiven.2)) fun vs hvs => ?_
  exact Steady.forM fun v hv => Steady.bind (Steady.distinguish (hvs v hv)) fun w hw => Steady.push hw

theorem callDefine_steady (hf : Admits (.scope f.scope)) (args results : Option Int) :
    Settles f.view.base (callDefine f args results) := by
  refine callFixed_steady 2 1 args results ?_
  refine Steady.bind Steady.pop fun v hv => Steady.bind Steady.pop fun w _ => ?_
  refine Steady.bind (Steady.lift (w.ends_wantText _)) fun name _ => ?_
  exact Steady.bind (Steady.put hf name hv) fun _ _ => Steady.push hv

theorem takeArguments_steady (hargs : ∀ n, args = some n → Admits (.count n)) :
    Steady f.view.base (fun vs => ∀ v ∈ vs, v.Admitted) (takeArguments f args) := by
  cases args with
  | none => exact Steady.bind Steady.size fun n hn => (Steady.take (Vocabulary.count_of_nonneg hn)).mono fun _ h => h.2
  | some n => exact (Steady.take (hargs n rfl)).mono fun _ h => h.2

theorem callList_steady (results : Option Int) (hargs : ∀ n, args = some n → Admits (.count n)) :
    Settles f.view.base (callList f args results) :=
  callSingle_steady (Steady.bind (takeArguments_steady hargs) fun _ h =>
    Steady.pure (Value.Hereditary.ofList 0 h)) results

theorem callPrint_steady (results : Option Int) (hargs : ∀ n, args = some n → Admits (.count n)) :
    Settles f.view.base (callPrint f args results) := by
  refine callSingle_steady ?_ results
  refine Steady.bind (takeArguments_steady hargs) fun given _ => ?_
  refine Steady.bind (Steady.lift (Yields.mapM fun v _ => ends_printed v)) fun words _ => ?_
  exact Steady.bind (Steady.emit _) fun _ _ => Steady.pure (Value.Hereditary.own rfl)

theorem callStruct_steady (results : Option Int) (hargs : ∀ n, args = some n → Admits (.count n)) :
    Settles f.view.base (callStruct f args results) := by
  refine callSingle_steady ?_ results
  refine Steady.bind (takeArguments_steady hargs) fun given _ => ?_
  refine Steady.bind (Steady.lift (ends_structParts given)) fun parts _ => ?_
  refine Steady.bind (Steady.note (Vocabulary.records fun _ _ h => by cases h)) fun _ _ => ?_
  exact Steady.object fun serial x hx => by cases hx

theorem popPatterns_steady : ∀ n : Nat, Steady f.view.base (fun ps => ∀ p ∈ ps, p.Admitted) (popPatterns f n)
  | 0 => Steady.pure fun _ h => by cases h
  | n + 1 => by
    refine Steady.bind Steady.pop fun v hv => Steady.bind (Steady.lift hv.wantPattern) fun p hp => ?_
    refine Steady.bind (popPatterns_steady n) fun ps hps => Steady.pure ?_
    exact List.forall_mem_append.2 ⟨hps, List.forall_mem_singleton.2 hp⟩

theorem callMatch_steady (hf : Admits (.scope f.scope)) (args results : Option Int) :
    Settles f.view.base (callMatch f args results) := by
  refine callSingle_steady ?_ results
  cases args with
  | none => exact Steady.fault rfl
  | some n =>
    refine Steady.bind (popPatterns_steady _) fun ps hps => ?_
    exact Steady.callable fun serial => Callable.admitted_matching.2 ⟨hf, hps⟩

theorem callCounter_steady (results : Option Int) (hargs : ∀ n, args = some n → Admits (.count n)) :
    Settles f.view.base (callCounter f args results) := by
  have hcount : Admits (.count (args.getD 0)) := by
    cases args with
    | none => exact Vocabulary.count 0
    | some n => exact hargs n rfl
  exact callSingle_steady (Steady.bind (Steady.take hcount) fun _ _ =>
    Steady.pure (Value.Hereditary.own rfl)) results

theorem callConstructor_steady (t : StructType) (args results : Option Int) :
    Settles f.view.base (callConstructor f t args results) := by
  rw [callConstructor_eq]
  refine Steady.bind (Steady.wants _ _ fun _ => .ordinary rfl) fun _ _ => callSingle_steady ?_ results
  refine Steady.bind (Steady.take (Vocabulary.count _)) fun given hgiven => ?_
  exact Steady.pure (Value.Hereditary.record.2 hgiven.2)

theorem callShuffle_steady (s : Shuffle) (args results : Option Int) :
    Settles f.view.base (callShuffle f s args results) := by
  rw [callShuffle_eq]
  refine callFixed_steady s.takes s.gives args results ?_
  refine Steady.bind (Steady.forM fun _ _ => Steady.bind Steady.pop fun _ _ => Steady.pure trivial) fun _ _ => ?_
  refine Steady.pushAll fun v hv => ?_
  obtain ⟨n, -, rfl⟩ := List.mem_map.1 hv
  exact Value.Hereditary.own rfl

theorem callPlain_steady {v : Value} (h : v.Admitted) (args results : Option Int) :
    Settles base (callPlain v args results) := by
  rw [callPlain_eq]
  refine Steady.bind (Steady.wants _ _ fun _ => v.tolerated_faultWith fun _ => .ordinary rfl) fun _ _ => ?_
  exact Steady.bind (Steady.wants _ _ fun _ => .ordinary rfl) fun _ _ => Steady.push h

/-- What is no function runs no code when it is called. -/
theorem callOther_steady (c : Caller) {v : Value} (h : v.Admitted) (hv : ∀ h, v.payload ≠ .callable h)
    (results : Option Int) (hargs : ∀ n, args = some n → Admits (.count n)) :
    Settles f.view.base (callWith c f v args results) := by
  unfold callWith
  split
  next h hp => exact absurd hp (hv h)
  next t _ => exact callConstructor_steady t args results
  next =>
    split
    · exact Steady.bind (takeArguments_steady hargs) fun given _ => Steady.push (Value.Hereditary.own rfl)
    · exact callPlain_steady h args results
  next => exact callPlain_steady h args results

section
variable {c : Caller} (hc : c.Steady)
include hc

/-! ### Running steps -/

theorem callSymbol_steady (hf : f.Admitted) {s : Symbol} (h : s.Admitted) (results : Option Int)
    (hargs : ∀ n, args = some n → Admits (.count n)) :
    Settles f.view.base (callSymbol c f args results s) := by
  cases s with
  | value v => exact hc f v args results hf h hargs
  | placeholder name => exact callPlaceholder_steady h results hargs

theorem step_steady (hf : f.Admitted) {i : Instr} (h : i.Admitted) : Settles f.view.base (step c f i) := by
  cases i with
  | push v => exact Steady.push h
  | get name =>
    exact Steady.bind (resolve_steady hf.scope (h _ List.mem_cons_self)) fun s hs => getSymbol_steady hs
  | call name args results =>
    refine Steady.bind (resolve_steady hf.scope (h _ List.mem_cons_self)) fun s hs => ?_
    exact callSymbol_steady hc hf hs results h.count
  | binary op =>
    have hop : Admits (.operator op) := h _ List.mem_cons_self
    refine Steady.bind Steady.pop fun right hright => Steady.bind Steady.pop fun left hleft => ?_
    refine Steady.bind (Steady.lift (Operator.yields_binary (Vocabulary.marker hop) hleft hright)) fun v hv => ?_
    exact Steady.bind (Steady.distinguish hv) fun w hw => Steady.push hw
  | unary op =>
    refine Steady.bind Steady.pop fun operand _ => ?_
    refine Steady.bind (P := Value.Admitted) (Steady.lift (Operator.yields_unary op operand)) fun v hv => ?_
    exact Steady.bind (Steady.distinguish hv) fun w hw => Steady.push hw
  | closure params body =>
    refine Steady.bind (Steady.callable fun serial => ?_) fun v hv => Steady.push hv
    exact Callable.admitted_closure.2 ⟨hf.scope, h.body⟩

theorem runSteps_steady (hf : f.Admitted) : ∀ {steps : List Instr}, (∀ i ∈ steps, i.Admitted) →
    Settles f.view.base (runSteps c f steps)
  | [], _ => Steady.pure trivial
  | i :: _, h => Steady.bind (trace_steady hf i) fun _ _ =>
      Steady.bind (step_steady hc hf (h i List.mem_cons_self)) fun _ _ =>
        runSteps_steady hf fun j hj => h j (List.mem_cons_of_mem i hj)

theorem runAside_steady {scope : ScopeId} (hscope : Admits (.scope scope)) {traced : Bool} (htraced : MayTrace traced)
    {code : Code} (h : code.Admitted) : Steady base (fun vs => ∀ v ∈ vs, v.Admitted) (runAside c scope traced code) :=
  have hf : (⟨scope, View.whole, traced⟩ : Frame).Admitted := ⟨hscope, htraced⟩
  Steady.aside (Steady.bind (runSteps_steady hc hf h.steps) fun _ _ => Steady.values)

/-! ### Matching -/

theorem runGuard_steady {bindings : ScopeId} (hbindings : Admits (.scope bindings)) {traced : Bool}
    (htraced : MayTrace traced) {guard : Code} (h : guard.Admitted) :
    Settles base (runGuard c bindings traced guard) := by
  refine Steady.bind (Steady.grow (.shield hbindings)) fun scope hscope => ?_
  refine Steady.bind (runAside_steady hc hscope htraced h) fun vs _ => ?_
  rcases vs with _ | ⟨v, _ | ⟨w, vs⟩⟩
  · exact Steady.fault rfl
  · exact Steady.pure trivial
  · exact Steady.fault rfl

theorem selectClause_steady {bindings : ScopeId} (hbindings : Admits (.scope bindings)) {traced : Bool}
    (htraced : MayTrace traced) {fallback : Option Code}
    (hfallback : ∀ c, fallback = some c → c.Admitted) : ∀ {clauses : List (Code × Code)},
    (∀ c ∈ clauses, c.1.Admitted) → (∀ c ∈ clauses, c.2.Admitted) →
      Steady base (fun action => ∀ c, action = some c → c.Admitted) (selectClause c bindings traced fallback clauses)
  | [], _, _ => Steady.pure hfallback
  | (guard, action) :: rest, hguards, hactions => by
    refine Steady.bind (runGuard_steady hc hbindings htraced (hguards _ List.mem_cons_self)) fun _ _ =>
      Steady.ite (fun _ => Steady.pure fun c h => ?_) fun _ => ?_
    · cases h
      exact hactions _ List.mem_cons_self
    · exact selectClause_steady hbindings htraced hfallback (fun c h => hguards c (List.mem_cons_of_mem _ h))
        fun c h => hactions c (List.mem_cons_of_mem _ h)

theorem selectAction_steady {bindings : ScopeId} (hbindings : Admits (.scope bindings)) {traced : Bool}
    (htraced : MayTrace traced) {p : Pattern} (h : p.Admitted) :
    Steady base (fun action => ∀ c, action = some c → c.Admitted) (p.selectAction c bindings traced) := by
  cases p with
  | plain parts action =>
    exact Steady.pure fun c hc => by
      cases hc
      exact h.action
  | guarded parts clauses fallback =>
    exact selectClause_steady hc hbindings htraced h.fallback h.guards h.actions

theorem select_steady {env bindings : ScopeId} (henv : Admits (.scope env)) (hbindings : Admits (.scope bindings))
    {traced : Bool} (htraced : MayTrace traced) {p : Pattern} (h : p.Admitted) {vs : List Value}
    (hvs : ∀ v ∈ vs, v.Admitted) :
    Steady base (fun action => ∀ c, action = some c → c.Admitted) (p.select c env bindings traced vs) := by
  unfold Pattern.select
  refine Steady.get_bind fun m n hmn => ⟨by dsimp only; rw [p.accepts_congr hmn.scopes henv h], ?_⟩
  have haccepts := p.steady_accepts (m.scopes.find? env) hvs
  have hends := haccepts.ends [] fun _ h => by cases h
  have hbound := haccepts.bound [] fun _ h => by cases h
  dsimp only
  generalize Matching.outcome (p.accepts (m.scopes.find? env) vs) [] = result at hends hbound
  obtain ⟨accepted, made⟩ := result
  refine Steady.bind (Steady.putAll hbindings hbound) fun _ _ => ?_
  rcases accepted with e | _ | _
  · exact Steady.throw hends.of_error
  · exact Steady.pure fun c hc => by cases hc
  · exact selectAction_steady hc hbindings htraced h

theorem callMatching_steady (hf : f.Admitted) {scope : ScopeId} (hscope : Admits (.scope scope))
    (args results : Option Int) (total : Nat) : ∀ (index : Nat) {ps : List Pattern}, (∀ p ∈ ps, p.Admitted) →
      Settles f.view.base (callMatching c f scope args results total index ps)
  | _, [], _ => Steady.fault rfl
  | index, p :: rest, h => by
    have hrest := callMatching_steady hf hscope args results total (index + 1) fun q hq =>
      h q (List.mem_cons_of_mem p hq)
    unfold callMatching
    refine Steady.bind Steady.size fun size _ => Steady.ite (fun _ => ?_) fun _ => hrest
    refine Steady.bind (Steady.sub (Vocabulary.count _)) fun candidates hcandidates => ?_
    refine Steady.bind (Steady.grow (.layer hscope Bindings.congruent_nil)) fun bindings hbindings => ?_
    refine Steady.get_bind fun m n hmn => ⟨by rw [hmn.storage], ?_⟩
    have hvalues : ∀ v ∈ candidates.values m.storage, v.Admitted := fun v hv =>
      hmn.values v (List.mem_of_mem_take (List.mem_reverse.1 hv))
    refine Steady.bind (select_steady hc hscope hbindings hf.trace (h p List.mem_cons_self) hvalues)
      fun action haction => ?_
    cases action with
    | none => exact hrest
    | some action =>
      have hnote : Settles f.view.base (Run.note (.alternative (index + 1) total)) :=
        Steady.note (Vocabulary.records fun _ _ h => by cases h)
      refine Steady.bind hnote fun _ _ => Steady.bind (Steady.clear hcandidates) fun _ _ => ?_
      refine Steady.inner_bind hf hbindings (Vocabulary.count 0) fun frame hframe => ?_
      exact Steady.bind (runSteps_steady hc hframe (haction action rfl).steps) fun _ _ => Steady.checkResults results

/-! ### Constructing patterns -/

theorem addPart_steady (hf : f.Admitted) {builder : Nat} (hbuilder : Admits (.builder builder)) :
    Settles f.view.base (addPart c f builder) := by
  have hfault : ∀ vs, (addPart.literalFault vs).Tolerated := by
    intro vs
    unfold addPart.literalFault
    rcases hs : showStack Naming.standard vs with e | s
    · exact (hs ▸ ends_showStack _ vs).of_error
    · exact .ordinary rfl
  refine Steady.bind Steady.pop fun v hv => Steady.bind (Steady.lift (hv.wantCode _)) fun code hcode => ?_
  refine Steady.bind (Steady.grow (.literal Vocabulary.constants)) fun literals hliterals => ?_
  refine Steady.bind (runAside_steady hc hliterals hf.trace hcode) fun vs hvs => ?_
  rcases vs with _ | ⟨v, _ | ⟨w, vs⟩⟩
  · exact Steady.throw (hfault _)
  · exact Steady.bind (findBuilder_steady hbuilder) fun b hb =>
      Steady.bind (Steady.lift (hb.addPart (hvs v List.mem_cons_self).part)) fun _ hb' => setBuilder_steady builder hb'
  · exact Steady.throw (hfault _)

theorem construct_steady {traced : Bool} (htraced : MayTrace traced) {program : Code} (h : program.Admitted) :
    Steady base Pattern.Admitted (construct c traced program) := by
  have hfault : ∀ vs, (construct.leftoverFault vs).Tolerated := by
    intro vs
    unfold construct.leftoverFault
    rcases hs : showStack Naming.standard vs with e | s
    · exact (hs ▸ ends_showStack _ vs).of_error
    · exact .ordinary rfl
  refine Steady.bind newBuilder_steady fun builder hbuilder => ?_
  refine Steady.bind (Steady.grow (.root (Bindings.congruent_of_forall (admitted_construction hbuilder))))
    fun scope hscope => ?_
  refine Steady.bind (runAside_steady hc hscope htraced h) fun vs _ => ?_
  rcases vs with _ | ⟨v, vs⟩
  · exact Steady.bind (findBuilder_steady hbuilder) fun b hb => Steady.lift hb.build
  · exact Steady.throw (hfault _)

/-! ### Functions that run code -/

theorem callWithMembers_steady (hf : f.Admitted) (args results : Option Int) :
    Settles f.view.base (callWithMembers c f args results) := by
  refine callFixed_steady 2 1 args results ?_
  refine Steady.bind Steady.pop fun v hv => Steady.bind (Steady.lift (hv.wantCode _)) fun code hcode => ?_
  refine Steady.bind Steady.pop fun target htarget => ?_
  cases hm : target.members? with
  | none => exact Steady.throw (target.tolerated_faultWith fun _ => .ordinary rfl)
  | some members =>
    refine Steady.bind (Steady.grow (.layer hf.scope Bindings.congruent_nil)) fun scope hscope => ?_
    refine Steady.bind (Steady.putAll hscope (Members.forall_toList (htarget.members hm))) fun _ _ => ?_
    refine Steady.bind (runAside_steady hc hscope hf.trace hcode) fun vs hvs => ?_
    rcases vs with _ | ⟨v, _ | ⟨w, vs⟩⟩
    · exact Steady.fault rfl
    · exact Steady.push (hvs v List.mem_cons_self)
    · exact Steady.fault rfl

theorem callPattern_steady (hf : f.Admitted) (args results : Option Int) :
    Settles f.view.base (callPattern c f args results) := by
  refine callFixed_steady 1 1 args results ?_
  refine Steady.bind Steady.pop fun v hv => Steady.bind (Steady.lift (hv.wantCode _)) fun program hprogram => ?_
  refine Steady.bind (construct_steady hc hf.trace hprogram) fun p hp => ?_
  exact Steady.bind (Steady.object fun serial => hp) fun v hv => Steady.push hv

theorem callApply_steady (hf : f.Admitted) (results : Option Int) :
    Settles f.view.base (callApply c f args results) := by
  cases args with
  | none => exact Steady.fault rfl
  | some n =>
    rw [callApply_some]
    refine Steady.ite (fun _ => Steady.fault rfl) fun hn => ?_
    refine Steady.bind (Steady.take (Vocabulary.count_of_nonneg (by omega))) fun vs hvs => ?_
    cases vs with
    | nil => exact Steady.fault rfl
    | cons target given =>
      obtain ⟨htarget, hgiven⟩ := List.forall_mem_cons.1 hvs.2
      refine Steady.bind (Steady.pushAll hgiven) fun _ _ => hc f target _ results hf htarget fun k hk => ?_
      cases hk
      exact Vocabulary.count_of_nonneg (by omega)

theorem callExecute_steady (hf : f.Admitted) (args results : Option Int) :
    Settles f.view.base (callExecute c f args results) := by
  rw [callExecute_eq]
  refine Steady.bind (Steady.wants _ _ fun _ => .ordinary rfl) fun _ _ => Steady.bind Steady.pop fun v hv => ?_
  refine Steady.bind (Steady.lift (hv.wantCode _)) fun code hcode => ?_
  refine Steady.inner_bind hf hf.scope (Vocabulary.count 0) fun frame hframe => ?_
  exact Steady.bind (runSteps_steady hc hframe hcode.steps) fun _ _ => Steady.checkResults results

theorem callClosure_steady (hf : f.Admitted) (params : List Text) {body : List Instr} (h : ∀ i ∈ body, i.Admitted)
    {scope : ScopeId} (hscope : Admits (.scope scope)) (args results : Option Int) :
    Settles f.view.base (callClosure c f params body scope args results) := by
  rw [callClosure_eq]
  refine Steady.bind (Steady.wants _ _ fun _ => .ordinary rfl) fun _ _ => ?_
  refine Steady.inner_bind hf hscope (Vocabulary.count _) fun frame hframe => ?_
  refine Steady.bind Steady.values fun given hgiven => Steady.bind (Steady.clear (Nat.le_refl _)) fun _ _ => ?_
  have hparams : ∀ e ∈ params.zip given, e.2.Admitted := fun e he => hgiven e.2 (List.of_mem_zip he).2
  refine Steady.bind (Steady.putAll hframe.scope hparams) fun _ _ => ?_
  exact Steady.bind (runSteps_steady hc hframe h) fun _ _ => Steady.checkResults results

theorem callBuiltin_steady (hf : f.Admitted) (b : Builtin) (results : Option Int)
    (hargs : ∀ n, args = some n → Admits (.count n)) :
    Settles f.view.base (callBuiltin c f b args results) := by
  unfold callBuiltin
  split
  next n hn =>
    refine callPure_steady n 1 args results fun given hlen h => ?_
    exact (Builtin.yields_value hn hlen h).bind fun v hv => .pure (List.forall_mem_singleton.2 hv)
  next =>
    split
    · exact callApply_steady hc hf results
    · exact callWithMembers_steady hc hf args results
    · exact callDefine_steady hf.scope args results
    · exact callExecute_steady hc hf args results
    · exact callList_steady results hargs
    · exact callPrint_steady results hargs
    · exact callStruct_steady results hargs
    · exact callMatch_steady hf.scope args results
    · exact callPattern_steady hc hf args results

theorem callCallable_steady (hf : f.Admitted) {h : Callable} (hadmitted : h.Admitted) (results : Option Int)
    (hargs : ∀ n, args = some n → Admits (.count n)) : Settles f.view.base (callCallable c f args results h) := by
  cases h with
  | builtin b => exact callBuiltin_steady hc hf b results hargs
  | native serial index name takes gives =>
    refine Steady.get_bind fun m n hmn => ⟨by rw [hmn.natives], ?_⟩
    refine callPure_steady takes gives args results fun given _ hgiven => ?_
    rcases hfn : m.natives[index]? with _ | fn
    · exact .error (Vocabulary.host (hadmitted _ List.mem_cons_self))
    · exact hmn.lawful index fn (hadmitted _ List.mem_cons_self) hfn gives given hgiven
  | shuffle serial index =>
    refine Steady.get_bind fun m n hmn => ⟨by rw [hmn.shuffles], ?_⟩
    split
    · exact callShuffle_steady _ args results
    · exact Steady.throw (Vocabulary.host (hadmitted _ List.mem_cons_self))
  | counter serial => exact callCounter_steady results hargs
  | closure serial params body scope =>
    obtain ⟨hscope, hbody⟩ := Callable.admitted_closure.1 hadmitted
    exact callClosure_steady hc hf params hbody hscope args results
  | matching serial scope patterns =>
    obtain ⟨hscope, hpatterns⟩ := Callable.admitted_matching.1 hadmitted
    exact callMatching_steady hc hf hscope args results _ 0 hpatterns
  | addPart builder =>
    exact callFixed_steady 1 0 args results (addPart_steady hc hf (hadmitted _ List.mem_cons_self))
  | addGuarded builder =>
    exact callFixed_steady 2 0 args results (addGuarded_steady (hadmitted _ List.mem_cons_self))
  | addDefault builder =>
    exact callFixed_steady 1 0 args results (addDefault_steady (hadmitted _ List.mem_cons_self))

theorem callWith_steady : Caller.Steady (callWith c) := by
  intro f v args results hf hv hargs
  by_cases h : ∃ h, v.payload = .callable h
  · obtain ⟨h, hp⟩ := h
    unfold callWith
    rw [hp]
    exact callCallable_steady hc hf (hv.callable hp) results hargs
  · exact callOther_steady c hv (not_exists.1 h) results hargs

end

/-- **Calls of admitted values are steady**, however deep they nest. -/
theorem steady_callAt : ∀ depth : Nat, Caller.Steady (callAt depth)
  | 0 => fun _ _ _ _ _ _ _ => Steady.fault rfl
  | depth + 1 => callWith_steady (steady_callAt depth)

end StackCalc
