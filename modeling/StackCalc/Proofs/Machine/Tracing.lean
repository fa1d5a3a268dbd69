import StackCalc.Proofs.Machine.Steady
import StackCalc.Proofs.Machine.Watched

/-! # Tracing

The trace of a frame is handed on to all code that runs for it: to closures, to the blocks of `execute` and
`with`, to guards, actions and the construction of patterns. So a run in a traced frame logs its chronicle: every
step that it takes, before it takes it, and all other records in their places (`callAt_tells`). Otherwise it does
what a run in an untraced frame does, which logs the same without the steps (`runSteps_traced`).

That the functions which run no code log no steps is a matter of vocabulary. -/

namespace StackCalc

open Run (Steady Settles)
open Vocabulary (Admits Records)

/-- A vocabulary that admits and tolerates everything, but no records of steps. -/
class SilentVocabulary extends Vocabulary where
  admits (x : Mention) : Admits x
  tolerates (f : Fault) : Tolerates f
  silent {e : Event} (h : Records e) : e.isStep = false

/-- All that matters is that no steps are recorded. -/
abbrev SilentVocabulary.plain : SilentVocabulary where
  Tolerates _ := True
  tooManyDigits := trivial
  ordinary _ := trivial
  Admits _ := True
  Records e := e.isStep = false
  count _ := trivial
  negative _ _ := trivial
  operator _ := trivial
  marker _ _ _ := trivial
  host _ := trivial
  constants := trivial
  records {e} h := by
    cases e with
    | step i stack => exact absurd rfl (h i stack)
    | _ => rfl
  admits _ := trivial
  tolerates _ := trivial
  silent h := h

variable {α : Type}

section
variable [SilentVocabulary]

namespace SilentVocabulary

theorem yields {P : α → Prop} (h : ∀ a, P a) (x : Except Fault α) : Yields P x :=
  yields_iff.2 ⟨fun a _ => h a, fun f _ => tolerates f⟩

theorem code (c : Code) : c.Admitted := fun _ _ => admits _

theorem value (v : Value) : v.Admitted := fun _ _ => admits _

theorem bindings (b : Bindings) : b.Congruent b := Bindings.congruent_of_forall fun _ _ => value _

theorem scope : ∀ s : Scope, s.Congruent s
  | .root b => .root (bindings b)
  | .passage _ => .passage (admits _)
  | .layer _ b => .layer (admits _) (bindings b)
  | .shield _ => .shield (admits _)
  | .literal _ => .literal (admits _)

theorem builder (b : PatternBuilder) : b.Admitted :=
  ⟨fun _ _ _ _ => admits _, fun _ _ => code _, fun _ _ => code _, fun _ _ => code _⟩

/-- Code cannot tell a machine apart from itself. -/
theorem congruent (m : Machine) : m.Congruent m where
  storage := rfl
  values := fun _ _ => value _
  scopes := ⟨rfl, fun _ _ => admits _, fun _ s _ hs => ⟨s, hs, scope s⟩⟩
  builders := rfl
  pieces := fun _ b _ _ => builder b
  fresh := fun _ _ => admits _
  natives := rfl
  lawful := fun _ _ _ _ _ _ _ => yields (fun _ _ _ => value _) _
  shuffles := rfl
  next := rfl
  effects := rfl
  logging := rfl

end SilentVocabulary

namespace Watched

open SilentVocabulary (admits)

variable {base : Nat} {P : α → Prop}

theorem Tells.still {r : Run α} (h : Steady base P r) : Tells base P (still r) r := by
  intro m hlogging hb
  obtain ⟨-, hyields, -, hcont⟩ := h m m (SilentVocabulary.congruent m) hb
  obtain ⟨records, hlog, hrecords⟩ := hcont.logged
  have hevents : (Watched.still r).events m = records := by
    change ((r.outcome m).2.log.toList.drop m.log.toList.length).filter _ = records
    rw [hlog, List.drop_left]
    exact List.filter_eq_self.2 fun e he => by rw [SilentVocabulary.silent (hrecords e he)]; rfl
  rw [hevents]
  exact ⟨rfl, (yields_iff.1 hyields).1, hcont.base_le, hcont.logging.trans hlogging, hlog⟩

/-- A fault is no event. -/
theorem Tells.throw (e : Fault) : Tells base P (Watched.still (throw e)) (throw e) :=
  .still (Steady.throw (SilentVocabulary.tolerates e))

theorem Tells.pure {a : α} (h : P a) : Tells base P (Watched.still (Pure.pure a)) (Pure.pure a) :=
  .still (Steady.pure h)

theorem Tells.lift (x : Except Fault α) : Tells base (fun _ => True) (Watched.still (liftM x)) (liftM x) :=
  .still (Steady.lift (SilentVocabulary.yields (fun _ => trivial) x))

/-- Calls that are not made. -/
theorem steady_idle : Caller.Steady fun _ _ _ _ => Pure.pure () := fun _ _ _ _ _ _ _ => Steady.pure trivial

section
variable {w : Watched.Caller} {c : StackCalc.Caller} (hc : w.Tells c)
include hc

theorem step_tells {f : Frame} (hf : f.trace = true) (i : Instr) :
    Tells f.view.base (fun _ => True) (step w f i) (StackCalc.step c f i) := by
  -- whether a frame is traced does not matter to the functions that run no code
  let untraced : Frame := { f with trace := false }
  have hidle : ∀ i : Instr, Settles f.view.base (StackCalc.step (fun _ _ _ _ => Pure.pure ()) untraced i) := fun i =>
    step_steady (f := untraced) steady_idle ⟨admits _, fun h => by cases h⟩ fun _ _ => admits _
  cases i with
  | call name args results =>
    have hname : Steady f.view.base Symbol.Admitted (resolve f name) := resolve_steady (admits _) (admits _)
    refine Tells.bind (.still hname) fun s _ => ?_
    cases s with
    | value v => exact hc f v args results hf
    | placeholder name => exact .still (callPlaceholder_steady (admits _) results fun _ _ => admits _)
  | push v => exact .still (hidle (.push v))
  | get name => exact .still (hidle (.get name))
  | binary op => exact .still (hidle (.binary op))
  | unary op => exact .still (hidle (.unary op))
  | closure params body => exact .still (hidle (.closure params body))

theorem runSteps_tells {f : Frame} (hf : f.trace = true) : ∀ steps : List Instr,
    Tells f.view.base (fun _ => True) (runSteps w f steps) (StackCalc.runSteps c f steps)
  | [] => .pure trivial
  | i :: rest => Tells.bind (.mark hf i) fun _ _ => Tells.bind (step_tells hc hf i) fun _ _ => runSteps_tells hf rest

theorem runAside_tells (scope : ScopeId) {traced : Bool} (ht : traced = true) (code : Code) :
    Tells base (fun _ => True) (runAside w scope traced code) (StackCalc.runAside c scope traced code) := by
  have hvalues : Settles 0 (Run.values ⟨scope, View.whole, traced⟩) := Steady.values.mono fun _ _ => trivial
  exact .aside (Tells.bind (runSteps_tells hc (f := ⟨scope, View.whole, traced⟩) ht code.steps) fun _ _ =>
    .still hvalues)

/-! ### Selecting an alternative -/

theorem runGuard_tells (bindings : ScopeId) {traced : Bool} (ht : traced = true) (guard : Code) :
    Tells base (fun _ => True) (runGuard w bindings traced guard) (StackCalc.runGuard c bindings traced guard) := by
  refine Tells.bind (.still (Steady.grow (SilentVocabulary.scope _))) fun scope _ => ?_
  refine Tells.bind (runAside_tells hc scope ht guard) fun vs _ => ?_
  rcases vs with _ | ⟨v, _ | ⟨v', vs⟩⟩
  · exact .throw _
  · exact .pure trivial
  · exact .throw _

theorem selectClause_tells (bindings : ScopeId) {traced : Bool} (ht : traced = true) (fallback : Option Code) :
    ∀ clauses : List (Code × Code), Tells base (fun _ => True) (selectClause w bindings traced fallback clauses)
      (StackCalc.selectClause c bindings traced fallback clauses)
  | [] => .pure trivial
  | (guard, _) :: rest => Tells.bind (runGuard_tells hc bindings ht guard) fun _ _ =>
      Tells.ite (fun _ => .pure trivial) fun _ => selectClause_tells bindings ht fallback rest

theorem selectAction_tells (bindings : ScopeId) {traced : Bool} (ht : traced = true) (p : Pattern) :
    Tells base (fun _ => True) (selectAction w bindings traced p) (p.selectAction c bindings traced) := by
  cases p with
  | plain parts action => exact .pure trivial
  | guarded parts clauses fallback => exact selectClause_tells hc bindings ht fallback clauses

theorem select_tells (env bindings : ScopeId) {traced : Bool} (ht : traced = true) (p : Pattern) (vs : List Value) :
    Tells base (fun _ => True) (select w env bindings traced p vs) (p.select c env bindings traced vs) := by
  refine Tells.get_bind fun m => ?_
  dsimp only
  generalize Matching.outcome (p.accepts (m.scopes.find? env) vs) [] = result
  obtain ⟨accepted, made⟩ := result
  have hmade : ∀ e ∈ made, e.2.Admitted := fun e _ => SilentVocabulary.value e.2
  refine Tells.bind (.still (Steady.putAll (admits _) hmade)) fun _ _ => ?_
  rcases accepted with e | _ | _
  · exact .throw e
  · exact .pure trivial
  · exact selectAction_tells hc bindings ht p

theorem callMatching_tells {f : Frame} (hf : f.trace = true) (scope : ScopeId) (args results : Option Int)
    (total : Nat) : ∀ (index : Nat) (ps : List Pattern), Tells f.view.base (fun _ => True)
      (callMatching w f scope args results total index ps)
      (StackCalc.callMatching c f scope args results total index ps)
  | _, [] => .throw _
  | index, p :: rest => by
    have hrest := callMatching_tells hf scope args results total (index + 1) rest
    unfold callMatching StackCalc.callMatching
    refine Tells.bind (.still Steady.size) fun size _ => Tells.ite (fun _ => ?_) fun _ => hrest
    refine Tells.bind (.still (Steady.sub (admits _))) fun candidates hcandidates => ?_
    refine Tells.bind (.still (Steady.grow (SilentVocabulary.scope _))) fun bindings _ => Tells.get_bind fun m => ?_
    refine Tells.bind (select_tells hc scope bindings hf p _) fun action _ => ?_
    cases action with
    | none => exact hrest
    | some action =>
      have hnote : Settles f.view.base (Run.note (.alternative (index + 1) total)) :=
        Steady.note (Vocabulary.records fun _ _ h => by cases h)
      refine Tells.bind (.still hnote) fun _ _ => Tells.bind (.still (Steady.clear hcandidates)) fun _ _ => ?_
      refine Tells.inner_bind fun frame hframe => ?_
      exact Tells.bind (runSteps_tells hc (hframe.trans hf) action.steps) fun _ _ =>
        .still (Steady.checkResults results)

/-! ### Constructing patterns -/

theorem addPart_tells {f : Frame} (hf : f.trace = true) (builder : Nat) :
    Tells f.view.base (fun _ => True) (addPart w f builder) (StackCalc.addPart c f builder) := by
  refine Tells.bind (.still Steady.pop) fun v _ => Tells.bind (.lift _) fun code _ => ?_
  refine Tells.bind (.still (Steady.grow (SilentVocabulary.scope _))) fun literals _ => ?_
  refine Tells.bind (runAside_tells hc literals hf code) fun vs _ => ?_
  rcases vs with _ | ⟨v, _ | ⟨v', vs⟩⟩
  · exact .throw _
  · exact .still (Steady.bind (findBuilder_steady (admits _)) fun b _ =>
      Steady.bind (Steady.lift (SilentVocabulary.yields SilentVocabulary.builder _)) fun _ hb =>
        setBuilder_steady builder hb)
  · exact .throw _

theorem construct_tells {traced : Bool} (ht : traced = true) (program : Code) :
    Tells base (fun _ => True) (construct w traced program) (StackCalc.construct c traced program) := by
  refine Tells.bind (.still newBuilder_steady) fun builder _ => ?_
  refine Tells.bind (.still (Steady.grow (SilentVocabulary.scope _))) fun scope _ => ?_
  refine Tells.bind (runAside_tells hc scope ht program) fun vs _ => ?_
  rcases vs with _ | ⟨v, vs⟩
  · exact .still (Steady.bind (findBuilder_steady (admits _)) fun b _ =>
      Steady.lift (SilentVocabulary.yields (fun _ => trivial) _))
  · exact .throw _

/-! ### Calls -/

omit hc in
theorem callFixed_tells {f : Frame} (takes gives : Nat) (args results : Option Int) {body : Watched Unit}
    {body' : Run Unit} (h : Tells f.view.base (fun _ => True) body body') : Tells f.view.base (fun _ => True)
      (callFixed f takes gives args results body) (StackCalc.callFixed f takes gives args results body') := by
  have hwants : ∀ (declared : Option Int) (count : Int) (fault : Int → Fault),
      Settles f.view.base (Run.wants declared count fault) := fun declared count fault =>
    Steady.wants declared count fun _ => SilentVocabulary.tolerates _
  rw [callFixed_eq]
  refine Tells.bind (.still (hwants _ _ _)) fun _ _ => Tells.bind (.still (hwants _ _ _)) fun _ _ => ?_
  refine Tells.bind (.still Steady.size) fun before _ => Tells.ite (fun _ => .throw _) fun _ => ?_
  refine Tells.bind h fun _ _ => Tells.bind (.still Steady.size) fun after _ => ?_
  exact Tells.ite (fun _ => .throw _) fun _ => .pure trivial

theorem callWithMembers_tells {f : Frame} (hf : f.trace = true) (args results : Option Int) :
    Tells f.view.base (fun _ => True) (callWithMembers w f args results)
      (StackCalc.callWithMembers c f args results) := by
  refine callFixed_tells 2 1 args results ?_
  refine Tells.bind (.still Steady.pop) fun v _ => Tells.bind (.lift _) fun code _ => ?_
  refine Tells.bind (.still Steady.pop) fun target _ => ?_
  cases target.members? with
  | none => exact .throw _
  | some members =>
    have hmembers : ∀ e ∈ members.toList, e.2.Admitted := fun e _ => SilentVocabulary.value e.2
    refine Tells.bind (.still (Steady.grow (SilentVocabulary.scope _))) fun scope _ => ?_
    refine Tells.bind (.still (Steady.putAll (admits _) hmembers)) fun _ _ => ?_
    refine Tells.bind (runAside_tells hc scope hf code) fun vs _ => ?_
    rcases vs with _ | ⟨v, _ | ⟨v', vs⟩⟩
    · exact .throw _
    · exact .still (Steady.push (SilentVocabulary.value v))
    · exact .throw _

theorem callPattern_tells {f : Frame} (hf : f.trace = true) (args results : Option Int) :
    Tells f.view.base (fun _ => True) (callPattern w f args results) (StackCalc.callPattern c f args results) := by
  refine callFixed_tells 1 1 args results ?_
  refine Tells.bind (.still Steady.pop) fun v _ => Tells.bind (.lift _) fun program _ => ?_
  refine Tells.bind (construct_tells hc hf program) fun p _ => .still ?_
  exact Steady.bind (Steady.object fun _ _ _ => admits _) fun v hv => Steady.push hv

theorem callApply_tells {f : Frame} (hf : f.trace = true) (args results : Option Int) :
    Tells f.view.base (fun _ => True) (callApply w f args results) (StackCalc.callApply c f args results) := by
  cases args with
  | none => exact .throw _
  | some n =>
    rw [callApply_some]
    refine Tells.ite (fun _ => .throw _) fun _ => Tells.bind (.still (Steady.take (admits _))) fun vs _ => ?_
    cases vs with
    | nil => exact .throw _
    | cons target given =>
      have hgiven : ∀ v ∈ given, v.Admitted := fun v _ => SilentVocabulary.value v
      exact Tells.bind (.still (Steady.pushAll hgiven)) fun _ _ => hc f target _ results hf

theorem callExecute_tells {f : Frame} (hf : f.trace = true) (args results : Option Int) :
    Tells f.view.base (fun _ => True) (callExecute w f args results) (StackCalc.callExecute c f args results) := by
  rw [callExecute_eq]
  refine Tells.bind (.still (Steady.wants _ _ fun _ => SilentVocabulary.tolerates _)) fun _ _ => ?_
  refine Tells.bind (.still Steady.pop) fun v _ => Tells.bind (.lift _) fun code _ => ?_
  refine Tells.inner_bind fun frame hframe => ?_
  exact Tells.bind (runSteps_tells hc (hframe.trans hf) code.steps) fun _ _ => .still (Steady.checkResults results)

theorem callClosure_tells {f : Frame} (hf : f.trace = true) (params : List Text) (body : List Instr) (scope : ScopeId)
    (args results : Option Int) : Tells f.view.base (fun _ => True) (callClosure w f params body scope args results)
      (StackCalc.callClosure c f params body scope args results) := by
  rw [callClosure_eq]
  refine Tells.bind (.still (Steady.wants _ _ fun _ => SilentVocabulary.tolerates _)) fun _ _ => ?_
  refine Tells.inner_bind fun frame hframe => Tells.bind (.still Steady.values) fun given _ => ?_
  have hparams : ∀ e ∈ params.zip given, e.2.Admitted := fun e _ => SilentVocabulary.value e.2
  refine Tells.bind (.still (Steady.clear (Nat.le_refl _))) fun _ _ => ?_
  refine Tells.bind (.still (Steady.putAll (admits _) hparams)) fun _ _ => ?_
  exact Tells.bind (runSteps_tells hc (hframe.trans hf) body) fun _ _ => .still (Steady.checkResults results)

theorem callBuiltin_tells {f : Frame} (hf : f.trace = true) (b : Builtin) (args results : Option Int) :
    Tells f.view.base (fun _ => True) (callBuiltin w f b args results) (StackCalc.callBuiltin c f b args results) := by
  cases b with
  | apply => exact callApply_tells hc hf args results
  | withMembers => exact callWithMembers_tells hc hf args results
  | execute => exact callExecute_tells hc hf args results
  | pattern => exact callPattern_tells hc hf args results
  | define => exact .still (callDefine_steady (admits _) args results)
  | list => exact .still (callList_steady results fun _ _ => admits _)
  | print => exact .still (callPrint_steady results fun _ _ => admits _)
  | struct => exact .still (callStruct_steady results fun _ _ => admits _)
  | matchSymbol => exact .still (callMatch_steady (admits _) args results)
  | bool | car | cdr | cons | float | int | str | template | type =>
    exact .still (callPure_steady _ 1 args results fun _ _ _ =>
      SilentVocabulary.yields (fun _ _ _ => SilentVocabulary.value _) _)

theorem callCallable_tells {f : Frame} (hf : f.trace = true) (args results : Option Int) (h : Callable) :
    Tells f.view.base (fun _ => True) (callCallable w f args results h)
      (StackCalc.callCallable c f args results h) := by
  let untraced : Frame := { f with trace := false }
  have hidle : Settles f.view.base (StackCalc.callCallable (fun _ _ _ _ => Pure.pure ()) untraced args results h) :=
    callCallable_steady (f := untraced) steady_idle ⟨admits _, fun h => by cases h⟩ (fun _ _ => admits _) results
      fun _ _ => admits _
  cases h with
  | builtin b => exact callBuiltin_tells hc hf b args results
  | closure serial params body scope => exact callClosure_tells hc hf params body scope args results
  | matching serial scope patterns => exact callMatching_tells hc hf scope args results patterns.length 0 patterns
  | addPart builder => exact callFixed_tells 1 0 args results (addPart_tells hc hf builder)
  | native serial index name takes gives => exact .still hidle
  | shuffle serial index => exact .still hidle
  | counter serial => exact .still hidle
  | addGuarded builder => exact .still hidle
  | addDefault builder => exact .still hidle

theorem callWith_tells : Caller.Tells (callWith w) (StackCalc.callWith c) := by
  intro f v args results hf
  by_cases h : ∃ h, v.payload = .callable h
  · obtain ⟨h, hp⟩ := h
    unfold callWith StackCalc.callWith
    rw [hp]
    exact callCallable_tells hc hf args results h
  · have hother : Settles f.view.base (StackCalc.callWith c f v args results) :=
      callOther_steady c (SilentVocabulary.value v) (not_exists.1 h) results fun _ _ => admits _
    have hsame : callWith w f v args results = still (StackCalc.callWith c f v args results) := by
      unfold callWith
      split
      next h' hp => exact absurd ⟨h', hp⟩ h
      next => exact congrArg still (callWith_of_not_callable (not_exists.1 h) _ c f args results)
    rw [hsame]
    exact .still hother

end

theorem callAt_tells : ∀ depth : Nat, Caller.Tells (callAt depth) (StackCalc.callAt depth)
  | 0 => fun _ _ _ _ _ => .throw _
  | depth + 1 => callWith_tells (callAt_tells depth)

end Watched

/-- Code in an untraced frame logs no steps. -/
theorem exists_log_untraced (depth : Nat) (f : Frame) (steps : List Instr) {m : Machine}
    (hf : f.view.base ≤ m.storage.length) : ∃ records : List Event,
      ((runSteps (callAt depth) { f with trace := false } steps).outcome m).2.log.toList = m.log.toList ++ records ∧
        ∀ e ∈ records, e.isStep = false := by
  have hsteady : Settles f.view.base (runSteps (callAt depth) { f with trace := false } steps) :=
    runSteps_steady (f := { f with trace := false }) (steady_callAt depth)
      ⟨SilentVocabulary.admits _, fun h => by cases h⟩ fun _ _ _ _ => SilentVocabulary.admits _
  obtain ⟨records, hlog, hrecords⟩ :=
    (hsteady m m (SilentVocabulary.congruent m) hf).continues.logged
  exact ⟨records, hlog, fun e he => SilentVocabulary.silent (hrecords e he)⟩

end

/-- Whether a frame is traced changes nothing but the steps in the log. -/
theorem runSteps_untraced (depth : Nat) (f : Frame) (steps : List Instr) (m : Machine) :
    let on := (runSteps (callAt depth) { f with trace := true } steps).outcome m
    let off := (runSteps (callAt depth) { f with trace := false } steps).outcome m
    on.1 = off.1 ∧ on.2 = { off.2 with log := on.2.log } ∧
      (on.2.log.toList.filter fun e => !e.isStep) = off.2.log.toList.filter fun e => !e.isStep := by
  let keep : Event → Bool := fun e => !e.isStep
  have hframe : Frame.RestsOn [] keep { f with trace := true } { f with trace := false } :=
    ⟨rfl, rfl, .inr fun _ _ => rfl⟩
  have hmachine : m.RestsOn [] keep m := { Machine.Agrees.refl keep m with storage := (List.append_nil _).symm }
  have halike := runSteps_alike (isolated_callAt keep depth) hframe steps m m hmachine
  dsimp only
  generalize (runSteps (callAt depth) { f with trace := true } steps).outcome m = on at halike ⊢
  generalize (runSteps (callAt depth) { f with trace := false } steps).outcome m = off at halike ⊢
  cases halike with
  | result h => exact ⟨by rw [h.1], h.2.eq_but_log, h.2.log⟩
  | fault h => exact ⟨rfl, h.eq_but_log, h.log⟩

/-- **Tracing is transparent and complete**, for all code on every machine that keeps a log. With the frame traced
and untraced, the run ends in the same way, with the same stack, scopes, output and all the rest. The traced run
logs its chronicle, in which every step that it takes stands once, before what happens while it is taken: steps
in closures, blocks, guards, actions and the construction of patterns among them. The untraced run logs the same
without the steps. -/
theorem runSteps_traced (depth : Nat) (f : Frame) (steps : List Instr) {m : Machine} (hlogging : m.logging = true)
    (hf : f.view.base ≤ m.storage.length) :
    let watched := Watched.runSteps (Watched.callAt depth) { f with trace := true } steps
    let on := (runSteps (callAt depth) { f with trace := true } steps).outcome m
    let off := (runSteps (callAt depth) { f with trace := false } steps).outcome m
    watched.run.outcome m = on ∧
      (on.1 = off.1 ∧ on.2 = { off.2 with log := on.2.log }) ∧
      on.2.log.toList = m.log.toList ++ watched.events m ∧
      off.2.log.toList = m.log.toList ++ (watched.events m).filter fun e => !e.isStep := by
  let _ := SilentVocabulary.plain
  intro watched on off
  obtain ⟨hsame, -, -, -, hlog⟩ :=
    Watched.runSteps_tells (f := { f with trace := true }) (Watched.callAt_tells depth) rfl steps m hlogging hf
  obtain ⟨hresult, hrest, hfilter⟩ := runSteps_untraced depth f steps m
  obtain ⟨records, hoff, hsilent⟩ := exists_log_untraced depth f steps hf
  refine ⟨hsame, ⟨hresult, hrest⟩, hlog, ?_⟩
  rw [hlog, hoff, List.filter_append, List.filter_append] at hfilter
  rw [hoff, List.append_cancel_left hfilter]
  exact congrArg _ (List.filter_eq_self.2 fun e he => by rw [hsilent e he]; rfl).symm

/-- A function that is called: the step of its body is in the log. -/
theorem runSteps_traced_closure :
    let seven : Value := .own (.int 7)
    let function : Value := .own (.callable (.closure 1 [] [.push seven] globalScope))
    let m : Machine := { Machine.empty with scopes := ⟨#[.root [("f", function)]]⟩, logging := true }
    let f : Frame := ⟨globalScope, View.whole, false⟩
    let steps : List Instr := [.push seven, .call "f" (some 0) (some 1)]
    let on := (runSteps (callAt 1) { f with trace := true } steps).outcome m
    let off := (runSteps (callAt 1) { f with trace := false } steps).outcome m
    m.logging = true ∧ f.view.base ≤ m.storage.length ∧ on.1 = off.1 ∧
      on.2.log.toList = [.step (.push seven) [], .step (.call "f" (some 0) (some 1)) [seven], .step (.push seven) []] ∧
      off.2.log.toList = [] ∧ off.2.storage = [seven, seven] := by
  intro seven function m f steps on off
  have hlogging : m.logging = true := rfl
  obtain ⟨-, ⟨hresult, -⟩, hon, hoff⟩ := runSteps_traced 1 f steps hlogging (Nat.zero_le _)
  exact ⟨hlogging, Nat.zero_le _, hresult, hon.trans rfl, hoff.trans rfl, rfl⟩

end StackCalc
