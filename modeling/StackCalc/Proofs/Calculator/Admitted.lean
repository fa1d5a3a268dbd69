import StackCalc.Proofs.Calculator.Globals
import StackCalc.Proofs.Machine.Steady
import StackCalc.Proofs.Wire.Decoding

/-! # Calculators that hold admitted values

A calculator that is asked for admitted things only holds admitted values only (`Reached.admitted`): whatever is
defined in it, run, matched or loaded into it, and however that ends. Its host looks up any name in any scope,
and traces as it likes, so all of this has to be admitted (`OpenVocabulary`). Two kinds of request get their
values from outside, by reading: a text of data, and a record. What is read there is made of scalars and pairs. -/

namespace StackCalc

open Calculation (Keeps)
open Run (Steady Settles)
open Vocabulary (Admits)

namespace Calculator

variable [Vocabulary]

/-- The constants are admitted, whatever is. -/
theorem admitted_constants : ∀ e ∈ constants, e.2.Admitted := by
  unfold constants
  simp only [List.forall_mem_cons]
  exact ⟨Value.Hereditary.own rfl, Value.Hereditary.own rfl, Value.Hereditary.own rfl, fun _ h => by cases h⟩

/-- The builtin functions mention nothing, so the standard names are admitted. -/
theorem admitted_standardNames : ∀ e ∈ standardNames, e.2.Admitted := by
  have hbuiltins : ∀ bs : List Builtin, ∀ e ∈ bs.map Calculator.bind, e.2.Admitted := by
    intro bs e he
    obtain ⟨b, _, rfl⟩ := List.mem_map.1 he
    exact Value.admitted_own fun x hx => by cases hx
  unfold standardNames
  exact List.forall_mem_append.2 ⟨List.forall_mem_append.2 ⟨hbuiltins _, admitted_constants⟩, hbuiltins _⟩

end Calculator

/-- A vocabulary that admits all names, scopes and patterns under construction, and the tracing of steps. -/
class OpenVocabulary extends Vocabulary where
  name (s : Text) : Admits (.name s)
  scope (id : ScopeId) : Admits (.scope id)
  builder (id : Nat) : Admits (.builder id)
  step (i : Instr) (stack : List Value) : Records (.step i stack)

variable [OpenVocabulary]

theorem mayTrace (traced : Bool) : MayTrace traced := fun _ => OpenVocabulary.step

theorem Frame.admitted (f : Frame) : f.Admitted := ⟨OpenVocabulary.scope _, mayTrace _⟩

/-- A machine that admitted code may run on. -/
def Machine.Admitted (m : Machine) : Prop := m.Congruent m

/-! ### Admitted requests -/

/-- A function to be called from outside: a name, or an admitted value. -/
def Calculator.Target.Admitted : Calculator.Target → Prop
  | .name _ => True
  | .value v => v.Admitted

/-- A program whose steps are admitted, if it can be compiled. -/
def Program.Admitted (p : Program) : Prop := ∀ steps, p.compile = .ok steps → ∀ i ∈ steps, i.Admitted

/-- **A request that brings nothing into a calculator that is not admitted.** -/
def Request.Admitted : Request → Prop
  | register f => f.fn.Lawful ∧ ∀ i, Admits (.host i)
  | shuffle _ => ∀ i, Admits (.host i)
  | define _ d | value d | leaf d => d.Holds Value.Admitted
  | evaluate p | execute p | literal p => p.Admitted
  | call target args _ => target.Admitted ∧ ∀ d ∈ args, d.Holds Value.Admitted
  | invoke fn stack args _ =>
    fn.Admitted ∧ (∀ v ∈ stack, v.Admitted) ∧ ∀ n, args = some n → Admits (.count n)
  | stepwise steps stack => (∀ i ∈ steps, i.Admitted) ∧ ∀ v ∈ stack, v.Admitted
  | matchPart _ v => v.Admitted
  | matchPattern p vs => p.Admitted ∧ ∀ v ∈ vs, v.Admitted
  | codecs _ | tree _ | text .. | callOf .. | block _ | code _ | dump _ | load _ => True

/-- All values that a calculator holds are admitted. -/
def Calculator.Admitted (c : Calculator) : Prop := c.machine.Admitted

/-- A run that leaves an admitted machine admitted. -/
def Run.Harmless {α : Type} (r : Run α) : Prop := ∀ m : Machine, m.Admitted → (r.outcome m).2.Admitted

namespace Run.Harmless

variable {α β : Type}

theorem of_steady {P : α → Prop} {r : Run α} (h : Steady 0 P r) : Harmless r :=
  fun m hm => (h m m hm (Nat.zero_le _)).congruent

theorem bind {P : α → Prop} {r : Run α} {k : α → Run β} (h : Steady 0 P r) (hk : ∀ a, P a → Harmless (k a)) :
    Harmless (r >>= k) := by
  intro m hm
  have hr := h m m hm (Nat.zero_le _)
  rw [outcome_bind]
  rcases ho : r.outcome m with ⟨e | a, m'⟩ <;> rw [ho] at hr
  · exact hr.congruent
  · exact hk a hr.yields.of_ok m' hr.congruent

/-- What is read of the machine in the end does not matter. -/
theorem get_bind {k : Machine → Run α} (h : ∀ m, Harmless (k m)) : Harmless (get >>= k) := fun m hm => h m m hm

/-- What is computed first may end in any fault: that changes nothing. -/
theorem lift_bind {x : Except Fault α} {k : α → Run β} (h : ∀ a, Harmless (k a)) : Harmless (liftM x >>= k) := by
  rcases x with e | a
  · exact fun _ hm => hm
  · exact h a

end Run.Harmless

/-! ### Runs from outside -/

namespace Run.Steady

variable {base : Nat}

theorem toValue {d : Data} (h : d.Holds Value.Admitted) : Steady base Value.Admitted (Calculator.toValue d) := by
  unfold Calculator.toValue
  refine bind (P := Value.Admitted) (lift ?_) fun v hv => ?_
  · split
    · exact Data.yields_toValueList 0 _
    · exact Data.yields_toValueList 0 _
    · exact Data.yields_toValueList 0 _
    · exact Domain.yields_wrap 0 _ h
  · split
    · exact pure hv
    · exact distinguishAll hv

theorem ofData (d : Data) : Settles base (Calculator.ofData d) :=
  bind (lift (d.yields_toValue 0)) fun _ hv => (distinguishAll hv).mono fun _ _ => trivial

theorem lookup (name : Text) : Steady base Value.Admitted (Calculator.lookup name) := by
  refine bind (find? (OpenVocabulary.scope _) (OpenVocabulary.name _)) fun found hfound => ?_
  split
  next => exact pure (hfound (.value _) rfl)
  next => exact fault rfl

theorem define (name : Text) {d : Data} (h : d.Holds Value.Admitted) :
    Steady base Value.Admitted (Calculator.define name d) :=
  bind (toValue h) fun _ hv => bind (put (OpenVocabulary.scope _) name hv) fun _ _ => pure hv

theorem resolveTarget {t : Calculator.Target} (h : t.Admitted) : Steady base Value.Admitted t.resolve := by
  cases t with
  | name s => exact lookup s
  | value v => exact pure h

theorem runAside (scope : ScopeId) (traced : Bool) {code : Code} (h : code.Admitted) :
    Steady base (fun vs => ∀ v ∈ vs, v.Admitted) (runAside call scope traced code) :=
  runAside_steady (steady_callAt depthLimit) (OpenVocabulary.scope scope) (mayTrace traced) h

theorem onStack {start : List Value} (h : ∀ v ∈ start, v.Admitted) (traced : Bool) (scope : ScopeId)
    {body : Frame → Run Unit} (hbody : ∀ f : Frame, Settles f.view.base (body f)) :
    Steady base (fun r => ∀ v ∈ r.2, v.Admitted) (Calculator.onStack start traced scope body) := by
  unfold Calculator.onStack
  refine aside (bind (pushAll h) fun _ _ => bind (tryCatch (P := fun _ => True) ?_ fun _ => pure trivial) fun _ _ => ?_)
  · exact bind (hbody ⟨scope, .whole, traced⟩) fun _ _ => pure trivial
  · exact bind values fun vs hvs => pure hvs

theorem stepwise (traced : Bool) : ∀ {steps : List Instr}, (∀ i ∈ steps, i.Admitted) → ∀ {stack : List Value},
    (∀ v ∈ stack, v.Admitted) → Settles base (Calculator.stepwise traced steps stack)
  | [], _, _, _ => pure trivial
  | i :: rest, h, stack, hstack => by
    obtain ⟨hi, hrest⟩ := List.forall_mem_cons.1 h
    refine bind (onStack hstack traced globalScope fun f => ?_) fun result hresult => ?_
    · exact runSteps_steady (steady_callAt depthLimit) f.admitted (List.forall_mem_singleton.2 hi)
    · refine ite (fun _ => pure trivial) fun _ => ?_
      exact bind (stepwise traced hrest hresult) fun _ _ => pure trivial

theorem lookupFrom : ∀ (names : List Text) (found : Bindings), Settles base (Calculator.lookupFrom names found)
  | [], _ => pure trivial
  | name :: names, _ => bind (lookup name) fun _ _ => lookupFrom names _

end Run.Steady

namespace Run.Harmless

theorem withBindings {α : Type} {body : ScopeId → Run α} (h : ∀ id, Settles 0 (body id)) :
    Harmless (Calculator.withBindings body) := by
  refine bind (Steady.grow (.layer (OpenVocabulary.scope _) Bindings.congruent_nil)) fun scope _ => ?_
  refine bind (Steady.tryCatch (P := fun _ => True) ?_ fun _ => Steady.pure trivial) fun _ _ => ?_
  · exact Steady.bind (h scope) fun _ _ => Steady.pure trivial
  · exact get_bind fun _ => of_steady (Steady.pure (P := fun _ => True) trivial)

theorem matchPart (part : Part) {v : Value} (h : v.Admitted) :
    Harmless (Calculator.matchPart part v) := by
  refine withBindings fun scope => Steady.get_bind fun m n hmn => ⟨?_, ?_⟩
  · have hsame : part.accepts (m.scopes.find? globalScope) v = part.accepts (n.scopes.find? globalScope) v :=
      part.accepts_congr (fun name _ => hmn.scopes.find? (OpenVocabulary.scope _) (OpenVocabulary.name name)) v
    dsimp only
    rw [hsame]
  · have haccepts := part.steady_accepts (m.scopes.find? globalScope) h
    have hends := haccepts.ends [] fun _ h => by cases h
    have hbound := haccepts.bound [] fun _ h => by cases h
    dsimp only
    generalize Matching.outcome (part.accepts (m.scopes.find? globalScope) v) [] = result at hends hbound
    obtain ⟨accepted, made⟩ := result
    exact Steady.bind (Steady.putAll (OpenVocabulary.scope _) hbound) fun _ _ => Steady.lift hends

end Run.Harmless

/-! ### What is read from a record -/

/-- What is made of scalars and pairs is admitted. -/
theorem Value.Same.admitted {v w : Value} (h : v.Same w) : v.Admitted := by
  induction h with
  | int | float | str | bool | null => exact Value.Hereditary.scalar _ rfl
  | cons _ _ _ _ ha hb => exact Value.Hereditary.cons.2 ⟨ha, hb⟩

theorem Wire.admitted_of_readRecord {table : CodecTable} {d : DomainId} {bytes rest : Bytes} {size : Nat}
    {found : Bindings}
    (h : (readRecord (· == ·) readText (readValue table d)).outcome bytes = (.ok (size, found), rest)) :
    ∀ e ∈ found, e.2.Admitted := by
  obtain ⟨entries, -, rfl, _, -, hentries⟩ := readRecord_eq_ok_iff.1 h
  intro e he
  exact (List.forall₂_same.1 hentries.same_putAll e he).2.admitted

/-- The entries of a record get their cells. -/
theorem Run.Steady.distinguishEntries {base : Nat} : ∀ {found : Bindings}, (∀ e ∈ found, e.2.Admitted) →
    Steady base (fun store => ∀ e ∈ store, e.2.Admitted) (found.mapM distinguishEntry)
  | [], _ => pure fun _ h => by cases h
  | (name, v) :: found, h => by
    obtain ⟨hv, hfound⟩ := List.forall_mem_cons.1 h
    rw [List.mapM_cons]
    refine bind (P := fun e => e.2.Admitted) (bind (distinguishAll hv) fun w hw => pure hw) fun e he => ?_
    exact bind (distinguishEntries hfound) fun store hstore => pure (List.forall_mem_cons.2 ⟨he, hstore⟩)

/-! ### Admitted requests keep a calculator admitted -/

theorem keeps_admitted_run {α : Type} {r : Run α} (h : Run.Harmless r) :
    Keeps Calculator.Admitted (Calculation.onMachine r) := fun c hc => h c.machine hc

theorem keeps_admitted_steady {α : Type} {P : α → Prop} {r : Run α} (h : Steady 0 P r) :
    Keeps Calculator.Admitted (Calculation.onMachine r) := keeps_admitted_run (.of_steady h)

theorem keeps_admitted_run_bind {α β : Type} {P : α → Prop} {r : Run α} (h : Steady 0 P r)
    {k : α → Calculation β} (hk : ∀ a, P a → Keeps Calculator.Admitted (k a)) :
    Keeps Calculator.Admitted ((liftM r : Calculation α) >>= k) := by
  intro c hc
  have hr := h c.machine c.machine hc (Nat.zero_le _)
  rcases ho : r.outcome c.machine with ⟨e | a, m⟩ <;> rw [ho] at hr
  · rw [Calculation.outcome_bind_of_error (Calculation.outcome_run_of_eq ho)]
    exact hr.congruent
  · rw [Calculation.outcome_bind_of_ok (Calculation.outcome_run_of_eq ho)]
    exact hk a hr.yields.of_ok _ hr.congruent

/-- A request that is a run, and whose result does not matter. -/
theorem keeps_admitted_discard {α : Type} {P : α → Prop} {r : Run α} (h : Steady 0 P r) :
    Keeps Calculator.Admitted (do let _ ← Calculation.onMachine r; return) := Keeps.discard (keeps_admitted_steady h)

/-- Any record may be logged. -/
theorem Run.Steady.noteAny (e : Event) {base : Nat} : Settles base (Run.note e) := by
  refine Steady.note ?_
  cases e with
  | step i stack => exact OpenVocabulary.step i stack
  | _ => exact Vocabulary.records fun _ _ h => by cases h

/-- The functions of a host are added one by one. -/
theorem keeps_admitted_register {f : HostFunction} (hf : f.fn.Lawful) (hhost : ∀ i, Admits (.host i)) :
    Keeps Calculator.Admitted (Calculation.onMachine (Calculator.register f)) := by
  intro c hc
  have hname : Settles 0 (do
      let v ← Run.callable fun serial => .native serial c.machine.natives.size f.name f.args f.results
      Run.put globalScope f.name v) :=
    Steady.bind (Steady.callable fun serial => List.forall_mem_singleton.2 (hhost _)) fun v hv =>
      Steady.put (OpenVocabulary.scope _) f.name hv
  refine Run.Harmless.of_steady hname { c.machine with natives := c.machine.natives.push f.fn }
    { hc with natives := rfl, lawful := fun i fn hi hfn => ?_ }
  rw [Array.getElem?_push] at hfn
  split_ifs at hfn
  · cases hfn
    exact hf
  · exact hc.lawful i fn hi hfn

theorem keeps_admitted_loadCodecs (entries : List (Data × Data)) :
    Keeps Calculator.Admitted (Calculator.loadCodecs entries) := by
  refine Keeps.current_bind fun c => ?_
  rcases c.codecs.load entries with ⟨result, table⟩
  refine Keeps.bind (Keeps.change fun c' hc' => hc') fun _ => ?_
  exact Keeps.bind (Keeps.lift result) fun _ => keeps_admitted_steady (Steady.noteAny _)

theorem keeps_admitted_runProgram {p : Program} (h : p.Admitted) :
    Keeps Calculator.Admitted (Calculator.runProgram p) := by
  refine Keeps.lift_bind fun steps hsteps => Keeps.current_bind fun c => ?_
  exact keeps_admitted_steady (Steady.runAside globalScope c.traced (Code.admitted_mk [] (h steps hsteps)))

theorem keeps_admitted_evaluate {p : Program} (h : p.Admitted) : Keeps Calculator.Admitted (Calculator.evaluate p) := by
  refine Keeps.bind (keeps_admitted_runProgram h) fun vs => ?_
  split
  · exact Keeps.pure _
  · exact Keeps.throw _

theorem keeps_admitted_execute {p : Program} (h : p.Admitted) : Keeps Calculator.Admitted (Calculator.execute p) := by
  have heffects : Keeps Calculator.Admitted Calculator.effects := Keeps.current_bind fun c => Keeps.pure _
  rw [Calculator.execute_eq]
  refine Keeps.bind (Keeps.change fun c hc => { hc with effects := rfl }) fun _ => Keeps.tryCatch ?_ fun f => ?_
  · exact Keeps.bind (keeps_admitted_runProgram h) fun vs => Keeps.bind heffects fun _ => Keeps.pure _
  · refine Keeps.ite ?_ (Keeps.throw f)
    refine Keeps.bind (keeps_admitted_steady (Steady.noteAny _)) fun _ => Keeps.bind (fun c hc => ?_) fun _ => ?_
    · exact { hc with effects := rfl }
    · exact Keeps.bind heffects fun _ => Keeps.pure _

theorem keeps_admitted_callTarget {target : Calculator.Target} (htarget : target.Admitted) {args : List Data}
    (hargs : ∀ d ∈ args, d.Holds Value.Admitted) (results : Option Int) :
    Keeps Calculator.Admitted (Calculator.callTarget target args results) := by
  refine Keeps.current_bind fun c => keeps_admitted_steady (P := fun _ => True) ?_
  refine Steady.bind (Steady.resolveTarget htarget) fun fn hfn => Steady.aside ?_
  have hpush : ∀ d ∈ args, Settles 0 (do Run.push (← Calculator.toValue d)) := fun d hd =>
    Steady.bind (Steady.toValue (hargs d hd)) fun v hv => Steady.push hv
  let f : Frame := ⟨globalScope, .whole, c.traced⟩
  have hcall : Settles 0 (call f fn (some args.length) results) :=
    steady_callAt depthLimit f fn (some args.length) results f.admitted hfn fun n hn => by
      cases hn
      exact Vocabulary.count _
  exact Steady.bind (Steady.forM hpush) fun _ _ => Steady.bind hcall fun _ _ => Steady.values.mono fun _ _ => trivial

theorem keeps_admitted_invoke {fn : Value} (hfn : fn.Admitted) {stack : List Value} (hstack : ∀ v ∈ stack, v.Admitted)
    {args : Option Int} (hargs : ∀ n, args = some n → Admits (.count n)) (results : Option Int) :
    Keeps Calculator.Admitted (Calculator.invoke fn stack args results) :=
  Keeps.current_bind fun c => keeps_admitted_steady (Steady.onStack hstack c.traced globalScope fun f =>
    steady_callAt depthLimit f fn args results f.admitted hfn hargs)

theorem keeps_admitted_literal {p : Program} (h : p.Admitted) : Keeps Calculator.Admitted (Calculator.literal p) := by
  refine Keeps.lift_bind fun steps hsteps => ?_
  refine Keeps.bind (keeps_admitted_steady (Steady.grow (.literal (OpenVocabulary.scope _)))) fun scope => ?_
  refine Keeps.bind (keeps_admitted_steady (Steady.runAside scope false (Code.admitted_mk [] (h steps hsteps))))
    fun vs => ?_
  split
  · exact Keeps.pure _
  · exact Keeps.throw _

theorem keeps_admitted_dumpGlobals (names : List Text) :
    Keeps Calculator.Admitted (Calculator.dumpGlobals names) := by
  unfold Calculator.dumpGlobals
  rw [Calculator.lookupAll_eq]
  exact Keeps.bind (keeps_admitted_steady (Steady.lookupFrom names [])) fun _ =>
    Keeps.current_bind fun _ => Keeps.pure _

theorem keeps_admitted_installRecord (size : Nat) {found : Bindings} (h : ∀ e ∈ found, e.2.Admitted) :
    Keeps Calculator.Admitted (Calculator.installRecord size found) := by
  refine keeps_admitted_run_bind (Steady.distinguishEntries h) fun store hstore => ?_
  refine Keeps.bind (keeps_admitted_steady (Steady.noteAny _)) fun _ => ?_
  refine Keeps.bind (keeps_admitted_steady (Steady.noteAny _)) fun _ => ?_
  exact Keeps.bind (keeps_admitted_steady (Steady.putAll (OpenVocabulary.scope _) hstore)) fun _ => Keeps.pure _

theorem keeps_admitted_loadGlobals (bytes : Wire.Bytes) : Keeps Calculator.Admitted (Calculator.loadGlobals bytes) := by
  intro c hc
  rw [Calculator.outcome_loadGlobals]
  rcases hread : (Wire.readRecord (· == ·) Wire.readText (Wire.readValue c.codecs 0)).outcome bytes with
    ⟨f | ⟨size, found⟩, rest⟩
  · exact hc
  · have hinstall := keeps_admitted_installRecord size (Wire.admitted_of_readRecord hread)
    exact Keeps.bind hinstall (fun store => Keeps.pure (store, rest)) c hc

/-- **No admitted request brings in what is not admitted**, however it ends. -/
theorem keeps_admitted_perform {r : Request} (h : r.Admitted) : Keeps Calculator.Admitted r.perform := by
  cases r with
  | codecs entries => exact keeps_admitted_loadCodecs entries
  | define name d => exact keeps_admitted_discard (Steady.define name h)
  | register f => exact keeps_admitted_register h.1 h.2
  | shuffle s =>
    refine Keeps.discard fun c hc => ?_
    have hmake : Steady 0 Value.Admitted (Run.callable fun serial => .shuffle serial c.machine.shuffles.size) :=
      Steady.callable fun serial => List.forall_mem_singleton.2 (h _)
    exact Run.Harmless.of_steady hmake { c.machine with shuffles := c.machine.shuffles.push s }
      { hc with shuffles := rfl }
  | value d => exact keeps_admitted_discard (Steady.toValue h)
  | tree d => exact keeps_admitted_discard (Steady.ofData d)
  | text t format =>
    refine Keeps.discard ?_
    unfold deserialize
    dsimp only
    split
    · exact keeps_admitted_run (.lift_bind fun d => .of_steady (Steady.ofData d))
    · exact fun _ hc => hc
  | leaf d =>
    refine keeps_admitted_discard (P := fun _ => True)
      (Steady.bind (Steady.lift (Domain.yields_wrap 0 _ h)) fun v hv => ?_)
    split
    · exact Steady.pure trivial
    · exact Steady.bind (Steady.distinguish hv) fun _ _ => Steady.pure trivial
  | callOf name args =>
    refine Keeps.discard ?_
    unfold Build.call
    split_ifs
    · exact keeps_admitted_run (.bind Steady.fresh fun _ _ => fun _ hm => hm)
    · exact fun _ hc => hc
  | block body =>
    have hblock : Settles 0 (Build.block body) := Steady.bind Steady.fresh fun _ _ => Steady.pure trivial
    exact keeps_admitted_discard hblock
  | code steps =>
    have hcode : Settles 0 (Build.code steps) := Steady.bind Steady.fresh fun _ _ => Steady.pure trivial
    exact keeps_admitted_discard hcode
  | evaluate p => exact Keeps.discard (keeps_admitted_evaluate h)
  | execute p => exact Keeps.discard (keeps_admitted_execute h)
  | call target args results => exact Keeps.discard (keeps_admitted_callTarget h.1 h.2 results)
  | invoke fn stack args results => exact Keeps.discard (keeps_admitted_invoke h.1 h.2.1 h.2.2 results)
  | stepwise steps stack =>
    exact Keeps.current_bind fun c => keeps_admitted_discard (Steady.stepwise c.traced h.1 h.2)
  | literal p => exact Keeps.discard (keeps_admitted_literal h)
  | matchPart part v => exact Keeps.discard (keeps_admitted_run (.matchPart part h))
  | matchPattern p vs =>
    refine Keeps.discard (keeps_admitted_run (.withBindings fun scope => ?_))
    exact (select_steady (steady_callAt depthLimit) (OpenVocabulary.scope globalScope) (OpenVocabulary.scope scope)
      (mayTrace false) h.1 h.2).mono fun _ _ => trivial
  | dump names => exact Keeps.discard (keeps_admitted_dumpGlobals names)
  | load bytes => exact Keeps.discard (keeps_admitted_loadGlobals bytes)

/-! ### Calculators that are reached -/

namespace Calculator

theorem admitted_bare (logging traced : Bool) : (bare logging traced).Admitted where
  storage := rfl
  values := fun v hv => by cases hv
  scopes := {
    size := rfl
    fresh := fun _ _ => OpenVocabulary.scope _
    scope := by
      intro i s _ hs
      match i with
      | 0 =>
        cases hs
        exact ⟨_, rfl, .root (Bindings.congruent_of_forall admitted_standardNames)⟩
      | 1 =>
        cases hs
        exact ⟨_, rfl, .root (Bindings.congruent_of_forall admitted_constants)⟩
      | i + 2 => cases hs }
  builders := rfl
  pieces := fun i b _ hb => by cases hb
  fresh := fun _ _ => OpenVocabulary.builder _
  natives := rfl
  lawful := fun i fn _ hfn => by cases hfn
  shuffles := rfl
  next := rfl
  effects := rfl
  logging := rfl

/-- **All values stay admitted**, whatever has been asked of a calculator. -/
theorem Reached.admitted {ok : Request → Prop} (hok : ∀ r, ok r → r.Admitted) {c : Calculator} (h : Reached ok c) :
    c.Admitted := by
  induction h with
  | bare logging traced => exact admitted_bare logging traced
  | perform r _ hr ih => exact keeps_admitted_perform (hok r hr) _ ih

end Calculator

end StackCalc
