import StackCalc.Proofs.Calculator.Outcome
import StackCalc.Proofs.Machine.Confinement
import StackCalc.Proofs.Wire.CodecTable
import StackCalc.Calculator.Run
import StackCalc.Calculator.Exchange

/-! # What a host may ask for

A host asks one thing after the other of a calculator, and every request leaves a calculator behind,
whether it succeeds or not. `Calculator.Reached ok` are the calculators that come out of a bare one by
requests that are `ok`.

Requests change the scopes by runs in the global scope, and the codec table by loading entries, so a property
that stays under both (`Calculator.Stable`) holds of all calculators if it holds of a bare one
(`Reached.of_stable`). That way all of them are sound: their codec table is consistent, and the global scope is
a root, so that what is bound there is found there. What patterns know are the constants
(`Reached.knowsConstants`), and the codec table is what was loaded last (`Reached.codecs_loaded`). -/

namespace StackCalc

/-- What a host may ask of a calculator. -/
inductive Request where
  | codecs (entries : List (Data × Data))
  | define (name : Text) (d : Data)
  | register (f : HostFunction)
  | shuffle (s : Shuffle)
  /-- Make a value of data, as it is or with its pairs and lists taken apart. -/
  | value (d : Data)
  | tree (d : Data)
  | text (text : Text) (format : Option Text)
  /-- Build an expression. -/
  | leaf (d : Data)
  | callOf (name : Text) (args : List Expr)
  | block (body : Expr)
  | code (steps : List Instr)
  /-- Run code. -/
  | evaluate (p : Program)
  | execute (p : Program)
  | call (target : Calculator.Target) (args : List Data) (results : Option Int)
  | invoke (fn : Value) (stack : List Value) (args results : Option Int)
  | stepwise (steps : List Instr) (stack : List Value)
  /-- Look at matching. -/
  | literal (p : Program)
  | matchPart (part : Part) (v : Value)
  | matchPattern (p : Pattern) (vs : List Value)
  /-- Store and load globals. -/
  | dump (names : List Text)
  | load (bytes : Wire.Bytes)

/-- What comes of a request does not matter here. -/
def Request.perform : Request → Calculation Unit
  | codecs entries => Calculator.loadCodecs entries
  | define name d => do let _ ← (Calculator.define name d : Run Value); return
  | register f => (Calculator.register f : Run Unit)
  | shuffle s => do let _ ← (Calculator.shuffle s : Run Value); return
  | value d => do let _ ← (Calculator.toValue d : Run Value); return
  | tree d => do let _ ← (Calculator.ofData d : Run Value); return
  | text t format => do let _ ← (deserialize t format : Run Value); return
  | leaf d => do let _ ← (Build.value d : Run Expr); return
  | callOf name args => do let _ ← (Build.call name args : Run Expr); return
  | block body => do let _ ← (Build.block body : Run Expr); return
  | code steps => do let _ ← (Build.code steps : Run Code); return
  | evaluate p => do let _ ← Calculator.evaluate p; return
  | execute p => do let _ ← Calculator.execute p; return
  | call target args results => do let _ ← Calculator.callTarget target args results; return
  | invoke fn stack args results => do let _ ← Calculator.invoke fn stack args results; return
  | stepwise steps stack => do
    let traced := (← Calculation.current).traced
    let _ ← (Calculator.stepwise traced steps stack : Run (List (Option Fault × List Value))); return
  | literal p => do let _ ← Calculator.literal p; return
  | matchPart part v => do
    let _ ← (Calculator.matchPart part v : Run (Except Fault Bool × Bindings)); return
  | matchPattern p vs => do
    let _ ← (Calculator.matchPattern p vs : Run (Except Fault (Option Code) × Bindings)); return
  | dump names => do let _ ← Calculator.dumpGlobals names; return
  | load bytes => do let _ ← Calculator.loadGlobals bytes; return

namespace Calculator

/-- **The calculators that come out of a bare one**, one request after the other. -/
inductive Reached (ok : Request → Prop) : Calculator → Prop where
  | bare (logging traced : Bool) : Reached ok (bare logging traced)
  | perform {c : Calculator} (r : Request) (h : Reached ok c) (hr : ok r) :
      Reached ok (r.perform.outcome c).2

/-- The codec table is consistent, and the global scope is a root. -/
structure Sound (c : Calculator) : Prop where
  codecs : c.codecs.Consistent
  root : ∃ b, c.machine.scopes.scopes[globalScope]? = some (.root b)

end Calculator

open Calculation (Keeps)
open Run (Within)
open Forest (Grows)

/-! ### Runs within a calculator -/

namespace Forest.Grows

/-- A root stays a root when the forest grows. -/
theorem exists_root {t : Target} {f g : Forest} (h : Grows t f g) {id : ScopeId}
    (hf : ∃ b, f.scopes[id]? = some (.root b)) : ∃ b, g.scopes[id]? = some (.root b) := by
  obtain ⟨b, hb⟩ := hf
  have hid : id < f.scopes.size := by
    rw [Array.getElem?_eq_some_iff] at hb
    exact hb.1
  have hshape := h.shape id hid
  rw [hb] at hshape
  rcases hg : g.scopes[id]? with _ | s <;> rw [hg] at hshape
  · cases hshape
  · cases s with
    | root b' => exact ⟨b', rfl⟩
    | _ => cases hshape

end Forest.Grows

namespace Run.Within

variable {via : Option ScopeId}

theorem distinguishAll : ∀ v : Value, Within via (distinguishAll v)
  | .mk d p => by
    unfold Run.distinguishAll
    cases p with
    | cons a b => exact bind (distinguishAll a) fun _ => bind (distinguishAll b) fun _ => pure _
    | _ => exact distinguish _

theorem toValue (d : Data) : Within via (Calculator.toValue d) := by
  unfold Calculator.toValue
  refine bind (lift _) fun v => ?_
  split
  · exact pure _
  · exact distinguishAll _

theorem define (name : Text) (d : Data) : Within (some globalScope) (Calculator.define name d) :=
  bind (toValue d) fun v => bind (put globalScope name v) fun _ => pure _

theorem lookup (name : Text) : Within via (Calculator.lookup name) := by
  refine bind (find? _ _) fun found => ?_
  split
  · exact pure _
  · exact throw _

theorem resolveTarget (t : Calculator.Target) : Within via t.resolve := by
  cases t with
  | name s => exact lookup s
  | value v => exact pure v

theorem runAside (scope : ScopeId) (traced : Bool) (code : Code) :
    Within (some scope) (runAside call scope traced code) :=
  runAside_within (confined_callAt depthLimit) scope traced code

theorem onStack (start : List Value) (traced : Bool) {body : Frame → Run Unit}
    (h : ∀ f : Frame, f.scope = globalScope → Within (some globalScope) (body f)) :
    Within (some globalScope) (Calculator.onStack start traced globalScope body) := by
  refine aside (bind (pushAll start) fun _ => bind (tryCatch ?_ fun _ => pure _) fun _ => ?_)
  · exact bind (h _ rfl) fun _ => pure _
  · exact bind (values _) fun _ => pure _

theorem stepwise (traced : Bool) : ∀ (steps : List Instr) (stack : List Value),
    Within (some globalScope) (Calculator.stepwise traced steps stack)
  | [], _ => pure _
  | i :: rest, stack => by
    refine bind (onStack stack traced fun f hf => ?_) fun result => ?_
    · have hsteps := runSteps_within (confined_callAt depthLimit) f [i]
      rw [hf] at hsteps
      exact hsteps
    · exact ite (pure _) (bind (stepwise traced rest result.2) fun _ => pure _)

theorem lookupFrom : ∀ (names : List Text) (found : Bindings), Within via (Calculator.lookupFrom names found)
  | [], _ => pure _
  | name :: names, _ => bind (lookup name) fun _ => lookupFrom names _

theorem distinguishEntries : ∀ found : Bindings, Within via (found.mapM distinguishEntry)
  | [] => pure _
  | e :: found => by
    rw [List.mapM_cons]
    refine bind (bind (distinguishAll e.2) fun _ => pure _) fun _ => ?_
    exact bind (distinguishEntries found) fun _ => pure _

theorem withBindings {α : Type} {body : ScopeId → Run α} (h : ∀ id, Within (some id) (body id)) :
    Within (some globalScope) (Calculator.withBindings body) := by
  refine mono (grow_bind id fun scope => ?_)
  refine bind (tryCatch (bind (h scope) fun _ => pure _) fun _ => pure _) fun _ => ?_
  exact get_bind fun _ => pure _

end Run.Within

/-! ### What requests keep -/

/-- **A property that no request can break**: it stays when the forest of scopes grows with names bound in the
global scope alone, and when entries of the codec table are loaded. -/
structure Calculator.Stable (P : Calculator → Prop) : Prop where
  grows : ∀ {c : Calculator} (m : Machine), P c →
    Grows (c.machine.scopes.target globalScope) c.machine.scopes m.scopes → P { c with machine := m }
  codecs : ∀ {c : Calculator} (entries : List (Data × Data)), P c → P { c with codecs := (c.codecs.load entries).2 }

section Stable

variable {P : Calculator → Prop} (hP : Calculator.Stable P)
include hP

theorem Calculator.Stable.run {α : Type} {r : Run α} (h : Within (some globalScope) r) :
    Keeps P (Calculation.onMachine r) := fun c hc => hP.grows _ hc (h c.machine).scopes

/-- A request that is a run, and whose result does not matter. -/
theorem Calculator.Stable.discard {α : Type} {r : Run α} (h : Within (some globalScope) r) :
    Keeps P (do let _ ← Calculation.onMachine r; return) := Keeps.discard (hP.run h)

/-- The table of the host's functions grows, and the name is bound. -/
theorem keeps_register (f : HostFunction) : Keeps P (Calculation.onMachine (Calculator.register f)) := by
  intro c hc
  have hname : Within (some globalScope) (do
      let v ← Run.callable fun serial => .native serial c.machine.natives.size f.name f.args f.results
      Run.put globalScope f.name v) :=
    Within.bind (Within.callable _) fun v => Within.put globalScope f.name v
  exact hP.grows _ hc (hname { c.machine with natives := c.machine.natives.push f.fn }).scopes

theorem keeps_shuffle (s : Shuffle) : Keeps P (Calculation.onMachine (Calculator.shuffle s)) :=
  fun _ hc => hP.grows _ hc (Grows.refl _ _)

theorem keeps_loadCodecs (entries : List (Data × Data)) : Keeps P (Calculator.loadCodecs entries) := by
  intro c hc
  have ht := hP.codecs entries hc
  unfold Calculator.loadCodecs
  rw [Calculation.outcome_current_bind]
  rcases hload : c.codecs.load entries with ⟨result, table⟩
  rw [hload] at ht
  exact Keeps.bind (Keeps.lift result) (fun _ => hP.run (Within.note _)) { c with codecs := table } ht

theorem keeps_runProgram (p : Program) : Keeps P (Calculator.runProgram p) :=
  Keeps.bind (Keeps.lift _) fun _ => Keeps.current_bind fun c => hP.run (Within.runAside globalScope c.traced _)

theorem keeps_evaluate (p : Program) : Keeps P (Calculator.evaluate p) := by
  refine Keeps.bind (keeps_runProgram hP p) fun vs => ?_
  split
  · exact Keeps.pure _
  · exact Keeps.throw _

theorem keeps_execute (p : Program) : Keeps P (Calculator.execute p) := by
  have heffects : Keeps P Calculator.effects := Keeps.current_bind fun c => Keeps.pure _
  rw [Calculator.execute_eq]
  refine Keeps.bind (Keeps.change fun c hc => hP.grows _ hc (Grows.refl _ _)) fun _ =>
    Keeps.tryCatch ?_ fun f => ?_
  · exact Keeps.bind (keeps_runProgram hP p) fun vs => Keeps.bind heffects fun _ => Keeps.pure _
  · refine Keeps.ite ?_ (Keeps.throw f)
    refine Keeps.bind (hP.run (Within.note _)) fun _ => ?_
    refine Keeps.bind (hP.run (Within.emit _ _)) fun _ => ?_
    exact Keeps.bind heffects fun _ => Keeps.pure _

theorem keeps_callTarget (target : Calculator.Target) (args : List Data) (results : Option Int) :
    Keeps P (Calculator.callTarget target args results) := by
  refine Keeps.current_bind fun c => hP.run ?_
  refine Within.bind (Within.resolveTarget target) fun fn => Within.aside ?_
  have hpush : ∀ d : Data, Within (some globalScope) (do Run.push (← Calculator.toValue d)) :=
    fun d => Within.bind (Within.toValue d) fun v => Within.push v
  refine Within.bind (Within.forM hpush args) fun _ => ?_
  exact Within.bind (confined_callAt depthLimit ⟨globalScope, .whole, c.traced⟩ fn _ results) fun _ =>
    Within.values _

theorem keeps_invoke (fn : Value) (stack : List Value) (args results : Option Int) :
    Keeps P (Calculator.invoke fn stack args results) := by
  refine Keeps.current_bind fun c => hP.run (Within.onStack stack c.traced fun f hf => ?_)
  have hcall := confined_callAt depthLimit f fn args results
  rw [hf] at hcall
  exact hcall

/-- What a literal may bind through is a scope of its own. -/
theorem keeps_literal (p : Program) : Keeps P (Calculator.literal p) := by
  refine Keeps.bind (Keeps.lift _) fun steps => ?_
  have hrun : Within (some globalScope) (do
      let scope ← Run.grow (.literal patternScope)
      runAside call scope false (.mk [] steps)) :=
    Within.mono (Within.grow_bind id fun scope => Within.runAside scope false _)
  have hkeeps := hP.run hrun
  rw [← Calculation.onMachine_bind] at hkeeps
  rw [← bind_assoc]
  refine Keeps.bind hkeeps fun vs => ?_
  split
  · exact Keeps.pure _
  · exact Keeps.throw _

theorem keeps_dumpGlobals (names : List Text) : Keeps P (Calculator.dumpGlobals names) := by
  unfold Calculator.dumpGlobals
  rw [Calculator.lookupAll_eq]
  exact Keeps.bind (hP.run (Within.lookupFrom names [])) fun _ => Keeps.current_bind fun _ => Keeps.pure _

theorem keeps_installRecord (size : Nat) (found : Bindings) : Keeps P (Calculator.installRecord size found) := by
  refine Keeps.bind (hP.run (Within.distinguishEntries found)) fun store => ?_
  refine Keeps.bind (hP.run (Within.note _)) fun _ => ?_
  refine Keeps.bind (hP.run (Within.note _)) fun _ => ?_
  exact Keeps.bind (hP.run (Within.putAll globalScope store)) fun _ => Keeps.pure _

theorem keeps_loadGlobals (bytes : Wire.Bytes) : Keeps P (Calculator.loadGlobals bytes) := by
  intro c hc
  rw [Calculator.outcome_loadGlobals]
  rcases (Wire.readRecord (· == ·) Wire.readText (Wire.readValue c.codecs 0)).outcome bytes with
    ⟨f | ⟨size, found⟩, rest⟩
  · exact hc
  · exact Keeps.bind (keeps_installRecord hP size found) (fun store => Keeps.pure (store, rest)) c hc

/-- **No request breaks a stable property**, however it ends. -/
theorem keeps_perform (r : Request) : Keeps P r.perform := by
  cases r with
  | codecs entries => exact keeps_loadCodecs hP entries
  | define name d => exact hP.discard (Within.define name d)
  | register f => exact keeps_register hP f
  | shuffle s => exact Keeps.discard (keeps_shuffle hP s)
  | value d => exact hP.discard (Within.toValue d)
  | tree d =>
    refine hP.discard (Within.bind (Within.lift _) fun v => ?_)
    exact Within.distinguishAll v
  | text t format =>
    refine hP.discard ?_
    unfold deserialize
    dsimp only
    split
    · exact Within.bind (Within.lift _) fun d => Within.bind (Within.lift _) fun v => Within.distinguishAll v
    · exact Within.throw _
  | leaf d =>
    refine hP.discard (Within.bind (Within.lift _) fun v => ?_)
    split
    · exact Within.pure _
    · exact Within.bind (Within.distinguish v) fun _ => Within.pure _
  | callOf name args =>
    refine hP.discard (Within.ite ?_ (Within.pure _))
    exact Within.bind Within.fresh fun _ => Within.lift _
  | block body => exact hP.discard (Within.bind Within.fresh fun _ => Within.pure _)
  | code steps => exact hP.discard (Within.bind Within.fresh fun _ => Within.pure _)
  | evaluate p => exact Keeps.discard (keeps_evaluate hP p)
  | execute p => exact Keeps.discard (keeps_execute hP p)
  | call target args results => exact Keeps.discard (keeps_callTarget hP target args results)
  | invoke fn stack args results => exact Keeps.discard (keeps_invoke hP fn stack args results)
  | stepwise steps stack =>
    exact Keeps.current_bind fun c => hP.discard (Within.stepwise c.traced steps stack)
  | literal p => exact Keeps.discard (keeps_literal hP p)
  | matchPart part v =>
    refine hP.discard (Within.withBindings fun scope => Within.get_bind fun m => ?_)
    exact Within.bind (Within.putAll scope _) fun _ => Within.lift _
  | matchPattern p vs =>
    exact hP.discard (Within.withBindings fun scope =>
      select_within (confined_callAt depthLimit) globalScope scope false p vs)
  | dump names => exact Keeps.discard (keeps_dumpGlobals hP names)
  | load bytes => exact Keeps.discard (keeps_loadGlobals hP bytes)

end Stable

namespace Calculator

/-- **What holds of a new calculator and no request breaks holds of any**. -/
theorem Reached.of_stable {P : Calculator → Prop} (hP : Stable P) (hbare : ∀ logging traced, P (.bare logging traced))
    {ok : Request → Prop} {c : Calculator} (h : Reached ok c) : P c := by
  induction h with
  | bare logging traced => exact hbare logging traced
  | perform r _ _ ih => exact keeps_perform hP r _ ih

theorem sound_bare (logging traced : Bool) : (bare logging traced).Sound :=
  ⟨Wire.CodecTable.consistent_empty, standardNames, rfl⟩

theorem stable_sound : Stable Sound where
  grows := fun _ hc h => ⟨hc.codecs, h.exists_root hc.root⟩
  codecs := fun {c} entries hc => ⟨Wire.CodecTable.consistent_load c.codecs entries, hc.root⟩

/-- **Whatever has been asked of it, a calculator is sound.** -/
theorem Reached.sound {ok : Request → Prop} {c : Calculator} (h : Reached ok c) : c.Sound :=
  h.of_stable stable_sound sound_bare

/-- The global scope is a root, and patterns know the constants. -/
def KnowsConstants (c : Calculator) : Prop :=
  (∃ b, c.machine.scopes.scopes[globalScope]? = some (.root b)) ∧
    c.machine.scopes.scopes[patternScope]? = some (.root constants)

theorem stable_knowsConstants : Stable KnowsConstants where
  grows := fun {c} m hc h => by
    obtain ⟨hglobal, hpattern⟩ := hc
    have hne : c.machine.scopes.target globalScope ≠ .scope patternScope := by
      obtain ⟨b, hb⟩ := hglobal
      have htarget : c.machine.scopes.target globalScope = .scope globalScope := by
        unfold Forest.target Forest.targetWithin
        rw [hb]
      rw [htarget]
      decide
    have hlt : patternScope < c.machine.scopes.scopes.size := (Array.getElem?_eq_some_iff.1 hpattern).1
    exact ⟨h.exists_root hglobal, (h.kept patternScope hlt hne).trans hpattern⟩
  codecs := fun _ hc => hc

/-- **What patterns know are the constants**, whatever has been asked of a calculator. -/
theorem Reached.knowsConstants {ok : Request → Prop} {c : Calculator} (h : Reached ok c) : c.KnowsConstants :=
  h.of_stable stable_knowsConstants fun _ _ => ⟨⟨standardNames, rfl⟩, rfl⟩

/-- **The codec table of a calculator is what was loaded last**, or empty. -/
theorem Reached.codecs_loaded {ok : Request → Prop} {c : Calculator} (h : Reached ok c) :
    ∃ entries, c.codecs = (Wire.CodecTable.empty.load entries).2 :=
  have hstable : Stable fun c => ∃ entries, c.codecs = (Wire.CodecTable.empty.load entries).2 :=
    { grows := fun _ hc _ => hc, codecs := fun entries _ => ⟨entries, rfl⟩ }
  h.of_stable hstable fun _ _ => ⟨[], rfl⟩

/-- Requests for each element of a list, if all of them succeed. -/
theorem Reached.of_forM {α : Type} {ok : Request → Prop} {request : α → Request} :
    ∀ (as : List α) {c c' : Calculator}, (∀ a ∈ as, ok (request a)) → Reached ok c →
      (as.forM fun a => (request a).perform).outcome c = (.ok (), c') → Reached ok c'
  | [], _, _, _, hc, h => by
    cases h
    exact hc
  | a :: as, c, c', hok, hc, h => by
    obtain ⟨_, mid, ha, has⟩ := Calculation.exists_of_outcome_bind_ok h
    have hmid := hc.perform (request a) (hok a List.mem_cons_self)
    rw [ha] at hmid
    exact Reached.of_forM as (fun b hb => hok b (List.mem_cons_of_mem a hb)) hmid has

/-- **A new calculator is reached** by what its configuration and its host ask for. -/
theorem reached_of_create {ok : Request → Prop} {host : List HostFunction} {config : Config}
    {logging : Bool} {c : Calculator} (hcodecs : ok (.codecs config.codecs))
    (hglobals : ∀ e ∈ config.globals, ok (.define e.1 e.2)) (hhost : ∀ f ∈ host, ok (.register f))
    (h : create host config logging = .ok c) : Reached ok c := by
  unfold create at h
  rcases hi : (install host config).outcome (bare logging config.traced) with ⟨f | ⟨⟩, c'⟩ <;> rw [hi] at h
  · cases h
  · cases h
    obtain ⟨_, c₁, h₁, hrest⟩ := Calculation.exists_of_outcome_bind_ok hi
    obtain ⟨_, c₂, h₂, h₃⟩ := Calculation.exists_of_outcome_bind_ok hrest
    have hreached₁ := (Reached.bare logging config.traced).perform _ hcodecs
    have hreached₂ := Reached.of_forM config.globals hglobals (by rwa [Request.perform, h₁] at hreached₁) h₂
    exact Reached.of_forM host hhost hreached₂ h₃

end Calculator

end StackCalc
