import StackCalc.Proofs.Calculator.Admitted
import StackCalc.Proofs.Expr.Misplaced
import StackCalc.Proofs.Machine.Closure
import StackCalc.Proofs.Scope.Lookup

/-! # Parameters that are not used

What a function does with a parameter that its body does not mention is nothing: the function with the parameter,
applied to a value, comes to the same as the function without it (`evaluate_unused`). Code mentions the names in
its text, and those that the compiler adds to it: to apply what an expression comes to, code calls `apply`, and
finds it under this name in the scope that it runs in.

The two runs differ in one layer of bindings, which code that does not mention the parameter cannot tell apart.
What such code mentions is a vocabulary. -/

namespace StackCalc

open Run (Steady Settles)

/-- A value that holds no other one, and no code. -/
def Value.IsScalar (v : Value) : Prop := v.payload.isScalar = true

theorem Value.IsScalar.mentions_eq {v : Value} (h : v.IsScalar) : v.mentions = [] := by
  obtain ⟨d, p⟩ := v
  cases p with
  | int | float | str | bool | null | host => rfl
  | _ => cases h

/-- What can be mentioned without a name: of the scopes, the global one, that of patterns and those that are made
later; of the patterns under construction, those that are made later. -/
def Mention.Omits (p : Text) (scopes builders : Nat) : Mention → Prop
  | .name s => s ≠ p
  | .operator _ | .count _ => True
  | .scope id => id = globalScope ∨ id = patternScope ∨ scopes ≤ id
  | .builder id => builders ≤ id
  | .host _ => False

instance (p : Text) (scopes builders : Nat) : Mention.Elementary (Mention.Omits p scopes builders) :=
  ⟨fun _ => trivial, fun _ => trivial⟩

/-- The vocabulary of code that does not mention a name. -/
abbrev Vocabulary.omitting (p : Text) (scopes builders : Nat) : Vocabulary where
  Tolerates _ := True
  tooManyDigits := trivial
  ordinary _ := trivial
  Admits := Mention.Omits p scopes builders
  Records _ := True
  count _ := trivial
  negative _ _ := trivial
  operator _ := trivial
  marker _ _ _ := trivial
  host _ := trivial
  constants := .inr (.inl rfl)
  records _ := trivial

/-! ### Expressions -/

namespace Expr

/-- **An expression that does not mention a name**, and whose values are scalars. -/
structure Omits (p : Text) (e : Expr) : Prop where
  scalar : ∀ v, e.Visits (.value v) → v.IsScalar
  mentions : ∀ d, e.Visits d → .name p ∉ d.mentions

theorem Omits.of_parts {p : Text} {e : Expr} (hvalue : ∀ v, e = .value v → v.IsScalar) (hown : .name p ∉ e.mentions)
    (h : ∀ d ∈ e.parts, d.Omits p) : e.Omits p where
  scalar v hv := by
    cases hv with
    | self => exact hvalue v rfl
    | part hd hvisits => exact (h _ hd).scalar v hvisits
  mentions d hd := by
    cases hd with
    | self => exact hown
    | part hp hvisits => exact (h _ hp).mentions d hvisits

/-- The code of such an expression does not mention the name either. -/
theorem Omits.compile {p : Text} {e : Expr} (h : e.Omits p) {steps : List Instr} (hsteps : e.compile = .ok steps)
    (scopes builders : Nat) : MentionOnly (Mention.Omits p scopes builders) steps := by
  refine mentionOnly_of_compile (fun v hv x hx => ?_) (fun d hd s hs => ?_) hsteps
  · rw [(h.scalar v hv).mentions_eq] at hx
    cases hx
  · rintro rfl
    exact h.mentions d hd hs

/-- A function that is applied to values. -/
def applied (params : List Text) (body : Expr) (args : List Value) : Expr :=
  .invoke (.binary .lambda (.bracket (params.map .name)) body) (args.map .value)

theorem compile_applied (params : List Text) (body : Expr) (args : List Value) :
    (applied params body args).compile =
      body.compile.map fun steps => .closure params steps :: (args.map .push ++ [.applyTo args.length]) := by
  have hparams : (bracket (params.map name)).params = .ok params := params_map_name params
  unfold compile applied
  rw [compileAs, compileAs, hparams, compileAll_map_value]
  rcases body.compileAs .operand with f | steps
  · rfl
  · simp only [List.length_map]
    rfl

end Expr

/-! ### Calculators -/

namespace Calculator

/-- **The globals are the standard names, and scalars.** -/
structure HasStandardGlobals (c : Calculator) : Prop where
  standard : ∀ e ∈ standardNames, c.value? e.1 = .ok e.2
  others : ∀ name v, c.value? name = .ok v → (name, v) ∈ standardNames ∨ v.IsScalar

/-- Nothing else is known to a new calculator. -/
theorem hasStandardGlobals_bare (logging traced : Bool) : (bare logging traced).HasStandardGlobals where
  standard e he := by
    have hnodup : (Bindings.names [] ++ standardNames.names).Nodup := by decide
    have hself : standardNames = Bindings.putAll [] standardNames := (Bindings.putAll_eq_append _ hnodup).symm
    refine (value?_eq_ok rfl).2 ?_
    rw [hself]
    exact Bindings.lookup_putAll_of_mem standardNames [] hnodup he
  others _ _ h := .inl (Bindings.mem_of_lookup ((value?_eq_ok rfl).1 h))

/-- What a global name stands for. -/
theorem find?_of_value? {c : Calculator} {name : Text} {v : Value} (h : c.value? name = .ok v) :
    c.machine.scopes.find? globalScope name = some (.value v) := by
  unfold value? lookup at h
  rw [Run.outcome_bind_of_ok (Run.outcome_find? globalScope name c.machine)] at h
  rcases hfind : c.machine.scopes.find? globalScope name with _ | v' | s <;> rw [hfind] at h <;> cases h
  rfl

/-- The body of a function that a program applies: it is run in a new scope, for one result, two calls deep. -/
def runBody (c : Calculator) (steps : List Instr) : Run Unit := do
  let frame : Frame := ⟨c.machine.scopes.scopes.size, View.whole, c.traced⟩
  runSteps (callAt (depthLimit - 2)) frame steps
  Run.checkResults frame (some 1)

/-- The machine that it is run on, with the parameters bound. -/
def bodyMachine (c : Calculator) (b : Bindings) (log : Array Event) : Machine :=
  { c.machine with next := c.machine.next + 1, log := log }.entering globalScope b []

section
variable {c : Calculator} (hc : c.KnowsConstants) (hg : c.HasStandardGlobals) (p : Text)
include hc hg

/-- No scope that code without the name can get at holds more than the standard functions and scalars. -/
theorem congruent_scopes : @Forest.Congruent (.omitting p c.machine.scopes.scopes.size c.machine.builders.size)
    c.machine.scopes c.machine.scopes := by
  let _ := Vocabulary.omitting p c.machine.scopes.scopes.size c.machine.builders.size
  obtain ⟨⟨b, hb⟩, hconstants⟩ := hc
  have hglobals : b.Congruent b := fun name _ => ⟨rfl, fun v hv => by
    rcases hg.others name v ((value?_eq_ok hb).2 hv) with hmem | hscalar
    · exact admitted_standardNames _ hmem
    · exact fun x hx => by cases hscalar.mentions_eq ▸ hx⟩
  refine ⟨rfl, fun _ hid => .inr (.inr hid), fun id s hid hs => ⟨s, hs, ?_⟩⟩
  rcases hid with rfl | rfl | hid
  · cases hb.symm.trans hs
    exact .root hglobals
  · cases hconstants.symm.trans hs
    exact .root (Bindings.congruent_of_forall admitted_constants)
  · rw [Array.getElem?_eq_none hid] at hs
    cases hs

/-- **Code that does not mention the name cannot tell whether it is bound.** -/
theorem congruent_body (v : Value) (log log' : Array Event) :
    @Machine.Congruent (.omitting p c.machine.scopes.scopes.size c.machine.builders.size)
      (c.bodyMachine [(p, v)] log) (c.bodyMachine [] log') := by
  let _ := Vocabulary.omitting p c.machine.scopes.scopes.size c.machine.builders.size
  have hlayers : Bindings.Congruent [(p, v)] [] := by
    intro name hname
    have hne : (name == p) = false := beq_false_of_ne hname
    rw [List.lookup_cons, hne]
    exact ⟨rfl, fun _ h => by cases h⟩
  exact {
    storage := rfl
    values := fun _ h => by cases h
    scopes := (congruent_scopes hc hg p).push (.layer (.inl rfl) hlayers)
    builders := rfl
    pieces := fun i b hi hb => by
      have hnone : c.machine.builders[i]? = none := Array.getElem?_eq_none hi
      cases hnone.symm.trans hb
    fresh := fun _ h => h
    natives := rfl
    lawful := fun _ _ h _ => h.elim
    shuffles := rfl
    next := rfl
    effects := rfl
    logging := rfl }

end

/-- **A program that applies a function** comes to what the body of the function leaves. -/
theorem outcome_runProgram_applied {c : Calculator} (hg : c.HasStandardGlobals) {body : Expr} {steps : List Instr}
    (hsteps : body.compile = .ok steps) (params : List Text) (args : List Value)
    (hlen : params.length = args.length) :
    ∃ log, ((runProgram (.expr (Expr.applied params body args))).outcome c).1 =
      ((c.runBody steps >>= fun _ => Run.values ⟨globalScope, View.whole, c.traced⟩).outcome
        (c.bodyMachine (params.zip args) log)).1 := by
  have hcompile : (Program.expr (Expr.applied params body args)).compile =
      .ok (.closure params steps :: (args.map .push ++ [.applyTo args.length])) := by
    rw [Program.compile, Expr.compile_applied, hsteps]
    rfl
  let apply : Value := .own (.callable (.builtin .apply))
  have happly : (applyName, apply) ∈ standardNames :=
    List.mem_append_left _ (List.mem_append_left _ (List.mem_map_of_mem (a := Builtin.apply) (by decide)))
  have hfind : c.machine.scopes.find? globalScope applyName = some (.value apply) :=
    find?_of_value? (hg.standard (applyName, apply) happly)
  let frame : Frame := ⟨globalScope, View.whole, c.traced⟩
  let code : List Instr := .closure params steps :: (args.map .push ++ [.applyTo args.length])
  obtain ⟨log, hrun⟩ := outcome_applyClosure (depthLimit - 2) frame steps (m := { c.machine with storage := [] }) hlen
    (Nat.zero_le _) hfind
  have hbody : (runSteps call frame code).outcome { c.machine with storage := [] } =
      (c.runBody steps).outcome (c.bodyMachine (params.zip args) log) := hrun
  have haside : ((runAside call globalScope c.traced (.mk [] code)).outcome c.machine).1 =
      ((runSteps call frame code >>= fun _ => Run.values frame).outcome { c.machine with storage := [] }).1 := rfl
  refine ⟨log, ?_⟩
  rw [outcome_runProgram_of_ok hcompile]
  exact haside.trans (congrArg Prod.fst (Run.outcome_bind_congr hbody fun _ => Run.values frame))

/-- A function whose body cannot be compiled is applied to nothing. -/
theorem outcome_runProgram_applied_of_error {body : Expr} {f : Fault} (h : body.compile = .error f)
    (params : List Text) (args : List Value) (c : Calculator) :
    ((runProgram (.expr (Expr.applied params body args))).outcome c).1 = .error f := by
  unfold runProgram
  rw [Program.compile, Expr.compile_applied, h]
  rfl

/-- **Code that does not mention the name runs in the same way** on machines that it cannot tell apart. -/
theorem settles_runBody (c : Calculator) (p : Text) {steps : List Instr}
    (hsteps : MentionOnly (Mention.Omits p c.machine.scopes.scopes.size c.machine.builders.size) steps) :
    @Settles (.omitting p c.machine.scopes.scopes.size c.machine.builders.size) _ 0
      (c.runBody steps >>= fun _ => Run.values ⟨globalScope, View.whole, c.traced⟩) := by
  let _ := Vocabulary.omitting p c.machine.scopes.scopes.size c.machine.builders.size
  let frame : Frame := ⟨c.machine.scopes.scopes.size, View.whole, c.traced⟩
  have hframe : frame.Admitted := ⟨.inr (.inr (Nat.le_refl _)), fun _ _ _ => trivial⟩
  have hbody : Settles frame.view.base (c.runBody steps) :=
    Steady.bind (runSteps_steady (steady_callAt (depthLimit - 2)) hframe hsteps) fun _ _ =>
      Steady.checkResults (f := frame) (some 1)
  exact Steady.bind hbody fun _ _ => Steady.values.mono fun _ _ => trivial

/-- **A parameter that is not used does not matter.** In every calculator whose globals are the standard names and
scalars, the function with a parameter that the body does not mention, applied to any value, comes to the same as
the function without it: the same value, or the same fault. -/
theorem evaluate_unused {ok : Request → Prop} {c : Calculator} (hc : Reached ok c) (hg : c.HasStandardGlobals)
    {p : Text} {body : Expr} (hbody : body.Omits p) (v : Value) :
    ((evaluate (.expr (Expr.applied [p] body [v]))).outcome c).1 =
      ((evaluate (.expr (Expr.applied [] body []))).outcome c).1 := by
  refine evaluate_congr ?_
  rcases hsteps : body.compile with f | steps
  · rw [outcome_runProgram_applied_of_error hsteps, outcome_runProgram_applied_of_error hsteps]
  · let _ := Vocabulary.omitting p c.machine.scopes.scopes.size c.machine.builders.size
    obtain ⟨log, hwith⟩ := outcome_runProgram_applied hg hsteps [p] [v] rfl
    obtain ⟨log', hwithout⟩ := outcome_runProgram_applied hg hsteps [] [] rfl
    have hsame := settles_runBody c p (hbody.compile hsteps _ _) _ _
      (congruent_body hc.knowsConstants hg p v log log') (Nat.zero_le _)
    rw [hwith, hwithout]
    exact hsame.same

/-- A body that applies a standard function, under a parameter that it does not mention. -/
theorem evaluate_unused_type :
    let c := bare false false
    let body : Expr := .invoke (.name "type") [.value (.own (.int 1))]
    Reached (fun _ => True) c ∧ c.HasStandardGlobals ∧ body.Omits "x" ∧
      ((evaluate (.expr (Expr.applied ["x"] body [.own (.int 5)]))).outcome c).1 =
        ((evaluate (.expr (Expr.applied [] body []))).outcome c).1 ∧
      ((evaluate (.expr (Expr.applied [] body []))).outcome c).1 = .ok (.own (.str "int")) := by
  have hc : Reached (fun _ => True) (bare false false) := .bare false false
  have hg : (bare false false).HasStandardGlobals := hasStandardGlobals_bare false false
  have hvalue : (Expr.value (.own (.int 1))).Omits "x" :=
    .of_parts (fun v hv => by cases hv; rfl) List.not_mem_nil (List.forall_mem_nil _)
  have hname : (Expr.name "type").Omits "x" :=
    .of_parts (fun _ hv => by cases hv) (by simp [Expr.mentions]) (List.forall_mem_nil _)
  have hbody : (Expr.invoke (.name "type") [.value (.own (.int 1))]).Omits "x" :=
    .of_parts (fun _ hv => by cases hv) (by simp [Expr.mentions, applyName])
      (List.forall_mem_cons.2 ⟨hname, List.forall_mem_singleton.2 hvalue⟩)
  exact ⟨hc, hg, hbody, evaluate_unused hc hg hbody (.own (.int 5)), rfl⟩

/-- **A parameter under the name of the function that code calls by itself** matters, though no name in the text of
the body is the same: the body finds the argument where it looks for that function. -/
theorem evaluate_shadowed :
    let c := bare false false
    let body : Expr := .invoke (.name "type") [.value (.own (.int 1))]
    c.HasStandardGlobals ∧ (∀ s, body.Visits (.name s) → s ≠ "apply") ∧
      raised? ((evaluate (.expr (Expr.applied ["apply"] body [.own (.int 5)]))).outcome c).1 =
        some (.notCallable "int:5") ∧
      ((evaluate (.expr (Expr.applied [] body []))).outcome c).1 = .ok (.own (.str "int")) := by
  refine ⟨hasStandardGlobals_bare false false, fun s hs => ?_, by decide +kernel, rfl⟩
  obtain _ | ⟨hp, hd⟩ := hs
  rcases List.mem_cons.1 hp with rfl | hp
  · obtain _ | ⟨hq, -⟩ := hd
    · decide
    · cases hq
  · obtain rfl := List.mem_singleton.1 hp
    obtain _ | ⟨hq, -⟩ := hd
    cases hq

end Calculator

end StackCalc
