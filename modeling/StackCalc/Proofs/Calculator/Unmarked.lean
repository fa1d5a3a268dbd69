import StackCalc.Proofs.Calculator.Admitted
import StackCalc.Proofs.Expr.Misplaced

/-! # Syntax errors are the compiler's

A marker is an operator without a meaning of its own: code that holds one raises a fault of the compiler when it
runs. No expression is compiled to such code, unless its values hold it already. So a fault of the compiler is
raised by compilation, and never by a run of what has been compiled (`faults_of_syntax`): what a calculator holds
is free of markers, as long as nothing with a marker is brought in. Being free of markers is a vocabulary. -/

namespace StackCalc

open Run (Steady)

/-- Not an operator without a meaning. -/
def Mention.Meaningful : Mention → Prop
  | .operator op => op.isMarker = false
  | _ => True

/-- **No code in a value holds a marker**: no block or closure, no pattern with its guards and actions. -/
def Value.Unmarked (v : Value) : Prop := ∀ x ∈ v.mentions, x.Meaningful

/-- A step that is no marker, and neither is a step of the code that it pushes or closes over. -/
def Instr.Unmarked (i : Instr) : Prop := ∀ x ∈ i.mentions, x.Meaningful

def Pattern.Unmarked (p : Pattern) : Prop := ∀ x ∈ p.mentions, x.Meaningful

/-- An expression whose values hold no marker. -/
def Expr.Unmarked (e : Expr) : Prop := ∀ v, e.Visits (.value v) → v.Unmarked

/-- A program without markers. -/
def Program.Unmarked : Program → Prop
  | .expr e => e.Unmarked
  | .steps is => ∀ i ∈ is, i.Unmarked

/-- A function of the host that makes no markers, and does not pose as the compiler. -/
structure NativeFunction.Unmarked (fn : NativeFunction) : Prop where
  results (gives : Nat) {given vs : List Value} (h : ∀ v ∈ given, v.Unmarked)
    (hvs : (do (← fn given).spread gives) = .ok vs) : ∀ v ∈ vs, v.Unmarked
  fault (gives : Nat) {given : List Value} {f : Fault} (h : ∀ v ∈ given, v.Unmarked)
    (hf : (do (← fn given).spread gives) = .error f) : f.category ≠ .compilation

def Calculator.Target.Unmarked : Calculator.Target → Prop
  | .name _ => True
  | .value v => v.Unmarked

/-- **A request that brings no marker in.** -/
def Request.Unmarked : Request → Prop
  | register f => f.fn.Unmarked
  | define _ d | value d | leaf d => d.Holds Value.Unmarked
  | evaluate p | execute p | literal p => p.Unmarked
  | call target args _ => target.Unmarked ∧ ∀ d ∈ args, d.Holds Value.Unmarked
  | invoke fn stack _ _ => fn.Unmarked ∧ ∀ v ∈ stack, v.Unmarked
  | stepwise steps stack => (∀ i ∈ steps, i.Unmarked) ∧ ∀ v ∈ stack, v.Unmarked
  | matchPart _ v => v.Unmarked
  | matchPattern p vs => p.Unmarked ∧ ∀ v ∈ vs, v.Unmarked
  | shuffle _ | codecs _ | tree _ | text .. | callOf .. | block _ | code _ | dump _ | load _ => True

/-! ### The vocabulary -/

theorem Fault.category_of_isOrdinary {f : Fault} (h : f.isOrdinary = true) : f.category ≠ .compilation := by
  rw [isOrdinary, Bool.or_eq_true, Bool.and_eq_true] at h
  rcases h with ⟨-, h⟩ | h
  · exact bne_iff_ne.1 h
  · cases f with
    | numberTooLarge | tooManyDigits | missingDelimiter => decide
    | _ => cases h

/-- All but markers, and no fault of the compiler. -/
abbrev OpenVocabulary.unmarked : OpenVocabulary where
  Tolerates f := f.category ≠ .compilation
  tooManyDigits := by decide
  ordinary := Fault.category_of_isOrdinary
  Admits := Mention.Meaningful
  Records _ := True
  count _ := trivial
  negative _ _ := fun h => by cases h
  operator h := h
  marker h hop := absurd (hop.symm.trans h) (by decide)
  host _ := by decide
  constants := trivial
  records _ := trivial
  name _ := trivial
  scope _ := trivial
  builder _ := trivial
  step _ _ := trivial

instance : Mention.Elementary Mention.Meaningful := ⟨fun _ => trivial, fun h => h⟩

/-- No value of an expression holds a marker if those of its parts hold none. -/
theorem Expr.Unmarked.of_parts {e : Expr} (hown : ∀ x ∈ e.mentions, x.Meaningful) (h : ∀ p ∈ e.parts, p.Unmarked) :
    e.Unmarked := by
  intro v hv
  cases hv with
  | self => exact hown
  | part hp hd => exact h _ hp v hd

/-- **An expression without markers is compiled to code without markers.** -/
theorem Expr.Unmarked.compile {e : Expr} (h : e.Unmarked) {steps : List Instr} (hsteps : e.compile = .ok steps) :
    ∀ i ∈ steps, i.Unmarked := mentionOnly_of_compile h (fun _ _ _ _ => trivial) hsteps

theorem Program.Unmarked.admitted {p : Program} (h : p.Unmarked) : @Program.Admitted .unmarked p := by
  intro steps hsteps
  cases p with
  | expr e => exact Expr.Unmarked.compile h hsteps
  | steps is =>
    cases hsteps
    exact h

theorem Request.Unmarked.admitted {r : Request} (h : r.Unmarked) : @Request.Admitted .unmarked r := by
  cases r with
  | register f =>
    let _ := OpenVocabulary.unmarked
    refine ⟨fun gives given hgiven => ?_, fun _ => trivial⟩
    exact yields_iff.2 ⟨fun vs => h.results gives hgiven, fun fault => h.fault gives hgiven⟩
  | shuffle s => exact fun _ => trivial
  | evaluate p | execute p | literal p => exact Program.Unmarked.admitted h
  | call target args _ =>
    refine ⟨?_, h.2⟩
    cases target with
    | name s => trivial
    | value v => exact h.1
  | invoke fn stack args _ => exact ⟨h.1, h.2, fun _ _ => trivial⟩
  | _ => exact h

namespace Calculator

/-- What runs in a calculator without markers leaves values without markers, or ends in a fault that is not one of
the compiler. -/
theorem Reached.unmarked_runProgram {c : Calculator} (hc : Reached Request.Unmarked c) {p : Program} (hp : p.Unmarked)
    {steps : List Instr} (hsteps : p.compile = .ok steps) :
    (∀ vs, ((runProgram p).outcome c).1 = .ok vs → ∀ v ∈ vs, v.Unmarked) ∧
      ∀ f, ((runProgram p).outcome c).1 = .error f → f.category ≠ .compilation := by
  let _ := OpenVocabulary.unmarked
  have hadmitted : c.Admitted := hc.admitted fun _ => Request.Unmarked.admitted
  have hcode : (Code.mk [] steps).Admitted := Code.admitted_mk [] (hp.admitted steps hsteps)
  have hsteady : Steady 0 (fun vs => ∀ v ∈ vs, v.Admitted) (runAside call globalScope c.traced (.mk [] steps)) :=
    Steady.runAside globalScope c.traced hcode
  rw [outcome_runProgram_of_ok hsteps]
  exact yields_iff.1 (hsteady c.machine c.machine hadmitted (Nat.zero_le _)).yields

/-- **Syntax errors are errors of compilation only**, for every expression whose values hold no marker. It is
misplaced nodes that cannot be compiled, and the fault is one of the compiler, unless it is the text of the node
at fault which is missing. All else is compiled to code without markers, which never raises a fault of the
compiler: in no calculator in which nothing but such programs have been run, and nothing with a marker has been
brought in. -/
theorem faults_of_syntax {e : Expr} (he : e.Unmarked) :
    ((∃ f, e.compile = .error f) ↔ e.Misplaced) ∧
    (∀ f, e.compile = .error f → f.category = .compilation ∨ f = .tooManyDigits ∧ e.Unquotable) ∧
    ∀ steps, e.compile = .ok steps → (∀ i ∈ steps, i.Unmarked) ∧
      ∀ c, Reached Request.Unmarked c → ∀ f, ((runProgram (.expr e)).outcome c).1 = .error f →
        f.category ≠ .compilation := by
  refine ⟨?_, fun f => Expr.category_of_compile, fun steps hsteps => ⟨he.compile hsteps, fun c hc => ?_⟩⟩
  · rw [← not_iff_not, ← Expr.exists_compile_iff]
    rcases e.compile with f | steps
    · exact ⟨fun h => absurd ⟨f, rfl⟩ h, fun ⟨_, h⟩ => by cases h⟩
    · exact ⟨fun _ => ⟨steps, rfl⟩, fun _ ⟨_, h⟩ => by cases h⟩
  · exact (hc.unmarked_runProgram (p := .expr e) he hsteps).2

/-- A function that is applied, on a new calculator. -/
theorem faults_of_syntax_successor :
    let c := bare false false
    let one : Expr := .value (.own (.int 1))
    let e : Expr := .invoke (.binary .lambda (.name "n") (.binary .add (.name "n") one)) [one]
    let steps : List Instr := [.closure ["n"] [.get "n", .push (.own (.int 1)), .binary .add], .push (.own (.int 1)),
      .applyTo 1]
    Reached Request.Unmarked c ∧ e.Unmarked ∧ e.compile = .ok steps ∧ (∀ i ∈ steps, i.Unmarked) ∧ ¬ e.Misplaced ∧
      (∀ f, ((runProgram (.expr e)).outcome c).1 = .error f → f.category ≠ .compilation) ∧
      ((runProgram (.expr e)).outcome c).1 = .ok [.own (.int 2)] := by
  intro c one e steps
  have hc : Reached Request.Unmarked c := .bare false false
  have hone : one.Unmarked := .of_parts (List.forall_mem_nil _) (List.forall_mem_nil _)
  have hname : (Expr.name "n").Unmarked := .of_parts (List.forall_mem_singleton.2 trivial) (List.forall_mem_nil _)
  have hbody : (Expr.binary .add (.name "n") one).Unmarked :=
    .of_parts (List.forall_mem_nil _) (List.forall_mem_cons.2 ⟨hname, List.forall_mem_singleton.2 hone⟩)
  have hlambda : (Expr.binary .lambda (.name "n") (.binary .add (.name "n") one)).Unmarked :=
    .of_parts (List.forall_mem_nil _) (List.forall_mem_singleton.2 hbody)
  have he : e.Unmarked := .of_parts (List.forall_mem_singleton.2 trivial)
    (List.forall_mem_cons.2 ⟨hlambda, List.forall_mem_singleton.2 hone⟩)
  have hsteps : e.compile = .ok steps := rfl
  obtain ⟨hiff, -, hrun⟩ := faults_of_syntax he
  refine ⟨hc, he, hsteps, (hrun steps hsteps).1, fun h => ?_, (hrun steps hsteps).2 c hc, rfl⟩
  obtain ⟨f, hf⟩ := hiff.2 h
  cases hf.symm.trans hsteps

/-- **Compilation can end in a fault that is not one of the compiler**: the left side of a lambda that the message
would quote is a number with too many digits. -/
theorem compile_raises_large :
    let e : Expr := .binary .lambda (.value (.own (.int (Int.ofNat (Nat.pow 10 4300))))) (.value (.own (.int 1)))
    e.Unmarked ∧ e.Misplaced ∧ e.compile = .error .tooManyDigits ∧ Fault.tooManyDigits.category ≠ .compilation := by
  intro e
  refine ⟨.of_parts (List.forall_mem_nil _) ?_, ⟨e, .self e, .lambda _ ?_⟩, ?_, by decide⟩
  · exact List.forall_mem_singleton.2 (.of_parts (List.forall_mem_nil _) (List.forall_mem_nil _))
  · rintro ⟨⟩
  · exact raised?_eq_some.1 (by decide +kernel)

end Calculator

end StackCalc
