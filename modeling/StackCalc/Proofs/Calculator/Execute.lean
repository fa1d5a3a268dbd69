import StackCalc.Proofs.Calculator.Plain

/-! # Reports of executions

`execute` runs a program on an empty stack, with nothing printed, and reports how that ends. What is
reported is compared here with the run of the steps by itself (`Calculator.runAlone`): the values that are
left on its stack, or the fault it ends in, and the lines it has printed, in order. The report of a fault
adds one line on stderr; all lines before it are output (`execute_reports`).

No report is made of three faults, which leave `execute` as they are: a number too large for a floating-point
number, an integer with too many digits for a text, and a template that sets one delimiter where it takes
two. A fourth is a negative number of arguments, if code has the leeway to declare one. For no other reason
does `execute` fail, if no function of the host takes part. -/

namespace StackCalc

namespace Calculator

open Calculation (outcome_bind_of_ok outcome_bind_of_error outcome_tryCatch)
open Run (Steady)

/-! ### The run by itself -/

/-- The machine on which a program starts: an empty stack, and nothing printed. -/
def start (c : Calculator) : Machine := { c.machine with storage := [], effects := #[] }

/-- How the steps of a program end by themselves. -/
def stepsAlone (c : Calculator) (steps : List Instr) : Except Fault Unit × Machine :=
  (runSteps call ⟨globalScope, .whole, c.traced⟩ steps).outcome c.start

/-- **What comes of a program by itself**: the values that its steps leave on the stack, or the fault they end
in, and what they have printed, in order. A program that cannot be compiled prints nothing. -/
def runAlone (c : Calculator) (p : Program) : Except Fault (List Value) × List Effect :=
  match p.compile with
  | .error f => (.error f, [])
  | .ok steps =>
    let (result, m) := c.stepsAlone steps
    (result.map fun _ => m.storage.reverse, m.effects.toList)

theorem runAlone_of_error {p : Program} {f : Fault} (h : p.compile = .error f) (c : Calculator) :
    c.runAlone p = (.error f, []) := by
  unfold runAlone
  rw [h]

theorem runAlone_of_ok {p : Program} {steps : List Instr} (h : p.compile = .ok steps) (c : Calculator) :
    c.runAlone p = ((c.stepsAlone steps).1.map fun _ => (c.stepsAlone steps).2.storage.reverse,
      (c.stepsAlone steps).2.effects.toList) := by
  unfold runAlone
  rw [h]

/-- A calculator that has forgotten what it printed. -/
def cleared (c : Calculator) : Calculator := { c with machine := { c.machine with effects := #[] } }

theorem outcome_runAside (c : Calculator) (steps : List Instr) :
    (runAside call globalScope c.traced (.mk [] steps)).outcome c.cleared.machine =
      ((c.stepsAlone steps).1.map fun _ => (c.stepsAlone steps).2.storage.reverse,
        { (c.stepsAlone steps).2 with storage := c.machine.storage }) := by
  let frame : Frame := ⟨globalScope, .whole, c.traced⟩
  have haside : (runAside call globalScope c.traced (.mk [] steps)).outcome c.cleared.machine =
      (((runSteps call frame steps >>= fun _ => Run.values frame).outcome c.start).1,
        { ((runSteps call frame steps >>= fun _ => Run.values frame).outcome c.start).2 with
          storage := c.machine.storage }) := rfl
  rw [haside]
  rcases hrun : c.stepsAlone steps with ⟨f | ⟨⟩, m⟩
  · rw [Run.outcome_bind_of_error hrun]
    rfl
  · have hvalues : (Run.values frame).outcome m = (.ok m.storage.reverse, m) := by
      rw [Run.outcome_values]
      exact congrArg (fun vs => (Except.ok (List.reverse vs), m)) List.take_length
    rw [Run.outcome_bind_of_ok hrun, hvalues]
    rfl

/-- The program that `execute` runs is the run by itself: the stack that is laid aside for it plays no part. -/
theorem outcome_runProgram (p : Program) (c : Calculator) : ∃ c', (runProgram p).outcome c.cleared =
    ((c.runAlone p).1, c') ∧ c'.machine.effects.toList = (c.runAlone p).2 := by
  unfold runProgram
  rcases hp : p.compile with f | steps
  · rw [runAlone_of_error hp]
    exact ⟨c.cleared, rfl, rfl⟩
  · have hsteps : (liftM (Except.ok steps : Except Fault (List Instr)) : Calculation (List Instr)).outcome c.cleared =
        (.ok steps, c.cleared) := rfl
    have htraced : c.cleared.traced = c.traced := rfl
    rw [runAlone_of_ok hp, outcome_bind_of_ok hsteps, Calculation.outcome_current_bind, htraced,
      Calculation.outcome_run_of_eq (c.outcome_runAside steps)]
    exact ⟨_, rfl, rfl⟩

/-! ### The report -/

theorem outcome_reportFault {f : Fault} (hf : f.isReported = true) (c : Calculator) :
    ((reportFault f).outcome c).1 = .ok ⟨.error f.report, c.machine.effects.toList ++ [⟨.stderr, f.report⟩]⟩ := by
  obtain ⟨log, hlog⟩ := Run.outcome_note (.runFailed f.report) c.machine
  have hemit : (Run.emit .stderr f.report).outcome { c.machine with log := log } =
      (.ok (), { c.machine with log := log, effects := c.machine.effects.push ⟨.stderr, f.report⟩ }) := rfl
  unfold reportFault
  rw [if_pos hf, outcome_bind_of_ok (Calculation.outcome_run_of_eq hlog),
    outcome_bind_of_ok (Calculation.outcome_run_of_eq hemit)]
  change Except.ok (Execution.mk _ (c.machine.effects.push _).toList) = _
  rw [Array.toList_push]

theorem reportFault_eq_throw {f : Fault} (hf : f.isReported = false) : reportFault f = throw f :=
  if_neg (by rw [hf]; decide)

section
variable [Leeway]

/-- **The steps of a plain program end as is to be expected**, and print lines of output only. -/
theorem Admitted.runAlone {c : Calculator} (hc : c.Admitted) {p : Program} (hp : p.Plain) :
    Ends (c.runAlone p).1 ∧ ∀ e ∈ (c.runAlone p).2, e.channel = .stdout := by
  have hcompile := hp.yields_compile
  rcases hp : p.compile with f | steps <;> rw [hp] at hcompile
  · rw [runAlone_of_error hp]
    exact ⟨.error hcompile.of_error, fun e he => by cases he⟩
  · have hstart : c.start.Congruent c.start :=
      { hc with storage := rfl, effects := rfl, values := fun v hv => by cases hv }
    have hsteps : Steady 0 (fun _ => True) (runSteps call ⟨globalScope, .whole, c.traced⟩ steps) :=
      runSteps_steady (steady_callAt depthLimit) (Frame.admitted ⟨globalScope, .whole, c.traced⟩) hcompile.of_ok
    obtain ⟨-, hends, -, hcont⟩ := hsteps c.start c.start hstart (Nat.zero_le _)
    obtain ⟨lines, hlines, hout⟩ := hcont.printed
    have hprinted : (c.stepsAlone steps).2.effects.toList = lines := hlines
    rw [runAlone_of_ok hp, hprinted]
    exact ⟨hends.map fun _ _ => trivial, hout⟩

/-- **What `execute` makes of a run**: a report of the values, a report of the fault with a line on stderr
after those of the run, or a fault that it does not report: one of the three, or a negative number of
arguments. -/
inductive Reports (run : Except Fault (List Value) × List Effect) : Except Fault Execution → Prop where
  | values {vs : List Value} (h : run.1 = .ok vs) : Reports run (.ok ⟨.ok vs, run.2⟩)
  | fault {f : Fault} (h : run.1 = .error f) (hf : f.isReported = true) :
      Reports run (.ok ⟨.error f.report, run.2 ++ [⟨.stderr, f.report⟩]⟩)
  | slip {f : Fault} (h : run.1 = .error f) (hf : f.isSlip = true) : Reports run (.error f)
  | negative {n : Int} (h : run.1 = .error (.negativeView n)) (hn : n < 0) (hleeway : Leeway.negative) :
      Reports run (.error (.negativeView n))

/-- **An execution reports the run by itself**, for every program without functions of the host on every
calculator that has not been given one. For a program that renders a template, it is assumed that rendering
fails for no other reasons than those that `Template` gives, which are those of pystache 0.6.8. -/
theorem execute_reports {c : Calculator} (hc : Reached Request.Plain c) {p : Program} (hp : p.Plain) :
    Reports (c.runAlone p) ((execute p).outcome c).1 ∧ ∀ e ∈ (c.runAlone p).2, e.channel = .stdout := by
  obtain ⟨hends, hout⟩ := hc.plain.runAlone hp
  obtain ⟨c', hrun, hprinted⟩ := outcome_runProgram p c
  refine ⟨?_, hout⟩
  have hclear : clearEffects.outcome c = (.ok (), c.cleared) := rfl
  rw [execute_eq, outcome_bind_of_ok hclear, outcome_tryCatch]
  rcases hresult : (c.runAlone p).1 with f | vs <;> rw [hresult] at hrun hends
  · rw [outcome_bind_of_error hrun]
    dsimp only
    cases hends.of_error with
    | reported hf =>
      rw [outcome_reportFault hf, hprinted]
      exact .fault hresult hf
    | slip hf =>
      rw [reportFault_eq_throw (Fault.not_isReported_of_isSlip hf)]
      exact .slip hresult hf
    | negative hn hleeway =>
      rw [reportFault_eq_throw rfl]
      exact .negative hresult hn hleeway
  · have hreport : (do return (⟨.ok vs, ← effects⟩ : Execution) : Calculation Execution).outcome c' =
        (.ok ⟨.ok vs, c'.machine.effects.toList⟩, c') := rfl
    rw [outcome_bind_of_ok hrun, hreport, hprinted]
    exact .values hresult

end

/-- A sum, on a new calculator. -/
theorem execute_reports_sum :
    let _ : Leeway := .none
    let c := bare false false
    let p : Program := .expr (.binary .add (.value (.own (.int 3))) (.value (.own (.int 4))))
    Reached Request.Plain c ∧ p.Plain ∧
      (Reports (c.runAlone p) ((execute p).outcome c).1 ∧ ∀ e ∈ (c.runAlone p).2, e.channel = .stdout) ∧
      ((execute p).outcome c).1 = .ok ⟨.ok [.own (.int 7)], []⟩ := by
  intro _ c p
  have hc : Reached Request.Plain c := .bare false false
  have hp : p.Plain := .expr (.binary .add (.value (Value.plain_own (.int 3))) (.value (Value.plain_own (.int 4))))
  exact ⟨hc, hp, execute_reports hc hp, rfl⟩

/-- **An execution can fail**: the conversion of a large integer to a floating-point number is not reported,
and neither is the text of an integer with too many digits. -/
theorem execute_raises_large :
    let _ : Leeway := .none
    let c := bare false false
    let asFloat : Program := .expr (.call "float" [.value (.own (.int (Int.ofNat (Nat.pow 10 309))))])
    let asText : Program := .expr (.call "str" [.value (.own (.int (Int.ofNat (Nat.pow 10 4300))))])
    Reached Request.Plain c ∧ asFloat.Plain ∧ asText.Plain ∧
      ((execute asFloat).outcome c).1 = .error .numberTooLarge ∧
      ((execute asText).outcome c).1 = .error .tooManyDigits := by
  intro _ c asFloat asText
  have hint : ∀ (name : Text) (n : Int), (Program.expr (.call name [.value (.own (.int n))])).Plain :=
    fun name n => .expr (.call name (List.forall_mem_singleton.2 (.value (Value.plain_own (.int n)))))
  refine ⟨.bare false false, hint _ _, hint _ _, ?_, ?_⟩
  · exact raised?_eq_some.1 (by decide +kernel)
  · exact raised?_eq_some.1 (by decide +kernel)

/-- Code that a host has put together may declare fewer arguments than none. -/
example : raised? ((execute (.steps [.call "list" (some (-1)) none])).outcome (bare false false)).1 =
    some (.negativeView (-1)) := by decide +kernel

end Calculator

end StackCalc
