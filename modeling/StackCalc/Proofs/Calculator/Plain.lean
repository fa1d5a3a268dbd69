import StackCalc.Proofs.Expr.Plain
import StackCalc.Proofs.Calculator.Admitted

/-! # Calculators without functions of the host

A calculator that is asked for plain things only, and never to register a function of the host, holds plain
values only: being plain is a vocabulary (`Reached.plain`). -/

namespace StackCalc

variable [Leeway]

/-- A function to be called from outside: a name, or a plain value. -/
def Calculator.Target.Plain : Calculator.Target → Prop
  | .name _ => True
  | .value v => v.Plain

/-- **A request that involves no function of the host.** -/
def Request.Plain : Request → Prop
  | register _ | shuffle _ => False
  | define _ d | value d | leaf d => d.Plain
  | evaluate p | execute p | literal p => p.Plain
  | call target args _ => target.Plain ∧ ∀ d ∈ args, d.Plain
  | invoke fn stack args _ => fn.Plain ∧ (∀ v ∈ stack, v.Plain) ∧ ∀ n, args = some n → Leeway.Allows n
  | stepwise steps stack => PlainSteps steps ∧ ∀ v ∈ stack, v.Plain
  | matchPart _ v => v.Plain
  | matchPattern p vs => p.Plain ∧ ∀ v ∈ vs, v.Plain
  | codecs _ | tree _ | text .. | callOf .. | block _ | code _ | dump _ | load _ => True

instance : OpenVocabulary where
  toVocabulary := inferInstance
  name _ := trivial
  scope _ := trivial
  builder _ := trivial
  step _ _ := trivial

theorem Program.Plain.admitted {p : Program} (h : p.Plain) : p.Admitted := by
  intro steps hsteps
  have hcompile := h.yields_compile
  rw [hsteps] at hcompile
  exact hcompile.of_ok

theorem Request.Plain.admitted {r : Request} (h : r.Plain) : r.Admitted := by
  cases r with
  | register f => exact h.elim
  | shuffle s => exact h.elim
  | define _ d | value d | leaf d => exact Data.Plain.holds h
  | evaluate p | execute p | literal p => exact Program.Plain.admitted h
  | call target args _ =>
    refine ⟨?_, fun d hd => (h.2 d hd).holds⟩
    cases target with
    | name s => trivial
    | value v => exact Value.Plain.admitted h.1
  | invoke fn stack args _ => exact ⟨Value.Plain.admitted h.1, fun v hv => (h.2.1 v hv).admitted, h.2.2⟩
  | stepwise steps stack => exact ⟨fun i hi => (h.1 i hi).admitted, fun v hv => (h.2 v hv).admitted⟩
  | matchPart part v => exact Value.Plain.admitted h
  | matchPattern p vs => exact ⟨Pattern.Plain.admitted h.1, fun v hv => (h.2 v hv).admitted⟩
  | _ => trivial

/-- **Without functions of the host, all values stay plain**: whatever has been asked of a calculator. -/
theorem Calculator.Reached.plain {c : Calculator} (h : Reached Request.Plain c) : c.Admitted :=
  h.admitted fun _ => Request.Plain.admitted

end StackCalc
