import StackCalc.Proofs.Run.Outcome
import StackCalc.Calculator.Run
import StackCalc.Calculator.Exchange

/-! # Outcomes of calculations

A calculation is known by its outcome on every calculator, as a run is by its outcome on every machine. A
run within a calculation changes nothing but the machine. What is written with loops or returns early is
written as a recursion or a plain sequence here, since both are in the way of the rules. `Calculation.Keeps P r`
says that a calculation leads from calculators with a property to such, however it ends. -/

namespace StackCalc

namespace Calculation

variable {α β : Type}

theorem outcome_bind (r : Calculation α) (k : α → Calculation β) (c : Calculator) :
    (r >>= k).outcome c =
      match r.outcome c with
      | (.ok a, c') => (k a).outcome c'
      | (.error e, c') => (.error e, c') := by
  rcases h : r.outcome c with ⟨a | a, c'⟩ <;>
    simp only [outcome, ExceptT.run_bind, StateT.run_bind] at h ⊢ <;> rw [h] <;> rfl

theorem outcome_bind_of_ok {r : Calculation α} {k : α → Calculation β} {c c' : Calculator} {a : α}
    (h : r.outcome c = (.ok a, c')) : (r >>= k).outcome c = (k a).outcome c' := by
  rw [outcome_bind, h]

theorem outcome_bind_of_error {r : Calculation α} {k : α → Calculation β} {c c' : Calculator} {e : Fault}
    (h : r.outcome c = (.error e, c')) : (r >>= k).outcome c = (.error e, c') := by
  rw [outcome_bind, h]

/-- A sequence that succeeds has succeeded in both parts. -/
theorem exists_of_outcome_bind_ok {r : Calculation α} {k : α → Calculation β} {c c'' : Calculator} {b : β}
    (h : (r >>= k).outcome c = (.ok b, c'')) :
    ∃ a c', r.outcome c = (.ok a, c') ∧ (k a).outcome c' = (.ok b, c'') := by
  rw [outcome_bind] at h
  rcases hr : r.outcome c with ⟨e | a, c'⟩ <;> rw [hr] at h
  · cases h
  · exact ⟨a, c', rfl, h⟩

theorem outcome_run (r : Run α) (c : Calculator) :
    (liftM r : Calculation α).outcome c =
      ((r.outcome c.machine).1, { c with machine := (r.outcome c.machine).2 }) := rfl

/-- A run that is known, within a calculation. -/
theorem outcome_run_of_eq {r : Run α} {c : Calculator} {x : Except Fault α} {m : Machine}
    (h : r.outcome c.machine = (x, m)) :
    (liftM r : Calculation α).outcome c = (x, { c with machine := m }) := by
  rw [outcome_run, h]

/-- Runs one after the other are one run. -/
theorem onMachine_bind (r : Run α) (k : α → Run β) :
    (onMachine r >>= fun a => onMachine (k a)) = onMachine (r >>= k) := by
  funext c
  change outcome (onMachine r >>= fun a => onMachine (k a)) c = outcome (onMachine (r >>= k)) c
  rw [outcome_bind]
  have hr : (onMachine r).outcome c = ((r.outcome c.machine).1, { c with machine := (r.outcome c.machine).2 }) := rfl
  have hk : (onMachine (r >>= k)).outcome c =
      (((r >>= k).outcome c.machine).1, { c with machine := ((r >>= k).outcome c.machine).2 }) := rfl
  rw [hr, hk, Run.outcome_bind]
  rcases r.outcome c.machine with ⟨e | a, m⟩ <;> rfl

theorem outcome_current_bind (k : Calculator → Calculation α) (c : Calculator) :
    (current >>= k).outcome c = (k c).outcome c := rfl

theorem outcome_tryCatch (r : Calculation α) (k : Fault → Calculation α) (c : Calculator) :
    (tryCatch r k).outcome c =
      match r.outcome c with
      | (.ok a, c') => (.ok a, c')
      | (.error e, c') => (k e).outcome c' := by
  rcases h : r.outcome c with ⟨e | a, c'⟩ <;>
  · have hrun : r c = _ := h
    unfold outcome tryCatch
    simp only [instMonadExceptOfMonadExceptOf, tryCatchThe, MonadExceptOf.tryCatch, ExceptT.tryCatch,
      ExceptT.run_mk, StateT.run, bind, StateT.bind]
    rw [hrun]
    rfl

end Calculation

/-! ### Executions -/

namespace Calculator

open Calculation (outcome_bind outcome_tryCatch)

/-- What is reported of a fault, if it is one of the program's making. -/
def reportFault (f : Fault) : Calculation Execution :=
  if f.isReported then do
    Run.note (.runFailed f.report)
    Run.emit .stderr f.report
    return ⟨.error f.report, ← effects⟩
  else throw f

theorem execute_eq (p : Program) :
    execute p = (do
      clearEffects
      tryCatch (do
        let vs ← runProgram p
        return ⟨.ok vs, ← effects⟩) reportFault) := by
  unfold execute reportFault
  refine bind_congr fun _ => ?_
  generalize runProgram p = r
  funext c
  change Calculation.outcome _ c = Calculation.outcome _ c
  rw [outcome_bind, outcome_tryCatch, outcome_tryCatch, outcome_bind r, outcome_bind r]
  rcases r.outcome c with ⟨f | vs, c'⟩
  · by_cases hf : f.isReported = true
    · simp only [hf, if_true]
      rfl
    · simp only [hf]
      rfl
  · rfl

/-- A program that has been compiled is run on a stack of its own. -/
theorem outcome_runProgram_of_ok {p : Program} {steps : List Instr} (h : p.compile = .ok steps) (c : Calculator) :
    ((runProgram p).outcome c).1 = ((runAside call globalScope c.traced (.mk [] steps)).outcome c.machine).1 := by
  have hsteps : (liftM (Except.ok steps : Except Fault (List Instr)) : Calculation (List Instr)).outcome c =
      (.ok steps, c) := rfl
  rw [runProgram, h, Calculation.outcome_bind_of_ok hsteps, Calculation.outcome_current_bind]
  rfl

/-- The value of a program depends on nothing but what its run leaves. -/
theorem evaluate_congr {p q : Program} {c : Calculator}
    (h : ((runProgram p).outcome c).1 = ((runProgram q).outcome c).1) :
    ((evaluate p).outcome c).1 = ((evaluate q).outcome c).1 := by
  unfold evaluate
  rw [outcome_bind, outcome_bind]
  rcases hp : (runProgram p).outcome c with ⟨x, d⟩
  rcases hq : (runProgram q).outcome c with ⟨y, d'⟩
  rw [hp, hq] at h
  obtain rfl : x = y := h
  rcases x with f | _ | ⟨v, _ | ⟨w, vs⟩⟩ <;> rfl

end Calculator

/-! ### Storing and loading -/

/-- A binding whose value gets its cells. -/
def distinguishEntry (e : Text × Value) : Run (Text × Value) := do
  return (e.1, ← Run.distinguishAll e.2)

namespace Calculator

/-- The loop over the names, written as a recursion. -/
def lookupFrom : List Text → Bindings → Run Bindings
  | [], found => pure found
  | name :: names, found => do lookupFrom names (Bindings.put name (← lookup name) found)

theorem lookupAll_eq (names : List Text) : lookupAll names = lookupFrom names [] := by
  have hloop : ∀ (names : List Text) (found : Bindings),
      (forIn names found fun name found => do
        return .yield (Bindings.put name (← lookup name) found)) = lookupFrom names found := by
    intro names
    induction names with
    | nil => exact fun found => rfl
    | cons name names ih =>
      intro found
      rw [List.forIn_cons, lookupFrom, bind_assoc]
      refine bind_congr fun v => ?_
      rw [pure_bind]
      exact ih _
  unfold lookupAll
  dsimp only
  rw [hloop, bind_pure]

/-- What is done with a record once it has been read. -/
def installRecord (size : Nat) (found : Bindings) : Calculation Bindings := do
  let store ← (found.mapM distinguishEntry : Run Bindings)
  Run.note (.storeRead size)
  Run.note (.storeActivated store.length)
  Run.putAll globalScope store
  return store

/-- A record that is broken leaves the calculator as it was. -/
theorem outcome_loadGlobals (bytes : Wire.Bytes) (c : Calculator) :
    (loadGlobals bytes).outcome c =
      match (Wire.readRecord (· == ·) Wire.readText (Wire.readValue c.codecs 0)).outcome bytes with
      | (.ok (size, found), rest) => (do return (← installRecord size found, rest)).outcome c
      | (.error f, _) => (.error f, c) := by
  unfold loadGlobals
  rw [Calculation.outcome_current_bind]
  dsimp only
  rcases (Wire.readRecord (· == ·) Wire.readText (Wire.readValue c.codecs 0)).outcome bytes with
    ⟨f | ⟨size, found⟩, rest⟩
  · rfl
  · unfold installRecord
    simp only [bind_assoc, pure_bind]
    rfl

end Calculator

/-! ### Properties that stay -/

namespace Calculation

variable {α β : Type}

/-- **A calculation that leads from calculators with a property to such**, however it ends. -/
def Keeps (P : Calculator → Prop) (r : Calculation α) : Prop := ∀ c, P c → P (r.outcome c).2

namespace Keeps

variable {P : Calculator → Prop}

theorem pure (a : α) : Keeps P (Pure.pure a) := fun _ h => h

theorem throw (e : Fault) : Keeps P (throw e : Calculation α) := fun _ h => h

theorem lift (x : Except Fault α) : Keeps P (liftM x : Calculation α) := fun _ h => h

theorem bind {r : Calculation α} {k : α → Calculation β} (h : Keeps P r) (hk : ∀ a, Keeps P (k a)) :
    Keeps P (r >>= k) := by
  intro c hc
  have hr := h c hc
  rw [outcome_bind]
  rcases hrc : r.outcome c with ⟨e | a, c'⟩ <;> rw [hrc] at hr
  · exact hr
  · exact hk a c' hr

theorem lift_bind {x : Except Fault α} {k : α → Calculation β} (h : ∀ a, x = .ok a → Keeps P (k a)) :
    Keeps P ((liftM x : Calculation α) >>= k) := by
  rcases x with e | a
  · exact fun _ hc => hc
  · exact h a rfl

/-- What a calculation results in does not matter. -/
theorem discard {r : Calculation α} (h : Keeps P r) : Keeps P (do let _ ← r; return) := bind h fun _ => pure _

theorem current_bind {k : Calculator → Calculation α} (h : ∀ c, Keeps P (k c)) : Keeps P (current >>= k) :=
  fun c hc => h c c hc

theorem change {g : Calculator → Calculator} (h : ∀ c, P c → P (g c)) : Keeps P (change g) := h

theorem tryCatch {r : Calculation α} {k : Fault → Calculation α} (h : Keeps P r)
    (hk : ∀ e, Keeps P (k e)) : Keeps P (tryCatch r k) := by
  intro c hc
  have hr := h c hc
  rw [outcome_tryCatch]
  rcases hrc : r.outcome c with ⟨e | a, c'⟩ <;> rw [hrc] at hr
  · exact hk e c' hr
  · exact hr

theorem ite {p : Prop} [Decidable p] {r s : Calculation α} (hr : Keeps P r) (hs : Keeps P s) :
    Keeps P (if p then r else s) := by
  split_ifs
  · exact hr
  · exact hs

end Keeps

end Calculation

end StackCalc
