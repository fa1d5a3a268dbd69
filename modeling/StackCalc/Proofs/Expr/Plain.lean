import StackCalc.Proofs.Expr.Visits
import StackCalc.Proofs.Value.Plain
import StackCalc.Calculator.Run

/-! # Plain programs

An expression whose values are plain is compiled to steps that are admitted, or compilation ends in a fault that
is to be expected. -/

namespace StackCalc

variable [Leeway]

mutual

/-- **An expression whose values are plain.** -/
inductive Expr.Plain : Expr → Prop where
  | value {v : Value} (h : v.Plain) : Expr.Plain (.value v)
  | name (s : Text) : Expr.Plain (.name s)
  | call (name : Text) {args : List Expr} (h : ∀ e ∈ args, Expr.Plain e) : Expr.Plain (.call name args)
  | binary (op : BinaryOp) {l r : Expr} (hl : Expr.Plain l) (hr : Expr.Plain r) : Expr.Plain (.binary op l r)
  | unary (op : UnaryOp) {a : Expr} (h : Expr.Plain a) : Expr.Plain (.unary op a)
  | bracket {items : List Expr} (h : ∀ e ∈ items, Expr.Plain e) : Expr.Plain (.bracket items)
  | invoke {t : Expr} {args : List Expr} (ht : Expr.Plain t) (h : ∀ e ∈ args, Expr.Plain e) :
      Expr.Plain (.invoke t args)
  | block (serial : Nat) {b : Expr} (h : Expr.Plain b) : Expr.Plain (.block serial b)
  | matching (serial : Nat) {clauses : List Clause} (h : ∀ c ∈ clauses, Clause.Plain c) :
      Expr.Plain (.matching serial clauses)

inductive Clause.Plain : Clause → Prop where
  | mk {literals : List Expr} {actions : List Action} (hliterals : ∀ e ∈ literals, Expr.Plain e)
      (hactions : ∀ a ∈ actions, Action.Plain a) : Clause.Plain (.mk literals actions)

inductive Action.Plain : Action → Prop where
  | guarded {guard action : Expr} (hguard : Expr.Plain guard) (haction : Expr.Plain action) :
      Action.Plain (.guarded guard action)
  | fallback {action : Expr} (h : Expr.Plain action) : Action.Plain (.fallback action)

end

/-- Steps that are plain. -/
def PlainSteps (steps : List Instr) : Prop := ∀ i ∈ steps, i.Plain

/-- An expression with plain values, or plain steps. -/
inductive Program.Plain : Program → Prop where
  | expr {e : Expr} (h : e.Plain) : Program.Plain (.expr e)
  | steps {steps : List Instr} (h : PlainSteps steps) : Program.Plain (.steps steps)

/-! ### Compilation -/

theorem Expr.ends_paramNames (es : List Expr) : Ends (Expr.paramNames es) := by
  induction es with
  | nil => exact Ends.ok _
  | cons e rest ih =>
    unfold Expr.paramNames
    cases e with
    | name s => exact ih.bind fun _ => Ends.pure _
    | _ => exact .error (Expr.tolerated_faultWith (fun _ => .reported rfl) _)

theorem Expr.ends_params (e : Expr) : Ends e.params := by
  cases e with
  | name s => exact Ends.ok _
  | bracket items => exact Expr.ends_paramNames items
  | _ => exact .error (Expr.tolerated_faultWith (fun _ => .reported rfl) _)

namespace Expr.Plain

/-- The parts of a plain expression are plain. -/
theorem part {e p : Expr} (h : e.Plain) (hp : p ∈ e.parts) : p.Plain := by
  cases h with
  | value _ | name _ => cases hp
  | call _ h | bracket h => exact h p hp
  | @binary op l r hl hr =>
    have hboth : p ∈ [l, r] → p.Plain := by
      simp only [List.mem_cons, List.not_mem_nil, or_false]
      rintro (rfl | rfl)
      · exact hl
      · exact hr
    cases op with
    | lambda => exact hboth (List.mem_cons_of_mem _ hp)
    | split => cases hp
    | _ => exact hboth hp
  | unary _ h | block _ h => exact List.mem_singleton.1 hp ▸ h
  | invoke ht h =>
    rcases List.mem_cons.1 hp with rfl | hp
    · exact ht
    · exact h p hp
  | matching _ h =>
    obtain ⟨clause, hclause, hp⟩ := List.mem_flatMap.1 hp
    cases h clause hclause with
    | mk hliterals hactions =>
      rcases List.mem_append.1 hp with hp | hp
      · exact hliterals p hp
      · obtain ⟨action, haction, hp⟩ := List.mem_flatMap.1 hp
        cases hactions action haction with
        | guarded hguard hdone =>
          simp only [Action.parts, List.mem_cons, List.not_mem_nil, or_false] at hp
          rcases hp with rfl | rfl
          · exact hguard
          · exact hdone
        | fallback h => exact List.mem_singleton.1 hp ▸ h

theorem visits {e d : Expr} (h : e.Plain) (hd : e.Visits d) : d.Plain := by
  induction hd with
  | self => exact h
  | part hp _ ih => exact ih (h.part hp)

theorem fits {e : Expr} (h : e.Plain) : e.Fits Vocabulary.Admits where
  mentions x hx := by
    rcases Expr.mentions_cases hx with ⟨v, rfl, hx⟩ | ⟨s, rfl⟩
    · cases h with
      | value h => exact h.admitted x hx
    · trivial
  complaint f hf := by
    cases e with
    | binary op l r =>
      cases op with
      | lambda => exact (raised?_eq_some.1 hf ▸ l.ends_params).of_error
      | split =>
        cases hf
        exact .reported rfl
      | _ => cases hf
    | _ => cases hf

end Expr.Plain

/-- **A plain program has admitted steps**, if it can be compiled. -/
theorem Program.Plain.yields_compile {p : Program} (h : p.Plain) :
    Yields (fun steps => ∀ i ∈ steps, i.Admitted) p.compile := by
  cases h with
  | expr h => exact Expr.yields_compileAs .operand _ fun d hd => (h.visits hd).fits
  | steps h => exact .ok fun i hi => (h i hi).admitted

end StackCalc
