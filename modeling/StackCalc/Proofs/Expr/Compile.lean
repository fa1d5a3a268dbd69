import StackCalc.Proofs.Expr.Pending
import StackCalc.Proofs.Fault.Expected

/-! # The compiler is correct

The steps of an expression do what direct evaluation of its tree does: they end with its value on top of
the stack as it was, or with the same fault, and in both cases with the same scopes, the same lines
printed and the same log but for the records of the steps themselves (`runSteps_compile`). Brackets among
the operands are to have one item; of any other the steps leave any number of values.

The induction is over the tree, with the role that an expression is compiled in as the object that it is
evaluated against, and for all operands that may wait on the stack. -/

namespace StackCalc

open Run (Delivers Shared)

namespace Expr

/-- The role that an expression plays beside an object that it may name a member of. -/
def Role.against : Option Value → Role
  | none => .operand
  | some _ => .key

variable {bottom top : List Value} {keep : Event → Bool} {c : Caller} {f : Frame}

section
variable (hc : c.Orderly keep) (hf : f.view.base ≤ bottom.length)
  (ht : f.trace = false ∨ ∀ i vs, keep (.step i vs) = false)
include hc hf ht

/-- The step that calls a name with arguments that wait on the stack. -/
theorem call_delivers (name : Text) {args : List Value} {count : Nat} (h : args.length = count) :
    Delivers bottom keep (args.reverse ++ top) (runSteps c f [.callWith name count 1])
      (applyNamed c f name args) fun _ v => v :: top := by
  subst h
  exact one_delivers ht (Delivers.shared_bind (Shared.resolve f name) fun s =>
    callSymbol_delivers hc hf s args)

/-- The step that calls a value below its arguments. -/
theorem applyTo_delivers (target : Value) {args : List Value} {count : Nat} (h : args.length = count) :
    Delivers bottom keep (args.reverse ++ target :: top) (runSteps c f [.applyTo count])
      (applyNamed c f applyName (target :: args)) fun _ v => v :: top := by
  have hlen : (target :: args).length = 1 + count := by rw [List.length_cons, h, Nat.add_comm]
  have hcall : Delivers bottom keep _ _ _ fun _ v => v :: top :=
    call_delivers hc hf ht applyName hlen
  rw [List.reverse_cons, List.append_assoc] at hcall
  exact hcall

/-- The steps that push code on top of the arguments and call a name with all of them. -/
theorem callCode_delivers (name : Text) (args : List Value) (label : Label) (steps : List Instr) :
    Delivers bottom keep (args.reverse ++ top)
      (runSteps c f [.code label steps, .callWith name (args.length + 1) 1])
      (applyNamed c f name (args ++ [codeValue label steps])) fun _ v => v :: top := by
  have hcall : ∀ v, Delivers bottom keep (v :: (args.reverse ++ top))
      (runSteps c f [.callWith name (args.length + 1) 1]) (applyNamed c f name (args ++ [v]))
      fun _ v => v :: top := by
    intro v
    have hlen : (args ++ [v]).length = args.length + 1 := List.length_append
    have h : Delivers bottom keep _ _ _ fun _ v => v :: top := call_delivers hc hf ht name hlen
    rw [List.reverse_append] at h
    exact h
  exact cons_delivers ht (s := pure (codeValue label steps)) (Delivers.push _) hcall

omit hc in
/-- The steps that look a key up in the object below it. -/
theorem key_delivers (t : Value) (s : Text) :
    Delivers bottom keep (t :: top) (runSteps c f [.key s, .binary .dot]) (memberOf t (keyValue s))
      fun _ v => v :: top :=
  cons_delivers ht (s := pure (keyValue s)) (l := memberOf t) (Delivers.push _) fun v =>
    one_delivers ht (binary_delivers hf .dot t v)

omit hc in
theorem close_delivers (object : Option Value) {steps : List Instr} {s : Run Value}
    (h : Delivers bottom keep (object.toList ++ top) (runSteps c f steps) s
      fun _ v => v :: (object.toList ++ top)) :
    Delivers bottom keep (object.toList ++ top) (runSteps c f ((Role.against object).close steps))
      (s >>= memberOf? object) fun _ v => v :: top := by
  cases object with
  | none =>
    change Delivers bottom keep top (runSteps c f steps) (s >>= fun v => pure v) _
    rw [bind_pure]
    exact h
  | some t => exact append_delivers h fun v => one_delivers ht (binary_delivers hf .dot t v)

omit hc in
/-- The operators that both operands are evaluated for. -/
theorem operation_delivers (object : Option Value) {op : BinaryOp} {left right : List Instr}
    {s : Run Value} {l : Run Value}
    (hl : Delivers bottom keep (object.toList ++ top) (runSteps c f left) s
      fun _ v => v :: (object.toList ++ top))
    (hr : ∀ x, Delivers bottom keep (x :: (object.toList ++ top)) (runSteps c f right) l
      fun _ v => v :: x :: (object.toList ++ top)) :
    Delivers bottom keep (object.toList ++ top)
      (runSteps c f ((Role.against object).close (left ++ right ++ [.binary op])))
      (do
        let x ← s
        let y ← l
        memberOf? object (← computed (Operator.binary op x y))) fun _ v => v :: top := by
  have h := close_delivers hf ht object (append_delivers hl fun x => append_delivers (hr x) fun y =>
    one_delivers (c := c) ht (binary_delivers hf op x y))
  simp only [bind_assoc] at h
  rw [List.append_assoc]
  exact h

omit hc hf ht in
/-- What follows on one value more than there are others. -/
theorem more_delivers {count : Nat} {β : Type} {l : List Value → Run β} {rest : List Instr}
    {out : β → List Value} (hk : ∀ vs, vs.length = count + 1 →
      Delivers bottom keep (vs.reverse ++ top) (runSteps c f rest) (l vs) fun _ b => out b)
    (v : Value) (vs : List Value) (hvs : vs.length = count) :
    Delivers bottom keep (vs.reverse ++ v :: top) (runSteps c f rest) (l (v :: vs))
      fun _ b => out b := by
  have hv := hk (v :: vs) (by rw [List.length_cons, hvs])
  rw [List.reverse_cons, List.append_assoc] at hv
  exact hv

/-- The programs of clauses are values; it is the calls that build the patterns. -/
theorem evaluateClauses_delivers (n : Nat) : ∀ (clauses : List Clause) (i : Nat) (steps : List Instr),
    compileClauses n i clauses = .ok steps → ∀ {β : Type} {l : List Value → Run β}
    {rest : List Instr} {top : List Value} {out : β → List Value},
    (∀ vs, vs.length = clauses.length →
      Delivers bottom keep (vs.reverse ++ top) (runSteps c f rest) (l vs) fun _ b => out b) →
    Delivers bottom keep top (runSteps c f (steps ++ rest)) (evaluateClauses c f n i clauses >>= l)
      fun _ b => out b
  | [], i, steps, h, _, l, rest, top, out, hk => by
    cases h
    exact hk [] rfl
  | .mk literals actions :: clauses, i, steps, h, _, l, rest, top, out, hk => by
    obtain ⟨parts, hparts, h⟩ := exists_of_bind_ok h
    obtain ⟨acts, hacts, h⟩ := exists_of_bind_ok h
    obtain ⟨others, hothers, h⟩ := exists_of_bind_ok h
    cases h
    rw [List.append_assoc, evaluateClauses, hparts, hacts]
    change Delivers bottom keep top _ ((applyNamed c f patternName _ >>= _) >>= l) _
    rw [bind_assoc]
    refine append_delivers (callCode_delivers hc hf ht patternName [] _ _) fun p => ?_
    rw [bind_assoc]
    exact evaluateClauses_delivers n clauses (i + 1) others hothers (more_delivers hk p)

set_option linter.unusedSectionVars false in
mutual

theorem evaluateAs_delivers : ∀ (e : Expr) (object : Option Value) (top : List Value)
    (steps : List Instr), e.Single → e.compileAs (Role.against object) = .ok steps →
    Delivers bottom keep (object.toList ++ top) (runSteps c f steps) (e.evaluateAs c f object)
      fun _ v => v :: top
  | .value v, object, top, steps, _, h => by
    cases h
    exact close_delivers hf ht object (s := pure v) (one_delivers ht (Delivers.push v))
  | .name s, object, top, steps, _, h => by
    cases object with
    | none =>
      cases h
      exact one_delivers ht (get_delivers s)
    | some t =>
      cases h
      exact key_delivers hf ht t s
  | .call n args, object, top, steps, he, h => by
    obtain ⟨given, hgiven, h⟩ := exists_of_bind_ok h
    cases object with
    | none =>
      cases h
      exact evaluateAll_delivers args top given he hgiven fun vs hvs =>
        call_delivers hc hf ht n hvs
    | some t =>
      cases h
      rw [List.append_assoc]
      exact append_delivers (key_delivers hf ht t n) fun target =>
        evaluateAll_delivers args (target :: top) given he hgiven fun vs hvs =>
          applyTo_delivers hc hf ht target hvs
  | .binary op l r, object, top, steps, he, h => by
    unfold compileAs at h
    unfold evaluateAs
    unfold Single at he
    cases op with
    | lambda =>
      obtain ⟨names, hnames, h⟩ := exists_of_bind_ok h
      obtain ⟨body, hbody, h⟩ := exists_of_bind_ok h
      cases h
      rw [hnames, compile, hbody]
      exact close_delivers hf ht object (one_delivers ht (closure_delivers names body))
    | split => cases h
    | dot =>
      obtain ⟨target, htarget, h⟩ := exists_of_bind_ok h
      obtain ⟨member, hmember, h⟩ := exists_of_bind_ok h
      cases h
      dsimp only
      rw [← bind_assoc]
      refine close_delivers hf ht object ?_
      exact append_delivers (evaluateAs_delivers l none (object.toList ++ top) target he.1 htarget)
        fun t => evaluateAs_delivers r (some t) (object.toList ++ top) member he.2 hmember
    | _ =>
      obtain ⟨left, hleft, h⟩ := exists_of_bind_ok h
      obtain ⟨right, hright, h⟩ := exists_of_bind_ok h
      cases h
      exact operation_delivers hf ht object
        (evaluateAs_delivers l none (object.toList ++ top) left he.1 hleft) fun x =>
          evaluateAs_delivers r none (x :: (object.toList ++ top)) right he.2 hright
  | .unary op a, object, top, steps, he, h => by
    obtain ⟨operand, hoperand, h⟩ := exists_of_bind_ok h
    cases h
    unfold evaluateAs
    rw [← bind_assoc]
    refine close_delivers hf ht object ?_
    exact append_delivers (evaluateAs_delivers a none (object.toList ++ top) operand he hoperand)
      fun v => one_delivers ht (unary_delivers hf op v)
  | .bracket items, object, top, steps, he, h => by
    obtain ⟨given, hgiven, h⟩ := exists_of_bind_ok h
    cases h
    unfold evaluateAs
    rw [← bind_assoc]
    refine close_delivers hf ht object ?_
    rw [← List.append_nil given]
    refine evaluateAll_delivers items (object.toList ++ top) given he.2 hgiven fun vs hvs => ?_
    obtain ⟨v, rfl⟩ := List.length_eq_one_iff.mp (hvs.trans he.1)
    exact Delivers.pure (b := v) rfl
  | .invoke t args, object, top, steps, he, h => by
    obtain ⟨target, htarget, h⟩ := exists_of_bind_ok h
    obtain ⟨given, hgiven, h⟩ := exists_of_bind_ok h
    cases h
    rw [List.append_assoc]
    exact append_delivers (evaluateAs_delivers t object top target he.1 htarget) fun v =>
      evaluateAll_delivers args (v :: top) given he.2 hgiven fun vs hvs =>
        applyTo_delivers hc hf ht v hvs
  | .block n b, object, top, steps, _, h => by
    obtain ⟨body, hbody, h⟩ := exists_of_bind_ok h
    unfold evaluateAs
    rw [compile, hbody]
    cases object with
    | none =>
      cases h
      exact one_delivers ht (s := pure (codeValue [n] body)) (Delivers.push _)
    | some t =>
      cases h
      exact callCode_delivers hc hf ht withName [t] [n] body
  | .matching n clauses, object, top, steps, _, h => by
    obtain ⟨patterns, hpatterns, h⟩ := exists_of_bind_ok h
    cases h
    unfold evaluateAs
    rw [← bind_assoc]
    refine close_delivers hf ht object ?_
    exact evaluateClauses_delivers hc hf ht n clauses 0 patterns hpatterns fun vs hvs =>
      call_delivers hc hf ht matchName hvs

theorem evaluateAll_delivers : ∀ (es : List Expr) (top : List Value) (steps : List Instr),
    AllSingle es → compileAll es = .ok steps → ∀ {β : Type} {l : List Value → Run β}
    {rest : List Instr} {out : β → List Value},
    (∀ vs, vs.length = es.length →
      Delivers bottom keep (vs.reverse ++ top) (runSteps c f rest) (l vs) fun _ b => out b) →
    Delivers bottom keep top (runSteps c f (steps ++ rest)) (evaluateAll c f es >>= l) fun _ b => out b
  | [], top, steps, _, h, _, l, rest, out, hk => by
    cases h
    exact hk [] rfl
  | e :: es, top, steps, hes, h, _, l, rest, out, hk => by
    obtain ⟨first, hfirst, h⟩ := exists_of_bind_ok h
    obtain ⟨others, hothers, h⟩ := exists_of_bind_ok h
    cases h
    rw [List.append_assoc, evaluateAll, bind_assoc]
    refine append_delivers (evaluateAs_delivers e none top first hes.1 hfirst) fun v => ?_
    rw [bind_assoc]
    exact evaluateAll_delivers es (v :: top) others hes.2 hothers (more_delivers hk v)

end

end

end Expr

/-! ### Whole expressions -/

/-- **The steps of an expression do what direct evaluation does.** If the tree comes to a value they
leave that value on top of the stack as it was, and if it comes to a fault they come to the same one;
either way scopes, lines printed and all the rest are the same, and so are the logs, up to the records of
steps if the frame is traced. -/
theorem runSteps_compile (depth : Nat) (f : Frame) (e : Expr) (m : Machine) (he : e.Single)
    (hf : f.view.base ≤ m.storage.length) (hb : m.Balanced) :
    let keep : Event → Bool := fun event => !(f.trace && event.isStep)
    let compiled : Run Unit := do runSteps (callAt depth) f (← e.compile)
    match (e.evaluate (callAt depth) f).outcome m with
    | (.ok v, n) => ∃ m', compiled.outcome m = (.ok (), m') ∧ m'.storage = v :: m.storage ∧
        m'.Agrees keep n
    | (.error fault, n) => ∃ m', compiled.outcome m = (.error fault, m') ∧ m'.Agrees keep n := by
  intro keep compiled
  have hcheck : e.check = e.compile.map fun _ => () := e.check_eq .operand
  rw [Expr.evaluate, Run.outcome_lift_bind, hcheck]
  rcases hsteps : e.compile with fault | steps
  · refine ⟨m, ?_, Machine.Agrees.refl keep m⟩
    simp only [compiled, hsteps]
    rfl
  · have ht : f.trace = false ∨ ∀ i vs, keep (.step i vs) = false := by
      rcases hft : f.trace with _ | _
      · exact .inl rfl
      · exact .inr fun i vs => by simp [keep, hft, Event.isStep]
    have hm : m.Pending m.storage keep [] m := { Machine.Agrees.refl keep m with
      storage := rfl
      kept := rfl
      balanced := hb }
    have h := Expr.evaluateAs_delivers (orderly_callAt keep depth) hf ht e none [] steps he hsteps
      m m hm
    have hrun : compiled.outcome m = (runSteps (callAt depth) f steps).outcome m := by
      simp only [compiled, hsteps]
      rfl
    rw [hrun]
    dsimp only [Except.map]
    generalize (runSteps (callAt depth) f steps).outcome m = x at h
    generalize (e.evaluateAs (callAt depth) f none).outcome m = y at h
    cases h with
    | result h => exact ⟨_, rfl, h.storage, h.toAgrees⟩
    | fault h => exact ⟨_, rfl, h⟩

/-- A sum with a bracket in it, on a stack with a value in wait. -/
theorem runSteps_compile_sum :
    let int (n : Int) : Value := .own (.int n)
    let f : Frame := ⟨globalScope, View.whole, false⟩
    let m : Machine := { (Calculator.bare false false).machine with storage := [int 7] }
    let e : Expr := .binary .add (.value (int 1)) (.bracket [.value (int 2)])
    e.Single ∧ f.view.base ≤ m.storage.length ∧ m.Balanced ∧
      ∃ m', (do runSteps (callAt 1) f (← e.compile) : Run Unit).outcome m = (.ok (), m') ∧
        m'.storage = [int 3, int 7] := by
  intro int f m e
  have he : e.Single := ⟨trivial, rfl, trivial, trivial⟩
  have hb : m.Balanced := fun s hs => by simp [m, Calculator.bare, Machine.empty] at hs
  refine ⟨he, Nat.zero_le _, hb, ?_⟩
  obtain ⟨m', h, hs, -⟩ := runSteps_compile 1 f e m he (Nat.zero_le _) hb
  exact ⟨m', h, hs⟩

end StackCalc
