import StackCalc.Proofs.Expr.Pending
import StackCalc.Proofs.Scope.Lookup
import StackCalc.Machine.Construct

/-! # Pattern literals

A pattern literal is compiled in two passes. Its expression is run like any other, where names that are not
known stand for themselves, and then what it leaves on the stack is taken apart into what is expected.
`PatternLiteral` is the syntax of the literals, and `PatternLiteral.part` reads what is expected off the
syntax. The two agree (`compiles_to_part`): constants, names and constructors are told apart only by what
the values of placeholders are, so this rests on no other value being one (`Value.Ground`).

The induction is on the literal, with values of literals before it on the stack; what it carries along is
that names go on to stand for what they did, as no step of a literal touches a scope. -/

namespace StackCalc

/-! ### Values without placeholders -/

/-- No placeholder is among the leaves of a tree of pairs. -/
def Value.Ground : Value → Prop
  | .mk _ (.cons a b) => a.Ground ∧ b.Ground
  | .mk _ (.object (.binder ..)) => False
  | .mk _ (.object (.construction ..)) => False
  | _ => True

/-- **What is expected of a value that is known**: a pair is taken apart, anything else has to be equal. -/
def Value.expected : Value → Part
  | .mk _ (.cons a b) => .cons a.expected b.expected
  | v => .exact v

theorem Part.ofValue_of_ground : ∀ v : Value, v.Ground → Part.ofValue v = v.expected
  | .mk d p, h => by
    cases p with
    | cons a b =>
      have ha := Part.ofValue_of_ground a h.1
      have hb := Part.ofValue_of_ground b h.2
      rw [Part.ofValue, Value.expected, ha, hb]
    | object c =>
      cases c with
      | binder | construction => exact h.elim
      | struct | record | pattern | host => rfl
    | int | float | str | bool | null | code | callable | host => rfl

/-! ### Syntax -/

/-- **A pattern literal.** -/
inductive PatternLiteral where
  | value (v : Value)
  | name (s : Text)
  | cons (head tail : PatternLiteral)
  | construct (constructor : Text) (args : List PatternLiteral)

namespace PatternLiteral

variable {known : Text → Option Value}

mutual

/-- The expression that is written for a literal. -/
def toExpr : PatternLiteral → Expr
  | value v => .value v
  | name s => .name s
  | cons p q => .binary .cons p.toExpr q.toExpr
  | construct c ps => .call c (toExprs ps)

def toExprs : List PatternLiteral → List Expr
  | [] => []
  | p :: ps => p.toExpr :: toExprs ps

end

mutual

/-- The steps of a literal. -/
def steps : PatternLiteral → List Instr
  | value v => [.push v]
  | name s => [.get s]
  | cons p q => p.steps ++ q.steps ++ [.binary .cons]
  | construct c ps => stepsAll ps ++ [.callWith c ps.length 1]

def stepsAll : List PatternLiteral → List Instr
  | [] => []
  | p :: ps => p.steps ++ stepsAll ps

end

mutual

/-- **What a literal expects**, where some names are known and stand for values. -/
def part (known : Text → Option Value) : PatternLiteral → Part
  | value v => v.expected
  | name s =>
    match known s with
    | some v => v.expected
    | none => if s = wildcard then .any else .bind s
  | cons p q => .cons (p.part known) (q.part known)
  | construct c ps => .construct c (parts known ps)

def parts (known : Text → Option Value) : List PatternLiteral → List Part
  | [] => []
  | p :: ps => p.part known :: parts known ps

end

mutual

/-- Its values have no placeholders in them, and its constructors are not known. -/
def Valid (known : Text → Option Value) : PatternLiteral → Prop
  | value v => v.Ground
  | name _ => True
  | cons p q => p.Valid known ∧ q.Valid known
  | construct c ps => known c = none ∧ AllValid known ps

def AllValid (known : Text → Option Value) : List PatternLiteral → Prop
  | [] => True
  | p :: ps => p.Valid known ∧ AllValid known ps

end

theorem length_toExprs : ∀ ps : List PatternLiteral, (toExprs ps).length = ps.length
  | [] => rfl
  | _ :: ps => congrArg (· + 1) (length_toExprs ps)

mutual

/-- Every literal can be compiled. -/
theorem compile_toExpr : ∀ p : PatternLiteral, p.toExpr.compileAs .operand = .ok p.steps
  | value _ | name _ => rfl
  | cons p q => by
    have hp := compile_toExpr p
    have hq := compile_toExpr q
    simp only [toExpr, Expr.compileAs, hp, hq]
    rfl
  | construct c ps => by
    have hps := compileAll_toExprs ps
    simp only [toExpr, Expr.compileAs, hps, length_toExprs]
    rfl

theorem compileAll_toExprs : ∀ ps : List PatternLiteral, Expr.compileAll (toExprs ps) = .ok (stepsAll ps)
  | [] => rfl
  | p :: ps => by
    have hp := compile_toExpr p
    have hps := compileAll_toExprs ps
    simp only [toExprs, Expr.compileAll, hp, hps]
    rfl

end

/-! ### Running a literal -/

/-- **The run ends well and leaves this storage**; apart from that it has at most handed out serial numbers
and kept records of the log. -/
def LeadsTo (r : Run Unit) (m : Machine) (s : List Value) : Prop :=
  ∃ next log, r.outcome m = (.ok (), { m with storage := s, next := next, log := log })

section Steps

variable {call : Caller} {f : Frame} {m : Machine}

/-- A single step, whatever is in the log. -/
theorem leadsTo_one {i : Instr} {s : List Value} (h : ∀ log, LeadsTo (step call f i) { m with log := log } s) :
    LeadsTo (runSteps call f [i]) m s := by
  obtain ⟨log, hlog⟩ := outcome_runSteps_cons call f i [] m
  obtain ⟨next, log', hstep⟩ := h log
  exact ⟨next, log', hlog.trans (Run.outcome_bind_of_ok hstep)⟩

/-- A name that is known pushes its value. -/
theorem leadsTo_value {name : Text} {v : Value} (h : m.scopes.find? f.scope name = some (.value v)) :
    LeadsTo (step call f (.get name)) m (v :: m.storage) :=
  ⟨m.next, m.log, Run.outcome_bind_of_ok (Run.outcome_resolve h)⟩

/-- A name that is not known pushes a value that stands for it. -/
theorem leadsTo_binder {name : Text} (h : m.scopes.find? f.scope name = some (.placeholder name)) :
    LeadsTo (step call f (.get name)) m (.own (.object (.binder m.next name)) :: m.storage) :=
  ⟨m.next + 1, m.log, Run.outcome_bind_of_ok (Run.outcome_resolve h)⟩

/-- Two values become a pair. -/
theorem leadsTo_pair {x y : Value} {s : List Value} (hm : m.storage = y :: x :: s) (hs : f.view.base ≤ s.length) :
    LeadsTo (step call f (.binary .cons)) m (.own (.cons x y) :: s) := by
  have hy := Run.outcome_pop_cons (f := f) hm (Nat.le_succ_of_le hs)
  have hx := Run.outcome_pop_cons (f := f) (m := { m with storage := x :: s }) rfl hs
  refine ⟨m.next, m.log, ?_⟩
  rw [step, Run.outcome_bind_of_ok hy, Run.outcome_bind_of_ok hx]
  rfl

/-- The values given to a name that is not known are taken, and one that stands for the call is pushed. -/
theorem leadsTo_construction {name : Text} {vs s : List Value}
    (h : m.scopes.find? f.scope name = some (.placeholder name)) (hm : m.storage = vs.reverse ++ s)
    (hs : f.view.base ≤ s.length) :
    LeadsTo (step call f (.callWith name vs.length 1)) m
      (.own (.object (.construction m.next name vs)) :: s) := by
  have hgiven : (do
      let given ← Run.take f (vs.length : Nat)
      Run.object fun serial => .construction serial name given).outcome m =
      (.ok (.own (.object (.construction m.next name vs))), { m with storage := s, next := m.next + 1 }) :=
    Run.outcome_bind_of_ok (Run.outcome_take_append hm hs)
  have hcall : step call f (.callWith name vs.length 1) = (do
      callSymbol call f (some vs.length) (some 1) (← resolve f name)) := rfl
  refine ⟨m.next + 1, m.log, ?_⟩
  rw [hcall, Run.outcome_bind_of_ok (Run.outcome_resolve h), callSymbol, callPlaceholder, callSingle_eq,
    Run.wants_self, pure_bind]
  exact Run.outcome_bind_of_ok hgiven

end Steps

/-- **What names stand for where a literal is run**: a known one for a value without placeholders, and any
other for itself. -/
structure Knows (known : Text → Option Value) (scopes : Forest) (scope : ScopeId) : Prop where
  find : ∀ name, scopes.find? scope name = some (match known name with
    | some v => .value v
    | none => .placeholder name)
  ground : ∀ name v, known name = some v → v.Ground

theorem Knows.value {scopes : Forest} {scope : ScopeId} (h : Knows known scopes scope) {name : Text}
    {v : Value} (hv : known name = some v) : scopes.find? scope name = some (.value v) := by
  rw [h.find name, hv]

theorem Knows.placeholder {scopes : Forest} {scope : ScopeId} (h : Knows known scopes scope) {name : Text}
    (hnone : known name = none) : scopes.find? scope name = some (.placeholder name) := by
  rw [h.find name, hnone]

section Induction

variable (call : Caller) (f : Frame)

mutual

/-- **The steps of a literal push one value**, which expects what the literal does. -/
theorem leadsTo_steps : ∀ (p : PatternLiteral) (m : Machine), p.Valid known → f.view.base ≤ m.storage.length →
    Knows known m.scopes f.scope →
    ∃ v, LeadsTo (runSteps call f p.steps) m (v :: m.storage) ∧ Part.ofValue v = p.part known
  | value v, m, hp, _, _ => ⟨v, leadsTo_one fun log => ⟨m.next, log, rfl⟩, Part.ofValue_of_ground v hp⟩
  | name s, m, _, _, hknows => by
    rcases hs : known s with _ | v
    · refine ⟨.own (.object (.binder m.next s)), leadsTo_one fun _ => leadsTo_binder (hknows.placeholder hs), ?_⟩
      simp only [Value.own, Part.ofValue, part, hs, beq_iff_eq]
    · refine ⟨v, leadsTo_one fun _ => leadsTo_value (hknows.value hs), ?_⟩
      rw [Part.ofValue_of_ground v (hknows.ground s v hs), part, hs]
  | cons p q, m, hp, hbase, hknows => by
    obtain ⟨x, ⟨next, log, hx⟩, hpart⟩ := leadsTo_steps p m hp.1 hbase hknows
    obtain ⟨y, ⟨next', log', hy⟩, hpart'⟩ := leadsTo_steps q
      { m with storage := x :: m.storage, next := next, log := log } hp.2 (Nat.le_succ_of_le hbase) hknows
    have hpair : LeadsTo (runSteps call f [.binary .cons])
        { m with storage := y :: x :: m.storage, next := next', log := log' } (.own (.cons x y) :: m.storage) :=
      leadsTo_one fun _ => leadsTo_pair rfl hbase
    obtain ⟨next'', log'', hpair⟩ := hpair
    refine ⟨.own (.cons x y), ⟨next'', log'', ?_⟩, ?_⟩
    · rw [steps, runSteps_concat, runSteps_concat, bind_assoc, Run.outcome_bind_of_ok hx,
        Run.outcome_bind_of_ok hy, hpair]
    · rw [Value.own, Part.ofValue, part, hpart, hpart']
  | construct c ps, m, hp, hbase, hknows => by
    obtain ⟨vs, ⟨next, log, hvs⟩, hparts, hlen⟩ := leadsTo_stepsAll ps m hp.2 hbase hknows
    have hcall : LeadsTo (runSteps call f [.callWith c vs.length 1])
        { m with storage := vs.reverse ++ m.storage, next := next, log := log }
        (.own (.object (.construction next c vs)) :: m.storage) :=
      leadsTo_one fun _ => leadsTo_construction (hknows.placeholder hp.1) rfl hbase
    obtain ⟨next', log', hcall⟩ := hcall
    refine ⟨.own (.object (.construction next c vs)), ⟨next', log', ?_⟩, ?_⟩
    · rw [steps, runSteps_concat, Run.outcome_bind_of_ok hvs, ← hlen, hcall]
    · rw [Value.own, Part.ofValue, part, hparts]

theorem leadsTo_stepsAll : ∀ (ps : List PatternLiteral) (m : Machine), AllValid known ps →
    f.view.base ≤ m.storage.length → Knows known m.scopes f.scope →
    ∃ vs, LeadsTo (runSteps call f (stepsAll ps)) m (vs.reverse ++ m.storage) ∧
      Part.ofValues vs = parts known ps ∧ vs.length = ps.length
  | [], m, _, _, _ => ⟨[], ⟨m.next, m.log, rfl⟩, rfl, rfl⟩
  | p :: ps, m, hp, hbase, hknows => by
    obtain ⟨v, ⟨next, log, hv⟩, hpart⟩ := leadsTo_steps p m hp.1 hbase hknows
    obtain ⟨vs, ⟨next', log', hvs⟩, hparts, hlen⟩ := leadsTo_stepsAll ps
      { m with storage := v :: m.storage, next := next, log := log } hp.2 (Nat.le_succ_of_le hbase) hknows
    refine ⟨v :: vs, ⟨next', log', ?_⟩, ?_, congrArg (· + 1) hlen⟩
    · rw [stepsAll, runSteps_concat, Run.outcome_bind_of_ok hv, hvs, List.reverse_cons, List.append_assoc]
      rfl
    · rw [Part.ofValues, parts, hpart, hparts]

end

end Induction

/-- In a new placeholder scope, known are the names that patterns know. -/
theorem knows_grow {m : Machine} {b : Bindings} (hb : m.scopes.scopes[patternScope]? = some (.root b))
    (hground : ∀ e ∈ b, e.2.Ground) :
    Knows (fun name => b.lookup name) ⟨m.scopes.scopes.push (.literal patternScope)⟩ m.scopes.scopes.size where
  find := Forest.find?_push_literal hb
  ground := fun _ _ hv => hground _ (Bindings.mem_of_lookup hv)

/-- **The two passes agree with the syntax.** A literal can be compiled; where names that patterns do not know
stand for themselves, its code leaves exactly one value, and what this value expects is what is read off the
literal. A scope has been added, serial numbers handed out and records of the log kept, and that is all. -/
theorem compiles_to_part (call : Caller) {m : Machine} {b : Bindings}
    (hb : m.scopes.scopes[patternScope]? = some (.root b)) (hground : ∀ e ∈ b, e.2.Ground) {p : PatternLiteral}
    (hp : p.Valid fun name => b.lookup name) (traced : Bool) (label : Label) :
    p.toExpr.compile = .ok p.steps ∧ ∃ v next log,
      (do
        let scope ← Run.grow (.literal patternScope)
        runAside call scope traced (.mk label p.steps)).outcome m =
        (.ok [v], { m with
          scopes := ⟨m.scopes.scopes.push (.literal patternScope)⟩, next := next, log := log }) ∧
      Part.ofValue v = p.part fun name => b.lookup name := by
  refine ⟨compile_toExpr p, ?_⟩
  obtain ⟨v, ⟨next, log, hv⟩, hpart⟩ := leadsTo_steps call ⟨m.scopes.scopes.size, .whole, traced⟩ p
    { m with storage := [], scopes := ⟨m.scopes.scopes.push (.literal patternScope)⟩ } hp (Nat.le_refl 0)
    (knows_grow hb hground)
  refine ⟨v, next, log, ?_, hpart⟩
  rw [Run.outcome_bind_of_ok (Run.outcome_grow _ m)]
  exact outcome_runAside_of_ok (.mk label p.steps)
    (m := { m with scopes := ⟨m.scopes.scopes.push (.literal patternScope)⟩ }) hv

/-- `P(true, _ : x, (1 : 2))` where patterns know the constants: the pair is a value. -/
theorem compiles_to_part_constants :
    let m := (Calculator.bare false false).machine
    let p := construct "P" [name "true", cons (name "_") (name "x"),
      value (.own (.cons (.own (.int 1)) (.own (.int 2))))]
    p.toExpr.compile = .ok p.steps ∧ ∃ v m',
      (do
        let scope ← Run.grow (.literal patternScope)
        runAside call scope false (.mk [] p.steps)).outcome m = (.ok [v], m') ∧
      Part.ofValue v = .construct "P" [.exact (.own (.bool true)), .cons .any (.bind "x"),
        .cons (.exact (.own (.int 1))) (.exact (.own (.int 2)))] := by
  intro m p
  have hground : ∀ e ∈ Calculator.constants, e.2.Ground := by
    simp [Calculator.constants, Value.own, Value.Ground]
  have hp : p.Valid fun name => Calculator.constants.lookup name := by
    refine ⟨by decide, trivial, ⟨trivial, trivial⟩, ⟨trivial, trivial⟩, trivial⟩
  obtain ⟨hcompile, v, next, log, hrun, hpart⟩ :=
    compiles_to_part call (m := m) (b := Calculator.constants) rfl hground hp false []
  refine ⟨hcompile, v, _, hrun, hpart.trans ?_⟩
  rfl

end PatternLiteral

end StackCalc
