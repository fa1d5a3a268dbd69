import StackCalc.Proofs.Expr.Visits

/-! # Misplaced nodes

A split has a meaning in the clause of a match only, and a lambda wants a name or a bracket of names on its left.
An expression can be compiled exactly if no node that the compiler visits is at odds with this
(`exists_compile_iff`). The fault is then one of the compiler; only if the node that it would quote holds an integer
with too many digits does the text of the fault come out as a fault of its own (`category_of_compile`). -/

namespace StackCalc

namespace Expr

/-- What can stand on the left of a lambda. -/
inductive ListsNames : Expr → Prop where
  | name (s : Text) : ListsNames (.name s)
  | bracket (names : List Text) : ListsNames (.bracket (names.map .name))

/-- A node that has no meaning where it stands. -/
inductive Stray : Expr → Prop where
  | split (l r : Expr) : Stray (.binary .split l r)
  | lambda {l : Expr} (r : Expr) (h : ¬ l.ListsNames) : Stray (.binary .lambda l r)

/-- **The compiler visits a node that has no meaning where it stands.** -/
def Misplaced (e : Expr) : Prop := ∃ d, e.Visits d ∧ d.Stray

/-! ### Parameters -/

theorem params_map_name : ∀ names : List Text, paramNames (names.map name) = .ok names
  | [] => rfl
  | s :: names => by
    rw [List.map_cons, paramNames, params_map_name names]
    rfl

theorem eq_map_name_of_paramNames : ∀ {es : List Expr} {names : List Text}, paramNames es = .ok names →
    es = names.map name
  | [], _, h => by
    cases h
    rfl
  | e :: es, names, h => by
    cases e with
    | name s =>
      obtain ⟨rest, hrest, hnames⟩ := exists_of_bind_ok h
      cases hnames
      rw [eq_map_name_of_paramNames hrest, List.map_cons]
    | _ => cases h

theorem exists_params_iff {l : Expr} : (∃ names, l.params = .ok names) ↔ l.ListsNames := by
  constructor
  · rintro ⟨names, h⟩
    cases l with
    | name s => exact .name s
    | bracket items =>
      rw [eq_map_name_of_paramNames h]
      exact .bracket names
    | _ => cases h
  · rintro (⟨s⟩ | ⟨names⟩)
    · exact ⟨[s], rfl⟩
    · exact ⟨names, params_map_name names⟩

/-- The compiler complains about the nodes that have no meaning where they stand, and no others. -/
theorem exists_complaint_iff {d : Expr} : (∃ f, d.complaint? = some f) ↔ d.Stray := by
  constructor
  · rintro ⟨f, h⟩
    cases d with
    | binary op l r =>
      cases op with
      | lambda =>
        refine .lambda r fun hl => ?_
        obtain ⟨names, hnames⟩ := exists_params_iff.2 hl
        rw [complaint?, hnames] at h
        cases h
      | split => exact .split l r
      | _ => cases h
    | _ => cases h
  · rintro (⟨l, r⟩ | @⟨l, r, h⟩)
    · exact ⟨_, rfl⟩
    · rcases hparams : l.params with f | names
      · exact ⟨f, by rw [complaint?, hparams]; rfl⟩
      · exact absurd (exists_params_iff.1 ⟨names, hparams⟩) h

/-! ### Compilation fails at such a node -/

/-- A fault of the compiler is a complaint about a node that it visits. -/
theorem exists_visits_of_compileAs {role : Role} {e : Expr} {f : Fault} (h : e.compileAs role = .error f) :
    ∃ d, e.Visits d ∧ d.complaint? = some f := by
  let _ : Tolerance := { Tolerates := fun f => ∃ d, e.Visits d ∧ d.complaint? = some f }
  have : Mention.Elementary fun _ => True := ⟨fun _ => trivial, fun _ => trivial⟩
  have hyields := yields_compileAs role e fun d hd =>
    (⟨fun _ _ => trivial, fun f hf => ⟨d, hd, hf⟩⟩ : d.Fits fun _ => True)
  rw [h] at hyields
  exact hyields.of_error

/-- Compiles in one of the two roles. -/
def Compiles (e : Expr) : Prop := ∃ role steps, e.compileAs role = .ok steps

theorem compiles_of_compileAll : ∀ {es : List Expr} {steps : List Instr}, compileAll es = .ok steps →
    ∀ p ∈ es, p.Compiles
  | [], _, _, p, hp => by cases hp
  | e :: es, _, h, p, hp => by
    obtain ⟨first, hfirst, hrest⟩ := exists_of_bind_ok h
    obtain ⟨rest, hrest, -⟩ := exists_of_bind_ok hrest
    rcases List.mem_cons.1 hp with rfl | hp
    · exact ⟨_, first, hfirst⟩
    · exact compiles_of_compileAll hrest p hp

theorem compiles_of_compileLiterals {n i : Nat} : ∀ {j : Nat} {es : List Expr} {steps : List Instr},
    compileLiterals n i j es = .ok steps → ∀ p ∈ es, p.Compiles
  | _, [], _, _, p, hp => by cases hp
  | j, e :: es, _, h, p, hp => by
    obtain ⟨first, hfirst, hrest⟩ := exists_of_bind_ok h
    obtain ⟨rest, hrest, -⟩ := exists_of_bind_ok hrest
    rcases List.mem_cons.1 hp with rfl | hp
    · exact ⟨_, first, hfirst⟩
    · exact compiles_of_compileLiterals hrest p hp

theorem compiles_of_compileActions {n i : Nat} : ∀ {j : Nat} {actions : List Action} {steps : List Instr},
    compileActions n i j actions = .ok steps → ∀ p ∈ actions.flatMap Action.parts, p.Compiles
  | _, [], _, _, p, hp => by cases hp
  | j, .guarded g a :: rest, _, h, p, hp => by
    obtain ⟨guard, hguard, h⟩ := exists_of_bind_ok h
    obtain ⟨action, haction, h⟩ := exists_of_bind_ok h
    obtain ⟨others, hothers, -⟩ := exists_of_bind_ok h
    rw [List.flatMap_cons] at hp
    simp only [Action.parts, List.cons_append, List.nil_append, List.mem_cons] at hp
    rcases hp with rfl | rfl | hp
    · exact ⟨_, guard, hguard⟩
    · exact ⟨_, action, haction⟩
    · exact compiles_of_compileActions hothers p hp
  | j, .fallback a :: rest, _, h, p, hp => by
    obtain ⟨action, haction, h⟩ := exists_of_bind_ok h
    obtain ⟨others, hothers, -⟩ := exists_of_bind_ok h
    rw [List.flatMap_cons] at hp
    simp only [Action.parts, List.cons_append, List.nil_append, List.mem_cons] at hp
    rcases hp with rfl | hp
    · exact ⟨_, action, haction⟩
    · exact compiles_of_compileActions hothers p hp

theorem compiles_of_compileClauses {n : Nat} : ∀ {i : Nat} {clauses : List Clause} {steps : List Instr},
    compileClauses n i clauses = .ok steps → ∀ p ∈ clauses.flatMap Clause.parts, p.Compiles
  | _, [], _, _, p, hp => by cases hp
  | i, .mk literals actions :: rest, _, h, p, hp => by
    obtain ⟨parts, hparts, h⟩ := exists_of_bind_ok h
    obtain ⟨acts, hacts, h⟩ := exists_of_bind_ok h
    obtain ⟨others, hothers, -⟩ := exists_of_bind_ok h
    rw [List.flatMap_cons, List.mem_append, Clause.parts, List.mem_append] at hp
    rcases hp with (hp | hp) | hp
    · exact compiles_of_compileLiterals hparts p hp
    · exact compiles_of_compileActions hacts p hp
    · exact compiles_of_compileClauses hothers p hp

/-- What can be compiled can be compiled in all of its parts. -/
theorem Compiles.part {e p : Expr} (h : e.Compiles) (hp : p ∈ e.parts) : p.Compiles := by
  obtain ⟨role, steps, h⟩ := h
  unfold compileAs at h
  cases e with
  | value v | name s => cases hp
  | call n args =>
    obtain ⟨given, hgiven, -⟩ := exists_of_bind_ok h
    exact compiles_of_compileAll hgiven p hp
  | binary op l r =>
    have hplain : (do
        let left ← l.compileAs .operand
        let right ← r.compileAs .operand
        return role.close (left ++ right ++ [.binary op]) : Except Fault (List Instr)) = .ok steps →
          p ∈ [l, r] → p.Compiles := by
      intro h hp
      obtain ⟨left, hleft, h⟩ := exists_of_bind_ok h
      obtain ⟨right, hright, -⟩ := exists_of_bind_ok h
      simp only [List.mem_cons, List.not_mem_nil, or_false] at hp
      rcases hp with rfl | rfl
      · exact ⟨_, left, hleft⟩
      · exact ⟨_, right, hright⟩
    cases op with
    | lambda =>
      obtain ⟨names, -, h⟩ := exists_of_bind_ok h
      obtain ⟨body, hbody, -⟩ := exists_of_bind_ok h
      rw [List.mem_singleton.1 hp]
      exact ⟨_, body, hbody⟩
    | split => cases hp
    | dot =>
      obtain ⟨target, htarget, h⟩ := exists_of_bind_ok h
      obtain ⟨member, hmember, -⟩ := exists_of_bind_ok h
      simp only [parts, List.mem_cons, List.not_mem_nil, or_false] at hp
      rcases hp with rfl | rfl
      · exact ⟨_, target, htarget⟩
      · exact ⟨_, member, hmember⟩
    | _ => exact hplain h hp
  | unary op a =>
    obtain ⟨operand, hoperand, -⟩ := exists_of_bind_ok h
    rw [List.mem_singleton.1 hp]
    exact ⟨_, operand, hoperand⟩
  | bracket items =>
    obtain ⟨steps, hsteps, -⟩ := exists_of_bind_ok h
    exact compiles_of_compileAll hsteps p hp
  | invoke t args =>
    obtain ⟨target, htarget, h⟩ := exists_of_bind_ok h
    obtain ⟨given, hgiven, -⟩ := exists_of_bind_ok h
    rcases List.mem_cons.1 hp with rfl | hp
    · exact ⟨_, target, htarget⟩
    · exact compiles_of_compileAll hgiven p hp
  | block n b =>
    obtain ⟨body, hbody, -⟩ := exists_of_bind_ok h
    rw [List.mem_singleton.1 hp]
    exact ⟨_, body, hbody⟩
  | matching n clauses =>
    obtain ⟨patterns, hpatterns, -⟩ := exists_of_bind_ok h
    exact compiles_of_compileClauses hpatterns p hp

theorem Compiles.visits {e d : Expr} (h : e.Compiles) (hd : e.Visits d) : d.Compiles := by
  induction hd with
  | self => exact h
  | part hp _ ih => exact ih (h.part hp)

theorem Compiles.not_stray {d : Expr} (h : d.Compiles) : ¬ d.Stray := by
  obtain ⟨role, steps, h⟩ := h
  unfold compileAs at h
  rintro (⟨l, r⟩ | @⟨l, r, hl⟩)
  · cases h
  · obtain ⟨names, hnames, -⟩ := exists_of_bind_ok h
    exact hl (exists_params_iff.1 ⟨names, hnames⟩)

/-- **An expression can be compiled** exactly if none of its nodes is misplaced. -/
theorem exists_compile_iff {e : Expr} : (∃ steps, e.compile = .ok steps) ↔ ¬ e.Misplaced := by
  constructor
  · rintro ⟨steps, h⟩ ⟨d, hd, hstray⟩
    exact (Compiles.visits ⟨_, steps, h⟩ hd).not_stray hstray
  · intro h
    rcases hcompile : e.compile with f | steps
    · obtain ⟨d, hd, hf⟩ := exists_visits_of_compileAs hcompile
      exact absurd ⟨d, hd, exists_complaint_iff.1 ⟨f, hf⟩⟩ h
    · exact ⟨steps, rfl⟩

/-! ### The fault -/

/-- The text of an expression is missing. -/
def Unwritable (e : Expr) : Prop := e.shown Naming.standard = .error .tooManyDigits

/-- What the compiler may quote of the left side of a lambda. -/
inductive Quotes : Expr → Expr → Prop where
  | self (l : Expr) : Quotes l l
  | item {items : List Expr} {e : Expr} (h : e ∈ items) : Quotes (.bracket items) e

/-- **The compiler visits a lambda whose left side it cannot quote.** -/
def Unquotable (e : Expr) : Prop := ∃ l r q, e.Visits (.binary .lambda l r) ∧ l.Quotes q ∧ q.Unwritable

theorem faultWith_cases (cause : Text → Fault) (e : Expr) :
    (∃ s, e.faultWith cause = cause s) ∨ e.faultWith cause = .tooManyDigits ∧ e.Unwritable := by
  unfold faultWith
  rcases hs : e.shown Naming.standard with f | s
  · obtain rfl := Fault.eq_tooManyDigits_of_ends (fun _ => e.ends_shown Naming.standard) hs
    exact .inr ⟨rfl, hs⟩
  · exact .inl ⟨s, rfl⟩

/-- A fault of the compiler that quotes an expression, if the expression can be written. -/
theorem category_faultWith (cause : Text → Fault) (h : ∀ s, (cause s).category = .compilation) (e : Expr) :
    (e.faultWith cause).category = .compilation ∨ e.faultWith cause = .tooManyDigits ∧ e.Unwritable := by
  rcases e.faultWith_cases cause with ⟨s, hs⟩ | hlarge
  · exact .inl (hs ▸ h s)
  · exact .inr hlarge

theorem category_of_paramNames : ∀ {es : List Expr} {f : Fault}, paramNames es = .error f →
    f.category = .compilation ∨ f = .tooManyDigits ∧ ∃ e ∈ es, e.Unwritable
  | e :: es, f, h => by
    have hquoted : paramNames (e :: es) = .error (e.faultWith .lambdaArgument) →
        f.category = .compilation ∨ f = .tooManyDigits ∧ ∃ q ∈ e :: es, q.Unwritable := by
      intro hfault
      cases h.symm.trans hfault
      rcases e.category_faultWith .lambdaArgument fun _ => rfl with hf | ⟨hf, hlarge⟩
      · exact .inl hf
      · exact .inr ⟨hf, e, List.mem_cons_self, hlarge⟩
    cases e with
    | name s =>
      rcases hrest : paramNames es with g | names
      · have hg : paramNames (.name s :: es) = .error g := by
          rw [paramNames, hrest]
          rfl
        cases h.symm.trans hg
        refine (category_of_paramNames hrest).imp_right fun ⟨hf, q, hq, hlarge⟩ => ?_
        exact ⟨hf, q, List.mem_cons_of_mem _ hq, hlarge⟩
      · rw [paramNames, hrest] at h
        cases h
    | _ => exact hquoted rfl

theorem category_of_params {l : Expr} {f : Fault} (h : l.params = .error f) :
    f.category = .compilation ∨ f = .tooManyDigits ∧ ∃ q, l.Quotes q ∧ q.Unwritable := by
  have hquoted : l.params = .error (l.faultWith .lambdaArguments) →
      f.category = .compilation ∨ f = .tooManyDigits ∧ ∃ q, l.Quotes q ∧ q.Unwritable := by
    intro hfault
    cases h.symm.trans hfault
    rcases l.category_faultWith .lambdaArguments fun _ => rfl with hf | ⟨hf, hlarge⟩
    · exact .inl hf
    · exact .inr ⟨hf, l, .self l, hlarge⟩
  cases l with
  | name s => cases h
  | bracket items =>
    refine (category_of_paramNames h).imp_right fun ⟨hf, q, hq, hlarge⟩ => ⟨hf, q, .item hq, hlarge⟩
  | _ => exact hquoted rfl

/-- **A fault of compilation is one of the compiler**, unless it is the text of the node that is at fault which is
missing. -/
theorem category_of_compile {e : Expr} {f : Fault} (h : e.compile = .error f) :
    f.category = .compilation ∨ f = .tooManyDigits ∧ e.Unquotable := by
  obtain ⟨d, hd, hf⟩ := exists_visits_of_compileAs h
  cases d with
  | binary op l r =>
    cases op with
    | lambda =>
      refine (category_of_params (raised?_eq_some.1 hf)).imp_right fun ⟨hlarge, q, hq, hunwritable⟩ => ?_
      exact ⟨hlarge, l, r, q, hd, hq, hunwritable⟩
    | split =>
      cases hf
      exact .inl rfl
    | _ => cases hf
  | _ => cases hf

end Expr

end StackCalc
