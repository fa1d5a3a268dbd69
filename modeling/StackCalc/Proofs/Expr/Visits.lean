import StackCalc.Expr.Basic
import StackCalc.Expr.Clause
import StackCalc.Expr.Compile
import StackCalc.Proofs.Fault.Expected
import StackCalc.Proofs.Value.Faults
import StackCalc.Proofs.Value.Mentions

/-! # What the compiler visits

To compile an expression is to visit its nodes: all but the parameter list of a lambda (`Expr.parts`,
`Expr.Visits`). Each node that is visited adds what it mentions by itself to the code (`Expr.mentions`), or the
compiler finds something wrong with it (`Expr.complaint?`). `yields_compileAs` says that compilation comes to
nothing else: what holds of all that the nodes mention holds of all that the code mentions, at any depth, and a
fault is the complaint about one of the nodes.

The text of an expression can only be missing for an integer with too many digits, and so can that of a fault that
quotes one. -/

namespace StackCalc

/-- The expressions of an action, in the order in which they are compiled. -/
def Action.parts : Action → List Expr
  | guarded guard action => [guard, action]
  | fallback action => [action]

/-- The expressions of a clause. -/
def Clause.parts (c : Clause) : List Expr := c.literals ++ c.actions.flatMap Action.parts

namespace Expr

/-- The parts of a node that the compiler turns to. It gives up at a split, and reads the parameters of a lambda
without compiling them. -/
def parts : Expr → List Expr
  | value _ | name _ => []
  | call _ args => args
  | binary .lambda _ body => [body]
  | binary .split _ _ => []
  | binary _ l r => [l, r]
  | unary _ a => [a]
  | bracket items => items
  | invoke t args => t :: args
  | block _ body => [body]
  | matching _ clauses => clauses.flatMap Clause.parts

/-- **The compiler visits a node** of an expression. -/
inductive Visits : Expr → Expr → Prop where
  | self (e : Expr) : Visits e e
  | part {e p d : Expr} (hp : p ∈ e.parts) (hd : Visits p d) : Visits e d

/-- What a node makes the code mention, apart from operators with a meaning and numbers of arguments: it may be
compiled for either role. -/
def mentions : Expr → List Mention
  | value v => v.mentions
  | name s => [.name s]
  | call n _ => [.name n, .name applyName]
  | invoke .. => [.name applyName]
  | block .. => [.name withName]
  | matching .. => [.name matchName, .name patternName, .name partName, .name guardedName, .name defaultName]
  | binary .. | unary .. | bracket _ => []

/-- All but values mention names only. -/
theorem mentions_cases {d : Expr} {x : Mention} (h : x ∈ d.mentions) :
    (∃ v, d = value v ∧ x ∈ v.mentions) ∨ ∃ s, x = .name s := by
  cases d with
  | value v => exact .inl ⟨v, rfl, h⟩
  | binary | unary | bracket => cases h
  | _ =>
    simp only [mentions, List.mem_cons, List.not_mem_nil, or_false] at h
    rcases h with rfl | rfl | rfl | rfl | rfl <;> exact .inr ⟨_, rfl⟩

/-- What the compiler finds wrong with a node by itself. -/
def complaint? : Expr → Option Fault
  | binary .lambda l _ => raised? l.params
  | binary .split _ _ => some .strayOperator
  | _ => none

/-- What holds of the nodes that are visited from a part holds of nodes that are visited. -/
theorem forall_visits_part {P : Expr → Prop} {e p : Expr} (h : ∀ d, e.Visits d → P d) (hp : p ∈ e.parts) :
    ∀ d, p.Visits d → P d := fun d hd => h d (.part hp hd)

end Expr

/-- All that a step mentions has a property. -/
def Instr.MentionsOnly (A : Mention → Prop) (i : Instr) : Prop := ∀ x ∈ i.mentions, A x

/-- All that steps mention has a property. -/
def MentionOnly (A : Mention → Prop) (steps : List Instr) : Prop := ∀ i ∈ steps, i.MentionsOnly A

namespace MentionOnly

variable {A : Mention → Prop} {steps steps' : List Instr} {i : Instr}

theorem nil : MentionOnly A [] := fun _ h => by cases h

theorem cons (h : i.MentionsOnly A) (hs : MentionOnly A steps) : MentionOnly A (i :: steps) :=
  List.forall_mem_cons.2 ⟨h, hs⟩

theorem one (h : i.MentionsOnly A) : MentionOnly A [i] := cons h nil

theorem append (h : MentionOnly A steps) (h' : MentionOnly A steps') : MentionOnly A (steps ++ steps') :=
  List.forall_mem_append.2 ⟨h, h'⟩

end MentionOnly

namespace Instr

variable {A : Mention → Prop}

theorem mentionsOnly_key (s : Text) : (key s).MentionsOnly A := fun x hx => by cases hx

theorem mentionsOnly_code (label : Label) {steps : List Instr} (h : MentionOnly A steps) :
    (code label steps).MentionsOnly A := fun x hx => by
    obtain ⟨i, hi, hx⟩ := Code.mem_mentions.1 hx
    exact h i hi x hx

theorem mentionsOnly_closure (params : List Text) {body : List Instr} (h : MentionOnly A body) :
    (closure params body).MentionsOnly A := fun x hx => by
  obtain ⟨i, hi, hx⟩ := mem_stepMentions.1 hx
  exact h i hi x hx

variable [Mention.Elementary A]

theorem mentionsOnly_binary {op : BinaryOp} (h : op.isMarker = false) : (binary op).MentionsOnly A :=
  List.forall_mem_singleton.2 (Mention.Elementary.operator h)

theorem mentionsOnly_callWith {name : Text} (h : A (.name name)) (args results : Nat) :
    (callWith name args results).MentionsOnly A :=
  List.forall_mem_cons.2 ⟨h, List.forall_mem_singleton.2 (Mention.Elementary.count args)⟩

theorem mentionsOnly_applyTo (h : A (.name applyName)) (args : Nat) : (applyTo args).MentionsOnly A :=
  mentionsOnly_callWith h _ _

end Instr

theorem MentionOnly.close {A : Mention → Prop} [Mention.Elementary A] (role : Expr.Role) {steps : List Instr}
    (h : MentionOnly A steps) : MentionOnly A (role.close steps) := by
  cases role with
  | operand => exact h
  | key => exact h.append (.one (Instr.mentionsOnly_binary rfl))

section
variable [Tolerance]

/-- A node whose mentions have a property, and whose faults are tolerated. -/
structure Expr.Fits (A : Mention → Prop) (d : Expr) : Prop where
  mentions : ∀ x ∈ d.mentions, A x
  complaint : ∀ f, d.complaint? = some f → f.Tolerated

variable {A : Mention → Prop}

mutual

/-- **Code mentions what the nodes of its expression do**, and a fault is the complaint about one of them. -/
theorem Expr.yields_compileAs [Mention.Elementary A] (role : Role) : ∀ e : Expr, (∀ d, e.Visits d → d.Fits A) →
    Yields (MentionOnly A) (e.compileAs role)
  | .value v, h => by
    unfold compileAs
    exact .ok (.close role (.one (h _ (.self _)).mentions))
  | .name s, h => by
    unfold compileAs
    cases role with
    | operand => exact .ok (.one (h _ (.self _)).mentions)
    | key => exact .ok (.cons (Instr.mentionsOnly_key s) (.one (Instr.mentionsOnly_binary rfl)))
  | .call n args, h => by
    have hself : ∀ x ∈ (Expr.call n args).mentions, A x := (h _ (.self _)).mentions
    unfold compileAs
    refine (Expr.yields_compileAll args fun a ha => forall_visits_part h ha).bind fun given hgiven => ?_
    cases role with
    | operand =>
      have hname : A (.name n) := hself _ List.mem_cons_self
      exact .pure (hgiven.append (.one (Instr.mentionsOnly_callWith hname _ _)))
    | key =>
      have hkey : MentionOnly A [.key n, .binary .dot] :=
        .cons (Instr.mentionsOnly_key n) (.one (Instr.mentionsOnly_binary rfl))
      have hname : A (.name applyName) := hself _ (List.mem_cons_of_mem _ List.mem_cons_self)
      exact .pure ((hkey.append hgiven).append (.one (Instr.mentionsOnly_applyTo hname _)))
  | .binary op l r, h => by
    have hplain : l ∈ (Expr.binary op l r).parts → r ∈ (Expr.binary op l r).parts → op.isMarker = false →
        Yields (MentionOnly A) (do
          let left ← l.compileAs .operand
          let right ← r.compileAs .operand
          return role.close (left ++ right ++ [.binary op])) := fun hl hr hop =>
      (Expr.yields_compileAs .operand l (forall_visits_part h hl)).bind fun left hleft =>
        (Expr.yields_compileAs .operand r (forall_visits_part h hr)).bind fun right hright =>
          .pure (.close role ((hleft.append hright).append (.one (Instr.mentionsOnly_binary hop))))
    have hleft : ∀ {es : List Expr}, l ∈ l :: es := List.mem_cons_self
    have hright : r ∈ [l, r] := List.mem_cons_of_mem _ List.mem_cons_self
    unfold compileAs
    cases op with
    | lambda =>
      rcases hparams : l.params with f | names
      · exact .error ((h _ (.self _)).complaint f (raised?_eq_some.2 hparams))
      · refine (Expr.yields_compileAs .operand r (forall_visits_part h List.mem_cons_self)).bind fun body hbody => ?_
        exact .pure (.close role (.one (Instr.mentionsOnly_closure names hbody)))
    | split => exact .error ((h _ (.self _)).complaint _ rfl)
    | dot =>
      refine (Expr.yields_compileAs .operand l (forall_visits_part h hleft)).bind fun target htarget => ?_
      refine (Expr.yields_compileAs .key r (forall_visits_part h hright)).bind fun member hmember => ?_
      exact .pure (.close role (htarget.append hmember))
    | _ => exact hplain hleft hright rfl
  | .unary op a, h => by
    unfold compileAs
    refine (Expr.yields_compileAs .operand a (forall_visits_part h List.mem_cons_self)).bind fun operand hoperand => ?_
    exact .pure (.close role (hoperand.append (.one fun x hx => by cases hx)))
  | .bracket items, h => by
    unfold compileAs
    exact (Expr.yields_compileAll items fun a ha => forall_visits_part h ha).bind fun _ hitems =>
      .pure (.close role hitems)
  | .invoke t args, h => by
    unfold compileAs
    refine (Expr.yields_compileAs role t (forall_visits_part h List.mem_cons_self)).bind fun target htarget => ?_
    refine (Expr.yields_compileAll args fun a ha => forall_visits_part h (List.mem_cons_of_mem t ha)).bind
      fun given hgiven => ?_
    have hname : A (.name applyName) := (h _ (.self _)).mentions _ List.mem_cons_self
    exact .pure ((htarget.append hgiven).append (.one (Instr.mentionsOnly_applyTo hname _)))
  | .block n b, h => by
    unfold compileAs
    refine (Expr.yields_compileAs .operand b (forall_visits_part h List.mem_cons_self)).bind fun body hbody => ?_
    cases role with
    | operand => exact .pure (.one (Instr.mentionsOnly_code _ hbody))
    | key =>
      have hname : A (.name withName) := (h _ (.self _)).mentions _ List.mem_cons_self
      exact .pure (.cons (Instr.mentionsOnly_code _ hbody) (.one (Instr.mentionsOnly_callWith hname _ _)))
  | .matching n clauses, h => by
    have hself : ∀ x ∈ (Expr.matching n clauses).mentions, A x := (h _ (.self _)).mentions
    unfold compileAs
    refine (Expr.yields_compileClauses hself 0 clauses fun c hc p hp => ?_).bind fun patterns hpatterns => ?_
    · exact forall_visits_part h (List.mem_flatMap.2 ⟨c, hc, hp⟩)
    · exact .pure (.close role (hpatterns.append
        (.one (Instr.mentionsOnly_callWith (hself _ List.mem_cons_self) _ _))))

theorem Expr.yields_compileAll [Mention.Elementary A] : ∀ es : List Expr, (∀ e ∈ es, ∀ d, e.Visits d → d.Fits A) →
    Yields (MentionOnly A) (compileAll es)
  | [], _ => .ok .nil
  | e :: es, h => by
    unfold compileAll
    refine (Expr.yields_compileAs .operand e (h e List.mem_cons_self)).bind fun first hfirst => ?_
    refine (Expr.yields_compileAll es fun e' he' => h e' (List.mem_cons_of_mem e he')).bind fun rest hrest => ?_
    exact .pure (hfirst.append hrest)

theorem Expr.yields_compileClauses [Mention.Elementary A] {n : Nat} {all : List Clause}
    (hnames : ∀ x ∈ (Expr.matching n all).mentions, A x) (i : Nat) :
    ∀ clauses : List Clause, (∀ c ∈ clauses, ∀ p ∈ c.parts, ∀ d, p.Visits d → d.Fits A) →
      Yields (MentionOnly A) (compileClauses n i clauses)
  | [], _ => .ok .nil
  | .mk literals actions :: rest, h => by
    have hclause : ∀ p ∈ (Clause.mk literals actions).parts, ∀ d, p.Visits d → d.Fits A := h _ List.mem_cons_self
    unfold compileClauses
    refine (Expr.yields_compileLiterals hnames i 0 literals fun e he => hclause e ?_).bind fun parts hparts => ?_
    · exact List.mem_append_left _ he
    refine (Expr.yields_compileActions hnames i 0 actions fun a ha p hp => hclause p ?_).bind fun acts hacts => ?_
    · exact List.mem_append_right _ (List.mem_flatMap.2 ⟨a, ha, hp⟩)
    have hname : A (.name patternName) := hnames _ (by simp [mentions])
    have hfirst : MentionOnly A [.code [n, i] (parts ++ acts), .callWith patternName 1 1] :=
      .cons (Instr.mentionsOnly_code _ (hparts.append hacts)) (.one (Instr.mentionsOnly_callWith hname _ _))
    refine (Expr.yields_compileClauses hnames (i + 1) rest fun c hc => h c (List.mem_cons_of_mem _ hc)).bind
      fun others hothers => ?_
    exact .pure (hfirst.append hothers)

theorem Expr.yields_compileLiterals [Mention.Elementary A] {n : Nat} {all : List Clause}
    (hnames : ∀ x ∈ (Expr.matching n all).mentions, A x) (i j : Nat) :
    ∀ es : List Expr, (∀ e ∈ es, ∀ d, e.Visits d → d.Fits A) →
      Yields (MentionOnly A) (compileLiterals n i j es)
  | [], _ => .ok .nil
  | e :: es, h => by
    unfold compileLiterals
    refine (Expr.yields_compileAs .operand e (h e List.mem_cons_self)).bind fun steps hsteps => ?_
    have hname : A (.name partName) := hnames _ (by simp [mentions])
    have hfirst : MentionOnly A [.code [n, i, 0, j] steps, .callWith partName 1 0] :=
      .cons (Instr.mentionsOnly_code _ hsteps) (.one (Instr.mentionsOnly_callWith hname _ _))
    refine (Expr.yields_compileLiterals hnames i (j + 1) es fun e' he' => h e' (List.mem_cons_of_mem e he')).bind
      fun others hothers => ?_
    exact .pure (hfirst.append hothers)

theorem Expr.yields_compileActions [Mention.Elementary A] {n : Nat} {all : List Clause}
    (hnames : ∀ x ∈ (Expr.matching n all).mentions, A x) (i j : Nat) :
    ∀ actions : List Action, (∀ a ∈ actions, ∀ p ∈ a.parts, ∀ d, p.Visits d → d.Fits A) →
      Yields (MentionOnly A) (compileActions n i j actions)
  | [], _ => .ok .nil
  | .guarded g a :: rest, h => by
    have hparts : ∀ p ∈ [g, a], ∀ d, p.Visits d → d.Fits A := h _ List.mem_cons_self
    unfold compileActions
    refine (Expr.yields_compileAs .operand g (hparts g List.mem_cons_self)).bind fun guard hguard => ?_
    refine (Expr.yields_compileAs .operand a (hparts a (List.mem_cons_of_mem g List.mem_cons_self))).bind
      fun action haction => ?_
    have hname : A (.name guardedName) := hnames _ (by simp [mentions])
    have hfirst : MentionOnly A
        [.code [n, i, 1, j, 0] guard, .code [n, i, 1, j, 1] action, .callWith guardedName 2 0] :=
      .cons (Instr.mentionsOnly_code _ hguard)
        (.cons (Instr.mentionsOnly_code _ haction) (.one (Instr.mentionsOnly_callWith hname _ _)))
    refine (Expr.yields_compileActions hnames i (j + 1) rest fun a' ha' => h a' (List.mem_cons_of_mem _ ha')).bind
      fun others hothers => ?_
    exact .pure (hfirst.append hothers)
  | .fallback a :: rest, h => by
    have hparts : ∀ p ∈ [a], ∀ d, p.Visits d → d.Fits A := h _ List.mem_cons_self
    unfold compileActions
    refine (Expr.yields_compileAs .operand a (hparts a List.mem_cons_self)).bind fun action haction => ?_
    have hname : A (.name defaultName) := hnames _ (by simp [mentions])
    have hfirst : MentionOnly A [.code [n, i, 1, j, 1] action, .callWith defaultName 1 0] :=
      .cons (Instr.mentionsOnly_code _ haction) (.one (Instr.mentionsOnly_callWith hname _ _))
    refine (Expr.yields_compileActions hnames i (j + 1) rest fun a' ha' => h a' (List.mem_cons_of_mem _ ha')).bind
      fun others hothers => ?_
    exact .pure (hfirst.append hothers)

end

end

/-- **What holds of the values of an expression and of its names** holds of all that its code mentions. -/
theorem Expr.mentionOnly_of_compile {A : Mention → Prop} [Mention.Elementary A] {e : Expr} {steps : List Instr}
    (hvalues : ∀ v, e.Visits (.value v) → ∀ x ∈ v.mentions, A x)
    (hnames : ∀ d, e.Visits d → ∀ s, .name s ∈ d.mentions → A (.name s)) (hsteps : e.compile = .ok steps) :
    MentionOnly A steps := by
  -- whatever is wrong with a node is tolerated, since there is code
  let _ : Tolerance := ⟨fun _ => True⟩
  have hfits : ∀ d, e.Visits d → d.Fits A := by
    refine fun d hd => ⟨fun x hx => ?_, fun _ _ => trivial⟩
    rcases mentions_cases hx with ⟨v, rfl, hx⟩ | ⟨s, rfl⟩
    · exact hvalues v hd x hx
    · exact hnames d hd s hx
  have hcode : e.compileAs .operand = .ok steps := hsteps
  have hyields := e.yields_compileAs .operand hfits
  rw [hcode] at hyields
  exact hyields.of_ok

/-! ### Texts of expressions -/

section Shown

variable [TextTolerance]

mutual

theorem Expr.ends_shown (names : Naming) : ∀ e : Expr, Ends (e.shown names)
  | .value v => by
    unfold Expr.shown
    exact (v.ends_shown names).bind fun _ => Ends.pure _
  | .call _ args => by
    unfold Expr.shown
    exact (ends_shownAll names args).bind fun _ => Ends.pure _
  | .binary _ l r => by
    unfold Expr.shown
    exact (l.ends_shown names).bind fun _ => (r.ends_shown names).bind fun _ => Ends.pure _
  | .bracket items => by
    unfold Expr.shown
    exact (ends_shownAll names items).bind fun _ => Ends.pure _
  | .name _ | .unary .. | .invoke .. | .block .. | .matching .. => by
    unfold Expr.shown
    exact Ends.pure _

theorem ends_shownAll (names : Naming) : ∀ es : List Expr, Ends (Expr.shownAll names es)
  | [] => Ends.pure _
  | e :: es => by
    unfold Expr.shownAll
    exact (e.ends_shown names).bind fun _ => (ends_shownAll names es).bind fun _ => Ends.pure _

end

theorem Expr.tolerated_faultWith {cause : Text → Fault} (h : ∀ s, (cause s).Tolerated) (e : Expr) :
    (e.faultWith cause).Tolerated := by
  unfold Expr.faultWith
  rcases hs : e.shown Naming.standard with f | s
  · exact (hs ▸ e.ends_shown _).of_error
  · exact h s

end Shown

end StackCalc
