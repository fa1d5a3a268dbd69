import StackCalc.Expr.Clause
import StackCalc.Proofs.Expr.Compile
import Mathlib.Data.List.Forall2

/-! # What clauses say

A clause is written in one of three forms: `args -> a`, `args \ g₁ -> a₁ \ … \ gₖ -> aₖ`, and the second
with a fallback `\ d` at the end, where there need not be any guards before it. `IsClause` reads the
literals, the guarded actions and the fallback off these forms. A match is made of the clauses that are
written in one of them and of nothing else (`matchOf_eq_ok_iff`). -/

namespace StackCalc

/-- **What a clause says**: the literals, the actions under their guards, in order, and the fallback. -/
structure Alternative where
  literals : List Expr
  guarded : List (Expr × Expr)
  fallback : Option Expr

/-- The actions in the order in which a clause keeps them. -/
def Action.listOf (guarded : List (Expr × Expr)) (fallback : Option Expr) : List Action :=
  guarded.map (fun e => .guarded e.1 e.2) ++ fallback.toList.map .fallback

/-- The clause in the form in which a match keeps it. -/
def Alternative.toClause (a : Alternative) : Clause := .mk a.literals (Action.listOf a.guarded a.fallback)

/-- **What follows the literals and a split**: guarded actions with splits between them, and a fallback if
the last element is neither a lambda nor a split. -/
inductive IsChain : Expr → List (Expr × Expr) → Option Expr → Prop where
  | last (g a : Expr) : IsChain (.binary .lambda g a) [(g, a)] none
  | fallback (d : Expr) (hlambda : ∀ l r, d ≠ .binary .lambda l r) (hsplit : ∀ l r, d ≠ .binary .split l r) :
      IsChain d [] (some d)
  | guarded (g a : Expr) {rest : Expr} {guarded : List (Expr × Expr)} {fallback : Option Expr}
      (h : IsChain rest guarded fallback) :
      IsChain (.binary .split (.binary .lambda g a) rest) ((g, a) :: guarded) fallback

/-- **The forms of a clause.** -/
inductive IsClause : Expr → Alternative → Prop where
  | plain (args : List Expr) (a : Expr) : IsClause (.binary .lambda (.bracket args) a) ⟨args, [], some a⟩
  | split (args : List Expr) {rest : Expr} {guarded : List (Expr × Expr)} {fallback : Option Expr}
      (h : IsChain rest guarded fallback) :
      IsClause (.binary .split (.bracket args) rest) ⟨args, guarded, fallback⟩

/-- There is an action: a fallback, if there is no guard. -/
theorem IsChain.hasAction {e : Expr} {guarded : List (Expr × Expr)} {fallback : Option Expr}
    (h : IsChain e guarded fallback) : guarded = [] → ∃ d, fallback = some d := by
  intro hnil
  cases h with
  | last | guarded => cases hnil
  | fallback => exact ⟨_, rfl⟩

theorem IsClause.hasAction {e : Expr} {a : Alternative} (h : IsClause e a) :
    a.guarded = [] → ∃ d, a.fallback = some d := by
  intro hnil
  cases h with
  | plain args a => exact ⟨a, rfl⟩
  | split args h => exact h.hasAction hnil

theorem hasAction_of_forms {children : List Expr} {alternatives : List Alternative}
    (h : List.Forall₂ IsClause children alternatives) :
    ∀ a ∈ alternatives, a.guarded = [] → ∃ d, a.fallback = some d := by
  induction h with
  | nil => exact List.forall_mem_nil _
  | cons h _ ih => exact List.forall_mem_cons.2 ⟨h.hasAction, ih⟩

/-- The last element of a chain that is no lambda is the fallback. -/
theorem Action.last_of_ne_lambda {e : Expr} (h : ∀ l r, e ≠ .binary .lambda l r) :
    Action.last e = .fallback e := by
  unfold Action.last
  split
  · exact absurd rfl (h _ _)
  · rfl

/-- The actions of a chain are the guarded ones and then the fallback. -/
theorem IsChain.ofChain {e : Expr} {guarded : List (Expr × Expr)} {fallback : Option Expr}
    (h : IsChain e guarded fallback) : Action.ofChain e = .ok (Action.listOf guarded fallback) := by
  induction h with
  | last g a => rfl
  | fallback d hlambda hsplit =>
    unfold Action.ofChain
    split
    · exact absurd rfl (hsplit _ _)
    · rw [Action.last_of_ne_lambda hlambda]
      rfl
  | guarded g a h ih =>
    unfold Action.ofChain
    rw [ih]
    rfl

theorem exists_isChain (e : Expr) {actions : List Action} (h : Action.ofChain e = .ok actions) :
    ∃ guarded fallback, IsChain e guarded fallback ∧ actions = Action.listOf guarded fallback := by
  fun_induction Action.ofChain e generalizing actions with
  | case1 rest g a ih =>
    obtain ⟨others, hothers, h⟩ := exists_of_bind_ok h
    cases h
    obtain ⟨guarded, fallback, hchain, rfl⟩ := ih hothers
    exact ⟨(g, a) :: guarded, fallback, .guarded g a hchain, rfl⟩
  | case2 => cases h
  | case3 e hsplit =>
    cases h
    by_cases hlambda : ∃ g a, e = .binary .lambda g a
    · obtain ⟨g, a, rfl⟩ := hlambda
      exact ⟨[(g, a)], none, .last g a, rfl⟩
    · have hne : ∀ g a, e ≠ .binary .lambda g a := fun g a he => hlambda ⟨g, a, he⟩
      exact ⟨[], some e, .fallback e hne hsplit, congrArg ([·]) (Action.last_of_ne_lambda hne)⟩

/-- **A clause is accepted if it is in one of the forms**, and kept as what it says. -/
theorem ofExpr_eq_ok_iff {e : Expr} {c : Clause} :
    Clause.ofExpr e = .ok c ↔ ∃ a, IsClause e a ∧ c = a.toClause := by
  constructor
  · intro h
    unfold Clause.ofExpr at h
    split at h
    · obtain ⟨literals, hliterals, hrest⟩ := exists_of_bind_ok h
      unfold Clause.literalsOf at hliterals
      split at hliterals
      · cases hliterals
        split at hrest
        · cases hrest
          exact ⟨_, .plain _ _, rfl⟩
        · obtain ⟨actions, hactions, hrest⟩ := exists_of_bind_ok hrest
          obtain ⟨guarded, fallback, hchain, rfl⟩ := exists_isChain _ hactions
          cases hrest
          exact ⟨_, .split _ hchain, rfl⟩
        · cases hrest
      · cases hliterals
    · cases h
  · rintro ⟨a, ha, rfl⟩
    cases ha with
    | plain args a => rfl
    | split args h =>
      change (do return Clause.mk args (← Action.ofChain _)) = _
      rw [h.ofChain]
      rfl

/-- What a list is mapped to, if each element is mapped to something that is known of it. -/
theorem mapM_ofExpr_eq_ok_iff : ∀ {children : List Expr} {clauses : List Clause},
    children.mapM Clause.ofExpr = .ok clauses ↔ ∃ alternatives, List.Forall₂ IsClause children alternatives ∧
      clauses = alternatives.map Alternative.toClause
  | [], clauses => by
    constructor
    · intro h
      cases h
      exact ⟨[], .nil, rfl⟩
    · rintro ⟨_, ⟨⟩, rfl⟩
      rfl
  | e :: children, clauses => by
    rw [List.mapM_cons]
    constructor
    · intro h
      obtain ⟨c, hc, h⟩ := exists_of_bind_ok h
      obtain ⟨others, hothers, h⟩ := exists_of_bind_ok h
      cases h
      obtain ⟨a, ha, rfl⟩ := ofExpr_eq_ok_iff.1 hc
      obtain ⟨alternatives, hall, rfl⟩ := mapM_ofExpr_eq_ok_iff.1 hothers
      exact ⟨a :: alternatives, .cons ha hall, rfl⟩
    · rintro ⟨alternatives, hall, rfl⟩
      cases hall with
      | cons ha hall =>
        rw [ofExpr_eq_ok_iff.2 ⟨_, ha, rfl⟩, mapM_ofExpr_eq_ok_iff.2 ⟨_, hall, rfl⟩]
        rfl

/-- **A match is made of one clause or more**, each in one of the forms. -/
theorem matchOf_eq_ok_iff {serial : Nat} {children : List Expr} {e : Expr} :
    Expr.matchOf serial children = .ok e ↔ children ≠ [] ∧ ∃ alternatives,
      List.Forall₂ IsClause children alternatives ∧ e = .matching serial (alternatives.map Alternative.toClause) := by
  unfold Expr.matchOf
  cases children with
  | nil => simp
  | cons child children =>
    rw [List.isEmpty_cons, if_neg Bool.false_ne_true]
    constructor
    · intro h
      obtain ⟨clauses, hclauses, h⟩ := exists_of_bind_ok h
      cases h
      obtain ⟨alternatives, hall, rfl⟩ := mapM_ofExpr_eq_ok_iff.1 hclauses
      exact ⟨List.cons_ne_nil _ _, alternatives, hall, rfl⟩
    · rintro ⟨-, alternatives, hall, rfl⟩
      rw [mapM_ofExpr_eq_ok_iff.2 ⟨alternatives, hall, rfl⟩]
      rfl

end StackCalc
