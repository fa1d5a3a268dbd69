import StackCalc.Proofs.Expr.Clause
import StackCalc.Proofs.Expr.Misplaced

/-! # What is no clause

An expression that is in none of the forms of a clause has a flaw: it is no operation, its left side is no bracket,
its operator is another one, or an element of its chain that is followed by a split is no lambda (`HasFlaw`). The
chain is walked until there is no split, and the flaw is in the first such element. So a match is refused for the
flaw of its first expression that is no clause (`matchOf_eq_error_iff`), and made of all others
(`Expr.matchOf_grammar`). -/

namespace StackCalc

/-- What keeps an expression from being a clause. -/
inductive Flaw where
  /-- No operation. -/
  | noOperation (e : Expr)
  /-- Literals in no bracket. -/
  | noBracket (l : Expr)
  /-- Neither a lambda nor a split. -/
  | operator (op : BinaryOp)
  /-- An element in front of a split that is no lambda. -/
  | noLambda (l : Expr)

namespace Flaw

/-- The fault that reports a flaw. -/
def fault : Flaw → Fault
  | noOperation e => e.faultWith .badClause
  | noBracket l => l.faultWith .clauseArguments
  | operator op => .clauseOperator op.symbol
  | noLambda l => l.faultWith .badGuard

/-- The expression that the fault quotes. -/
def quoted : Flaw → Option Expr
  | noOperation e | noBracket e | noLambda e => some e
  | operator _ => none

/-- **The fault is one of the compiler**, unless the expression that it quotes has no text. -/
theorem category_fault (flaw : Flaw) : flaw.fault.category = .compilation ∨
    flaw.fault = .tooManyDigits ∧ ∃ q, flaw.quoted = some q ∧ q.Unwritable := by
  cases flaw with
  | noOperation e => exact (e.category_faultWith .badClause fun _ => rfl).imp_right (.imp_right fun h => ⟨e, rfl, h⟩)
  | noBracket l =>
    exact (l.category_faultWith .clauseArguments fun _ => rfl).imp_right (.imp_right fun h => ⟨l, rfl, h⟩)
  | operator op => exact .inl rfl
  | noLambda l => exact (l.category_faultWith .badGuard fun _ => rfl).imp_right (.imp_right fun h => ⟨l, rfl, h⟩)

end Flaw

/-- **The first element of a chain that is followed by a split and no lambda.** -/
inductive IsGap : Expr → Expr → Prop where
  | here {l : Expr} (rest : Expr) (h : ∀ g a, l ≠ .binary .lambda g a) : IsGap (.binary .split l rest) l
  | later (g a : Expr) {rest l : Expr} (h : IsGap rest l) : IsGap (.binary .split (.binary .lambda g a) rest) l

/-- **What is wrong with an expression.** The literals are looked at before the operator, and the chain last. -/
inductive HasFlaw : Expr → Flaw → Prop where
  | noOperation {e : Expr} (h : ∀ op l r, e ≠ .binary op l r) : HasFlaw e (.noOperation e)
  | noBracket (op : BinaryOp) {l : Expr} (r : Expr) (h : ∀ items, l ≠ .bracket items) :
      HasFlaw (.binary op l r) (.noBracket l)
  | operator {op : BinaryOp} (args : List Expr) (r : Expr) (hlambda : op ≠ .lambda) (hsplit : op ≠ .split) :
      HasFlaw (.binary op (.bracket args) r) (.operator op)
  | noLambda (args : List Expr) {rest l : Expr} (h : IsGap rest l) :
      HasFlaw (.binary .split (.bracket args) rest) (.noLambda l)

theorem IsGap.ofChain {e l : Expr} (h : IsGap e l) : Action.ofChain e = .error (l.faultWith .badGuard) := by
  induction h with
  | here rest h =>
    unfold Action.ofChain
    split
    · exact absurd rfl (h _ _)
    · rfl
  | later g a h ih =>
    unfold Action.ofChain
    rw [ih]
    rfl

/-- A chain has a gap, if it is none. -/
theorem exists_isChain_or_isGap (e : Expr) : (∃ guarded fallback, IsChain e guarded fallback) ∨ ∃ l, IsGap e l := by
  fun_induction Action.ofChain e with
  | case1 rest g a ih =>
    rcases ih with ⟨guarded, fallback, h⟩ | ⟨l, h⟩
    · exact .inl ⟨_, _, .guarded g a h⟩
    · exact .inr ⟨l, .later g a h⟩
  | case2 rest l hlambda => exact .inr ⟨l, .here rest hlambda⟩
  | case3 e hsplit =>
    by_cases hlambda : ∃ g a, e = .binary .lambda g a
    · obtain ⟨g, a, rfl⟩ := hlambda
      exact .inl ⟨_, _, .last g a⟩
    · exact .inl ⟨_, _, .fallback e (fun g a he => hlambda ⟨g, a, he⟩) hsplit⟩

theorem HasFlaw.ofExpr {e : Expr} {flaw : Flaw} (h : HasFlaw e flaw) : Clause.ofExpr e = .error flaw.fault := by
  cases h with
  | noOperation h =>
    unfold Clause.ofExpr
    split
    · exact absurd rfl (h _ _ _)
    · rfl
  | noBracket op r h =>
    unfold Clause.ofExpr Clause.literalsOf
    split
    next heq =>
      cases heq
      split
      · exact absurd rfl (h _)
      · rfl
    next hne => exact absurd rfl (hne _ _ _)
  | @operator op args r hlambda hsplit =>
    cases op with
    | lambda => exact absurd rfl hlambda
    | split => exact absurd rfl hsplit
    | _ => rfl
  | noLambda args h =>
    change (do return Clause.mk args (← Action.ofChain _)) = _
    rw [h.ofChain]
    rfl

/-- An expression is a clause or has a flaw. -/
theorem exists_isClause_or_hasFlaw (e : Expr) : (∃ a, IsClause e a) ∨ ∃ flaw, HasFlaw e flaw := by
  by_cases hop : ∃ op l r, e = .binary op l r
  · obtain ⟨op, l, r, rfl⟩ := hop
    by_cases hl : ∃ args, l = .bracket args
    · obtain ⟨args, rfl⟩ := hl
      rcases eq_or_ne op .lambda with rfl | hlambda
      · exact .inl ⟨_, .plain args r⟩
      rcases eq_or_ne op .split with rfl | hsplit
      · rcases exists_isChain_or_isGap r with ⟨guarded, fallback, h⟩ | ⟨l, h⟩
        · exact .inl ⟨_, .split args h⟩
        · exact .inr ⟨_, .noLambda args h⟩
      · exact .inr ⟨_, .operator args r hlambda hsplit⟩
    · exact .inr ⟨_, .noBracket op r fun items h => hl ⟨items, h⟩⟩
  · exact .inr ⟨_, .noOperation fun op l r h => hop ⟨op, l, r, h⟩⟩

/-- **The flaw of the first expression that is no clause.** -/
inductive FirstFlaw : List Expr → Flaw → Prop where
  | here {c : Expr} {flaw : Flaw} (rest : List Expr) (h : HasFlaw c flaw) : FirstFlaw (c :: rest) flaw
  | later {c : Expr} {a : Alternative} {rest : List Expr} {flaw : Flaw} (hc : IsClause c a)
      (h : FirstFlaw rest flaw) : FirstFlaw (c :: rest) flaw

theorem FirstFlaw.mapM {children : List Expr} {flaw : Flaw} (h : FirstFlaw children flaw) :
    children.mapM Clause.ofExpr = .error flaw.fault := by
  induction h with
  | here rest h =>
    rw [List.mapM_cons, h.ofExpr]
    rfl
  | later hc _ ih =>
    rw [List.mapM_cons, ofExpr_eq_ok_iff.2 ⟨_, hc, rfl⟩, ih]
    rfl

/-- There is a first flaw, if not all expressions are clauses. -/
theorem forall_isClause_or_firstFlaw (children : List Expr) :
    (∃ alternatives, List.Forall₂ IsClause children alternatives) ∨ ∃ flaw, FirstFlaw children flaw := by
  induction children with
  | nil => exact .inl ⟨[], .nil⟩
  | cons c children ih =>
    rcases exists_isClause_or_hasFlaw c with ⟨a, hc⟩ | ⟨flaw, hflaw⟩
    · rcases ih with ⟨alternatives, hall⟩ | ⟨flaw, hflaw⟩
      · exact .inl ⟨a :: alternatives, .cons hc hall⟩
      · exact .inr ⟨flaw, .later hc hflaw⟩
    · exact .inr ⟨flaw, .here children hflaw⟩

theorem FirstFlaw.matchOf {children : List Expr} {flaw : Flaw} (h : FirstFlaw children flaw) (serial : Nat) :
    Expr.matchOf serial children = .error flaw.fault := by
  have hmap := h.mapM
  unfold Expr.matchOf
  cases h with
  | here | later =>
    rw [List.isEmpty_cons, if_neg Bool.false_ne_true, hmap]
    rfl

/-- **A match is refused** if it has no clauses, and else for the flaw of its first expression that is none. -/
theorem matchOf_eq_error_iff {serial : Nat} {children : List Expr} {f : Fault} :
    Expr.matchOf serial children = .error f ↔
      children = [] ∧ f = .emptyMatch ∨ ∃ flaw, FirstFlaw children flaw ∧ f = flaw.fault := by
  constructor
  · intro h
    rcases eq_or_ne children [] with rfl | hne
    · cases h
      exact .inl ⟨rfl, rfl⟩
    · rcases forall_isClause_or_firstFlaw children with ⟨alternatives, hall⟩ | ⟨flaw, hflaw⟩
      · cases h.symm.trans (matchOf_eq_ok_iff.2 ⟨hne, alternatives, hall, rfl⟩)
      · cases h.symm.trans (hflaw.matchOf serial)
        exact .inr ⟨flaw, hflaw, rfl⟩
  · rintro (⟨rfl, rfl⟩ | ⟨flaw, hflaw, rfl⟩)
    · rfl
    · exact hflaw.matchOf serial

/-- Every expression stands for a clause, just if a clause can be named for each. -/
theorem forall_isClause_iff {children : List Expr} :
    (∀ c ∈ children, ∃ a, IsClause c a) ↔ ∃ alternatives, List.Forall₂ IsClause children alternatives := by
  constructor
  · intro h
    induction children with
    | nil => exact ⟨[], .nil⟩
    | cons c children ih =>
      obtain ⟨⟨a, ha⟩, hrest⟩ := List.forall_mem_cons.1 h
      obtain ⟨alternatives, hall⟩ := ih hrest
      exact ⟨a :: alternatives, .cons ha hall⟩
  · rintro ⟨alternatives, h⟩
    induction h with
    | nil => exact List.forall_mem_nil _
    | cons ha _ ih => exact List.forall_mem_cons.2 ⟨⟨_, ha⟩, ih⟩

/-- **What is a match.** A match can be made of one expression or more, each in one of the forms of a clause, and of
nothing else. What cannot be made is refused by the compiler; only if the expression that it would quote has no text is
this what is reported. -/
theorem Expr.matchOf_grammar (serial : Nat) (children : List Expr) :
    ((∃ e, Expr.matchOf serial children = .ok e) ↔ children ≠ [] ∧ ∀ c ∈ children, ∃ a, IsClause c a) ∧
    ∀ f, Expr.matchOf serial children = .error f → f.category = .compilation ∨
      f = .tooManyDigits ∧ ∃ flaw q, FirstFlaw children flaw ∧ flaw.quoted = some q ∧ q.Unwritable := by
  constructor
  · rw [forall_isClause_iff]
    constructor
    · rintro ⟨e, h⟩
      obtain ⟨hne, alternatives, hall, -⟩ := matchOf_eq_ok_iff.1 h
      exact ⟨hne, alternatives, hall⟩
    · rintro ⟨hne, alternatives, hall⟩
      exact ⟨_, matchOf_eq_ok_iff.2 ⟨hne, alternatives, hall, rfl⟩⟩
  · intro f h
    rcases matchOf_eq_error_iff.1 h with ⟨-, rfl⟩ | ⟨flaw, hflaw, rfl⟩
    · exact .inl rfl
    · refine flaw.category_fault.imp_right fun ⟨hlarge, q, hq, hunwritable⟩ => ?_
      exact ⟨hlarge, flaw, q, hflaw, hq, hunwritable⟩

/-- A guarded action and a fallback after the names make a clause, so there is such a match. -/
theorem Expr.matchOf_grammar_guarded : ∃ e, Expr.matchOf 0 [.binary .split (.bracket [.name "a"])
    (.binary .split (.binary .lambda (.name "g") (.name "x")) (.name "y"))] = .ok e := by
  have hchain : IsChain (.binary .split (.binary .lambda (.name "g") (.name "x")) (.name "y"))
      [(.name "g", .name "x")] (some (.name "y")) :=
    .guarded _ _ (.fallback _ (fun _ _ h => nomatch h) fun _ _ h => nomatch h)
  exact (Expr.matchOf_grammar 0 _).1.2
    ⟨List.cons_ne_nil _ _, List.forall_mem_singleton.2 ⟨_, .split [.name "a"] hchain⟩⟩

/-- **A match can be refused with a fault that is not one of the compiler**: what the message would quote is a number
with too many digits. -/
theorem Expr.matchOf_raises_large :
    (∀ a, ¬IsClause (.value (.own (.int (Int.ofNat (Nat.pow 10 4300))))) a) ∧
      Expr.matchOf 0 [.value (.own (.int (Int.ofNat (Nat.pow 10 4300))))] = .error .tooManyDigits ∧
      Fault.tooManyDigits.category ≠ .compilation :=
  ⟨nofun, raised?_eq_some.1 (by decide +kernel), by decide⟩

end StackCalc
