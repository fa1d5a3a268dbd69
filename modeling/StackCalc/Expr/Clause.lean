import StackCalc.Expr.Basic

/-! # Clauses of a match

A clause is written `args -> action` or `args \ rest`. The rest is a chain `g₁ -> a₁ \ … \ gₖ -> aₖ \ d`:
guarded actions, each on the left of a split, and a last element that is a guarded action too if it is a
lambda and the fallback otherwise. -/

namespace StackCalc

namespace Action

/-- The last element of a chain: a guarded action if it is a lambda, else the fallback. -/
def last : Expr → Action
  | .binary .lambda g a => .guarded g a
  | e => .fallback e

/-- The actions of a chain. -/
def ofChain : Expr → Except Fault (List Action)
  | .binary .split l rest =>
    match l with
    | .binary .lambda g a => do return .guarded g a :: (← ofChain rest)
    | l => .error (l.faultWith .badGuard)
  | e => .ok [last e]

end Action

namespace Clause

/-- The literals on the left of a clause. -/
def literalsOf : Expr → Except Fault (List Expr)
  | .bracket items => .ok items
  | e => .error (e.faultWith .clauseArguments)

/-- The clause an expression stands for. -/
def ofExpr : Expr → Except Fault Clause
  | .binary op l r => do
    let literals ← literalsOf l
    match op with
    | .lambda => return .mk literals [.fallback r]
    | .split => return .mk literals (← Action.ofChain r)
    | op => throw (.clauseOperator op.symbol)
  | e => .error (e.faultWith .badClause)

def literals : Clause → List Expr
  | mk ls _ => ls

def actions : Clause → List Action
  | mk _ as => as

end Clause

/-- The match of the given clauses. -/
def Expr.matchOf (serial : Nat) (children : List Expr) : Except Fault Expr :=
  if children.isEmpty then .error .emptyMatch
  else do return .matching serial (← children.mapM Clause.ofExpr)

end StackCalc
