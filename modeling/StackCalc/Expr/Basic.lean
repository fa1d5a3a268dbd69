import StackCalc.Value.Show

/-! # Expressions

The trees that a host builds in place of source text. Lambdas, splits and member accesses are binary
nodes: their operator tells them apart. A block and a match carry a serial number, which gives the code
compiled from them an identity. A clause of a match is kept by its parts: pattern literals, then actions. -/

namespace StackCalc

mutual

/-- An expression. -/
inductive Expr where
  | value (v : Value)
  | name (s : Text)
  | call (name : Text) (args : List Expr)
  | binary (op : BinaryOp) (left right : Expr)
  | unary (op : UnaryOp) (arg : Expr)
  | bracket (items : List Expr)
  | invoke (target : Expr) (args : List Expr)
  | block (serial : Nat) (body : Expr)
  | matching (serial : Nat) (clauses : List Clause)

/-- An alternative of a match. -/
inductive Clause where
  | mk (literals : List Expr) (actions : List Action)

/-- What an alternative does once it matches. -/
inductive Action where
  | guarded (guard action : Expr)
  | fallback (action : Expr)

end

instance : Inhabited Expr := ⟨.name ""⟩

namespace Expr

/-- The name of the class of a node. -/
def className : Expr → Text
  | value _ => "ValueNode"
  | name _ => "SymbolGetNode"
  | call .. => "SymbolCallNode"
  | binary .dot _ _ => "DotExprNode"
  | binary .lambda _ _ => "LambdaExprNode"
  | binary .split _ _ => "SplitExprNode"
  | binary .. => "BinaryOpNode"
  | unary .. => "UnaryOpNode"
  | bracket _ => "BracketContainerNode"
  | invoke .. => "MethodCallNode"
  | block .. => "RawCodeExprNode"
  | matching .. => "MatchNode"

/-- The direct parts of a node; a match keeps its clauses to itself. -/
def children : Expr → List Expr
  | value _ | name _ | matching .. => []
  | call _ args => args
  | binary _ l r => [l, r]
  | unary _ a => [a]
  | bracket items => items
  | invoke t args => t :: args
  | block _ b => [b]

mutual

/-- The diagnostic text of a node. -/
def shown (names : Naming) : Expr → Except Fault Text
  | value v => do return "ValueNode(" ++ (← v.shown names) ++ ")"
  | name s => pure ("SymbolGetNode(" ++ Text.quoted s ++ ")")
  | call n args => do
    return "SymbolCallNode(" ++ Text.quoted n ++ ", " ++ showList (← shownAll names args) ++ ")"
  | binary op l r => do
    let left ← l.shown names
    let right ← r.shown names
    return (binary op l r).className ++ "(" ++ Text.quoted op.symbol ++ ", " ++ left ++ ", " ++ right ++ ")"
  | bracket items => do return "BracketContainerNode(" ++ showList (← shownAll names items) ++ ")"
  | unary .. => pure (showObject "tcalc_nodes.UnaryOpNode")
  | invoke .. => pure (showObject "tcalc_nodes.MethodCallNode")
  | block .. => pure (showObject "tcalc_nodes.RawCodeExprNode")
  | matching .. => pure (showObject "tcalc_match.MatchNode")

def shownAll (names : Naming) : List Expr → Except Fault (List Text)
  | [] => pure []
  | e :: es => do return (← e.shown names) :: (← shownAll names es)

end

/-- The fault that quotes a node. -/
def faultWith (cause : Text → Fault) (e : Expr) : Fault :=
  match e.shown Naming.standard with
  | .ok s => cause s
  | .error f => f

/-- A function of named parameters. -/
def lambda (params : List Text) (body : Expr) : Expr :=
  binary .lambda (bracket (params.map name)) body

end Expr

end StackCalc
