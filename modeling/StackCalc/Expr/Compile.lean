import StackCalc.Expr.Basic

/-! # Compilation

The steps of an expression, in the order in which its parts are written:

* `f(a, b)`      ↦ `a; b; call f(2 -> 1)`
* `t(a)` for any other target `t` ↦ `t; a; call apply(2 -> 1)`
* `l + r`        ↦ `l; r; op +`
* `(x) -> b`     ↦ a closure step over the steps of `b`
* `\x7bb\x7d`     ↦ the code of `b` as a value
* `l.r`          ↦ by the shape of `r`: a name is a key, a call is a key and then a call of what the key
  yields, a block runs over the members, anything else is computed

A clause of a match becomes a program that collects its literals and actions in a pattern builder; the
program is itself a code value, handed to `pattern`, and all patterns to `match`. Code values are labelled
by the serial number of the node they come from, and their place in it. -/

namespace StackCalc

/-- The functions that compiled code calls by name. -/
def applyName : Text := "apply"
def withName : Text := "with"
def matchName : Text := "match"
def patternName : Text := "pattern"
def partName : Text := "var"
def guardedName : Text := "guarded"
def defaultName : Text := "default"

namespace Instr

/-- Pushes a text of the calculator's own domain. -/
def key (s : Text) : Instr := .push (.mk 0 (.str s))

/-- Pushes a code value of the calculator's own domain. -/
def code (label : Label) (steps : List Instr) : Instr := .push (.mk 0 (.code (.mk label steps)))

/-- Calls a function with a known number of arguments. -/
def callWith (name : Text) (args results : Nat) : Instr := .call name (some args) (some results)

/-- Calls what lies below the arguments on the stack. -/
def applyTo (args : Nat) : Instr := callWith applyName (1 + args) 1

end Instr

namespace Expr

/-- The names in a parameter list. -/
def paramNames : List Expr → Except Fault (List Text)
  | [] => .ok []
  | .name s :: rest => do return s :: (← paramNames rest)
  | e :: _ => .error (e.faultWith .lambdaArgument)

/-- The parameters on the left of a lambda: one name, or a bracket of names. -/
def params : Expr → Except Fault (List Text)
  | .name s => .ok [s]
  | .bracket items => paramNames items
  | e => .error (e.faultWith .lambdaArguments)

/-- What an expression is compiled for: to be a value by itself, or to name a member of the object on the
stack. -/
inductive Role where
  | operand | key
  deriving DecidableEq, Repr

/-- Ends the steps of an expression whose value is computed: as a key, the value names a member. -/
def Role.close : Role → List Instr → List Instr
  | operand, steps => steps
  | key, steps => steps ++ [.binary .dot]

mutual

/-- The steps of an expression in a role. -/
def compileAs (role : Role) : Expr → Except Fault (List Instr)
  | .value v => .ok (role.close [.push v])
  | .name s =>
    match role with
    | .operand => .ok [.get s]
    | .key => .ok [.key s, .binary .dot]
  | .call n args => do
    let given ← compileAll args
    match role with
    | .operand => return given ++ [.callWith n args.length 1]
    | .key => return [.key n, .binary .dot] ++ given ++ [.applyTo args.length]
  | .binary op l r =>
    match op with
    | .lambda => do
      let names ← l.params
      let body ← r.compileAs .operand
      return role.close [.closure names body]
    | .split => .error .strayOperator
    | .dot => do
      let target ← l.compileAs .operand
      let member ← r.compileAs .key
      return role.close (target ++ member)
    | op => do
      let left ← l.compileAs .operand
      let right ← r.compileAs .operand
      return role.close (left ++ right ++ [.binary op])
  | .unary op a => do
    let operand ← a.compileAs .operand
    return role.close (operand ++ [.unary op])
  | .bracket items => do return role.close (← compileAll items)
  | .invoke t args => do
    let target ← t.compileAs role
    let given ← compileAll args
    return target ++ given ++ [.applyTo args.length]
  | .block n b => do
    let body ← b.compileAs .operand
    match role with
    | .operand => return [.code [n] body]
    | .key => return [.code [n] body, .callWith withName 2 1]
  | .matching n clauses => do
    let patterns ← compileClauses n 0 clauses
    return role.close (patterns ++ [.callWith matchName clauses.length 1])

def compileAll : List Expr → Except Fault (List Instr)
  | [] => .ok []
  | e :: es => do
    let first ← e.compileAs .operand
    return first ++ (← compileAll es)

/-- The steps that make the pattern of each clause; `i` counts the clauses of match `n`. -/
def compileClauses (n i : Nat) : List Clause → Except Fault (List Instr)
  | [] => .ok []
  | .mk literals actions :: rest => do
    let parts ← compileLiterals n i 0 literals
    let acts ← compileActions n i 0 actions
    let first := [.code [n, i] (parts ++ acts), .callWith patternName 1 1]
    return first ++ (← compileClauses n (i + 1) rest)

/-- The steps that add the literals of a clause; `j` counts them. -/
def compileLiterals (n i j : Nat) : List Expr → Except Fault (List Instr)
  | [] => .ok []
  | e :: es => do
    let steps ← e.compileAs .operand
    let first := [.code [n, i, 0, j] steps, .callWith partName 1 0]
    return first ++ (← compileLiterals n i (j + 1) es)

/-- The steps that add the actions of a clause; `j` counts them. -/
def compileActions (n i j : Nat) : List Action → Except Fault (List Instr)
  | [] => .ok []
  | .guarded g a :: rest => do
    let guard ← g.compileAs .operand
    let action ← a.compileAs .operand
    let first := [.code [n, i, 1, j, 0] guard, .code [n, i, 1, j, 1] action, .callWith guardedName 2 0]
    return first ++ (← compileActions n i (j + 1) rest)
  | .fallback a :: rest => do
    let action ← a.compileAs .operand
    let first := [.code [n, i, 1, j, 1] action, .callWith defaultName 1 0]
    return first ++ (← compileActions n i (j + 1) rest)

end

/-- The steps of an expression. -/
def compile (e : Expr) : Except Fault (List Instr) := e.compileAs .operand

end Expr

end StackCalc
