import StackCalc.Machine.Step
import StackCalc.Expr.Compile
import Mathlib.Tactic.Common

/-! # Direct evaluation

The value of an expression, found by recursion on its tree. There are no steps and there is no stack of
operands: operands are evaluated from the left to the right, each of them once, and what is called is
called on a stack that holds its arguments and nothing else, for one result. Blocks and the bodies of
functions are not run; they are values, or parts of values, and hold compiled code.

The right operand of a dot is evaluated against an object, the value of the left one: a name is a key, a
call calls what the key yields, a block runs over the members, a call of anything else passes the object
on to what it calls, and every other value is looked up in the object.

Misplaced operators are found before anything is evaluated (`Expr.check`), in the order in which the tree
is written. -/

namespace StackCalc

/-! ### Applying what a name stands for -/

/-- What a name gives when it is read. -/
def Symbol.read : Symbol → Run Value
  | .value v => pure v
  | .placeholder name => Run.object fun serial => .binder serial name

/-- The only one of some results. -/
def onlyOne : List Value → Run Value
  | [v] => pure v
  | vs => throw (.resultsLeft vs.length 1)

/-- The one result of what a name stands for, called on a stack that holds the arguments. -/
def Symbol.apply (call : Caller) (f : Frame) (s : Symbol) (args : List Value) : Run Value := do
  let g : Frame := { f with view := View.whole }
  let results ← Run.aside do
    Run.pushAll args
    callSymbol call g (some args.length) (some 1) s
    Run.values g
  onlyOne results

/-- Calls what a name stands for at this moment. -/
def applyNamed (call : Caller) (f : Frame) (name : Text) (args : List Value) : Run Value := do
  (← resolve f name).apply call f args

/-- The value of an operation. -/
def computed (x : Except Fault Value) : Run Value := do Run.distinguish (← x)

/-- A member of an object. -/
def memberOf (object key : Value) : Run Value := computed (Operator.binary .dot object key)

/-- Looks a value up in the object that it names a member of, if there is one. -/
def memberOf? : Option Value → Value → Run Value
  | none, v => pure v
  | some object, v => memberOf object v

namespace Expr

/-! ### Evaluation -/

/-- A text of the calculator's own domain. -/
def keyValue (s : Text) : Value := .mk 0 (.str s)

/-- A code value of the calculator's own domain. -/
def codeValue (label : Label) (steps : List Instr) : Value := .mk 0 (.code (.mk label steps))

mutual

/-- The value of an expression, or the member of the object that it names. -/
def evaluateAs (call : Caller) (f : Frame) (object : Option Value) : Expr → Run Value
  | .value v => memberOf? object v
  | .name s =>
    match object with
    | none => do (← resolve f s).read
    | some t => memberOf t (keyValue s)
  | .call n args =>
    match object with
    | none => do applyNamed call f n (← evaluateAll call f args)
    | some t => do
      let target ← memberOf t (keyValue n)
      let given ← evaluateAll call f args
      applyNamed call f applyName (target :: given)
  | .binary op l r =>
    match op with
    | .lambda => do
      let names ← (l.params : Except Fault (List Text))
      let body ← (r.compile : Except Fault (List Instr))
      memberOf? object (← Run.callable fun serial => .closure serial names body f.scope)
    | .split => throw .strayOperator
    | .dot => do
      let target ← evaluateAs call f none l
      memberOf? object (← evaluateAs call f (some target) r)
    | op => do
      let left ← evaluateAs call f none l
      let right ← evaluateAs call f none r
      memberOf? object (← computed (Operator.binary op left right))
  | .unary op a => do
    let operand ← evaluateAs call f none a
    memberOf? object (← computed (Operator.unary op operand))
  | .bracket items => do
    let v ← onlyOne (← evaluateAll call f items)
    memberOf? object v
  | .invoke t args => do
    let target ← evaluateAs call f object t
    let given ← evaluateAll call f args
    applyNamed call f applyName (target :: given)
  | .block n b => do
    let body ← (b.compile : Except Fault (List Instr))
    match object with
    | none => return codeValue [n] body
    | some t => applyNamed call f withName [t, codeValue [n] body]
  | .matching n clauses => do
    let patterns ← evaluateClauses call f n 0 clauses
    memberOf? object (← applyNamed call f matchName patterns)

/-- The values of expressions, from the left to the right. -/
def evaluateAll (call : Caller) (f : Frame) : List Expr → Run (List Value)
  | [] => pure []
  | e :: es => do
    let v ← evaluateAs call f none e
    return v :: (← evaluateAll call f es)

/-- The patterns of clauses, each of them constructed by a program. -/
def evaluateClauses (call : Caller) (f : Frame) (n i : Nat) : List Clause → Run (List Value)
  | [] => pure []
  | .mk literals actions :: rest => do
    let parts ← (compileLiterals n i 0 literals : Except Fault (List Instr))
    let acts ← (compileActions n i 0 actions : Except Fault (List Instr))
    let p ← applyNamed call f patternName [codeValue [n, i] (parts ++ acts)]
    return p :: (← evaluateClauses call f n (i + 1) rest)

end

/-! ### Misplaced operators -/

mutual

/-- The first fault of the tree, in the order in which it is written. -/
def check : Expr → Except Fault Unit
  | .value _ | .name _ => .ok ()
  | .call _ args | .bracket args => checkAll args
  | .binary op l r =>
    match op with
    | .lambda => do
      let _ ← l.params
      r.check
    | .split => .error .strayOperator
    | _ => do
      l.check
      r.check
  | .unary _ a | .block _ a => a.check
  | .invoke t args => do
    t.check
    checkAll args
  | .matching _ clauses => checkClauses clauses

def checkAll : List Expr → Except Fault Unit
  | [] => .ok ()
  | e :: es => do
    e.check
    checkAll es

def checkClauses : List Clause → Except Fault Unit
  | [] => .ok ()
  | .mk literals actions :: rest => do
    checkAll literals
    checkActions actions
    checkClauses rest

def checkActions : List Action → Except Fault Unit
  | [] => .ok ()
  | .guarded g a :: rest => do
    g.check
    a.check
    checkActions rest
  | .fallback a :: rest => do
    a.check
    checkActions rest

end

/-- **The value of an expression**, if no operator is misplaced. -/
def evaluate (call : Caller) (f : Frame) (e : Expr) : Run Value := do
  (e.check : Except Fault Unit)
  e.evaluateAs call f none

/-! ### Brackets of one item -/

mutual

/-- Every bracket among the operands has one item. Bodies of functions, blocks and clauses are no
operands: any bracket may stand in them. -/
def Single : Expr → Prop
  | .value _ | .name _ | .block .. | .matching .. => True
  | .call _ args => AllSingle args
  | .binary op l r =>
    match op with
    | .lambda | .split => True
    | _ => l.Single ∧ r.Single
  | .unary _ a => a.Single
  | .bracket items => items.length = 1 ∧ AllSingle items
  | .invoke t args => t.Single ∧ AllSingle args

def AllSingle : List Expr → Prop
  | [] => True
  | e :: es => e.Single ∧ AllSingle es

end

/-! ### Checking is compiling without the steps -/

mutual

theorem check_eq : ∀ (e : Expr) (role : Role), e.check = (e.compileAs role).map fun _ => ()
  | .value v, role => rfl
  | .name s, role => by cases role <;> rfl
  | .call n args, role => by
    unfold check compileAs
    rw [checkAll_eq args]
    cases role <;> cases compileAll args <;> rfl
  | .binary op l r, role => by
    unfold check compileAs
    cases op with
    | lambda =>
      dsimp only
      rw [check_eq r .operand]
      cases l.params <;> cases r.compileAs .operand <;> rfl
    | split => rfl
    | dot =>
      dsimp only
      rw [check_eq l .operand, check_eq r .key]
      cases l.compileAs .operand <;> cases r.compileAs .key <;> rfl
    | _ =>
      dsimp only
      rw [check_eq l .operand, check_eq r .operand]
      cases l.compileAs .operand <;> cases r.compileAs .operand <;> rfl
  | .unary op a, role => by
    unfold check compileAs
    rw [check_eq a .operand]
    cases a.compileAs .operand <;> rfl
  | .bracket items, role => by
    unfold check compileAs
    rw [checkAll_eq items]
    cases compileAll items <;> rfl
  | .invoke t args, role => by
    unfold check compileAs
    rw [check_eq t role, checkAll_eq args]
    cases t.compileAs role <;> cases compileAll args <;> rfl
  | .block n b, role => by
    unfold check compileAs
    rw [check_eq b .operand]
    cases role <;> cases b.compileAs .operand <;> rfl
  | .matching n clauses, role => by
    unfold check compileAs
    rw [checkClauses_eq clauses n 0]
    cases compileClauses n 0 clauses <;> rfl

theorem checkAll_eq : ∀ es : List Expr, checkAll es = (compileAll es).map fun _ => ()
  | [] => rfl
  | e :: es => by
    unfold checkAll compileAll
    rw [check_eq e .operand, checkAll_eq es]
    cases e.compileAs .operand <;> cases compileAll es <;> rfl

theorem checkClauses_eq : ∀ (clauses : List Clause) (n i : Nat),
    checkClauses clauses = (compileClauses n i clauses).map fun _ => ()
  | [], _, _ => rfl
  | .mk literals actions :: rest, n, i => by
    unfold checkClauses compileClauses
    rw [checkLiterals_eq literals n i 0, checkActions_eq actions n i 0, checkClauses_eq rest n (i + 1)]
    cases compileLiterals n i 0 literals <;> cases compileActions n i 0 actions <;>
      cases compileClauses n (i + 1) rest <;> rfl

theorem checkLiterals_eq : ∀ (es : List Expr) (n i j : Nat),
    checkAll es = (compileLiterals n i j es).map fun _ => ()
  | [], _, _, _ => rfl
  | e :: es, n, i, j => by
    unfold checkAll compileLiterals
    rw [check_eq e .operand, checkLiterals_eq es n i (j + 1)]
    cases e.compileAs .operand <;> cases compileLiterals n i (j + 1) es <;> rfl

theorem checkActions_eq : ∀ (actions : List Action) (n i j : Nat),
    checkActions actions = (compileActions n i j actions).map fun _ => ()
  | [], _, _, _ => rfl
  | .guarded g a :: rest, n, i, j => by
    unfold checkActions compileActions
    rw [check_eq g .operand, check_eq a .operand, checkActions_eq rest n i (j + 1)]
    cases g.compileAs .operand <;> cases a.compileAs .operand <;>
      cases compileActions n i (j + 1) rest <;> rfl
  | .fallback a :: rest, n, i, j => by
    unfold checkActions compileActions
    rw [check_eq a .operand, checkActions_eq rest n i (j + 1)]
    cases a.compileAs .operand <;> cases compileActions n i (j + 1) rest <;> rfl

end

end Expr

end StackCalc
