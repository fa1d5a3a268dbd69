import StackCalc.Fault

/-! # Stacks and views

A storage is a list of values, the top one first. A view covers the values above its base, a number of
values counted from the bottom. Pushing and popping through a view works on the storage; nothing is popped
from below the base. When values are taken through one view, a higher one may end up with its base above
the top: its size is then negative. -/

namespace StackCalc

/-- A view of a storage: the values above a base. -/
structure View where
  base : Nat
  deriving DecidableEq, Repr, Inhabited

namespace View

variable {α : Type}

/-- The view of all values. -/
def whole : View := ⟨0⟩

/-- The number of values that a view covers. -/
def size (v : View) (s : List α) : Int := (s.length : Int) - v.base

/-- The values of a view, bottom first. -/
def values (v : View) (s : List α) : List α := (s.take (s.length - v.base)).reverse

/-- Takes the top value. -/
def pop (v : View) (s : List α) : Except Fault (α × List α) :=
  if s.length ≤ v.base then .error .underflow
  else
    match s with
    | [] => .error .underflow
    | x :: rest => .ok (x, rest)

/-- The value at a depth below the top. -/
def peek (v : View) (s : List α) (depth : Int) : Except Fault α :=
  if (s.length : Int) - 1 - depth < v.base then .error (.tooShallow depth)
  else if depth < 0 then .error .indexOutOfRange
  else
    match s[depth.toNat]? with
    | some x => .ok x
    | none => .error .indexOutOfRange

/-- A view of the top values. -/
def sub (v : View) (s : List α) (count : Int) : Except Fault View :=
  if count < 0 then .error (.negativeView count)
  else if v.size s < count then .error (.tooFewValues count (v.size s))
  else .ok ⟨s.length - count.toNat⟩

/-- Removes the values that a view covers. -/
def clear (v : View) (s : List α) : List α := s.drop (s.length - v.base)

/-- The value at a position counted from the bottom, or from the top if it is negative. -/
def nth (v : View) (s : List α) (index : Int) : Except Fault α :=
  let vs := v.values s
  let i := if index < 0 then index + vs.length else index
  if i < 0 then .error .indexOutOfRange
  else
    match vs[i.toNat]? with
    | some x => .ok x
    | none => .error .indexOutOfRange

/-- The size as a length, which is not negative. -/
def length (v : View) (s : List α) : Except Fault Nat :=
  if v.size s < 0 then .error .negativeLength else .ok (v.size s).toNat

/-- Takes the top values, bottom first. -/
def take (v : View) (s : List α) (count : Int) : Except Fault (List α × List α) := do
  let top ← v.sub s count
  return (top.values s, top.clear s)

end View

end StackCalc
