import StackCalc.Data.Conversion
import StackCalc.Operator
import StackCalc.Pattern.Match
import Mathlib.Tactic.Common

/-! # Properties that are handed down

A property of values is hereditary if scalars have it, pairs and records have it exactly if their parts do,
and the members of an object have it if the object does. Functions of values build nothing but scalars and
pairs from what they are given, so their values have a hereditary property if their arguments do. Whatever
comes out of a value that has it, by taking it apart or asking it for its members, has it as well. -/

namespace StackCalc

namespace Payload

/-- A payload that holds no value. -/
def isScalar : Payload → Bool
  | int _ | float .. | str _ | bool _ | null | host .. => true
  | cons .. | code _ | callable _ | object _ => false

end Payload

/-- **A property that is handed down** from values to their parts, and that no scalar lacks. -/
class Value.Hereditary (P : Value → Prop) : Prop where
  scalar (d : DomainId) {p : Payload} (h : p.isScalar = true) : P (.mk d p)
  cons {d : DomainId} {a b : Value} : P (.mk d (.cons a b)) ↔ P a ∧ P b
  record {d : DomainId} {t : StructType} {vs : List Value} : P (.mk d (.object (.record t vs))) ↔ ∀ v ∈ vs, P v
  members {v : Value} (h : P v) {m : Members} (hm : v.members? = some m) : ∀ e ∈ m.entries, P e.2

variable {P : Value → Prop} [Value.Hereditary P]

open Value.Hereditary (scalar)

namespace Value

/-- A value that functions build from a scalar. -/
theorem Hereditary.own {p : Payload} (h : p.isScalar = true) : P (.own p) := scalar 0 h

theorem Hereditary.pair {v a b : Value} (h : P v) (hv : v.payload = .cons a b) : P a ∧ P b := by
  cases v with
  | mk d p =>
    cases hv
    exact Hereditary.cons.1 h

theorem Hereditary.ofList (d : DomainId) : ∀ {vs : List Value}, (∀ v ∈ vs, P v) → P (Value.ofList d vs)
  | [], _ => scalar d rfl
  | v :: _, h =>
    Hereditary.cons.2 ⟨h v List.mem_cons_self, Hereditary.ofList d fun w hw => h w (List.mem_cons_of_mem v hw)⟩

end Value

omit [Value.Hereditary P] in
/-- A name is looked up among the entries. -/
theorem Bindings.forall_of_lookup {b : List (Text × Value)} (h : ∀ e ∈ b, P e.2) {name : Text} {v : Value}
    (hv : b.lookup name = some v) : P v := by
  obtain ⟨before, after, rfl, -⟩ := List.lookup_eq_some_iff.1 hv
  exact h (name, v) (by simp)

omit [Value.Hereditary P] in
/-- The members that are listed are members. -/
theorem Members.forall_toList {m : Members} (h : ∀ e ∈ m.entries, P e.2) : ∀ e ∈ m.toList, P e.2 := by
  unfold Members.toList
  split_ifs
  · exact h
  · exact fun e he => by cases he

/-! ### Taking values apart -/

/-- What a constructor takes a value apart into is the fields of a record, or the value itself. -/
theorem Composite.forall_decompose {c : Composite} {v : Value} (hv : P v) {count : Nat} {vs : List Value}
    (h : c.decompose? v count = some vs) : ∀ w ∈ vs, P w := by
  have hrepeat : ∀ n : Nat, ∀ w ∈ List.replicate n v, P w := fun n w hw => by
    rw [List.eq_of_mem_replicate hw]
    exact hv
  unfold Composite.decompose? at h
  split at h
  · split at h
    next u ws hp =>
      split_ifs at h
      cases h
      cases v with
      | mk d p =>
        cases hp
        exact Value.Hereditary.record.1 hv
    next => cases h
  · split at h
    · cases h
      exact hrepeat _
    · cases h

theorem forall_takeApart {env : Text → Option Symbol} {name : Text} {count : Nat} {v : Value} (hv : P v)
    {vs : List Value} (h : takeApart env name count v = .ok (some vs)) : ∀ w ∈ vs, P w := by
  unfold takeApart at h
  rcases hc : findConstructor env name with e | c <;> rw [hc] at h
  · cases h
  · rcases hd : c.decompose? v count with _ | ws <;> simp only [bind, Except.bind, hd] at h
    · cases h
    · split_ifs at h
      cases h
      exact Composite.forall_decompose hv hd

/-! ### Data -/

/-- Data that came from a calculator has the property if the value does that it makes. -/
def Data.Holds (P : Value → Prop) : Data → Prop
  | .value v => P v
  | .code c => ∀ id, P (.mk id (.code c))
  | .pair a b => P a ∧ P b
  | _ => True

end StackCalc
