import StackCalc.Proofs.Value.Faults
import StackCalc.Proofs.Scope.Binding
import StackCalc.Proofs.Pattern.Match

/-! # What matching binds

Matching takes values apart and binds their parts to names, so what it binds has every property that is
handed down from the values; and it ends in ordinary faults, if it fails. -/

namespace StackCalc

variable {P : Value → Prop}

variable [OrdinaryTolerance]

/-- Binding fails in scopes that are closed to it. -/
theorem Forest.ends_put (f : Forest) (id : ScopeId) (name : Text) (v : Value) : Ends (f.put id name v) := by
  unfold put
  split
  · exact Ends.ok _
  · exact .ordinary rfl
  · exact .ordinary rfl

theorem ends_findConstructor (env : Text → Option Symbol) (name : Text) : Ends (findConstructor env name) := by
  unfold findConstructor
  split
  · exact .ordinary rfl
  · exact .error (tolerated_notDecomposable _)
  · split
    · exact Yields.ite (fun _ => Ends.ok _) fun _ => .error (tolerated_notDecomposable _)
    · exact .error (tolerated_notDecomposable _)

theorem yields_takeApart [Value.Hereditary P] {v : Value} (h : P v) (env : Text → Option Symbol) (name : Text)
    (count : Nat) :
    Yields (fun r => ∀ vs, r = some vs → ∀ w ∈ vs, P w) (takeApart env name count v) := by
  have hends : Ends (takeApart env name count v) := by
    refine (ends_findConstructor env name).bind fun c => ?_
    split
    · exact Ends.pure _
    · exact Yields.ite (fun _ => Ends.pure _) fun _ => .ordinary rfl
  rcases ht : takeApart env name count v with e | r <;> rw [ht] at hends
  · exact .error hends.of_error
  · exact .ok fun vs hr => forall_takeApart h (hr ▸ ht)

namespace Matching

/-- **A match of values that have the property**: what it binds has it, and its faults are tolerated. -/
structure Steady (P : Value → Prop) {α : Type} (r : Matching α) : Prop where
  ends : ∀ b : Bindings, (∀ e ∈ b, P e.2) → Ends (r.outcome b).1
  bound : ∀ b : Bindings, (∀ e ∈ b, P e.2) → ∀ e ∈ (r.outcome b).2, P e.2

variable {α β : Type}

theorem Steady.pure (a : α) : Steady P (Pure.pure a : Matching α) := ⟨fun _ _ => Ends.ok _, fun _ h => h⟩

theorem Steady.bind {r : Matching α} {k : α → Matching β} (h : Steady P r) (hk : ∀ a, Steady P (k a)) :
    Steady P (r >>= k) := by
  refine ⟨fun b hb => ?_, fun b hb => ?_⟩
  · have hr := h.ends b hb
    have hb' := h.bound b hb
    rw [outcome_bind]
    rcases ho : r.outcome b with ⟨e | a, b'⟩ <;> rw [ho] at hr hb'
    · exact .error hr.of_error
    · exact (hk a).ends b' hb'
  · have hb' := h.bound b hb
    rw [outcome_bind]
    rcases ho : r.outcome b with ⟨e | a, b'⟩ <;> rw [ho] at hb'
    · exact hb'
    · exact (hk a).bound b' hb'

theorem Steady.lift_bind {x : Except Fault α} {Q : α → Prop} {k : α → Matching β} (h : Yields Q x)
    (hk : ∀ a, Q a → Steady P (k a)) : Steady P ((liftM x : Matching α) >>= k) := by
  cases h with
  | ok h => exact hk _ h
  | error h => exact ⟨fun _ _ => .error h, fun _ hb => hb⟩

theorem Steady.ite {p : Prop} [Decidable p] {r s : Matching α} (hr : Steady P r) (hs : Steady P s) :
    Steady P (if p then r else s) := by
  split_ifs
  · exact hr
  · exact hs

end Matching

open Matching (Steady)

mutual

theorem Part.steady_accepts [Value.Hereditary P] (env : Text → Option Symbol) : ∀ (part : Part) {v : Value}, P v →
    Steady P (part.accepts env v)
  | .any, v, _ => by
    unfold Part.accepts
    exact Steady.pure _
  | .bind name, v, h => by
    unfold Part.accepts
    exact Steady.bind ⟨fun _ _ => Ends.ok _, fun _ hb => Bindings.forall_put hb name h⟩ fun _ => Steady.pure _
  | .exact expected, v, _ => by
    unfold Part.accepts
    exact Steady.pure _
  | .cons a b, v, h => by
    unfold Part.accepts
    split
    next x y hv =>
      obtain ⟨hx, hy⟩ := Value.Hereditary.pair h hv
      exact (a.steady_accepts env hx).bind fun _ => Steady.ite (b.steady_accepts env hy) (Steady.pure _)
    next => exact Steady.pure _
  | .construct name args, v, h => by
    unfold Part.accepts
    refine Steady.lift_bind (yields_takeApart h env name args.length) fun r hr => ?_
    cases r with
    | none => exact Steady.pure _
    | some vs => exact Part.steady_acceptsAll env args (hr vs rfl)

theorem Part.steady_acceptsAll [Value.Hereditary P] (env : Text → Option Symbol) :
    ∀ (ps : List Part) {vs : List Value}, (∀ v ∈ vs, P v) → Steady P (acceptsAll env ps vs)
  | [], vs, _ => by
    unfold acceptsAll
    exact Steady.pure _
  | p :: ps, [], _ => by
    unfold acceptsAll
    exact Steady.pure _
  | p :: ps, v :: vs, h => by
    unfold acceptsAll
    refine (p.steady_accepts env (h v List.mem_cons_self)).bind fun _ => Steady.ite ?_ (Steady.pure _)
    exact Part.steady_acceptsAll env ps fun w hw => h w (List.mem_cons_of_mem v hw)

end

theorem Pattern.steady_accepts [Value.Hereditary P] (env : Text → Option Symbol) (p : Pattern) {vs : List Value}
    (h : ∀ v ∈ vs, P v) : Steady P (p.accepts env vs) := by
  unfold Pattern.accepts
  refine Steady.ite (Part.steady_acceptsAll env p.parts h) ?_
  exact ⟨fun _ _ => .ordinary rfl, fun _ hb => hb⟩

end StackCalc
