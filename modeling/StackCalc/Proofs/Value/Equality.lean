import StackCalc.Value.Equality
import Mathlib.Tactic.Common

/-! # Values that are equal to themselves

A value agrees with itself, whatever it is (`Value.agrees_self`): it is the same object. It is equal to itself
unless it is a floating-point value that is not a number. Members of pairs and records need only agree, so it
is the value as a whole that counts, and nothing in it. -/

namespace StackCalc

namespace Value

/-- The value itself is not a number. -/
def isNaN : Value → Bool
  | .mk _ (.float x _) => x.isNaN
  | _ => false

end Value

theorem Payload.eq_float (x y : Binary64) (i j : Nat) : (Payload.float x i).eq (.float y j) = x.eq y := by
  unfold Payload.eq
  rfl

theorem Callable.same_self (f : Callable) : f.same f = true := by
  cases f <;> simp [Callable.same, Callable.serial?]

mutual

theorem Value.agrees_self (v : Value) : v.agrees v = true := by
  obtain ⟨d, p⟩ := v
  have hp := p.eq_self
  unfold Value.agrees
  rw [beq_self_eq_true, Bool.true_and]
  cases p with
  | float x i =>
    dsimp only
    rw [beq_self_eq_true, beq_self_eq_true]
    rfl
  | _ => exact hp fun x i h => by cases h

/-- A payload is equal to itself if it is no floating-point number. -/
theorem Payload.eq_self : ∀ p : Payload, (∀ x i, p ≠ .float x i) → p.eq p = true
  | .float x i, h => absurd rfl (h x i)
  | .cons a b, _ => by
    unfold Payload.eq
    rw [a.agrees_self, b.agrees_self]
    rfl
  | .callable f, _ => by
    unfold Payload.eq
    exact f.same_self
  | .object c, _ => by
    unfold Payload.eq
    exact c.eq_self
  | .int _, _ | .str _, _ | .bool _, _ | .code _, _ | .host _ _ _, _ => by simp [Payload.eq]
  | .null, _ => by unfold Payload.eq; rfl

theorem Composite.eq_self : ∀ c : Composite, c.eq c = true
  | .record t vs => by
    unfold Composite.eq
    rw [agreeAll_self vs, beq_self_eq_true]
    rfl
  | .struct _ | .pattern .. | .binder .. | .construction .. | .host .. => by
    simp [Composite.eq, Composite.identity?]

theorem agreeAll_self : ∀ vs : List Value, agreeAll vs vs = true
  | [] => by unfold agreeAll; rfl
  | v :: vs => by
    unfold agreeAll
    rw [v.agrees_self, agreeAll_self vs]
    rfl

end

namespace Value

variable {v w : Value}

/-- What is equal agrees. -/
theorem agrees_of_eq (h : v.eq w = true) : v.agrees w = true := by
  obtain ⟨d, p⟩ := v
  obtain ⟨e, q⟩ := w
  obtain ⟨hd, hp⟩ := (Value.eq_iff _ _).1 h
  obtain rfl : d = e := hd
  unfold Value.agrees
  rw [beq_self_eq_true, Bool.true_and]
  split
  next x m y n =>
    have heq : x.eq y = true := (Payload.eq_float x y m n).symm.trans hp
    rw [heq, Bool.or_true]
  next => exact hp

/-- What agrees is equal, unless it is not a number. -/
theorem eq_of_agrees (h : v.agrees w = true) (hv : v.isNaN = false ∨ w.isNaN = false) : v.eq w = true := by
  obtain ⟨d, p⟩ := v
  obtain ⟨e, q⟩ := w
  unfold Value.agrees at h
  rw [Bool.and_eq_true] at h
  obtain ⟨hd, hp⟩ := h
  obtain rfl : d = e := beq_iff_eq.1 hd
  refine (Value.eq_iff _ _).2 ⟨rfl, ?_⟩
  split at hp
  next x m y n =>
    have hfloat : (Value.mk d (.float x m)).payload.eq (Value.mk d (.float y n)).payload = x.eq y :=
      Payload.eq_float x y m n
    rw [hfloat]
    rcases Bool.or_eq_true_iff.1 hp with hsame | heq
    · -- the same object is equal to itself, if it is a number
      obtain ⟨hxy, -⟩ := Bool.and_eq_true_iff.1 hsame
      obtain rfl : x = y := beq_iff_eq.1 hxy
      have hx : x.isNaN = false := hv.elim id id
      exact (Binary64.eq_self_iff x).2 hx
    · exact heq
  next => exact hp

theorem eq_self (hv : v.isNaN = false) : v.eq v = true := eq_of_agrees v.agrees_self (.inl hv)

theorem agrees_mk_cons (d e : DomainId) (a b x y : Value) :
    (mk d (.cons a b)).agrees (mk e (.cons x y)) = (d == e && (a.agrees x && b.agrees y)) := by
  simp [agrees, Payload.eq]

theorem agrees_mk_record (d e : DomainId) (t u : StructType) (vs ws : List Value) :
    (mk d (.object (.record t vs))).agrees (mk e (.object (.record u ws))) =
      (d == e && (t.serial == u.serial && agreeAll vs ws)) := by
  simp [agrees, Payload.eq, Composite.eq]

/-- Pairs agree if their members do. -/
theorem agrees_cons {d : DomainId} {a b x y : Value} (ha : a.agrees x = true) (hb : b.agrees y = true) :
    (mk d (.cons a b)).agrees (mk d (.cons x y)) = true := by
  rw [agrees_mk_cons, beq_self_eq_true, ha, hb]
  rfl

/-- What agrees with a pair is a pair. -/
theorem of_agrees_cons {d : DomainId} {x y : Value} (h : v.agrees (mk d (.cons x y)) = true) :
    ∃ a b, v = mk d (.cons a b) ∧ a.agrees x = true ∧ b.agrees y = true := by
  obtain ⟨e, p⟩ := v
  cases p with
  | cons a b =>
    rw [agrees_mk_cons, Bool.and_eq_true, Bool.and_eq_true] at h
    obtain ⟨hd, ha, hb⟩ := h
    obtain rfl : e = d := beq_iff_eq.1 hd
    exact ⟨a, b, rfl, ha, hb⟩
  | _ => simp [agrees, Payload.eq] at h

/-- Records of one type agree if their fields do. -/
theorem agrees_record {d : DomainId} {t u : StructType} {vs ws : List Value} (ht : t.serial = u.serial)
    (h : agreeAll vs ws = true) : (mk d (.object (.record t vs))).agrees (mk d (.object (.record u ws))) = true := by
  rw [agrees_mk_record, ht, beq_self_eq_true, beq_self_eq_true, h]
  rfl

/-- What agrees with a record is a record of its type. -/
theorem of_agrees_record {d : DomainId} {t : StructType} {ws : List Value}
    (h : v.agrees (mk d (.object (.record t ws))) = true) :
    ∃ u vs, v = mk d (.object (.record u vs)) ∧ u.serial = t.serial ∧ agreeAll vs ws = true := by
  obtain ⟨e, p⟩ := v
  cases p with
  | object c =>
    cases c with
    | record u vs =>
      rw [agrees_mk_record, Bool.and_eq_true, Bool.and_eq_true, beq_iff_eq, beq_iff_eq] at h
      obtain ⟨rfl, hserial, hvs⟩ := h
      exact ⟨u, vs, rfl, hserial, hvs⟩
    | _ => simp [agrees, Payload.eq, Composite.eq, Composite.identity?] at h
  | _ => simp [agrees, Payload.eq] at h

/-- What is equal to something is a number, or no floating-point value at all. -/
theorem isNaN_of_eq (h : v.eq w = true) : v.isNaN = false := by
  obtain ⟨d, p⟩ := v
  obtain ⟨e, q⟩ := w
  cases p with
  | float x i =>
    cases q with
    | float y j =>
      have heq : x.eq y = true := (Payload.eq_float x y i j).symm.trans ((Value.eq_iff _ _).1 h).2
      unfold Binary64.eq Binary64.compareBy at heq
      rw [Bool.and_eq_true, Bool.and_eq_true, Bool.not_eq_true'] at heq
      exact heq.1.1
    | _ => simp [Value.eq, Payload.eq] at h
  | _ => rfl

end Value

theorem length_of_agreeAll : ∀ {vs ws : List Value}, agreeAll vs ws = true → vs.length = ws.length
  | [], [], _ => rfl
  | v :: vs, w :: ws, h => by
    rw [agreeAll, Bool.and_eq_true] at h
    rw [List.length_cons, List.length_cons, length_of_agreeAll h.2]
  | [], _ :: _, h => by simp [agreeAll] at h
  | _ :: _, [], h => by simp [agreeAll] at h

end StackCalc
