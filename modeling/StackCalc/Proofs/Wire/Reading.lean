import StackCalc.Wire.Store
import StackCalc.Wire.Scalar
import Mathlib.Tactic.Common

/-! # Readers

A reader is known by its outcome on every stream: a result or a fault, and what is left of the stream.
`Reads r a bytes` says that the reader takes exactly these bytes off the front of a stream, whatever
follows them, and results in `a`. This passes through a sequence of readers, so that a codec reads what it
has written if its parts do. -/

namespace StackCalc.Wire

namespace Reader

variable {α β : Type}

/-! ### Outcomes -/

theorem outcome_bind (r : Reader α) (k : α → Reader β) (s : Bytes) :
    (r >>= k).outcome s =
      match r.outcome s with
      | (.ok a, rest) => (k a).outcome rest
      | (.error e, rest) => (.error e, rest) := by
  rcases h : r.outcome s with ⟨a | a, rest⟩ <;>
    simp only [outcome, ExceptT.run_bind, StateT.run_bind] at h ⊢ <;> rw [h] <;> rfl

theorem outcome_bind_of_ok {r : Reader α} {k : α → Reader β} {s rest : Bytes} {a : α}
    (h : r.outcome s = (.ok a, rest)) : (r >>= k).outcome s = (k a).outcome rest := by
  rw [outcome_bind, h]

theorem outcome_bind_of_error {r : Reader α} {k : α → Reader β} {s rest : Bytes} {e : Fault}
    (h : r.outcome s = (.error e, rest)) : (r >>= k).outcome s = (.error e, rest) := by
  rw [outcome_bind, h]

/-- A sequence that succeeds has succeeded in both parts. -/
theorem exists_of_outcome_bind_ok {r : Reader α} {k : α → Reader β} {s rest : Bytes} {b : β}
    (h : (r >>= k).outcome s = (.ok b, rest)) :
    ∃ a mid, r.outcome s = (.ok a, mid) ∧ (k a).outcome mid = (.ok b, rest) := by
  rw [outcome_bind] at h
  rcases hr : r.outcome s with ⟨e | a, mid⟩ <;> rw [hr] at h
  · cases h
  · exact ⟨a, mid, rfl, h⟩

theorem outcome_bytes (count : Nat) (s : Bytes) :
    (bytes count).outcome s =
      if sizeLimit ≤ count then (.error .numberTooLarge, s)
      else if (s.take count).length = count then (.ok (s.take count), s.drop count)
      else (.error (.endOfStream count (s.take count).length), s.drop count) := by
  unfold bytes
  by_cases hc : sizeLimit ≤ count
  · simp only [if_pos hc]
    rfl
  · simp only [if_neg hc]
    show (if (s.take count).length = count then (pure (s.take count) : Reader Bytes)
      else throw (.endOfStream count (s.take count).length)).outcome (s.drop count) = _
    split_ifs <;> rfl

theorem outcome_byte_cons (b : UInt8) (s : Bytes) : byte.outcome (b :: s) = (.ok b, s) := rfl

/-! ### Taking a known front -/

/-- **The reader takes exactly these bytes and results in `a`**, whatever follows them. -/
def Reads (r : Reader α) (a : α) (taken : Bytes) : Prop :=
  ∀ rest, r.outcome (taken ++ rest) = (.ok a, rest)

namespace Reads

theorem pure (a : α) : Reads (Pure.pure a) a [] := fun _ => rfl

theorem bind {r : Reader α} {k : α → Reader β} {a : α} {b : β} {s t : Bytes} (h : Reads r a s)
    (hk : Reads (k a) b t) : Reads (r >>= k) b (s ++ t) := by
  intro rest
  rw [List.append_assoc, outcome_bind_of_ok (h (t ++ rest))]
  exact hk rest

/-- The form in which results are wrapped up: what follows reads nothing. -/
theorem map {r : Reader α} {a : α} {s : Bytes} (h : Reads r a s) (g : α → β) :
    Reads (do return g (← r)) (g a) s := by
  have hb := h.bind (k := fun a => Pure.pure (g a)) (pure (g a))
  rwa [List.append_nil] at hb

/-- A computation that is no reading. -/
theorem lift_bind {x : Except Fault α} {k : α → Reader β} {a : α} {b : β} {s : Bytes} (hx : x = .ok a)
    (hk : Reads (k a) b s) : Reads ((liftM x : Reader α) >>= k) b s := by
  subst hx
  exact hk

theorem bytes {s : Bytes} (h : s.length < sizeLimit) : Reads (bytes s.length) s s := by
  intro rest
  have htake : (s ++ rest).take s.length = s := List.take_left
  rw [outcome_bytes, if_neg (by omega), htake, if_pos rfl, List.drop_left]

end Reads

end Reader

end StackCalc.Wire
