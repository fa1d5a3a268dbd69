import StackCalc.Stack
import Mathlib.Tactic.Common

/-! # Views of a storage that rests on another

A storage rests on `below` if `below` is its lower end: as a list, the top first, it is `s ++ below`.
A view whose base is raised by the length of `below` sees the same values there as the view sees on
`s` alone, and does the same to them; `below` stays as it is. There is one equation for each operation,
and none asks where the base lies. -/

namespace StackCalc.View

variable {α : Type}

/-- The view with its base raised. -/
def raise (v : View) (n : Nat) : View := ⟨v.base + n⟩

theorem size_raise (v : View) (s below : List α) :
    (v.raise below.length).size (s ++ below) = v.size s := by
  simp only [size, raise, List.length_append]
  omega

theorem values_raise (v : View) (s below : List α) :
    (v.raise below.length).values (s ++ below) = v.values s := by
  simp only [values, raise, List.length_append]
  rw [show s.length + below.length - (v.base + below.length) = s.length - v.base by omega,
    List.take_append_of_le_length (by omega)]

theorem clear_raise (v : View) (s below : List α) :
    (v.raise below.length).clear (s ++ below) = v.clear s ++ below := by
  simp only [clear, raise, List.length_append]
  rw [show s.length + below.length - (v.base + below.length) = s.length - v.base by omega,
    List.drop_append_of_le_length (by omega)]

theorem pop_raise (v : View) (s below : List α) :
    (v.raise below.length).pop (s ++ below) = (v.pop s).map fun p => (p.1, p.2 ++ below) := by
  unfold pop
  by_cases h : s.length ≤ v.base
  · rw [if_pos h, if_pos (by simp only [raise, List.length_append]; omega)]
    rfl
  · rw [if_neg h, if_neg (by simp only [raise, List.length_append]; omega)]
    cases s with
    | nil => simp at h
    | cons x rest => rfl

theorem sub_raise (v : View) (s below : List α) (count : Int) :
    (v.raise below.length).sub (s ++ below) count = (v.sub s count).map (raise · below.length) := by
  unfold sub
  rw [size_raise]
  by_cases h1 : count < 0
  · rw [if_pos h1, if_pos h1]; rfl
  · rw [if_neg h1, if_neg h1]
    by_cases h2 : v.size s < count
    · rw [if_pos h2, if_pos h2]; rfl
    · rw [if_neg h2, if_neg h2]
      simp only [size] at h2
      simp only [Except.map, raise, List.length_append]
      congr 2
      omega

theorem take_raise (v : View) (s below : List α) (count : Int) :
    (v.raise below.length).take (s ++ below) count =
      (v.take s count).map fun p => (p.1, p.2 ++ below) := by
  unfold take
  rw [sub_raise]
  rcases v.sub s count with e | top
  · rfl
  · simp only [Except.map, bind, Except.bind, pure, Except.pure, values_raise, clear_raise]

/-! ### A view that begins below

What is taken from the part of a storage above `below` does not depend on where below its top the view
begins. -/

theorem size_append {v : View} {s below : List α} :
    v.size (s ++ below) = s.length + (below.length - v.base) := by
  simp only [size, List.length_append]
  omega

theorem pop_cons {v : View} {x : α} {s below : List α} (hv : v.base ≤ below.length) :
    v.pop (x :: s ++ below) = .ok (x, s ++ below) := by
  unfold pop
  rw [if_neg (by simp only [List.length_append, List.length_cons]; omega)]
  rfl

theorem sub_append {v : View} {s below : List α} {count : Nat} (hv : v.base ≤ below.length)
    (hc : count ≤ s.length) :
    v.sub (s ++ below) count = .ok ⟨s.length - count + below.length⟩ := by
  unfold sub
  rw [size_append, if_neg (by omega), if_neg (by omega), List.length_append, Int.toNat_natCast]
  congr 2
  omega

/-- A view of the top values begins where the view does that it is a part of, or above. -/
theorem base_of_sub {v w : View} {s : List α} {count : Int} (h : v.sub s count = .ok w) :
    v.base ≤ w.base ∧ w.base ≤ s.length := by
  unfold sub size at h
  split_ifs at h with hcount hlen
  cases h
  dsimp only
  omega

theorem take_append {v : View} {s t below : List α} (hv : v.base ≤ below.length) :
    v.take (s ++ t ++ below) s.length = .ok (s.reverse, t ++ below) := by
  unfold take
  rw [sub_append hv (by simp only [List.length_append]; omega)]
  have h : (s ++ t ++ below).length - ((s ++ t).length - s.length + below.length) = s.length := by
    simp only [List.length_append]
    omega
  simp only [bind, Except.bind, pure, Except.pure, values, clear, h]
  rw [List.append_assoc, List.take_left, List.drop_left]

theorem values_whole (s : List α) : whole.values s = s.reverse := by
  rw [values, whole, Nat.sub_zero, List.take_length]

theorem clear_append (s below : List α) : (⟨below.length⟩ : View).clear (s ++ below) = below := by
  unfold clear
  rw [List.length_append, Nat.add_sub_cancel, List.drop_left]

end StackCalc.View
