import StackCalc.Fault
import Mathlib.Tactic.Common

/-! # Faults that are to be expected

A run reports the calculator's own errors. There are three more that number and text layers raise while
code runs and that pass through it: a number that is too large for a floating-point number, an integer that
has too many digits for a text, and a template that sets one delimiter where it takes two
(`Fault.isSlip`). A fourth is met by code that declares a negative number of arguments. No expression is
compiled to such code, but a host can put it together: `Leeway` says whether it may have.

Which faults a computation may end in is a `Tolerance`, and `Yields P x` says that the computation `x` ends
with a result that has the property `P` or in a fault that is tolerated. The text of an integer can always be
in the way; what functions of values may end in beyond that is `Fault.isOrdinary`. -/

namespace StackCalc

namespace Fault

/-- Passes through a run, although the program that runs is to blame for it. -/
def isSlip : Fault → Bool
  | numberTooLarge | tooManyDigits | missingDelimiter => true
  | _ => false

/-- A fault that a function of values may end in: it is reported, but not as one of the compiler, or it is one of
the three. -/
def isOrdinary (f : Fault) : Bool := (f.isReported && f.category != .compilation) || f.isSlip

theorem not_isReported_of_isSlip {f : Fault} (h : f.isSlip = true) : f.isReported = false := by
  cases f with
  | numberTooLarge | tooManyDigits | missingDelimiter => decide
  | _ => cases h

end Fault

variable {α β : Type} {P : α → Prop} {Q : β → Prop}

/-- The fault that a computation ends in. -/
def raised? : Except Fault α → Option Fault
  | .ok _ => none
  | .error f => some f

theorem raised?_eq_some {x : Except Fault α} {f : Fault} : raised? x = some f ↔ x = .error f := by
  rcases x with g | a
  · constructor
    · rintro ⟨⟩
      rfl
    · rintro ⟨⟩
      rfl
  · constructor <;> rintro ⟨⟩

/-- What comes to a result has come to one in each part. -/
theorem exists_of_bind_ok {x : Except Fault α} {k : α → Except Fault β} {b : β}
    (h : x >>= k = .ok b) : ∃ a, x = .ok a ∧ k a = .ok b := by
  cases x with
  | error e => cases h
  | ok a => exact ⟨a, rfl, h⟩

/-! ### Tolerance -/

/-- **Which faults a computation may end in.** -/
class Tolerance where
  Tolerates : Fault → Prop

/-- It is tolerated that a text is missing. -/
class TextTolerance extends Tolerance where
  tooManyDigits : Tolerates .tooManyDigits

/-- All faults are tolerated that a function of values may end in. -/
class OrdinaryTolerance extends TextTolerance where
  ordinary {f : Fault} (h : f.isOrdinary = true) : Tolerates f

/-- A fault that is tolerated. -/
abbrev Fault.Tolerated [Tolerance] (f : Fault) : Prop := Tolerance.Tolerates f

theorem Fault.Tolerated.ordinary [OrdinaryTolerance] {f : Fault} (h : f.isOrdinary = true) : f.Tolerated :=
  OrdinaryTolerance.ordinary h

/-! ### Leeway -/

/-- **What leeway code is given**, beyond what expressions are compiled to. Which faults are to be expected of
code depends on it, and so does everything that is said of them. -/
class Leeway where
  /-- Steps may declare negative numbers of arguments. -/
  negative : Prop

namespace Leeway

/-- Code is what expressions are compiled to. -/
abbrev none : Leeway := ⟨False⟩

/-- A number of arguments that code may declare. -/
def Allows [Leeway] (n : Int) : Prop := 0 ≤ n ∨ negative

theorem allows_natCast [Leeway] (n : Nat) : Allows n := .inl (Int.natCast_nonneg n)

end Leeway

/-- **A run of code may end in this fault**: it is reported, or slips through, or a negative number of
arguments has been declared. -/
inductive Fault.Expected [Leeway] : Fault → Prop where
  | reported {f : Fault} (h : f.isReported = true) : Fault.Expected f
  | slip {f : Fault} (h : f.isSlip = true) : Fault.Expected f
  | negative {n : Int} (hn : n < 0) (h : Leeway.negative) : Fault.Expected (.negativeView n)

theorem Leeway.Allows.expected [Leeway] {n : Int} (h : Leeway.Allows n) (hn : n < 0) :
    (Fault.negativeView n).Expected := by
  rcases h with h | h
  · omega
  · exact .negative hn h

theorem Fault.Expected.of_isOrdinary [Leeway] {f : Fault} (h : f.isOrdinary = true) : f.Expected := by
  rw [Fault.isOrdinary, Bool.or_eq_true, Bool.and_eq_true] at h
  exact h.elim (fun h => .reported h.1) .slip

/-- What is to be expected of code is tolerated. -/
instance [Leeway] : OrdinaryTolerance where
  Tolerates := Fault.Expected
  tooManyDigits := .slip rfl
  ordinary := .of_isOrdinary

/-! ### Computations that end in nothing else -/

section
variable [Tolerance]

/-- **A computation ends with a result that has the property**, or in a fault that is tolerated. -/
inductive Yields (P : α → Prop) : Except Fault α → Prop where
  | ok {a : α} (h : P a) : Yields P (.ok a)
  | error {f : Fault} (h : f.Tolerated) : Yields P (.error f)

/-- A computation that ends with a result, or in a fault that is tolerated. -/
abbrev Ends (x : Except Fault α) : Prop := Yields (fun _ => True) x

theorem yields_iff {x : Except Fault α} :
    Yields P x ↔ (∀ a, x = .ok a → P a) ∧ ∀ f, x = .error f → f.Tolerated := by
  constructor
  · rintro (ha | hf)
    · exact ⟨by rintro _ ⟨⟩; exact ha, by rintro _ ⟨⟩⟩
    · exact ⟨by rintro _ ⟨⟩, by rintro _ ⟨⟩; exact hf⟩
  · rintro ⟨hok, herror⟩
    cases x with
    | ok a => exact .ok (hok a rfl)
    | error f => exact .error (herror f rfl)

namespace Yields

theorem of_ok {a : α} (h : Yields P (.ok a)) : P a := by
  cases h with
  | ok h => exact h

theorem of_error {f : Fault} (h : Yields P (.error f)) : f.Tolerated := by
  cases h with
  | error h => exact h

theorem mono {R : α → Prop} {x : Except Fault α} (h : Yields P x) (hR : ∀ a, P a → R a) : Yields R x := by
  cases h with
  | ok h => exact .ok (hR _ h)
  | error h => exact .error h

theorem ends {x : Except Fault α} (h : Yields P x) : Ends x := h.mono fun _ _ => trivial

theorem pure {a : α} (h : P a) : Yields P (Pure.pure a : Except Fault α) := .ok h

theorem bind {x : Except Fault α} {k : α → Except Fault β} (h : Yields P x) (hk : ∀ a, P a → Yields Q (k a)) :
    Yields Q (x >>= k) := by
  cases h with
  | ok h => exact hk _ h
  | error h => exact .error h

theorem map {x : Except Fault α} {g : α → β} (h : Yields P x) (hg : ∀ a, P a → Q (g a)) :
    Yields Q (x.map g) := by
  cases h with
  | ok h => exact .ok (hg _ h)
  | error h => exact .error h

theorem ite {p : Prop} [Decidable p] {x y : Except Fault α} (hx : p → Yields P x) (hy : ¬ p → Yields P y) :
    Yields P (if p then x else y) := by
  split_ifs with hp
  · exact hx hp
  · exact hy hp

/-- Computations for each element of a list. -/
theorem mapM {k : β → Except Fault α} : ∀ {bs : List β}, (∀ b ∈ bs, Yields P (k b)) →
    Yields (fun as => ∀ a ∈ as, P a) (bs.mapM k)
  | [], _ => .ok fun _ h => by cases h
  | b :: bs, h => by
    rw [List.mapM_cons]
    refine (h b List.mem_cons_self).bind fun a ha => ?_
    refine (mapM fun b' hb' => h b' (List.mem_cons_of_mem b hb')).bind fun as has => .ok fun a' ha' => ?_
    rcases List.mem_cons.1 ha' with rfl | ha'
    · exact ha
    · exact has a' ha'

end Yields

namespace Ends

theorem ok (a : α) : Ends (.ok a : Except Fault α) := Yields.ok trivial

theorem pure (a : α) : Ends (Pure.pure a : Except Fault α) := Yields.ok trivial

theorem bind {x : Except Fault α} {k : α → Except Fault β} (h : Ends x) (hk : ∀ a, Yields Q (k a)) :
    Yields Q (x >>= k) := Yields.bind h fun a _ => hk a

end Ends

end

/-! ### Faults that stand to be raised -/

/-- If a missing text is the only fault that has to be tolerated, it is the only one there is. -/
theorem Fault.eq_tooManyDigits_of_ends {x : Except Fault α} (hx : ∀ t : TextTolerance, @Ends α t.toTolerance x)
    {f : Fault} (h : x = .error f) : f = .tooManyDigits := by
  let t : TextTolerance := { Tolerates := (· = .tooManyDigits), tooManyDigits := rfl }
  have hends := hx t
  rw [h] at hends
  exact hends.of_error

/-- A fault of functions of values. -/
theorem Yields.ordinary [OrdinaryTolerance] {f : Fault} (h : f.isOrdinary = true) :
    Yields P (.error f : Except Fault α) :=
  .error (.ordinary h)

section
variable [Leeway]

/-- A fault that is reported. -/
theorem Fault.Tolerated.reported {f : Fault} (h : f.isReported = true) : f.Tolerated := Fault.Expected.reported h

end

end StackCalc
