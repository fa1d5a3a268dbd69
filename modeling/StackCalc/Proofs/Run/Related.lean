import StackCalc.Proofs.Run.Outcome

/-! # Related runs

Two runs are related if, started on machines that match, they end alike: either both with a result, and
then results and machines match again, or both with the same fault. `P` says which machines match at the
start, `Q` which results and machines match at the end, and `E` which machines match after a fault.

The rules follow the way runs are put together. `Related.bind` is the one that carries all others: what
the first two runs end with is what the second two start with. -/

namespace StackCalc

/-- Outcomes that match: two results with their machines in `Q`, or one fault with its machines in `E`. -/
inductive Matched {α β : Type} (Q : α → β → Machine → Machine → Prop) (E : Machine → Machine → Prop) :
    Except Fault α × Machine → Except Fault β × Machine → Prop where
  | result {a : α} {b : β} {m n : Machine} (h : Q a b m n) : Matched Q E (.ok a, m) (.ok b, n)
  | fault {e : Fault} {m n : Machine} (h : E m n) : Matched Q E (.error e, m) (.error e, n)

namespace Run

/-- **Related runs**: on machines that match they have outcomes that match. -/
def Related {α β : Type} (P : Machine → Machine → Prop) (r : Run α) (s : Run β)
    (Q : α → β → Machine → Machine → Prop) (E : Machine → Machine → Prop) : Prop :=
  ∀ m n, P m n → Matched Q E (r.outcome m) (s.outcome n)

namespace Related

variable {α β γ δ : Type} {P E : Machine → Machine → Prop} {r : Run α} {s : Run β}
  {Q : α → β → Machine → Machine → Prop} {R : γ → δ → Machine → Machine → Prop}

theorem pure {a : α} {b : β} (h : ∀ m n, P m n → Q a b m n) :
    Related P (Pure.pure a : Run α) (Pure.pure b : Run β) Q E :=
  fun m n hm => .result (h m n hm)

theorem throw (e : Fault) (h : ∀ m n, P m n → E m n) :
    Related P (throw e : Run α) (throw e : Run β) Q E :=
  fun m n hm => .fault (h m n hm)

theorem bind {k : α → Run γ} {l : β → Run δ} (h : Related P r s Q E)
    (hk : ∀ a b, Related (Q a b) (k a) (l b) R E) : Related P (r >>= k) (s >>= l) R E := by
  intro m n hm
  rw [outcome_bind, outcome_bind]
  have hrs := h m n hm
  generalize r.outcome m = x at hrs ⊢
  generalize s.outcome n = y at hrs ⊢
  cases hrs with
  | result hQ => exact hk _ _ _ _ hQ
  | fault hE => exact .fault hE

/-- The same computation outside the machine. -/
theorem lift (x : Except Fault α) (hE : ∀ m n, P m n → E m n) :
    Related P (liftM x) (liftM x) (fun a b m n => a = b ∧ P m n) E := by
  intro m n hm
  rw [outcome_lift, outcome_lift]
  rcases x with e | a
  · exact .fault (hE m n hm)
  · exact .result ⟨rfl, hm⟩

/-- What holds of the machines does not depend on the runs that follow. -/
theorem of_fact {p : Prop} (h : p → Related P r s Q E) :
    Related (fun m n => p ∧ P m n) r s Q E := fun m n hm => h hm.1 m n hm.2

end Related

end Run

end StackCalc
