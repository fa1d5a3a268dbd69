import StackCalc.Proofs.Run.Outcome
import StackCalc.Proofs.Stack.Resting

/-! # Runs that spare what lies below

A run is given some values on top of `rest`. It spares `rest` if `rest` is still there when it ends,
however it ends; and it does not matter to it where in `rest` its view begins, if two runs that differ
in nothing else have the same outcome. `Run.Spares` says both at once, and says how many values are on
top of `rest` after a success. The count is what the rules pass on: what the first run leaves is what
the second one starts with.

Most pieces of runs do not touch the storage at all (`Run.Idle`). -/

namespace StackCalc

namespace Run

variable {α β : Type}

/-! ### Runs that leave the storage alone -/

/-- The storage ends as it began. -/
def Idle (r : Run α) : Prop := ∀ m : Machine, (r.outcome m).2.storage = m.storage

namespace Idle

theorem pure (a : α) : Idle (Pure.pure a : Run α) := fun _ => rfl

theorem throw (e : Fault) : Idle (throw e : Run α) := fun _ => rfl

theorem lift (x : Except Fault α) : Idle (liftM x : Run α) := fun _ => rfl

theorem bind {r : Run α} {k : α → Run β} (h : Idle r) (hk : ∀ a, Idle (k a)) : Idle (r >>= k) := by
  intro m
  have hr := h m
  rw [outcome_bind]
  rcases hrm : r.outcome m with ⟨e | a, m'⟩ <;> rw [hrm] at hr
  · exact hr
  · exact (hk a m').trans hr

theorem get_bind {k : Machine → Run α} (h : ∀ m, Idle (k m)) : Idle (get >>= k) := fun m => h m m

theorem ite {p : Prop} [Decidable p] {r s : Run α} (hr : Idle r) (hs : Idle s) :
    Idle (if p then r else s) := by
  by_cases hp : p
  · rwa [if_pos hp]
  · rwa [if_neg hp]

theorem forM {k : α → Run PUnit} (h : ∀ a, Idle (k a)) : ∀ as : List α, Idle (as.forM k)
  | [] => pure _
  | a :: as => bind (h a) fun _ => forM h as

theorem aside (r : Run α) : Idle (aside r) := fun _ => rfl

theorem values (f : Frame) : Idle (values f) := fun _ => rfl

theorem fresh : Idle fresh := fun _ => rfl

theorem note (e : Event) : Idle (note e) := by
  intro m
  have h : ((Run.note e).outcome m).2 = if m.logging then { m with log := m.log.push e } else m := rfl
  rw [h]
  split_ifs <;> rfl

theorem emit (c : Channel) (s : Text) : Idle (emit c s) := fun _ => rfl

theorem find? (scope : ScopeId) (name : Text) : Idle (find? scope name) := fun _ => rfl

theorem grow (s : Scope) : Idle (grow s) := fun _ => rfl

theorem put (scope : ScopeId) (name : Text) (v : Value) : Idle (put scope name v) := by
  intro m
  rw [outcome_put]
  rcases m.scopes.put scope name v with e | scopes <;> rfl

theorem putAll (scope : ScopeId) (entries : List (Text × Value)) : Idle (putAll scope entries) := by
  have h : ∀ e : Text × Value, Idle (Run.put scope e.1 e.2) := fun e => put scope e.1 e.2
  exact forM h entries

theorem distinguish (v : Value) : Idle (distinguish v) := by
  unfold Run.distinguish
  split
  · exact ite (bind fresh fun _ => pure _) (pure _)
  · exact pure _

theorem callable (make : Nat → Callable) : Idle (callable make) := bind fresh fun _ => pure _

theorem object (make : Nat → Composite) : Idle (object make) := bind fresh fun _ => pure _

end Idle

/-! ### Runs that spare what lies below -/

/-- From this machine the two runs have the same outcome, and leave `rest` where it is, with as many
values on top of it as `K` says if they succeed. -/
def SparesAt (rest : List Value) (m : Machine) (r s : Run α) (K : α → Nat → Prop) : Prop :=
  r.outcome m = s.outcome m ∧ ∃ top : List Value, (r.outcome m).2.storage = top ++ rest ∧
    ∀ a, (r.outcome m).1 = .ok a → K a top.length

/-- **Runs that spare `rest`**, given any `n` values on top of it. -/
def Spares (rest : List Value) (n : Nat) (r s : Run α) (K : α → Nat → Prop) : Prop :=
  ∀ (m : Machine) (top : List Value), m.storage = top ++ rest → top.length = n → SparesAt rest m r s K

namespace SparesAt

variable {rest : List Value} {m : Machine} {r s : Run α} {K L : α → Nat → Prop}
  {J : β → Nat → Prop}

theorem mono (h : SparesAt rest m r s K) (hK : ∀ a k, K a k → L a k) : SparesAt rest m r s L := by
  obtain ⟨he, top, ht, hk⟩ := h
  exact ⟨he, top, ht, fun a ha => hK a _ (hk a ha)⟩

theorem of_ok (h : SparesAt rest m r s K) {a : α} {m' : Machine} (hr : r.outcome m = (.ok a, m')) :
    ∃ top : List Value, m'.storage = top ++ rest ∧ K a top.length := by
  obtain ⟨-, top, ht, hK⟩ := h
  rw [hr] at ht hK
  exact ⟨top, ht, hK a rfl⟩

/-- What two runs come to after a start that both have in common. -/
theorem of_outcome {m' : Machine} {r' s' : Run α} (hr : r.outcome m = r'.outcome m')
    (hs : s.outcome m = s'.outcome m') (h : SparesAt rest m' r' s' K) : SparesAt rest m r s K := by
  rw [SparesAt, hr, hs]
  exact h

theorem bind {p q : α → Run β} (h : SparesAt rest m r s K)
    (hk : ∀ a k, K a k → Spares rest k (p a) (q a) J) : SparesAt rest m (r >>= p) (s >>= q) J := by
  obtain ⟨he, top, ht, hK⟩ := h
  rcases hr : r.outcome m with ⟨e | a, m'⟩
  · rw [hr] at ht
    rw [SparesAt, outcome_bind_of_error hr, outcome_bind_of_error (he ▸ hr)]
    exact ⟨rfl, top, ht, fun _ h => by cases h⟩
  · rw [hr] at ht hK
    rw [SparesAt, outcome_bind_of_ok hr, outcome_bind_of_ok (he ▸ hr)]
    exact hk a _ (hK a rfl) m' top ht rfl

end SparesAt

namespace Spares

variable {rest : List Value} {n : Nat} {r s : Run α} {K L : α → Nat → Prop} {J : β → Nat → Prop}

theorem pure {a : α} (h : K a n) : Spares rest n (Pure.pure a) (Pure.pure a) K :=
  fun _ top hm hn => ⟨rfl, top, hm, fun _ ha => by cases ha; exact hn ▸ h⟩

theorem throw (e : Fault) : Spares rest n (throw e : Run α) (throw e) K :=
  fun _ top hm _ => ⟨rfl, top, hm, fun _ ha => by cases ha⟩

theorem mono (h : Spares rest n r s K) (hK : ∀ a k, K a k → L a k) : Spares rest n r s L :=
  fun m top hm hn => (h m top hm hn).mono hK

theorem bind {p q : α → Run β} (h : Spares rest n r s K)
    (hk : ∀ a k, K a k → Spares rest k (p a) (q a) J) : Spares rest n (r >>= p) (s >>= q) J :=
  fun m top hm hn => (h m top hm hn).bind hk

/-- The form in which most runs are put together: the first two leave a known number of values. -/
theorem bind_const {k : Nat} {p q : α → Run β} (h : Spares rest n r s fun _ j => j = k)
    (hk : ∀ a, Spares rest k (p a) (q a) J) : Spares rest n (r >>= p) (s >>= q) J :=
  bind h fun a _ hj => hj ▸ hk a

theorem of_idle (h : Idle r) : Spares rest n r r fun _ k => k = n :=
  fun m top hm hn => ⟨rfl, top, (h m).trans hm, fun _ _ => hn⟩

theorem idle_bind {p q : α → Run β} (h : Idle r) (hk : ∀ a, Spares rest n (p a) (q a) J) :
    Spares rest n (r >>= p) (r >>= q) J := bind_const (of_idle h) hk

theorem lift (x : Except Fault α) :
    Spares rest n (liftM x : Run α) (liftM x) fun a k => x = .ok a ∧ k = n :=
  fun _ top hm hn => ⟨rfl, top, hm, fun _ ha => ⟨ha, hn⟩⟩

theorem get_bind {k l : Machine → Run α} (h : ∀ m, Spares rest n (k m) (l m) K) :
    Spares rest n (get >>= k) (get >>= l) K := fun m => h m m

theorem push (v : Value) : Spares rest n (push v) (push v) fun _ k => k = n + 1 :=
  fun _ top hm hn => ⟨rfl, v :: top, congrArg (v :: ·) hm, fun _ _ => congrArg (· + 1) hn⟩

theorem pushAll (vs : List Value) :
    Spares rest n (pushAll vs) (pushAll vs) fun _ k => k = n + vs.length := by
  refine fun _ top hm hn => ⟨rfl, vs.reverse ++ top, ?_, fun _ _ => ?_⟩
  · rw [outcome_pushAll]
    simp only [hm, List.append_assoc]
  · rw [List.length_append, List.length_reverse, hn, Nat.add_comm]

/-- A loop that pushes once for every item. -/
theorem forM {k : α → Run PUnit} (h : ∀ a n, Spares rest n (k a) (k a) fun _ j => j = n + 1) :
    ∀ (as : List α) (n : Nat),
      Spares rest n (as.forM k) (as.forM k) fun _ j => j = n + as.length
  | [], _ => pure rfl
  | a :: as, n => by
    refine bind_const (h a n) fun _ => (forM h as (n + 1)).mono fun _ j hj => ?_
    rw [hj, List.length_cons]
    omega

theorem size_bind {f g : Frame} {k l : Int → Run α}
    (h : Spares rest n (k (n + (rest.length - f.view.base))) (l (n + (rest.length - g.view.base))) K) :
    Spares rest n (size f >>= k) (size g >>= l) K := by
  intro m top hm hn
  have hs : ∀ r : Frame, r.view.size m.storage = n + (rest.length - r.view.base) := by
    intro r
    rw [hm, View.size_append, hn]
  rw [SparesAt, outcome_bind_of_ok (outcome_size f m), outcome_bind_of_ok (outcome_size g m), hs, hs]
  exact h m top hm hn

/-! ### The pieces that look at the stack

Here the two runs differ in their views, both of which begin somewhere in `rest`. -/

section
variable {f : Frame} {w : View} (hf : f.view.base ≤ rest.length) (hw : w.base ≤ rest.length)
include hf hw

theorem pop : Spares rest (n + 1) (pop f) (pop { f with view := w }) fun _ k => k = n := by
  intro m top hm hn
  obtain ⟨x, top, rfl⟩ := List.exists_cons_of_length_eq_add_one hn
  have hp : ∀ g : Frame, g.view.base ≤ rest.length →
      (Run.pop g).outcome m = (.ok x, { m with storage := top ++ rest }) := by
    intro g hg
    rw [outcome_pop, hm, View.pop_cons hg]
  rw [SparesAt, hp f hf, hp { f with view := w } hw]
  exact ⟨rfl, top, rfl, fun _ _ => by simpa using hn⟩

/-- What is taken off, and what is left. -/
theorem take (count : Nat) : Spares rest (count + n) (take f count) (take { f with view := w } count)
    fun vs k => vs.length = count ∧ k = n := by
  intro m top hm hn
  obtain ⟨s, t, rfl, hs⟩ : ∃ s t : List Value, top = s ++ t ∧ s.length = count :=
    ⟨top.take count, top.drop count, (List.take_append_drop count top).symm,
      by rw [List.length_take]; omega⟩
  have hp : ∀ g : Frame, g.view.base ≤ rest.length →
      (Run.take g count).outcome m = (.ok s.reverse, { m with storage := t ++ rest }) := by
    intro g hg
    rw [outcome_take, hm, ← hs, View.take_append hg]
  rw [SparesAt, hp f hf, hp { f with view := w } hw]
  refine ⟨rfl, t, rfl, fun vs hvs => ?_⟩
  cases hvs
  rw [List.length_append] at hn
  exact ⟨by rw [List.length_reverse, hs], by omega⟩

theorem takeAll : Spares rest n (Run.take f n) (Run.take { f with view := w } n)
    fun vs k => vs.length = n ∧ k = 0 := take (n := 0) hf hw n

theorem sub : Spares rest n (sub f n) (sub { f with view := w } n)
    fun v k => v = ⟨rest.length⟩ ∧ k = n := by
  intro m top hm hn
  have hp : ∀ g : Frame, g.view.base ≤ rest.length →
      (Run.sub g n).outcome m = (.ok ⟨rest.length⟩, m) := by
    intro g hg
    rw [outcome_sub, hm, ← hn, View.sub_append hg (Nat.le_refl _), Nat.sub_self, Nat.zero_add]
  rw [SparesAt, hp f hf, hp { f with view := w } hw]
  exact ⟨rfl, top, hm, fun v hv => by cases hv; exact ⟨rfl, hn⟩⟩

/-- A frame over all the values on top of `rest`. -/
theorem inner (scope : ScopeId) :
    Spares rest n (inner f scope n) (inner { f with view := w } scope n)
      fun g k => g.view = ⟨rest.length⟩ ∧ k = n := by
  refine bind (sub hf hw) fun v k hv => ?_
  obtain ⟨rfl, rfl⟩ := hv
  exact idle_bind (Idle.grow _) fun _ => pure ⟨rfl, rfl⟩

end

theorem clear : Spares rest n
    (modify fun m => { m with storage := (⟨rest.length⟩ : View).clear m.storage })
    (modify fun m => { m with storage := (⟨rest.length⟩ : View).clear m.storage })
    fun _ k => k = 0 := by
  intro m top hm hn
  refine ⟨rfl, [], ?_, fun _ _ => rfl⟩
  rw [outcome_modify]
  simp only [hm, View.clear_append, List.nil_append]

theorem checkResults {g : Frame} (hg : g.view = ⟨rest.length⟩) (results : Int) :
    Spares rest n (checkResults g (some results)) (Run.checkResults g (some results))
      fun _ k => (k : Int) = results := by
  intro m top hm hn
  have hsize : g.view.size m.storage = n := by
    rw [hg, hm, View.size_append, hn, Int.sub_self, Int.add_zero]
  rw [SparesAt, outcome_checkResults, hsize]
  refine ⟨rfl, top, hm, fun a ha => ?_⟩
  split_ifs at ha with hne
  omega

end Spares

end Run

end StackCalc
