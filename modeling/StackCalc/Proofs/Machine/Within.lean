import StackCalc.Proofs.Run.Outcome
import StackCalc.Proofs.Scope.Growth

/-! # Runs that bind names in one place at most

`Run.Within via r` says that the run `r` binds names through the scope `via`, if any, and in scopes that
it has made itself, and nowhere else; and that the tables of the host's functions stay as they are. Here
are the rules for the pieces of runs. Making a scope is the one that matters: what follows may bind
through the new scope, and that is nothing to the scopes that were there (`Within.grow_bind`). -/

namespace StackCalc

open Forest (Grows)

/-- Where bindings made through a scope end up, if there is one to bind through. -/
def Forest.targetVia (f : Forest) : Option ScopeId → Target
  | none => .none
  | some id => f.target id

/-- **What a run may change**: the forest grows, with names bound through `via` alone, and the tables of
the host's functions stay. -/
structure Machine.Within (via : Option ScopeId) (m n : Machine) : Prop where
  scopes : Grows (m.scopes.targetVia via) m.scopes n.scopes
  natives : n.natives = m.natives
  shuffles : n.shuffles = m.shuffles

namespace Machine.Within

variable {via : Option ScopeId} {m n o : Machine}

theorem refl (via : Option ScopeId) (m : Machine) : m.Within via m := ⟨Grows.refl _ _, rfl, rfl⟩

theorem mono (h : m.Within none n) : m.Within via n := { h with scopes := h.scopes.mono }

theorem trans (h : m.Within via n) (h' : n.Within via o) : m.Within via o where
  scopes := h.scopes.trans h'.scopes fun i hi ht => by
    cases via with
    | none => cases ht
    | some id => exact h.scopes.target_eq hi ht
  natives := h'.natives.trans h.natives
  shuffles := h'.shuffles.trans h.shuffles

end Machine.Within

namespace Run

variable {α β : Type} {via : Option ScopeId}

/-- A run that changes no more than it may. -/
def Within (via : Option ScopeId) (r : Run α) : Prop := ∀ m : Machine, m.Within via (r.outcome m).2

namespace Within

theorem pure (a : α) : Within via (Pure.pure a : Run α) := fun m => .refl via m

theorem throw (e : Fault) : Within via (throw e : Run α) := fun m => .refl via m

theorem lift (x : Except Fault α) : Within via (liftM x : Run α) := fun m => .refl via m

theorem mono {r : Run α} (h : Within none r) : Within via r := fun m => (h m).mono

theorem bind {r : Run α} {k : α → Run β} (h : Within via r) (hk : ∀ a, Within via (k a)) :
    Within via (r >>= k) := by
  intro m
  have hr := h m
  rw [outcome_bind]
  rcases hrm : r.outcome m with ⟨e | a, m'⟩ <;> rw [hrm] at hr
  · exact hr
  · exact hr.trans (hk a m')

theorem tryCatch {r : Run α} {k : Fault → Run α} (h : Within via r) (hk : ∀ e, Within via (k e)) :
    Within via (tryCatch r k) := by
  intro m
  have hr := h m
  rw [outcome_tryCatch]
  rcases hrm : r.outcome m with ⟨e | a, m'⟩ <;> rw [hrm] at hr
  · exact hr.trans (hk e m')
  · exact hr

theorem get_bind {k : Machine → Run α} (h : ∀ m, Within via (k m)) : Within via (get >>= k) :=
  fun m => h m m

theorem ite {p : Prop} [Decidable p] {r s : Run α} (hr : Within via r) (hs : Within via s) :
    Within via (if p then r else s) := by
  by_cases hp : p
  · rwa [if_pos hp]
  · rwa [if_neg hp]

/-- Changes of anything but the scopes and the tables. -/
theorem modify {g : Machine → Machine} (hs : ∀ m, (g m).scopes = m.scopes)
    (hn : ∀ m, (g m).natives = m.natives) (hh : ∀ m, (g m).shuffles = m.shuffles) :
    Within via (modify g : Run PUnit) := fun m =>
  ⟨by rw [outcome_modify, hs]; exact Grows.refl _ _, hn m, hh m⟩

theorem forM {k : α → Run PUnit} (h : ∀ a, Within via (k a)) : ∀ as : List α, Within via (as.forM k)
  | [] => pure _
  | a :: as => bind (h a) fun _ => forM h as

theorem aside {r : Run α} (h : Within via r) : Within via (aside r) := fun m =>
  have h0 := h { m with storage := [] }
  ⟨h0.scopes, h0.natives, h0.shuffles⟩

theorem wants (declared : Option Int) (count : Int) (fault : Int → Fault) :
    Within via (wants declared count fault) := by
  rcases declared with _ | n
  · exact pure _
  · exact ite (pure _) (throw _)

/-! ### Pieces that bind nothing -/

theorem push (v : Value) : Within via (push v) := modify (fun _ => rfl) (fun _ => rfl) fun _ => rfl

theorem pushAll (vs : List Value) : Within via (pushAll vs) :=
  modify (fun _ => rfl) (fun _ => rfl) fun _ => rfl

theorem size (f : Frame) : Within via (size f) := fun m => .refl via m

theorem values (f : Frame) : Within via (values f) := fun m => .refl via m

theorem sub (f : Frame) (count : Int) : Within via (sub f count) := fun m => .refl via m

theorem find? (scope : ScopeId) (name : Text) : Within via (find? scope name) :=
  fun m => .refl via m

theorem pop (f : Frame) : Within via (pop f) := by
  intro m
  rw [outcome_pop]
  rcases f.view.pop m.storage with e | ⟨v, rest⟩
  · exact .refl via m
  · exact ⟨Grows.refl _ _, rfl, rfl⟩

theorem take (f : Frame) (count : Int) : Within via (take f count) := by
  intro m
  rw [outcome_take]
  rcases f.view.take m.storage count with e | ⟨vs, rest⟩
  · exact .refl via m
  · exact ⟨Grows.refl _ _, rfl, rfl⟩

theorem fresh : Within via fresh := fun _ => ⟨Grows.refl _ _, rfl, rfl⟩

theorem note (e : Event) : Within via (note e) := by
  intro m
  have h : ((Run.note e).outcome m).2 = if m.logging then { m with log := m.log.push e } else m := rfl
  rw [h]
  split_ifs
  · exact ⟨Grows.refl _ _, rfl, rfl⟩
  · exact .refl via m

theorem emit (c : Channel) (s : Text) : Within via (emit c s) :=
  modify (fun _ => rfl) (fun _ => rfl) fun _ => rfl

theorem distinguish (v : Value) : Within via (distinguish v) := by
  unfold Run.distinguish
  split
  · exact ite (bind fresh fun _ => pure _) (pure _)
  · exact pure _

theorem callable (make : Nat → Callable) : Within via (callable make) := bind fresh fun _ => pure _

theorem object (make : Nat → Composite) : Within via (object make) := bind fresh fun _ => pure _

theorem checkResults (f : Frame) (results : Option Int) : Within via (checkResults f results) := by
  rcases results with _ | r
  · exact pure _
  · exact bind (size f) fun actual => ite (throw _) (pure _)

/-! ### Pieces that bind -/

theorem put (scope : ScopeId) (name : Text) (v : Value) :
    Within (some scope) (put scope name v) := by
  intro m
  rw [outcome_put]
  rcases h : m.scopes.put scope name v with e | scopes
  · exact .refl _ m
  · exact ⟨Forest.grows_put h, rfl, rfl⟩

theorem putAll (scope : ScopeId) (entries : List (Text × Value)) :
    Within (some scope) (putAll scope entries) := by
  have h : ∀ e : Text × Value, Within (some scope) (Run.put scope e.1 e.2) :=
    fun e => put scope e.1 e.2
  exact forM h entries

/-- **What follows may bind through the new scope**: nothing that was there before is bound. -/
theorem grow_bind {s : Scope} (hs : ¬ s.IsPassage) {k : ScopeId → Run α}
    (hk : ∀ id, Within (some id) (k id)) : Within none (grow s >>= k) := by
  intro m
  rw [outcome_bind_of_ok (outcome_grow s m)]
  have h := hk m.scopes.scopes.size { m with scopes := ⟨m.scopes.scopes.push s⟩ }
  refine ⟨(Forest.grows_push m.scopes hs).trans h.scopes fun i hi ht => ?_, h.natives, h.shuffles⟩
  exact absurd ht (Forest.target_push m.scopes hs hi)

theorem inner_bind {f : Frame} {scope : ScopeId} {count : Int} {k : Frame → Run α}
    (hk : ∀ frame, Within (some frame.scope) (k frame)) :
    Within none (inner f scope count >>= k) := by
  unfold inner
  simp only [bind_assoc, pure_bind]
  exact bind (sub f count) fun view => grow_bind id fun layer => hk ⟨layer, view, f.trace⟩

end Within

end Run

end StackCalc
