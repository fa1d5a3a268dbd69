import StackCalc.Scope
import Mathlib.Data.Nat.Basic
import Mathlib.Tactic.Common

/-! # Growing forests of scopes

While code runs, scopes are added to the forest and names are bound. `Grows t f g` says that `g` has
come out of `f` that way, with names bound in no scope of `f` but the one that `t` points at: every
other scope is what it was, that one keeps its kind and its parent, and no passage has been added.

Growth from `f` is measured by where bindings made through a scope end up in `f`. When the forest has
grown in between they end up in the same place, or in a scope that `f` does not have yet
(`Grows.target_eq`): this is what lets steps of growth follow each other (`Grows.trans`). -/

namespace StackCalc

namespace Scope

/-- The kind and the parent of a scope. -/
def bare : Scope → Scope := Forest.Scope.update fun _ => []

theorem bare_update (g : Bindings → Bindings) (s : Scope) :
    (Forest.Scope.update g s).bare = s.bare := by
  cases s <;> rfl

/-- Hands binding on to its parent. -/
def IsPassage : Scope → Prop
  | passage _ => True
  | _ => False

theorem isPassage_of_bare_eq {s s' : Scope} (h : s.bare = s'.bare) (hs : s.IsPassage) :
    s'.IsPassage := by
  cases s with
  | passage p => cases s' <;> simp_all [bare, Forest.Scope.update, IsPassage]
  | _ => exact hs.elim

end Scope

namespace Forest

/-- **The forest `g` has grown out of `f`**, with names bound in no scope of `f` but the one that `t`
points at. -/
structure Grows (t : Target) (f g : Forest) : Prop where
  size_le : f.scopes.size ≤ g.scopes.size
  shape : ∀ i < f.scopes.size, (g.scopes[i]?).map Scope.bare = (f.scopes[i]?).map Scope.bare
  kept : ∀ i < f.scopes.size, t ≠ .scope i → g.scopes[i]? = f.scopes[i]?
  made : ∀ i s, f.scopes.size ≤ i → g.scopes[i]? = some s → ¬ s.IsPassage

namespace Grows

variable {t : Target} {f g h : Forest}

theorem refl (t : Target) (f : Forest) : Grows t f f where
  size_le := le_rfl
  shape := fun _ _ => rfl
  kept := fun _ _ _ => rfl
  made := fun i s hi hs => by
    rw [Array.getElem?_eq_none hi] at hs
    cases hs

/-- Growth that binds nothing is growth that binds through any scope. -/
theorem mono (hfg : Grows .none f g) : Grows t f g :=
  { hfg with kept := fun i hi _ => hfg.kept i hi (by simp) }

/-- Where bindings end up after growth, if it is a scope that was there before. -/
theorem targetWithin_eq (hfg : Grows t f g) {i : ScopeId} (hi : i < f.scopes.size) :
    ∀ (fuel : Nat) (id : ScopeId), g.targetWithin fuel id = .scope i →
      f.targetWithin fuel id = .scope i
  | 0, id, h => by simp [targetWithin] at h
  | fuel + 1, id, h => by
    by_cases hid : id < f.scopes.size
    · have hid' : id < g.scopes.size := Nat.lt_of_lt_of_le hid hfg.size_le
      have hs := hfg.shape id hid
      rw [Array.getElem?_eq_getElem hid, Array.getElem?_eq_getElem hid'] at hs
      simp only [targetWithin] at h ⊢
      rw [Array.getElem?_eq_getElem hid'] at h
      rw [Array.getElem?_eq_getElem hid]
      generalize g.scopes[id] = s at h hs
      generalize f.scopes[id] = s' at hs ⊢
      cases s <;> cases s' <;> simp_all [Scope.bare, Scope.update]
      exact targetWithin_eq hfg hi fuel _ h
    · -- a scope that was not there: it owns its bindings itself or refuses to bind
      simp only [targetWithin] at h
      rcases hg : g.scopes[id]? with _ | s
      · simp [hg] at h
      · have hp := hfg.made id s (not_lt.mp hid) hg
        rw [hg] at h
        cases s with
        | passage p => exact absurd trivial hp
        | root b | layer p b =>
          simp only [Target.scope.injEq] at h
          exact absurd (h ▸ hi) hid
        | shield p | literal p => simp at h

theorem target_eq (hfg : Grows t f g) {i id : ScopeId} (hi : i < f.scopes.size)
    (h : g.target id = .scope i) : f.target id = .scope i :=
  hfg.targetWithin_eq hi _ id h

/-- What a name stands for does not change where nothing is bound, if it is a value. -/
theorem findWithin_eq_value (hfg : Grows .none f g) {name : Text} {v : Value} :
    ∀ (fuel : Nat) (id : ScopeId), f.findWithin name fuel id = some (.value v) →
      g.findWithin name fuel id = some (.value v)
  | 0, id, h => by simp [findWithin] at h
  | fuel + 1, id, h => by
    simp only [findWithin] at h ⊢
    rcases hs : f.scopes[id]? with _ | s
    · simp [hs] at h
    · have hid : id < f.scopes.size := (Array.getElem?_eq_some_iff.1 hs).1
      have hup : ∀ p, f.findWithin name fuel p = some (.value v) → g.findWithin name fuel p = some (.value v) :=
        fun p => findWithin_eq_value hfg fuel p
      rw [hfg.kept id hid (by simp), hs]
      rw [hs] at h
      cases s with
      | root b => exact h
      | passage p | shield p => exact hup p h
      | layer p b =>
        rcases hb : b.lookup name with _ | w <;> simp only [hb] at h ⊢
        · exact hup p h
        · exact h
      | literal p =>
        rcases hp : f.findWithin name fuel p with _ | s <;> simp only [hp] at h
        · cases h
        · cases h
          simp only [hup p hp]

theorem find?_eq_value (hfg : Grows .none f g) {id : ScopeId} {name : Text} {v : Value}
    (h : f.find? id name = some (.value v)) : g.find? id name = some (.value v) :=
  hfg.findWithin_eq_value _ id h

/-- A scope stays what it is where nothing is bound. -/
theorem getElem?_eq (hfg : Grows .none f g) {id : ScopeId} {s : StackCalc.Scope} (h : f.scopes[id]? = some s) :
    g.scopes[id]? = some s :=
  (hfg.kept id (Array.getElem?_eq_some_iff.1 h).1 (by simp)).trans h

theorem trans {u : Target} (hfg : Grows t f g) (hgh : Grows u g h)
    (hu : ∀ i < f.scopes.size, u = .scope i → t = .scope i) : Grows t f h where
  size_le := Nat.le_trans hfg.size_le hgh.size_le
  shape := fun i hi => (hgh.shape i (Nat.lt_of_lt_of_le hi hfg.size_le)).trans (hfg.shape i hi)
  kept := fun i hi ht =>
    (hgh.kept i (Nat.lt_of_lt_of_le hi hfg.size_le) fun h => ht (hu i hi h)).trans (hfg.kept i hi ht)
  made := fun i s hi hs => by
    by_cases hg : i < g.scopes.size
    · have h1 := hgh.shape i hg
      rw [hs, Array.getElem?_eq_getElem hg] at h1
      have h2 := hfg.made i _ hi (Array.getElem?_eq_getElem hg)
      exact fun hp => h2 (Scope.isPassage_of_bare_eq (by simpa using h1) hp)
    · exact hgh.made i s (not_lt.mp hg) hs

end Grows

/-! ### Adding a scope and binding a name -/

theorem grows_push (f : Forest) {s : Scope} (hs : ¬ s.IsPassage) :
    Grows .none f ⟨f.scopes.push s⟩ where
  size_le := by simp
  shape := fun i hi => by rw [Array.getElem?_push_lt hi, Array.getElem?_eq_getElem hi]
  kept := fun i hi _ => by rw [Array.getElem?_push_lt hi, Array.getElem?_eq_getElem hi]
  made := fun i s' hi h => by
    rw [Array.getElem?_push] at h
    split_ifs at h with h1
    · cases h; exact hs
    · rw [Array.getElem?_eq_none hi] at h; cases h

/-- Bindings made through a new scope end up in it, or nowhere. -/
theorem target_push (f : Forest) {s : Scope} (hs : ¬ s.IsPassage) {i : ScopeId}
    (hi : i < f.scopes.size) : (⟨f.scopes.push s⟩ : Forest).target f.scopes.size ≠ .scope i := by
  unfold target targetWithin
  rw [Array.getElem?_push_size]
  cases s with
  | passage p => exact absurd trivial hs
  | root b | layer p b =>
    simp only [ne_eq, Target.scope.injEq]
    exact (Nat.ne_of_lt hi).symm
  | shield p | literal p => simp

theorem grows_put {f g : Forest} {id : ScopeId} {name : Text} {v : Value}
    (h : f.put id name v = .ok g) : Grows (f.target id) f g := by
  unfold put at h
  split at h
  next owner ht =>
    cases h
    refine ⟨by simp, fun i hi => ?_, fun i hi hne => ?_, fun i s hi hs => ?_⟩
    · rw [Array.getElem?_modify]
      split_ifs with ho
      · rw [Option.map_map]
        congr 1
        funext s
        exact Scope.bare_update _ s
      · rfl
    · rw [Array.getElem?_modify, if_neg fun ho => hne (ht.trans (congrArg _ ho))]
    · rw [Array.getElem?_eq_none (by simpa using hi)] at hs
      cases hs
  · cases h
  · cases h

end Forest

end StackCalc
