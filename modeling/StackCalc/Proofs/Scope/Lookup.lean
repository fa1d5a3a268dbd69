import StackCalc.Scope
import Mathlib.Tactic.Common

/-! # Looking names up

In a forest in which parents are older than their children (`Forest.Ordered`) the number of steps that
a lookup may take does not matter, as long as it reaches the oldest scope; and what a name stands for in
a scope depends on that scope and older ones only. -/

namespace StackCalc

/-- The scope that a scope turns to. -/
def Scope.parent? : Scope → Option ScopeId
  | root _ => none
  | passage p | layer p _ | shield p | literal p => some p

/-- A name that stands for something is among the names that are bound. -/
theorem Bindings.mem_of_lookup {b : Bindings} {name : Text} {v : Value} (h : b.lookup name = some v) :
    (name, v) ∈ b := by
  obtain ⟨before, after, rfl, -⟩ := List.lookup_eq_some_iff.1 h
  simp

namespace Forest

/-- Parents are older than their children. -/
def Ordered (f : Forest) : Prop :=
  ∀ (i p : Nat) (s : StackCalc.Scope), f.scopes[i]? = some s → s.parent? = some p → p < i

variable {f g : Forest}

/-- Two lookups agree if the scopes they come to do, and one of them has enough steps for all of them. -/
theorem findWithin_congr (hf : f.Ordered) {n : Nat} (h : ∀ i < n, g.scopes[i]? = f.scopes[i]?) (name : Text) :
    ∀ (fuel fuel' id : Nat), id < n → id < fuel → id < fuel' →
      g.findWithin name fuel id = f.findWithin name fuel' id
  | 0, _, _, _, h0, _ => absurd h0 (Nat.not_lt_zero _)
  | _ + 1, 0, _, _, _, h0 => absurd h0 (Nat.not_lt_zero _)
  | fuel + 1, fuel' + 1, id, hid, hfuel, hfuel' => by
    simp only [findWithin]
    rw [h id hid]
    rcases hs : f.scopes[id]? with _ | s
    · rfl
    · have hup : ∀ p : Nat, s.parent? = some p → g.findWithin name fuel p = f.findWithin name fuel' p := by
        intro p hp
        have hlt : p < id := hf id p s hs hp
        exact findWithin_congr hf h name fuel fuel' p (by omega) (by omega) (by omega)
      cases s with
      | root b => rfl
      | passage p | shield p => exact hup p rfl
      | layer p b | literal p => simp only [hup p rfl]

/-- A lookup through a layer: its own bindings come first. -/
theorem findWithin_layer {id p : ScopeId} {b : Bindings} (h : g.scopes[id]? = some (.layer p b))
    (name : Text) (fuel : Nat) :
    g.findWithin name (fuel + 1) id =
      match b.lookup name with
      | some v => some (.value v)
      | none => g.findWithin name fuel p := by
  rcases hb : b.lookup name with _ | v
  · simp only [findWithin, h, hb]
  · simp only [findWithin, h, hb]

/-- What a name stands for in an empty layer over a layer of bindings, when the scope that the bindings
were put in front of is as it was. -/
theorem find?_layers (hf : f.Ordered) {n : Nat} (h : ∀ i < n, g.scopes[i]? = f.scopes[i]?)
    {scope bindings top : Nat} {b : Bindings} (hscope : scope < n) (hbindings : scope < bindings)
    (htop : bindings < top) (hb : g.scopes[bindings]? = some (.layer scope b))
    (ht : g.scopes[top]? = some (.layer bindings [])) (name : Text) :
    g.find? top name =
      match b.lookup name with
      | some v => some (.value v)
      | none => f.find? scope name := by
  obtain ⟨fuel, rfl⟩ : ∃ fuel, top = fuel + 1 := ⟨top - 1, by omega⟩
  have hup : g.findWithin name fuel scope = f.find? scope name :=
    findWithin_congr hf h name fuel (scope + 1) scope hscope (by omega) (by omega)
  have hnil : ([] : Bindings).lookup name = none := rfl
  unfold find?
  rw [findWithin_layer ht, hnil]
  dsimp only
  rw [findWithin_layer hb, hup]
  rfl

/-- What a name stands for in a new placeholder scope: what it does in the scope with the known names, and
itself if it is not known. -/
theorem find?_push_literal {p : ScopeId} {b : Bindings} (h : f.scopes[p]? = some (.root b)) (name : Text) :
    (⟨f.scopes.push (.literal p)⟩ : Forest).find? f.scopes.size name = some (match b.lookup name with
      | some v => .value v
      | none => .placeholder name) := by
  have hp : p < f.scopes.size := (Array.getElem?_eq_some_iff.1 h).1
  obtain ⟨n, hn⟩ : ∃ n, f.scopes.size = n + 1 := Nat.exists_eq_succ_of_ne_zero (Nat.ne_zero_of_lt hp)
  have htop : (f.scopes.push (.literal p))[f.scopes.size]? = some (.literal p) := Array.getElem?_push_size
  have hroot : (f.scopes.push (.literal p))[p]? = some (.root b) :=
    (Array.getElem?_push_lt hp).trans ((Array.getElem?_eq_getElem hp).symm.trans h)
  simp only [find?, findWithin, htop]
  rw [hn]
  simp only [findWithin, hroot]
  rcases b.lookup name with _ | v <;> rfl

end Forest

end StackCalc
