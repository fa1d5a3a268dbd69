import StackCalc.Proofs.Scope.Binding
import StackCalc.Proofs.Scope.Lookup

/-! # Where a binding is seen

Binding goes through passages only, to the first scope that owns bindings or refuses to be bound in
(`Forest.HandsOn`). Reading goes through every scope that does not bind the name itself
(`Forest.ReadsUpTo`). So a name that is bound through one scope changes what it stands for in exactly
those scopes from which reading comes to the owner, and nothing else changes anywhere (`put_seen`).

All this is about forests of scopes in which a name that is not bound stands for nothing
(`Forest.Definite`): a literal scope has a placeholder for every name. -/

namespace StackCalc

namespace Scope

/-- The bindings that a scope owns, if it owns any. -/
def bindings? : Scope → Option Bindings
  | root b | layer _ b => some b
  | passage _ | shield _ | literal _ => none

/-- The scope itself binds the name. -/
def Binds (s : Scope) (name : Text) : Prop := ∃ b v, s.bindings? = some b ∧ b.lookup name = some v

theorem not_binds {s : Scope} (h : s.bindings? = none) (name : Text) : ¬ s.Binds name := by
  rintro ⟨b, v, hb, -⟩
  cases h.symm.trans hb

/-- A scope that invents no placeholders. -/
def IsDefinite : Scope → Prop
  | literal _ => False
  | _ => True

theorem bindings?_update (g : Bindings → Bindings) (s : Scope) :
    (Forest.Scope.update g s).bindings? = s.bindings?.map g := by
  cases s <;> rfl

theorem parent?_update (g : Bindings → Bindings) (s : Scope) : (Forest.Scope.update g s).parent? = s.parent? := by
  cases s <;> rfl

/-- Such a scope hands binding on, owns bindings, or refuses. -/
theorem IsDefinite.cases {s : Scope} (h : s.IsDefinite) :
    (∃ p, s = .passage p) ∨ (∃ b, s.bindings? = some b) ∨ ∃ p, s = .shield p := by
  cases s with
  | root b | layer p b => exact .inr (.inl ⟨b, rfl⟩)
  | passage p => exact .inl ⟨p, rfl⟩
  | shield p => exact .inr (.inr ⟨p, rfl⟩)
  | literal p => exact h.elim

end Scope

namespace Forest

/-- **Roots, layers, passages and shields, each over older ones.** -/
structure Definite (f : Forest) : Prop where
  ordered : f.Ordered
  definite : ∀ (i : ScopeId) (s : StackCalc.Scope), f.scopes[i]? = some s → s.IsDefinite

/-- **Binding is handed on** from one scope to another, through passages. -/
inductive HandsOn (f : Forest) : ScopeId → ScopeId → Prop where
  | refl (i : ScopeId) : HandsOn f i i
  | passage {i p k : ScopeId} (h : f.scopes[i]? = some (.passage p)) (hk : HandsOn f p k) : HandsOn f i k

/-- **Reading a name comes from one scope up to another**: none that it comes through binds the name itself. -/
inductive ReadsUpTo (f : Forest) (name : Text) : ScopeId → ScopeId → Prop where
  | refl (i : ScopeId) : ReadsUpTo f name i i
  | up {i p k : ScopeId} {s : StackCalc.Scope} (h : f.scopes[i]? = some s) (hs : ¬ s.Binds name)
      (hp : s.parent? = some p) (hk : ReadsUpTo f name p k) : ReadsUpTo f name i k

variable {f : Forest}

/-! ### Building a forest -/

theorem definite_empty : Definite empty where
  ordered _ _ _ h := by simp [empty] at h
  definite _ _ h := by simp [empty] at h

/-- A scope is added over one that is there. -/
theorem Definite.grow (hf : f.Definite) {s : StackCalc.Scope} (hs : s.IsDefinite)
    (hp : ∀ p : Nat, s.parent? = some p → p < f.scopes.size) : (f.grow s).2.Definite where
  ordered i p s' h hparent := by
    simp only [Forest.grow, Array.getElem?_push] at h
    split_ifs at h with hi
    · cases h
      exact hi ▸ hp p hparent
    · exact hf.ordered i p s' h hparent
  definite i s' h := by
    simp only [Forest.grow, Array.getElem?_push] at h
    split_ifs at h
    · cases h
      exact hs
    · exact hf.definite i s' h

/-! ### Where binding ends up -/

/-- As with lookups, the number of steps does not matter as long as the oldest scope can be reached. -/
theorem targetWithin_congr (hf : f.Ordered) : ∀ (fuel fuel' id : Nat), id < fuel → id < fuel' →
    f.targetWithin fuel id = f.targetWithin fuel' id
  | 0, _, _, h, _ => absurd h (Nat.not_lt_zero _)
  | _ + 1, 0, _, _, h => absurd h (Nat.not_lt_zero _)
  | fuel + 1, fuel' + 1, id, hfuel, hfuel' => by
    simp only [targetWithin]
    rcases hs : f.scopes[id]? with _ | s
    · rfl
    have hup : ∀ p : Nat, s.parent? = some p → f.targetWithin fuel p = f.targetWithin fuel' p := by
      intro p hp
      have hlt : p < id := hf id p s hs hp
      exact targetWithin_congr hf fuel fuel' p (by omega) (by omega)
    cases s with
    | passage p => exact hup p rfl
    | _ => rfl

theorem target_passage (hf : f.Ordered) {i p : ScopeId} (h : f.scopes[i]? = some (.passage p)) :
    f.target i = f.target p := by
  have hlt : p < i := hf i p _ h rfl
  have hstep : f.target i = f.targetWithin i p := by simp only [target, targetWithin, h]
  rw [hstep]
  exact targetWithin_congr hf i (p + 1) p hlt (Nat.lt_succ_self p)

theorem HandsOn.target_eq (hf : f.Ordered) {i k : ScopeId} (h : f.HandsOn i k) : f.target i = f.target k := by
  induction h with
  | refl i => rfl
  | passage h _ ih => exact (target_passage hf h).trans ih

theorem target_of_bindings {k : ScopeId} {s : StackCalc.Scope} {b : Bindings} (h : f.scopes[k]? = some s)
    (hb : s.bindings? = some b) : f.target k = .scope k := by
  cases s with
  | root b => exact owns_of_root h
  | layer p b => exact owns_of_layer h
  | passage | shield | literal => cases hb

theorem target_of_shield {k p : ScopeId} (h : f.scopes[k]? = some (.shield p)) : f.target k = .shielded := by
  simp only [target, targetWithin, h]

/-- Binding comes to a scope that owns bindings, or to a shield. -/
theorem Definite.exists_handsOn (hf : f.Definite) (i : Nat) (hi : i < f.scopes.size) :
    (∃ k s b, f.HandsOn i k ∧ f.scopes[k]? = some s ∧ s.bindings? = some b) ∨
      ∃ k p, f.HandsOn i k ∧ f.scopes[k]? = some (.shield p) := by
  have hs : f.scopes[i]? = some f.scopes[i] := Array.getElem?_eq_getElem hi
  rcases (hf.definite i _ hs).cases with ⟨p, hp⟩ | ⟨b, hb⟩ | ⟨p, hp⟩
  · rw [hp] at hs
    have hlt : p < i := hf.ordered i p _ hs rfl
    rcases hf.exists_handsOn p (Nat.lt_trans hlt hi) with ⟨k, s, b, hk, h⟩ | ⟨k, q, hk, h⟩
    · exact .inl ⟨k, s, b, .passage hs hk, h⟩
    · exact .inr ⟨k, q, .passage hs hk, h⟩
  · exact .inl ⟨i, _, b, .refl i, hs, hb⟩
  · exact .inr ⟨i, p, .refl i, hs.trans (congrArg some hp)⟩
termination_by i

/-! ### What is read after binding -/

/-- Binds one name in a scope that owns its bindings. -/
def bindIn (f : Forest) (owner : ScopeId) (name : Text) (v : Value) : Forest := f.bindAll owner [(name, v)]

theorem put_of_target {id owner : ScopeId} (h : f.target id = .scope owner) (name : Text) (v : Value) :
    f.put id name v = .ok (f.bindIn owner name v) := by
  unfold put
  rw [h]
  rfl

theorem getElem?_bindIn (owner : ScopeId) (name : Text) (v : Value) (i : ScopeId) :
    (f.bindIn owner name v).scopes[i]? =
      if owner = i then (f.scopes[i]?).map (Scope.update (Bindings.put name v)) else f.scopes[i]? :=
  getElem?_bindAll f owner [(name, v)] i

theorem Ordered.bindIn (hf : f.Ordered) (owner : ScopeId) (name : Text) (v : Value) :
    (f.bindIn owner name v).Ordered := by
  intro i p s h hp
  rw [getElem?_bindIn] at h
  split_ifs at h
  · obtain ⟨s', hs', rfl⟩ := Option.map_eq_some_iff.1 h
    exact hf i p s' hs' ((Scope.parent?_update _ s').symm.trans hp)
  · exact hf i p s h hp

/-- What is found in a scope is what it binds itself, or what is found in its parent. -/
theorem find?_of_binds {i : ScopeId} {s : StackCalc.Scope} {b : Bindings} {name : Text} {v : Value}
    (h : f.scopes[i]? = some s) (hb : s.bindings? = some b) (hv : b.lookup name = some v) :
    f.find? i name = some (.value v) := by
  cases s with
  | root c | layer p c =>
    cases hb
    simp only [find?, findWithin, h, hv, Option.map_some]
  | passage | shield | literal => cases hb

theorem find?_of_not_binds (hf : f.Ordered) {i p : ScopeId} {s : StackCalc.Scope} {name : Text}
    (h : f.scopes[i]? = some s) (hdefinite : s.IsDefinite) (hs : ¬ s.Binds name) (hp : s.parent? = some p) :
    f.find? i name = f.find? p name := by
  have hi : i < f.scopes.size := (Array.getElem?_eq_some_iff.1 h).1
  have hlt : p < i := hf i p s h hp
  have hup : f.findWithin name i p = f.find? p name :=
    findWithin_congr hf (fun _ _ => rfl) name i (p + 1) p (Nat.lt_trans hlt hi) hlt (Nat.lt_succ_self p)
  cases s with
  | root b => cases hp
  | literal q => exact hdefinite.elim
  | passage q | shield q =>
    cases hp
    simp only [find?, findWithin, h]
    exact hup
  | layer q b =>
    cases hp
    rcases hb : b.lookup name with _ | v
    · simp only [find?, findWithin, h, hb]
      exact hup
    · exact absurd ⟨b, v, rfl, hb⟩ hs

section
variable {owner : ScopeId} {name : Text} {v : Value}

/-- **The name stands for the value where reading comes up to the owner.** -/
theorem ReadsUpTo.find?_bindIn (hf : f.Definite) {s : StackCalc.Scope} {b : Bindings}
    (howner : f.scopes[owner]? = some s) (hb : s.bindings? = some b) {k : ScopeId} (h : f.ReadsUpTo name k owner) :
    (f.bindIn owner name v).find? k name = some (.value v) := by
  have hhere : (f.bindIn owner name v).find? owner name = some (.value v) := by
    refine find?_of_binds (s := Scope.update (Bindings.put name v) s) ?_ ?_ (Bindings.lookup_put_self b name v)
    · rw [getElem?_bindIn, if_pos rfl, howner]
      rfl
    · rw [Scope.bindings?_update, hb]
      rfl
  induction h with
  | refl => exact hhere
  | @up i p k s' hs' hbinds hp _ ih =>
    by_cases hi : k = i
    · exact hi ▸ hhere
    · rw [← ih howner hhere]
      refine find?_of_not_binds (hf.ordered.bindIn k name v) ?_ (hf.definite i s' hs') hbinds hp
      rw [getElem?_bindIn, if_neg hi, hs']

/-- Other names stand for what they did. -/
theorem findWithin_bindIn_of_ne {other : Text} (hne : other ≠ name) : ∀ (fuel : Nat) (k : ScopeId),
    (f.bindIn owner name v).findWithin other fuel k = f.findWithin other fuel k
  | 0, _ => rfl
  | fuel + 1, k => by
    have ih := findWithin_bindIn_of_ne hne fuel
    simp only [findWithin]
    rw [getElem?_bindIn]
    rcases f.scopes[k]? with _ | s
    · simp
    · cases s <;> split_ifs <;> simp only [Option.map_some, Scope.update, Bindings.lookup_put_of_ne _ _ hne, ih]

/-- **The name stands for what it did where reading does not come up to the owner.** -/
theorem findWithin_bindIn_of_not_reads : ∀ (fuel : Nat) (k : ScopeId), ¬ f.ReadsUpTo name k owner →
    (f.bindIn owner name v).findWithin name fuel k = f.findWithin name fuel k
  | 0, _, _ => rfl
  | fuel + 1, k, h => by
    have hk : owner ≠ k := by
      rintro rfl
      exact h (.refl owner)
    simp only [findWithin]
    rw [getElem?_bindIn, if_neg hk]
    rcases hs : f.scopes[k]? with _ | s
    · rfl
    have hup : ∀ p, ¬ s.Binds name → s.parent? = some p →
        (f.bindIn owner name v).findWithin name fuel p = f.findWithin name fuel p := fun p hbinds hp =>
      findWithin_bindIn_of_not_reads fuel p fun hreads => h (.up hs hbinds hp hreads)
    cases s with
    | root b => rfl
    | passage p | shield p | literal p => simp only [hup p (Scope.not_binds rfl name) rfl]
    | layer p b =>
      rcases hb : b.lookup name with _ | w <;> simp only [hb]
      exact hup p (fun ⟨c, w, hc, hw⟩ => by cases hc; cases hb.symm.trans hw) rfl

end

end Forest

/-- **Binding a name changes what it stands for in the scopes that see the owner, and nothing else.** Binding
is refused exactly if it is handed on to a shield, and then everything is as it was. Otherwise it is handed on
to a scope that owns bindings. The name then stands for the value wherever reading comes up to this owner with
no other scope on the way that binds the name; anywhere else it stands for what it did, and so do all other
names everywhere. -/
theorem put_seen {m : Machine} (hm : m.scopes.Definite) {id : ScopeId} (hid : id < m.scopes.scopes.size) (name : Text)
    (v : Value) :
    let after := (Run.put id name v).outcome m
    ((∃ e, after.1 = .error e ∧ e.category = .protectedScope) ↔
      ∃ k p, m.scopes.HandsOn id k ∧ m.scopes.scopes[k]? = some (.shield p)) ∧
    (∀ e, after.1 = .error e → e = .protectedScope name ∧ after.2 = m) ∧
    (after.1 = .ok () → ∃ owner s b, m.scopes.HandsOn id owner ∧ m.scopes.scopes[owner]? = some s ∧
      s.bindings? = some b ∧
      (∀ k, m.scopes.ReadsUpTo name k owner → after.2.scopes.find? k name = some (.value v)) ∧
      ∀ k other, ¬ (other = name ∧ m.scopes.ReadsUpTo name k owner) →
        after.2.scopes.find? k other = m.scopes.find? k other) := by
  intro after
  rcases hm.exists_handsOn id hid with ⟨owner, s, b, hhands, hs, hb⟩ | ⟨k, p, hhands, hk⟩
  · have htarget := (hhands.target_eq hm.ordered).trans (Forest.target_of_bindings hs hb)
    have hafter : after = (.ok (), { m with scopes := m.scopes.bindIn owner name v }) := by
      simp only [after, Run.outcome_put, Forest.put_of_target htarget]
    rw [hafter]
    refine ⟨⟨?_, ?_⟩, (fun e he => by cases he), fun _ => ?_⟩
    · rintro ⟨e, he, -⟩
      cases he
    · rintro ⟨k, p, hhands', hk⟩
      have hshield := (hhands'.target_eq hm.ordered).trans (Forest.target_of_shield hk)
      cases htarget.symm.trans hshield
    · refine ⟨owner, s, b, hhands, hs, hb, fun k hreads => hreads.find?_bindIn hm hs hb, fun k other hother => ?_⟩
      by_cases hname : other = name
      · subst hname
        exact Forest.findWithin_bindIn_of_not_reads _ k fun hreads => hother ⟨rfl, hreads⟩
      · exact Forest.findWithin_bindIn_of_ne hname _ k
  · have htarget := (hhands.target_eq hm.ordered).trans (Forest.target_of_shield hk)
    have hafter : after = (.error (.protectedScope name), m) := by
      simp only [after, Run.outcome_put, Forest.put, htarget]
    rw [hafter]
    refine ⟨⟨fun _ => ⟨k, p, hhands, hk⟩, fun _ => ⟨_, rfl, rfl⟩⟩, fun e he => ?_, fun h => by cases h⟩
    cases he
    exact ⟨rfl, rfl⟩

/-- A name is bound through a passage to a layer: a layer over the shield over the passage that binds the name itself
does not see it, and neither does the root. -/
theorem put_seen_passage :
    let one : Value := .own (.int 1)
    let two : Value := .own (.int 2)
    let scopes : Forest :=
      ⟨#[.root [("x", one)], .layer 0 [], .passage 1, .shield 2, .layer 3 [("x", one)]]⟩
    let m : Machine := { Machine.empty with scopes := scopes }
    let after := (Run.put 2 "x" two).outcome m
    m.scopes.Definite ∧ 2 < m.scopes.scopes.size ∧ after.1 = .ok () ∧
      after.2.scopes.find? 3 "x" = some (.value two) ∧
      after.2.scopes.find? 4 "x" = m.scopes.find? 4 "x" ∧ after.2.scopes.find? 0 "x" = m.scopes.find? 0 "x" := by
  intro one two scopes m after
  have hm : m.scopes.Definite :=
    ((((Forest.definite_empty.grow (s := .root [("x", one)]) trivial nofun).grow (s := .layer 0 []) trivial
      (by decide)).grow (s := .passage 1) trivial (by decide)).grow (s := .shield 2) trivial (by decide)).grow
      (s := .layer 3 [("x", one)]) trivial (by decide)
  have hpassage : 2 < m.scopes.scopes.size := by decide
  obtain ⟨-, -, hok⟩ := put_seen hm hpassage "x" two
  obtain ⟨owner, s, b, hhands, hs, hb, hseen, hkept⟩ := hok rfl
  obtain rfl : owner = 1 := by
    cases hhands with
    | refl =>
      cases hs
      cases hb
    | passage h hk =>
      cases h
      cases hk with
      | refl => rfl
      | passage h => cases h
  have hlayer : Scope.Binds (.layer 3 [("x", one)]) "x" := ⟨_, one, rfl, rfl⟩
  refine ⟨hm, hpassage, rfl, hseen 3 ?_, hkept 4 "x" ?_, hkept 0 "x" ?_⟩
  · exact .up (s := .shield 2) rfl (Scope.not_binds rfl "x") rfl
      (.up (s := .passage 1) rfl (Scope.not_binds rfl "x") rfl (.refl 1))
  · rintro ⟨-, h⟩
    cases h with
    | up h hbinds =>
      cases h
      exact hbinds hlayer
  · rintro ⟨-, h⟩
    cases h with
    | up h _ hp =>
      cases h
      cases hp

end StackCalc
