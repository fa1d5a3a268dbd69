import StackCalc.Proofs.Pattern.Bound
import StackCalc.Proofs.Value.Admitted

/-! # Congruent forests

Two forests of scopes are congruent if code that mentions what is admitted cannot tell them apart: the scopes
that are admitted have the same shape, turn to scopes that are admitted, and bind the names that are admitted to
the same values, which are admitted too. Looking a name up gives the same then, binding a name keeps the forests
congruent, and so does a new scope; and patterns accept the same. -/

namespace StackCalc

open Vocabulary (Admits)

/-! ### What patterns look up -/

theorem takeApart_congr {env env' : Text → Option Symbol} {name : Text} (h : env name = env' name) (count : Nat)
    (v : Value) : takeApart env name count v = takeApart env' name count v := by
  unfold takeApart findConstructor
  rw [h]

mutual

/-- A part looks up the constructors that it mentions, and nothing else. -/
theorem Part.accepts_congr {env env' : Text → Option Symbol} : ∀ (p : Part),
    (∀ name, .name name ∈ p.mentions → env name = env' name) → ∀ v, p.accepts env v = p.accepts env' v
  | .any, _, _ => by
    unfold Part.accepts
    rfl
  | .bind _, _, _ => by
    unfold Part.accepts
    rfl
  | .exact _, _, _ => by
    unfold Part.accepts
    rfl
  | .cons a b, h, v => by
    have ha := a.accepts_congr fun name hname => h name (List.mem_append_left _ hname)
    have hb := b.accepts_congr fun name hname => h name (List.mem_append_right _ hname)
    unfold Part.accepts
    simp only [ha, hb]
  | .construct name args, h, v => by
    have hargs := Part.acceptsAll_congr args fun other hother => h other (List.mem_cons_of_mem _ hother)
    unfold Part.accepts
    rw [takeApart_congr (h name List.mem_cons_self)]
    simp only [hargs]

theorem Part.acceptsAll_congr {env env' : Text → Option Symbol} : ∀ (ps : List Part),
    (∀ name, .name name ∈ partMentions ps → env name = env' name) → ∀ vs, acceptsAll env ps vs = acceptsAll env' ps vs
  | [], _, _ => by
    unfold acceptsAll
    rfl
  | _ :: _, _, [] => by
    unfold acceptsAll
    rfl
  | p :: ps, h, v :: vs => by
    have hp := p.accepts_congr fun name hname => h name (List.mem_append_left _ hname)
    have hps := Part.acceptsAll_congr ps fun name hname => h name (List.mem_append_right _ hname)
    unfold acceptsAll
    rw [hp, hps]

end

/-! ### Bindings and scopes -/

variable [Vocabulary]

namespace Bindings

/-- The names that are admitted are bound to the same values, which are admitted. -/
def Congruent (b c : Bindings) : Prop :=
  ∀ name, Admits (.name name) → b.lookup name = c.lookup name ∧ ∀ v, b.lookup name = some v → v.Admitted

theorem congruent_of_forall {b : Bindings} (h : ∀ e ∈ b, e.2.Admitted) : b.Congruent b :=
  fun _ _ => ⟨rfl, fun _ hv => forall_of_lookup h hv⟩

theorem congruent_nil : Congruent [] [] := congruent_of_forall fun _ h => by cases h

theorem Congruent.put {b c : Bindings} (h : b.Congruent c) (name : Text) {v : Value} (hv : v.Admitted) :
    (Bindings.put name v b).Congruent (Bindings.put name v c) := by
  intro other hother
  by_cases hname : other = name
  · subst hname
    rw [lookup_put_self, lookup_put_self]
    exact ⟨rfl, fun w hw => Option.some.inj hw ▸ hv⟩
  · rw [lookup_put_of_ne b v hname, lookup_put_of_ne c v hname]
    exact h other hother

end Bindings

/-- Scopes of one shape, over one parent, with congruent bindings. -/
inductive Scope.Congruent : Scope → Scope → Prop where
  | root {b c : Bindings} (h : b.Congruent c) : Congruent (.root b) (.root c)
  | passage {p : ScopeId} (hp : Admits (.scope p)) : Congruent (.passage p) (.passage p)
  | layer {p : ScopeId} {b c : Bindings} (hp : Admits (.scope p)) (h : b.Congruent c) :
      Congruent (.layer p b) (.layer p c)
  | shield {p : ScopeId} (hp : Admits (.scope p)) : Congruent (.shield p) (.shield p)
  | literal {p : ScopeId} (hp : Admits (.scope p)) : Congruent (.literal p) (.literal p)

/-- What a name stands for is admitted. -/
def Symbol.Admitted : Symbol → Prop
  | .value v => v.Admitted
  | .placeholder name => Admits (.name name)

theorem Scope.Congruent.put {s t : Scope} (h : s.Congruent t) (name : Text) {v : Value} (hv : v.Admitted) :
    (Forest.Scope.update (Bindings.put name v) s).Congruent (Forest.Scope.update (Bindings.put name v) t) := by
  cases h with
  | root h => exact .root (h.put name hv)
  | layer hp h => exact .layer hp (h.put name hv)
  | passage hp => exact .passage hp
  | shield hp => exact .shield hp
  | literal hp => exact .literal hp

namespace Forest

/-- **Forests that code cannot tell apart.** Scopes that are yet to come are admitted. -/
structure Congruent (f g : Forest) : Prop where
  size : f.scopes.size = g.scopes.size
  fresh : ∀ id, f.scopes.size ≤ id → Admits (.scope id)
  scope : ∀ id s, Admits (.scope id) → f.scopes[id]? = some s → ∃ t, g.scopes[id]? = some t ∧ s.Congruent t

variable {f g : Forest}

/-- A scope that is admitted: missing in both forests, or congruent in them. -/
theorem Congruent.cases (h : f.Congruent g) {id : ScopeId} (hid : Admits (.scope id)) :
    (f.scopes[id]? = none ∧ g.scopes[id]? = none) ∨
      ∃ s t, f.scopes[id]? = some s ∧ g.scopes[id]? = some t ∧ s.Congruent t := by
  rcases hf : f.scopes[id]? with _ | s
  · refine .inl ⟨rfl, ?_⟩
    rw [Array.getElem?_eq_none_iff] at hf ⊢
    exact h.size ▸ hf
  · obtain ⟨t, ht, hst⟩ := h.scope id s hid hf
    exact .inr ⟨s, t, rfl, ht, hst⟩

theorem Congruent.findWithin (h : f.Congruent g) {name : Text} (hname : Admits (.name name)) :
    ∀ (fuel : Nat) {id : ScopeId}, Admits (.scope id) →
      f.findWithin name fuel id = g.findWithin name fuel id ∧
        ∀ s, f.findWithin name fuel id = some s → s.Admitted
  | 0, _, _ => ⟨rfl, fun _ hs => by cases hs⟩
  | fuel + 1, id, hid => by
    have hup := @Congruent.findWithin h name hname fuel
    simp only [Forest.findWithin]
    rcases h.cases hid with ⟨hf, hg⟩ | ⟨s, t, hf, hg, hst⟩
    · rw [hf, hg]
      exact ⟨rfl, fun _ hs => by cases hs⟩
    rw [hf, hg]
    cases hst with
    | root hb =>
      obtain ⟨heq, hvalue⟩ := hb name hname
      refine ⟨congrArg (Option.map Symbol.value) heq, fun s hs => ?_⟩
      obtain ⟨v, hv, rfl⟩ := Option.map_eq_some_iff.1 hs
      exact hvalue v hv
    | passage hp | shield hp => exact hup hp
    | @layer p b c hp hb =>
      obtain ⟨heq, hvalue⟩ := hb name hname
      dsimp only
      rw [← heq]
      rcases hb : b.lookup name with _ | v
      · exact hup hp
      · exact ⟨rfl, fun s hs => Option.some.inj hs ▸ hvalue v hb⟩
    | @literal p hp =>
      obtain ⟨heq, hvalue⟩ := hup hp
      dsimp only
      rw [← heq]
      rcases hs : f.findWithin name fuel p with _ | s
      · exact ⟨rfl, fun s hs => Option.some.inj hs ▸ hname⟩
      · exact ⟨rfl, fun s' hs' => Option.some.inj hs' ▸ hvalue s hs⟩

/-- **A name stands for the same in both forests.** -/
theorem Congruent.find? (h : f.Congruent g) {id : ScopeId} (hid : Admits (.scope id)) {name : Text}
    (hname : Admits (.name name)) : f.find? id name = g.find? id name := (h.findWithin hname _ hid).1

theorem Congruent.admitted (h : f.Congruent g) {id : ScopeId} (hid : Admits (.scope id)) {name : Text}
    (hname : Admits (.name name)) {s : Symbol} (hs : f.find? id name = some s) : s.Admitted :=
  (h.findWithin hname _ hid).2 s hs

theorem Congruent.targetWithin (h : f.Congruent g) : ∀ (fuel : Nat) {id : ScopeId}, Admits (.scope id) →
    f.targetWithin fuel id = g.targetWithin fuel id ∧
      ∀ owner, f.targetWithin fuel id = .scope owner → Admits (.scope owner)
  | 0, _, _ => ⟨rfl, fun _ hs => by cases hs⟩
  | fuel + 1, id, hid => by
    simp only [Forest.targetWithin]
    rcases h.cases hid with ⟨hf, hg⟩ | ⟨s, t, hf, hg, hst⟩
    · rw [hf, hg]
      exact ⟨rfl, fun _ hs => by cases hs⟩
    rw [hf, hg]
    cases hst with
    | root _ | layer _ _ =>
      exact ⟨rfl, fun owner hs => by
        cases hs
        exact hid⟩
    | passage hp => exact Congruent.targetWithin h fuel hp
    | shield _ | literal _ => exact ⟨rfl, fun _ hs => by cases hs⟩

theorem Congruent.push (h : f.Congruent g) {s t : StackCalc.Scope} (hst : s.Congruent t) :
    Congruent ⟨f.scopes.push s⟩ ⟨g.scopes.push t⟩ where
  size := by rw [Array.size_push, Array.size_push, h.size]
  fresh id hid := by
    rw [Array.size_push] at hid
    exact h.fresh id (by omega)
  scope id s' hid hs := by
    rw [Array.getElem?_push] at hs ⊢
    rw [← h.size]
    split_ifs at hs ⊢
    · cases hs
      exact ⟨t, rfl, hst⟩
    · exact h.scope id s' hid hs

theorem Congruent.modify (h : f.Congruent g) (owner : ScopeId) (name : Text) {v : Value} (hv : v.Admitted) :
    Congruent ⟨f.scopes.modify owner (Scope.update (Bindings.put name v))⟩
      ⟨g.scopes.modify owner (Scope.update (Bindings.put name v))⟩ where
  size := by rw [Array.size_modify, Array.size_modify, h.size]
  fresh id hid := by
    rw [Array.size_modify] at hid
    exact h.fresh id hid
  scope id s hid hs := by
    rw [Array.getElem?_modify] at hs ⊢
    split_ifs at hs ⊢
    · obtain ⟨s', hs', rfl⟩ := Option.map_eq_some_iff.1 hs
      obtain ⟨t', ht', hst⟩ := h.scope id s' hid hs'
      exact ⟨_, by rw [ht']; rfl, hst.put name hv⟩
    · exact h.scope id s hid hs

/-- **Binding a name** succeeds in both forests or fails alike. -/
theorem Congruent.put (h : f.Congruent g) {id : ScopeId} (hid : Admits (.scope id)) (name : Text) {v : Value}
    (hv : v.Admitted) :
    (∃ f' g', f.put id name v = .ok f' ∧ g.put id name v = .ok g' ∧ f'.Congruent g') ∨
      ∃ e, f.put id name v = .error e ∧ g.put id name v = .error e := by
  obtain ⟨heq, -⟩ := h.targetWithin (id + 1) hid
  have htarget : f.target id = g.target id := heq
  unfold Forest.put
  rw [htarget]
  cases g.target id with
  | scope owner => exact .inl ⟨_, _, rfl, rfl, h.modify owner name hv⟩
  | literal => exact .inr ⟨_, rfl, rfl⟩
  | shielded | none => exact .inr ⟨_, rfl, rfl⟩

end Forest

/-- **Patterns accept the same** over congruent forests. -/
theorem Pattern.accepts_congr {f g : Forest} (h : f.Congruent g) {env : ScopeId} (henv : Admits (.scope env))
    {p : Pattern} (hp : p.Admitted) (vs : List Value) : p.accepts (f.find? env) vs = p.accepts (g.find? env) vs := by
  have hparts : acceptsAll (f.find? env) p.parts vs = acceptsAll (g.find? env) p.parts vs := by
    refine Part.acceptsAll_congr p.parts (fun name hname => ?_) vs
    obtain ⟨part, hpart, hmention⟩ := mem_partMentions.1 hname
    exact h.find? henv (hp.parts part hpart _ hmention)
  unfold Pattern.accepts
  rw [hparts]

end StackCalc
