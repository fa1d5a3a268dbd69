import StackCalc.Proofs.Run.Outcome
import StackCalc.Scope

/-! # Binding names

Names bound one after the other in a scope: what they stand for afterwards, and what is left alone. A name
keeps the last value it was given, no name that is not among them changes, and no other scope does. -/

namespace StackCalc

namespace Bindings

/-- The names that are bound, in order. -/
def names (b : Bindings) : List Text := b.map (·.1)

theorem putAll_cons (b : Bindings) (name : Text) (v : Value) (entries : List (Text × Value)) :
    b.putAll ((name, v) :: entries) = (put name v b).putAll entries := rfl

/-- A name that is bound already keeps its place; another one comes last. -/
theorem names_put (b : Bindings) (name : Text) (v : Value) :
    (put name v b).names = if name ∈ b.names then b.names else b.names ++ [name] := by
  induction b with
  | nil => rfl
  | cons e rest ih =>
    obtain ⟨n, w⟩ := e
    by_cases h : n = name
    · subst h
      simp [put, names]
    · have hiff : name ∈ names ((n, w) :: rest) ↔ name ∈ names rest := by
        simp [names, Ne.symm h]
      have hcons : names ((n, w) :: put name v rest) = n :: (put name v rest).names := rfl
      rw [put, if_neg (by simpa using h), hcons, ih]
      by_cases hmem : name ∈ names rest
      · rw [if_pos hmem, if_pos (hiff.2 hmem)]
        rfl
      · rw [if_neg hmem, if_neg fun hm => hmem (hiff.1 hm)]
        rfl

theorem mem_put {b : Bindings} {name : Text} {v : Value} {e : Text × Value}
    (h : e ∈ put name v b) : e = (name, v) ∨ e ∈ b := by
  induction b with
  | nil => exact .inl (List.mem_singleton.1 h)
  | cons e' rest ih =>
    obtain ⟨n, w⟩ := e'
    rw [put] at h
    split_ifs at h with hn
    · have hname : n = name := by simpa using hn
      subst hname
      rcases List.mem_cons.1 h with heq | hrest
      · exact .inl heq
      · exact .inr (List.mem_cons_of_mem _ hrest)
    · rcases List.mem_cons.1 h with heq | hrest
      · exact .inr (heq ▸ List.mem_cons_self)
      · exact (ih hrest).imp_right (List.mem_cons_of_mem _)

/-- A property of the values that are bound stays if the new one has it. -/
theorem forall_put {P : Value → Prop} {b : Bindings} (h : ∀ e ∈ b, P e.2) (name : Text) {v : Value} (hv : P v) :
    ∀ e ∈ put name v b, P e.2 := by
  intro e he
  rcases mem_put he with rfl | he
  · exact hv
  · exact h e he

theorem nodup_put {b : Bindings} (h : b.names.Nodup) (name : Text) (v : Value) :
    (put name v b).names.Nodup := by
  rw [names_put]
  split_ifs with hmem
  · exact h
  · exact List.nodup_append.2 ⟨h, by simp, fun a ha b hb => by
      rw [List.mem_singleton] at hb
      rintro rfl
      exact hmem (hb ▸ ha)⟩

/-- A name that is not bound comes last. -/
theorem put_of_notMem {b : Bindings} {name : Text} (h : name ∉ b.names) (v : Value) :
    put name v b = b ++ [(name, v)] := by
  induction b with
  | nil => rfl
  | cons e rest ih =>
    obtain ⟨n, w⟩ := e
    simp only [names, List.map_cons, List.mem_cons, not_or] at h
    rw [put, if_neg (by simpa using Ne.symm h.1), ih h.2]
    rfl

/-- Names that differ from each other and are not bound are added in order. -/
theorem putAll_eq_append : ∀ (entries : Bindings) {b : Bindings}, (b.names ++ entries.names).Nodup →
    b.putAll entries = b ++ entries
  | [], b, _ => (List.append_nil b).symm
  | (name, v) :: entries, b, h => by
    have hname : name ∉ b.names := fun hb =>
      (List.nodup_append.1 h).2.2 name hb name List.mem_cons_self rfl
    have hstep : ((b ++ [(name, v)]).names ++ names entries).Nodup := by
      simpa [names] using h
    rw [putAll_cons, put_of_notMem hname, putAll_eq_append entries hstep, List.append_assoc]
    rfl

theorem nodup_putAll : ∀ (entries : Bindings) {b : Bindings}, b.names.Nodup → (b.putAll entries).names.Nodup
  | [], _, h => h
  | (name, v) :: entries, _, h => nodup_putAll entries (nodup_put h name v)

/-- Binding once more what has been bound changes nothing. -/
theorem putAll_putAll_nil (entries : Bindings) : putAll [] (putAll [] entries) = putAll [] entries :=
  putAll_eq_append _ (nodup_putAll entries List.nodup_nil)

theorem lookup_putAll_of_notMem {name : Text} : ∀ (entries b : Bindings), name ∉ names entries →
    (b.putAll entries).lookup name = b.lookup name
  | [], _, _ => rfl
  | (n, v) :: entries, b, h => by
    simp only [names, List.map_cons, List.mem_cons, not_or] at h
    rw [putAll_cons, lookup_putAll_of_notMem entries _ h.2, lookup_put_of_ne b v h.1]

/-- **The last value of a name stays**, and what it was bound to before if it gets none. -/
theorem lookup_putAll {name : Text} : ∀ entries b : Bindings,
    (b.putAll entries).lookup name = (List.lookup name entries.reverse).or (b.lookup name)
  | [], _ => rfl
  | (n, v) :: entries, b => by
    rw [putAll_cons, lookup_putAll entries, List.reverse_cons, List.lookup_append, Option.or_assoc]
    by_cases h : name = n
    · subst h
      rw [lookup_put_self, List.lookup_cons_self]
      rfl
    · have hne : (name == n) = false := beq_false_of_ne h
      rw [lookup_put_of_ne b v h, List.lookup_cons, hne]
      rfl

theorem mem_putAll : ∀ {entries b : Bindings} {e : Text × Value}, e ∈ b.putAll entries → e ∈ entries ∨ e ∈ b
  | [], _, _, h => .inr h
  | (n, v) :: entries, b, e, h => by
    rw [putAll_cons] at h
    rcases mem_putAll h with hmem | hput
    · exact .inl (List.mem_cons_of_mem _ hmem)
    · rcases mem_put hput with rfl | hb
      · exact .inl List.mem_cons_self
      · exact .inr hb

theorem lookup_putAll_of_nodup {entries : Bindings} (h : entries.names.Nodup) (b : Bindings) (name : Text) :
    (b.putAll entries).lookup name = (entries.lookup name).or (b.lookup name) := by
  have hself : putAll [] entries = entries := putAll_eq_append entries h
  have hlast : (putAll [] entries).lookup name = _ := lookup_putAll entries []
  rw [hself, List.lookup_nil, Option.or_none] at hlast
  rw [lookup_putAll, hlast]

/-- Of names that differ from each other, each ends with its own value. -/
theorem lookup_putAll_of_mem {name : Text} {v : Value} : ∀ (entries b : Bindings),
    (names entries).Nodup → (name, v) ∈ entries → (b.putAll entries).lookup name = some v
  | [], _, _, h => by cases h
  | (n, w) :: entries, b, hnodup, h => by
    obtain ⟨hn, hrest⟩ := List.nodup_cons.1 hnodup
    rw [putAll_cons]
    rcases List.mem_cons.1 h with heq | hmem
    · cases heq
      rw [lookup_putAll_of_notMem entries _ hn, lookup_put_self]
    · exact lookup_putAll_of_mem entries _ hrest hmem

end Bindings

namespace Forest

theorem Scope.update_update (g h : Bindings → Bindings) (s : StackCalc.Scope) :
    Scope.update g (Scope.update h s) = Scope.update (fun b => g (h b)) s := by
  cases s <;> rfl

/-- Binds names in a scope that owns its bindings. -/
def bindAll (f : Forest) (owner : ScopeId) (entries : Bindings) : Forest :=
  ⟨f.scopes.modify owner (Scope.update fun b => b.putAll entries)⟩

theorem getElem?_bindAll (f : Forest) (owner : ScopeId) (entries : Bindings) (i : ScopeId) :
    (f.bindAll owner entries).scopes[i]? =
      if owner = i then (f.scopes[i]?).map (Scope.update fun b => b.putAll entries)
      else f.scopes[i]? := Array.getElem?_modify

theorem bindAll_nil (f : Forest) (owner : ScopeId) : f.bindAll owner [] = f := by
  unfold bindAll
  congr 1
  refine Array.ext_getElem? fun i => ?_
  rw [Array.getElem?_modify]
  split_ifs
  · rcases f.scopes[i]? with _ | s
    · rfl
    · cases s <;> rfl
  · rfl

theorem bindAll_cons (f : Forest) (owner : ScopeId) (name : Text) (v : Value) (entries : Bindings) :
    bindAll ⟨f.scopes.modify owner (Scope.update (Bindings.put name v))⟩ owner entries =
      f.bindAll owner ((name, v) :: entries) := by
  unfold bindAll
  congr 1
  refine Array.ext_getElem? fun i => ?_
  rw [Array.getElem?_modify, Array.getElem?_modify, Array.getElem?_modify]
  split_ifs
  · rw [Option.map_map]
    congr 1
    funext s
    exact Scope.update_update _ _ s
  · rfl

/-- Binding in the newest scope. -/
theorem bindAll_push (f : Forest) (s : StackCalc.Scope) (entries : Bindings) :
    bindAll ⟨f.scopes.push s⟩ f.scopes.size entries =
      ⟨f.scopes.push (Scope.update (fun b => b.putAll entries) s)⟩ := by
  unfold bindAll
  congr 1
  refine Array.ext_getElem? fun i => ?_
  rw [Array.getElem?_modify, Array.getElem?_push, Array.getElem?_push]
  split_ifs with h1 h2 h2
  · rfl
  · exact absurd h1.symm h2
  · exact absurd h2.symm h1
  · rfl

/-- Where bindings end up does not depend on what is bound. -/
theorem targetWithin_modify (f : Forest) (owner : ScopeId) (g : Bindings → Bindings) :
    ∀ (fuel : Nat) (id : ScopeId),
      targetWithin ⟨f.scopes.modify owner (Scope.update g)⟩ fuel id = f.targetWithin fuel id
  | 0, _ => rfl
  | fuel + 1, id => by
    have ih := targetWithin_modify f owner g fuel
    simp only [targetWithin]
    rw [Array.getElem?_modify]
    rcases f.scopes[id]? with _ | s
    · simp
    · cases s <;> split_ifs <;> simp [Scope.update, ih]

/-- The scope owns its bindings, so what is bound through it ends up in itself. -/
def Owns (f : Forest) (id : ScopeId) : Prop := f.target id = .scope id

theorem owns_of_root {f : Forest} {id : ScopeId} {b : Bindings} (h : f.scopes[id]? = some (.root b)) :
    f.Owns id := by
  unfold Owns target targetWithin
  rw [h]

theorem owns_of_layer {f : Forest} {id parent : ScopeId} {b : Bindings}
    (h : f.scopes[id]? = some (.layer parent b)) : f.Owns id := by
  unfold Owns target targetWithin
  rw [h]

end Forest

namespace Run

/-- **Names bound through a scope that owns its bindings** all end up in it. -/
theorem outcome_putAll {id : ScopeId} : ∀ (entries : Bindings) {m : Machine}, m.scopes.Owns id →
    (putAll id entries).outcome m = (.ok (), { m with scopes := m.scopes.bindAll id entries })
  | [], m, _ => by
    rw [Forest.bindAll_nil]
    rfl
  | (name, v) :: entries, m, h => by
    have hput : (put id name v).outcome m =
        (.ok (), { m with scopes := ⟨m.scopes.scopes.modify id (Forest.Scope.update (Bindings.put name v))⟩ }) := by
      rw [outcome_put, Forest.put, h]
    have howns : Forest.Owns ⟨m.scopes.scopes.modify id (Forest.Scope.update (Bindings.put name v))⟩ id :=
      (Forest.targetWithin_modify m.scopes id _ (id + 1) id).trans h
    have hforM : putAll id ((name, v) :: entries) = (put id name v >>= fun _ => putAll id entries) := rfl
    rw [hforM, outcome_bind_of_ok hput, outcome_putAll entries howns]
    dsimp only
    rw [Forest.bindAll_cons]

end Run

end StackCalc
