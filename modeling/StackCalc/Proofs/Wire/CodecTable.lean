import StackCalc.Wire.CodecTable
import Mathlib.Tactic.Common

/-! # Codec tables are consistent

In every table that entries make of the empty one, a kind has a number exactly if the number stands for
the kind (`CodecTable.Consistent`): the two maps are inverse to each other. An accepted entry keeps this,
for a number that is free or is the kind's already, and a kind that is entered again gives its old number
up in both maps. A refused entry leaves the table as it was, so loading keeps it too, however it ends. -/

namespace StackCalc.Wire

/-! ### Looking up -/

theorem lookup_filter_ne {κ ν : Type} [DecidableEq κ] (p k : κ) (l : List (κ × ν)) :
    (l.filter fun e => e.1 != p).lookup k = if k = p then none else l.lookup k := by
  induction l with
  | nil => simp
  | cons e l ih =>
    obtain ⟨j, v⟩ := e
    by_cases hj : j = p
    · subst hj
      rw [List.filter_cons_of_neg (by simp), ih]
      split_ifs with hk
      · rfl
      · rw [List.lookup_cons, beq_false_of_ne hk]
    · rw [List.filter_cons_of_pos (by simpa using hj), List.lookup_cons, List.lookup_cons]
      by_cases hk : k = j
      · subst hk
        simp [hj]
      · rw [beq_false_of_ne hk]
        exact ih

theorem lookup_append_single {κ ν : Type} [DecidableEq κ] (k j : κ) (v : ν) (l : List (κ × ν)) :
    (l ++ [(j, v)]).lookup k = (l.lookup k).or (if k = j then some v else none) := by
  induction l with
  | nil =>
    by_cases hk : k = j
    · subst hk; simp
    · simp [List.lookup_cons, beq_false_of_ne hk, hk]
  | cons e l ih =>
    obtain ⟨i, w⟩ := e
    by_cases hk : k = i
    · subst hk; simp
    · rw [List.cons_append, List.lookup_cons, List.lookup_cons, beq_false_of_ne hk]
      exact ih

namespace CodecTable

theorem lookup_setId (k l : Kind) (id : Nat) (ids : List (Kind × Nat)) :
    (setId k id ids).lookup l = if l = k then some id else ids.lookup l := by
  induction ids with
  | nil =>
    by_cases hl : l = k
    · subst hl; simp [setId]
    · simp [setId, List.lookup_cons, beq_false_of_ne hl, hl]
  | cons e ids ih =>
    obtain ⟨j, n⟩ := e
    by_cases hj : j = k
    · subst hj
      rw [setId, if_pos (by simp), List.lookup_cons, List.lookup_cons]
      by_cases hl : l = j
      · subst hl; simp
      · simp only [beq_false_of_ne hl, if_neg hl]
    · rw [setId, if_neg (by simpa using hj), List.lookup_cons, List.lookup_cons]
      by_cases hl : l = j
      · subst hl; simp [hj]
      · simp only [beq_false_of_ne hl]
        exact ih

theorem lookup_setTag (id i : Nat) (k : Kind) (tags : List (Nat × Kind)) :
    (setTag id k tags).lookup i = if i = id then some k else tags.lookup i := by
  rw [setTag, lookup_append_single, lookup_filter_ne]
  split_ifs <;> simp

/-! ### Consistency -/

theorem lookup_ids_set (t : CodecTable) (k l : Kind) (id : Nat) :
    (enter.set t k id).ids.lookup l = if l = k then some id else t.ids.lookup l :=
  lookup_setId k l id t.ids

/-- The old number of the kind is taken out of the map back. -/
theorem lookup_tags_set (t : CodecTable) (k : Kind) (id i : Nat) :
    (enter.set t k id).tags.lookup i =
      if i = id then some k else if t.ids.lookup k = some i then none else t.tags.lookup i := by
  unfold enter.set
  dsimp only
  rw [lookup_setTag]
  rcases t.ids.lookup k with _ | previous
  · simp
  · dsimp only
    rw [lookup_filter_ne]
    simp only [Option.some.injEq, eq_comm]

/-- **Which numbers a kind can be given**: one that no other kind has. -/
theorem enter_eq_ok_iff {t t' : CodecTable} {k : Kind} {n : Nat} : t.enter k n = .ok t' ↔
    (∀ l, t.tags.lookup n = some l → l = k) ∧ t' = enter.set t k n := by
  unfold enter
  rcases t.tags.lookup n with _ | other
  · exact ⟨fun h => ⟨fun _ hl => (by cases hl), (Except.ok.inj h).symm⟩, fun h => h.2 ▸ rfl⟩
  · dsimp only
    split_ifs with hk
    · obtain rfl : other = k := by simpa using hk
      exact ⟨fun h => ⟨fun _ hl => (Option.some.inj hl).symm, (Except.ok.inj h).symm⟩, fun h => h.2 ▸ rfl⟩
    · exact iff_of_false (fun h => by cases h) fun h => hk (by simpa using h.1 other rfl)

/-- **The two maps are inverse to each other.** -/
def Consistent (t : CodecTable) : Prop :=
  ∀ (k : Kind) (id : Nat), t.ids.lookup k = some id ↔ t.tags.lookup id = some k

theorem consistent_empty : Consistent empty := fun _ _ => by simp [empty]

/-- The number of a kind is set in both maps, if no other kind has it. -/
theorem Consistent.set {t : CodecTable} (ht : t.Consistent) {k : Kind} {id : Nat}
    (hid : ∀ l, t.tags.lookup id = some l → l = k) : (enter.set t k id).Consistent := by
  intro l i
  rw [lookup_ids_set, lookup_tags_set]
  by_cases hl : l = k
  · subst hl
    rw [if_pos rfl]
    by_cases hi : i = id
    · subst hi; simp
    · rw [if_neg hi]
      constructor
      · intro h
        exact absurd (Option.some.inj h).symm hi
      · intro h
        split_ifs at h with hold
        exact absurd ((ht l i).2 h) hold
  · rw [if_neg hl]
    by_cases hi : i = id
    · subst hi
      rw [if_pos rfl]
      constructor
      · intro h
        exact absurd (hid l ((ht l i).1 h)) hl
      · intro h
        exact absurd (Option.some.inj h).symm hl
    · rw [if_neg hi, ht l i]
      split_ifs with hold
      · -- the number was that of `k`, so it was not that of `l`
        have hk := (ht k i).1 hold
        constructor
        · intro h
          rw [hk] at h
          exact absurd (Option.some.inj h).symm hl
        · intro h
          cases h
      · rfl

theorem Consistent.enter {t t' : CodecTable} (ht : t.Consistent) {k : Kind} {id : Nat}
    (h : t.enter k id = .ok t') : t'.Consistent := by
  obtain ⟨hid, rfl⟩ := enter_eq_ok_iff.1 h
  exact ht.set hid

theorem Consistent.entry {t t' : CodecTable} (ht : t.Consistent) {tag id : Data}
    (h : t.entry tag id = .ok t') : t'.Consistent := by
  unfold CodecTable.entry at h
  rcases hc : checkEntry tag id with e | ⟨k, n⟩ <;> rw [hc] at h
  · cases h
  · exact ht.enter h

/-- What the empty table has and every accepted entry keeps, a table has that has been loaded, also after a
refused entry. -/
theorem load_induction {P : CodecTable → Prop} (hempty : P empty)
    (hentry : ∀ {t t' : CodecTable}, P t → ∀ {tag id : Data}, t.entry tag id = .ok t' → P t') (t : CodecTable)
    (entries : List (Data × Data)) : P (t.load entries).2 := by
  have hall : ∀ (entries : List (Data × Data)) {t : CodecTable}, P t → P (enterAll t entries).2 := by
    intro entries
    induction entries with
    | nil => exact id
    | cons e entries ih =>
      intro t ht
      rw [enterAll]
      split
      next t' h => exact ih (hentry ht h)
      next => exact ht
  exact hall entries hempty

/-- **Whatever is loaded, the table is consistent.** -/
theorem consistent_load (t : CodecTable) (entries : List (Data × Data)) :
    (t.load entries).2.Consistent := load_induction consistent_empty Consistent.entry t entries

/-! ### Kinds with a codec -/

/-- The kinds that have a number are kinds with a codec. -/
def Encodes (t : CodecTable) : Prop := ∀ (k : Kind) (id : Nat), t.ids.lookup k = some id → k ∈ encodedKinds

theorem Encodes.enter {t t' : CodecTable} (ht : t.Encodes) {k : Kind} (hk : k ∈ encodedKinds) {id : Nat}
    (h : t.enter k id = .ok t') : t'.Encodes := by
  obtain ⟨-, rfl⟩ := enter_eq_ok_iff.1 h
  intro l i hl
  rw [lookup_ids_set] at hl
  split_ifs at hl with hlk
  · exact hlk ▸ hk
  · exact ht l i hl

/-- A fault whose message has a text to wait for. -/
theorem throw_ne_ok {α β : Type} (x : Except Fault α) (g : α → Fault) (b : β) :
    (do throw (g (← x)) : Except Fault β) ≠ .ok b := by
  rcases x with f | a <;> exact fun h => by cases h

theorem isKey_of_string? {d : Data} {s : Text} (h : d.string? = some s) : d.isKey = true := by
  cases d with
  | str => rfl
  | subStr => rfl
  | _ => cases h

/-- **The entry gives the number to the kind.** -/
def Gives (e : Data × Data) (k : Kind) (n : Nat) : Prop :=
  (∃ tag, e.1.string? = some tag ∧ kindOfTag? tag = some k) ∧ e.2.integer? = some (n : Int)

/-- **An entry passes its check exactly if it gives a number to a kind.** -/
theorem checkEntry_eq_ok_iff {tag id : Data} {k : Kind} {n : Nat} :
    checkEntry tag id = .ok (k, n) ↔ Gives (tag, id) k n := by
  constructor
  · intro h
    unfold checkEntry at h
    split_ifs at h
    · cases h
    · split at h
      next kind htag =>
        have hkind : ∃ s, tag.string? = some s ∧ kindOfTag? s = some kind := Option.bind_eq_some_iff.1 htag
        rcases hi : id.integer? with _ | i <;> rw [hi] at h
        · exact absurd h (throw_ne_ok _ _ _)
        · dsimp only at h
          split_ifs at h with hpos
          · cases h
            exact ⟨hkind, by rw [hi, Int.toNat_of_nonneg hpos]⟩
          · exact absurd h (throw_ne_ok _ _ _)
      next => exact absurd h (throw_ne_ok _ _ _)
  · rintro ⟨⟨s, hs, hk⟩, hid⟩
    dsimp only at hs hid
    have hkey : tag.isKey = true := isKey_of_string? hs
    have hkind : tag.string?.bind kindOfTag? = some k := by rw [hs, Option.bind_some, hk]
    unfold checkEntry
    rw [hkey, hkind, hid]
    rfl

/-- **Which entries are made**: those that give a number to a kind, if no other kind has the number. -/
theorem entry_eq_ok_iff_free {t t' : CodecTable} {tag id : Data} : t.entry tag id = .ok t' ↔
    ∃ k n, Gives (tag, id) k n ∧ (∀ l, t.tags.lookup n = some l → l = k) ∧ t' = enter.set t k n := by
  unfold CodecTable.entry
  rcases hcheck : checkEntry tag id with f | ⟨k, n⟩
  · refine iff_of_false (fun h => by cases h) ?_
    rintro ⟨k, n, hgives, -⟩
    rw [checkEntry_eq_ok_iff.2 hgives] at hcheck
    cases hcheck
  · refine Iff.trans enter_eq_ok_iff ⟨fun h => ⟨k, n, checkEntry_eq_ok_iff.1 hcheck, h⟩, ?_⟩
    rintro ⟨l, m, hgives, h⟩
    cases (checkEntry_eq_ok_iff.2 hgives).symm.trans hcheck
    exact h

theorem encoded_of_checkEntry {tag id : Data} {k : Kind} {n : Nat} (h : checkEntry tag id = .ok (k, n)) :
    k ∈ encodedKinds := by
  obtain ⟨⟨_, _, hk⟩, _⟩ := checkEntry_eq_ok_iff.1 h
  exact List.mem_of_find?_eq_some hk

theorem Encodes.entry {t t' : CodecTable} (ht : t.Encodes) {tag id : Data} (h : t.entry tag id = .ok t') :
    t'.Encodes := by
  unfold CodecTable.entry at h
  rcases hc : checkEntry tag id with e | ⟨k, n⟩ <;> rw [hc] at h
  · cases h
  · exact ht.enter (encoded_of_checkEntry hc) h

/-- **Whatever is loaded, only kinds with a codec have a number.** -/
theorem encodes_load (t : CodecTable) (entries : List (Data × Data)) : (t.load entries).2.Encodes :=
  load_induction (fun _ _ h => by cases h) Encodes.entry t entries

/-! ### Numbers and kinds on the wire -/

theorem lookup_of_idFor {t : CodecTable} {k : Kind} {id : Nat} (h : t.idFor k = .ok id) :
    t.ids.lookup k = some id := by
  unfold idFor at h
  split at h
  · next id' hid =>
    cases h
    exact hid
  · cases h

/-- The number of a kind leads back to the kind. -/
theorem Consistent.tagFor {t : CodecTable} (ht : t.Consistent) {k : Kind} {id : Nat}
    (h : t.idFor k = .ok id) : t.tagFor id = .ok k := by
  have hk := (ht k id).1 (lookup_of_idFor h)
  unfold CodecTable.tagFor
  rw [if_neg (by omega), Int.toNat_natCast, hk]

end CodecTable

end StackCalc.Wire
