import StackCalc.Proofs.Wire.Loading
import StackCalc.Proofs.Wire.Replay

/-! # Codec tables through any calls

A codec table is a visitor: it is told that a table begins, of one entry after the other, and that the table ends, in
any order and any number of times, and whole tables are loaded in between. Some of these calls fail. After each of
them the numbers of the kinds and the kinds of the numbers are a bijection (`CodecTable.Bijection`), since every call
keeps this (`Bijection.perform`).

An entry changes both maps or none. It is made by one update after the other, and the deletion of the old number is
among them (`entryStepwise`); that the deletion finds its number is what the maps being in step is good for
(`outcome_entryStepwise`). -/

namespace StackCalc.Wire.CodecTable

/-! ### Calls -/

/-- What a codec table is told. -/
inductive Call where
  | begin (size : Int)
  | entry (tag id : Data)
  | finish
  | load (entries : List (Data × Data))

/-- What comes of a call, and the table that it leaves. -/
def perform (t : CodecTable) : Call → Except Fault Unit × CodecTable
  | .begin _ => (.ok (), empty)
  | .entry tag id =>
    match t.entry tag id with
    | .ok t' => (.ok (), t')
    | .error f => (.error f, t)
  | .finish => (.ok (), t)
  | .load entries => t.load entries

/-- A new table after calls, whether they failed or not. -/
def after (calls : List Call) : CodecTable := calls.foldl (fun t c => (t.perform c).2) empty

/-- **The two maps are the same pairs**: no kind and no number is entered twice, each map is the other one turned
around, and all kinds have a codec. -/
structure Bijection (t : CodecTable) : Prop where
  kinds : (t.ids.map Prod.fst).Nodup
  numbers : (t.tags.map Prod.fst).Nodup
  consistent : t.Consistent
  encodes : t.Encodes

/-- **The table with one pair set**: the kind gives up the number that it had, and all other pairs stay. -/
structure Sets (t : CodecTable) (k : Kind) (n : Nat) (t' : CodecTable) : Prop where
  id : t'.ids.lookup k = some n
  tag : t'.tags.lookup n = some k
  dropped : ∀ i, t.ids.lookup k = some i → i ≠ n → t'.tags.lookup i = none
  ids_kept : ∀ l, l ≠ k → t'.ids.lookup l = t.ids.lookup l
  tags_kept : ∀ i, i ≠ n → t.ids.lookup k ≠ some i → t'.tags.lookup i = t.tags.lookup i

/-! ### One entry -/

section
variable {t t' : CodecTable} {tag id : Data}

theorem perform_entry_of_ok (h : t.entry tag id = .ok t') : t.perform (.entry tag id) = (.ok (), t') := by
  unfold perform
  dsimp only
  rw [h]

theorem perform_entry_of_error {f : Fault} (h : t.entry tag id = .error f) :
    t.perform (.entry tag id) = (.error f, t) := by
  unfold perform
  dsimp only
  rw [h]

end

theorem sets_set (t : CodecTable) (k : Kind) (n : Nat) : t.Sets k n (enter.set t k n) where
  id := by rw [lookup_ids_set, if_pos rfl]
  tag := by rw [lookup_tags_set, if_pos rfl]
  dropped := fun i hi hne => by rw [lookup_tags_set, if_neg hne, if_pos hi]
  ids_kept := fun l hl => by rw [lookup_ids_set, if_neg hl]
  tags_kept := fun i hne hi => by rw [lookup_tags_set, if_neg hne, if_neg hi]

theorem setId_eq (k : Kind) (n : Nat) (ids : List (Kind × Nat)) : setId k n ids = storeInsert (· == ·) k n ids := by
  induction ids with
  | nil => rfl
  | cons e ids ih =>
    obtain ⟨l, m⟩ := e
    rw [setId, storeInsert, ih]
    split_ifs with hl
    · rw [beq_iff_eq.1 hl]
    · rfl

theorem nodup_setId {ids : List (Kind × Nat)} (h : (ids.map Prod.fst).Nodup) (k : Kind) (n : Nat) :
    ((setId k n ids).map Prod.fst).Nodup := by
  rw [setId_eq, keys_storeInsert]
  split_ifs with hk
  · exact h
  · refine List.nodup_append.2 ⟨h, List.pairwise_singleton _ k, fun l hl _ hk' hlk => hk ?_⟩
    rw [List.mem_singleton.1 hk'] at hlk
    exact List.any_eq_true.2 ⟨l, hl, beq_iff_eq.2 hlk⟩

theorem nodup_setTag {tags : List (Nat × Kind)} (h : (tags.map Prod.fst).Nodup) (n : Nat) (k : Kind) :
    ((setTag n k tags).map Prod.fst).Nodup := by
  rw [setTag, List.map_append]
  refine List.nodup_append.2 ⟨h.sublist (List.filter_sublist.map Prod.fst), List.pairwise_singleton _ n, ?_⟩
  rintro i hi _ hn rfl
  obtain ⟨e, he, rfl⟩ := List.mem_map.1 hi
  exact bne_iff_ne.1 (List.mem_filter.1 he).2 (List.mem_singleton.1 hn)

namespace Bijection

theorem empty : CodecTable.empty.Bijection where
  kinds := .nil
  numbers := .nil
  consistent := consistent_empty
  encodes := fun _ _ h => by cases h

theorem entry {t t' : CodecTable} (ht : t.Bijection) {tag id : Data} (h : t.entry tag id = .ok t') :
    t'.Bijection where
  kinds := by
    obtain ⟨k, n, -, -, rfl⟩ := entry_eq_ok_iff_free.1 h
    exact nodup_setId ht.kinds k n
  numbers := by
    obtain ⟨k, n, -, -, rfl⟩ := entry_eq_ok_iff_free.1 h
    refine nodup_setTag ?_ n k
    -- the old number is taken out first, if there is one
    rcases t.ids.lookup k with _ | previous
    · exact ht.numbers
    · exact ht.numbers.sublist (List.filter_sublist.map Prod.fst)
  consistent := ht.consistent.entry h
  encodes := ht.encodes.entry h

/-- **Every call keeps the maps in step**, whether it fails or not. -/
theorem perform {t : CodecTable} (ht : t.Bijection) (c : Call) : (t.perform c).2.Bijection := by
  cases c with
  | begin size => exact empty
  | entry tag id =>
    rcases h : t.entry tag id with f | t'
    · rw [perform_entry_of_error h]
      exact ht
    · rw [perform_entry_of_ok h]
      exact ht.entry h
  | finish => exact ht
  | load entries => exact load_induction empty entry t entries

end Bijection

theorem bijection_foldl : ∀ (calls : List Call) {t : CodecTable}, t.Bijection →
    (calls.foldl (fun t c => (t.perform c).2) t).Bijection
  | [], _, h => h
  | c :: calls, _, h => bijection_foldl calls (h.perform c)

/-- After any calls the maps are in step. -/
theorem bijection_after (calls : List Call) : (after calls).Bijection := bijection_foldl calls .empty

/-! ### One update after the other -/

/-- What works on a table step by step; a fault leaves the table as far as it has come. -/
abbrev Update := ExceptT Fault (StateM CodecTable)

namespace Update

variable {α β : Type}

/-- The outcome on a table, and the table that is left. -/
def outcome (u : Update α) (t : CodecTable) : Except Fault α × CodecTable := (ExceptT.run u).run t

theorem outcome_bind_of_ok {u : Update α} {g : α → Update β} {t t' : CodecTable} {a : α}
    (h : u.outcome t = (.ok a, t')) : (u >>= g).outcome t = (g a).outcome t' := by
  simp only [outcome, ExceptT.run_bind, StateT.run_bind] at h ⊢
  rw [h]
  rfl

theorem outcome_bind_of_error {u : Update α} {g : α → Update β} {t t' : CodecTable} {f : Fault}
    (h : u.outcome t = (.error f, t')) : (u >>= g).outcome t = (.error f, t') := by
  simp only [outcome, ExceptT.run_bind, StateT.run_bind] at h ⊢
  rw [h]
  rfl

/-- A check that was passed. -/
theorem outcome_lift_bind (a : α) (g : α → Update β) (t : CodecTable) :
    ((liftM (Except.ok a : Except Fault α) : Update α) >>= g).outcome t = (g a).outcome t := rfl

end Update

/-- No other kind has the number. -/
def checkFree (k : Kind) (n : Nat) : Update Unit := do
  match (← get).tags.lookup n with
  | some other => if other == k then pure () else throw (clashFault n other k)
  | none => pure ()

/-- Deletes the number of a kind from the map back, where it has to be. -/
def dropOld (k : Kind) : Update Unit := do
  let t ← get
  match t.ids.lookup k with
  | some previous =>
    if (t.tags.lookup previous).isNone then throw .missingKey
    else set { t with tags := t.tags.filter fun e => e.1 != previous }
  | none => pure ()

/-- **An entry in steps**: the checks, the deletion of the old number, and the update of either map. -/
def entryStepwise (tag id : Data) : Update Unit := do
  let e ← (checkEntry tag id : Except Fault (Kind × Nat))
  checkFree e.1 e.2
  dropOld e.1
  modify fun t => { t with ids := setId e.1 e.2 t.ids }
  modify fun t => { t with tags := setTag e.2 e.1 t.tags }

theorem outcome_checkFree (t : CodecTable) (k : Kind) (n : Nat) :
    (checkFree k n).outcome t = match t.enter k n with
      | .ok _ => (.ok (), t)
      | .error f => (.error f, t) := by
  have hrun : (checkFree k n).outcome t = (match t.tags.lookup n with
      | some other => if other == k then pure () else throw (clashFault n other k)
      | none => pure () : Update Unit).outcome t := rfl
  rw [hrun]
  unfold enter
  rcases t.tags.lookup n with _ | other
  · rfl
  · dsimp only
    split_ifs <;> rfl

/-- The number that is to be deleted is there, since the maps are in step. -/
theorem outcome_dropOld {t : CodecTable} (ht : t.Consistent) (k : Kind) :
    (dropOld k).outcome t = (.ok (), { t with tags := match t.ids.lookup k with
      | some previous => t.tags.filter fun e => e.1 != previous
      | none => t.tags }) := by
  have hrun : (dropOld k).outcome t = (match t.ids.lookup k with
      | some previous =>
        if (t.tags.lookup previous).isNone then throw .missingKey
        else set { t with tags := t.tags.filter fun e => e.1 != previous }
      | none => pure () : Update Unit).outcome t := rfl
  rw [hrun]
  rcases hk : t.ids.lookup k with _ | previous
  · rfl
  · dsimp only
    rw [(ht k previous).1 hk]
    rfl

/-- **The steps make the entry, or change nothing.** -/
theorem outcome_entryStepwise {t : CodecTable} (ht : t.Consistent) (tag id : Data) :
    (entryStepwise tag id).outcome t = t.perform (.entry tag id) := by
  unfold entryStepwise
  rcases hcheck : checkEntry tag id with f | ⟨k, n⟩
  · have hentry : t.entry tag id = .error f := by
      unfold CodecTable.entry
      rw [hcheck]
      rfl
    rw [perform_entry_of_error hentry]
    rfl
  · have hentry : t.entry tag id = t.enter k n := by
      unfold CodecTable.entry
      rw [hcheck]
      rfl
    rw [Update.outcome_lift_bind]
    have hfree := outcome_checkFree t k n
    rcases henter : t.enter k n with f | t' <;> rw [henter] at hfree hentry
    · rw [perform_entry_of_error hentry]
      exact Update.outcome_bind_of_error hfree
    · obtain ⟨-, rfl⟩ := enter_eq_ok_iff.1 henter
      rw [perform_entry_of_ok hentry]
      refine (Update.outcome_bind_of_ok hfree).trans ?_
      exact Update.outcome_bind_of_ok (outcome_dropOld ht k)

/-! ### The two maps after any calls -/

/-- **A codec table is a bijection after any calls**, whether they failed or not. An entry then fails and leaves the
table as it was, or it sets one pair and no other; it does so exactly if it gives a number to a kind that no other kind
has. The updates that it consists of come to the same when they are made one after the other. -/
theorem bijection_calls (calls : List Call) :
    let t := after calls
    t.Bijection ∧ ∀ tag id : Data, ∃ result t', t.perform (.entry tag id) = (result, t') ∧
      (∀ f, result = .error f → t' = t) ∧
      (result = .ok () → ∃ k n, Gives (tag, id) k n ∧ t.Sets k n t') ∧
      (result = .ok () ↔ ∃ k n, Gives (tag, id) k n ∧ ∀ l, t.tags.lookup n = some l → l = k) ∧
      (entryStepwise tag id).outcome t = (result, t') := by
  intro t
  have ht : t.Bijection := bijection_after calls
  refine ⟨ht, fun tag id => ?_⟩
  have hsteps := outcome_entryStepwise ht.consistent tag id
  rcases hentry : t.entry tag id with f | t'
  · have hrefused := perform_entry_of_error hentry
    refine ⟨.error f, t, hrefused, fun _ _ => rfl, fun h => (nomatch h), iff_of_false (fun h => nomatch h) ?_,
      hsteps.trans hrefused⟩
    rintro ⟨k, n, hgives, hfree⟩
    rw [entry_eq_ok_iff_free.2 ⟨k, n, hgives, hfree, rfl⟩] at hentry
    cases hentry
  · have hmade := perform_entry_of_ok hentry
    obtain ⟨k, n, hgives, hfree, rfl⟩ := entry_eq_ok_iff_free.1 hentry
    exact ⟨.ok (), _, hmade, fun _ h => (nomatch h), fun _ => ⟨k, n, hgives, sets_set t k n⟩,
      iff_of_true rfl ⟨k, n, hgives, hfree⟩, hsteps.trans hmade⟩

/-- A number that was refused to a second kind is free for it when the first has been entered again. -/
theorem bijection_calls_reentered :
    let t := after [.entry (.str "int") (.int 5), .entry (.str "str") (.int 5), .entry (.str "int") (.int 7)]
    ∃ t', t.perform (.entry (.str "str") (.int 5)) = (.ok (), t') ∧ t'.ids.lookup .int = some 7 ∧
      t'.ids.lookup .str = some 5 ∧ t'.tags.lookup 5 = some .str := by
  intro t
  obtain ⟨-, hentry⟩ := bijection_calls
    [.entry (.str "int") (.int 5), .entry (.str "str") (.int 5), .entry (.str "int") (.int 7)]
  obtain ⟨result, t', hperform, -, hsets, haccepted, -⟩ := hentry (.str "str") (.int 5)
  have hgives : Gives (.str "str", .int 5) .str 5 := ⟨⟨"str", rfl, rfl⟩, rfl⟩
  obtain rfl := haccepted.2 ⟨.str, 5, hgives, fun _ h => (nomatch h)⟩
  obtain ⟨k, n, hgives', hset⟩ := hsets rfl
  obtain ⟨rfl, rfl⟩ := Gives.unique hgives' hgives
  exact ⟨t', hperform, hset.ids_kept .int (by decide), hset.id, hset.tag⟩

end StackCalc.Wire.CodecTable
