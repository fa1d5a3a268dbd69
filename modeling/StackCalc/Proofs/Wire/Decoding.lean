import StackCalc.Proofs.Scope.Binding
import StackCalc.Proofs.Wire.Record
import Mathlib.Data.List.Forall2

/-! # What bytes hold

A record is read if the bytes begin with one: the number of its entries, and then a name and a value for
each of them (`Holds`). The store that reading results in has the last value of every name of the record.
What is read as a value is made of scalars and pairs, so it is the same as itself in the sense of
`Value.Same`, which the values of other kinds are not. -/

namespace StackCalc.Wire

variable {t : CodecTable} {d : DomainId}

/-- **Names and values follow one another at the front of the bytes**, up to the rest. -/
inductive Entries (t : CodecTable) (d : DomainId) : Bytes → Bindings → Bytes → Prop where
  | nil (s : Bytes) : Entries t d s [] s
  | cons {s s' s'' rest : Bytes} {name : Text} {v : Value} {entries : Bindings}
      (hname : readText.outcome s = (.ok name, s')) (hvalue : (readValue t d).outcome s' = (.ok v, s''))
      (h : Entries t d s'' entries rest) : Entries t d s ((name, v) :: entries) rest

/-- **The bytes begin with a record** of these entries. -/
def Holds (t : CodecTable) (d : DomainId) (bytes : Bytes) (entries : Bindings) (rest : Bytes) : Prop :=
  ∃ body, LengthCode.read.outcome bytes = (.ok entries.length, body) ∧ Entries t d body entries rest

/-- Entries are read one after the other into a store. -/
theorem Entries.outcome {s rest : Bytes} {entries : Bindings} (h : Entries t d s entries rest) :
    ∀ store : Bindings, (readEntries (· == ·) readText (readValue t d) entries.length store).outcome s =
      (.ok (store.putAll entries), rest) := by
  induction h with
  | nil s => exact fun store => rfl
  | cons hname hvalue _ ih =>
    intro store
    rw [List.length_cons, readEntries, Reader.outcome_bind_of_ok hname, Reader.outcome_bind_of_ok hvalue,
      storeInsert_eq_put]
    exact ih _

/-- A store that has been read comes from entries. -/
theorem entries_of_outcome : ∀ (n : Nat) {store found : Bindings} {s rest : Bytes},
    (readEntries (· == ·) readText (readValue t d) n store).outcome s = (.ok found, rest) →
    ∃ entries : Bindings, entries.length = n ∧ found = store.putAll entries ∧ Entries t d s entries rest
  | 0, store, found, s, rest, h => by
    cases h
    exact ⟨[], rfl, rfl, .nil s⟩
  | n + 1, store, found, s, rest, h => by
    obtain ⟨name, mid, hname, h⟩ := Reader.exists_of_outcome_bind_ok h
    obtain ⟨v, mid', hvalue, h⟩ := Reader.exists_of_outcome_bind_ok h
    rw [storeInsert_eq_put] at h
    obtain ⟨entries, rfl, hfound, hentries⟩ := entries_of_outcome n h
    exact ⟨(name, v) :: entries, rfl, hfound, .cons hname hvalue hentries⟩

/-- **Reading succeeds on what holds a record, and on nothing else.** -/
theorem readRecord_eq_ok_iff {bytes rest : Bytes} {size : Nat} {found : Bindings} :
    (readRecord (· == ·) readText (readValue t d)).outcome bytes = (.ok (size, found), rest) ↔
      ∃ entries : Bindings, size = entries.length ∧ found = Bindings.putAll [] entries ∧
        Holds t d bytes entries rest := by
  constructor
  · intro h
    obtain ⟨n, body, hsize, h⟩ := Reader.exists_of_outcome_bind_ok h
    obtain ⟨store, mid, hstore, h⟩ := Reader.exists_of_outcome_bind_ok h
    cases h
    obtain ⟨entries, rfl, hfound, hentries⟩ := entries_of_outcome _ hstore
    exact ⟨entries, rfl, hfound, body, hsize, hentries⟩
  · rintro ⟨entries, rfl, rfl, body, hsize, hentries⟩
    have hstore : (do return (entries.length,
        ← readEntries (· == ·) readText (readValue t d) entries.length []) : Reader _).outcome body =
        (.ok (entries.length, Bindings.putAll [] entries), rest) :=
      Reader.outcome_bind_of_ok (hentries.outcome [])
    exact (Reader.outcome_bind_of_ok hsize).trans hstore

/-! ### Values that are read -/

/-- **What is read is made of scalars and pairs.** -/
theorem same_of_readNested : ∀ (fuel : Nat) {s rest : Bytes} {v : Value},
    (readNested t d fuel).outcome s = (.ok v, rest) → v.Same v
  | 0, _, _, _, h => by cases h
  | fuel + 1, s, rest, v, h => by
    obtain ⟨id, mid, _, h⟩ := Reader.exists_of_outcome_bind_ok h
    obtain ⟨k, mid', _, h⟩ := Reader.exists_of_outcome_bind_ok h
    cases k with
    | int =>
      obtain ⟨n, _, _, h⟩ := Reader.exists_of_outcome_bind_ok h
      cases h
      exact .int d d n
    | float =>
      obtain ⟨x, _, _, h⟩ := Reader.exists_of_outcome_bind_ok h
      cases h
      exact .float d d x 0 0
    | str =>
      obtain ⟨s, _, _, h⟩ := Reader.exists_of_outcome_bind_ok h
      cases h
      exact .str d d s
    | bool =>
      obtain ⟨b, _, _, h⟩ := Reader.exists_of_outcome_bind_ok h
      cases h
      exact .bool d d b
    | cons =>
      obtain ⟨a, _, ha, h⟩ := Reader.exists_of_outcome_bind_ok h
      obtain ⟨b, _, hb, h⟩ := Reader.exists_of_outcome_bind_ok h
      cases h
      exact .cons d d (same_of_readNested fuel ha) (same_of_readNested fuel hb)
    | null | code | callable | object | hostList | hostMap =>
      cases h
      exact .null d d

theorem same_of_readValue {s rest : Bytes} {v : Value} (h : (readValue t d).outcome s = (.ok v, rest)) :
    v.Same v := same_of_readNested (s.length + 1) h

theorem Entries.same {s rest : Bytes} {entries : Bindings} (h : Entries t d s entries rest) :
    ∀ e ∈ entries, e.2.Same e.2 := by
  induction h with
  | nil => exact fun e he => (List.not_mem_nil he).elim
  | cons _ hvalue _ ih => exact List.forall_mem_cons.2 ⟨same_of_readValue hvalue, ih⟩

/-- The store is the same as itself. -/
theorem Entries.same_putAll {s rest : Bytes} {entries : Bindings} (h : Entries t d s entries rest) :
    (Bindings.putAll [] entries).Same (Bindings.putAll [] entries) := by
  refine List.forall₂_same.2 fun e he => ⟨rfl, ?_⟩
  rcases Bindings.mem_putAll he with hmem | hnil
  · exact h.same e hmem
  · exact (List.not_mem_nil hnil).elim

end StackCalc.Wire
