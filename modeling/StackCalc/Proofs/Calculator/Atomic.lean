import StackCalc.Proofs.Calculator.Globals
import StackCalc.Proofs.Wire.Decoding

/-! # Loading all or nothing

Whatever bytes are loaded, into whatever calculator: either they begin with a record, and then every name of
the record is bound to the last value that the record has for it, and every other global is what it was
(`Installed`), or they do not, and then loading fails and nothing has changed (`loadGlobals_atomic`). There
is no third way, since all entries are decoded before the first of them is bound, and binding does not
fail. -/

namespace StackCalc

/-- Entries that correspond hold the same value under every name. -/
theorem Bindings.Same.lookup {b store : Bindings} (h : b.Same store) (name : Text) :
    Option.Rel Value.Same (b.lookup name) (store.lookup name) := by
  induction h with
  | nil => exact .none
  | @cons e e' b store he _ ih =>
    obtain ⟨n, v⟩ := e
    obtain ⟨n', w⟩ := e'
    obtain ⟨rfl, hv⟩ := he
    rw [List.lookup_cons, List.lookup_cons]
    by_cases hn : name = n
    · subst hn
      simp only [beq_self_eq_true]
      exact .some hv
    · simp only [beq_false_of_ne hn]
      exact ih

namespace Calculator

/-- **The store holds what the entries of a record say last, and the globals have been set to it.** -/
structure Installed (c c' : Calculator) (entries store : Bindings) : Prop where
  nodup : store.names.Nodup
  bound : ∀ name v, store.lookup name = some v →
    c'.value? name = .ok v ∧ ∃ w, List.lookup name entries.reverse = some w ∧ w.Same v
  kept : ∀ name, store.lookup name = none →
    List.lookup name entries.reverse = none ∧ c'.value? name = c.value? name
  others : ∀ id ≠ globalScope, c'.machine.scopes.scopes[id]? = c.machine.scopes.scopes[id]?

/-- A record that has been read is installed. -/
theorem installed_of_entries {c : Calculator} {g entries : Bindings}
    (hg : c.machine.scopes.scopes[globalScope]? = some (.root g)) {s rest : Wire.Bytes}
    (hentries : Wire.Entries c.codecs 0 s entries rest) :
    ∃ store c', (installRecord entries.length (Bindings.putAll [] entries)).outcome c = (.ok store, c') ∧
      Installed c c' entries store := by
  obtain ⟨store, c', hinstall, hsame, hscopes⟩ :=
    outcome_installRecord_of_root hg entries.length (Bindings.putAll [] entries)
  have hstore : (Bindings.putAll [] entries).Same store := hsame _ hentries.same_putAll
  have hnodup : store.names.Nodup := by
    rw [names_eq_of_same hstore]
    exact Bindings.nodup_putAll entries List.nodup_nil
  have hg' : c'.machine.scopes.scopes[globalScope]? = some (.root (g.putAll store)) := by
    rw [hscopes, Forest.getElem?_bindAll, if_pos rfl, hg]
    rfl
  have hlookup : ∀ name, Option.Rel Value.Same (List.lookup name entries.reverse) (store.lookup name) :=
    fun name => by
      have hrel := hstore.lookup name
      rwa [Bindings.lookup_putAll, List.lookup_nil, Option.or_none] at hrel
  have hfound : ∀ name, (g.putAll store).lookup name = (store.lookup name).or (g.lookup name) :=
    Bindings.lookup_putAll_of_nodup hnodup g
  refine ⟨store, c', hinstall, hnodup, fun name v hv => ?_, fun name hnone => ?_, fun id hid => ?_⟩
  · have hrel := hlookup name
    rw [hv] at hrel
    refine ⟨(value?_eq_ok hg').2 (by rw [hfound, hv, Option.some_or]), ?_⟩
    cases hw : List.lookup name entries.reverse with
    | none => rw [hw] at hrel; cases hrel
    | some w =>
      rw [hw] at hrel
      cases hrel with
      | some h => exact ⟨w, rfl, h⟩
  · have hrel := hlookup name
    rw [hnone] at hrel
    refine ⟨?_, by rw [value?_eq hg', value?_eq hg, hfound, hnone, Option.none_or]⟩
    cases hw : List.lookup name entries.reverse with
    | none => rfl
    | some w => rw [hw] at hrel; cases hrel
  · rw [hscopes, Forest.getElem?_bindAll, if_neg (Ne.symm hid)]

/-- **Loading is atomic.** If it fails, whatever the fault and wherever in the bytes it arises, nothing has
changed, and the bytes begin with no record; if it succeeds, they begin with one, and it has been installed. -/
theorem loadGlobals_atomic {c : Calculator} {g : Bindings}
    (hg : c.machine.scopes.scopes[globalScope]? = some (.root g)) (bytes : Wire.Bytes) :
    match (loadGlobals bytes).outcome c with
    | (.error _, c') => c' = c ∧ ∀ entries rest, ¬ Wire.Holds c.codecs 0 bytes entries rest
    | (.ok (store, rest), c') =>
      ∃ entries, Wire.Holds c.codecs 0 bytes entries rest ∧ Installed c c' entries store := by
  rw [outcome_loadGlobals]
  rcases hread : (Wire.readRecord (· == ·) Wire.readText (Wire.readValue c.codecs 0)).outcome bytes with
    ⟨f | ⟨size, found⟩, rest⟩
  · refine ⟨rfl, fun entries rest' hholds => ?_⟩
    have hok := Wire.readRecord_eq_ok_iff.2 ⟨entries, rfl, rfl, hholds⟩
    rw [hread] at hok
    cases hok
  · obtain ⟨entries, rfl, rfl, hholds⟩ := Wire.readRecord_eq_ok_iff.1 hread
    obtain ⟨_, _, hentries⟩ := id hholds
    obtain ⟨store, c', hinstall, hinstalled⟩ := installed_of_entries hg hentries
    dsimp only
    rw [Calculation.outcome_bind_of_ok hinstall]
    exact ⟨entries, hholds, hinstalled⟩

/-- A calculator that has a codec for truth values. -/
def withFlags : Calculator := ((Request.codecs [(.str "bool", .int 1)]).perform.outcome (bare false false)).2

/-- A record that has a name twice. -/
def twice : Wire.Bytes := [2, 1, 120, 1, 1, 1, 120, 1, 0]

/-- The same record with a value that is none in its second entry. -/
def halfDecoded : Wire.Bytes := [2, 1, 120, 1, 1, 1, 120, 1, 7]

/-- The second value of a name stays, and nothing does of a record whose second entry is broken. -/
theorem loadGlobals_atomic_twice :
    (∃ c', (loadGlobals twice).outcome withFlags = (.ok ([("x", .own (.bool false))], []), c') ∧
      c'.value? "x" = .ok (.own (.bool false)) ∧ c'.value? "y" = withFlags.value? "y") ∧
    (loadGlobals halfDecoded).outcome withFlags = (.error (.badFlag 7), withFlags) := by
  have hg : withFlags.machine.scopes.scopes[globalScope]? = some (.root standardNames) := rfl
  have htwice : (loadGlobals twice).outcome withFlags =
      (.ok ([("x", .own (.bool false))], []), ((loadGlobals twice).outcome withFlags).2) := rfl
  have hhalf : (loadGlobals halfDecoded).outcome withFlags =
      (.error (.badFlag 7), ((loadGlobals halfDecoded).outcome withFlags).2) := rfl
  have hloads := loadGlobals_atomic hg twice
  have hfails := loadGlobals_atomic hg halfDecoded
  rw [htwice] at hloads
  rw [hhalf] at hfails
  obtain ⟨entries, -, hinstalled⟩ := hloads
  refine ⟨⟨_, htwice, (hinstalled.bound "x" _ rfl).1, (hinstalled.kept "y" rfl).2⟩, ?_⟩
  rw [hhalf]
  exact congrArg (Prod.mk _) hfails.1

end Calculator

end StackCalc
