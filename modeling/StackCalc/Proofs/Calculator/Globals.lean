import StackCalc.Proofs.Calculator.Requests
import StackCalc.Proofs.Scope.Binding
import StackCalc.Proofs.Wire.Malformed
import StackCalc.Proofs.Wire.Record
import Mathlib.Data.List.Dedup
import Mathlib.Data.List.Perm.Subperm

/-! # Globals that are stored and loaded

A record of globals that has been written is loaded into any calculator with the same codec table, whatever
follows the record: the names of the record then stand for the same values as where they were written, and
no other global has changed (`loadGlobals_dumpGlobals`). What is stored are the values of the names, each
name once; what is loaded is bound in the global scope all at once, after the whole record has been read.

Bytes that are no record are complained about, and leave the calculator as it was
(`loadGlobals_or_complaint`). The complaint is a fault of the data store, unless a text announces more bytes
than a stream can be asked for: that the stream refuses, with a fault of the host. -/

namespace StackCalc

/-! ### Values with new cells -/

/-- What is not a number gets a cell of its own, and that is all that changes. -/
theorem outcome_distinguishAll : ∀ (v : Value) (m : Machine), ∃ w next,
    (Run.distinguishAll v).outcome m = (.ok w, { m with next := next }) ∧ ∀ u : Value, u.Same v → u.Same w
  | .mk e (.float x i), m => by
    unfold Run.distinguishAll Run.distinguish
    dsimp only
    split
    next heq =>
      cases heq
      split_ifs
      · refine ⟨_, m.next + 1, rfl, ?_⟩
        rintro _ ⟨⟩
        exact .float _ e x _ m.next
      · exact ⟨_, m.next, rfl, fun _ h => h⟩
    · exact ⟨_, m.next, rfl, fun _ h => h⟩
  | .mk e (.cons a b), m => by
    obtain ⟨a', next, houtcome_a, hsame_a⟩ := outcome_distinguishAll a m
    obtain ⟨b', next', houtcome_b, hsame_b⟩ := outcome_distinguishAll b { m with next := next }
    refine ⟨.mk e (.cons a' b'), next', ?_, ?_⟩
    · unfold Run.distinguishAll
      rw [Run.outcome_bind_of_ok houtcome_a, Run.outcome_bind_of_ok houtcome_b]
      rfl
    · rintro _ (_ | _ | _ | _ | _ | ⟨d, _, ha, hb⟩)
      exact .cons d e (hsame_a _ ha) (hsame_b _ hb)
  | .mk _ (.int _), m | .mk _ (.str _), m | .mk _ (.bool _), m | .mk _ .null, m | .mk _ (.code _), m
  | .mk _ (.callable _), m | .mk _ (.object _), m | .mk _ (.host ..), m =>
    ⟨_, m.next, rfl, fun _ h => h⟩

theorem outcome_mapM_distinguishEntry : ∀ (found : Bindings) (m : Machine), ∃ (store : Bindings) (next : Nat),
    (found.mapM distinguishEntry).outcome m = (.ok store, { m with next := next }) ∧
      ∀ b : Bindings, b.Same found → b.Same store
  | [], m => ⟨[], m.next, rfl, fun _ h => h⟩
  | (name, v) :: found, m => by
    obtain ⟨w, next, hw, hsame⟩ := outcome_distinguishAll v m
    obtain ⟨store, next', hstore, hsames⟩ := outcome_mapM_distinguishEntry found { m with next := next }
    have hentry : (distinguishEntry (name, v)).outcome m = (.ok (name, w), { m with next := next }) := by
      unfold distinguishEntry
      rw [Run.outcome_bind_of_ok hw]
      rfl
    refine ⟨(name, w) :: store, next', ?_, ?_⟩
    · rw [List.mapM_cons, Run.outcome_bind_of_ok hentry, Run.outcome_bind_of_ok hstore]
      rfl
    · rintro _ (_ | ⟨⟨hname, hv⟩, hrest⟩)
      exact .cons ⟨hname, hsame _ hv⟩ (hsames _ hrest)

/-! ### Values of names -/

namespace Calculator

/-- What a global name stands for. -/
def value? (c : Calculator) (name : Text) : Except Fault Value := ((lookup name).outcome c.machine).1

theorem outcome_lookup {m : Machine} {b : Bindings} (hb : m.scopes.scopes[globalScope]? = some (.root b))
    (name : Text) :
    (lookup name).outcome m =
      ((match b.lookup name with
        | some v => .ok v
        | none => .error (.unknownSymbol name)), m) := by
  have hfind : m.scopes.find? globalScope name = (b.lookup name).map .value := by
    unfold Forest.find? Forest.findWithin
    rw [hb]
  unfold lookup
  rw [Run.outcome_bind_of_ok (Run.outcome_find? globalScope name m), hfind]
  rcases b.lookup name with _ | v <;> rfl

/-- **What the loop has found of names**: each of them once, with the value it stands for. -/
structure Found (b : Bindings) (names : List Text) (found : Bindings) : Prop where
  nodup : found.names.Nodup
  value : ∀ e ∈ found, b.lookup e.1 = some e.2
  mem_iff : ∀ name, name ∈ found.names ↔ name ∈ names

theorem Found.put {b found : Bindings} {names : List Text} (h : Found b names found) {name : Text}
    {v : Value} (hv : b.lookup name = some v) : Found b (names ++ [name]) (Bindings.put name v found) where
  nodup := Bindings.nodup_put h.nodup name v
  value := fun e he => by
    rcases Bindings.mem_put he with rfl | hmem
    · exact hv
    · exact h.value e hmem
  mem_iff := fun other => by
    rw [Bindings.names_put, List.mem_append, ← h.mem_iff other, List.mem_singleton]
    split_ifs with hname
    · constructor
      · exact Or.inl
      · rintro (hother | rfl)
        · exact hother
        · exact hname
    · rw [List.mem_append, List.mem_singleton]

theorem lookupFrom_ok {m m' : Machine} {b : Bindings}
    (hb : m.scopes.scopes[globalScope]? = some (.root b)) :
    ∀ (names : List Text) {before : List Text} {found entries : Bindings}, Found b before found →
      (lookupFrom names found).outcome m = (.ok entries, m') → m' = m ∧ Found b (before ++ names) entries
  | [], before, found, entries, hfound, h => by
    cases h
    rw [List.append_nil]
    exact ⟨rfl, hfound⟩
  | name :: names, before, found, entries, hfound, h => by
    rw [lookupFrom, Run.outcome_bind, outcome_lookup hb] at h
    rcases hv : b.lookup name with _ | v <;> simp only [hv] at h
    · cases h
    · have hrest := lookupFrom_ok hb names (hfound.put hv) h
      rwa [List.append_assoc] at hrest

theorem lookupAll_ok {m m' : Machine} {b entries : Bindings} {names : List Text}
    (hb : m.scopes.scopes[globalScope]? = some (.root b))
    (h : (lookupAll names).outcome m = (.ok entries, m')) : m' = m ∧ Found b names entries := by
  rw [lookupAll_eq] at h
  have hnone : Found b [] [] := ⟨List.nodup_nil, fun e he => (List.not_mem_nil he).elim, fun _ => Iff.rfl⟩
  exact lookupFrom_ok hb names hnone h

/-- No more entries are found than there are different names. -/
theorem Found.length_le {b found : Bindings} {names : List Text} (h : Found b names found) :
    found.length ≤ names.dedup.length := by
  have hsub : found.names ⊆ names.dedup := fun name hname => List.mem_dedup.2 ((h.mem_iff name).1 hname)
  have hlen := (h.nodup.subperm hsub).length_le
  rwa [Bindings.names, List.length_map] at hlen

/-! ### Loading -/

/-- **Binding what a record holds does not fail**, and changes no other scope. -/
theorem outcome_installRecord_of_root {c : Calculator} {g : Bindings}
    (hroot : c.machine.scopes.scopes[globalScope]? = some (.root g)) (size : Nat) (found : Bindings) :
    ∃ (store : Bindings) (c' : Calculator), (installRecord size found).outcome c = (.ok store, c') ∧
      (∀ b : Bindings, b.Same found → b.Same store) ∧
      c'.machine.scopes = c.machine.scopes.bindAll globalScope store := by
  obtain ⟨store, next, hstore, hsame⟩ := outcome_mapM_distinguishEntry found c.machine
  obtain ⟨log, hlog⟩ := Run.outcome_note (.storeRead size) { c.machine with next := next }
  obtain ⟨log', hlog'⟩ := Run.outcome_note (.storeActivated store.length)
    { c.machine with next := next, log := log }
  have hput : (Run.putAll globalScope store).outcome { c.machine with next := next, log := log' } =
      (.ok (), { c.machine with
        next := next, log := log', scopes := c.machine.scopes.bindAll globalScope store }) :=
    Run.outcome_putAll store (Forest.owns_of_root hroot)
  refine ⟨store, { c with machine := { c.machine with
    next := next, log := log', scopes := c.machine.scopes.bindAll globalScope store } }, ?_, hsame, rfl⟩
  unfold installRecord
  rw [Calculation.outcome_bind_of_ok (Calculation.outcome_run_of_eq hstore),
    Calculation.outcome_bind_of_ok (Calculation.outcome_run_of_eq hlog),
    Calculation.outcome_bind_of_ok (Calculation.outcome_run_of_eq hlog'),
    Calculation.outcome_bind_of_ok (Calculation.outcome_run_of_eq hput)]
  rfl

theorem outcome_installRecord {c : Calculator} (hc : c.Sound) (size : Nat) (found : Bindings) :
    ∃ (store : Bindings) (c' : Calculator), (installRecord size found).outcome c = (.ok store, c') ∧
      (∀ b : Bindings, b.Same found → b.Same store) ∧
      c'.machine.scopes = c.machine.scopes.bindAll globalScope store := by
  obtain ⟨g, hroot⟩ := hc.root
  exact outcome_installRecord_of_root hroot size found

/-! ### Storing and loading -/

theorem value?_eq {c : Calculator} {b : Bindings}
    (hb : c.machine.scopes.scopes[globalScope]? = some (.root b)) (name : Text) :
    c.value? name = match b.lookup name with
      | some v => .ok v
      | none => .error (.unknownSymbol name) := by
  unfold value?
  rw [outcome_lookup hb]

theorem value?_eq_ok {c : Calculator} {b : Bindings}
    (hb : c.machine.scopes.scopes[globalScope]? = some (.root b)) {name : Text} {v : Value} :
    c.value? name = .ok v ↔ b.lookup name = some v := by
  rw [value?_eq hb]
  rcases b.lookup name with _ | w <;> simp

/-- **A dump that is not broken off by a missing name** has found the values of the names, and has written
what can be written of their record. -/
theorem dumpGlobals_wrote {c c' : Calculator} {b : Bindings} {names : List Text} {w : Wire.Written}
    (hb : c.machine.scopes.scopes[globalScope]? = some (.root b))
    (h : (dumpGlobals names).outcome c = (.ok w, c')) :
    ∃ entries, Found b names entries ∧
      w = Wire.writeRecord Wire.encodeText (Wire.writeValue c.codecs) entries := by
  unfold dumpGlobals at h
  obtain ⟨entries, mid, hfound, hrest⟩ := Calculation.exists_of_outcome_bind_ok h
  rcases hrun : (lookupAll names).outcome c.machine with ⟨x, m⟩
  rw [Calculation.outcome_run_of_eq hrun] at hfound
  cases hfound
  obtain ⟨rfl, hentries⟩ := lookupAll_ok hb hrun
  rw [Calculation.outcome_current_bind] at hrest
  exact ⟨entries, hentries, (Except.ok.inj (congrArg Prod.fst hrest)).symm⟩

/-- A dump that succeeds has written the record of the names. -/
theorem dumpGlobals_ok {c c' : Calculator} {b : Bindings} {names : List Text} {bytes : Wire.Bytes}
    (hb : c.machine.scopes.scopes[globalScope]? = some (.root b))
    (h : (dumpGlobals names).outcome c = (.ok (.ok bytes), c')) :
    ∃ entries, Found b names entries ∧ Wire.writeRecord Wire.encodeText
      (Wire.writeValue c.codecs) entries = .ok bytes := by
  obtain ⟨entries, hentries, hw⟩ := dumpGlobals_wrote hb h
  exact ⟨entries, hentries, hw.symm⟩

/-- Entries that correspond hold the same value under a name. -/
theorem exists_same_of_mem {b store : Bindings} (h : b.Same store) {name : Text} {v : Value}
    (hmem : (name, v) ∈ b) : ∃ w, (name, w) ∈ store ∧ v.Same w := by
  induction h with
  | nil => cases hmem
  | @cons e e' b store he _ ih =>
    rcases List.mem_cons.1 hmem with rfl | hmem
    · obtain ⟨name', w⟩ := e'
      obtain ⟨rfl, hw⟩ := he
      exact ⟨w, List.mem_cons_self, hw⟩
    · obtain ⟨w, hw, hsame⟩ := ih hmem
      exact ⟨w, List.mem_cons_of_mem _ hw, hsame⟩

theorem names_eq_of_same {b store : Bindings} (h : b.Same store) : store.names = b.names := by
  induction h with
  | nil => rfl
  | cons he _ ih => exact congrArg₂ List.cons he.1.symm ih

/-- **A record of globals that has been written is loaded into any calculator with the same codec table**,
whatever follows it: loading takes exactly the record, the names of the record stand for the same values as
where it was written, and no other global changes. The numbers of the table and the number of different
names are such as can be read back, and the texts such as can be asked for. -/
theorem loadGlobals_dumpGlobals {ok ok' : Request → Prop} {c c' d : Calculator} (hc : Reached ok c)
    (hd : Reached ok' d) (hcodecs : d.codecs = c.codecs) (hids : c.codecs.Readable) {names : List Text}
    (hcount : names.dedup.length < Wire.LengthCode.limit)
    (hnames : ∀ name ∈ names, Wire.IsShort name)
    (hvalues : ∀ name ∈ names, ∀ v, c.value? name = .ok v → v.ShortTexts) {bytes : Wire.Bytes}
    (hdump : (dumpGlobals names).outcome c = (.ok (.ok bytes), c')) (rest : Wire.Bytes) :
    ∃ (store : Bindings) (d' : Calculator),
      (loadGlobals (bytes ++ rest)).outcome d = (.ok (store, rest), d') ∧
      (∀ name ∈ names, ∃ v w, c.value? name = .ok v ∧ d'.value? name = .ok w ∧ v.Same w) ∧
      ∀ name ∉ names, d'.value? name = d.value? name := by
  obtain ⟨b, hb⟩ := hc.sound.root
  obtain ⟨g, hg⟩ := hd.sound.root
  obtain ⟨entries, hentries, hwrite⟩ := dumpGlobals_ok hb hdump
  have hvalue : ∀ e ∈ entries, e.1 ∈ names ∧ c.value? e.1 = .ok e.2 := fun e he =>
    ⟨(hentries.mem_iff e.1).1 (List.mem_map_of_mem he), (value?_eq_ok hb).2 (hentries.value e he)⟩
  obtain ⟨found, hsame, hread⟩ := Wire.reads_record hc.sound.codecs hids 0 hwrite
    (Nat.lt_of_le_of_lt hentries.length_le hcount)
    fun e he => ⟨hnames _ (hvalue e he).1, hvalues _ (hvalue e he).1 _ (hvalue e he).2⟩
  -- the names of the record differ, so the store is what has been read
  have hnodup : (Bindings.names [] ++ found.names).Nodup := by
    rw [names_eq_of_same hsame]
    exact hentries.nodup
  rw [Bindings.putAll_eq_append found hnodup, List.nil_append, ← hcodecs] at hread
  obtain ⟨store, d', hinstall, hsame', hscopes⟩ := outcome_installRecord hd.sound entries.length found
  have hstore := hsame' entries hsame
  have hg' : d'.machine.scopes.scopes[globalScope]? = some (.root (g.putAll store)) := by
    rw [hscopes, Forest.getElem?_bindAll, if_pos rfl, hg]
    rfl
  refine ⟨store, d', ?_, fun name hname => ?_, fun name hname => ?_⟩
  · rw [outcome_loadGlobals, hread rest]
    dsimp only
    rw [Calculation.outcome_bind_of_ok hinstall]
    rfl
  · obtain ⟨⟨_, v⟩, hmem, rfl⟩ := List.mem_map.1 ((hentries.mem_iff name).2 hname)
    obtain ⟨w, hw, hvw⟩ := exists_same_of_mem hstore hmem
    refine ⟨v, w, (hvalue _ hmem).2, (value?_eq_ok hg').2 ?_, hvw⟩
    refine Bindings.lookup_putAll_of_mem store g ?_ hw
    rw [names_eq_of_same hstore]
    exact hentries.nodup
  · have hnot : name ∉ store.names := by
      rw [names_eq_of_same hstore, hentries.mem_iff name]
      exact hname
    rw [value?_eq hg', value?_eq hg, Bindings.lookup_putAll_of_notMem store g hnot]

/-- A number under a name, stored by one calculator and loaded, with a byte that follows, by another. -/
theorem loadGlobals_dumpGlobals_number :
    let d := ((Request.codecs [(.str "int", .int 1)]).perform.outcome (bare false false)).2
    let c := ((Request.define "x" (.int 7)).perform.outcome d).2
    let bytes : Wire.Bytes := [1, 1, 120, 1, 0, 0, 0, 0, 0, 0, 0, 7]
    (dumpGlobals ["x"]).outcome c = (.ok (.ok bytes), c) ∧
    ∃ (store : Bindings) (d' : Calculator),
      (loadGlobals (bytes ++ [5])).outcome d = (.ok (store, [5]), d') ∧
      (∀ name ∈ (["x"] : List Text), ∃ v w, c.value? name = .ok v ∧ d'.value? name = .ok w ∧ v.Same w) ∧
      ∀ name ∉ (["x"] : List Text), d'.value? name = d.value? name := by
  intro d c bytes
  have htext : Wire.encodeText "x" = .ok [1, 120] := by
    rw [Wire.encodeText_ofString, Wire.LengthCode.encode_of_lt (by decide)]
    rfl
  have hvalue : Wire.writeValue c.codecs (.own (.int 7)) = .ok [1, 0, 0, 0, 0, 0, 0, 0, 7] := by
    have hkind : Wire.writeValue c.codecs (.own (.int 7)) =
      (Wire.LengthCode.write (1 : Nat)).andThen (.ok (Wire.encodeInt 7)) := rfl
    rw [hkind, Wire.write_natCast, Wire.LengthCode.encode_of_lt (by decide)]
    rfl
  have hdump : (dumpGlobals ["x"]).outcome c = (.ok (.ok bytes), c) := by
    have hrecord : (dumpGlobals ["x"]).outcome c = (.ok (Wire.writeRecord
      Wire.encodeText (Wire.writeValue c.codecs) [("x", .own (.int 7))]), c) := rfl
    unfold Wire.writeRecord at hrecord
    rw [Wire.write_natCast, Wire.LengthCode.encode_of_lt (by decide)] at hrecord
    simp only [List.map_cons, List.map_nil, htext, hvalue] at hrecord
    exact hrecord
  have hd : Reached (fun _ => True) d := (Reached.bare false false).perform _ trivial
  have hc : Reached (fun _ => True) c := hd.perform _ trivial
  have hnames : ∀ name ∈ (["x"] : List Text), Wire.IsShort name :=
    List.forall_mem_singleton.2 (Wire.isShort_ofString (by decide))
  refine ⟨hdump, loadGlobals_dumpGlobals hc hd rfl (by unfold Wire.CodecTable.Readable; decide) (by decide)
    hnames ?_ hdump [5]⟩
  intro name hname v hv
  obtain rfl := List.mem_singleton.1 hname
  cases hv
  trivial

/-! ### Malformed records -/

/-- **Loading succeeds or complains**, and a complaint leaves the calculator as it was. However many entries
the bytes announce, no more are tried than there are bytes, and one. -/
theorem loadGlobals_or_complaint {ok : Request → Prop} {c : Calculator} (hc : Reached ok c)
    (bytes : Wire.Bytes) :
    ((∃ (store : Bindings) (rest : Wire.Bytes) (d : Calculator),
        (loadGlobals bytes).outcome c = (.ok (store, rest), d)) ∨
      ∃ f, (loadGlobals bytes).outcome c = (.error f, c) ∧
        (f.category = .dataStore ∨ f = .numberTooLarge ∧ Wire.Announces bytes)) ∧
    ∀ (n m : Nat) (store : List (Text × Value)) (s : Wire.Bytes), s.length < n → s.length < m →
      (Wire.readEntries (· == ·) Wire.readText (Wire.readValue c.codecs 0) n store).outcome s =
        (Wire.readEntries (· == ·) Wire.readText (Wire.readValue c.codecs 0) m store).outcome s := by
  refine ⟨?_, fun n m store s => Wire.readEntries_of_length_lt n m store s⟩
  have hsafe : Wire.Reader.SafeAt bytes
      (Wire.readRecord (· == ·) Wire.readText (Wire.readValue c.codecs 0)) bytes :=
    Wire.safe_readRecord bytes
  rw [outcome_loadGlobals]
  rcases hread : (Wire.readRecord (· == ·) Wire.readText (Wire.readValue c.codecs 0)).outcome bytes with
    ⟨f | ⟨size, found⟩, rest⟩
  · exact .inr ⟨f, rfl, hsafe.complaint f rest hread⟩
  · obtain ⟨store, d, hinstall, -⟩ := outcome_installRecord hc.sound size found
    refine .inl ⟨store, rest, d, ?_⟩
    dsimp only
    rw [Calculation.outcome_bind_of_ok hinstall]
    rfl

/-- Ten bytes that announce a text too large to be asked for. -/
def largeText : Wire.Bytes := [128, 128, 128, 128, 128, 128, 128, 128, 128, 1]

/-- A record that ends in the middle of its first name. -/
theorem loadGlobals_or_complaint_bare :
    (∃ (store : Bindings) (rest : Wire.Bytes) (d : Calculator),
        (loadGlobals [1, 128]).outcome (bare false false) = (.ok (store, rest), d)) ∨
      ∃ f, (loadGlobals [1, 128]).outcome (bare false false) = (.error f, bare false false) ∧
        (f.category = .dataStore ∨ f = .numberTooLarge ∧ Wire.Announces [1, 128]) :=
  (loadGlobals_or_complaint (.bare false false : Reached (fun _ => True) (bare false false)) [1, 128]).1

/-- **A name that announces `2 ^ 63` bytes** ends loading with a fault that is none of the data store's. -/
theorem loadGlobals_largeText :
    ((loadGlobals (1 :: largeText)).outcome (bare false false)).1 = .error .numberTooLarge ∧
      Fault.numberTooLarge.category ≠ .dataStore ∧ Fault.numberTooLarge.isReported = false :=
  ⟨rfl, by decide, by decide⟩

end Calculator

end StackCalc
