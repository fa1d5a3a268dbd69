import StackCalc.Data.Conversion
import StackCalc.Proofs.Machine.Declaration

/-! # The data form of a record

A record becomes a mapping that is tagged with its type. The fields of a record have different names, so each has an
entry of its own there, but one that is named like the tag takes the place of the tag (`Value.toData_record`). A
mapping with texts as keys is known by the texts, in order, and by what it has for each (`Data.keys_setAll`,
`Data.lookup?_setAll`). -/

namespace StackCalc

namespace Data

/-! ### Mappings of texts -/

/-- The same key as a text is the text, whatever its class. -/
theorem sameKey_str_iff {k : Data} {s : Text} : k.sameKey (.str s) = true ↔ k.string? = some s := by
  cases k with
  | str t => simp [sameKey, string?]
  | subStr _ t => simp [sameKey, string?]
  | _ => simp [sameKey, numeric?, string?]

theorem sameKey_of_string? {k l : Data} {s : Text} (hk : k.string? = some s) (hl : l.string? = some s) :
    k.sameKey l = true := by
  cases l with
  | str t =>
    obtain rfl : t = s := Option.some.inj hl
    exact sameKey_str_iff.2 hk
  | subStr _ t =>
    obtain rfl : t = s := Option.some.inj hl
    cases k with
    | str => cases hk; simp [sameKey]
    | subStr => cases hk; simp [sameKey]
    | _ => cases hk
  | _ => cases hl

/-- Integers are the same key if they are the same number, whatever their classes. -/
theorem sameKey_iff_of_integer? {k l : Data} {m n : Int} (hk : k.integer? = some m) (hl : l.integer? = some n) :
    k.sameKey l = true ↔ m = n := by
  have hnumeric : ∀ {d : Data} {i : Int}, d.integer? = some i →
      d.numeric? = some (.integer i) ∧ (d = .int i ∨ ∃ name, d = .subInt name i) := fun {d i} h => by
    cases d <;> cases h
    · exact ⟨rfl, .inl rfl⟩
    · exact ⟨rfl, .inr ⟨_, rfl⟩⟩
  rcases (hnumeric hk).2 with rfl | ⟨_, rfl⟩ <;> rcases (hnumeric hl).2 with rfl | ⟨_, rfl⟩ <;> exact beq_iff_eq

theorem lookup?_cons_self {k : Data} {s : Text} (h : k.string? = some s) (v : Data) (m : List (Data × Data)) :
    lookup? (.str s) ((k, v) :: m) = some v := by
  simp only [lookup?, List.find?_cons, sameKey_str_iff.2 h, Option.map_some]

theorem lookup?_cons_of_ne {k : Data} {s : Text} (h : k.string? ≠ some s) (v : Data) (m : List (Data × Data)) :
    lookup? (.str s) ((k, v) :: m) = lookup? (.str s) m := by
  have hother : k.sameKey (.str s) = false := Bool.eq_false_iff.2 (mt sameKey_str_iff.1 h)
  simp only [lookup?, List.find?_cons, hother]

/-- A key has the value that has been set. -/
theorem lookup?_insert_self (s : Text) (v : Data) : ∀ m : List (Data × Data),
    lookup? (.str s) (insert (.str s) v m) = some v
  | [] => lookup?_cons_self rfl v []
  | (k, w) :: m => by
    unfold insert
    by_cases hk : k.string? = some s
    · rw [if_pos (sameKey_str_iff.2 hk)]
      exact lookup?_cons_self hk v m
    · rw [if_neg (mt sameKey_str_iff.1 hk), lookup?_cons_of_ne hk]
      exact lookup?_insert_self s v m

/-- The other keys keep theirs. -/
theorem lookup?_insert_of_ne {s t : Text} (h : s ≠ t) (v : Data) : ∀ m : List (Data × Data),
    lookup? (.str s) (insert (.str t) v m) = lookup? (.str s) m
  | [] => lookup?_cons_of_ne (k := .str t) (fun heq => h (Option.some.inj heq).symm) v []
  | (k, w) :: m => by
    unfold insert
    by_cases hk : k.string? = some t
    · have hne : k.string? ≠ some s := fun heq => h (Option.some.inj (heq.symm.trans hk))
      rw [if_pos (sameKey_str_iff.2 hk), lookup?_cons_of_ne hne, lookup?_cons_of_ne hne]
    · rw [if_neg (mt sameKey_str_iff.1 hk)]
      by_cases hs : k.string? = some s
      · rw [lookup?_cons_self hs, lookup?_cons_self hs]
      · rw [lookup?_cons_of_ne hs, lookup?_cons_of_ne hs, lookup?_insert_of_ne h v m]

/-- A new key goes to the end, and one that is there stays where it is. -/
theorem keys_insert (s : Text) (v : Data) : ∀ {m : List (Data × Data)} {texts : List Text},
    m.map Prod.fst = texts.map Data.str →
    (insert (.str s) v m).map Prod.fst = (if s ∈ texts then texts else texts ++ [s]).map Data.str
  | [], [], _ => rfl
  | (k, w) :: m, t :: texts, h => by
    obtain ⟨rfl, hrest⟩ := List.cons.inj h
    unfold insert
    by_cases ht : t = s
    · subst ht
      rw [if_pos (sameKey_str_iff.2 rfl), if_pos List.mem_cons_self]
      exact congrArg (Data.str t :: ·) hrest
    · have hmem : s ∈ t :: texts ↔ s ∈ texts := by rw [List.mem_cons, or_iff_right (Ne.symm ht)]
      have hother : (Data.str t).string? ≠ some s := mt Option.some.inj ht
      rw [if_neg (mt sameKey_str_iff.1 hother), List.map_cons, keys_insert s v hrest]
      simp only [hmem]
      split_ifs <;> rfl

/-- The mapping after the entries of texts have been set. -/
def setAll (entries : List (Text × Data)) (m : List (Data × Data)) : List (Data × Data) :=
  entries.foldl (fun m e => insert (.str e.1) e.2 m) m

theorem lookup?_setAll_of_not_mem {s : Text} : ∀ {entries : List (Text × Data)} (m : List (Data × Data)),
    s ∉ entries.map Prod.fst → lookup? (.str s) (setAll entries m) = lookup? (.str s) m
  | [], _, _ => rfl
  | (t, v) :: entries, m, h => by
    rw [List.map_cons, List.mem_cons, not_or] at h
    exact (lookup?_setAll_of_not_mem (insert (.str t) v m) h.2).trans (lookup?_insert_of_ne h.1 v m)

/-- **Each text has its own entry**, if no two are the same. -/
theorem lookup?_setAll {s : Text} {v : Data} : ∀ {entries : List (Text × Data)} (m : List (Data × Data)),
    (entries.map Prod.fst).Nodup → (s, v) ∈ entries → lookup? (.str s) (setAll entries m) = some v
  | (t, w) :: entries, m, hnodup, h => by
    obtain ⟨ht, hnodup⟩ := List.nodup_cons.1 hnodup
    rcases List.mem_cons.1 h with heq | h
    · cases heq
      exact (lookup?_setAll_of_not_mem (insert (.str s) v m) ht).trans (lookup?_insert_self s v m)
    · exact lookup?_setAll (insert (.str t) w m) hnodup h

/-- **The keys are those that were there and the new texts**, in order. -/
theorem keys_setAll : ∀ {entries : List (Text × Data)} {m : List (Data × Data)} {texts : List Text},
    (entries.map Prod.fst).Nodup → m.map Prod.fst = texts.map Data.str →
    (setAll entries m).map Prod.fst = (texts ++ (entries.map Prod.fst).filter (· ∉ texts)).map Data.str
  | [], m, texts, _, h => by
    rw [List.map_nil, List.filter_nil, List.append_nil]
    exact h
  | (t, v) :: entries, m, texts, hnodup, h => by
    obtain ⟨ht, hnodup⟩ := List.nodup_cons.1 hnodup
    refine (keys_setAll hnodup (keys_insert t v h)).trans ?_
    rw [List.map_cons]
    by_cases hmem : t ∈ texts
    · rw [if_pos hmem, List.filter_cons_of_neg (by simpa using hmem)]
    · have hrest : (entries.map Prod.fst).filter (· ∉ texts ++ [t]) =
          (entries.map Prod.fst).filter (· ∉ texts) := by
        refine List.filter_congr fun s hs => ?_
        have hne : s ≠ t := ne_of_mem_of_not_mem hs ht
        simp [hne]
      rw [if_neg hmem, hrest, List.filter_cons_of_pos (by simpa using hmem), List.append_assoc]
      rfl

end Data

/-! ### Records -/

theorem toDataEach_eq_map (vs : List Value) : toDataEach vs = vs.map Value.toData := by
  induction vs with
  | nil => rfl
  | cons v vs ih => rw [toDataEach, ih, List.map_cons]

/-- The data forms of all fields, if each has one. -/
theorem exists_forms : ∀ (fields : List Text) {vs : List Value}, (∀ v ∈ vs, ∃ d, v.toData = .ok d) →
    ∃ ds, (fields.zip (vs.map Value.toData)).mapM (fun e => do return (e.1, ← e.2)) = .ok (fields.zip ds) ∧
      List.Forall₂ (fun v d => v.toData = .ok d) vs ds
  | _, [], _ => ⟨[], by rw [List.map_nil, List.zip_nil_right, List.zip_nil_right]; rfl, .nil⟩
  | fields, v :: vs, h => by
    obtain ⟨⟨d, hd⟩, hvs⟩ := List.forall_mem_cons.1 h
    cases fields with
    | nil =>
      obtain ⟨ds, -, hall⟩ := exists_forms [] hvs
      exact ⟨d :: ds, rfl, .cons hd hall⟩
    | cons field fields =>
      obtain ⟨ds, hds, hall⟩ := exists_forms fields hvs
      refine ⟨d :: ds, ?_, .cons hd hall⟩
      rw [List.map_cons, List.zip_cons_cons, List.mapM_cons, hds, hd]
      rfl

theorem exists_mem_zip {fields : List Text} {vs : List Value} {ds : List Data}
    (h : List.Forall₂ (fun v d => v.toData = .ok d) vs ds) {s : Text} {v : Value} (he : (s, v) ∈ fields.zip vs) :
    ∃ d, v.toData = .ok d ∧ (s, d) ∈ fields.zip ds := by
  induction h generalizing fields with
  | nil =>
    rw [List.zip_nil_right] at he
    cases he
  | @cons w d vs ds hd _ ih =>
    cases fields with
    | nil => cases he
    | cons field fields =>
      rcases List.mem_cons.1 he with heq | he
      · cases heq
        exact ⟨d, hd, List.mem_cons_self⟩
      · obtain ⟨d', hd', hmem⟩ := ih he
        exact ⟨d', hd', List.mem_cons_of_mem _ hmem⟩

/-- **The members of a record have the forms of its values**, by place, since no field is listed twice. -/
theorem Composite.toDataEntries_record {t : StructType} (hnodup : t.fields.Nodup) {vs : List Value}
    (hlength : vs.length = t.fields.length) : (Composite.record t vs).toDataEntries =
      some <$> (t.fields.zip (vs.map Value.toData)).mapM fun e => do return (e.1, ← e.2) := by
  rw [Composite.toDataEntries, toDataEach_eq_map, Members.forms_zip hnodup (by rw [List.length_map, hlength])]
  rfl

/-- **The entries of a record.** -/
theorem Value.toData_record_eq (id : DomainId) {t : StructType} {vs : List Value} {entries : List (Text × Data)}
    (h : (Composite.record t vs).toDataEntries = .ok (some entries)) :
    (Value.mk id (.object (.record t vs))).toData =
      .ok (.map (Data.setAll entries [(.str structKey, .str t.name)])) := by
  unfold Value.toData
  dsimp only
  rw [h]
  change Except.ok (Data.map (Data.mapOf ((Data.str structKey, Data.str t.name) ::
    entries.map fun e => (Data.str e.1, e.2)))) = _
  unfold Data.mapOf Data.setAll
  rw [List.foldl_cons, List.foldl_map]
  rfl

/-- **The data form of a record has each field once**, with the data form of the field's value, and its tag is the
name of the type, unless a field is named like the tag. -/
theorem Value.toData_record {given : List Value} {name : Text} {fields : List Text}
    (hparts : structParts given = .ok (name, fields)) {vs : List Value} (hlength : vs.length = fields.length)
    (hdata : ∀ v ∈ vs, ∃ d, v.toData = .ok d) (id : DomainId) (serial : Nat) :
    ∃ entries, (Value.mk id (.object (.record ⟨serial, name, fields⟩ vs))).toData = .ok (.map entries) ∧
      entries.map Prod.fst = (structKey :: fields.filter (· ≠ structKey)).map Data.str ∧
      (∀ e ∈ fields.zip vs, ∃ d, e.2.toData = .ok d ∧ Data.lookup? (.str e.1) entries = some d) ∧
      (structKey ∉ fields → Data.lookup? (.str structKey) entries = some (.str name)) := by
  obtain ⟨ds, hds, hall⟩ := exists_forms fields hdata
  have hnodup : fields.Nodup := (structParts_eq_ok_iff.1 hparts).2
  have hentries : (Composite.record ⟨serial, name, fields⟩ vs).toDataEntries = .ok (some (fields.zip ds)) := by
    rw [Composite.toDataEntries_record hnodup hlength, hds]
    rfl
  have hkeys : (fields.zip ds).map Prod.fst = fields :=
    List.map_fst_zip (Nat.le_of_eq (hlength.symm.trans hall.length_eq))
  refine ⟨_, toData_record_eq id hentries, ?_, fun e he => ?_, fun htag => ?_⟩
  · have hstart : [(Data.str structKey, Data.str name)].map Prod.fst = [structKey].map Data.str := rfl
    rw [Data.keys_setAll (by rwa [hkeys]) hstart, hkeys]
    simp
  · obtain ⟨d, hd, hmem⟩ := exists_mem_zip hall he
    exact ⟨d, hd, Data.lookup?_setAll _ (by rwa [hkeys]) hmem⟩
  · rw [Data.lookup?_setAll_of_not_mem _ (by rwa [hkeys])]
    exact Data.lookup?_cons_self rfl _ []

/-- A point has its coordinates next to its tag. -/
theorem Value.toData_record_point : ∃ entries,
    (Value.own (.object (.record ⟨0, "P", ["x", "y"]⟩ [.own (.int 1), .own .null]))).toData = .ok (.map entries) ∧
      entries.map Prod.fst = [.str structKey, .str "x", .str "y"] ∧
      Data.lookup? (.str structKey) entries = some (.str "P") := by
  have hparts : structParts [.own (.str "P"), .own (.str "x"), .own (.str "y")] = .ok ("P", ["x", "y"]) := rfl
  have hforms : ∀ v ∈ ([.own (.int 1), .own .null] : List Value), ∃ d, v.toData = .ok d :=
    List.forall_mem_cons.2 ⟨⟨_, rfl⟩, List.forall_mem_singleton.2 ⟨_, rfl⟩⟩
  obtain ⟨entries, hdata, hkeys, -, htag⟩ := Value.toData_record hparts rfl hforms 0 0
  exact ⟨entries, hdata, hkeys, htag (by decide)⟩

/-- **A field that is named like the tag takes its place**: what the record's type is called is not in its data
form. -/
theorem Value.toData_untagged :
    structParts [.own (.str "P"), .own (.str structKey)] = .ok ("P", [structKey]) ∧
      (Value.own (.object (.record ⟨0, "P", [structKey]⟩ [.own (.int 1)]))).toData =
        .ok (.map [(.str structKey, .int 1)]) := by
  constructor
  · rfl
  · rfl

end StackCalc
