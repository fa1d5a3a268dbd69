import StackCalc.Proofs.Wire.Incomplete

/-! # Which values are written

A value is written node by node, each pair before its members. What is in the way of a node is read off the
node alone (`CodecTable.objection?`): its kind has no number, or it is an integer that 64 bits do not hold, or
a text with half of a surrogate pair. Writing stops at the first node with something in the way, so its fault is
the first objection among the nodes (`fault_writeValue`), and a value that no node objects to is written and read
back.

The message for an integer that does not fit quotes it, and an integer with too many digits cannot be
quoted: then the text that is missing is the fault. -/

namespace StackCalc

/-- The fault of an integer that has no bytes quotes it, if it has a text. -/
theorem unencodable_int_cases (n : Int) :
    (∃ s, showInt n = .ok s ∧ Wire.unencodable (.int n) = .unencodable s) ∨
      (Integer.hasText n = false ∧ Wire.unencodable (.int n) = .tooManyDigits) := by
  have hshown : (Data.int n).shown Naming.standard = showInt n := by rw [Data.shown.eq_def]
  unfold Wire.unencodable
  rw [hshown]
  unfold showInt Integer.render?
  cases Integer.hasText n with
  | true => exact .inl ⟨Integer.render n, rfl, rfl⟩
  | false => exact .inr ⟨rfl, rfl⟩

namespace Wire

open Reader (Reads)

/-! ### Objections -/

/-- **What is in the way of writing a node**, whatever its members are. -/
def CodecTable.objection? (t : CodecTable) (v : Value) : Option Fault :=
  match t.ids.lookup v.kind with
  | none => some (.unregisteredTag v.kind.name)
  | some _ =>
    match v.payload with
    | .int n => if fitsInt64 n then none else some (unencodable (.int n))
    | .str s => (encodeText s).fault
    | _ => none

/-- **A node can be written**, whatever its members are: its kind has a number, an integer fits 64 bits, and no half
of a surrogate pair is in a text. -/
structure CodecTable.Takes (t : CodecTable) (v : Value) : Prop where
  number : ∃ id, t.idFor v.kind = .ok id
  integer : ∀ n, v.payload = .int n → -9223372036854775808 ≤ n ∧ n ≤ 9223372036854775807
  text : ∀ s, v.payload = .str s → ∀ i, .half i ∉ s.codes

/-- Just a text with half of a pair is not written. -/
theorem fault_encodeText_eq_some_iff {s : Text} {f : Fault} :
    (encodeText s).fault = some f ↔ (∃ i, .half i ∈ s.codes) ∧ f = .unencodableText := by
  unfold encodeText
  rw [← Text.utf8?_eq_none_iff]
  cases s.utf8? with
  | none => exact ⟨fun h => ⟨rfl, (Option.some.inj h).symm⟩, fun h => h.2 ▸ rfl⟩
  | some bytes => exact iff_of_false (fun h => by cases h) fun h => by cases h.1

theorem fault_encodeText_eq_none_iff {s : Text} :
    (encodeText s).fault = none ↔ ∀ i, .half i ∉ s.codes := by
  rw [← not_exists, ← not_iff_not, not_not, ← ne_eq, Option.ne_none_iff_exists']
  simp only [fault_encodeText_eq_some_iff, exists_and_left, exists_eq, and_true]

variable {t : CodecTable}

namespace CodecTable

theorem idFor_eq_ok {k : Kind} {id : Nat} : t.idFor k = .ok id ↔ t.ids.lookup k = some id := by
  refine ⟨lookup_of_idFor, fun h => ?_⟩
  unfold idFor
  rw [h]

theorem idFor_of_lookup_none {k : Kind} (h : t.ids.lookup k = none) :
    t.idFor k = .error (.unregisteredTag k.name) := by
  unfold idFor
  rw [h]

theorem objection?_of_lookup_none {v : Value} (h : t.ids.lookup v.kind = none) :
    t.objection? v = some (.unregisteredTag v.kind.name) := by
  unfold objection?
  rw [h]

theorem objection?_int {d : DomainId} {n : Int} {id : Nat} (h : t.ids.lookup .int = some id) :
    t.objection? (.mk d (.int n)) = if fitsInt64 n then none else some (unencodable (.int n)) := by
  have hkind : t.ids.lookup (Value.mk d (.int n)).kind = some id := h
  unfold objection?
  rw [hkind]
  rfl

theorem objection?_str {d : DomainId} {s : Text} {id : Nat} (h : t.ids.lookup .str = some id) :
    t.objection? (.mk d (.str s)) = (encodeText s).fault := by
  have hkind : t.ids.lookup (Value.mk d (.str s)).kind = some id := h
  unfold objection?
  rw [hkind]
  rfl

/-- Apart from integers and texts, a kind with a number is all that is wanted. -/
theorem objection?_of_lookup_some {v : Value} {id : Nat} (h : t.ids.lookup v.kind = some id)
    (hint : ∀ n, v.payload ≠ .int n) (hstr : ∀ s, v.payload ≠ .str s) : t.objection? v = none := by
  unfold objection?
  rw [h]
  dsimp only
  split
  next n hn => exact absurd hn (hint n)
  next s hs => exact absurd hs (hstr s)
  next => rfl

theorem fitsInt64_iff (n : Int) :
    fitsInt64 n = true ↔ -9223372036854775808 ≤ n ∧ n ≤ 9223372036854775807 := by
  have h63 : (1 <<< 63 : Nat) = 9223372036854775808 := by decide
  unfold fitsInt64
  rw [h63, decide_eq_true_iff]
  omega

/-- There is no objection just to the nodes that can be written. -/
theorem objection?_eq_none_iff {v : Value} : t.objection? v = none ↔ t.Takes v := by
  rcases hid : t.ids.lookup v.kind with _ | id
  · rw [objection?_of_lookup_none hid]
    refine iff_of_false (fun h => by cases h) fun h => ?_
    obtain ⟨id, hnumber⟩ := h.number
    rw [idFor_of_lookup_none hid] at hnumber
    cases hnumber
  · have hnumber : ∃ id, t.idFor v.kind = .ok id := ⟨id, idFor_eq_ok.2 hid⟩
    by_cases hint : ∃ n, v.payload = .int n
    · obtain ⟨d, p⟩ := v
      obtain ⟨n, rfl : p = .int n⟩ := hint
      rw [objection?_int hid, ite_eq_left_iff]
      refine ⟨fun h => ⟨hnumber, fun m hm => ?_, fun s hs => (nomatch hs)⟩, fun h hfits => ?_⟩
      · cases hm
        by_contra hrange
        cases h fun hfits => hrange ((fitsInt64_iff n).1 hfits)
      · exact absurd ((fitsInt64_iff n).2 (h.integer n rfl)) hfits
    by_cases hstr : ∃ s, v.payload = .str s
    · obtain ⟨d, p⟩ := v
      obtain ⟨s, rfl : p = .str s⟩ := hstr
      rw [objection?_str hid, fault_encodeText_eq_none_iff]
      refine ⟨fun h => ⟨hnumber, fun n hn => (nomatch hn), fun r hr => ?_⟩, fun h => h.text s rfl⟩
      cases hr
      exact h
    · rw [objection?_of_lookup_some hid (fun n hn => hint ⟨n, hn⟩) fun s hs => hstr ⟨s, hs⟩]
      exact ⟨fun _ => ⟨hnumber, fun n hn => absurd ⟨n, hn⟩ hint, fun s hs => absurd ⟨s, hs⟩ hstr⟩, fun _ => rfl⟩

/-- **The three kinds of objection.** An integer out of range can have too many digits to be quoted. -/
theorem objection?_cases {v : Value} {f : Fault} (h : t.objection? v = some f) :
    ((∀ id, t.idFor v.kind ≠ .ok id) ∧ f = .unregisteredTag v.kind.name) ∨
      (∃ n, v.payload = .int n ∧ ¬ (-9223372036854775808 ≤ n ∧ n ≤ 9223372036854775807) ∧
        ((∃ s, showInt n = .ok s ∧ f = .unencodable s) ∨ (Integer.hasText n = false ∧ f = .tooManyDigits))) ∨
      ∃ s, v.payload = .str s ∧ (∃ i, .half i ∈ s.codes) ∧ f = .unencodableText := by
  unfold objection? at h
  split at h
  next hid =>
    cases h
    refine .inl ⟨fun id hok => ?_, rfl⟩
    rw [idFor_of_lookup_none hid] at hok
    cases hok
  next =>
    split at h
    next n hn =>
      split_ifs at h with hfits
      obtain rfl := Option.some.inj h
      exact .inr (.inl ⟨n, hn, fun hrange => hfits ((fitsInt64_iff n).2 hrange), unencodable_int_cases n⟩)
    next s hs => exact .inr (.inr ⟨s, hs, fault_encodeText_eq_some_iff.1 h⟩)
    next => cases h

end CodecTable

open CodecTable

/-! ### The first objection -/

theorem Written.fault_andThen (u w : Written) : (u.andThen w).fault = u.fault.or w.fault := by
  obtain ⟨bytes, _ | f⟩ := u <;> rfl

theorem fault_writeInt (n : Int) :
    (ScalarCodec.int.write (.int n)).fault = if fitsInt64 n then none else some (unencodable (.int n)) := by
  have hwrite : ScalarCodec.int.write (.int n) =
    if fitsInt64 n then Written.ok (encodeInt n) else .fail (unencodable (.int n)) := rfl
  rw [hwrite]
  split_ifs <;> rfl

/-- **Writing ends in the first objection among the nodes**, or in none. -/
theorem fault_writeValue (ht : t.Encodes) : ∀ v : Value, v.Formed →
    (writeValue t v).fault = v.nodes.findSome? t.objection?
  | .mk d p, hv => by
    rw [writeValue_eq]
    rcases hid : t.ids.lookup p.kind with _ | id
    · -- nothing is written of a node without a number, and the node is the first
      have hobjection : t.objection? (.mk d p) = some (.unregisteredTag p.kind.name) :=
        objection?_of_lookup_none hid
      obtain ⟨rest, hnodes⟩ := (Value.mk d p).nodes_eq_cons
      rw [idFor_of_lookup_none hid, hnodes, List.findSome?_cons, hobjection]
      rfl
    · rw [idFor_eq_ok.2 hid]
      dsimp only
      rw [Written.fault_andThen]
      have hkind := ht p.kind id hid
      have hleaf : (Value.mk d p).nodes = [.mk d p] →
          (Value.mk d p).nodes.findSome? t.objection? = t.objection? (.mk d p) := fun hnodes => by
        rw [hnodes, List.findSome?_singleton]
      have hnone : (∀ n, p ≠ .int n) → (∀ s, p ≠ .str s) → t.objection? (.mk d p) = none :=
        objection?_of_lookup_some (v := .mk d p) hid
      cases p with
      | int n => exact (fault_writeInt n).trans ((objection?_int hid).symm.trans (hleaf rfl).symm)
      | str s => exact (objection?_str hid).symm.trans (hleaf rfl).symm
      | cons a b =>
        have ha := fault_writeValue ht a hv.1
        have hb := fault_writeValue ht b hv.2
        have hpair := hnone (fun n h => by cases h) fun s h => by cases h
        rw [Value.nodes, List.findSome?_cons, hpair, List.findSome?_append, ← ha, ← hb]
        exact Written.fault_andThen _ _
      | float | bool | null =>
        exact (hnone (fun n h => by cases h) fun s h => by cases h).symm.trans (hleaf rfl).symm
      | code | callable | object => simp [Payload.kind, encodedKinds] at hkind
      | host k => rcases hv with rfl | rfl <;> simp [Payload.kind, encodedKinds] at hkind

/-! ### There and back -/

/-- **Which values are written, and that these are read back.** Under a table that has been loaded a value is
written exactly if every node can be: its kind has a number, an integer fits and no half of a surrogate pair is in a
text. Otherwise writing ends in the fault of the first node that cannot, which is the configuration's for a kind
without a number; the data store's for an integer that does not fit, unless that has too many digits to be quoted;
and the host's for half of a pair. What has been written is read back, in whatever domain and before whatever
follows, if the numbers of its kinds and the sizes of its texts are such as can be read. -/
theorem value_round_trip (old : CodecTable) (entries : List (Data × Data)) {v : Value} (hv : v.Formed) :
    let t := (old.load entries).2
    ((writeValue t v).fault = none ↔ ∀ n ∈ v.nodes, t.Takes n) ∧
    (∀ f, (writeValue t v).fault = some f → ∃ before n after, v.nodes = before ++ n :: after ∧
      (∀ m ∈ before, t.Takes m) ∧
      (((∀ id, t.idFor n.kind ≠ .ok id) ∧ f = .unregisteredTag n.kind.name ∧ f.category = .configuration) ∨
        (∃ i, n.payload = .int i ∧ ¬ (-9223372036854775808 ≤ i ∧ i ≤ 9223372036854775807) ∧
          ((∃ s, showInt i = .ok s ∧ f = .unencodable s ∧ f.category = .dataStore) ∨
            (Integer.hasText i = false ∧ f = .tooManyDigits))) ∨
        ∃ s, n.payload = .str s ∧ (∃ i, .half i ∈ s.codes) ∧ f = .unencodableText ∧
          f.category = .hostEncoding)) ∧
    ∀ bytes, writeValue t v = .ok bytes → t.ReadableFor v → v.ShortTexts → ∀ (e : DomainId) (rest : Bytes),
      ∃ w, v.Same w ∧ (readValue t e).outcome (bytes ++ rest) = (.ok w, rest) := by
  intro t
  have hfault := fault_writeValue (encodes_load old entries) v hv
  refine ⟨?_, fun f hf => ?_, fun bytes hbytes hids hshort e rest => ?_⟩
  · rw [hfault, List.findSome?_eq_none_iff]
    exact forall₂_congr fun n _ => objection?_eq_none_iff
  · rw [hfault, List.findSome?_eq_some_iff] at hf
    obtain ⟨before, n, after, hnodes, hn, hbefore⟩ := hf
    refine ⟨before, n, after, hnodes, fun m hm => objection?_eq_none_iff.1 (hbefore m hm), ?_⟩
    rcases objection?_cases hn with ⟨hnumber, rfl⟩ | ⟨i, hi, hrange, ⟨s, hs, rfl⟩ | htext⟩ | ⟨s, hs, hhalf, rfl⟩
    · exact .inl ⟨hnumber, rfl, rfl⟩
    · exact .inr (.inl ⟨i, hi, hrange, .inl ⟨s, hs, rfl, rfl⟩⟩)
    · exact .inr (.inl ⟨i, hi, hrange, .inr htext⟩)
    · exact .inr (.inr ⟨s, hs, hhalf, rfl, rfl⟩)
  · obtain ⟨w, hsame, hread⟩ := reads_value (consistent_load old entries) e hids hbytes hshort
    exact ⟨w, hsame, hread rest⟩

/-- A list of one number, and a byte behind it. -/
theorem value_round_trip_list :
    let t := (CodecTable.empty.load [(.str "int", .int 1), (.str "null", .int 2), (.str "cons", .int 3)]).2
    let v : Value := .mk 0 (.cons (.mk 0 (.int 7)) (.mk 0 .null))
    let bytes : Bytes := [3, 1, 0, 0, 0, 0, 0, 0, 0, 7, 2]
    v.Formed ∧ writeValue t v = .ok bytes ∧ t.ReadableFor v ∧ v.ShortTexts ∧
      ∃ w, v.Same w ∧ (readValue t 0).outcome (bytes ++ [5]) = (.ok w, [5]) := by
  intro t v bytes
  have hformed : v.Formed := ⟨trivial, trivial⟩
  have hwrite : writeValue t v = .ok bytes := by
    have hparts : writeValue t v = (LengthCode.write (3 : Nat)).andThen
      (((LengthCode.write (1 : Nat)).andThen (.ok (encodeInt 7))).andThen
        ((LengthCode.write (2 : Nat)).andThen (.ok []))) := rfl
    rw [hparts, write_natCast, write_natCast, write_natCast, LengthCode.encode_of_lt (by decide),
      LengthCode.encode_of_lt (by decide), LengthCode.encode_of_lt (by decide)]
    rfl
  have hids : t.ReadableFor v := CodecTable.Readable.for (by unfold CodecTable.Readable; decide) v
  have hshort : v.ShortTexts := ⟨trivial, trivial⟩
  obtain ⟨-, -, hread⟩ := value_round_trip CodecTable.empty
    [(.str "int", .int 1), (.str "null", .int 2), (.str "cons", .int 3)] hformed
  exact ⟨hformed, hwrite, hids, hshort, hread bytes hwrite hids hshort 0 [5]⟩

/-- **An integer that does not fit can end writing in a fault that is none of the data store's**: it has too many
digits for the message. -/
theorem writeValue_large :
    let t := (CodecTable.empty.load [(.str "int", .int 1)]).2
    let v : Value := .mk 0 (.int (Int.ofNat (Nat.pow 10 4300)))
    v.Formed ∧ t.idFor v.kind = .ok 1 ∧ (writeValue t v).fault = some .tooManyDigits ∧
      Fault.tooManyDigits.category ≠ .dataStore := by
  intro t v
  have hfault := fault_writeValue (encodes_load CodecTable.empty [(.str "int", .int 1)]) v trivial
  refine ⟨trivial, rfl, ?_, by decide⟩
  rw [hfault]
  decide +kernel

/-- Nor is the fault of half a surrogate pair, which has no bytes. -/
example :
    let t := (CodecTable.empty.load [(.str "str", .int 1)]).2
    let v : Value := .mk 0 (.str ⟨[.half 0]⟩)
    (writeValue t v).fault = some .unencodableText ∧ Fault.unencodableText.category ≠ .dataStore := by
  intro t v
  have hfault := fault_writeValue (encodes_load CodecTable.empty [(.str "str", .int 1)]) v trivial
  refine ⟨hfault.trans ?_, by decide⟩
  decide +kernel

end Wire

end StackCalc
