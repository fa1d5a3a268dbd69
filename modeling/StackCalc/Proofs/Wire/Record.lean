import StackCalc.Proofs.Wire.CodecTable
import StackCalc.Proofs.Wire.Scalar
import StackCalc.Wire.ValueCodec
import StackCalc.Scope

/-! # Values and records read back

A value that has been written is read back as the same one (`Value.Same`), up to the domain that owns it
and the cells of what is not a number. A record of values is read back entry by entry. Each level takes
exactly the bytes that were written for it, so nothing is said about what follows a record. -/

namespace StackCalc

/-- **The same kinds and payloads**, in whatever domain. -/
inductive Value.Same : Value → Value → Prop where
  | int (d e : DomainId) (n : Int) : Same (.mk d (.int n)) (.mk e (.int n))
  | float (d e : DomainId) (x : Binary64) (i j : Nat) : Same (.mk d (.float x i)) (.mk e (.float x j))
  | str (d e : DomainId) (s : Text) : Same (.mk d (.str s)) (.mk e (.str s))
  | bool (d e : DomainId) (b : Bool) : Same (.mk d (.bool b)) (.mk e (.bool b))
  | null (d e : DomainId) : Same (.mk d .null) (.mk e .null)
  | cons (d e : DomainId) {a b a' b' : Value} (ha : Same a a') (hb : Same b b') :
      Same (.mk d (.cons a b)) (.mk e (.cons a' b'))

/-- The texts among the leaves of a tree of pairs have sizes that can be asked for. -/
def Value.ShortTexts : Value → Prop
  | .mk _ (.str s) => Wire.IsShort s
  | .mk _ (.cons a b) => a.ShortTexts ∧ b.ShortTexts
  | _ => True

/-- The nodes of a tree of pairs: a pair before its members, and the first member before the second. -/
def Value.nodes : Value → List Value
  | .mk d (.cons a b) => .mk d (.cons a b) :: (a.nodes ++ b.nodes)
  | v => [v]

theorem Value.nodes_eq_cons : ∀ v : Value, ∃ rest, v.nodes = v :: rest
  | .mk _ p => by
    cases p with
    | cons a b => exact ⟨a.nodes ++ b.nodes, rfl⟩
    | _ => exact ⟨[], rfl⟩

theorem Value.mem_nodes_self (v : Value) : v ∈ v.nodes := by
  obtain ⟨rest, hnodes⟩ := v.nodes_eq_cons
  rw [hnodes]
  exact List.mem_cons_self

/-- The same names in the same order, with the same values. -/
def Bindings.Same (b b' : Bindings) : Prop :=
  List.Forall₂ (fun e e' => e.1 = e'.1 ∧ e.2.Same e'.2) b b'

namespace Wire

open Reader (Reads)

namespace Written

/-- What has been written without a fault has been written part by part. -/
theorem andThen_eq_ok {a b : Written} {bytes : Bytes} (h : a.andThen b = ok bytes) :
    ∃ s t, a = ok s ∧ b = ok t ∧ bytes = s ++ t := by
  obtain ⟨s, f⟩ := a
  obtain ⟨t, g⟩ := b
  cases f with
  | some f => cases h
  | none =>
    cases g with
    | some g => cases h
    | none =>
      cases h
      exact ⟨s, t, rfl, rfl, rfl⟩

end Written

namespace CodecTable

/-- Every number of the table can be read back. -/
def Readable (t : CodecTable) : Prop := ∀ e ∈ t.ids, e.2 < LengthCode.limit

/-- The numbers that the nodes of a value are written with can be read back. -/
def ReadableFor (t : CodecTable) (v : Value) : Prop :=
  ∀ n ∈ v.nodes, ∀ id, t.idFor n.kind = .ok id → id < LengthCode.limit

theorem Readable.lt {t : CodecTable} (ht : t.Readable) {k : Kind} {id : Nat} (h : t.idFor k = .ok id) :
    id < LengthCode.limit := by
  obtain ⟨before, after, hids, -⟩ := List.lookup_eq_some_iff.1 (lookup_of_idFor h)
  exact ht (k, id) (by rw [hids]; simp)

theorem Readable.for {t : CodecTable} (ht : t.Readable) (v : Value) : t.ReadableFor v := fun _ _ _ => ht.lt

/-- The number of the whole comes first. -/
theorem ReadableFor.root {t : CodecTable} {d : DomainId} {p : Payload} (ht : t.ReadableFor (.mk d p)) {id : Nat}
    (h : t.idFor p.kind = .ok id) : id < LengthCode.limit := ht (.mk d p) (Value.mem_nodes_self _) id h

theorem ReadableFor.members {t : CodecTable} {d : DomainId} {a b : Value}
    (ht : t.ReadableFor (.mk d (.cons a b))) : t.ReadableFor a ∧ t.ReadableFor b :=
  ⟨fun n hn => ht n (List.mem_cons_of_mem _ (List.mem_append_left _ hn)),
    fun n hn => ht n (List.mem_cons_of_mem _ (List.mem_append_right _ hn))⟩

end CodecTable

/-! ### Values -/

section Values

variable {t : CodecTable}

theorem kindOnWire_of_idFor (ht : t.Consistent) {k : Kind} {id : Nat} (h : t.idFor k = .ok id) :
    kindOnWire t id = .ok k := by
  unfold kindOnWire
  rw [ht.tagFor h]

theorem write_natCast (n : Nat) : LengthCode.write n = .ok (LengthCode.encode n) := by
  unfold LengthCode.write
  rw [if_neg (by omega), Int.toNat_natCast]

/-- A payload follows the number of its kind: reading goes on with what reads payloads of the kind. -/
theorem reads_kind (ht : t.Consistent) {d : DomainId} {fuel id : Nat} {k : Kind} {v : Value} {payload : Bytes}
    (hid : t.idFor k = .ok id) (hlt : id < LengthCode.limit)
    (h : Reads (readPayload d (readNested t d fuel) k) v payload) :
    Reads (readNested t d (fuel + 1)) v (LengthCode.encode id ++ payload) :=
  (LengthCode.reads_encode hlt).bind (Reads.lift_bind (kindOnWire_of_idFor ht hid) h)

/-- What follows the number of the kind. -/
def writePayload (t : CodecTable) (d : DomainId) : Payload → Written
  | .int n => ScalarCodec.int.write (.int n)
  | .float x _ => .ok (encodeFloat x)
  | .str s => encodeText s
  | .bool b => .ok (encodeBool b)
  | .null => .ok []
  | .cons a b => (writeValue t a).andThen (writeValue t b)
  | p => .fail ((Value.mk d p).wrongKind Naming.standard .null (some "codec payload"))

/-- The number of the kind comes first; a kind without a number is not written. -/
theorem writeValue_eq (d : DomainId) (p : Payload) : writeValue t (.mk d p) =
    match t.idFor p.kind with
    | .error f => .fail f
    | .ok id => (Written.ok (LengthCode.encode id)).andThen (writePayload t d p) := by
  rw [writeValue.eq_def]
  rcases hid : t.idFor p.kind with f | id <;> simp only [hid]
  rw [write_natCast]
  rfl

/-- The bytes of a value: the number of its kind, and those of its payload. -/
theorem writeValue_eq_ok {d : DomainId} {p : Payload} {bytes : Bytes}
    (h : writeValue t (.mk d p) = .ok bytes) :
    ∃ id payload, t.idFor p.kind = .ok id ∧ writePayload t d p = .ok payload ∧
      bytes = LengthCode.encode id ++ payload := by
  rw [writeValue_eq] at h
  rcases hid : t.idFor p.kind with f | id <;> simp only [hid] at h
  · cases h
  · obtain ⟨s, payload, hs, hp, rfl⟩ := Written.andThen_eq_ok h
    cases hs
    exact ⟨id, payload, rfl, hp, rfl⟩

theorem writePayload_int {d : DomainId} {n : Int} {payload : Bytes}
    (h : writePayload t d (.int n) = .ok payload) : fitsInt64 n = true ∧ payload = encodeInt n := by
  have hw : (if fitsInt64 n then Written.ok (encodeInt n) else .fail (unencodable (.int n))) =
      .ok payload := h
  split_ifs at hw with hfits
  · cases hw
    exact ⟨hfits, rfl⟩
  · cases hw

/-- **A value is read back as the same one**, at any depth that its bytes leave room for. -/
theorem reads_nested (ht : t.Consistent) (e : DomainId) : ∀ (v : Value) {bytes : Bytes},
    t.ReadableFor v → writeValue t v = .ok bytes → v.ShortTexts →
    ∃ w, v.Same w ∧ ∀ fuel, bytes.length ≤ fuel → Reads (readNested t e fuel) w bytes
  | .mk d p, bytes, hids, h, hshort => by
    obtain ⟨id, payload, hid, hp, rfl⟩ := writeValue_eq_ok h
    have hpos := LengthCode.length_encode_pos id
    -- there is room for the number of the kind, so there is a level to read the payload at
    suffices hw : ∃ w, (Value.mk d p).Same w ∧ ∀ fuel, payload.length ≤ fuel →
        Reads (readPayload e (readNested t e fuel) p.kind) w payload by
      obtain ⟨w, hsame, hread⟩ := hw
      refine ⟨w, hsame, fun fuel hfuel => ?_⟩
      rw [List.length_append] at hfuel
      obtain ⟨fuel, rfl⟩ : ∃ fuel', fuel = fuel' + 1 := ⟨fuel - 1, by omega⟩
      exact reads_kind ht hid (hids.root hid) (hread fuel (by omega))
    cases p with
    | int n =>
      obtain ⟨hfits, rfl⟩ := writePayload_int hp
      exact ⟨_, .int d e n, fun _ _ => (reads_int hfits).map fun n => Value.mk e (.int n)⟩
    | float x i =>
      cases hp
      exact ⟨_, .float d e x i 0, fun _ _ => (reads_float x).map fun x => Value.mk e (.float x 0)⟩
    | str s =>
      exact ⟨_, .str d e s, fun _ _ => (reads_text hp hshort).map fun s => Value.mk e (.str s)⟩
    | bool b =>
      cases hp
      exact ⟨_, .bool d e b, fun _ _ => (reads_bool b).map fun b => Value.mk e (.bool b)⟩
    | null =>
      cases hp
      exact ⟨_, .null d e, fun _ _ => Reads.pure _⟩
    | cons a b =>
      obtain ⟨s, u, hs, hu, rfl⟩ := Written.andThen_eq_ok hp
      obtain ⟨a', hsame_a, hread_a⟩ := reads_nested ht e a hids.members.1 hs hshort.1
      obtain ⟨b', hsame_b, hread_b⟩ := reads_nested ht e b hids.members.2 hu hshort.2
      refine ⟨_, .cons d e hsame_a hsame_b, fun fuel hfuel => ?_⟩
      rw [List.length_append] at hfuel
      exact (hread_a fuel (by omega)).bind
        ((hread_b fuel (by omega)).map fun b => Value.mk e (.cons a' b))
    | code | callable | object | host => cases hp

/-- **A value is read back as the same one.** -/
theorem reads_value (ht : t.Consistent) (e : DomainId) {v : Value} {bytes : Bytes} (hids : t.ReadableFor v)
    (h : writeValue t v = .ok bytes) (hshort : v.ShortTexts) :
    ∃ w, v.Same w ∧ Reads (readValue t e) w bytes := by
  obtain ⟨w, hsame, hread⟩ := reads_nested ht e v hids h hshort
  refine ⟨w, hsame, fun rest => ?_⟩
  refine hread ((bytes ++ rest).length + 1) ?_ rest
  rw [List.length_append]
  omega

end Values

/-! ### Records -/

section Records

variable {t : CodecTable}

theorem storeInsert_eq_put (name : Text) (v : Value) : ∀ store : Bindings,
    storeInsert (· == ·) name v store = Bindings.put name v store
  | [] => rfl
  | (n, w) :: rest => by
    have ih := storeInsert_eq_put name v rest
    simp only [storeInsert, Bindings.put, ih]

/-- The bytes of names and values, one after the other. -/
def writeEntries (t : CodecTable) (entries : Bindings) : Written :=
  Written.all (entries.map fun e => (encodeText e.1).andThen (writeValue t e.2))

/-- **Names and values are read back**, and enter the store in order. -/
theorem reads_entries (ht : t.Consistent) (hids : t.Readable) (d : DomainId) :
    ∀ (entries : Bindings) {bytes : Bytes}, writeEntries t entries = .ok bytes →
      (∀ e ∈ entries, IsShort e.1 ∧ e.2.ShortTexts) →
      ∃ found : Bindings, entries.Same found ∧ ∀ store : Bindings,
        Reads (readEntries (· == ·) readText (readValue t d) entries.length store)
          (store.putAll found) bytes
  | [], bytes, h, _ => by
    cases h
    exact ⟨[], .nil, fun store => Reads.pure store⟩
  | (name, v) :: entries, bytes, h, hshort => by
    obtain ⟨first, rest, hfirst, hrest, rfl⟩ := Written.andThen_eq_ok h
    obtain ⟨key, value, hkey, hvalue, rfl⟩ := Written.andThen_eq_ok hfirst
    obtain ⟨hname, hv⟩ := hshort (name, v) List.mem_cons_self
    obtain ⟨w, hw, hread⟩ := reads_value ht d (hids.for v) hvalue hv
    obtain ⟨found, hfound, hreads⟩ := reads_entries ht hids d entries hrest
      fun e he => hshort e (List.mem_cons_of_mem _ he)
    refine ⟨(name, w) :: found, .cons ⟨rfl, hw⟩ hfound, fun store => ?_⟩
    rw [List.append_assoc]
    refine (reads_text hkey hname).bind (hread.bind ?_)
    rw [storeInsert_eq_put]
    exact hreads (Bindings.put name w store)

/-- **A record is read back**, if so many entries can be announced. -/
theorem reads_record (ht : t.Consistent) (hids : t.Readable) (d : DomainId) {entries : Bindings}
    {bytes : Bytes}
    (h : writeRecord encodeText (writeValue t) entries = .ok bytes)
    (hcount : entries.length < LengthCode.limit)
    (hshort : ∀ e ∈ entries, IsShort e.1 ∧ e.2.ShortTexts) :
    ∃ found : Bindings, entries.Same found ∧
      Reads (readRecord (· == ·) readText (readValue t d)) (entries.length, Bindings.putAll [] found)
        bytes := by
  unfold writeRecord at h
  rw [write_natCast] at h
  obtain ⟨size, rest, hsize, hrest, rfl⟩ := Written.andThen_eq_ok h
  cases hsize
  obtain ⟨found, hfound, hreads⟩ := reads_entries ht hids d entries hrest hshort
  refine ⟨found, hfound, (LengthCode.reads_encode hcount).bind ?_⟩
  exact (hreads []).map fun store => (entries.length, store)

end Records

end Wire

end StackCalc
