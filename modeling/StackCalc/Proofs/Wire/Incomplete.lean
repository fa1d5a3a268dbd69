import StackCalc.Proofs.Wire.Malformed
import StackCalc.Proofs.Wire.Record

/-! # Incomplete records

Whatever is written ends where its reader finds the end of it. `Delimits r w` says this of a reader and of
what has been written, with or without a fault: a part of the bytes is refused, with a fault of the data
store, and so are all of them if a fault ended the writing; if none did, then the reader takes exactly the
bytes, whatever follows them, unless it refuses them too. This passes through sequences, since a fault ends
the writing before the next part begins, so it is proved of each codec and then of values along their
structure, of entries and of records.

A number may be too large to be read back from its code: with such a number for its kind a value is refused
although it has been written without a fault. -/

namespace StackCalc

/-- The containers of the host among the leaves of a tree of pairs are lists and mappings. -/
def Value.Formed : Value → Prop
  | .mk _ (.cons a b) => a.Formed ∧ b.Formed
  | .mk _ (.host k _ _) => k = .hostList ∨ k = .hostMap
  | _ => True

namespace Wire

namespace Reader

variable {α β : Type}

/-! ### Refusing -/

/-- **The reader ends in a fault of the data store.** -/
def Refuses (r : Reader α) (s : Bytes) : Prop :=
  ∃ f rest, r.outcome s = (.error f, rest) ∧ f.category = .dataStore

namespace Refuses

theorem throw {f : Fault} (h : f.category = .dataStore) (s : Bytes) : Refuses (throw f : Reader α) s :=
  ⟨f, s, rfl, h⟩

/-- A sequence is refused by its first part. -/
theorem bind {r : Reader α} {s : Bytes} (h : Refuses r s) (k : α → Reader β) : Refuses (r >>= k) s := by
  obtain ⟨f, rest, hr, hf⟩ := h
  exact ⟨f, rest, outcome_bind_of_error hr, hf⟩

/-- A sequence is refused by its second part, if that is reached. -/
theorem bind_of_ok {r : Reader α} {k : α → Reader β} {s rest : Bytes} {a : α}
    (h : r.outcome s = (.ok a, rest)) (hk : Refuses (k a) rest) : Refuses (r >>= k) s := by
  obtain ⟨f, rest', hr, hf⟩ := hk
  exact ⟨f, rest', by rw [outcome_bind_of_ok h, hr], hf⟩

theorem byte_nil : Refuses byte [] := ⟨.endOfStream 1 0, [], rfl, rfl⟩

/-- Fewer bytes than are asked for. -/
theorem bytes {count : Nat} {s : Bytes} (hcount : count < sizeLimit) (hs : s.length < count) :
    Refuses (bytes count) s := by
  have htake : (s.take count).length ≠ count := by
    rw [List.length_take]
    omega
  exact ⟨_, _, by rw [outcome_bytes, if_neg (by omega), if_neg htake], rfl⟩

end Refuses

/-! ### Finding the end -/

/-- **What has been written ends where the reader finds the end of it.** -/
structure Delimits (r : Reader α) (w : Written) : Prop where
  /-- A part is refused, and the whole too if a fault ended the writing. -/
  refuses : ∀ part, part <+: w.bytes → (part = w.bytes → w.fault ≠ none) → r.Refuses part
  /-- The whole is taken exactly, if it is taken at all. -/
  takes : w.fault = none → ∀ rest, r.Refuses (w.bytes ++ rest) ∨ ∃ a, r.outcome (w.bytes ++ rest) = (.ok a, rest)

namespace Delimits

/-- What reads nothing, where nothing has been written. -/
theorem pure (a : α) : Delimits (Pure.pure a) (.ok []) where
  refuses := fun _ hpart hwhole => absurd rfl (hwhole (List.prefix_nil.1 hpart))
  takes := fun _ _ => .inr ⟨a, rfl⟩

/-- Nothing has been written, and there was a fault. -/
theorem fail {r : Reader α} (h : r.Refuses []) (f : Fault) : Delimits r (.fail f) where
  refuses := fun part hpart _ => by
    obtain rfl : part = [] := List.prefix_nil.1 hpart
    exact h
  takes := fun hnone => by cases hnone

/-- **One after the other**: where the first part ends, the second begins. -/
theorem bind {r : Reader α} {k : α → Reader β} {u v : Written} (h : Delimits r u)
    (hk : ∀ a rest, r.outcome (u.bytes ++ rest) = (.ok a, rest) → Delimits (k a) v) :
    Delimits (r >>= k) (u.andThen v) := by
  obtain ⟨bytes, fault⟩ := u
  cases fault with
  | some f =>
    have hstop : Written.andThen ⟨bytes, some f⟩ v = ⟨bytes, some f⟩ := rfl
    rw [hstop]
    exact ⟨fun part hpart hwhole => (h.refuses part hpart hwhole).bind k, fun hnone => by cases hnone⟩
  | none =>
    have hgoes : Written.andThen ⟨bytes, none⟩ v = ⟨bytes ++ v.bytes, v.fault⟩ := rfl
    rw [hgoes]
    -- the sequence on a stream that begins with the first part
    have hsecond : ∀ rest, (∀ a, r.outcome (bytes ++ rest) = (.ok a, rest) → (k a).Refuses rest) →
        (r >>= k).Refuses (bytes ++ rest) := fun rest hrest => by
      rcases h.takes rfl rest with hrefuses | ⟨a, ha⟩
      · exact hrefuses.bind k
      · exact Refuses.bind_of_ok ha (hrest a ha)
    refine ⟨fun part hpart hwhole => ?_, fun hnone rest => ?_⟩
    · by_cases hfirst : part <+: bytes ∧ part ≠ bytes
      · exact (h.refuses part hfirst.1 fun heq => absurd heq hfirst.2).bind k
      · obtain ⟨second, rfl⟩ : bytes <+: part := by
          rcases List.prefix_or_prefix_of_prefix hpart (List.prefix_append bytes v.bytes) with hle | hle
          · rw [not_and_not_right] at hfirst
            exact hfirst hle ▸ List.prefix_refl part
          · exact hle
        have hprefix := (List.prefix_append_right_inj bytes).1 hpart
        refine hsecond second fun a ha => (hk a second ha).refuses second hprefix fun heq => ?_
        exact hwhole (congrArg (bytes ++ ·) heq)
    · rw [List.append_assoc]
      rcases h.takes rfl (v.bytes ++ rest) with hrefuses | ⟨a, ha⟩
      · exact .inl (hrefuses.bind k)
      · rcases (hk a _ ha).takes hnone rest with hrefuses | ⟨b, hb⟩
        · exact .inl (Refuses.bind_of_ok ha hrefuses)
        · exact .inr ⟨b, by rw [outcome_bind_of_ok ha, hb]⟩

theorem map {r : Reader α} {w : Written} (h : Delimits r w) (g : α → β) : Delimits (do return g (← r)) w := by
  have hb := h.bind (v := .ok []) fun a _ _ => pure (g a)
  have hnil : w.andThen (.ok []) = w := by
    obtain ⟨bytes, _ | f⟩ := w
    · exact congrArg (Written.mk · none) (List.append_nil bytes)
    · rfl
  rwa [hnil] at hb

/-- A computation that is no reading. -/
theorem lift_bind {x : Except Fault α} {k : α → Reader β} {a : α} {w : Written} (hx : x = .ok a)
    (hk : Delimits (k a) w) : Delimits ((liftM x : Reader α) >>= k) w := by
  subst hx
  exact hk

/-- So many bytes. -/
theorem bytes {s : Bytes} (h : s.length < sizeLimit) : Delimits (bytes s.length) (.ok s) where
  refuses := fun part hpart hwhole => by
    have hne : part.length ≠ s.length := fun hlen => hwhole (hpart.eq_of_length hlen) rfl
    exact Refuses.bytes h (Nat.lt_of_le_of_ne hpart.length_le hne)
  takes := fun _ rest => .inr ⟨s, Reads.bytes h rest⟩

theorem byte (b : UInt8) : Delimits byte (.ok [b]) where
  refuses := fun part hpart hwhole => by
    have hne : part.length ≠ 1 := fun hlen => hwhole (hpart.eq_of_length hlen) rfl
    have hle : part.length ≤ 1 := hpart.length_le
    obtain rfl : part = [] := List.length_eq_zero_iff.1 (by omega)
    exact Refuses.byte_nil
  takes := fun _ rest => .inr ⟨b, rfl⟩

end Delimits

end Reader

open Reader (Refuses Delimits)

/-! ### Scalars -/

namespace LengthCode

/-- What is read of a code is the number, if it is read at all. -/
theorem readGroups_encode_ok : ∀ (fuel n : Nat) {rest rest' : Bytes} {a : Nat},
    (readGroups fuel).outcome (encode n ++ rest) = (.ok a, rest') → a = n
  | 0, _, _, _, _, h => by cases h
  | fuel + 1, n, rest, rest', a, h => by
    by_cases hn : n < 128
    · rw [encode_of_lt hn, List.singleton_append, readGroups_succ, toNat_last hn, if_pos hn] at h
      cases h
      rfl
    · rw [encode_of_le (by omega), List.cons_append, readGroups_succ, toNat_group, if_neg (by omega)] at h
      rcases hr : (readGroups fuel).outcome (encode (n / 128) ++ rest) with ⟨e | m, mid⟩ <;> rw [hr] at h
      · cases h
      · obtain rfl := readGroups_encode_ok fuel (n / 128) hr
        cases h
        omega

theorem delimits_groups : ∀ fuel n : Nat, Delimits (readGroups fuel) (.ok (encode n))
  | 0, _ => ⟨fun part _ _ => Refuses.throw rfl part, fun _ _ => .inl (Refuses.throw rfl _)⟩
  | fuel + 1, n => by
    by_cases hn : n < 128
    · have hcode : Written.ok (encode n) = (Written.ok [UInt8.ofNat n]).andThen (.ok []) := by
        rw [encode_of_lt hn]
        rfl
      rw [hcode]
      refine (Delimits.byte _).bind fun b rest hb => ?_
      obtain rfl : UInt8.ofNat n = b := Except.ok.inj (congrArg Prod.fst hb)
      rw [toNat_last hn, if_pos hn]
      exact Delimits.pure n
    · have hcode : Written.ok (encode n) =
          (Written.ok [UInt8.ofNat (n % 128 + 128)]).andThen (.ok (encode (n / 128))) := by
        rw [encode_of_le (by omega)]
        rfl
      rw [hcode]
      refine (Delimits.byte _).bind fun b rest hb => ?_
      obtain rfl : UInt8.ofNat (n % 128 + 128) = b := Except.ok.inj (congrArg Prod.fst hb)
      rw [toNat_group, if_neg (by omega)]
      exact (delimits_groups fuel (n / 128)).map _

/-- What is read of a code is the number, if it is read at all. -/
theorem read_encode_ok {n a : Nat} {rest rest' : Bytes} (h : read.outcome (encode n ++ rest) = (.ok a, rest')) :
    a = n := readGroups_encode_ok maxGroups n h

/-- **The code of a number ends where it is found to end**, however large the number is. -/
theorem delimits_read (n : Nat) : Delimits read (.ok (encode n)) := delimits_groups maxGroups n

end LengthCode

/-- A word of eight bytes. -/
theorem delimits_word (n : Nat) : Delimits (Reader.bytes 8) (.ok (bigEndian 8 n)) := by
  have hlen : (bigEndian 8 n).length = 8 := length_bigEndian 8 n
  have hbytes := Delimits.bytes (s := bigEndian 8 n) (by rw [hlen]; decide)
  rwa [hlen] at hbytes

/-- An integer that is out of range is not written. -/
theorem delimits_int (n : Int) : Delimits readInt (ScalarCodec.int.write (.int n)) := by
  have hwrite : ScalarCodec.int.write (.int n) =
    if fitsInt64 n then Written.ok (encodeInt n) else .fail (unencodable (.int n)) := rfl
  rw [hwrite]
  split_ifs
  · exact (delimits_word _).map fun s => decodeInt (ofBigEndian s)
  · exact Delimits.fail ((Refuses.bytes (by decide) (by decide)).bind _) _

theorem delimits_float (x : Binary64) : Delimits readFloat (.ok (encodeFloat x)) :=
  (delimits_word _).map fun s => (⟨UInt64.ofNat (ofBigEndian s)⟩ : Binary64)

theorem delimits_bool (b : Bool) : Delimits readBool (.ok (encodeBool b)) := by
  refine (Delimits.byte (if b then 1 else 0)).bind (v := .ok []) fun a rest ha => ?_
  obtain rfl : (if b then 1 else 0) = a := Except.ok.inj (congrArg Prod.fst ha)
  cases b <;> exact Delimits.pure _

/-- A text, if its bytes can be asked for. -/
theorem delimits_text {s : Text} (h : IsShort s) : Delimits readText (encodeText s) := by
  rcases hs : s.string? with _ | t
  · have hwrite : encodeText s = .fail .unencodableText := by rw [encodeText, Text.utf8?, hs]; rfl
    rw [hwrite]
    exact Delimits.fail ((Refuses.byte_nil.bind _).bind _) _
  obtain rfl := Text.eq_ofString_of_string? hs
  have hlength : t.toUTF8.toList.length < Reader.sizeLimit := h _ (by rw [Text.utf8?, hs]; rfl)
  have hcode : Written.ok (LengthCode.encode t.toUTF8.toList.length ++ t.toUTF8.toList) =
      (Written.ok (LengthCode.encode t.toUTF8.toList.length)).andThen
        ((Written.ok t.toUTF8.toList).andThen (.ok [])) := by
    rw [Written.ok_andThen, Written.ok_andThen]
    exact congrArg (fun bytes => Written.ok (_ ++ bytes)) (List.append_nil _).symm
  rw [encodeText_eq_ok_iff.2 ⟨t, rfl, rfl⟩, hcode]
  refine (LengthCode.delimits_read _).bind fun size rest hsize => ?_
  obtain rfl := LengthCode.read_encode_ok hsize
  refine (Delimits.bytes hlength).bind fun taken rest htaken => ?_
  obtain rfl : t.toUTF8.toList = taken :=
    Except.ok.inj (congrArg Prod.fst ((Reader.Reads.bytes hlength rest).symm.trans htaken))
  rw [fromUTF8?_toUTF8]
  exact Delimits.pure _

/-! ### Values -/

section Values

variable {t : CodecTable}

/-- **The bytes of a value end where the value is found to end**, at whatever depth the writing may have
stopped. -/
theorem delimits_value (ht : t.Consistent) (hkinds : t.Encodes) (e : DomainId) : ∀ v : Value,
    v.ShortTexts → v.Formed → Delimits (readValue t e) (writeValue t v)
  | .mk d p, hshort, hformed => by
    rw [readValue_eq, writeValue_eq]
    rcases hid : t.idFor p.kind with f | id
    · exact Delimits.fail ((Refuses.byte_nil.bind _).bind _) f
    · refine (LengthCode.delimits_read id).bind fun id' rest hread => ?_
      obtain rfl := LengthCode.read_encode_ok hread
      refine Delimits.lift_bind (kindOnWire_of_idFor ht hid) ?_
      have hkind := hkinds _ _ (CodecTable.lookup_of_idFor hid)
      cases p with
      | int n => exact (delimits_int n).map fun n => Value.mk e (.int n)
      | float x i => exact (delimits_float x).map fun x => Value.mk e (.float x 0)
      | str s => exact (delimits_text hshort).map fun s => Value.mk e (.str s)
      | bool b => exact (delimits_bool b).map fun b => Value.mk e (.bool b)
      | null => exact Delimits.pure _
      | cons a b =>
        refine (delimits_value ht hkinds e a hshort.1 hformed.1).bind fun a' _ _ => ?_
        exact (delimits_value ht hkinds e b hshort.2 hformed.2).map fun b' => Value.mk e (.cons a' b')
      | code | callable | object => simp [Payload.kind, encodedKinds] at hkind
      | host k => rcases hformed with rfl | rfl <;> simp [Payload.kind, encodedKinds] at hkind

end Values

/-! ### Records -/

section Records

variable {t : CodecTable}

theorem Written.andThen_assoc (u v w : Written) : (u.andThen v).andThen w = u.andThen (v.andThen w) := by
  obtain ⟨bytes, _ | f⟩ := u
  · obtain ⟨bytes', _ | f⟩ := v
    · exact congrArg (Written.mk · w.fault) (List.append_assoc bytes bytes' w.bytes)
    · rfl
  · rfl

/-- The entries end where the last of so many is found to end. -/
theorem delimits_entries (ht : t.Consistent) (hkinds : t.Encodes) (d : DomainId) :
    ∀ (entries store : Bindings),
      (∀ e ∈ entries, IsShort e.1 ∧ e.2.ShortTexts ∧ e.2.Formed) →
      Delimits (readEntries (· == ·) readText (readValue t d) entries.length store) (writeEntries t entries)
  | [], store, _ => Delimits.pure store
  | (name, v) :: entries, store, h => by
    obtain ⟨hname, hshort, hformed⟩ := h (name, v) List.mem_cons_self
    have hwrite : writeEntries t ((name, v) :: entries) =
        (encodeText name).andThen ((writeValue t v).andThen (writeEntries t entries)) :=
      Written.andThen_assoc _ _ _
    rw [hwrite]
    refine (delimits_text hname).bind fun name' _ _ => ?_
    refine (delimits_value ht hkinds d v hshort hformed).bind fun v' _ _ => ?_
    exact delimits_entries ht hkinds d entries _ fun e he => h e (List.mem_cons_of_mem _ he)

/-- **A record ends where it is found to end.** -/
theorem delimits_record (ht : t.Consistent) (hkinds : t.Encodes) (d : DomainId) {entries : Bindings}
    (h : ∀ e ∈ entries, IsShort e.1 ∧ e.2.ShortTexts ∧ e.2.Formed) :
    Delimits (readRecord (· == ·) readText (readValue t d))
      (writeRecord encodeText (writeValue t) entries) := by
  unfold writeRecord
  rw [write_natCast]
  refine (LengthCode.delimits_read _).bind fun size rest hread => ?_
  obtain rfl := LengthCode.read_encode_ok hread
  exact (delimits_entries ht hkinds d entries [] h).map fun store => (entries.length, store)

end Records

end Wire

end StackCalc
