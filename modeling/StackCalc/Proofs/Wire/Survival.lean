import StackCalc.Proofs.Wire.Loading
import StackCalc.Proofs.Wire.Malformed
import StackCalc.Proofs.Wire.Record

/-! # Which numbers survive the wire

A codec table takes every number that is not negative, and every number has a code, but reading stops after
`LengthCode.maxGroups` groups. So the numbers of a table that has been loaded are divided by `LengthCode.limit`: those
below it are read back from their codes, the others are refused after the last group that is read
(`LengthCode.outcome_read_encode`). A value is read back exactly if this holds of the number of each of its nodes; if
it does not, the first node with a larger number ends the reading (`CodecTable.loaded_numbers_on_wire`). -/

namespace StackCalc.Wire

/-! ### Values with numbers that are too large -/

namespace CodecTable

variable {t : CodecTable} {d : DomainId}

/-- A value without members has one number, its own. -/
theorem ReadableFor.of_leaf {p : Payload} {id : Nat} (hid : t.idFor p.kind = .ok id) (hlt : id < LengthCode.limit)
    (hp : ∀ a b, p ≠ .cons a b) : t.ReadableFor (.mk d p) := by
  intro n hn id' hid'
  have hnode : n = .mk d p := by
    cases p with
    | cons a b => exact absurd rfl (hp a b)
    | _ => exact List.mem_singleton.1 hn
  subst hnode
  cases hid.symm.trans hid'
  exact hlt

theorem ReadableFor.pair {a b : Value} {id : Nat} (hid : t.idFor .cons = .ok id) (hlt : id < LengthCode.limit)
    (ha : t.ReadableFor a) (hb : t.ReadableFor b) : t.ReadableFor (.mk d (.cons a b)) := by
  intro n hn id' hid'
  rcases List.mem_cons.1 hn with rfl | hn
  · cases hid.symm.trans hid'
    exact hlt
  · exact (List.mem_append.1 hn).elim (fun hn => ha n hn id' hid') fun hn => hb n hn id' hid'

end CodecTable

open CodecTable (ReadableFor)

/-- **A value with a number that is too large is refused** where the first such number stands. -/
theorem outcome_readValue_of_not_readable {t : CodecTable} (ht : t.Consistent) (e : DomainId) :
    ∀ (v : Value) {bytes : Bytes}, writeValue t v = .ok bytes → v.ShortTexts → ¬ t.ReadableFor v → ∀ rest,
      ∃ rest', (readValue t e).outcome (bytes ++ rest) = (.error .longLengthCode, rest')
  | .mk d p, bytes, h, hshort, hids, rest => by
    obtain ⟨id, payload, hid, hp, rfl⟩ := writeValue_eq_ok h
    have hcode := LengthCode.outcome_read_encode id (payload ++ rest)
    rw [readValue_eq, List.append_assoc]
    split_ifs at hcode with hlt
    · rw [Reader.outcome_bind_of_ok hcode, kindOnWire_of_idFor ht hid]
      change ∃ rest', (readPayload e (readValue t e) p.kind).outcome (payload ++ rest) = (.error .longLengthCode, rest')
      -- the number of the whole is read, so a number that is too large is that of a member
      cases p with
      | cons a b =>
        obtain ⟨s, u, hs, hu, rfl⟩ := Written.andThen_eq_ok hp
        rw [List.append_assoc]
        by_cases ha : t.ReadableFor a
        · have hb : ¬ t.ReadableFor b := fun hb => hids (.pair hid hlt ha hb)
          obtain ⟨a', -, hread⟩ := reads_value ht e ha hs hshort.1
          obtain ⟨rest', hrest'⟩ := outcome_readValue_of_not_readable ht e b hu hshort.2 hb rest
          refine ⟨rest', (Reader.outcome_bind_of_ok (hread (u ++ rest))).trans ?_⟩
          exact Reader.outcome_bind_of_error hrest'
        · obtain ⟨rest', hrest'⟩ := outcome_readValue_of_not_readable ht e a hs hshort.1 ha (u ++ rest)
          exact ⟨rest', Reader.outcome_bind_of_error hrest'⟩
      | _ => exact absurd (.of_leaf hid hlt fun a b h => by cases h) hids
    · exact ⟨_, Reader.outcome_bind_of_error hcode⟩

/-! ### Numbers that have been loaded -/

namespace CodecTable

/-- Every entry that has been made gives a number to a kind. -/
theorem gives_of_enterAll : ∀ {entries : List (Data × Data)} {t : CodecTable}, (enterAll t entries).1 = .ok () →
    ∀ e ∈ entries, ∃ k n, Gives e k n
  | [], _, _, e, he => by cases he
  | (tag, id) :: entries, t, h, e, he => by
    unfold enterAll at h
    rcases hentry : t.entry tag id with f | t' <;> rw [hentry] at h
    · cases h
    rcases List.mem_cons.1 he with rfl | he
    · unfold entry at hentry
      rcases hcheck : checkEntry tag id with f | ⟨k, n⟩ <;> rw [hcheck] at hentry
      · cases hentry
      · exact ⟨k, n, checkEntry_eq_ok_iff.1 hcheck⟩
    · exact gives_of_enterAll h e he

/-- **Which numbers of a table survive the wire.** Every number of a table that has been loaded is written; it is read
back from its code, before whatever follows, if it is below the limit of length codes, and otherwise refused after so
many groups as are read. A value that has been written under the table is read back as the same one if the numbers of
all its nodes are below the limit, and otherwise refused for the first that is not. -/
theorem loaded_numbers_on_wire (old : CodecTable) {entries : List (Data × Data)} (h : (old.load entries).1 = .ok ()) :
    let t := (old.load entries).2
    (∀ e ∈ entries, ∃ id : Nat, e.2.integer? = some (id : Int) ∧ ∃ code, LengthCode.write id = .ok code ∧
      ∀ rest, LengthCode.read.outcome (code ++ rest) =
        if id < LengthCode.limit then (.ok id, rest)
        else (.error .longLengthCode, (code ++ rest).drop LengthCode.maxGroups)) ∧
    ∀ v bytes, writeValue t v = .ok bytes → v.ShortTexts → ∀ (d : DomainId) (rest : Bytes),
      (t.ReadableFor v → ∃ w, v.Same w ∧ (readValue t d).outcome (bytes ++ rest) = (.ok w, rest)) ∧
      (¬ t.ReadableFor v → ∃ rest', (readValue t d).outcome (bytes ++ rest) = (.error .longLengthCode, rest')) := by
  intro t
  have ht : t.Consistent := consistent_load old entries
  refine ⟨fun e he => ?_, fun v bytes hv hshort d rest => ⟨fun hids => ?_, fun hids => ?_⟩⟩
  · obtain ⟨k, id, -, hid⟩ := gives_of_enterAll h e he
    exact ⟨id, hid, _, write_natCast id, LengthCode.outcome_read_encode id⟩
  · obtain ⟨w, hsame, hread⟩ := reads_value ht d hids hv hshort
    exact ⟨w, hsame, hread rest⟩
  · exact outcome_readValue_of_not_readable ht d v hv hshort hids rest

/-- The largest number that survives. -/
theorem loaded_numbers_on_wire_largest :
    let last : Nat := LengthCode.limit - 1
    let entries : List (Data × Data) := [(.str "null", .int last)]
    (empty.load entries).1 = .ok () ∧ ∃ code, LengthCode.write last = .ok code ∧
      ∀ rest, LengthCode.read.outcome (code ++ rest) = (.ok last, rest) := by
  intro last entries
  have hload : (empty.load entries).1 = .ok () := rfl
  obtain ⟨id, hid, code, hwrite, hread⟩ := (loaded_numbers_on_wire empty hload).1 _ List.mem_cons_self
  have hlast : id = last := (Int.ofNat_inj.1 (Option.some.inj hid)).symm
  subst hlast
  refine ⟨hload, code, hwrite, fun rest => ?_⟩
  rw [hread, if_pos (by decide)]

/-- **A number that is accepted need not survive**: the first that has too many groups is written, for a value too, and
cannot be read. -/
theorem accepted_number_lost :
    let entries : List (Data × Data) := [(.str "null", .int LengthCode.limit)]
    let t := (empty.load entries).2
    (empty.load entries).1 = .ok () ∧
      ∃ code, LengthCode.write LengthCode.limit = .ok code ∧ writeValue t (.mk 0 .null) = .ok code ∧
        (LengthCode.read.outcome code).1 = .error .longLengthCode ∧
        ((readValue t 0).outcome code).1 = .error .longLengthCode := by
  intro entries t
  have hid : t.idFor .null = .ok LengthCode.limit := rfl
  have hwrite : writeValue t (.mk 0 .null) = .ok (LengthCode.encode LengthCode.limit) := by
    rw [writeValue_eq, show t.idFor Payload.null.kind = .ok LengthCode.limit from hid]
    exact congrArg Written.ok (List.append_nil _)
  have hlost : ¬ t.ReadableFor (.mk 0 .null) := fun hids => Nat.lt_irrefl _ (hids.root hid)
  obtain ⟨rest, hvalue⟩ :=
    outcome_readValue_of_not_readable (consistent_load empty entries) 0 _ hwrite trivial hlost []
  have hcode := LengthCode.outcome_read_encode LengthCode.limit []
  rw [List.append_nil] at hvalue hcode
  rw [if_neg (Nat.lt_irrefl _)] at hcode
  exact ⟨rfl, _, write_natCast _, hwrite, by rw [hcode], by rw [hvalue]⟩

end CodecTable

end StackCalc.Wire
