import StackCalc.Proofs.Wire.LengthCode
import StackCalc.Proofs.Wire.CodecTable
import StackCalc.Wire.ValueCodec

/-! # Malformed records

Whatever bytes a record is read from, reading ends with a record or with a fault of the data store, with one
exception: a text that announces more bytes than a stream can be asked for (`Announces`). `SafeAt r s`
says this of a reader on a stream, together with the fact that what is left is a part of the stream; it
passes through sequences of readers. Values nest no deeper than there are bytes, and no more entries are
tried than there are bytes and one more, however many are announced. -/

namespace StackCalc.Wire

/-- Somewhere in the bytes stands a length code of more bytes than a stream can be asked for. -/
def Announces (s : Bytes) : Prop :=
  ∃ part n rest, part <:+ s ∧ LengthCode.read.outcome part = (.ok n, rest) ∧ Reader.sizeLimit ≤ n

/-- A fault that malformed bytes lead to. -/
def Complaint (s : Bytes) (f : Fault) : Prop :=
  f.category = .dataStore ∨ f = .numberTooLarge ∧ Announces s

/-- **The reader takes a part of the stream**, or complains about the bytes `t` that it is a part of. -/
structure Reader.SafeAt {α : Type} (t : Bytes) (r : Reader α) (s : Bytes) : Prop where
  suffix : (r.outcome s).2 <:+ s
  complaint : ∀ f rest, r.outcome s = (.error f, rest) → Complaint t f

namespace Reader.SafeAt

variable {α β : Type} {s t : Bytes}

theorem pure (a : α) : SafeAt t (Pure.pure a) s := ⟨List.suffix_refl s, fun _ _ h => by cases h⟩

theorem throw {f : Fault} (h : Complaint t f) : SafeAt t (throw f : Reader α) s :=
  ⟨List.suffix_refl s, fun _ _ hf => by cases hf; exact h⟩

theorem suffix_of_eq {r : Reader α} (h : SafeAt t r s) {x : Except Fault α} {rest : Bytes}
    (hr : r.outcome s = (x, rest)) : rest <:+ s := by
  have hsuffix := h.suffix
  rwa [hr] at hsuffix

/-- What follows is safe on what is left. -/
theorem bind {r : Reader α} {k : α → Reader β} (h : SafeAt t r s)
    (hk : ∀ a rest, r.outcome s = (.ok a, rest) → SafeAt t (k a) rest) : SafeAt t (r >>= k) s := by
  rcases hr : r.outcome s with ⟨f | a, rest⟩
  · refine ⟨?_, fun f' rest' h' => ?_⟩
    · rw [outcome_bind_of_error hr]
      exact h.suffix_of_eq hr
    · rw [outcome_bind_of_error hr] at h'
      cases h'
      exact h.complaint f rest hr
  · have hrest := hk a rest hr
    refine ⟨?_, fun f' rest' h' => ?_⟩
    · rw [outcome_bind_of_ok hr]
      exact hrest.suffix.trans (h.suffix_of_eq hr)
    · rw [outcome_bind_of_ok hr] at h'
      exact hrest.complaint f' rest' h'

theorem map {r : Reader α} (h : SafeAt t r s) (g : α → β) : SafeAt t (do return g (← r)) s :=
  h.bind fun a _ _ => pure (g a)

theorem lift_bind {x : Except Fault α} {k : α → Reader β} (hx : ∀ f, x = .error f → Complaint t f)
    (hk : ∀ a, x = .ok a → SafeAt t (k a) s) : SafeAt t ((liftM x : Reader α) >>= k) s := by
  rcases x with f | a
  · exact throw (hx f rfl)
  · exact hk a rfl

theorem bytes {count : Nat} (h : Reader.sizeLimit ≤ count → Announces t) : SafeAt t (bytes count) s := by
  refine ⟨?_, fun f rest hf => ?_⟩
  · rw [outcome_bytes]
    split_ifs
    · exact List.suffix_refl s
    · exact List.drop_suffix count s
    · exact List.drop_suffix count s
  · rw [outcome_bytes] at hf
    split_ifs at hf with hlarge htaken
    · cases hf
      exact .inr ⟨rfl, h hlarge⟩
    · cases hf
    · cases hf
      exact .inl rfl

/-- So few bytes can always be asked for. -/
theorem bytes_of_lt {count : Nat} (h : count < Reader.sizeLimit) : SafeAt t (Reader.bytes count) s :=
  bytes fun hlarge => absurd h (Nat.not_lt.mpr hlarge)

end Reader.SafeAt

open Reader (SafeAt)

variable {s t : Bytes}

/-! ### Scalars -/

theorem safe_byte : SafeAt t Reader.byte s := by
  cases s with
  | nil => exact ⟨List.suffix_refl [], fun f rest hf => by cases hf; exact .inl rfl⟩
  | cons b s => exact ⟨List.suffix_cons b s, fun f rest hf => by cases hf⟩

theorem safe_readGroups : ∀ (fuel : Nat) (s : Bytes), SafeAt t (LengthCode.readGroups fuel) s
  | 0, _ => SafeAt.throw (.inl rfl)
  | fuel + 1, s => by
    refine safe_byte.bind fun b rest _ => ?_
    split_ifs
    · exact SafeAt.pure _
    · exact (safe_readGroups fuel rest).map fun n => b.toNat - 128 + 128 * n

theorem safe_read : SafeAt t LengthCode.read s := safe_readGroups LengthCode.maxGroups s

theorem safe_readInt : SafeAt t readInt s := (SafeAt.bytes_of_lt (by decide)).map _

theorem safe_readFloat : SafeAt t readFloat s := (SafeAt.bytes_of_lt (by decide)).map _

theorem safe_readBool : SafeAt t readBool s := by
  refine safe_byte.bind fun b rest _ => ?_
  split_ifs
  · exact SafeAt.throw (.inl rfl)
  · exact SafeAt.pure _

/-- A text is where a stream can be asked for too much. -/
theorem safe_readText (hs : s <:+ t) : SafeAt t readText s := by
  refine safe_read.bind fun size rest hsize => ?_
  have hannounces : Reader.sizeLimit ≤ size → Announces t := fun h => ⟨s, size, rest, hs, hsize, h⟩
  refine (SafeAt.bytes hannounces).bind fun taken _ _ => ?_
  split
  · exact SafeAt.pure _
  · exact SafeAt.throw (.inl rfl)

/-! ### Values -/

section Values

variable {table : CodecTable} {d : DomainId}

/-- A number that has been read has a text. -/
theorem showInt_of_lt_limit {id : Nat} (h : id < LengthCode.limit) : ∃ s, showInt id = .ok s := by
  have hpow : ∀ digits, 22 ≤ digits → LengthCode.limit ≤ Nat.pow 10 digits := fun digits hdigits =>
    Nat.le_trans (by decide : LengthCode.limit ≤ Nat.pow 10 22) (Nat.pow_le_pow_right (by decide) hdigits)
  have htext : Integer.hasText id = true := by
    unfold Integer.hasText
    rw [Int.natAbs_natCast]
    exact decide_eq_true (Nat.lt_of_lt_of_le h (hpow Integer.digitLimit (by decide)))
  unfold showInt Integer.render?
  rw [if_pos htext]
  exact ⟨_, rfl⟩

/-- An unknown number is the data store's fault. -/
theorem kindOnWire_error {id : Nat} (h : id < LengthCode.limit) {f : Fault}
    (hf : kindOnWire table id = .error f) : f.category = .dataStore := by
  obtain ⟨text, htext⟩ := showInt_of_lt_limit h
  unfold kindOnWire CodecTable.tagFor at hf
  rw [if_neg (by omega), Int.toNat_natCast] at hf
  rcases hk : table.tags.lookup id with _ | k <;> simp only [hk] at hf
  · rw [htext] at hf
    cases hf
    rfl
  · cases hf

/-- **A value is read at any depth that the bytes leave room for**: each level takes at least one. -/
theorem safe_readNested : ∀ (fuel : Nat) (s : Bytes), s <:+ t → s.length < fuel →
    SafeAt t (readNested table d fuel) s
  | 0, s, _, h => absurd h (Nat.not_lt_zero _)
  | fuel + 1, s, hs, h => by
    have hread : SafeAt t LengthCode.read s := safe_read
    refine hread.bind fun id rest hid => ?_
    obtain ⟨hlimit, hrest⟩ := LengthCode.read_bounds hid
    have hsuffix : rest <:+ t := (hread.suffix_of_eq hid).trans hs
    refine SafeAt.lift_bind (fun f hf => .inl (kindOnWire_error hlimit hf)) fun k _ => ?_
    cases k with
    | int => exact safe_readInt.map fun n => Value.mk d (.int n)
    | float => exact safe_readFloat.map fun x => Value.mk d (.float x 0)
    | str => exact (safe_readText hsuffix).map fun s => Value.mk d (.str s)
    | bool => exact safe_readBool.map fun b => Value.mk d (.bool b)
    | cons =>
      have hfirst := safe_readNested fuel rest hsuffix (by omega)
      refine hfirst.bind fun a rest' ha => ?_
      have hrest' := (hfirst.suffix_of_eq ha).length_le
      exact (safe_readNested fuel rest' ((hfirst.suffix_of_eq ha).trans hsuffix) (by omega)).map
        fun b => Value.mk d (.cons a b)
    | null | code | callable | object | hostList | hostMap => exact SafeAt.pure _

theorem safe_readValue (hs : s <:+ t) : SafeAt t (readValue table d) s := by
  have hnested : SafeAt t (readNested table d (s.length + 1)) s :=
    safe_readNested (s.length + 1) s hs (Nat.lt_succ_self _)
  exact ⟨hnested.suffix, hnested.complaint⟩

/-- A payload is read alike if the members of a pair are. -/
theorem readPayload_congr {values values' : Reader Value} (k : Kind)
    (h : ∀ part, part <:+ s → values.outcome part = values'.outcome part)
    (hsafe : ∀ part, part <:+ s → SafeAt t values part) :
    (readPayload d values k).outcome s = (readPayload d values' k).outcome s := by
  cases k with
  | cons =>
    have hs : s <:+ s := List.suffix_refl s
    simp only [readPayload]
    rw [Reader.outcome_bind, Reader.outcome_bind, ← h s hs]
    rcases ha : values.outcome s with ⟨f | a, rest⟩
    · rfl
    · have hrest := (hsafe s hs).suffix_of_eq ha
      dsimp only
      rw [Reader.outcome_bind, Reader.outcome_bind, h rest hrest]
  | _ => rfl

/-- The values of a payload are read behind the number of its kind, so from fewer bytes. -/
theorem readNested_succ_congr {fuel : Nat} {values : Reader Value} (hs : s.length < fuel + 1)
    (h : ∀ part : Bytes, part.length < s.length → (readNested table d fuel).outcome part = values.outcome part) :
    (readNested table d (fuel + 1)).outcome s = Reader.outcome (do
      let id ← LengthCode.read
      let k ← (kindOnWire table id : Except Fault Kind)
      readPayload d values k) s := by
  rw [readNested, Reader.outcome_bind, Reader.outcome_bind]
  rcases hid : LengthCode.read.outcome s with ⟨f | id, rest⟩
  · rfl
  · have hlt := (LengthCode.read_bounds hid).2
    dsimp only
    rcases kindOnWire table id with f | k
    · rfl
    · refine readPayload_congr (t := rest) k (fun part hpart => ?_) fun part hpart => ?_
      · exact h part (Nat.lt_of_le_of_lt hpart.length_le hlt)
      · have hle := hpart.length_le
        exact safe_readNested fuel part hpart (by omega)

/-- **The depth does not matter beyond the number of bytes.** -/
theorem readNested_of_length_lt : ∀ (n m : Nat) (s : Bytes), s.length < n → s.length < m →
    (readNested table d n).outcome s = (readNested table d m).outcome s
  | 0, _, _, h, _ => absurd h (Nat.not_lt_zero _)
  | _ + 1, 0, _, _, h => absurd h (Nat.not_lt_zero _)
  | n + 1, m + 1, _, hn, hm => by
    rw [readNested_succ_congr hn fun part hpart => readNested_of_length_lt n m part (by omega) (by omega)]
    rfl

/-- **A value is the number of its kind and a payload**, whose values are read in the same way. -/
theorem readValue_eq : readValue table d = (do
    let id ← LengthCode.read
    let k ← (kindOnWire table id : Except Fault Kind)
    readPayload d (readValue table d) k) := by
  funext s
  exact readNested_succ_congr (Nat.lt_succ_self s.length) fun part hpart =>
    readNested_of_length_lt s.length (part.length + 1) part hpart (Nat.lt_succ_self _)

/-! ### Records -/

theorem safe_readEntries : ∀ (n : Nat) (store : List (Text × Value)) (s : Bytes), s <:+ t →
    SafeAt t (readEntries (· == ·) readText (readValue table d) n store) s
  | 0, store, _, _ => SafeAt.pure store
  | n + 1, store, s, hs => by
    refine (safe_readText hs).bind fun name rest hname => ?_
    have hrest := ((safe_readText hs).suffix_of_eq hname).trans hs
    refine (safe_readValue hrest).bind fun v rest' hv => ?_
    exact safe_readEntries n _ rest' (((safe_readValue hrest).suffix_of_eq hv).trans hrest)

/-- **Reading a record ends with a record or a complaint.** -/
theorem safe_readRecord (t : Bytes) : SafeAt t (readRecord (· == ·) readText (readValue table d)) t := by
  have hread : SafeAt t LengthCode.read t := safe_read
  refine hread.bind fun size rest hsize => ?_
  exact (safe_readEntries size [] rest (hread.suffix_of_eq hsize)).map fun store => (size, store)

/-! ### How many entries are tried -/

/-- A text takes at least one byte. -/
theorem length_lt_of_readText {name : Text} {rest : Bytes} (h : readText.outcome s = (.ok name, rest)) :
    rest.length < s.length := by
  obtain ⟨size, mid, hsize, hmid⟩ := Reader.exists_of_outcome_bind_ok h
  have hlt := (LengthCode.read_bounds hsize).2
  obtain ⟨taken, mid', htaken, hdecoded⟩ := Reader.exists_of_outcome_bind_ok hmid
  have hsafe : SafeAt s (Reader.bytes size) mid :=
    SafeAt.bytes fun hlarge => ⟨s, size, mid, List.suffix_refl s, hsize, hlarge⟩
  have hle := (hsafe.suffix_of_eq htaken).length_le
  have hrest : rest = mid' := by
    split at hdecoded
    · cases hdecoded
      rfl
    · cases hdecoded
  rw [hrest]
  omega

/-- **The number that a record announces does not matter beyond the number of its bytes**: with one entry
more than there are bytes, reading has met the end. -/
theorem readEntries_of_length_lt : ∀ (n m : Nat) (store : List (Text × Value)) (s : Bytes),
    s.length < n → s.length < m →
    (readEntries (· == ·) readText (readValue table d) n store).outcome s =
      (readEntries (· == ·) readText (readValue table d) m store).outcome s
  | 0, _, _, _, h, _ => absurd h (Nat.not_lt_zero _)
  | _ + 1, 0, _, _, _, h => absurd h (Nat.not_lt_zero _)
  | n + 1, m + 1, store, s, hn, hm => by
    rw [readEntries, readEntries, Reader.outcome_bind, Reader.outcome_bind]
    rcases hname : readText.outcome s with ⟨f | name, rest⟩
    · rfl
    · have hlt := length_lt_of_readText hname
      dsimp only
      rw [Reader.outcome_bind, Reader.outcome_bind]
      have hsafe : SafeAt rest (readValue table d) rest := safe_readValue (List.suffix_refl rest)
      rcases hv : (readValue table d).outcome rest with ⟨f | v, rest'⟩
      · rfl
      · have hle := (hsafe.suffix_of_eq hv).length_le
        exact readEntries_of_length_lt n m _ rest' (by omega) (by omega)

end Values

end StackCalc.Wire
