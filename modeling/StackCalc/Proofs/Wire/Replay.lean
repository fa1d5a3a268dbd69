import StackCalc.Proofs.Wire.LengthCode
import StackCalc.Proofs.Wire.Scalar
import Mathlib.Data.List.Induction

/-! # Reading a record and taking visitors through it

The entries of a record may repeat a key. What they make is a store that has each key once, at its first
place and with its last value (`settle`): this follows from what one insertion does to a store whose keys
are different. Reading takes exactly the bytes of the entries, whatever follows them.

A visitor that refuses nothing is told that the store begins, of each entry, and that it ends
(`notices`). When a record has been read, each visitor in turn has been told all of this, and then the
callback has been called (`Wrapper.read_replays`). -/

namespace StackCalc.Wire

open Reader (Reads)

variable {κ ν σ : Type}

/-! ### Stores -/

/-- The store that entries make, one put in after the other. -/
def settle (same : κ → κ → Bool) (pairs : List (κ × ν)) : List (κ × ν) :=
  pairs.foldl (fun store e => storeInsert same e.1 e.2 store) []

/-- Keys count as the same in a way that takes turns and passes on; a key need not be the same as itself. -/
structure IsSame (same : κ → κ → Bool) : Prop where
  symm : ∀ {a b : κ}, same a b = true → same b a = true
  trans : ∀ {a b c : κ}, same a b = true → same b c = true → same a c = true

/-- No two entries of a store have the same key. -/
def Distinct (same : κ → κ → Bool) (store : List (κ × ν)) : Prop :=
  store.Pairwise fun a b => same a.1 b.1 = false

/-- **The entry has the last value of its key**: no later entry has the key. -/
def IsLast (same : κ → κ → Bool) (pairs : List (κ × ν)) (e : κ × ν) : Prop :=
  ∃ before k after, pairs = before ++ (k, e.2) :: after ∧ (k = e.1 ∨ same e.1 k = true) ∧
    ∀ p ∈ after, same e.1 p.1 = false

section
variable {same : κ → κ → Bool}

/-- A key that is there keeps its place, another one comes last. -/
theorem keys_storeInsert (k : κ) (v : ν) (store : List (κ × ν)) :
    (storeInsert same k v store).map Prod.fst =
      if (store.map Prod.fst).any (same · k) then store.map Prod.fst else store.map Prod.fst ++ [k] := by
  induction store with
  | nil => rfl
  | cons e store ih =>
    obtain ⟨l, w⟩ := e
    rw [storeInsert]
    by_cases h : same l k = true
    · simp [h]
    · rw [if_neg h, List.map_cons, ih]
      simp only [List.map_cons, List.any_cons, Bool.eq_false_iff.2 h, Bool.false_or]
      split_ifs <;> rfl

/-- What is in the store is what has been put in, or was there with another key. -/
theorem mem_storeInsert (hs : IsSame same) {k : κ} {v : ν} {store : List (κ × ν)} (hstore : Distinct same store)
    {e : κ × ν} (he : e ∈ storeInsert same k v store) :
    (e.2 = v ∧ (k = e.1 ∨ same e.1 k = true)) ∨ e ∈ store ∧ same e.1 k = false := by
  induction store with
  | nil => exact .inl (List.mem_singleton.1 he ▸ ⟨rfl, .inl rfl⟩)
  | cons first store ih =>
    obtain ⟨l, w⟩ := first
    obtain ⟨hfirst, hrest⟩ := List.pairwise_cons.1 hstore
    rw [storeInsert] at he
    split_ifs at he with h
    · rcases List.mem_cons.1 he with rfl | he
      · exact .inl ⟨rfl, .inr h⟩
      · -- a second entry with the key would have the same key as the first
        refine .inr ⟨List.mem_cons_of_mem _ he, Bool.eq_false_iff.2 fun hk => ?_⟩
        exact Bool.eq_false_iff.1 (hfirst e he) (hs.trans h (hs.symm hk))
    · rcases List.mem_cons.1 he with rfl | he
      · exact .inr ⟨List.mem_cons_self, Bool.eq_false_iff.2 h⟩
      · exact (ih hrest he).imp_right fun ⟨hmem, hne⟩ => ⟨List.mem_cons_of_mem _ hmem, hne⟩

theorem Distinct.storeInsert {store : List (κ × ν)} (hstore : Distinct same store) (k : κ) (v : ν) :
    Distinct same (storeInsert same k v store) := by
  have hkeys (l : List (κ × ν)) : Distinct same l ↔ (l.map Prod.fst).Pairwise fun a b => same a b = false :=
    (List.pairwise_map (f := Prod.fst) (R := fun a b => same a b = false)).symm
  rw [hkeys, keys_storeInsert]
  split_ifs with h
  · exact (hkeys _).1 hstore
  · refine List.pairwise_append.2 ⟨(hkeys _).1 hstore, List.pairwise_singleton _ _, fun a ha b hb => ?_⟩
    rw [List.mem_singleton.1 hb]
    rw [Bool.not_eq_true, List.any_eq_false] at h
    exact Bool.eq_false_iff.2 (h a ha)

theorem settle_concat (pairs : List (κ × ν)) (e : κ × ν) :
    settle same (pairs ++ [e]) = storeInsert same e.1 e.2 (settle same pairs) := List.foldl_concat _ _ _ _

theorem distinct_settle (pairs : List (κ × ν)) : Distinct same (settle same pairs) := by
  induction pairs using List.reverseRecOn with
  | nil => exact .nil
  | append_singleton pairs e ih =>
    rw [settle_concat]
    exact ih.storeInsert e.1 e.2

/-- **The keys are those of the entries, each at its first place.** -/
theorem keys_settle (hs : IsSame same) (pairs : List (κ × ν)) :
    (settle same pairs).map Prod.fst = (pairs.map Prod.fst).eraseDupsBy same := by
  have hloop : ∀ (pairs store : List (κ × ν)),
      (pairs.foldl (fun store e => storeInsert same e.1 e.2 store) store).map Prod.fst =
        List.eraseDupsBy.loop same (pairs.map Prod.fst) (store.map Prod.fst).reverse := by
    intro pairs
    induction pairs with
    | nil =>
      intro store
      rw [List.map_nil, List.eraseDupsBy.loop, List.reverse_reverse]
      rfl
    | cons e pairs ih =>
      intro store
      have hturn : (store.map Prod.fst).reverse.any (same e.1) = (store.map Prod.fst).any (same · e.1) := by
        rw [List.any_reverse]
        congr 1
        funext k
        exact Bool.eq_iff_iff.2 ⟨hs.symm, hs.symm⟩
      rw [List.foldl_cons, ih, keys_storeInsert, List.map_cons, List.eraseDupsBy.loop, hturn]
      rcases (store.map Prod.fst).any (same · e.1) with _ | _
      · simp
      · simp
  exact hloop pairs []

/-- **The values are the last ones.** -/
theorem isLast_of_mem_settle (hs : IsSame same) (pairs : List (κ × ν)) :
    ∀ e ∈ settle same pairs, IsLast same pairs e := by
  induction pairs using List.reverseRecOn with
  | nil => exact fun _ he => nomatch he
  | append_singleton pairs p ih =>
    intro e he
    rw [settle_concat] at he
    rcases mem_storeInsert hs (distinct_settle pairs) he with ⟨hv, hk⟩ | ⟨hmem, hne⟩
    · exact ⟨pairs, p.1, [], by rw [hv], hk, fun _ h => nomatch h⟩
    · obtain ⟨before, k, after, rfl, hk, hafter⟩ := ih e hmem
      refine ⟨before, k, after ++ [p], by rw [List.append_assoc, List.cons_append], hk, ?_⟩
      exact List.forall_mem_append.2 ⟨hafter, List.forall_mem_singleton.2 hne⟩

/-! ### Reading -/

variable {key : Reader κ} {value : Reader ν} {encodeKey : κ → Bytes} {encodeValue : ν → Bytes}

/-- The bytes of entries, one after the other. -/
def entryBytes (encodeKey : κ → Bytes) (encodeValue : ν → Bytes) (pairs : List (κ × ν)) : Bytes :=
  pairs.flatMap fun e => encodeKey e.1 ++ encodeValue e.2

theorem reads_pairs : ∀ (pairs store : List (κ × ν)), (∀ e ∈ pairs, Reads key e.1 (encodeKey e.1)) →
    (∀ e ∈ pairs, Reads value e.2 (encodeValue e.2)) →
    Reads (readEntries same key value pairs.length store)
      (pairs.foldl (fun store e => storeInsert same e.1 e.2 store) store) (entryBytes encodeKey encodeValue pairs)
  | [], store, _, _ => Reads.pure store
  | (k, v) :: pairs, store, hkey, hvalue => by
    obtain ⟨hk, hkeys⟩ := List.forall_mem_cons.1 hkey
    obtain ⟨hv, hvalues⟩ := List.forall_mem_cons.1 hvalue
    have hbytes : entryBytes encodeKey encodeValue ((k, v) :: pairs) =
        encodeKey k ++ (encodeValue v ++ entryBytes encodeKey encodeValue pairs) := List.append_assoc _ _ _
    rw [hbytes]
    exact hk.bind (hv.bind (reads_pairs pairs (storeInsert same k v store) hkeys hvalues))

theorem reads_pairs_record {pairs : List (κ × ν)} (hkey : ∀ e ∈ pairs, Reads key e.1 (encodeKey e.1))
    (hvalue : ∀ e ∈ pairs, Reads value e.2 (encodeValue e.2)) (hcount : pairs.length < LengthCode.limit) :
    Reads (readRecord same key value) (pairs.length, settle same pairs)
      (LengthCode.encode pairs.length ++ entryBytes encodeKey encodeValue pairs) :=
  (LengthCode.reads_encode hcount).bind ((reads_pairs pairs [] hkey hvalue).map fun store => (pairs.length, store))

end

/-! ### Visitors -/

/-- What a visitor is told. -/
inductive Notice (κ ν : Type) where
  | begin (size : Nat)
  | entry (key : κ) (value : ν)
  | finish

/-- What a visitor is told of a store: its size, every entry once in order, and that it ends. -/
def notices (store : List (κ × ν)) : List (Notice κ ν) :=
  .begin store.length :: (store.map (fun e => Notice.entry e.1 e.2) ++ [.finish])

namespace Visitor

/-- What a visitor does when it is told something. -/
def receive (vis : Visitor κ ν σ) (s : σ) : Notice κ ν → σ
  | .begin size => vis.begin size s
  | .entry k v => (vis.entry k v s).2
  | .finish => vis.finish s

/-- A visitor that refuses no entry. -/
def Accepts (vis : Visitor κ ν σ) : Prop := ∀ k v s, (vis.entry k v s).1 = .ok ()

theorem Accepts.entries {vis : Visitor κ ν σ} (h : vis.Accepts) : ∀ (store : List (κ × ν)) (s : σ),
    vis.entries store s = (.ok (), (store.map fun e => Notice.entry e.1 e.2).foldl vis.receive s)
  | [], _ => rfl
  | (k, v) :: store, s => by
    have hok : vis.entry k v s = (.ok (), (vis.entry k v s).2) := Prod.ext (h k v s) rfl
    rw [Visitor.entries, hok]
    exact h.entries store _

theorem Accepts.replay {vis : Visitor κ ν σ} (h : vis.Accepts) (store : List (κ × ν)) (s : σ) :
    vis.replay store s = (.ok (), (notices store).foldl vis.receive s) := by
  rw [Visitor.replay, h.entries, notices, List.foldl_cons, List.foldl_append]
  rfl

end Visitor

namespace Wrapper

/-- **What the visitors and then the callback make of a store**: each visitor in turn is told all of it. -/
def told (w : Wrapper κ ν σ) (store : List (κ × ν)) (s : σ) : σ :=
  let visited := w.visitors.foldl (fun s vis => (notices store).foldl vis.receive s) s
  match w.callback with
  | none => visited
  | some tell => (tell store visited).2

theorem replayAll_of_accepts (store : List (κ × ν)) : ∀ (visitors : List (Visitor κ ν σ)) (s : σ),
    (∀ vis ∈ visitors, vis.Accepts) →
    replayAll store visitors s = (.ok (), visitors.foldl (fun s vis => (notices store).foldl vis.receive s) s)
  | [], _, _ => rfl
  | vis :: visitors, s, h => by
    obtain ⟨hvis, hvisitors⟩ := List.forall_mem_cons.1 h
    rw [replayAll, hvis.replay]
    exact replayAll_of_accepts store visitors _ hvisitors

theorem activate_of_accepts {w : Wrapper κ ν σ} (hvisitors : ∀ vis ∈ w.visitors, vis.Accepts)
    (hcallback : ∀ tell, w.callback = some tell → ∀ store s, (tell store s).1 = .ok ()) (store : List (κ × ν))
    (s : σ) : w.activate store s = (.ok (), { w with store := some store }, w.told store s) := by
  unfold activate told
  rw [replayAll_of_accepts store w.visitors s hvisitors]
  rcases htell : w.callback with _ | tell
  · rfl
  · exact Prod.ext (hcallback tell htell store _) rfl

/-- **Reading a record makes its store the active one and tells of it.** Of any entries behind their number, written
by codecs that read back what they wrote, exactly the bytes are taken, whatever follows. The store has each key once,
at its first place and with its last value. It is the active store then, each visitor has been told of it in turn,
and the callback was called after that. -/
theorem read_replays {same : κ → κ → Bool} (hs : IsSame same) {key : Reader κ} {value : Reader ν}
    {encodeKey : κ → Bytes} {encodeValue : ν → Bytes} {pairs : List (κ × ν)}
    (hkey : ∀ e ∈ pairs, Reads key e.1 (encodeKey e.1)) (hvalue : ∀ e ∈ pairs, Reads value e.2 (encodeValue e.2))
    (hcount : pairs.length < LengthCode.limit) {w : Wrapper κ ν σ} (hvisitors : ∀ vis ∈ w.visitors, vis.Accepts)
    (hcallback : ∀ tell, w.callback = some tell → ∀ store s, (tell store s).1 = .ok ()) (rest : Bytes) (s : σ) :
    let bytes := LengthCode.encode pairs.length ++ entryBytes encodeKey encodeValue pairs
    let store := settle same pairs
    w.read same key value (bytes ++ rest) s =
      (.ok (pairs.length, store), rest, { w with store := some store }, w.told store s) ∧
    store.map Prod.fst = (pairs.map Prod.fst).eraseDupsBy same ∧ Distinct same store ∧
    ∀ e ∈ store, IsLast same pairs e := by
  intro bytes store
  refine ⟨?_, keys_settle hs pairs, distinct_settle pairs, isLast_of_mem_settle hs pairs⟩
  unfold read
  rw [reads_pairs_record hkey hvalue hcount rest]
  dsimp only
  rw [activate_of_accepts hvisitors hcallback]

/-- A visitor that writes down what it is told, behind its name. -/
def scribe (name : Text) : Visitor Text Nat (List Text) where
  begin size s := s ++ [name ++ " begin " ++ toString size]
  entry k v s := (.ok (), s ++ [name ++ " " ++ k ++ " " ++ toString v])
  finish s := s ++ [name ++ " end"]

/-- Three entries with two keys, read before two visitors and a callback. -/
theorem read_replays_repeated :
    let w : Wrapper Text Nat (List Text) :=
      ⟨none, [scribe "one", scribe "two"],
        some fun store s => (.ok (), s ++ [("told " : Text) ++ toString store.length])⟩
    let pairs : List (Text × Nat) := [("a", 1), ("b", 2), ("a", 3)]
    let written (name : Text) : Bytes := (encodeText name).bytes
    let bytes := LengthCode.encode 3 ++ entryBytes written LengthCode.encode pairs
    let told : List Text := ["one begin 2", "one a 3", "one b 2", "one end",
      "two begin 2", "two a 3", "two b 2", "two end", "told 2"]
    w.read (· == ·) readText LengthCode.read (bytes ++ [7, 7]) [] =
      (.ok (3, [("a", 3), ("b", 2)]), [7, 7], { w with store := some [("a", 3), ("b", 2)] }, told) := by
  intro w pairs written bytes told
  have hs : IsSame fun a b : Text => a == b :=
    ⟨fun h => beq_iff_eq.2 (beq_iff_eq.1 h).symm, fun h h' => beq_iff_eq.2 ((beq_iff_eq.1 h).trans (beq_iff_eq.1 h'))⟩
  have hkey : ∀ e ∈ pairs, Reads readText e.1 (written e.1) := by
    have hread : ∀ t : String, t.utf8ByteSize < 10 → Reads readText t (written t) := fun t ht => by
      dsimp only [written]
      rw [encodeText_ofString]
      exact reads_text (encodeText_ofString t) (isShort_ofString (Nat.lt_trans ht (by decide)))
    simp only [pairs, List.mem_cons, List.not_mem_nil, or_false, forall_eq_or_imp, forall_eq]
    exact ⟨hread "a" (by decide), hread "b" (by decide), hread "a" (by decide)⟩
  have hvalue : ∀ e ∈ pairs, Reads LengthCode.read e.2 (LengthCode.encode e.2) := by
    simp only [pairs, List.mem_cons, List.not_mem_nil, or_false, forall_eq_or_imp, forall_eq]
    have hread : ∀ n < 4, Reads LengthCode.read n (LengthCode.encode n) := fun n hn =>
      LengthCode.reads_encode (Nat.lt_trans hn (by decide))
    exact ⟨hread 1 (by decide), hread 2 (by decide), hread 3 (by decide)⟩
  have hvisitors : ∀ vis ∈ w.visitors, vis.Accepts := by
    simp only [w, List.mem_cons, List.not_mem_nil, or_false, forall_eq_or_imp, forall_eq]
    exact ⟨fun _ _ _ => rfl, fun _ _ _ => rfl⟩
  have hcallback : ∀ tell, w.callback = some tell → ∀ store s, (tell store s).1 = .ok () := by
    rintro _ ⟨⟩ _ _
    rfl
  have hread := (read_replays hs hkey hvalue (by decide) hvisitors hcallback [7, 7] []).1
  have hstore : settle (· == ·) pairs = ([("a", 3), ("b", 2)] : List (Text × Nat)) := by decide
  have htold : w.told [("a", 3), ("b", 2)] [] = told := by decide +kernel
  rw [hstore, htold] at hread
  exact hread

end Wrapper

end StackCalc.Wire
