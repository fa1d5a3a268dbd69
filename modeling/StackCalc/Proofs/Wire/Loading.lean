import StackCalc.Proofs.Data.Record
import StackCalc.Proofs.Value.Faults
import StackCalc.Proofs.Wire.CodecTable

/-! # What a codec table is loaded from

A table is loaded entry by entry, and each entry is checked against what the entries before it have made. All
these checks together say something about the entries alone (`CodecTable.Loadable`): every tag is that of a kind
with a codec, every number is one that is not negative, and no two numbers are the same. The table that has been
loaded says what the entries say, in whatever order they come. If an entry is refused, this is a fault of the
configuration, unless the fault would quote an integer with too many digits. -/

namespace StackCalc

/-- An integer in the data has too many digits for a text. -/
def Data.Unwritable (d : Data) : Prop := d.shown Naming.standard = .error .tooManyDigits

/-- What comes of quoting data in a fault. -/
theorem Data.fault_cases {α : Type} {d : Data} {g : Text → Fault} {f : Fault}
    (h : (do throw (g (← d.shown Naming.standard)) : Except Fault α) = .error f) :
    (∃ s, f = g s) ∨ f = .tooManyDigits ∧ d.Unwritable := by
  rcases hd : d.shown Naming.standard with e | s <;> rw [hd] at h
  · cases h
    obtain rfl := Data.eq_tooManyDigits_of_shown hd
    exact .inr ⟨rfl, hd⟩
  · cases h
    exact .inl ⟨s, rfl⟩

namespace Wire.CodecTable

/-! ### Entries that are refused -/

/-- An entry that is refused is a fault of the configuration, unless the fault cannot be written. -/
theorem checkEntry_fault {tag id : Data} (hkey : tag.isKey = true) {f : Fault} (h : checkEntry tag id = .error f) :
    f.category = .configuration ∨ f = .tooManyDigits ∧ (tag.Unwritable ∨ id.Unwritable) := by
  unfold checkEntry at h
  rw [hkey] at h
  simp only [Bool.not_true, Bool.false_eq_true, if_false] at h
  split at h
  next kind _ =>
    have hid : ∀ {d : Data},
        (do throw (.badCodecId kind.name (← d.shown Naming.standard)) : Except Fault (Kind × Nat)) = .error f →
          f.category = .configuration ∨ f = .tooManyDigits ∧ (tag.Unwritable ∨ d.Unwritable) := fun h => by
      rcases Data.fault_cases h with ⟨s, rfl⟩ | ⟨rfl, hd⟩
      · exact .inl rfl
      · exact .inr ⟨rfl, .inr hd⟩
    rcases hn : id.integer? with _ | n <;> rw [hn] at h
    · exact hid h
    · dsimp only at h
      split_ifs at h
      · cases h
      · rw [← Data.shown_of_integer? hn] at h
        exact hid h
  next =>
    rcases Data.fault_cases h with ⟨s, rfl⟩ | ⟨rfl, hd⟩
    · exact .inl rfl
    · exact .inr ⟨rfl, .inl hd⟩

/-- The number of an entry that passes its check. -/
theorem shown_of_checkEntry {tag d : Data} {k : Kind} {n : Nat} (h : checkEntry tag d = .ok (k, n)) :
    d.shown Naming.standard = showInt n := by
  obtain ⟨_, hd⟩ := checkEntry_eq_ok_iff.1 h
  exact Data.shown_of_integer? hd _

theorem entry_fault {t : CodecTable} {tag id : Data} (hkey : tag.isKey = true) {f : Fault}
    (h : t.entry tag id = .error f) :
    f.category = .configuration ∨ f = .tooManyDigits ∧ (tag.Unwritable ∨ id.Unwritable) := by
  unfold entry at h
  rcases hcheck : checkEntry tag id with e | ⟨k, n⟩ <;> rw [hcheck] at h
  · cases h
    exact checkEntry_fault hkey hcheck
  · have henter : t.enter k n = .error f := h
    unfold enter at henter
    split at henter
    next other _ =>
      split_ifs at henter
      have hclash : clashFault n other k = f := Except.error.inj henter
      unfold clashFault at hclash
      have hshown := shown_of_checkEntry hcheck
      rcases hn : showInt n with e | s <;> rw [hn] at hclash hshown
      · obtain rfl := Data.eq_tooManyDigits_of_shown hshown
        exact .inr ⟨hclash.symm, .inr hshown⟩
      · exact .inl (hclash ▸ rfl)
    next => cases henter

/-- **Entries are made up to the first that is refused**, and what is left is what those before it have made. -/
theorem enterAll_error : ∀ {entries : List (Data × Data)} {t : CodecTable} {f : Fault},
    (enterAll t entries).1 = .error f → ∃ before e after, entries = before ++ e :: after ∧
      enterAll t before = (.ok (), (enterAll t entries).2) ∧ (enterAll t entries).2.entry e.1 e.2 = .error f
  | [], _, _, h => by cases h
  | (tag, id) :: entries, t, f, h => by
    rw [enterAll] at h ⊢
    rcases hentry : t.entry tag id with g | t' <;> rw [hentry] at h
    · cases h
      exact ⟨[], (tag, id), entries, rfl, rfl, hentry⟩
    · obtain ⟨before, e, after, rfl, hbefore, he⟩ := enterAll_error h
      refine ⟨(tag, id) :: before, e, after, rfl, ?_, he⟩
      rw [enterAll, hentry]
      exact hbefore

/-- **A table that cannot be loaded** has an entry that is refused. -/
theorem load_fault {entries : List (Data × Data)} {t : CodecTable} {f : Fault}
    (hkeys : ∀ e ∈ entries, e.1.isKey = true) (h : (enterAll t entries).1 = .error f) :
    f.category = .configuration ∨ f = .tooManyDigits ∧ ∃ e ∈ entries, e.1.Unwritable ∨ e.2.Unwritable := by
  obtain ⟨before, e, after, rfl, -, he⟩ := enterAll_error h
  have hmem : e ∈ before ++ e :: after := List.mem_append_right before List.mem_cons_self
  exact (entry_fault (hkeys e hmem) he).imp_right fun hf => hf.imp_right fun hd => ⟨e, hmem, hd⟩

/-! ### What an entry says -/

theorem kindOfTag?_eq_some_iff {tag : Text} {k : Kind} :
    kindOfTag? tag = some k ↔ k ∈ encodedKinds ∧ k.name = tag := by
  constructor
  · intro h
    have hname := List.find?_some h
    exact ⟨List.mem_of_find?_eq_some h, beq_iff_eq.1 hname⟩
  · rintro ⟨hk, rfl⟩
    have hnames : ∀ k ∈ encodedKinds, kindOfTag? k.name = some k := by decide
    exact hnames k hk

/-- Its tag and its number say what an entry gives. -/
theorem Gives.unique {e : Data × Data} {k l : Kind} {m n : Nat} (h : Gives e k m) (h' : Gives e l n) :
    k = l ∧ m = n := by
  obtain ⟨tag, id⟩ := e
  obtain ⟨⟨s, hs, hk⟩, hm⟩ := h
  obtain ⟨⟨s', hs', hl⟩, hn⟩ := h'
  obtain rfl : s = s' := Option.some.inj (hs.symm.trans hs')
  refine ⟨Option.some.inj (hk.symm.trans hl), ?_⟩
  exact Int.ofNat_inj.1 (Option.some.inj (hm.symm.trans hn))

/-- **What is asked of a table**: every tag is that of a kind with a codec, every number is one that is not negative,
and no two numbers are the same. -/
structure Loadable (entries : List (Data × Data)) : Prop where
  tags : ∀ e ∈ entries, ∃ k ∈ encodedKinds, e.1.string? = some k.name
  ids : ∀ e ∈ entries, ∃ n : Nat, e.2.integer? = some (n : Int)
  distinct : entries.Pairwise fun a b => a.2.sameKey b.2 = false

/-- No kind is given a number by two of the entries. -/
def KindsApart (entries : List (Data × Data)) : Prop :=
  entries.Pairwise fun a b => ∀ k m n, Gives a k m → ¬ Gives b k n

/-- No number is given by two of the entries. -/
def NumbersApart (entries : List (Data × Data)) : Prop :=
  entries.Pairwise fun a b => ∀ k l n, Gives a k n → ¬ Gives b l n

theorem KindsApart.of_tags {entries : List (Data × Data)}
    (h : entries.Pairwise fun a b => a.1.sameKey b.1 = false) : KindsApart entries := by
  refine h.imp ?_
  rintro ⟨a, _⟩ ⟨b, _⟩ hne k m n ⟨⟨s, hs, hk⟩, _⟩ ⟨⟨s', hs', hk'⟩, _⟩
  have hsame : s = s' := (kindOfTag?_eq_some_iff.1 hk).2.symm.trans (kindOfTag?_eq_some_iff.1 hk').2
  exact Bool.eq_false_iff.1 hne (Data.sameKey_of_string? hs (hsame ▸ hs'))

theorem loadable_iff {entries : List (Data × Data)} :
    Loadable entries ↔ (∀ e ∈ entries, ∃ k n, Gives e k n) ∧ NumbersApart entries := by
  have hsame : ∀ {a b : Data × Data} {k l : Kind} {m n : Nat}, Gives a k m → Gives b l n →
      (a.2.sameKey b.2 = true ↔ m = n) := by
    rintro a b k l m n ⟨_, hm⟩ ⟨_, hn⟩
    exact (Data.sameKey_iff_of_integer? hm hn).trans Int.ofNat_inj
  constructor
  · rintro ⟨htags, hids, hdistinct⟩
    refine ⟨fun e he => ?_, hdistinct.imp fun hne k l n ha hb => Bool.eq_false_iff.1 hne ((hsame ha hb).2 rfl)⟩
    obtain ⟨k, hk, htag⟩ := htags e he
    obtain ⟨n, hn⟩ := hids e he
    exact ⟨k, n, ⟨_, htag, kindOfTag?_eq_some_iff.2 ⟨hk, rfl⟩⟩, hn⟩
  · rintro ⟨hgives, hapart⟩
    refine ⟨fun e he => ?_, fun e he => ?_, List.Pairwise.imp_of_mem ?_ hapart⟩
    · obtain ⟨k, n, ⟨s, htag, hk⟩, _⟩ := hgives e he
      obtain ⟨hmem, rfl⟩ := kindOfTag?_eq_some_iff.1 hk
      exact ⟨k, hmem, htag⟩
    · obtain ⟨k, n, _, hn⟩ := hgives e he
      exact ⟨n, hn⟩
    · intro a b ha hb hne
      obtain ⟨k, m, hga⟩ := hgives a ha
      obtain ⟨l, n, hgb⟩ := hgives b hb
      refine Bool.eq_false_iff.2 fun h => ?_
      obtain rfl := (hsame hga hgb).1 h
      exact hne k l m hga hgb

theorem KindsApart.perm {entries entries' : List (Data × Data)} (hp : entries'.Perm entries)
    (h : KindsApart entries) : KindsApart entries' :=
  (hp.pairwise_iff fun hab k m n hb ha => hab k n m ha hb).2 h

theorem Loadable.perm {entries entries' : List (Data × Data)} (hp : entries'.Perm entries)
    (h : Loadable entries) : Loadable entries' := by
  obtain ⟨hgives, hapart⟩ := loadable_iff.1 h
  exact loadable_iff.2 ⟨fun e he => hgives e (hp.mem_iff.1 he),
    (hp.pairwise_iff fun hab k l n hb ha => hab l k n ha hb).2 hapart⟩

/-! ### Making the entries -/

/-- The table has no number for any kind that the entries give one to. -/
def LacksKindsOf (t : CodecTable) (entries : List (Data × Data)) : Prop :=
  ∀ e ∈ entries, ∀ k n, Gives e k n → t.ids.lookup k = none

theorem LacksKindsOf.set {t : CodecTable} {e : Data × Data} {entries : List (Data × Data)}
    (h : t.LacksKindsOf (e :: entries)) (hkinds : KindsApart (e :: entries)) {k : Kind} {n : Nat} (he : Gives e k n) :
    (enter.set t k n).LacksKindsOf entries := by
  intro e' he' l m hgives
  rw [lookup_ids_set, if_neg, h e' (List.mem_cons_of_mem e he') l m hgives]
  rintro rfl
  exact (List.pairwise_cons.1 hkinds).1 e' he' l n m he hgives

/-- **Making an entry for a kind that has no number**: the number has to be free. -/
theorem entry_eq_ok_iff {t t' : CodecTable} (ht : t.Consistent) {e : Data × Data}
    (hnew : ∀ k n, Gives e k n → t.ids.lookup k = none) :
    t.entry e.1 e.2 = .ok t' ↔ ∃ k n, Gives e k n ∧ t.tags.lookup n = none ∧ t' = enter.set t k n := by
  rw [entry_eq_ok_iff_free]
  refine exists_congr fun k => exists_congr fun n => and_congr_right fun he =>
    and_congr_left fun _ => ⟨fun hfree => ?_, fun hn l hl => ?_⟩
  · -- a kind that had the number would be this one, which has none
    rcases hn : t.tags.lookup n with _ | l
    · rfl
    · have hk := hnew k n he
      rw [← hfree l hn, (ht l n).2 hn] at hk
      cases hk
  · rw [hn] at hl
    cases hl

/-- **Which entries are made in a table that has no number for their kinds**: each gives a number, which is free and
which no other gives. -/
theorem enterAll_ok_iff : ∀ {entries : List (Data × Data)} {t : CodecTable}, t.Consistent → KindsApart entries →
    t.LacksKindsOf entries →
    ((enterAll t entries).1 = .ok () ↔
      (∀ e ∈ entries, ∃ k n, Gives e k n ∧ t.tags.lookup n = none) ∧ NumbersApart entries)
  | [], _, _, _, _ => iff_of_true rfl ⟨List.forall_mem_nil _, .nil⟩
  | e :: entries, t, ht, hkinds, hnew => by
    have hnewFirst := hnew e List.mem_cons_self
    unfold enterAll NumbersApart
    rw [List.forall_mem_cons, List.pairwise_cons]
    rcases hentry : t.entry e.1 e.2 with f | t'
    · refine iff_of_false (fun h => by cases h) ?_
      rintro ⟨⟨⟨k, n, he, hn⟩, -⟩, -⟩
      rw [(entry_eq_ok_iff ht hnewFirst).2 ⟨k, n, he, hn, rfl⟩] at hentry
      cases hentry
    · obtain ⟨k, n, he, hn, rfl⟩ := (entry_eq_ok_iff ht hnewFirst).1 hentry
      dsimp only
      rw [enterAll_ok_iff (ht.entry hentry) (List.pairwise_cons.1 hkinds).2 (hnew.set hkinds he)]
      -- the number of the first entry is what the table has more for the others
      have htags : ∀ m, (enter.set t k n).tags.lookup m = none ↔ m ≠ n ∧ t.tags.lookup m = none := fun m => by
        rw [lookup_tags_set, hnewFirst k n he]
        by_cases hm : m = n <;> simp [hm]
      simp only [htags]
      constructor
      · rintro ⟨hentries, hapart⟩
        refine ⟨⟨⟨k, n, he, hn⟩, fun e' he' => ?_⟩, fun e' he' l l' m hl hl' => ?_, hapart⟩
        · obtain ⟨l, m, hgives, -, hm⟩ := hentries e' he'
          exact ⟨l, m, hgives, hm⟩
        · obtain ⟨i, j, hgives, hj, -⟩ := hentries e' he'
          exact hj ((hgives.unique hl').2.trans (hl.unique he).2)
      · rintro ⟨⟨-, hentries⟩, hne, hapart⟩
        refine ⟨fun e' he' => ?_, hapart⟩
        obtain ⟨l, m, hgives, hm⟩ := hentries e' he'
        refine ⟨l, m, hgives, ?_, hm⟩
        rintro rfl
        exact hne e' he' k l m he hgives

/-- **What is in the table when all entries have been made**: what was there, and what they give. -/
theorem lookup_enterAll : ∀ {entries : List (Data × Data)} {t : CodecTable}, t.Consistent → KindsApart entries →
    t.LacksKindsOf entries → (enterAll t entries).1 = .ok () → ∀ k n,
    ((enterAll t entries).2.ids.lookup k = some n ↔ t.ids.lookup k = some n ∨ ∃ e ∈ entries, Gives e k n)
  | [], t, _, _, _, _, k, n => by simp [enterAll]
  | e :: entries, t, ht, hkinds, hnew, h, k, n => by
    have hnewFirst := hnew e List.mem_cons_self
    unfold enterAll at h ⊢
    rcases hentry : t.entry e.1 e.2 with f | t' <;> rw [hentry] at h
    · cases h
    obtain ⟨l, m, he, -, rfl⟩ := (entry_eq_ok_iff ht hnewFirst).1 hentry
    dsimp only at h ⊢
    rw [lookup_enterAll (ht.entry hentry) (List.pairwise_cons.1 hkinds).2 (hnew.set hkinds he) h, lookup_ids_set,
      List.exists_mem_cons_iff, ← or_assoc]
    refine or_congr_left ?_
    by_cases hk : k = l
    · subst hk
      rw [if_pos rfl, hnewFirst k m he]
      refine ⟨fun heq => .inr (Option.some.inj heq ▸ he), fun h => ?_⟩
      rcases h with h | hgives
      · cases h
      · rw [(he.unique hgives).2]
    · rw [if_neg hk, or_iff_left fun hgives => hk (hgives.unique he).1]

/-! ### Loading -/

/-- **The entries say that the tag has the number.** -/
def States (entries : List (Data × Data)) (tag : Text) (id : Int) : Prop :=
  ∃ e ∈ entries, e.1.string? = some tag ∧ e.2.integer? = some id

theorem states_iff {entries : List (Data × Data)} (h : Loadable entries) {tag : Text} {id : Int} :
    States entries tag id ↔
      ∃ k ∈ encodedKinds, k.name = tag ∧ ∃ n : Nat, (n : Int) = id ∧ ∃ e ∈ entries, Gives e k n := by
  constructor
  · rintro ⟨e, he, htag, hid⟩
    obtain ⟨k, hk, hname⟩ := h.tags e he
    obtain ⟨n, hn⟩ := h.ids e he
    obtain rfl : k.name = tag := Option.some.inj (hname.symm.trans htag)
    have hnumber : (n : Int) = id := Option.some.inj (hn.symm.trans hid)
    exact ⟨k, hk, rfl, n, hnumber, e, he, ⟨_, htag, kindOfTag?_eq_some_iff.2 ⟨hk, rfl⟩⟩, hn⟩
  · rintro ⟨k, -, rfl, n, rfl, ⟨tag, id⟩, he, ⟨s, htag, hk⟩, hn⟩
    obtain ⟨-, rfl⟩ := kindOfTag?_eq_some_iff.1 hk
    exact ⟨(tag, id), he, htag, hn⟩

theorem idForTag_eq_ok_iff {t : CodecTable} {tag : Text} {n : Nat} :
    t.idForTag tag = .ok n ↔ ∃ k ∈ encodedKinds, k.name = tag ∧ t.ids.lookup k = some n := by
  unfold idForTag
  rcases htag : kindOfTag? tag with _ | k
  · refine iff_of_false (fun h => by cases h) ?_
    rintro ⟨k, hk, rfl, -⟩
    rw [kindOfTag?_eq_some_iff.2 ⟨hk, rfl⟩] at htag
    cases htag
  · obtain ⟨hk, rfl⟩ := kindOfTag?_eq_some_iff.1 htag
    constructor
    · exact fun h => ⟨k, hk, rfl, lookup_of_idFor h⟩
    · rintro ⟨l, hl, hname, hn⟩
      have hkl : kindOfTag? k.name = some l := kindOfTag?_eq_some_iff.2 ⟨hl, hname⟩
      obtain rfl := Option.some.inj (htag.symm.trans hkl)
      unfold idFor
      dsimp only
      rw [hn]

theorem tagFor_eq_ok_iff {t : CodecTable} {id : Int} {k : Kind} :
    t.tagFor id = .ok k ↔ ∃ n : Nat, (n : Int) = id ∧ t.tags.lookup n = some k := by
  have hlookup : (if id < 0 then none else t.tags.lookup id.toNat) = some k ↔
      ∃ n : Nat, (n : Int) = id ∧ t.tags.lookup n = some k := by
    split_ifs with hneg
    · refine iff_of_false (fun h => by cases h) ?_
      rintro ⟨n, rfl, -⟩
      omega
    · obtain ⟨n, rfl⟩ := Int.eq_ofNat_of_zero_le (Int.not_lt.1 hneg)
      simp only [Int.toNat_natCast, Int.ofNat_inj, exists_eq_left]
  rw [← hlookup]
  unfold tagFor
  rcases (if id < 0 then none else t.tags.lookup id.toNat) with _ | l
  · exact iff_of_false (throw_ne_ok _ _ _) fun h => by cases h
  · simp

/-- Tables with the same numbers answer alike. -/
theorem Consistent.answers_eq {t t' : CodecTable} (ht : t.Consistent) (ht' : t'.Consistent)
    (h : ∀ k n, t'.ids.lookup k = some n ↔ t.ids.lookup k = some n) (tag : Text) (id : Int) :
    t'.idForTag tag = t.idForTag tag ∧ t'.tagFor id = t.tagFor id := by
  have hids : ∀ k, t'.ids.lookup k = t.ids.lookup k := fun k => Option.ext (h k)
  have htags : ∀ n, t'.tags.lookup n = t.tags.lookup n := fun n =>
    Option.ext fun k => (ht' k n).symm.trans ((h k n).trans (ht k n))
  unfold idForTag idFor CodecTable.tagFor
  simp only [hids, htags, and_self]

/-- What a table says that has been loaded. -/
theorem lookup_load (t : CodecTable) {entries : List (Data × Data)} (hkinds : KindsApart entries) :
    ((t.load entries).1 = .ok () ↔ Loadable entries) ∧
    (Loadable entries → ∀ k n, (t.load entries).2.ids.lookup k = some n ↔ ∃ e ∈ entries, Gives e k n) := by
  have hlacks : empty.LacksKindsOf entries := fun _ _ _ _ _ => rfl
  have hok : (t.load entries).1 = .ok () ↔ Loadable entries := by
    unfold load
    rw [enterAll_ok_iff consistent_empty hkinds hlacks, loadable_iff]
    simp [empty]
  refine ⟨hok, fun h k n => ?_⟩
  rw [load, lookup_enterAll consistent_empty hkinds hlacks (hok.2 h)]
  exact or_iff_right fun h => by cases h

section
variable (t : CodecTable) {entries : List (Data × Data)} (hkinds : KindsApart entries) (h : Loadable entries)
  (tag : Text) (id : Int)
include hkinds h

/-- The numbers of a table that has been loaded. -/
theorem idForTag_load_iff :
    (∃ n : Nat, n = id ∧ (t.load entries).2.idForTag tag = .ok n) ↔ States entries tag id := by
  have hlookup := (lookup_load t hkinds).2 h
  simp only [states_iff h, idForTag_eq_ok_iff]
  constructor
  · rintro ⟨n, hn, k, hk, hname, hid⟩
    exact ⟨k, hk, hname, n, hn, (hlookup k n).1 hid⟩
  · rintro ⟨k, hk, hname, n, hn, hgives⟩
    exact ⟨n, hn, k, hk, hname, (hlookup k n).2 hgives⟩

/-- The tags of a table that has been loaded. -/
theorem tagFor_load_iff :
    (∃ k : Kind, k.name = tag ∧ (t.load entries).2.tagFor id = .ok k) ↔ States entries tag id := by
  have hlookup := (lookup_load t hkinds).2 h
  simp only [states_iff h, tagFor_eq_ok_iff, ← consistent_load t entries _ _]
  constructor
  · rintro ⟨k, hname, n, hn, hid⟩
    exact ⟨k, encodes_load t entries k n hid, hname, n, hn, (hlookup k n).1 hid⟩
  · rintro ⟨k, hk, hname, n, hn, hgives⟩
    exact ⟨k, hname, n, hn, (hlookup k n).2 hgives⟩

/-- **The order of the entries does not matter**, nor does what the table was. -/
theorem answers_load_perm (t' : CodecTable) {entries' : List (Data × Data)} (hp : entries'.Perm entries) :
    (t'.load entries').2.idForTag tag = (t.load entries).2.idForTag tag ∧
      (t'.load entries').2.tagFor id = (t.load entries).2.tagFor id := by
  refine (consistent_load t entries).answers_eq (consistent_load t' entries') (fun k n => ?_) tag id
  rw [(lookup_load t' (hkinds.perm hp)).2 (h.perm hp), (lookup_load t hkinds).2 h]
  exact exists_congr fun e => and_congr_left fun _ => hp.mem_iff

end

/-- **Loading a codec table.** Whatever the table was, entries with different tags are loaded exactly if they meet what
is asked of them; if they do not, this is a fault of the configuration, unless a tag or a number has too many digits
to be quoted. The numbers and the tags of a table that has been loaded are exactly those that the entries state, and
the order of the entries does not matter. -/
theorem load_faithful (t : CodecTable) {entries : List (Data × Data)} (hkeys : ∀ e ∈ entries, e.1.isKey = true)
    (htags : entries.Pairwise fun a b => a.1.sameKey b.1 = false) :
    let loaded := (t.load entries).2
    ((t.load entries).1 = .ok () ↔ Loadable entries) ∧
    (∀ f, (t.load entries).1 = .error f →
      f.category = .configuration ∨ f = .tooManyDigits ∧ ∃ e ∈ entries, e.1.Unwritable ∨ e.2.Unwritable) ∧
    (Loadable entries → ∀ (tag : Text) (id : Int),
      ((∃ n : Nat, n = id ∧ loaded.idForTag tag = .ok n) ↔ States entries tag id) ∧
      ((∃ k : Kind, k.name = tag ∧ loaded.tagFor id = .ok k) ↔ States entries tag id)) ∧
    ∀ (t' : CodecTable) (entries' : List (Data × Data)), entries'.Perm entries →
      ((t'.load entries').1 = .ok () ↔ Loadable entries) ∧
      (Loadable entries → ∀ (tag : Text) (id : Int),
        (t'.load entries').2.idForTag tag = loaded.idForTag tag ∧
          (t'.load entries').2.tagFor id = loaded.tagFor id) := by
  intro loaded
  have hkinds := KindsApart.of_tags htags
  refine ⟨(lookup_load t hkinds).1, fun f hf => load_fault hkeys hf,
    fun h tag id => ⟨idForTag_load_iff t hkinds h tag id, tagFor_load_iff t hkinds h tag id⟩,
    fun t' entries' hp => ⟨?_, fun h tag id => answers_load_perm t hkinds h tag id t' hp⟩⟩
  rw [(lookup_load t' (hkinds.perm hp)).1]
  exact ⟨.perm hp.symm, .perm hp⟩

/-- Two kinds are given numbers, and the first is told by its number. -/
theorem load_faithful_pair :
    let entries : List (Data × Data) := [(.str "int", .int 0), (.str "str", .subInt "Id" 1)]
    (empty.load entries).1 = .ok () ∧ ∃ k : Kind, k.name = "int" ∧ (empty.load entries).2.tagFor 0 = .ok k := by
  intro entries
  have hkeys : ∀ e ∈ entries, e.1.isKey = true := by decide
  have htags : entries.Pairwise fun a b => a.1.sameKey b.1 = false := by decide
  obtain ⟨hok, -, hstates, -⟩ := load_faithful empty hkeys htags
  have hloadable : Loadable entries := hok.1 rfl
  exact ⟨hok.2 hloadable, ((hstates hloadable "int" 0).2).2 ⟨_, List.mem_cons_self, rfl, rfl⟩⟩

/-- **A table can be refused with a fault that is none of the configuration**: what the message would quote is a
number with too many digits. -/
theorem load_raises_large :
    let entries : List (Data × Data) := [(.str "int", .int (-(Int.ofNat (Nat.pow 10 4300))))]
    (empty.load entries).1 = .error .tooManyDigits ∧ Fault.tooManyDigits.category ≠ .configuration := by
  exact ⟨raised?_eq_some.1 (by decide +kernel), by decide⟩

end Wire.CodecTable

end StackCalc
