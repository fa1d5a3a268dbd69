import StackCalc.Data.Conversion
import StackCalc.Proofs.Value.Faults
import StackCalc.Proofs.Wire.Record

/-! # There and back through plain data

A value that is built from scalars and pairs (`Value.Basic`) has a data form that stands for the same value:
the forms of scalars, of proper lists and of other pairs never overlap, since a mapping with the keys `car` and
`cdr` comes from a pair only. No other value survives the trip. Code and callables have no data form, and
that of an object with members starts with a key that no pair has (`Data.starts_mapOf`), so it is refused on the
way back, at whatever place in a list or pair it stands.

A refusal quotes what is refused, and a text that would need an integer of too many digits does not exist
(`Value.Legible`). That is the only fault that the trip can end in besides. -/

namespace StackCalc

/-! ### What can be quoted -/

/-- Data that can be quoted. -/
def Data.Legible (d : Data) : Prop := ∃ s, d.shown Naming.standard = .ok s

mutual

/-- **Nothing that becomes data is without a text**: the integers in the value, in its listed members and in its
code are short enough to be quoted. -/
def Value.Legible : Value → Prop
  | .mk _ p =>
    match p with
    | .int n => Integer.hasText n = true
    | .cons a b => a.Legible ∧ b.Legible
    | .code c => ∃ s, c.shown Naming.standard = .ok s
    | .object c => c.Legible
    | _ => True

def Composite.Legible : Composite → Prop
  | .record _ vs => Value.AllLegible vs
  | .host _ _ _ traits => Trait.Legible traits
  | _ => True

def Trait.Legible : List Trait → Prop
  | [] => True
  | .members _ entries :: _ => Value.EntriesLegible entries
  | .hiddenMembers _ :: _ => True
  | _ :: rest => Trait.Legible rest

def Value.EntriesLegible : List (Text × Value) → Prop
  | [] => True
  | (_, v) :: rest => v.Legible ∧ Value.EntriesLegible rest

def Value.AllLegible : List Value → Prop
  | [] => True
  | v :: vs => v.Legible ∧ Value.AllLegible vs

end

/-- **What may be assumed about the texts of integers**: nothing in general, or that they are all there. The
faults of the trip depend on it. -/
class Legibility where
  legible : Prop

/-- A fault of the trip: a wrong type, or a text that is missing. -/
instance [Legibility] : Tolerance where
  Tolerates f := f.category = .wrongType ∨ f = .tooManyDigits ∧ ¬ Legibility.legible

namespace Data

theorem legible_int {n : Int} (h : Integer.hasText n = true) : (Data.int n).Legible := by
  refine ⟨Integer.render n, ?_⟩
  unfold shown showInt Integer.render?
  rw [if_pos h]

theorem legible_str (s : Text) : (Data.str s).Legible := ⟨Text.quoted s, by unfold shown; rfl⟩

theorem showAll_of_legible : ∀ {items : List Data}, (∀ d ∈ items, d.Legible) →
    ∃ texts, showAll Naming.standard items = .ok texts
  | [], _ => ⟨[], by unfold showAll; rfl⟩
  | d :: ds, h => by
    obtain ⟨s, hs⟩ := h d List.mem_cons_self
    obtain ⟨texts, htexts⟩ := showAll_of_legible fun e he => h e (List.mem_cons_of_mem d he)
    refine ⟨s :: texts, ?_⟩
    unfold showAll
    rw [hs, htexts]
    rfl

theorem showEntries_of_legible : ∀ {entries : List (Data × Data)}, (∀ e ∈ entries, e.1.Legible ∧ e.2.Legible) →
    ∃ texts, showEntries Naming.standard entries = .ok texts
  | [], _ => ⟨[], by unfold showEntries; rfl⟩
  | (k, v) :: rest, h => by
    obtain ⟨⟨s, hs⟩, ⟨t, ht⟩⟩ := h (k, v) List.mem_cons_self
    obtain ⟨texts, htexts⟩ := showEntries_of_legible fun e he => h e (List.mem_cons_of_mem (k, v) he)
    refine ⟨showEntry s t :: texts, ?_⟩
    unfold showEntries
    rw [hs, ht, htexts]
    rfl

theorem legible_list {items : List Data} (h : ∀ d ∈ items, d.Legible) : (Data.list items).Legible := by
  obtain ⟨texts, htexts⟩ := showAll_of_legible h
  refine ⟨showList texts, ?_⟩
  unfold shown
  rw [htexts]
  rfl

theorem legible_map {entries : List (Data × Data)} (h : ∀ e ∈ entries, e.1.Legible ∧ e.2.Legible) :
    (Data.map entries).Legible := by
  obtain ⟨texts, htexts⟩ := showEntries_of_legible h
  refine ⟨"\x7b" ++ Text.intercalate ", " texts ++ "\x7d", ?_⟩
  unfold shown
  rw [htexts]
  rfl

/-! ### Mappings that are tagged -/

/-- What is in a mapping after a key has been set was there or has been set. -/
theorem mem_insert {key value : Data} : ∀ {entries : List (Data × Data)} {e : Data × Data},
    e ∈ Data.insert key value entries →
      (e.1 = key ∨ ∃ e' ∈ entries, e.1 = e'.1) ∧ (e.2 = value ∨ ∃ e' ∈ entries, e.2 = e'.2)
  | [], e, h => by
    obtain rfl := List.mem_singleton.1 h
    exact ⟨.inl rfl, .inl rfl⟩
  | (k, v) :: rest, e, h => by
    unfold Data.insert at h
    split_ifs at h
    · rcases List.mem_cons.1 h with rfl | hrest
      · exact ⟨.inr ⟨(k, v), List.mem_cons_self, rfl⟩, .inl rfl⟩
      · have hmem := List.mem_cons_of_mem (k, v) hrest
        exact ⟨.inr ⟨e, hmem, rfl⟩, .inr ⟨e, hmem, rfl⟩⟩
    · rcases List.mem_cons.1 h with rfl | hrest
      · exact ⟨.inr ⟨(k, v), List.mem_cons_self, rfl⟩, .inr ⟨(k, v), List.mem_cons_self, rfl⟩⟩
      · obtain ⟨hkey, hvalue⟩ := mem_insert hrest
        refine ⟨hkey.imp_right ?_, hvalue.imp_right ?_⟩
        · rintro ⟨e', he', h⟩
          exact ⟨e', List.mem_cons_of_mem _ he', h⟩
        · rintro ⟨e', he', h⟩
          exact ⟨e', List.mem_cons_of_mem _ he', h⟩

/-- What holds of all keys and all values of a mapping. -/
theorem forall_mapOf {P : Data → Prop} {entries : List (Data × Data)} (h : ∀ e ∈ entries, P e.1 ∧ P e.2) :
    ∀ e ∈ Data.mapOf entries, P e.1 ∧ P e.2 := by
  suffices hfold : ∀ (entries m : List (Data × Data)), (∀ e ∈ entries, P e.1 ∧ P e.2) →
      (∀ e ∈ m, P e.1 ∧ P e.2) → ∀ e ∈ entries.foldl (fun m e => Data.insert e.1 e.2 m) m, P e.1 ∧ P e.2 from
    hfold entries [] h fun _ he => by cases he
  intro entries
  induction entries with
  | nil => exact fun _ _ hm => hm
  | cons e es ih =>
    intro m hes hm
    have he := hes e List.mem_cons_self
    refine ih _ (fun e' he' => hes e' (List.mem_cons_of_mem e he')) fun e' he' => ?_
    obtain ⟨hkey, hvalue⟩ := mem_insert he'
    constructor
    · rcases hkey with h | ⟨e'', he'', h⟩ <;> rw [h]
      · exact he.1
      · exact (hm e'' he'').1
    · rcases hvalue with h | ⟨e'', he'', h⟩ <;> rw [h]
      · exact he.2
      · exact (hm e'' he'').2

/-- The first key of a mapping stays the first. -/
theorem starts_mapOf (key value : Data) (entries : List (Data × Data)) :
    ∃ value' rest, Data.mapOf ((key, value) :: entries) = (key, value') :: rest := by
  suffices hfold : ∀ (entries m : List (Data × Data)), (∃ value rest, m = (key, value) :: rest) →
      ∃ value' rest, entries.foldl (fun m e => Data.insert e.1 e.2 m) m = (key, value') :: rest from
    hfold entries _ ⟨value, [], rfl⟩
  intro entries
  induction entries with
  | nil => exact fun _ hm => hm
  | cons e es ih =>
    rintro m ⟨value, rest, rfl⟩
    refine ih _ ?_
    dsimp only
    rw [Data.insert.eq_def]
    dsimp only
    split_ifs
    · exact ⟨e.2, rest, rfl⟩
    · exact ⟨value, Data.insert e.1 e.2 rest, rfl⟩

/-- A mapping of the members of a pair stands for the pair. -/
theorem toValue_pair (id : DomainId) (first second : Data) :
    (Data.map [(.str "car", first), (.str "cdr", second)]).toValue id = (do
      let a ← first.toValue id
      return .mk id (.cons a (← second.toValue id))) := by
  have hcar : (Data.str "car").sameKey (.str "car") = true := by decide +kernel
  have hcdr : (Data.str "cdr").sameKey (.str "cdr") = true := by decide +kernel
  rw [Data.toValue, hcar, hcdr]
  rfl

/-- **A mapping that is tagged as an object stands for no value.** -/
theorem toValue_tagged (id : DomainId) (tag : Data) (rest : List (Data × Data)) :
    (Data.map ((.str structKey, tag) :: rest)).toValue id =
      .error (noValueForm (.map ((.str structKey, tag) :: rest))) := by
  have hcar : (Data.str structKey).sameKey (.str "car") = false := by decide +kernel
  have hcdr : (Data.str structKey).sameKey (.str "cdr") = false := by decide +kernel
  rcases rest with _ | ⟨⟨l, w⟩, _ | ⟨e, es⟩⟩
  · rfl
  · unfold Data.toValue
    rw [hcar, hcdr]
    rfl
  · rfl

end Data

/-! ### The way there -/

section
variable [Legibility]

open Legibility (legible)

/-- It is tolerated that a text is missing if there is no telling that all are there. -/
theorem tolerated_of_missing {x : Except Fault Text} (hx : legible → ∃ s, x = .ok s)
    (h : x = .error .tooManyDigits) : Fault.tooManyDigits.Tolerated := by
  refine .inr ⟨rfl, fun hl => ?_⟩
  obtain ⟨s, hs⟩ := hx hl
  rw [h] at hs
  cases hs

/-- A value without a data form is refused. -/
theorem Value.refused {v : Value} (h : legible → ∃ s, v.shown Naming.standard = .ok s) :
    (noDataForm v).Tolerated := by
  unfold noDataForm
  split
  · exact .inl rfl
  next f hf =>
    obtain rfl := Value.eq_tooManyDigits_of_shown hf
    exact tolerated_of_missing h hf

/-- Data that stands for no value is refused. -/
theorem Data.refused {d : Data} (h : legible → d.Legible) : (noValueForm d).Tolerated := by
  unfold noValueForm
  split
  · exact .inl rfl
  next f hf =>
    obtain rfl := Data.eq_tooManyDigits_of_shown hf
    exact tolerated_of_missing h hf

mutual

/-- **The data form of a value that can be quoted can be quoted**, and nothing but a refusal is in its way. -/
theorem Value.yields_toData (v : Value) (h : legible → v.Legible) :
    Yields (fun d => legible → d.Legible) v.toData := by
  cases v with
  | mk d p =>
    unfold Value.toData
    cases p with
    | int n => exact .pure fun hl => Data.legible_int (h hl)
    | float x i => exact .pure fun _ => ⟨_, by unfold Data.shown; rfl⟩
    | str s => exact .pure fun _ => Data.legible_str s
    | bool b => exact .pure fun _ => ⟨_, by unfold Data.shown; rfl⟩
    | null => exact .pure fun _ => ⟨_, by unfold Data.shown; rfl⟩
    | cons a b =>
      have ha : legible → a.Legible := fun hl => (h hl).1
      have hb : legible → b.Legible := fun hl => (h hl).2
      refine (a.yields_toData ha).bind fun first hfirst => (b.yields_toDataTail hb).bind fun rest hrest => ?_
      cases rest with
      | some rest => exact .pure fun hl => Data.legible_list (List.forall_mem_cons.2 ⟨hfirst hl, hrest rest rfl hl⟩)
      | none =>
        refine (b.yields_toData hb).bind fun second hsecond => .pure fun hl => Data.legible_map ?_
        rintro e (_ | ⟨_, _ | ⟨_, he⟩⟩)
        · exact ⟨Data.legible_str _, hfirst hl⟩
        · exact ⟨Data.legible_str _, hsecond hl⟩
        · cases he
    | object c =>
      refine (c.yields_toDataEntries h).bind fun entries hentries => ?_
      cases entries with
      | some entries =>
        refine .pure fun hl => Data.legible_map (Data.forall_mapOf (List.forall_mem_map.2 fun e he => ?_))
        refine ⟨Data.legible_str e.1, ?_⟩
        rcases List.mem_cons.1 he with rfl | he
        · exact Data.legible_str _
        · exact hentries entries rfl e he hl
      | none => exact .error (Value.refused fun _ => ⟨_, by unfold Value.shown Payload.shown; rfl⟩)
    | code c =>
      refine .error (Value.refused fun hl => ?_)
      obtain ⟨s, hs⟩ := h hl
      exact ⟨_, by unfold Value.shown Payload.shown; rw [hs]; rfl⟩
    | callable f => exact .error (Value.refused fun _ => ⟨_, by unfold Value.shown Payload.shown; rfl⟩)
    | host k s t => exact .error (Value.refused fun _ => ⟨_, by unfold Value.shown Payload.shown; rfl⟩)

theorem Value.yields_toDataTail (v : Value) (h : legible → v.Legible) :
    Yields (fun r => ∀ items, r = some items → legible → ∀ d ∈ items, d.Legible) v.toDataTail := by
  cases v with
  | mk d p =>
    unfold Value.toDataTail
    cases p with
    | null =>
      refine .pure fun items hitems _ d hd => ?_
      cases hitems
      cases hd
    | cons a b =>
      refine (a.yields_toData fun hl => (h hl).1).bind fun first hfirst =>
        (b.yields_toDataTail fun hl => (h hl).2).bind fun rest hrest => .pure fun items hitems hl => ?_
      cases rest with
      | none => cases hitems
      | some rest =>
        cases hitems
        exact List.forall_mem_cons.2 ⟨hfirst hl, hrest rest rfl hl⟩
    | _ => exact .pure fun items hitems => by cases hitems

theorem Composite.yields_toDataEntries : ∀ c : Composite, (legible → c.Legible) →
    Yields (fun r => ∀ entries, r = some entries → ∀ e ∈ entries, legible → e.2.Legible) c.toDataEntries
  | .record t vs, h => by
    unfold Composite.toDataEntries
    refine (Members.yields_forms fun e he => yields_toDataEach vs h e.2 (List.of_mem_zip he).2).bind fun found hfound =>
      .pure fun entries hentries => ?_
    cases hentries
    exact hfound
  | .host _ _ _ traits, h => yields_toDataTraits traits h
  | .struct _, _ | .pattern .., _ | .binder .., _ | .construction .., _ =>
    .pure fun entries hentries => by cases hentries

theorem yields_toDataTraits : ∀ traits : List Trait, (legible → Trait.Legible traits) →
    Yields (fun r => ∀ entries, r = some entries → ∀ e ∈ entries, legible → e.2.Legible) (toDataTraits traits)
  | [], _ => .pure fun entries hentries => by cases hentries
  | .members _ members :: _, h => by
    unfold toDataTraits
    refine (Members.yields_forms (yields_toDataMembers members h)).bind fun found hfound =>
      .pure fun entries hentries => ?_
    cases hentries
    exact hfound
  | .hiddenMembers _ :: _, _ => by
    refine .pure fun entries hentries e he => ?_
    cases hentries
    cases he
  | .repeats _ :: rest, h => by
    unfold toDataTraits
    exact yields_toDataTraits rest h
  | .counts :: rest, h => by
    unfold toDataTraits
    exact yields_toDataTraits rest h

theorem yields_toDataMembers : ∀ members : List (Text × Value), (legible → Value.EntriesLegible members) →
    ∀ e ∈ toDataMembers members, Yields (fun d => legible → d.Legible) e.2
  | [], _ => fun _ he => by cases he
  | (_, v) :: rest, h => by
    unfold toDataMembers
    exact List.forall_mem_cons.2
      ⟨v.yields_toData fun hl => (h hl).1, yields_toDataMembers rest fun hl => (h hl).2⟩

theorem yields_toDataEach : ∀ vs : List Value, (legible → Value.AllLegible vs) →
    ∀ r ∈ toDataEach vs, Yields (fun d => legible → d.Legible) r
  | [], _ => fun _ hr => by cases hr
  | v :: vs, h => by
    unfold toDataEach
    exact List.forall_mem_cons.2 ⟨v.yields_toData fun hl => (h hl).1, yields_toDataEach vs fun hl => (h hl).2⟩

end

/-! ### The way back -/

/-- Built from numbers, texts, truth values, null and pairs. -/
def Value.Basic : Value → Prop
  | .mk _ p =>
    match p with
    | .int _ | .float .. | .str _ | .bool _ | .null => True
    | .cons a b => a.Basic ∧ b.Basic
    | _ => False

/-- **What comes back of a value**: the same value if it is built from scalars and pairs, and a refusal if not. -/
structure Value.Returns (v : Value) (x : Except Fault Value) : Prop where
  basic (h : v.Basic) : ∃ w, x = .ok w ∧ v.Same w
  other (h : ¬ v.Basic) : ∃ f : Fault, x = .error f ∧ f.Tolerated

namespace Value.Returns

theorem scalar {d : DomainId} {p : Payload} {w : Value} (hv : (Value.mk d p).Basic) (h : (Value.mk d p).Same w) :
    (Value.mk d p).Returns (.ok w) :=
  ⟨fun _ => ⟨w, rfl, h⟩, fun hn => absurd hv hn⟩

theorem refusal {v : Value} (hv : ¬ v.Basic) {f : Fault} (hf : f.Tolerated) : v.Returns (.error f) :=
  ⟨fun h => absurd h hv, fun _ => ⟨f, rfl, hf⟩⟩

variable {a b : Value} {x y : Except Fault Value}

/-- A pair comes back if its members do, -/
theorem cons (d id : DomainId) (ha : a.Returns x) (hb : b.Returns y) :
    (Value.mk d (.cons a b)).Returns (do
      let first ← x
      return .mk id (.cons first (← y))) := by
  constructor
  · rintro ⟨hca, hcb⟩
    obtain ⟨v, rfl, hv⟩ := ha.basic hca
    obtain ⟨w, rfl, hw⟩ := hb.basic hcb
    exact ⟨.mk id (.cons v w), rfl, .cons d id hv hw⟩
  · intro hn
    by_cases hca : a.Basic
    · obtain ⟨v, rfl, -⟩ := ha.basic hca
      obtain ⟨f, rfl, hf⟩ := hb.other fun hcb => hn ⟨hca, hcb⟩
      exact ⟨f, rfl, hf⟩
    · obtain ⟨f, rfl, hf⟩ := ha.other hca
      exact ⟨f, rfl, hf⟩

/-- whichever of them comes first. -/
theorem cons_swap (d id : DomainId) (ha : a.Returns x) (hb : b.Returns y) :
    (Value.mk d (.cons a b)).Returns (do
      let rest ← y
      return .mk id (.cons (← x) rest)) := by
  constructor
  · rintro ⟨hca, hcb⟩
    obtain ⟨v, rfl, hv⟩ := ha.basic hca
    obtain ⟨w, rfl, hw⟩ := hb.basic hcb
    exact ⟨.mk id (.cons v w), rfl, .cons d id hv hw⟩
  · intro hn
    by_cases hcb : b.Basic
    · obtain ⟨w, rfl, -⟩ := hb.basic hcb
      obtain ⟨f, rfl, hf⟩ := ha.other fun hca => hn ⟨hca, hcb⟩
      exact ⟨f, rfl, hf⟩
    · obtain ⟨f, rfl, hf⟩ := hb.other hcb
      exact ⟨f, rfl, hf⟩

end Value.Returns

mutual

/-- **What the data form of a value stands for.** -/
theorem Value.returns_toData (id : DomainId) : ∀ (v : Value), (legible → v.Legible) →
    ∀ {d : Data}, v.toData = .ok d → v.Returns (d.toValue id)
  | .mk dom p, h, d, hd => by
    have hlegible := (Value.mk dom p).yields_toData h
    rw [hd] at hlegible
    unfold Value.toData at hd
    cases p with
    | int n =>
      cases hd
      exact .scalar trivial (.int dom id n)
    | float x i =>
      cases hd
      exact .scalar trivial (.float dom id x i 0)
    | str s =>
      cases hd
      exact .scalar trivial (.str dom id s)
    | bool b =>
      cases hd
      exact .scalar trivial (.bool dom id b)
    | null =>
      cases hd
      exact .scalar trivial (.null dom id)
    | cons a b =>
      have ha : legible → a.Legible := fun hl => (h hl).1
      have hb : legible → b.Legible := fun hl => (h hl).2
      obtain ⟨first, hfirst, hd⟩ := exists_of_bind_ok hd
      obtain ⟨rest, hrest, hd⟩ := exists_of_bind_ok hd
      have hcar := a.returns_toData id ha hfirst
      cases rest with
      | some rest =>
        cases hd
        exact .cons_swap dom id hcar (b.returns_toDataTail id hb hrest)
      | none =>
        obtain ⟨second, hsecond, hd⟩ := exists_of_bind_ok hd
        cases hd
        rw [Data.toValue_pair]
        exact .cons dom id hcar (b.returns_toData id hb hsecond)
    | object c =>
      obtain ⟨entries, -, hd⟩ := exists_of_bind_ok hd
      cases entries with
      | none => cases hd
      | some entries =>
        cases hd
        obtain ⟨tag, rest, hstarts⟩ := Data.starts_mapOf (.str structKey) (.str c.name)
          (entries.map fun e => (Data.str e.1, e.2))
        rw [List.map_cons, hstarts] at hlegible ⊢
        rw [Data.toValue_tagged]
        have hother : ¬ (Value.mk dom (.object c)).Basic := fun h => h
        exact .refusal hother (Data.refused hlegible.of_ok)
    | code _ | callable _ | host _ _ _ => cases hd

/-- The items of a list stand for the list. -/
theorem Value.returns_toDataTail (id : DomainId) : ∀ (v : Value), (legible → v.Legible) → ∀ {items : List Data},
    v.toDataTail = .ok (some items) → v.Returns (Data.toValueList id items)
  | .mk dom p, h, items, hitems => by
    unfold Value.toDataTail at hitems
    cases p with
    | null =>
      cases hitems
      exact .scalar trivial (.null dom id)
    | cons a b =>
      obtain ⟨first, hfirst, hitems⟩ := exists_of_bind_ok hitems
      obtain ⟨rest, hrest, hitems⟩ := exists_of_bind_ok hitems
      cases rest with
      | none => cases hitems
      | some rest =>
        cases hitems
        have hcar := a.returns_toData id (fun hl => (h hl).1) hfirst
        exact .cons_swap dom id hcar (b.returns_toDataTail id (fun hl => (h hl).2) hrest)
    | _ => cases hitems

end

end

/-! ### Values that have a data form -/

mutual

theorem Value.exists_toData : ∀ {v : Value}, v.Basic → ∃ d, v.toData = .ok d
  | .mk dom p, h => by
    unfold Value.toData
    cases p with
    | int n => exact ⟨_, rfl⟩
    | float x i => exact ⟨_, rfl⟩
    | str s => exact ⟨_, rfl⟩
    | bool b => exact ⟨_, rfl⟩
    | null => exact ⟨_, rfl⟩
    | cons a b =>
      obtain ⟨first, hfirst⟩ := a.exists_toData h.1
      obtain ⟨rest, hrest⟩ := b.exists_toDataTail h.2
      obtain ⟨second, hsecond⟩ := b.exists_toData h.2
      dsimp only
      rw [hfirst, hrest, hsecond]
      cases rest with
      | some rest => exact ⟨_, rfl⟩
      | none => exact ⟨_, rfl⟩
    | code _ | callable _ | object _ | host _ _ _ => cases h

theorem Value.exists_toDataTail : ∀ {v : Value}, v.Basic → ∃ r, v.toDataTail = .ok r
  | .mk dom p, h => by
    unfold Value.toDataTail
    cases p with
    | cons a b =>
      obtain ⟨first, hfirst⟩ := a.exists_toData h.1
      obtain ⟨rest, hrest⟩ := b.exists_toDataTail h.2
      dsimp only
      rw [hfirst, hrest]
      exact ⟨_, rfl⟩
    | _ => exact ⟨_, rfl⟩

end

/-- **A value that is built from scalars and pairs comes back from its data form the same, and no other value comes
back**: it is refused with a wrong type on the way there or on the way back, unless what the refusal would quote
has an integer with too many digits for a text. -/
theorem Value.toValue_toData (v : Value) :
    (v.Basic → ∃ d, v.toData = .ok d ∧ ∀ id, ∃ w, d.toValue id = .ok w ∧ v.Same w) ∧
    (¬ v.Basic → ∀ id, ∃ f, (v.toData >>= fun d => d.toValue id) = .error f ∧
      (f.category = .wrongType ∨ f = .tooManyDigits ∧ ¬ v.Legible)) := by
  let _ : Legibility := ⟨v.Legible⟩
  have hback : ∀ {d : Data} (id : DomainId), v.toData = .ok d → v.Returns (d.toValue id) := fun id hd =>
    v.returns_toData id (fun hl => hl) hd
  constructor
  · intro hv
    obtain ⟨d, hd⟩ := Value.exists_toData hv
    exact ⟨d, hd, fun id => (hback id hd).basic hv⟩
  · intro hv id
    rcases hd : v.toData with f | d
    · have hyields := v.yields_toData fun hl => hl
      rw [hd] at hyields
      exact ⟨f, rfl, hyields.of_error⟩
    · exact (hback id hd).other hv

/-- **A refusal can be kept from being raised** by an integer that the code in question holds. -/
theorem Value.toData_large :
    let v : Value := .mk 0 (.code (.mk [] [.push (.mk 0 (.int (Int.ofNat (Nat.pow 10 4300))))]))
    ¬ v.Basic ∧ (v.toData >>= fun d => d.toValue 0) = .error .tooManyDigits ∧
      Fault.tooManyDigits.category ≠ .wrongType := by
  intro v
  have hlarge : showInt (Int.ofNat (Nat.pow 10 4300)) = .error .tooManyDigits := by decide +kernel
  have hshown : v.shown Naming.standard = .error .tooManyDigits := by
    unfold v Value.shown Payload.shown Code.shown showSteps Instr.shown Value.shown Payload.shown
    rw [hlarge]
    rfl
  have hdata : v.toData = throw (noDataForm v) := rfl
  refine ⟨fun h => h, ?_, by decide⟩
  rw [hdata]
  unfold noDataForm
  rw [hshown]
  rfl

end StackCalc
