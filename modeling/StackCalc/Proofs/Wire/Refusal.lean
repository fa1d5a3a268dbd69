import StackCalc.Proofs.Wire.Loading
import StackCalc.Proofs.Wire.Record

/-! # What is left of a table that is refused

A table that is loaded gives up what it was before the first entry is made. If an entry is refused, those before it
have been made and those behind it are not tried (`enterAll_error`), so what is left is the table of the entries
before, as if they alone had been loaded, and it answers as they say (`load_refused`). A value that was written under
the old table can be read under what is left if the kinds of its nodes have kept their numbers. -/

namespace StackCalc.Wire

variable {t t' : CodecTable}

/-! ### Values under two tables -/

/-- A value is written alike under tables that give its nodes the same numbers. -/
theorem writeValue_congr : ∀ {v : Value}, (∀ n ∈ v.nodes, t'.idFor n.kind = t.idFor n.kind) →
    writeValue t' v = writeValue t v
  | .mk d p, h => by
    have hroot : t'.idFor p.kind = t.idFor p.kind := h (.mk d p) (Value.mem_nodes_self _)
    have hpayload : writePayload t' d p = writePayload t d p := by
      cases p with
      | cons a b =>
        have ha : writeValue t' a = writeValue t a :=
          writeValue_congr fun n hn => h n (List.mem_cons_of_mem _ (List.mem_append_left _ hn))
        have hb : writeValue t' b = writeValue t b :=
          writeValue_congr fun n hn => h n (List.mem_cons_of_mem _ (List.mem_append_right _ hn))
        unfold writePayload
        dsimp only
        rw [ha, hb]
      | _ => rfl
    rw [writeValue_eq, writeValue_eq, hroot, hpayload]

namespace CodecTable

theorem ReadableFor.congr {v : Value} (hv : t.ReadableFor v) (h : ∀ n ∈ v.nodes, t'.idFor n.kind = t.idFor n.kind) :
    t'.ReadableFor v := fun n hn id hid => hv n hn id (h n hn ▸ hid)

/-! ### The entries before -/

/-- **A table that is refused leaves the entries before the refused one**, and nothing of what was there. The numbers
and the tags are those that these entries state, as if they alone had been loaded; and a value that has been written
before is read back as the same one if they give the kinds of its nodes the numbers that these had. -/
theorem load_refused (t : CodecTable) {entries : List (Data × Data)}
    (htags : entries.Pairwise fun a b => a.1.sameKey b.1 = false) {f : Fault} (h : (t.load entries).1 = .error f) :
    let left := (t.load entries).2
    ∃ before e after, entries = before ++ e :: after ∧ left.entry e.1 e.2 = .error f ∧
      (∀ old : CodecTable, old.load before = (.ok (), left)) ∧
      (∀ (tag : Text) (id : Int),
        ((∃ n : Nat, n = id ∧ left.idForTag tag = .ok n) ↔ States before tag id) ∧
        ((∃ k : Kind, k.name = tag ∧ left.tagFor id = .ok k) ↔ States before tag id)) ∧
      ∀ v bytes, writeValue t v = .ok bytes → t.ReadableFor v → v.ShortTexts →
        (∀ n ∈ v.nodes, left.idFor n.kind = t.idFor n.kind) → ∀ (d : DomainId) (rest : Bytes),
          ∃ w, v.Same w ∧ (readValue left d).outcome (bytes ++ rest) = (.ok w, rest) := by
  intro left
  obtain ⟨before, e, after, hentries, hbefore, he⟩ := enterAll_error h
  have hload : ∀ old : CodecTable, old.load before = (.ok (), left) := fun _ => hbefore
  have hkinds : KindsApart before := by
    rw [hentries] at htags
    exact .of_tags (List.pairwise_append.1 htags).1
  have hloadable : Loadable before := (lookup_load t hkinds).1.1 (congrArg Prod.fst (hload t))
  have hleft : (t.load before).2 = left := by rw [hload t]
  refine ⟨before, e, after, hentries, he, hload, fun tag id => ?_, fun v bytes hv hids hshort hsame d rest => ?_⟩
  · rw [← hleft]
    exact ⟨idForTag_load_iff t hkinds hloadable tag id, tagFor_load_iff t hkinds hloadable tag id⟩
  · have ht : left.Consistent := consistent_load t entries
    obtain ⟨w, hw, hread⟩ := reads_value ht d (hids.congr hsame) ((writeValue_congr hsame).trans hv) hshort
    exact ⟨w, hw, hread rest⟩

/-- A number written before is read after a refusal behind the entry that keeps the number of its kind. -/
theorem load_refused_kept :
    let t := (empty.load [(.str "int", .int 0), (.str "str", .int 1)]).2
    let entries : List (Data × Data) := [(.str "int", .int 0), (.str "complex", .int 2)]
    let five : Value := .mk 0 (.int 5)
    ∃ f, (t.load entries).1 = .error f ∧ ∃ bytes, writeValue t five = .ok bytes ∧
      ∀ rest, ∃ w, five.Same w ∧ (readValue (t.load entries).2 0).outcome (bytes ++ rest) = (.ok w, rest) := by
  intro t entries five
  have htags : entries.Pairwise fun a b => a.1.sameKey b.1 = false := by
    refine List.pairwise_pair.2 ?_
    decide
  have hids : t.ReadableFor five := by
    intro n hn id hid
    obtain rfl := List.mem_singleton.1 hn
    cases hid
    decide
  have hkept : ∀ n ∈ five.nodes, (t.load entries).2.idFor n.kind = t.idFor n.kind := by
    intro n hn
    obtain rfl := List.mem_singleton.1 hn
    rfl
  obtain ⟨before, e, after, -, -, -, -, hread⟩ := load_refused t htags rfl
  exact ⟨_, rfl, _, rfl, hread five _ rfl hids trivial hkept 0⟩

/-- **What was there is given up**: a tag that had a number has none when a table without it has been refused. -/
theorem load_refused_forgets :
    let t := (empty.load [(.str "int", .int 0)]).2
    let entries : List (Data × Data) := [(.str "str", .int 1), (.str "complex", .int 2)]
    (∃ f, (t.load entries).1 = .error f) ∧ t.idForTag "int" = .ok 0 ∧
      (t.load entries).2.idForTag "int" = .error (.unregisteredTag "int") :=
  ⟨⟨_, rfl⟩, rfl, rfl⟩

end CodecTable

end StackCalc.Wire
