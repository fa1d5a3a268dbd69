import StackCalc.Proofs.Value.Faults
import StackCalc.Proofs.Value.Mentions

/-! # Vocabularies

A `Vocabulary` says what the code that runs may mention, and with that which faults its runs may end in and what
they may log. A value is admitted if all that it mentions is. The parts of an admitted value are admitted, so
this is a hereditary property, and what functions of values make of admitted values is admitted. -/

namespace StackCalc

/-- **What the code that runs may mention.** A number of arguments that is not negative and an operator that has
a meaning are always admitted, and so is the scope of the names that pattern literals know. -/
class Vocabulary extends OrdinaryTolerance where
  Admits : Mention → Prop
  /-- The records that a run may leave in the log. -/
  Records : Event → Prop
  count (n : Nat) : Admits (.count n)
  negative {n : Int} (h : Admits (.count n)) (hn : n < 0) : Tolerates (.negativeView n)
  operator {op : BinaryOp} (h : op.isMarker = false) : Admits (.operator op)
  marker {op : BinaryOp} (h : Admits (.operator op)) (hop : op.isMarker = true) (id : Text) :
      Tolerates (.markerOperator id)
  host {index : Nat} (h : Admits (.host index)) : Tolerates .nativeArguments
  constants : Admits (.scope patternScope)
  records {e : Event} (h : ∀ i stack, e ≠ .step i stack) : Records e

open Vocabulary (Admits)

variable [Vocabulary]

/-- All that the code in a value mentions is admitted. -/
def Value.Admitted (v : Value) : Prop := ∀ x ∈ v.mentions, Admits x

def Instr.Admitted (i : Instr) : Prop := ∀ x ∈ i.mentions, Admits x

def Code.Admitted (c : Code) : Prop := ∀ x ∈ c.mentions, Admits x

def Callable.Admitted (f : Callable) : Prop := ∀ x ∈ f.mentions, Admits x

def Part.Admitted (p : Part) : Prop := ∀ x ∈ p.mentions, Admits x

def Pattern.Admitted (p : Pattern) : Prop := ∀ x ∈ p.mentions, Admits x

instance : Mention.Elementary Admits := ⟨Vocabulary.count, Vocabulary.operator⟩

theorem Vocabulary.count_of_nonneg {n : Int} (h : 0 ≤ n) : Admits (.count n) := by
  obtain ⟨n, rfl⟩ := Int.eq_ofNat_of_zero_le h
  exact Vocabulary.count n

/-! ### Values -/

theorem Value.admitted_own {p : Payload} (h : ∀ x ∈ p.mentions, Admits x) : (Value.own p).Admitted := by
  unfold Value.Admitted Value.own Value.mentions
  exact h

theorem Value.Admitted.payload {v : Value} (h : v.Admitted) : ∀ x ∈ v.payload.mentions, Admits x :=
  fun x hx => h x (Value.mem_mentions.2 hx)

theorem Value.Admitted.code {v : Value} {c : Code} (h : v.Admitted) (hv : v.payload = .code c) : c.Admitted := by
  have hp := h.payload
  rw [hv] at hp
  exact hp

theorem Value.Admitted.callable {v : Value} {f : Callable} (h : v.Admitted) (hv : v.payload = .callable f) :
    f.Admitted := by
  have hp := h.payload
  rw [hv] at hp
  exact hp

theorem Value.Admitted.pattern {v : Value} {serial : Nat} {p : Pattern} (h : v.Admitted)
    (hv : v.payload = .object (.pattern serial p)) : p.Admitted := by
  have hp := h.payload
  rw [hv] at hp
  exact hp

theorem Value.Admitted.part {v : Value} (h : v.Admitted) : (Part.ofValue v).Admitted :=
  fun x hx => h x (Part.mentions_ofValue hx)

/-- The members of an object are admitted if the object is. -/
theorem Value.Admitted.members {v : Value} (h : v.Admitted) {m : Members} (hm : v.members? = some m) :
    ∀ e ∈ m.entries, e.2.Admitted := by
  unfold Value.members? at hm
  split at hm
  next c hv =>
    have hc : ∀ x ∈ c.mentions, Admits x := by
      have hp := h.payload
      rw [hv] at hp
      exact hp
    have htraits : (c.trait? .structured).bind Trait.members? = some m → ∀ e ∈ m.entries, e.2.Admitted := by
      intro hm e he x hx
      obtain ⟨t, ht, hm⟩ := Option.bind_eq_some_iff.1 hm
      cases c with
      | host serial single name traits =>
        refine hc x (mem_traitMentions.2 ⟨t, List.mem_of_find?_eq_some ht, ?_⟩)
        cases t with
        | members special entries | hiddenMembers entries =>
          cases hm
          exact mem_entryMentions.2 ⟨e, he, hx⟩
        | _ => cases hm
      | _ => cases ht
    cases c with
    | record t vs =>
      cases hm
      exact fun e he x hx => hc x (mem_valueMentions.2 ⟨e.2, (List.of_mem_zip he).2, hx⟩)
    | _ => exact htraits hm
  next => cases hm

/-- Being admitted is handed down. -/
instance : Value.Hereditary Value.Admitted where
  scalar d p h := by
    cases p with
    | int | float | str | bool | null | host => exact fun x hx => by cases hx
    | _ => cases h
  cons := by
    intro d a b
    simp only [Value.Admitted, Value.mentions, Payload.mentions, List.forall_mem_append]
  record := by
    intro d t vs
    simp only [Value.Admitted, Value.mentions, Payload.mentions, Composite.mentions, mem_valueMentions]
    exact ⟨fun h v hv x hx => h x ⟨v, hv, hx⟩, fun h x ⟨v, hv, hx⟩ => h v hv x hx⟩
  members := Value.Admitted.members

/-! ### Code -/

theorem Code.Admitted.steps {c : Code} (h : c.Admitted) : ∀ i ∈ c.steps, i.Admitted :=
  fun i hi x hx => h x (Code.mem_mentions.2 ⟨i, hi, hx⟩)

theorem Code.admitted_mk (label : Label) {steps : List Instr} (h : ∀ i ∈ steps, i.Admitted) :
    (Code.mk label steps).Admitted := fun x hx => by
  obtain ⟨i, hi, hx⟩ := Code.mem_mentions.1 hx
  exact h i hi x hx

theorem Instr.Admitted.count {name : Text} {args results : Option Int} (h : (Instr.call name args results).Admitted) :
    ∀ n, args = some n → Admits (.count n) := by
  rintro n rfl
  exact h _ (List.mem_cons_of_mem _ (List.mem_singleton.2 rfl))

theorem Instr.Admitted.body {params : List Text} {body : List Instr} (h : (Instr.closure params body).Admitted) :
    ∀ i ∈ body, i.Admitted := fun i hi x hx => h x (mem_stepMentions.2 ⟨i, hi, hx⟩)

theorem Callable.admitted_closure {serial : Nat} {params : List Text} {body : List Instr} {scope : ScopeId} :
    (Callable.closure serial params body scope).Admitted ↔ Admits (.scope scope) ∧ ∀ i ∈ body, i.Admitted := by
  simp only [Callable.Admitted, Callable.mentions, List.forall_mem_cons, mem_stepMentions, forall_exists_index, and_imp]
  exact and_congr_right fun _ => forall_comm.trans (forall_congr' fun _ => forall_comm)

theorem Callable.admitted_matching {serial : Nat} {scope : ScopeId} {ps : List Pattern} :
    (Callable.matching serial scope ps).Admitted ↔ Admits (.scope scope) ∧ ∀ p ∈ ps, p.Admitted := by
  simp only [Callable.Admitted, Callable.mentions, List.forall_mem_cons, mem_patternMentions, forall_exists_index,
    and_imp]
  exact and_congr_right fun _ => forall_comm.trans (forall_congr' fun _ => forall_comm)

/-! ### Patterns -/

theorem Pattern.Admitted.parts {p : Pattern} (h : p.Admitted) : ∀ part ∈ p.parts, part.Admitted := by
  intro part hpart x hx
  refine h x ?_
  cases p with
  | plain parts action => exact List.mem_append_left _ (mem_partMentions.2 ⟨part, hpart, hx⟩)
  | guarded parts clauses fallback => exact Pattern.mem_mentions_guarded.2 (.inl ⟨part, hpart, hx⟩)

theorem Pattern.Admitted.action {parts : List Part} {action : Code} (h : (Pattern.plain parts action).Admitted) :
    action.Admitted := fun x hx => h x (List.mem_append_right _ hx)

section
variable {parts : List Part} {clauses : List (Code × Code)} {otherwise : Option Code}

theorem Pattern.Admitted.guards (h : (Pattern.guarded parts clauses otherwise).Admitted) :
    ∀ c ∈ clauses, c.1.Admitted :=
  fun c hc x hx => h x (Pattern.mem_mentions_guarded.2 (.inr (.inl ⟨c, hc, .inl hx⟩)))

theorem Pattern.Admitted.actions (h : (Pattern.guarded parts clauses otherwise).Admitted) :
    ∀ c ∈ clauses, c.2.Admitted :=
  fun c hc x hx => h x (Pattern.mem_mentions_guarded.2 (.inr (.inl ⟨c, hc, .inr hx⟩)))

theorem Pattern.Admitted.fallback (h : (Pattern.guarded parts clauses otherwise).Admitted) :
    ∀ c, otherwise = some c → c.Admitted :=
  fun c hc x hx => h x (Pattern.mem_mentions_guarded.2 (.inr (.inr ⟨c, hc, hx⟩)))

theorem Pattern.admitted_guarded (hparts : ∀ p ∈ parts, p.Admitted) (hguards : ∀ c ∈ clauses, c.1.Admitted)
    (hactions : ∀ c ∈ clauses, c.2.Admitted) (hfallback : ∀ c, otherwise = some c → c.Admitted) :
    (Pattern.guarded parts clauses otherwise).Admitted := by
  intro x hx
  rcases Pattern.mem_mentions_guarded.1 hx with ⟨p, hp, hx⟩ | ⟨c, hc, hx | hx⟩ | ⟨c, hc, hx⟩
  · exact hparts p hp x hx
  · exact hguards c hc x hx
  · exact hactions c hc x hx
  · exact hfallback c hc x hx

theorem Pattern.admitted_plain {action : Code} (hparts : ∀ p ∈ parts, p.Admitted) (haction : action.Admitted) :
    (Pattern.plain parts action).Admitted :=
  List.forall_mem_append.2 ⟨fun x hx => by
    obtain ⟨p, hp, hx⟩ := mem_partMentions.1 hx
    exact hparts p hp x hx, haction⟩

end

end StackCalc
