import StackCalc.Proofs.Value.Admitted

/-! # Plain values

A value is plain if no function of the host can be reached from it, and all code in it keeps to the leeway it
is given. What a pattern expects of values is left out of account: it is compared with them, and
never run. This is a vocabulary of its own, and plain values are admitted in it. -/

namespace StackCalc

variable [Leeway]

mutual

/-- **A value from which no function of the host can be reached.** -/
inductive Value.Plain : Value → Prop where
  | mk (d : DomainId) {p : Payload} (h : Payload.Plain p) : Value.Plain (.mk d p)

inductive Payload.Plain : Payload → Prop where
  | int (n : Int) : Payload.Plain (.int n)
  | float (x : Binary64) (cell : Nat) : Payload.Plain (.float x cell)
  | str (s : Text) : Payload.Plain (.str s)
  | bool (b : Bool) : Payload.Plain (.bool b)
  | null : Payload.Plain .null
  | cons {a b : Value} (ha : Value.Plain a) (hb : Value.Plain b) : Payload.Plain (.cons a b)
  | code {c : Code} (h : Code.Plain c) : Payload.Plain (.code c)
  | callable {f : Callable} (h : Callable.Plain f) : Payload.Plain (.callable f)
  | object {c : Composite} (h : Composite.Plain c) : Payload.Plain (.object c)
  | host (k : Kind) (shown : Text) (truthy : Bool) : Payload.Plain (.host k shown truthy)

/-- Steps declare numbers of arguments that are allowed. -/
inductive Instr.Plain : Instr → Prop where
  | push {v : Value} (h : Value.Plain v) : Instr.Plain (.push v)
  | get (name : Text) : Instr.Plain (.get name)
  | call (name : Text) {args : Option Int} (results : Option Int) (h : ∀ n, args = some n → Leeway.Allows n) :
      Instr.Plain (.call name args results)
  | binary (op : BinaryOp) : Instr.Plain (.binary op)
  | unary (op : UnaryOp) : Instr.Plain (.unary op)
  | closure (params : List Text) {body : List Instr} (h : ∀ i ∈ body, Instr.Plain i) :
      Instr.Plain (.closure params body)

inductive Code.Plain : Code → Prop where
  | mk (label : Label) {steps : List Instr} (h : ∀ i ∈ steps, Instr.Plain i) : Code.Plain (.mk label steps)

/-- The functions of the host are missing here. -/
inductive Callable.Plain : Callable → Prop where
  | builtin (b : Builtin) : Callable.Plain (.builtin b)
  | counter (serial : Nat) : Callable.Plain (.counter serial)
  | closure (serial : Nat) (params : List Text) {body : List Instr} (scope : ScopeId)
      (h : ∀ i ∈ body, Instr.Plain i) : Callable.Plain (.closure serial params body scope)
  | matching (serial : Nat) (scope : ScopeId) {patterns : List Pattern} (h : ∀ p ∈ patterns, Pattern.Plain p) :
      Callable.Plain (.matching serial scope patterns)
  | addPart (builder : Nat) : Callable.Plain (.addPart builder)
  | addGuarded (builder : Nat) : Callable.Plain (.addGuarded builder)
  | addDefault (builder : Nat) : Callable.Plain (.addDefault builder)

inductive Composite.Plain : Composite → Prop where
  | struct (t : StructType) : Composite.Plain (.struct t)
  | record (t : StructType) {vs : List Value} (h : ∀ v ∈ vs, Value.Plain v) : Composite.Plain (.record t vs)
  | pattern (serial : Nat) {p : Pattern} (h : Pattern.Plain p) : Composite.Plain (.pattern serial p)
  | binder (serial : Nat) (name : Text) : Composite.Plain (.binder serial name)
  | construction (serial : Nat) (name : Text) {args : List Value} (h : ∀ v ∈ args, Value.Plain v) :
      Composite.Plain (.construction serial name args)
  | host (serial : Nat) (single : Bool) (name : Text) {traits : List Trait}
      (h : ∀ t ∈ traits, Trait.Plain t) : Composite.Plain (.host serial single name traits)

inductive Trait.Plain : Trait → Prop where
  | members (special : Bool) {entries : List (Text × Value)} (h : ∀ e ∈ entries, Value.Plain e.2) :
      Trait.Plain (.members special entries)
  | hiddenMembers {entries : List (Text × Value)} (h : ∀ e ∈ entries, Value.Plain e.2) :
      Trait.Plain (.hiddenMembers entries)
  | repeats (count : Option Nat) : Trait.Plain (.repeats count)
  | counts : Trait.Plain .counts

inductive Pattern.Plain : Pattern → Prop where
  | plain (parts : List Part) {action : Code} (h : Code.Plain action) : Pattern.Plain (.plain parts action)
  | guarded (parts : List Part) {clauses : List (Code × Code)} {fallback : Option Code}
      (hguards : ∀ c ∈ clauses, Code.Plain c.1) (hactions : ∀ c ∈ clauses, Code.Plain c.2)
      (hfallback : ∀ c, fallback = some c → Code.Plain c) : Pattern.Plain (.guarded parts clauses fallback)

end

theorem Value.plain_own {p : Payload} (h : p.Plain) : (Value.mk 0 p).Plain := .mk 0 h

/-! ### What plain values mention -/

/-- What code may do that no function of the host takes part in: it declares numbers of arguments as it is
given leeway to, and may log anything. -/
instance : Vocabulary where
  toOrdinaryTolerance := inferInstance
  Admits x :=
    match x with
    | .host _ => False
    | .count n => Leeway.Allows n
    | _ => True
  Records _ := True
  count := Leeway.allows_natCast
  negative h := h.expected
  operator _ := trivial
  marker _ _ _ := .reported rfl
  host h := h.elim
  constants := trivial
  records _ := trivial

open Vocabulary (Admits)

mutual

/-- **Plain values are admitted.** -/
theorem Value.Plain.admitted : ∀ {v : Value}, v.Plain → ∀ x ∈ v.mentions, Admits x
  | .mk _ _, .mk _ h => h.admitted

theorem Payload.Plain.admitted : ∀ {p : Payload}, p.Plain → ∀ x ∈ p.mentions, Admits x
  | .cons _ _, .cons ha hb => List.forall_mem_append.2 ⟨ha.admitted, hb.admitted⟩
  | .code _, .code h => h.admitted
  | .callable _, .callable h => h.admitted
  | .object _, .object h => h.admitted
  | .int _, _ | .float .., _ | .str _, _ | .bool _, _ | .null, _ | .host .., _ => fun _ h => by cases h

theorem Instr.Plain.admitted : ∀ {i : Instr}, i.Plain → ∀ x ∈ i.mentions, Admits x
  | .push _, .push h => h.admitted
  | .get name, _ => List.forall_mem_singleton.2 trivial
  | .call name args _, .call _ _ h => by
    refine List.forall_mem_cons.2 ⟨trivial, fun x hx => ?_⟩
    obtain ⟨n, hn, rfl⟩ := List.mem_map.1 hx
    exact h n (Option.mem_toList.1 hn)
  | .binary _, _ => List.forall_mem_singleton.2 trivial
  | .unary _, _ => fun _ h => by cases h
  | .closure _ _, .closure _ h => stepMentions_admitted h

theorem Code.Plain.admitted : ∀ {c : Code}, c.Plain → ∀ x ∈ c.mentions, Admits x
  | .mk _ _, .mk _ h => stepMentions_admitted h

theorem stepMentions_admitted : ∀ {steps : List Instr}, (∀ i ∈ steps, i.Plain) → ∀ x ∈ stepMentions steps, Admits x
  | [], _ => fun _ h => by cases h
  | i :: _, h => List.forall_mem_append.2 ⟨(h i List.mem_cons_self).admitted,
      stepMentions_admitted fun j hj => h j (List.mem_cons_of_mem i hj)⟩

theorem Callable.Plain.admitted : ∀ {f : Callable}, f.Plain → ∀ x ∈ f.mentions, Admits x
  | .builtin _, _ | .counter _, _ => fun _ h => by cases h
  | .closure .., .closure _ _ _ h => List.forall_mem_cons.2 ⟨trivial, stepMentions_admitted h⟩
  | .matching .., .matching _ _ h => List.forall_mem_cons.2 ⟨trivial, patternMentions_admitted h⟩
  | .addPart _, _ | .addGuarded _, _ | .addDefault _, _ => List.forall_mem_singleton.2 trivial

theorem Composite.Plain.admitted : ∀ {c : Composite}, c.Plain → ∀ x ∈ c.mentions, Admits x
  | .struct _, _ | .binder .., _ => fun _ h => by cases h
  | .record .., .record _ h => valueMentions_admitted h
  | .pattern .., .pattern _ h => h.admitted
  | .construction .., .construction _ _ h => List.forall_mem_cons.2 ⟨trivial, valueMentions_admitted h⟩
  | .host .., .host _ _ _ h => traitMentions_admitted h

theorem valueMentions_admitted : ∀ {vs : List Value}, (∀ v ∈ vs, v.Plain) → ∀ x ∈ valueMentions vs, Admits x
  | [], _ => fun _ h => by cases h
  | v :: _, h => List.forall_mem_append.2 ⟨(h v List.mem_cons_self).admitted,
      valueMentions_admitted fun w hw => h w (List.mem_cons_of_mem v hw)⟩

theorem Trait.Plain.admitted : ∀ {t : Trait}, t.Plain → ∀ x ∈ t.mentions, Admits x
  | .members .., .members _ h => entryMentions_admitted h
  | .hiddenMembers _, .hiddenMembers h => entryMentions_admitted h
  | .repeats _, _ | .counts, _ => fun _ h => by cases h

theorem traitMentions_admitted : ∀ {ts : List Trait}, (∀ t ∈ ts, t.Plain) → ∀ x ∈ traitMentions ts, Admits x
  | [], _ => fun _ h => by cases h
  | t :: _, h => List.forall_mem_append.2 ⟨(h t List.mem_cons_self).admitted,
      traitMentions_admitted fun u hu => h u (List.mem_cons_of_mem t hu)⟩

theorem entryMentions_admitted : ∀ {entries : List (Text × Value)}, (∀ e ∈ entries, e.2.Plain) →
    ∀ x ∈ entryMentions entries, Admits x
  | [], _ => fun _ h => by cases h
  | (name, v) :: _, h => List.forall_mem_append.2 ⟨Value.Plain.admitted (h (name, v) List.mem_cons_self),
      entryMentions_admitted fun e he => h e (List.mem_cons_of_mem _ he)⟩

theorem Pattern.Plain.admitted : ∀ {p : Pattern}, p.Plain → ∀ x ∈ p.mentions, Admits x
  | .plain parts _, .plain _ h => List.forall_mem_append.2 ⟨partMentions_admitted parts, h.admitted⟩
  | .guarded parts _ none, .guarded _ hguards hactions _ =>
    List.forall_mem_append.2 ⟨List.forall_mem_append.2 ⟨partMentions_admitted parts,
      clauseMentions_admitted hguards hactions⟩, fun _ h => by cases h⟩
  | .guarded parts _ (some _), .guarded _ hguards hactions hfallback =>
    List.forall_mem_append.2 ⟨List.forall_mem_append.2 ⟨partMentions_admitted parts,
      clauseMentions_admitted hguards hactions⟩, (hfallback _ rfl).admitted⟩

theorem patternMentions_admitted : ∀ {ps : List Pattern}, (∀ p ∈ ps, p.Plain) → ∀ x ∈ patternMentions ps, Admits x
  | [], _ => fun _ h => by cases h
  | p :: _, h => List.forall_mem_append.2 ⟨(h p List.mem_cons_self).admitted,
      patternMentions_admitted fun q hq => h q (List.mem_cons_of_mem p hq)⟩

theorem clauseMentions_admitted : ∀ {clauses : List (Code × Code)}, (∀ c ∈ clauses, c.1.Plain) →
    (∀ c ∈ clauses, c.2.Plain) → ∀ x ∈ clauseMentions clauses, Admits x
  | [], _, _ => fun _ h => by cases h
  | (guard, action) :: _, hguards, hactions => by
    have hguard : guard.Plain := hguards (guard, action) List.mem_cons_self
    have haction : action.Plain := hactions (guard, action) List.mem_cons_self
    refine List.forall_mem_append.2 ⟨List.forall_mem_append.2 ⟨hguard.admitted, haction.admitted⟩, ?_⟩
    exact clauseMentions_admitted (fun c hc => hguards c (List.mem_cons_of_mem _ hc))
      fun c hc => hactions c (List.mem_cons_of_mem _ hc)

/-- A part mentions names only. -/
theorem Part.admitted_of_names : ∀ p : Part, ∀ x ∈ p.mentions, Admits x
  | .any | .bind _ | .exact _ => fun _ h => by cases h
  | .cons a b => List.forall_mem_append.2 ⟨a.admitted_of_names, b.admitted_of_names⟩
  | .construct _ args => List.forall_mem_cons.2 ⟨trivial, partMentions_admitted args⟩

theorem partMentions_admitted : ∀ ps : List Part, ∀ x ∈ partMentions ps, Admits x
  | [] => fun _ h => by cases h
  | p :: ps => List.forall_mem_append.2 ⟨p.admitted_of_names, partMentions_admitted ps⟩

end

/-! ### Data -/

/-- Data that came from a calculator is plain if the value is. -/
def Data.Plain : Data → Prop
  | .value v => v.Plain
  | .code c => c.Plain
  | .pair a b => a.Plain ∧ b.Plain
  | _ => True

theorem Data.Plain.holds {d : Data} (h : d.Plain) : d.Holds Value.Admitted := by
  cases d with
  | value v => exact h.admitted
  | code c => exact fun _ => h.admitted
  | pair a b => exact ⟨h.1.admitted, h.2.admitted⟩
  | _ => trivial

end StackCalc
