import StackCalc.Proofs.Pattern.Match
import StackCalc.Proofs.Run.Outcome
import StackCalc.Proofs.Scope.Binding
import StackCalc.Proofs.Value.Equality

/-! # Matching inverts construction

A part that is put together from binders, values, pairs and constructors of records (`Part.Formed`) is also a
recipe: with a value for each binder it builds a value (`Part.build?`). The part matches what it builds and
binds just these values (`Part.matches_build`), and a value that it matches agrees with what it builds from
the bindings (`Part.Matches.agrees_build`). Agreeing is equality but for what is not a number, and then it is
the value as a whole that matters, since the bound values are the very objects that have been matched. -/

namespace StackCalc

/-! ### Values of one domain -/

mutual

/-- The value and all members of its pairs and records belong to the domain. -/
def Value.In (d : DomainId) : Value → Prop
  | .mk e p => e = d ∧ match p with
    | .cons a b => a.In d ∧ b.In d
    | .object (.record _ vs) => AllIn d vs
    | _ => True

def AllIn (d : DomainId) : List Value → Prop
  | [] => True
  | v :: vs => v.In d ∧ AllIn d vs

end

/-! ### Parts that build values -/

mutual

/-- The names that a part binds, from left to right. -/
def Part.binders : Part → List Text
  | .any | .exact _ => []
  | .bind name => [name]
  | .cons a b => a.binders ++ b.binders
  | .construct _ args => allBinders args

def allBinders : List Part → List Text
  | [] => []
  | p :: ps => p.binders ++ allBinders ps

end

/-- The record type that a name stands for. -/
def recordType? (env : Text → Option Symbol) (name : Text) : Option StructType :=
  match env name with
  | some (.value v) =>
    match v.payload with
    | .object (.struct t) => some t
    | _ => none
  | _ => none

mutual

/-- **The part says all of what it matches**: it is put together from binders, from values that are not NaN,
and from pairs and records with as many parts as there are fields. -/
def Part.Formed (env : Text → Option Symbol) : Part → Prop
  | .any => False
  | .bind _ => True
  | .exact v => v.isNaN = false
  | .cons a b => a.Formed env ∧ b.Formed env
  | .construct name args =>
    (∃ t, recordType? env name = some t ∧ args.length = t.fields.length) ∧ AllFormed env args

def AllFormed (env : Text → Option Symbol) : List Part → Prop
  | [] => True
  | p :: ps => p.Formed env ∧ AllFormed env ps

end

mutual

/-- **The value that a part stands for**, in a domain, with values for its binders. Its pairs and records are as the
operator for pairs and the constructors make them. -/
def Part.build? (env : Text → Option Symbol) (d : DomainId) (σ : Text → Value) : Part → Option Value
  | .any => none
  | .bind name => some (σ name)
  | .exact v => some v
  | .cons a b => do
    let x ← a.build? env d σ
    return .mk d (.cons x (← b.build? env d σ))
  | .construct name args => do
    let t ← recordType? env name
    return .mk d (.object (.record t (← buildAll? env d σ args)))

def buildAll? (env : Text → Option Symbol) (d : DomainId) (σ : Text → Value) : List Part → Option (List Value)
  | [] => some []
  | p :: ps => do
    let v ← p.build? env d σ
    return v :: (← buildAll? env d σ ps)

end

variable {env : Text → Option Symbol} {d : DomainId} {σ : Text → Value}

/-- A record is what a call of its constructor leaves for the values of its fields. -/
theorem outcome_callConstructor {f : Frame} {t : StructType} {m : Machine} {vs s : List Value}
    (hm : m.storage = vs.reverse ++ s) (hlen : vs.length = t.fields.length) (hbase : f.view.base ≤ s.length) :
    (callConstructor f t (some vs.length) (some 1)).outcome m =
      (.ok (), { m with storage := .mk 0 (.object (.record t vs)) :: s }) := by
  have htake := Run.outcome_take_append hm hbase
  rw [callConstructor_eq, callSingle_eq, ← hlen, Run.wants_self, pure_bind, Run.wants_self, pure_bind, bind_assoc,
    Run.outcome_bind_of_ok htake]
  rfl

/-! ### Taking records apart -/

theorem findConstructor_recordType {name : Text} {t : StructType} (h : recordType? env name = some t) :
    findConstructor env name = .ok (.struct t) := by
  unfold recordType? at h
  unfold findConstructor
  split at h
  next v hv =>
    rw [hv]
    dsimp only
    split at h
    next u hu =>
      obtain rfl := Option.some.inj h
      rw [hu]
      rfl
    next => cases h
  next => cases h

section
variable {name : Text} {t : StructType} (ht : recordType? env name = some t)
include ht

theorem takeApart_eq (count : Nat) (v : Value) :
    takeApart env name count v =
      match (Composite.struct t).decompose? v count with
      | none => .ok none
      | some vs => if vs.length = count then .ok (some vs) else .error (.brokenDecomposition count vs.length) := by
  unfold takeApart
  rw [findConstructor_recordType ht]
  rfl

/-- What comes apart is a record of the type, with as many fields as are asked for. -/
theorem of_takeApart {count : Nat} {v : Value} {vs : List Value} (h : takeApart env name count v = .ok (some vs)) :
    ∃ u, v.payload = .object (.record u vs) ∧ u.serial = t.serial ∧ count = t.fields.length := by
  rw [takeApart_eq ht] at h
  unfold Composite.decompose? at h
  dsimp only at h
  split at h
  next => cases h
  next ws hws =>
    split at hws
    next u us hu =>
      split_ifs at hws with hcond
      obtain rfl := Option.some.inj hws
      rw [Bool.and_eq_true, beq_iff_eq, beq_iff_eq] at hcond
      split_ifs at h
      cases h
      exact ⟨u, hu, hcond.1, hcond.2⟩
    next => cases hws

theorem takeApart_record {d : DomainId} {u : StructType} {vs : List Value} (hu : u.serial = t.serial)
    (hlen : vs.length = t.fields.length) :
    takeApart env name vs.length (.mk d (.object (.record u vs))) = .ok (some vs) := by
  have hdecompose : (Composite.struct t).decompose? (.mk d (.object (.record u vs))) vs.length = some vs := by
    unfold Composite.decompose?
    dsimp only [Value.payload]
    rw [hu, hlen, beq_self_eq_true, beq_self_eq_true]
    rfl
  rw [takeApart_eq ht, hdecompose]
  exact if_pos rfl

/-- A value that is no record of the type does not come apart, nor does a record whose fields are not as many as are
asked for. -/
theorem takeApart_other {count : Nat} {v : Value}
    (h : count ≠ t.fields.length ∨ ∀ u vs, v.payload = .object (.record u vs) → u.serial ≠ t.serial) :
    takeApart env name count v = .ok none := by
  have hdecompose : (Composite.struct t).decompose? v count = none := by
    unfold Composite.decompose?
    dsimp only
    split
    next u vs hv =>
      refine if_neg fun hcond => ?_
      rw [Bool.and_eq_true, beq_iff_eq, beq_iff_eq] at hcond
      rcases h with hcount | hserial
      · exact hcount hcond.2
      · exact hserial u vs hv hcond.1
    next => rfl
  rw [takeApart_eq ht, hdecompose]

end

/-! ### A part matches what it builds -/

mutual

theorem Part.exists_build : ∀ {p : Part}, p.Formed env → ∃ w, p.build? env d σ = some w
  | .bind name, _ => ⟨σ name, rfl⟩
  | .exact v, _ => ⟨v, rfl⟩
  | .cons a b, h => by
    obtain ⟨x, hx⟩ := Part.exists_build h.1
    obtain ⟨y, hy⟩ := Part.exists_build h.2
    refine ⟨.mk d (.cons x y), ?_⟩
    unfold Part.build?
    rw [hx, hy]
    rfl
  | .construct name args, h => by
    obtain ⟨⟨t, ht, -⟩, hargs⟩ := h
    obtain ⟨vs, hvs⟩ := exists_buildAll hargs
    refine ⟨.mk d (.object (.record t vs)), ?_⟩
    unfold Part.build?
    rw [ht, hvs]
    rfl

theorem exists_buildAll : ∀ {ps : List Part}, AllFormed env ps → ∃ vs, buildAll? env d σ ps = some vs
  | [], _ => ⟨[], rfl⟩
  | p :: ps, h => by
    obtain ⟨v, hv⟩ := Part.exists_build h.1
    obtain ⟨vs, hvs⟩ := exists_buildAll h.2
    refine ⟨v :: vs, ?_⟩
    unfold buildAll?
    rw [hv, hvs]
    rfl

end

/-- What a part for pairs builds is a pair. -/
theorem Part.of_build_cons {a b : Part} {w : Value} (h : (Part.cons a b).build? env d σ = some w) :
    ∃ x y, a.build? env d σ = some x ∧ b.build? env d σ = some y ∧ w = .mk d (.cons x y) := by
  unfold Part.build? at h
  obtain ⟨x, hx, h⟩ := Option.bind_eq_some_iff.1 h
  obtain ⟨y, hy, h⟩ := Option.bind_eq_some_iff.1 h
  cases h
  exact ⟨x, y, hx, hy, rfl⟩

/-- What a part for records builds is a record of the type that is looked up. -/
theorem Part.of_build_construct {name : Text} {args : List Part} {t : StructType}
    (ht : recordType? env name = some t) {w : Value} (h : (Part.construct name args).build? env d σ = some w) :
    ∃ vs, buildAll? env d σ args = some vs ∧ w = .mk d (.object (.record t vs)) := by
  unfold Part.build? at h
  obtain ⟨u, hu, h⟩ := Option.bind_eq_some_iff.1 h
  obtain ⟨vs, hvs, h⟩ := Option.bind_eq_some_iff.1 h
  obtain rfl : t = u := Option.some.inj (ht.symm.trans hu)
  cases h
  exact ⟨vs, hvs, rfl⟩

theorem of_buildAll_cons {p : Part} {ps : List Part} {vs : List Value} (h : buildAll? env d σ (p :: ps) = some vs) :
    ∃ w ws, p.build? env d σ = some w ∧ buildAll? env d σ ps = some ws ∧ vs = w :: ws := by
  unfold buildAll? at h
  obtain ⟨w, hw, h⟩ := Option.bind_eq_some_iff.1 h
  obtain ⟨ws, hws, h⟩ := Option.bind_eq_some_iff.1 h
  cases h
  exact ⟨w, ws, hw, hws, rfl⟩

theorem length_buildAll : ∀ {ps : List Part} {vs : List Value}, buildAll? env d σ ps = some vs → vs.length = ps.length
  | [], vs, h => by
    cases h
    rfl
  | p :: ps, vs, h => by
    obtain ⟨w, ws, -, hws, rfl⟩ := of_buildAll_cons h
    rw [List.length_cons, List.length_cons, length_buildAll hws]

/-- The names with the values that they are given. -/
def assigned (σ : Text → Value) (names : List Text) : Bindings := names.map fun n => (n, σ n)

theorem assigned_append (names names' : List Text) :
    assigned σ (names ++ names') = assigned σ names ++ assigned σ names' := List.map_append

mutual

/-- **A part matches what it builds**, and binds the values it is built from. -/
theorem Part.matches_build : ∀ {p : Part} {w : Value}, p.Formed env → p.build? env d σ = some w →
    Part.Matches env p w (assigned σ p.binders)
  | .bind name, w, _, h => by
    cases h
    exact .bind name (σ name)
  | .exact v, w, hp, h => by
    cases h
    exact .exact (Value.eq_self hp)
  | .cons a b, w, hp, h => by
    obtain ⟨x, y, hx, hy, rfl⟩ := Part.of_build_cons h
    have hnames : assigned σ (Part.cons a b).binders = assigned σ a.binders ++ assigned σ b.binders := by
      rw [Part.binders]
      exact assigned_append _ _
    rw [hnames]
    exact .cons rfl (Part.matches_build hp.1 hx) (Part.matches_build hp.2 hy)
  | .construct name args, w, hp, h => by
    obtain ⟨⟨t, ht, hlen⟩, hargs⟩ := hp
    obtain ⟨vs, hvs, rfl⟩ := Part.of_build_construct ht h
    have hcount : vs.length = args.length := length_buildAll hvs
    refine .construct ?_ (matchAll_build hargs hvs)
    rw [← hcount]
    exact takeApart_record ht rfl (hcount.trans hlen)

theorem matchAll_build : ∀ {ps : List Part} {vs : List Value}, AllFormed env ps → buildAll? env d σ ps = some vs →
    Part.MatchAll env ps vs (assigned σ (allBinders ps))
  | [], vs, _, h => by
    cases h
    exact .nil
  | p :: ps, vs, hp, h => by
    obtain ⟨w, ws, hw, hws, rfl⟩ := of_buildAll_cons h
    have hnames : assigned σ (allBinders (p :: ps)) = assigned σ p.binders ++ assigned σ (allBinders ps) := by
      rw [allBinders]
      exact assigned_append _ _
    rw [hnames]
    exact .cons (Part.matches_build hp.1 hw) (matchAll_build hp.2 hws)

end

/-! ### What matches is what the part builds -/

mutual

/-- The names are bound from left to right. -/
theorem Part.Matches.names : ∀ {p : Part} {v : Value} {made : Bindings}, Part.Matches env p v made →
    made.names = p.binders
  | .any, _, _, .any _ => rfl
  | .bind _, _, _, .bind _ _ => rfl
  | .exact _, _, _, .exact _ => rfl
  | .cons a b, _, _, .cons _ ha hb => by
    unfold Bindings.names Part.binders
    rw [List.map_append]
    exact congrArg₂ (· ++ ·) ha.names hb.names
  | .construct _ _, _, _, .construct _ hargs => by
    unfold Part.binders
    exact hargs.names

theorem Part.MatchAll.names : ∀ {ps : List Part} {vs : List Value} {made : Bindings}, Part.MatchAll env ps vs made →
    made.names = allBinders ps
  | [], _, _, .nil => rfl
  | _ :: _, _, _, .cons hp hps => by
    unfold Bindings.names allBinders
    rw [List.map_append]
    exact congrArg₂ (· ++ ·) hp.names hps.names

end

/-- All that has been bound is what the names are given. -/
def Bindings.GivenBy (made : Bindings) (σ : Text → Value) : Prop := ∀ e ∈ made, σ e.1 = e.2

theorem Bindings.GivenBy.append {made made' : Bindings} (h : Bindings.GivenBy (made ++ made') σ) :
    made.GivenBy σ ∧ made'.GivenBy σ :=
  ⟨fun e he => h e (List.mem_append_left _ he), fun e he => h e (List.mem_append_right _ he)⟩

mutual

/-- **A value that a part matches agrees with what the part builds** from what has been bound. -/
theorem Part.Matches.agrees_build : ∀ {p : Part} {v : Value} {made : Bindings}, Part.Matches env p v made →
    p.Formed env → v.In d → made.GivenBy σ → ∃ w, p.build? env d σ = some w ∧ v.agrees w = true
  | .any, _, _, .any _, hp, _, _ => hp.elim
  | .bind name, _, _, .bind _ v, _, _, hσ => by
    have hname : σ name = v := hσ (name, v) (List.mem_singleton.2 rfl)
    refine ⟨v, ?_, v.agrees_self⟩
    unfold Part.build?
    rw [hname]
  | .exact v, _, _, .exact h, _, _, _ => ⟨v, rfl, Value.agrees_of_eq h⟩
  | .cons a b, .mk e q, _, .cons (x := x) (y := y) hv ha hb, hp, hin, hσ => by
    obtain rfl : q = .cons x y := hv
    obtain ⟨he, hx, hy⟩ := hin
    obtain rfl : d = e := he.symm
    obtain ⟨hσa, hσb⟩ := hσ.append
    obtain ⟨x', hx', hxx'⟩ := ha.agrees_build hp.1 hx hσa
    obtain ⟨y', hy', hyy'⟩ := hb.agrees_build hp.2 hy hσb
    refine ⟨.mk d (.cons x' y'), ?_, ?_⟩
    · unfold Part.build?
      rw [hx', hy']
      rfl
    · exact Value.agrees_cons hxx' hyy'
  | .construct name args, .mk e q, _, @Part.Matches.construct _ _ _ _ vs _ hv hargs, hp, hin, hσ => by
    obtain ⟨⟨t, ht, -⟩, hformed⟩ := hp
    obtain ⟨u, hu, hserial, -⟩ := of_takeApart ht hv
    obtain rfl : q = .object (.record u vs) := hu
    obtain ⟨he, hvs⟩ := hin
    obtain rfl : d = e := he.symm
    obtain ⟨ws, hws, hagree⟩ := hargs.agrees_buildAll hformed hvs hσ
    refine ⟨.mk d (.object (.record t ws)), ?_, ?_⟩
    · unfold Part.build?
      rw [ht, hws]
      rfl
    · exact Value.agrees_record hserial hagree

theorem Part.MatchAll.agrees_buildAll : ∀ {ps : List Part} {vs : List Value} {made : Bindings},
    Part.MatchAll env ps vs made → AllFormed env ps → AllIn d vs → made.GivenBy σ →
      ∃ ws, buildAll? env d σ ps = some ws ∧ agreeAll vs ws = true
  | [], _, _, .nil, _, _, _ => ⟨[], rfl, by unfold agreeAll; rfl⟩
  | p :: ps, v :: vs, _, .cons hp hps, hformed, hin, hσ => by
    obtain ⟨hσp, hσps⟩ := hσ.append
    obtain ⟨w, hw, hvw⟩ := hp.agrees_build hformed.1 hin.1 hσp
    obtain ⟨ws, hws, hvws⟩ := hps.agrees_buildAll hformed.2 hin.2 hσps
    refine ⟨w :: ws, ?_, ?_⟩
    · unfold buildAll?
      rw [hw, hws]
      rfl
    · unfold agreeAll
      rw [hvw, hvws]
      rfl

end

/-! ### Parts without binders -/

mutual

/-- A part without binders matches what agrees with the value it builds. -/
theorem Part.matches_of_agrees : ∀ {p : Part} {v w : Value}, p.Formed env → p.binders = [] →
    p.build? env d σ = some w → v.agrees w = true → Part.Matches env p v []
  | .bind _, _, _, _, hb, _, _ => by cases hb
  | .exact e, v, w, hp, _, hw, h => by
    cases hw
    exact .exact (Value.eq_of_agrees h (.inr hp))
  | .cons a b, v, w, hp, hb, hw, h => by
    rw [Part.binders, List.append_eq_nil_iff] at hb
    obtain ⟨x', y', hx', hy', rfl⟩ := Part.of_build_cons hw
    obtain ⟨x, y, rfl, hx, hy⟩ := Value.of_agrees_cons h
    have hmatch := Part.Matches.cons (v := .mk d (.cons x y)) rfl (Part.matches_of_agrees hp.1 hb.1 hx' hx)
      (Part.matches_of_agrees hp.2 hb.2 hy' hy)
    exact hmatch
  | .construct name args, v, w, hp, hb, hw, h => by
    obtain ⟨⟨t, ht, hlen⟩, hargs⟩ := hp
    rw [Part.binders] at hb
    obtain ⟨ws, hws, rfl⟩ := Part.of_build_construct ht hw
    obtain ⟨u, vs, rfl, hserial, hvs⟩ := Value.of_agrees_record h
    have hcount : vs.length = args.length := (length_of_agreeAll hvs).trans (length_buildAll hws)
    refine .construct ?_ (matchAll_of_agreeAll hargs hb hws hvs)
    rw [← hcount]
    exact takeApart_record ht hserial (hcount.trans hlen)

theorem matchAll_of_agreeAll : ∀ {ps : List Part} {vs ws : List Value}, AllFormed env ps → allBinders ps = [] →
    buildAll? env d σ ps = some ws → agreeAll vs ws = true → Part.MatchAll env ps vs []
  | [], vs, ws, _, _, hws, h => by
    cases hws
    obtain rfl : vs = [] := List.eq_nil_of_length_eq_zero (length_of_agreeAll h)
    exact .nil
  | p :: ps, [], ws, _, _, hws, h => by
    have hlen := (length_of_agreeAll h).trans (length_buildAll hws)
    cases hlen
  | p :: ps, v :: vs, ws, hp, hb, hws, h => by
    rw [allBinders, List.append_eq_nil_iff] at hb
    obtain ⟨w', ws', hw', hws', rfl⟩ := of_buildAll_cons hws
    rw [agreeAll, Bool.and_eq_true] at h
    have hmatch := Part.MatchAll.cons (Part.matches_of_agrees hp.1 hb.1 hw' h.1)
      (matchAll_of_agreeAll hp.2 hb.2 hws' h.2)
    exact hmatch

end

/-- A part without binders matches nothing that is not equal to itself. -/
theorem Part.Matches.isNaN {p : Part} {v : Value} {made : Bindings} (h : Part.Matches env p v made)
    (hp : p.Formed env) (hb : p.binders = []) : v.isNaN = false := by
  cases h with
  | any => exact hp.elim
  | bind => cases hb
  | exact h => exact Value.isNaN_of_eq h
  | cons hv =>
    obtain ⟨e, q⟩ := v
    cases hv
    rfl
  | construct hv =>
    obtain ⟨⟨t, ht, -⟩, -⟩ := hp
    obtain ⟨u, hu, -⟩ := of_takeApart ht hv
    obtain ⟨e, q⟩ := v
    cases hu
    rfl

/-! ### The inverse -/

/-- What names stand for once they have been given their values. -/
theorem Bindings.lookup_putAll_assigned (b : Bindings) (names : List Text) (n : Text) :
    (b.putAll (assigned σ names)).lookup n = if n ∈ names then some (σ n) else b.lookup n := by
  induction names generalizing b with
  | nil => rfl
  | cons m names ih =>
    have hcons : b.putAll (assigned σ (m :: names)) = (Bindings.put m (σ m) b).putAll (assigned σ names) := rfl
    rw [hcons, ih]
    by_cases hmem : n ∈ names
    · rw [if_pos hmem, if_pos (List.mem_cons_of_mem m hmem)]
    · rw [if_neg hmem]
      by_cases hn : n = m
      · subst hn
        rw [if_pos List.mem_cons_self, lookup_put_self]
      · rw [lookup_put_of_ne b _ hn, if_neg (by simp [hn, hmem])]

/-- **Matching inverts construction.** A part that is formed from binders, values, pairs and records builds a value
from any values for its binders, matches it and binds each name to its value, whatever was bound before. A
value that it matches is equal to what it builds from the new bindings, if its names differ and the value is not
NaN itself. So a part without binders matches exactly what is equal to the value it builds. The names are
bound from left to right, so the last one of a name stays; and a constructor matches no value but a
record of its type, and with no other number of parts than the type has fields. -/
theorem Part.accepts_inverts_build {p : Part} (hp : p.Formed env) (d : DomainId) :
    (∀ (σ : Text → Value) (b : Bindings), ∃ w, p.build? env d σ = some w ∧
      (p.accepts env w).outcome b = (.ok true, b.putAll (assigned σ p.binders)) ∧
      ∀ n, (b.putAll (assigned σ p.binders)).lookup n = if n ∈ p.binders then some (σ n) else b.lookup n) ∧
    (p.binders.Nodup → ∀ (v : Value) (b b' : Bindings), v.In d → v.isNaN = false →
      (p.accepts env v).outcome b = (.ok true, b') →
      (∀ n ∈ p.binders, ∃ x, b'.lookup n = some x) ∧ (∀ n, n ∉ p.binders → b'.lookup n = b.lookup n) ∧
      ∀ σ : Text → Value, (∀ n ∈ p.binders, b'.lookup n = some (σ n)) →
        ∃ w, p.build? env d σ = some w ∧ v.eq w = true) ∧
    (p.binders = [] → ∀ (σ : Text → Value) (v w : Value) (b : Bindings), v.In d → p.build? env d σ = some w →
      ((p.accepts env v).outcome b = (.ok true, b) ↔ v.eq w = true)) ∧
    (∀ (v : Value) (b b' : Bindings), (p.accepts env v).outcome b = (.ok true, b') →
      ∃ made, Part.Matches env p v made ∧ made.names = p.binders ∧ b' = b.putAll made ∧
        ∀ n, b'.lookup n = (List.lookup n made.reverse).or (b.lookup n)) ∧
    ∀ (name : Text) (t : StructType), recordType? env name = some t →
      ∀ (args : List Part) (v : Value) (b : Bindings), (args.length ≠ t.fields.length ∨
        ∀ u vs, v.payload = .object (.record u vs) → u.serial ≠ t.serial) →
        ((Part.construct name args).accepts env v).outcome b = (.ok false, b) := by
  refine ⟨fun σ b => ?_, fun hnodup v b b' hin hnan haccepts => ?_,
    fun hnone σ v w b hin hw => ⟨fun h => ?_, fun h => ?_⟩, fun v b b' haccepts => ?_, fun name t ht args v b h => ?_⟩
  · obtain ⟨w, hw⟩ := Part.exists_build hp (d := d) (σ := σ)
    exact ⟨w, hw, (Part.matches_build hp hw).outcome_accepts b, b.lookup_putAll_assigned p.binders⟩
  · obtain ⟨made, hmade, rfl⟩ := p.matches_of_accepts v haccepts
    have hnames : made.names = p.binders := hmade.names
    rw [← hnames] at hnodup ⊢
    have hlookup : ∀ e ∈ made, (b.putAll made).lookup e.1 = some e.2 := fun e he =>
      Bindings.lookup_putAll_of_mem made b hnodup he
    refine ⟨fun n hn => ?_, fun n hn => Bindings.lookup_putAll_of_notMem made b hn, fun σ hσ => ?_⟩
    · obtain ⟨e, he, rfl⟩ := List.mem_map.1 hn
      exact ⟨e.2, hlookup e he⟩
    · have hgiven : made.GivenBy σ := by
        intro e he
        have hgot := hσ e.1 (List.mem_map_of_mem he)
        rw [hlookup e he] at hgot
        exact (Option.some.inj hgot).symm
      obtain ⟨w, hw, hagrees⟩ := hmade.agrees_build hp hin hgiven
      exact ⟨w, hw, Value.eq_of_agrees hagrees (.inl hnan)⟩
  · obtain ⟨made, hmade, -⟩ := p.matches_of_accepts v h
    obtain rfl : made = [] := List.map_eq_nil_iff.1 (hmade.names.trans hnone)
    obtain ⟨w', hw', hagrees⟩ := hmade.agrees_build hp hin (σ := σ) fun e he => by cases he
    obtain rfl : w = w' := Option.some.inj (hw.symm.trans hw')
    exact Value.eq_of_agrees hagrees (.inl (hmade.isNaN hp hnone))
  · exact (Part.matches_of_agrees hp hnone hw (Value.agrees_of_eq h)).outcome_accepts b
  · obtain ⟨made, hmade, rfl⟩ := p.matches_of_accepts v haccepts
    exact ⟨made, hmade, hmade.names, rfl, fun n => Bindings.lookup_putAll made b⟩
  · unfold Part.accepts
    rw [takeApart_other ht h]
    rfl

/-- A point on an axis, as a part: its other coordinate is bound. -/
theorem Part.accepts_inverts_build_point :
    let t : StructType := ⟨0, "Point", ["x", "y"]⟩
    let env : Text → Option Symbol := fun _ => some (.value (.mk 0 (.object (.struct t))))
    let p : Part := .construct "Point" [.bind "x", .exact (.mk 0 (.int 0))]
    let v : Value := .mk 0 (.object (.record t [.mk 0 (.int 5), .mk 0 (.int 0)]))
    p.Formed env ∧ p.build? env 0 (fun _ => .mk 0 (.int 5)) = some v ∧
      (p.accepts env v).outcome [(("y" : Text), Value.mk 0 .null)] =
        (Except.ok true, [(("y" : Text), Value.mk 0 .null), (("x" : Text), Value.mk 0 (.int 5))]) := by
  intro t env p v
  have hformed : p.Formed env := ⟨⟨t, rfl, rfl⟩, trivial, rfl, trivial⟩
  obtain ⟨w, hw, haccepts, -⟩ := (Part.accepts_inverts_build hformed 0).1 (fun _ => .mk 0 (.int 5)) [("y", .mk 0 .null)]
  have hbuild : p.build? env 0 (fun _ => .mk 0 (.int 5)) = some v := rfl
  obtain rfl : v = w := Option.some.inj (hbuild.symm.trans hw)
  exact ⟨hformed, hbuild, haccepts⟩

end StackCalc
