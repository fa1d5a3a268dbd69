import StackCalc.Operator
import StackCalc.Proofs.Value.Equality

/-! # Equality as an equivalence

Equality of values goes down the members of pairs and records, from one domain to another. It is symmetric and
transitive all the way, and a value is equal to itself exactly if it is not, as a whole, something that is not a
number (`Value.eq_equivalence`). What equality compares of two payloads is said one level at a time: payloads that are
equal are `Alike`, and alike are those of one kind only. Members need only agree, which is to be the very same object or
to be equal (`Value.agrees_iff`), so what is not a number does no harm among them. -/

namespace StackCalc

/-! ### One level -/

/-- **Which payloads are equal**, by kind; what members are to each other is said by `agrees`. -/
inductive Payload.Alike : Payload → Payload → Prop where
  | int (n : Int) : Alike (.int n) (.int n)
  | float {x y : Binary64} (i j : Nat) (h : x.eq y = true) : Alike (.float x i) (.float y j)
  | str (s : Text) : Alike (.str s) (.str s)
  | bool (b : Bool) : Alike (.bool b) (.bool b)
  | null : Alike .null .null
  | cons {a b c d : Value} (ha : a.agrees c = true) (hb : b.agrees d = true) : Alike (.cons a b) (.cons c d)
  | code {c d : Code} (h : c.label = d.label) : Alike (.code c) (.code d)
  | callable {f g : Callable} (h : f.same g = true) : Alike (.callable f) (.callable g)
  | object {c d : Composite} (h : c.eq d = true) : Alike (.object c) (.object d)
  | host (k : Kind) (s : Text) (t u : Bool) : Alike (.host k s t) (.host k s u)

theorem Payload.eq_iff_alike (p q : Payload) : p.eq q = true ↔ p.Alike q := by
  constructor
  · intro h
    unfold Payload.eq at h
    split at h
    · exact beq_iff_eq.1 h ▸ .int _
    · exact .float _ _ h
    · exact beq_iff_eq.1 h ▸ .str _
    · exact beq_iff_eq.1 h ▸ .bool _
    · exact .null
    · exact .cons (Bool.and_eq_true_iff.1 h).1 (Bool.and_eq_true_iff.1 h).2
    · exact .code (beq_iff_eq.1 h)
    · exact .callable h
    · exact .object h
    · obtain ⟨hk, hs⟩ := Bool.and_eq_true_iff.1 h
      exact beq_iff_eq.1 hk ▸ beq_iff_eq.1 hs ▸ .host _ _ _ _
    · cases h
  · rintro (_ | ⟨_, _, h⟩ | _ | _ | _ | ⟨ha, hb⟩ | h | h | h | _) <;> simp [Payload.eq, *]

/-- **Which composites are equal**: records of one type whose values agree, and what has one identity. -/
inductive Composite.Alike : Composite → Composite → Prop where
  | record {t u : StructType} {vs ws : List Value} (ht : t.serial = u.serial) (h : agreeAll vs ws = true) :
      Alike (.record t vs) (.record u ws)
  | identity {c d : Composite} {n : Nat} (hc : c.identity? = some n) (hd : d.identity? = some n) : Alike c d

theorem Composite.eq_iff_alike (c d : Composite) : c.eq d = true ↔ c.Alike d := by
  constructor
  · intro h
    unfold Composite.eq at h
    split at h
    · exact .record (beq_iff_eq.1 (Bool.and_eq_true_iff.1 h).1) (Bool.and_eq_true_iff.1 h).2
    · split at h
      next m n hm hn => exact .identity hm (beq_iff_eq.1 h ▸ hn)
      next => cases h
  · rintro (⟨ht, h⟩ | ⟨hc, hd⟩)
    · simp [Composite.eq, ht, h]
    · cases c <;> cases d <;> simp_all [Composite.eq, Composite.identity?]

/-- **Which callables are equal**: what is built in by its name, all else by what was numbered when it was made. -/
inductive Callable.Alike : Callable → Callable → Prop where
  | builtin (b : Builtin) : Alike (.builtin b) (.builtin b)
  | addPart (n : Nat) : Alike (.addPart n) (.addPart n)
  | addGuarded (n : Nat) : Alike (.addGuarded n) (.addGuarded n)
  | addDefault (n : Nat) : Alike (.addDefault n) (.addDefault n)
  | serial {f g : Callable} {n : Nat} (hf : f.serial? = some n) (hg : g.serial? = some n) : Alike f g

theorem Callable.same_iff_alike (f g : Callable) : f.same g = true ↔ f.Alike g := by
  constructor
  · intro h
    unfold Callable.same at h
    split at h
    · exact beq_iff_eq.1 h ▸ .builtin _
    · exact beq_iff_eq.1 h ▸ .addPart _
    · exact beq_iff_eq.1 h ▸ .addGuarded _
    · exact beq_iff_eq.1 h ▸ .addDefault _
    · split at h
      next m n hm hn => exact .serial hm (beq_iff_eq.1 h ▸ hn)
      next => cases h
  · rintro (b | n | n | n | ⟨hf, hg⟩)
    · simp [Callable.same]
    · simp [Callable.same]
    · simp [Callable.same]
    · simp [Callable.same]
    · cases f <;> cases hf <;> cases g <;> cases hg <;> simp [Callable.same, Callable.serial?]

/-- Payloads that are alike have one kind. -/
theorem Payload.Alike.kind_eq {p q : Payload} (h : p.Alike q) : p.kind = q.kind := by
  cases h <;> rfl

/-- **Members agree if they are the very same object or equal**: what has an identity carries it, so the same object is
the same value. -/
theorem Value.agrees_iff (v w : Value) : v.agrees w = true ↔ v = w ∨ v.eq w = true := by
  refine ⟨fun h => ?_, fun h => h.elim (fun heq => heq ▸ v.agrees_self) agrees_of_eq⟩
  obtain ⟨d, p⟩ := v
  obtain ⟨e, q⟩ := w
  unfold Value.agrees at h
  obtain ⟨hd, hp⟩ := Bool.and_eq_true_iff.1 h
  obtain rfl : d = e := beq_iff_eq.1 hd
  split at hp
  next x m y n =>
    rcases Bool.or_eq_true_iff.1 hp with hsame | heq
    · obtain ⟨hxy, hmn⟩ := Bool.and_eq_true_iff.1 hsame
      exact .inl (by rw [beq_iff_eq.1 hxy, beq_iff_eq.1 hmn])
    · exact .inr ((Value.eq_iff _ _).2 ⟨rfl, (Payload.eq_float x y m n).trans heq⟩)
  next => exact .inr ((Value.eq_iff _ _).2 ⟨rfl, hp⟩)

/-! ### The other way round -/

theorem Callable.same_symm {f g : Callable} (h : f.same g = true) : g.same f = true := by
  cases (Callable.same_iff_alike _ _).1 h with
  | serial hf hg => exact (Callable.same_iff_alike _ _).2 (.serial hg hf)
  | _ => exact h

theorem Value.agrees_symm_of {v w : Value} (hsymm : v.eq w = true → w.eq v = true) (h : v.agrees w = true) :
    w.agrees v = true :=
  (Value.agrees_iff _ _).2 (((Value.agrees_iff _ _).1 h).imp Eq.symm hsymm)

mutual

theorem Value.eq_symm : ∀ {v w : Value}, v.eq w = true → w.eq v = true
  | .mk _ p, .mk _ _, h => by
    obtain ⟨hd, hp⟩ := (Value.eq_iff _ _).1 h
    exact (Value.eq_iff _ _).2 ⟨hd.symm, p.eq_symm hp⟩

theorem Payload.eq_symm : ∀ {p q : Payload}, p.eq q = true → q.eq p = true
  | .cons a b, _, h => by
    cases (Payload.eq_iff_alike _ _).1 h with
    | cons ha hb =>
      exact (Payload.eq_iff_alike _ _).2 (.cons (a.agrees_symm_of a.eq_symm ha) (b.agrees_symm_of b.eq_symm hb))
  | .object c, _, h => by
    cases (Payload.eq_iff_alike _ _).1 h with
    | object hc => exact (Payload.eq_iff_alike _ _).2 (.object (c.eq_symm hc))
  | .float x i, _, h => by
    cases (Payload.eq_iff_alike _ _).1 h with
    | float _ j hx => exact (Payload.eq_iff_alike _ _).2 (.float j i ((Binary64.eq_comm _ _).trans hx))
  | .code c, _, h => by
    cases (Payload.eq_iff_alike _ _).1 h with
    | code hc => exact (Payload.eq_iff_alike _ _).2 (.code hc.symm)
  | .callable f, _, h => by
    cases (Payload.eq_iff_alike _ _).1 h with
    | callable hf => exact (Payload.eq_iff_alike _ _).2 (.callable (Callable.same_symm hf))
  | .host k s t, _, h => by
    cases (Payload.eq_iff_alike _ _).1 h with
    | host _ _ _ u => exact (Payload.eq_iff_alike _ _).2 (.host k s u t)
  | .int _, _, h | .str _, _, h | .bool _, _, h | .null, _, h => by
    cases (Payload.eq_iff_alike _ _).1 h
    exact h

theorem Composite.eq_symm : ∀ {c d : Composite}, c.eq d = true → d.eq c = true
  | .record t vs, _, h => by
    cases (Composite.eq_iff_alike _ _).1 h with
    | record ht hvs => exact (Composite.eq_iff_alike _ _).2 (.record ht.symm (agreeAll_symm hvs))
    | identity hc hd => cases hc
  | .struct _, _, h | .pattern .., _, h | .binder .., _, h | .construction .., _, h | .host .., _, h => by
    cases (Composite.eq_iff_alike _ _).1 h with
    | identity hc hd => exact (Composite.eq_iff_alike _ _).2 (.identity hd hc)

theorem agreeAll_symm : ∀ {vs ws : List Value}, agreeAll vs ws = true → agreeAll ws vs = true
  | [], [], h => h
  | v :: vs, w :: ws, h => by
    unfold agreeAll at h ⊢
    rw [Bool.and_eq_true] at h ⊢
    exact ⟨v.agrees_symm_of v.eq_symm h.1, agreeAll_symm h.2⟩
  | [], _ :: _, h | _ :: _, [], h => by simp [agreeAll] at h

end

/-! ### From one to the next -/

theorem Binary64.eq_trans {x y z : Binary64} (h : x.eq y = true) (h' : y.eq z = true) : x.eq z = true := by
  simp only [Binary64.eq, Binary64.compareBy, Bool.and_eq_true, beq_iff_eq] at h h' ⊢
  exact ⟨⟨h.1.1, h'.1.2⟩, h.2.trans h'.2⟩

theorem Callable.same_trans {f g k : Callable} (h : f.same g = true) (h' : g.same k = true) : f.same k = true := by
  cases (Callable.same_iff_alike _ _).1 h with
  | serial hf hg =>
    cases (Callable.same_iff_alike _ _).1 h' with
    | serial hg' hk =>
      obtain rfl := Option.some.inj (hg.symm.trans hg')
      exact (Callable.same_iff_alike _ _).2 (.serial hf hk)
    | _ => cases hg
  | _ => exact h'

theorem Value.agrees_trans_of {u v w : Value} (htrans : u.eq v = true → v.eq w = true → u.eq w = true)
    (h : u.agrees v = true) (h' : v.agrees w = true) : u.agrees w = true := by
  rcases (Value.agrees_iff _ _).1 h with rfl | heq
  · exact h'
  rcases (Value.agrees_iff _ _).1 h' with rfl | heq'
  · exact h
  exact agrees_of_eq (htrans heq heq')

mutual

theorem Value.eq_trans : ∀ {u v w : Value}, u.eq v = true → v.eq w = true → u.eq w = true
  | .mk _ p, .mk _ _, .mk _ _, h, h' => by
    obtain ⟨hd, hp⟩ := (Value.eq_iff _ _).1 h
    obtain ⟨hd', hp'⟩ := (Value.eq_iff _ _).1 h'
    exact (Value.eq_iff _ _).2 ⟨hd.trans hd', p.eq_trans hp hp'⟩

theorem Payload.eq_trans : ∀ {p q r : Payload}, p.eq q = true → q.eq r = true → p.eq r = true
  | .cons a b, _, _, h, h' => by
    cases (Payload.eq_iff_alike _ _).1 h with
    | cons ha hb =>
      cases (Payload.eq_iff_alike _ _).1 h' with
      | cons ha' hb' =>
        exact (Payload.eq_iff_alike _ _).2
          (.cons (a.agrees_trans_of a.eq_trans ha ha') (b.agrees_trans_of b.eq_trans hb hb'))
  | .object c, _, _, h, h' => by
    cases (Payload.eq_iff_alike _ _).1 h with
    | object hc =>
      cases (Payload.eq_iff_alike _ _).1 h' with
      | object hc' => exact (Payload.eq_iff_alike _ _).2 (.object (c.eq_trans hc hc'))
  | .float x i, _, _, h, h' => by
    cases (Payload.eq_iff_alike _ _).1 h with
    | float _ _ hx =>
      cases (Payload.eq_iff_alike _ _).1 h' with
      | float _ k hx' => exact (Payload.eq_iff_alike _ _).2 (.float i k (Binary64.eq_trans hx hx'))
  | .code c, _, _, h, h' => by
    cases (Payload.eq_iff_alike _ _).1 h with
    | code hc =>
      cases (Payload.eq_iff_alike _ _).1 h' with
      | code hc' => exact (Payload.eq_iff_alike _ _).2 (.code (hc.trans hc'))
  | .callable f, _, _, h, h' => by
    cases (Payload.eq_iff_alike _ _).1 h with
    | callable hf =>
      cases (Payload.eq_iff_alike _ _).1 h' with
      | callable hf' => exact (Payload.eq_iff_alike _ _).2 (.callable (Callable.same_trans hf hf'))
  | .host k s t, _, _, h, h' => by
    cases (Payload.eq_iff_alike _ _).1 h with
    | host =>
      cases (Payload.eq_iff_alike _ _).1 h' with
      | host _ _ _ u => exact (Payload.eq_iff_alike _ _).2 (.host k s t u)
  | .int _, _, _, h, h' | .str _, _, _, h, h' | .bool _, _, _, h, h' | .null, _, _, h, h' => by
    cases (Payload.eq_iff_alike _ _).1 h
    exact h'

theorem Composite.eq_trans : ∀ {c d e : Composite}, c.eq d = true → d.eq e = true → c.eq e = true
  | .record t vs, _, _, h, h' => by
    cases (Composite.eq_iff_alike _ _).1 h with
    | identity hc hd => cases hc
    | record ht hvs =>
      cases (Composite.eq_iff_alike _ _).1 h' with
      | identity hc hd => cases hc
      | record ht' hvs' =>
        exact (Composite.eq_iff_alike _ _).2 (.record (ht.trans ht') (agreeAll_trans hvs hvs'))
  | .struct _, _, _, h, h' | .pattern .., _, _, h, h' | .binder .., _, _, h, h' | .construction .., _, _, h, h'
  | .host .., _, _, h, h' => by
    cases (Composite.eq_iff_alike _ _).1 h with
    | identity hc hd =>
      cases (Composite.eq_iff_alike _ _).1 h' with
      | record ht hvs => cases hd
      | identity hd' he =>
        -- what stands in the middle has one identity only
        obtain rfl := Option.some.inj (hd.symm.trans hd')
        exact (Composite.eq_iff_alike _ _).2 (.identity hc he)

theorem agreeAll_trans : ∀ {us vs ws : List Value}, agreeAll us vs = true → agreeAll vs ws = true →
    agreeAll us ws = true
  | [], [], _, _, h => h
  | u :: us, v :: vs, w :: ws, h, h' => by
    unfold agreeAll at h h' ⊢
    rw [Bool.and_eq_true] at h h' ⊢
    exact ⟨u.agrees_trans_of u.eq_trans h.1 h'.1, agreeAll_trans h.2 h'.2⟩
  | [], _ :: _, _, h, _ | _ :: _, [], _, h, _ => by simp [agreeAll] at h
  | _ :: _, _ :: _, [], _, h => by simp [agreeAll] at h

end

/-! ### Equality -/

namespace Value

theorem eq_self_iff (v : Value) : v.eq v = true ↔ v.isNaN = false := ⟨isNaN_of_eq, eq_self⟩

/-- What is equal is of one domain and one kind. -/
theorem domain_kind_of_eq {v w : Value} (h : v.eq w = true) : v.domain = w.domain ∧ v.kind = w.kind := by
  obtain ⟨hd, hp⟩ := (Value.eq_iff v w).1 h
  exact ⟨hd, ((Payload.eq_iff_alike _ _).1 hp).kind_eq⟩

/-- **Pairs are equal if their members are the very same objects or equal.** -/
theorem eq_cons_iff (d e : DomainId) (a b a' b' : Value) : (mk d (.cons a b)).eq (mk e (.cons a' b')) = true ↔
    d = e ∧ (a = a' ∨ a.eq a' = true) ∧ (b = b' ∨ b.eq b' = true) := by
  have hpairs : (Payload.cons a b).eq (.cons a' b') = true ↔ a.agrees a' = true ∧ b.agrees b' = true := by
    simp [Payload.eq]
  rw [← agrees_iff, ← agrees_iff, ← hpairs]
  exact Value.eq_iff _ _

/-- **Equality of values is an equivalence, but for what is not a number.** It is symmetric and transitive, through
members of whatever domain; `!=` is its negation; a value is equal to itself exactly if it is not itself something that
is not a number; values of different domains or kinds are not equal; and pairs are equal exactly if they are of one
domain and their members are, each, the very same object or equal. -/
theorem eq_equivalence :
    (∀ v w : Value, v.eq w = w.eq v) ∧
    (∀ u v w : Value, u.eq v = true → v.eq w = true → u.eq w = true) ∧
    (∀ v w : Value, ∃ b : Bool, Operator.binary .eq v w = .ok (.own (.bool b)) ∧
      Operator.binary .ne v w = .ok (.own (.bool !b)) ∧ (b = true ↔ v.eq w = true)) ∧
    (∀ v : Value, v.eq v = true ↔ v.isNaN = false) ∧
    (∀ v w : Value, v.domain ≠ w.domain ∨ v.kind ≠ w.kind → v.eq w = false) ∧
    ∀ (d e : DomainId) (a b a' b' : Value), (mk d (.cons a b)).eq (mk e (.cons a' b')) = true ↔
      d = e ∧ (a = a' ∨ a.eq a' = true) ∧ (b = b' ∨ b.eq b' = true) := by
  refine ⟨fun v w => ?_, fun u v w => u.eq_trans, fun v w => ⟨v.eq w, rfl, rfl, Iff.rfl⟩, eq_self_iff, fun v w h => ?_,
    eq_cons_iff⟩
  · exact Bool.eq_iff_iff.2 ⟨v.eq_symm, w.eq_symm⟩
  · refine Bool.eq_false_iff.2 fun heq => ?_
    obtain ⟨hd, hk⟩ := domain_kind_of_eq heq
    exact h.elim (· hd) (· hk)

/-- What is not a number, as a member: only the very same object will do. -/
theorem eq_equivalence_members :
    let nan (cell : Nat) : Value := mk 0 (.float .quietNaN cell)
    let pair (v : Value) : Value := mk 0 (.cons v (mk 1 .null))
    (nan 0).eq (nan 0) = false ∧ (pair (nan 0)).eq (pair (nan 0)) = true ∧
      (pair (nan 0)).eq (pair (nan 1)) = false := by
  intro nan pair
  obtain ⟨-, -, -, hself, -, hcons⟩ := eq_equivalence
  refine ⟨?_, (hself _).2 rfl, ?_⟩
  · exact Bool.eq_false_iff.2 fun h => absurd ((hself (nan 0)).1 h) (by decide)
  · refine Bool.eq_false_iff.2 fun h => ?_
    obtain ⟨-, heq | heq, -⟩ := (hcons ..).1 h
    · cases heq
    · simp [nan, Value.eq, Payload.eq] at heq
      exact absurd heq (by decide)

end Value

end StackCalc
