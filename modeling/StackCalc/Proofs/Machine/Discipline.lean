import StackCalc.Proofs.Machine.Conventions
import StackCalc.Proofs.Machine.Confinement

/-! # Calls keep to their declared counts

A call that declares `n` arguments and `r` results replaces the top `n` values of the stack by `r`
values if it succeeds, and however it ends it leaves the values below alone (`callAt_replaces`). Each
convention comes to this in its own way, as `Conventions` shows. Only `apply` hands the calling frame on
to another call; the induction on the depth is for its sake. The same induction shows that a call for one
result does not depend on how much of the stack its frame may see below the arguments: `Caller.Spares`
compares two views.

Functions of the host that work on the stack itself are taken to keep to their counts
(`Machine.Balanced`), and a host's object that can be called leaves one value whatever it is declared to
leave (`Value.CalledByHost`). -/

namespace StackCalc

open Run (Spares SparesAt Idle)

/-- The functions of the host that work on the stack itself keep to their counts. -/
def Machine.Balanced (m : Machine) : Prop := ∀ s ∈ m.shuffles, s.Balanced

theorem Machine.Balanced.of_eq {m n : Machine} (hm : m.Balanced) (h : n.shuffles = m.shuffles) :
    n.Balanced := by
  unfold Machine.Balanced
  rwa [h]

/-- An object of the host that can be called. -/
def Value.CalledByHost (v : Value) : Prop :=
  ∃ c : Composite, v.payload = .object c ∧ (c.trait? .callable).isSome = true

/-- **Calls keep to their counts**, and do not depend on where in `rest` the view begins if they are made
for one result. -/
def Caller.Spares (c : Caller) : Prop :=
  ∀ (rest top : List Value) (f : Frame) (w : View) (v : Value) (r : Int) (m : Machine),
    f.view.base ≤ rest.length → w.base ≤ rest.length → m.storage = top ++ rest → m.Balanced →
    (r = 1 ∨ w = f.view ∧ ∀ x ∈ v :: top, ¬ x.CalledByHost) →
    SparesAt rest m (c f v (some top.length) (some r))
      (c { f with view := w } v (some top.length) (some r)) fun _ k => (k : Int) = r

variable {rest : List Value} {n : Nat} {r : Int}

/-! ### Dispatch -/

section
variable {f : Frame} {w : View} (hf : f.view.base ≤ rest.length) (hw : w.base ≤ rest.length)
include hf hw

theorem callBuiltin_spares {c : Caller} (hi : c.Isolated fun _ => true) {b : Builtin}
    (hb : b ≠ .apply) :
    Spares rest n (callBuiltin c f b (some n) (some r))
      (callBuiltin c { f with view := w } b (some n) (some r)) fun _ k => (k : Int) = r := by
  cases b with
  | apply => exact absurd rfl hb
  | withMembers => exact callWithMembers_spares hf hw c
  | define => exact callDefine_spares hf hw
  | execute => exact callExecute_spares hf hw hi
  | list => exact callList_spares hf hw
  | print => exact callPrint_spares hf hw
  | struct => exact callStruct_spares hf hw
  | matchSymbol => exact callMatch_spares hf hw
  | pattern => exact callPattern_spares hf hw c
  | bool | car | cdr | cons | float | int | str | template | type =>
    exact callPure_spares hf hw fun _ => .inr fun _ _ => length_builtin

/-- Every function but `apply`, which hands its frame on. -/
theorem callCallable_spares {c : Caller} (hi : c.Isolated fun _ => true) {h : Callable}
    (ha : h ≠ .builtin .apply) (hr : r = 1 ∨ w = f.view) {m : Machine} {top : List Value}
    (hm : m.storage = top ++ rest) (hb : ∀ serial index, h = .shuffle serial index → m.Balanced) :
    SparesAt rest m (callCallable c f (some top.length) (some r) h)
      (callCallable c { f with view := w } (some top.length) (some r) h) fun _ k => (k : Int) = r := by
  cases h with
  | builtin b =>
    exact callBuiltin_spares hf hw hi (fun h => ha (congrArg _ h)) m top hm rfl
  | native serial index name takes gives =>
    refine Spares.get_bind (fun m => callPure_spares hf hw fun hg => ?_) m top hm rfl
    rcases hr with hr | hr
    · obtain rfl : gives = 1 := by omega
      exact .inr fun _ _ => length_spread_one
    · exact .inl hr
  | shuffle serial index =>
    refine SparesAt.of_outcome (Run.outcome_get_bind _ m) (Run.outcome_get_bind _ m) ?_
    rcases hs : m.shuffles[index]? with _ | s
    · exact Spares.throw _ m top hm rfl
    · exact callShuffle_spares hf hw (hb serial index rfl s (Array.mem_of_getElem? hs)) m top hm rfl
  | counter serial => exact callCounter_spares hf hw m top hm rfl
  | closure serial params body scope =>
    exact callClosure_spares hf hw hi params body scope m top hm rfl
  | matching serial scope patterns =>
    exact callMatching_spares hf hw hi scope patterns.length 0 patterns m top hm rfl
  | addPart builder =>
    refine callFixed_spares hf hw (fun _ => ?_) m top hm rfl
    exact (addPart_spares hf hw c builder).mono fun _ _ => .inr
  | addGuarded builder =>
    refine callFixed_spares hf hw (fun _ => ?_) m top hm rfl
    exact (addGuarded_spares hf hw builder).mono fun _ _ => .inr
  | addDefault builder =>
    refine callFixed_spares hf hw (fun _ => ?_) m top hm rfl
    exact (addDefault_spares hf hw builder).mono fun _ _ => .inr

/-- Every value that is no function. An object of the host leaves one value, whatever is declared. -/
theorem callOther_spares {c : Caller} {v : Value} (hv : ∀ h, v.payload ≠ .callable h)
    (hr : r = 1 ∨ ¬ v.CalledByHost) :
    Spares rest n (callWith c f v (some n) (some r)) (callWith c { f with view := w } v (some n) (some r))
      fun _ k => (k : Int) = r := by
  unfold callWith
  split
  next h hp => exact absurd hp (hv h)
  next t hp => exact callConstructor_spares hf hw t
  next h hns hp =>
    split
    next t ht =>
      refine Spares.bind (Spares.takeAll hf hw) fun given k hk => ?_
      have hone : r = 1 := hr.resolve_right fun hhost => hhost ⟨h, hp, by rw [ht]; rfl⟩
      refine (Spares.push _).mono fun _ j hj => ?_
      rw [hj, hk.2, hone]
      rfl
    next => exact callPlain_spares v
  next => exact callPlain_spares v

end

/-- The call that `apply` makes in its place has one argument less, and they are among its own. -/
theorem callApply_spares {c : Caller} (hc : c.Spares) {top : List Value} {f : Frame} {w : View}
    {m : Machine} (hf : f.view.base ≤ rest.length) (hw : w.base ≤ rest.length)
    (hm : m.storage = top ++ rest) (hb : m.Balanced)
    (hr : r = 1 ∨ w = f.view ∧ ∀ x ∈ top, ¬ x.CalledByHost) :
    SparesAt rest m (callApply c f (some top.length) (some r))
      (callApply c { f with view := w } (some top.length) (some r)) fun _ k => (k : Int) = r := by
  rw [callApply_some, callApply_some]
  by_cases hn : (top.length : Int) < 1
  · rw [if_pos hn, if_pos hn]
    exact Spares.throw _ m top hm rfl
  · rw [if_neg hn, if_neg hn]
    have htake : ∀ g : Frame, g.view.base ≤ rest.length →
        (Run.take g top.length).outcome m = (.ok top.reverse, { m with storage := rest }) := by
      intro g hg
      have h := View.take_append (s := top) (t := []) hg
      rw [List.append_nil, List.nil_append] at h
      rw [Run.outcome_take, hm, h]
    refine SparesAt.of_outcome (Run.outcome_bind_of_ok (htake f hf))
      (Run.outcome_bind_of_ok (htake { f with view := w } hw)) ?_
    rcases ht : top.reverse with _ | ⟨target, given⟩
    · exact Spares.throw _ _ [] rfl rfl
    · have hmem : ∀ x ∈ target :: given.reverse, x ∈ top := fun x hx => by
        rw [← List.mem_reverse, ht]
        simpa using hx
      have hlen : (top.length : Int) - 1 = given.reverse.length := by
        rw [← List.length_reverse, ht, List.length_cons, List.length_reverse]
        omega
      rw [hlen]
      refine SparesAt.of_outcome (Run.outcome_bind_of_ok (Run.outcome_pushAll given _))
        (Run.outcome_bind_of_ok (Run.outcome_pushAll given _)) ?_
      exact hc rest given.reverse f w target r _ hf hw rfl hb
        (hr.imp_right fun h => ⟨h.1, fun x hx => h.2 x (hmem x hx)⟩)

theorem callWith_spares {c : Caller} (hi : c.Isolated fun _ => true) (hc : c.Spares) :
    Caller.Spares (callWith c) := by
  intro rest top f w v r m hf hw hm hb hr
  by_cases hv : ∃ h, v.payload = .callable h
  · obtain ⟨h, hv⟩ := hv
    unfold callWith
    rw [hv]
    by_cases ha : h = .builtin .apply
    · rw [ha]
      exact callApply_spares hc hf hw hm hb
        (hr.imp_right fun h => ⟨h.1, fun x hx => h.2 x (List.mem_cons_of_mem _ hx)⟩)
    · exact callCallable_spares hf hw hi ha (hr.imp_right And.left) hm fun _ _ _ => hb
  · exact callOther_spares hf hw (not_exists.1 hv) (hr.imp_right fun h => h.2 v List.mem_cons_self) m top hm rfl

theorem spares_callAt : ∀ depth : Nat, Caller.Spares (callAt depth)
  | 0 => fun _ top _ _ _ _ m _ _ hm _ _ => Spares.throw _ m top hm rfl
  | depth + 1 => callWith_spares (isolated_callAt _ depth) (spares_callAt depth)

/-- A call by name for one result does not depend on where its frame's view begins. -/
theorem callSymbol_spares {c : Caller} (hc : c.Spares) {top : List Value} {f : Frame} {w : View}
    {m : Machine} (hf : f.view.base ≤ rest.length) (hw : w.base ≤ rest.length)
    (hm : m.storage = top ++ rest) (hb : m.Balanced) (s : Symbol) :
    SparesAt rest m (callSymbol c f (some top.length) (some 1) s)
      (callSymbol c { f with view := w } (some top.length) (some 1) s) fun _ k => k = 1 := by
  have hone : ∀ (_ : Unit) (k : Nat), (k : Int) = 1 → k = 1 := fun _ k hk => by omega
  cases s with
  | value v => exact (hc rest top f w v 1 m hf hw hm hb (.inl rfl)).mono hone
  | placeholder name => exact (callPlaceholder_spares hf hw name m top hm rfl).mono hone

/-! ### Calls from outside -/

theorem distinguishAll_idle : ∀ v : Value, Idle (Run.distinguishAll v) ∧
    Run.Within none (Run.distinguishAll v)
  | .mk d p => by
    unfold Run.distinguishAll
    cases p with
    | cons a b =>
      have ha := distinguishAll_idle a
      have hb := distinguishAll_idle b
      exact ⟨Idle.bind ha.1 fun _ => Idle.bind hb.1 fun _ => Idle.pure _,
        Run.Within.bind ha.2 fun _ => Run.Within.bind hb.2 fun _ => Run.Within.pure _⟩
    | _ => exact ⟨Idle.distinguish _, Run.Within.distinguish _⟩

/-- Handing in data takes the storage as it is, and binds nothing. -/
theorem toValue_idle (d : Data) :
    Idle (Calculator.toValue d) ∧ Run.Within none (Calculator.toValue d) := by
  unfold Calculator.toValue
  refine ⟨Idle.bind (Idle.lift _) fun v => ?_, Run.Within.bind (Run.Within.lift _) fun v => ?_⟩
  · split
    · exact Idle.pure _
    · exact (distinguishAll_idle v).1
  · split
    · exact Run.Within.pure _
    · exact (distinguishAll_idle v).2

theorem pushData_spares (args : List Data) :
    Spares rest 0 (args.forM fun d => do Run.push (← Calculator.toValue d))
      (args.forM fun d => do Run.push (← Calculator.toValue d)) fun _ k => k = 0 + args.length :=
  Spares.forM (fun d _ => Spares.idle_bind (toValue_idle d).1 fun v => Spares.push v) args 0

theorem pushData_within (args : List Data) :
    Run.Within none (args.forM fun d => do Run.push (← Calculator.toValue d)) :=
  Run.Within.forM (fun d => Run.Within.bind (toValue_idle d).2 fun v => Run.Within.push v) args

theorem resolve_target_within (target : Calculator.Target) : Run.Within none target.resolve := by
  cases target with
  | name s =>
    refine Run.Within.bind (Run.Within.find? _ _) fun found => ?_
    rcases found with _ | v | name
    · exact Run.Within.throw _
    · exact Run.Within.pure _
    · exact Run.Within.throw _
  | value v => exact Run.Within.pure _

/-- The call on a stack of its own that holds the arguments and nothing else. -/
theorem length_callAlone {f : Frame} (hf : f.view = View.whole) {fn : Value} {args : List Data}
    {m : Machine} (hm : m.storage = []) (hb : m.Balanced) {vs : List Value}
    (h : ((do
        args.forM fun d => do Run.push (← Calculator.toValue d)
        call f fn (some args.length) (some 1)
        Run.values f : Run (List Value)).outcome m).1 = .ok vs) : vs.length = 1 := by
  have hbase : f.view.base ≤ ([] : List Value).length := by rw [hf]; rfl
  obtain ⟨_, m1, hpush, h⟩ := Run.exists_of_outcome_bind_ok h
  obtain ⟨_, m2, hcall, h⟩ := Run.exists_of_outcome_bind_ok h
  have hdata : Spares [] 0 _ _ _ := pushData_spares args
  obtain ⟨top, htop, hlen⟩ := (hdata m [] hm rfl).of_ok hpush
  have hb1 : m1.Balanced := by
    have hw := pushData_within args m
    rw [hpush] at hw
    exact hb.of_eq hw.shuffles
  have hargs : (args.length : Int) = top.length := by rw [hlen, Nat.zero_add]
  rw [hargs] at hcall
  obtain ⟨left, hleft, hone⟩ :=
    (spares_callAt depthLimit [] top f f.view fn 1 m1 hbase hbase htop hb1 (.inl rfl)).of_ok hcall
  cases h
  rw [hf, hleft, View.values_whole, List.length_reverse, List.append_nil]
  omega

/-- **A call replaces its declared arguments by its declared results.** If it succeeds there are as many
values above `rest` as were declared; however it ends `rest` is as it was. So a call from outside that
wants one value and succeeds finds exactly one. -/
theorem callAt_replaces :
    (∀ (depth : Nat) (f : Frame) (v : Value) (r : Int) (m : Machine) (args rest : List Value),
      m.storage = args ++ rest → f.view.base ≤ rest.length → m.Balanced →
      (r = 1 ∨ ∀ x ∈ v :: args, ¬ x.CalledByHost) →
      ∃ left : List Value,
        ((callAt depth f v (some args.length) (some r)).outcome m).2.storage = left ++ rest ∧
        (((callAt depth f v (some args.length) (some r)).outcome m).1 = .ok () →
          (left.length : Int) = r)) ∧
    (∀ (target : Calculator.Target) (args : List Data) (c : Calculator) (vs : List Value),
      c.machine.Balanced → ((Calculator.callTarget target args (some 1)).outcome c).1 = .ok vs →
      vs.length = 1) := by
  refine ⟨fun depth f v r m args rest hm hf hb hv => ?_, fun target args c vs hb h => ?_⟩
  · obtain ⟨-, left, hleft, hr⟩ := spares_callAt depth rest args f f.view v r m hf hf hm hb
      (hv.imp_right fun h => ⟨rfl, h⟩)
    exact ⟨left, hleft, hr ()⟩
  · have hw := resolve_target_within target c.machine
    obtain ⟨fn, m1, hfn, hvs⟩ := Run.exists_of_outcome_bind_ok (r := target.resolve) h
    rw [hfn] at hw
    have hb1 : ({ m1 with storage := [] } : Machine).Balanced := hb.of_eq hw.shuffles
    rw [Run.outcome_aside] at hvs
    exact length_callAlone rfl rfl hb1 hvs

/-- A pair made of the top two of three values, and a value called from outside with no arguments. -/
theorem callAt_replaces_pair :
    let one : Value := .own (.int 1)
    let cons : Value := .own (.callable (.builtin .cons))
    let f : Frame := ⟨0, View.whole, false⟩
    let m : Machine := { Machine.empty with storage := [one, one] ++ [one] }
    let c : Calculator := Calculator.bare false false
    f.view.base ≤ [one].length ∧ m.Balanced ∧
      (∃ left : List Value,
        ((callAt 1 f cons (some 2) (some 1)).outcome m).2.storage = left ++ [one] ∧
        (((callAt 1 f cons (some 2) (some 1)).outcome m).1 = .ok () → (left.length : Int) = 1)) ∧
      c.machine.Balanced ∧
      ((Calculator.callTarget (.value one) [] (some 1)).outcome c).1 = .ok [one] ∧
      [one].length = 1 := by
  have hb : ∀ m : Machine, m.shuffles = #[] → m.Balanced := by
    intro m hm s hs
    rw [hm] at hs
    simp at hs
  refine ⟨by decide, hb _ rfl, ?_, hb _ rfl, rfl, ?_⟩
  · exact callAt_replaces.1 1 _ _ 1 _ [_, _] [_] rfl (by decide) (hb _ rfl) (.inl rfl)
  · exact callAt_replaces.2 (.value (.own (.int 1))) [] (Calculator.bare false false) _ (hb _ rfl) rfl

end StackCalc
