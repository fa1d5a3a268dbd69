import StackCalc.Proofs.Run.Outcome
import StackCalc.Proofs.Scope.Congruent
import StackCalc.Proofs.Stack.Resting

/-! # Runs of admitted code

Two machines are congruent if code that mentions what is admitted cannot tell them apart: their scopes are
congruent, the rest is the same, and all values on the stack are admitted. `Run.Steady base P r` says what the
run `r` does on congruent machines that hold `base` values at least: it ends in the same way on both, with a
result that has the property `P` or in a fault that is tolerated; it keeps the machines congruent and the `base`
values in their number; all that it prints are lines of output, and it logs what may be recorded. A single
machine that is congruent to itself is one that admitted code may run on. Here are the rules for the pieces of
runs.

That the base of a frame is never undercut is what its view is good for: the number of values it may take
is never negative, so that it can be asked for all of them. -/

namespace StackCalc

open Vocabulary (Admits Records)

variable [Vocabulary]

/-- The pieces of a pattern under construction are admitted. -/
structure PatternBuilder.Admitted (b : PatternBuilder) : Prop where
  parts : ∀ p ∈ b.parts, p.Admitted
  guards : ∀ c ∈ b.clauses, c.1.Admitted
  actions : ∀ c ∈ b.clauses, c.2.Admitted
  fallback : ∀ c, b.fallback = some c → c.Admitted

/-- A function of the host gives admitted values back for admitted values, and its faults are tolerated. -/
def NativeFunction.Lawful (fn : NativeFunction) : Prop :=
  ∀ (gives : Nat) (given : List Value), (∀ v ∈ given, v.Admitted) →
    Yields (fun vs => ∀ v ∈ vs, v.Admitted) (do (← fn given).spread gives)

/-- **Machines that admitted code cannot tell apart.** -/
structure Machine.Congruent (m n : Machine) : Prop where
  storage : m.storage = n.storage
  values : ∀ v ∈ m.storage, v.Admitted
  scopes : m.scopes.Congruent n.scopes
  builders : m.builders = n.builders
  pieces : ∀ (i : Nat) (b : PatternBuilder), Admits (.builder i) → m.builders[i]? = some b → b.Admitted
  fresh : ∀ i : Nat, m.builders.size ≤ i → Admits (.builder i)
  natives : m.natives = n.natives
  lawful : ∀ (i : Nat) (fn : NativeFunction), Admits (.host i) → m.natives[i]? = some fn → fn.Lawful
  shuffles : m.shuffles = n.shuffles
  next : m.next = n.next
  effects : m.effects = n.effects
  logging : m.logging = n.logging

/-- A machine after another one: `base` values are left, lines of output have been printed, and what may be
recorded has been logged, if the log is kept. -/
structure Machine.Continues (base : Nat) (m n : Machine) : Prop where
  base_le : base ≤ n.storage.length
  printed : ∃ lines, n.effects.toList = m.effects.toList ++ lines ∧ ∀ e ∈ lines, e.channel = .stdout
  logging : n.logging = m.logging
  logged : ∃ records, n.log.toList = m.log.toList ++ records ∧ ∀ e ∈ records, Records e

/-- Steps may be recorded, if they are traced. -/
def MayTrace (traced : Bool) : Prop := traced = true → ∀ i stack, Records (.step i stack)

/-- The scope of a frame is admitted, and its steps may be recorded if it is traced. -/
structure Frame.Admitted (f : Frame) : Prop where
  scope : Admits (.scope f.scope)
  trace : MayTrace f.trace

/-- A part of a view reaches no further down, and nothing but a count that is not allowed is at fault. -/
theorem View.yields_sub {α : Type} (v : View) (s : List α) {count : Int} (h : Admits (.count count)) :
    Yields (fun w : View => v.base ≤ w.base ∧ w.base ≤ s.length) (v.sub s count) := by
  refine yields_iff.2 ⟨fun w hw => View.base_of_sub hw, fun f hf => ?_⟩
  unfold View.sub at hf
  split_ifs at hf with hcount hlen
  · cases hf
    exact Vocabulary.negative h hcount
  · cases hf
    exact .ordinary rfl

namespace Machine.Continues

variable {base : Nat} {m n o : Machine}

theorem trans (h : m.Continues base n) (h' : n.Continues base o) : m.Continues base o := by
  obtain ⟨lines, hlines, hout⟩ := h.printed
  obtain ⟨lines', hlines', hout'⟩ := h'.printed
  obtain ⟨records, hrecords, hmay⟩ := h.logged
  obtain ⟨records', hrecords', hmay'⟩ := h'.logged
  refine ⟨h'.base_le, ⟨lines ++ lines', ?_, List.forall_mem_append.2 ⟨hout, hout'⟩⟩,
    h'.logging.trans h.logging, ⟨records ++ records', ?_, List.forall_mem_append.2 ⟨hmay, hmay'⟩⟩⟩
  · rw [hlines', hlines, List.append_assoc]
  · rw [hrecords', hrecords, List.append_assoc]

/-- Nothing has been printed or logged. -/
theorem of_silent (hbase : base ≤ n.storage.length) (heffects : n.effects = m.effects)
    (hlogging : n.logging = m.logging) (hlog : n.log = m.log) : m.Continues base n :=
  ⟨hbase, ⟨[], by rw [heffects, List.append_nil], fun _ h => by cases h⟩, hlogging,
    ⟨[], by rw [hlog, List.append_nil], fun _ h => by cases h⟩⟩

end Machine.Continues

namespace Run

variable {α β : Type}

/-- How a run ends on two machines, the first of which was `m`. -/
structure Parallel (base : Nat) (P : α → Prop) (m : Machine) (x y : Except Fault α × Machine) : Prop where
  same : x.1 = y.1
  yields : Yields P x.1
  congruent : x.2.Congruent y.2
  continues : m.Continues base x.2

/-- **A run that ends in the same way on congruent machines**, keeps them congruent, prints lines of output only,
and logs what may be recorded. -/
def Steady (base : Nat) (P : α → Prop) (r : Run α) : Prop :=
  ∀ m n : Machine, m.Congruent n → base ≤ m.storage.length → Parallel base P m (r.outcome m) (r.outcome n)

/-- A steady run, whatever its result. -/
abbrev Settles (base : Nat) (r : Run α) : Prop := Steady base (fun _ => True) r

namespace Parallel

variable {base : Nat} {P : α → Prop} {m n m' n' : Machine}

/-- Both succeed with the same result. -/
theorem ok {a : α} (h : P a) (hcong : m'.Congruent n') (hcont : m.Continues base m') :
    Parallel base P m (.ok a, m') (.ok a, n') := ⟨rfl, .ok h, hcong, hcont⟩

/-- Both end in the machines that they began in. -/
theorem unchanged (hmn : m.Congruent n) (hb : base ≤ m.storage.length) {x : Except Fault α} (h : Yields P x) :
    Parallel base P m (x, m) (x, n) := ⟨rfl, h, hmn, .of_silent hb rfl rfl rfl⟩

end Parallel

namespace Steady

variable {base : Nat} {P : α → Prop} {Q : β → Prop}

theorem lift {x : Except Fault α} (h : Yields P x) : Steady base P (liftM x : Run α) :=
  fun _ _ hmn hb => .unchanged hmn hb h

theorem pure {a : α} (h : P a) : Steady base P (Pure.pure a) := fun _ _ hmn hb => .unchanged hmn hb (.ok h)

theorem throw {e : Fault} (h : e.Tolerated) : Steady base P (throw e : Run α) :=
  fun _ _ hmn hb => .unchanged hmn hb (.error h)

/-- A fault of functions of values. -/
theorem fault {e : Fault} (h : e.isOrdinary = true) : Steady base P (MonadExcept.throw e : Run α) := throw (.ordinary h)

theorem mono {R : α → Prop} {r : Run α} (h : Steady base P r) (hR : ∀ a, P a → R a) : Steady base R r :=
  fun m n hmn hb => { h m n hmn hb with yields := (h m n hmn hb).yields.mono hR }

theorem bind {r : Run α} {k : α → Run β} (h : Steady base P r) (hk : ∀ a, P a → Steady base Q (k a)) :
    Steady base Q (r >>= k) := by
  intro m n hmn hb
  have hr := h m n hmn hb
  rw [outcome_bind, outcome_bind]
  generalize r.outcome m = x at hr ⊢
  generalize r.outcome n = y at hr ⊢
  obtain ⟨x, m'⟩ := x
  obtain ⟨y, n'⟩ := y
  obtain ⟨rfl, hyields, hcong, hcont⟩ : Parallel base P m (x, m') (y, n') := hr
  cases hyields with
  | error he => exact ⟨rfl, .error he, hcong, hcont⟩
  | ok ha =>
    have hrest := hk _ ha m' n' hcong hcont.base_le
    exact { hrest with continues := hcont.trans hrest.continues }

/-- What is read of the machine comes to the same. -/
theorem get_bind {k : Machine → Run α} (h : ∀ m n : Machine, m.Congruent n → k m = k n ∧ Steady base P (k m)) :
    Steady base P (get >>= k) := by
  intro m n hmn hb
  obtain ⟨hsame, hsteady⟩ := h m n hmn
  rw [outcome_get_bind, outcome_get_bind, ← hsame]
  exact hsteady m n hmn hb

theorem ite {p : Prop} [Decidable p] {r s : Run α} (hr : p → Steady base P r) (hs : ¬ p → Steady base P s) :
    Steady base P (if p then r else s) := by
  split_ifs with hp
  · exact hr hp
  · exact hs hp

theorem forM {k : β → Run PUnit} : ∀ {bs : List β}, (∀ b ∈ bs, Settles base (k b)) → Settles base (bs.forM k)
  | [], _ => pure trivial
  | b :: _, h => bind (h b List.mem_cons_self) fun _ _ => forM fun b' hb' => h b' (List.mem_cons_of_mem b hb')

theorem tryCatch {r : Run α} {k : Fault → Run α} (h : Steady base P r) (hk : ∀ e, Steady base P (k e)) :
    Steady base P (tryCatch r k) := by
  intro m n hmn hb
  have hr := h m n hmn hb
  rw [outcome_tryCatch, outcome_tryCatch]
  generalize r.outcome m = x at hr ⊢
  generalize r.outcome n = y at hr ⊢
  obtain ⟨x, m'⟩ := x
  obtain ⟨y, n'⟩ := y
  obtain ⟨rfl, hyields, hcong, hcont⟩ : Parallel base P m (x, m') (y, n') := hr
  cases hyields with
  | @error e he =>
    have hrest := hk e m' n' hcong hcont.base_le
    exact { hrest with continues := hcont.trans hrest.continues }
  | ok ha => exact ⟨rfl, .ok ha, hcong, hcont⟩

/-- On an empty stack of its own a run has nothing to keep to. -/
theorem aside {r : Run α} (h : Steady 0 P r) : Steady base P (aside r) := by
  intro m n hmn hb
  have hempty : ({ m with storage := [] } : Machine).Congruent { n with storage := [] } :=
    { hmn with storage := rfl, values := fun v hv => by cases hv }
  obtain ⟨hsame, hyields, hcong, hcont⟩ := h _ _ hempty (Nat.zero_le _)
  rw [outcome_aside, outcome_aside]
  exact ⟨hsame, hyields, { hcong with storage := hmn.storage, values := hmn.values }, { hcont with base_le := hb }⟩

theorem wants (declared : Option Int) (count : Int) {fault : Int → Fault} (h : ∀ n, (fault n).Tolerated) :
    Settles base (wants declared count fault) := by
  rcases declared with _ | n
  · exact pure trivial
  · exact ite (fun _ => pure trivial) fun _ => throw (h n)

/-! ### Pieces that change neither the stack nor the scopes -/

theorem find? {scope : ScopeId} (hscope : Admits (.scope scope)) {name : Text} (hname : Admits (.name name)) :
    Steady base (fun s => ∀ a, s = some a → a.Admitted) (find? scope name) := by
  intro m n hmn hb
  rw [outcome_find?, outcome_find?, ← hmn.scopes.find? hscope hname]
  exact .unchanged hmn hb (.ok fun _ hs => hmn.scopes.admitted hscope hname hs)

theorem fresh : Settles base fresh := by
  intro m n hmn hb
  have hnext : n.next = m.next := hmn.next.symm
  have houtcome : (Run.fresh).outcome n = (.ok m.next, { n with next := m.next + 1 }) := by
    rw [← hnext]
    rfl
  rw [houtcome]
  exact .ok trivial { hmn with next := rfl } (.of_silent hb rfl rfl rfl)

theorem note {e : Event} (h : Records e) : Settles base (note e) := by
  intro m n hmn hb
  have houtcome : ∀ o : Machine, (Run.note e).outcome o =
      (.ok (), if o.logging then { o with log := o.log.push e } else o) := fun _ => rfl
  rw [houtcome, houtcome]
  by_cases hlog : n.logging = true
  · rw [if_pos (hmn.logging.trans hlog), if_pos hlog]
    refine .ok trivial { hmn with } ⟨hb, ⟨[], (List.append_nil _).symm, fun _ h => by cases h⟩, rfl, [e], ?_, ?_⟩
    · exact Array.toList_push
    · exact List.forall_mem_singleton.2 h
  · rw [if_neg hlog, if_neg (by rwa [hmn.logging])]
    exact .unchanged hmn hb (.ok trivial)

theorem emit (message : Text) : Settles base (emit .stdout message) := by
  intro m n hmn hb
  refine .ok trivial { hmn with effects := ?_ } ⟨hb, ⟨[⟨.stdout, message⟩], Array.toList_push, ?_⟩, rfl,
    ⟨[], (List.append_nil _).symm, fun _ h => by cases h⟩⟩
  · exact congrArg (·.push ⟨.stdout, message⟩) hmn.effects
  · exact List.forall_mem_singleton.2 rfl

theorem distinguish {v : Value} (h : v.Admitted) : Steady base Value.Admitted (distinguish v) := by
  unfold Run.distinguish
  split
  · exact ite (fun _ => bind fresh fun _ _ => pure (Value.Hereditary.scalar _ rfl)) fun _ => pure h
  · exact pure h

theorem distinguishAll : ∀ {v : Value}, v.Admitted → Steady base Value.Admitted (distinguishAll v)
  | .mk d p, h => by
    unfold Run.distinguishAll
    cases p with
    | cons a b =>
      obtain ⟨ha, hb⟩ := Value.Hereditary.pair h rfl
      refine bind (distinguishAll ha) fun a ha => bind (distinguishAll hb) fun b hb => ?_
      exact pure (Value.Hereditary.cons.2 ⟨ha, hb⟩)
    | _ => exact distinguish h

theorem callable {make : Nat → Callable} (h : ∀ n, (make n).Admitted) : Steady base Value.Admitted (callable make) :=
  bind fresh fun n _ => pure (Value.admitted_own (h n))

theorem object {make : Nat → Composite} (h : ∀ n, ∀ x ∈ (make n).mentions, Admits x) :
    Steady base Value.Admitted (object make) :=
  bind fresh fun n _ => pure (Value.admitted_own (h n))

/-! ### The stack -/

theorem pushAll {vs : List Value} (h : ∀ v ∈ vs, v.Admitted) : Settles base (pushAll vs) := by
  intro m n hmn hb
  have hvalues : ∀ v ∈ vs.reverse ++ m.storage, v.Admitted :=
    List.forall_mem_append.2 ⟨fun v hv => h v (List.mem_reverse.1 hv), hmn.values⟩
  rw [outcome_pushAll, outcome_pushAll, ← hmn.storage]
  refine .ok trivial { hmn with storage := rfl, values := hvalues } (.of_silent ?_ rfl rfl rfl)
  rw [List.length_append]
  omega

theorem push {v : Value} (h : v.Admitted) : Settles base (push v) := pushAll (List.forall_mem_singleton.2 h)

section Frame

variable {f : Frame}

/-- A frame can always be asked for all of its values. -/
theorem size : Steady f.view.base (fun n => 0 ≤ n) (size f) := by
  intro m n hmn hb
  rw [outcome_size, outcome_size, ← hmn.storage]
  refine .unchanged hmn hb (.ok ?_)
  change 0 ≤ (m.storage.length : Int) - f.view.base
  omega

theorem values : Steady base (fun vs => ∀ v ∈ vs, v.Admitted) (values f) := by
  intro m n hmn hb
  rw [outcome_values, outcome_values, ← hmn.storage]
  exact .unchanged hmn hb (.ok fun v hv => hmn.values v (List.mem_of_mem_take (List.mem_reverse.1 hv)))

theorem pop : Steady f.view.base Value.Admitted (pop f) := by
  intro m n hmn hb
  rw [outcome_pop, outcome_pop, ← hmn.storage]
  unfold View.pop
  split_ifs with hlen
  · exact .unchanged hmn hb (.ordinary rfl)
  · rcases hs : m.storage with _ | ⟨v, rest⟩
    · exact .unchanged hmn hb (.ordinary rfl)
    · obtain ⟨hv, hrest⟩ := List.forall_mem_cons.1 (hs ▸ hmn.values)
      rw [hs, List.length_cons] at hlen
      refine .ok hv { hmn with storage := rfl, values := hrest } (.of_silent ?_ rfl rfl rfl)
      dsimp only
      omega

/-- A part of a frame begins where the frame does, or above. -/
theorem sub {count : Int} (h : Admits (.count count)) :
    Steady f.view.base (fun v => f.view.base ≤ v.base) (sub f count) := by
  intro m n hmn hb
  rw [outcome_sub, outcome_sub, ← hmn.storage, View.sub]
  split_ifs with hcount hlen
  · exact .unchanged hmn hb (.error (Vocabulary.negative h hcount))
  · exact .unchanged hmn hb (.ordinary rfl)
  · unfold View.size at hlen
    refine .unchanged hmn hb (.ok ?_)
    dsimp only
    omega

/-- Taking values off leaves what a view does not cover. -/
theorem clear {v : View} (h : base ≤ v.base) :
    Settles base (modify fun m => { m with storage := v.clear m.storage } : Run PUnit) := by
  intro m n hmn hb
  have hvalues : ∀ w ∈ v.clear m.storage, w.Admitted := fun w hw => hmn.values w (List.mem_of_mem_drop hw)
  refine .ok trivial { hmn with storage := congrArg v.clear hmn.storage, values := hvalues } (.of_silent ?_ rfl rfl rfl)
  change base ≤ (v.clear m.storage).length
  rw [View.clear, List.length_drop]
  omega

theorem take {count : Int} (h : Admits (.count count)) :
    Steady f.view.base (fun vs => vs.length = count.toNat ∧ ∀ v ∈ vs, v.Admitted) (take f count) := by
  intro m n hmn hb
  rw [outcome_take, outcome_take, ← hmn.storage, View.take, View.sub]
  by_cases hcount : count < 0
  · rw [if_pos hcount]
    exact .unchanged hmn hb (.error (Vocabulary.negative h hcount))
  rw [if_neg hcount]
  by_cases hlen : f.view.size m.storage < count
  · rw [if_pos hlen]
    exact .unchanged hmn hb (.ordinary rfl)
  rw [if_neg hlen]
  unfold View.size at hlen
  refine .ok ⟨?_, fun v hv => hmn.values v (List.mem_of_mem_take (List.mem_reverse.1 hv))⟩
    { hmn with storage := rfl, values := fun w hw => hmn.values w (List.mem_of_mem_drop hw) }
    (.of_silent ?_ rfl rfl rfl)
  · rw [View.values, List.length_reverse, List.length_take]
    dsimp only
    omega
  · change f.view.base ≤ (View.clear _ m.storage).length
    rw [View.clear, List.length_drop]
    dsimp only
    omega

theorem checkResults (results : Option Int) : Settles f.view.base (checkResults f results) := by
  rcases results with _ | r
  · exact pure trivial
  · exact bind size fun _ _ => ite (fun _ => fault rfl) fun _ => pure trivial

end Frame

/-! ### Scopes -/

theorem put {scope : ScopeId} (hscope : Admits (.scope scope)) (name : Text) {v : Value} (h : v.Admitted) :
    Settles base (put scope name v) := by
  intro m n hmn hb
  have hends := m.scopes.ends_put scope name v
  rw [outcome_put, outcome_put]
  rcases hmn.scopes.put hscope name h with ⟨f', g', hf, hg, hcong⟩ | ⟨e, hf, hg⟩
  · rw [hf, hg]
    exact .ok trivial { hmn with scopes := hcong } (.of_silent hb rfl rfl rfl)
  · rw [hf] at hends
    rw [hf, hg]
    exact .unchanged hmn hb (.error hends.of_error)

theorem putAll {scope : ScopeId} (hscope : Admits (.scope scope)) {entries : Bindings}
    (h : ∀ e ∈ entries, e.2.Admitted) : Settles base (putAll scope entries) :=
  forM fun e he => put hscope e.1 (h e he)

theorem grow {s : Scope} (h : s.Congruent s) : Steady base (fun id => Admits (.scope id)) (grow s) := by
  intro m n hmn hb
  rw [outcome_grow, outcome_grow, ← hmn.scopes.size]
  exact .ok (hmn.scopes.fresh _ (Nat.le_refl _)) { hmn with scopes := hmn.scopes.push h } (.of_silent hb rfl rfl rfl)

/-- What runs in a part of a frame keeps to that part, and so to the frame. -/
theorem inner_bind {f : Frame} (hf : f.Admitted) {scope : ScopeId} (hscope : Admits (.scope scope)) {count : Int}
    (h : Admits (.count count)) {k : Frame → Run α}
    (hk : ∀ frame : Frame, frame.Admitted → Steady frame.view.base P (k frame)) :
    Steady f.view.base P (inner f scope count >>= k) := by
  intro m n hmn hb
  have hm := outcome_inner f scope count m
  have hn := outcome_inner f scope count n
  have hsub := f.view.yields_sub m.storage h
  have hviews : f.view.sub n.storage count = f.view.sub m.storage count := by rw [hmn.storage]
  rw [hviews] at hn
  rcases hview : f.view.sub m.storage count with e | view <;> rw [hview] at hm hn hsub
  · rw [outcome_bind_of_error hm, outcome_bind_of_error hn]
    exact .unchanged hmn hb (.error hsub.of_error)
  · obtain ⟨hle, hlen⟩ := hsub.of_ok
    rw [outcome_bind_of_ok hm, outcome_bind_of_ok hn, ← hmn.scopes.size]
    have hpushed : ({ m with scopes := ⟨m.scopes.scopes.push (.layer scope [])⟩ } : Machine).Congruent
        { n with scopes := ⟨n.scopes.scopes.push (.layer scope [])⟩ } :=
      { hmn with scopes := hmn.scopes.push (.layer hscope Bindings.congruent_nil) }
    obtain ⟨hsame, hyields, hcong, hcont⟩ := hk ⟨m.scopes.scopes.size, view, f.trace⟩
      ⟨hmn.scopes.fresh _ (Nat.le_refl _), hf.trace⟩ _ _ hpushed hlen
    exact ⟨hsame, hyields, hcong, { hcont with base_le := Nat.le_trans hle hcont.base_le }⟩

end Steady

end Run

end StackCalc
