import StackCalc.Proofs.Machine.Discipline
import StackCalc.Proofs.Expr.Evaluate

/-! # Steps beside direct evaluation

While the steps of an expression run, operands wait on the stack: the machine of the steps holds some
values on top of a storage that the machine of direct evaluation keeps as it is, and the two agree on
everything else (`Machine.Pending`). Steps deliver what an evaluation yields if this goes on to hold with
the values that the evaluation results in (`Run.Delivers`), and the same fault arises in both if one
arises.

The one piece with an argument to it is the call (`callSymbol_delivers`). Steps call in the frame they
run in, with all that waits below the arguments; direct evaluation calls on a stack that holds the
arguments alone. A call for one result does not depend on where its view begins, as calls keep to their
counts, and a view that begins below the arguments is as good as a stack of its own, as calls are
isolated. -/

namespace StackCalc

/-- **What is known of calls**: they do not see below their view, they keep to their counts, and they bind
names through the scope of their frame alone. -/
structure Caller.Orderly (keep : Event → Bool) (c : Caller) : Prop where
  isolated : c.Isolated keep
  spares : c.Spares
  confined : c.Confined

theorem orderly_callAt (keep : Event → Bool) (depth : Nat) : Caller.Orderly keep (callAt depth) :=
  ⟨isolated_callAt keep depth, spares_callAt depth, confined_callAt depth⟩

/-- The machine `m` holds `top` on top of the storage of `n`, and agrees with it otherwise. -/
structure Machine.Pending (bottom : List Value) (keep : Event → Bool) (top : List Value)
    (m n : Machine) : Prop extends Machine.Agrees keep m n where
  storage : m.storage = top ++ bottom
  kept : n.storage = bottom
  balanced : m.Balanced

namespace Run

variable {α β γ : Type} {bottom top : List Value} {keep : Event → Bool}

/-- **Steps that deliver what an evaluation yields**: from operands `top` they lead to the operands `out b`
for the result `b` of the evaluation, or to the same fault. -/
def Delivers (bottom : List Value) (keep : Event → Bool) (top : List Value) (r : Run α) (s : Run β)
    (out : α → β → List Value) : Prop :=
  Related (Machine.Pending bottom keep top) r s (fun a b => Machine.Pending bottom keep (out a b))
    (Machine.Agrees keep)

namespace Delivers

theorem pure {a : α} {b : β} {out : α → β → List Value} (h : out a b = top) :
    Delivers bottom keep top (Pure.pure a) (Pure.pure b) out :=
  Related.pure fun _ _ hm => h ▸ hm

theorem bind {δ : Type} {r : Run α} {s : Run β} {out : α → β → List Value} {k : α → Run γ}
    {l : β → Run δ} {out' : γ → δ → List Value} (h : Delivers bottom keep top r s out)
    (hk : ∀ a b, Delivers bottom keep (out a b) (k a) (l b) out') :
    Delivers bottom keep top (r >>= k) (s >>= l) out' :=
  Related.bind h hk

/-- What the steps do alone, on their operands. -/
theorem left {top' : List Value} {r r' : Run α} {s : Run β} {out : α → β → List Value}
    (hr : ∀ m, m.storage = top ++ bottom →
      r.outcome m = r'.outcome { m with storage := top' ++ bottom })
    (h : Delivers bottom keep top' r' s out) : Delivers bottom keep top r s out := by
  intro m n hm
  rw [hr m hm.storage]
  exact h _ n { hm with storage := rfl }

end Delivers

/-! ### What both do -/

/-- A run that both do alike, as it has nothing to do with the storage. -/
structure Shared (keep : Event → Bool) (r : Run α) : Prop where
  alike : ∀ below : List Value, Alike below keep Eq r r
  idle : Idle r
  within : Within none r

namespace Shared

theorem pure (a : α) : Shared keep (Pure.pure a : Run α) :=
  ⟨fun _ => Alike.pure rfl, Idle.pure a, Within.pure a⟩

theorem throw (e : Fault) : Shared keep (throw e : Run α) :=
  ⟨fun _ => Alike.throw e, Idle.throw e, Within.throw e⟩

theorem bind {r : Run α} {k : α → Run β} (h : Shared keep r) (hk : ∀ a, Shared keep (k a)) :
    Shared keep (r >>= k) :=
  ⟨fun below => Alike.bind_eq (h.alike below) fun a => (hk a).alike below,
    Idle.bind h.idle fun a => (hk a).idle, Within.bind h.within fun a => (hk a).within⟩

theorem distinguish (v : Value) : Shared keep (distinguish v) :=
  ⟨fun _ => distinguish_alike v, Idle.distinguish v, Within.distinguish v⟩

theorem callable (make : Nat → Callable) : Shared keep (callable make) :=
  ⟨fun _ => callable_alike make, Idle.callable make, Within.callable make⟩

theorem object (make : Nat → Composite) : Shared keep (object make) :=
  ⟨fun _ => object_alike make, Idle.object make, Within.object make⟩

theorem find? (scope : ScopeId) (name : Text) : Shared keep (find? scope name) :=
  ⟨fun _ => find?_alike scope name, Idle.find? scope name, Within.find? scope name⟩

theorem lift (x : Except Fault α) : Shared keep (liftM x : Run α) :=
  ⟨fun _ => Alike.lift x, Idle.lift x, Within.lift x⟩

theorem resolve (f : Frame) (name : Text) : Shared keep (resolve f name) := by
  refine bind (find? f.scope name) fun found => ?_
  cases found with
  | none => exact throw _
  | some s => exact pure _

/-- Both machines are compared with a third, whose storage is empty. -/
theorem related {r : Run α} (h : Shared keep r) :
    Related (Machine.Pending bottom keep top) r r
      (fun a b m n => a = b ∧ m.Pending bottom keep top n) (Machine.Agrees keep) := by
  intro m n hm
  have hl : m.RestsOn (top ++ bottom) keep { n with storage := [] } :=
    { hm.toAgrees with storage := hm.storage }
  have hn : n.RestsOn bottom keep { n with storage := [] } :=
    { Machine.Agrees.refl keep n with storage := hm.kept }
  have hml := h.alike _ _ _ hl
  have hnl := h.alike _ _ _ hn
  have him := h.idle m
  have hin := h.idle n
  have hwm := (h.within m).shuffles
  generalize r.outcome m = x at hml him hwm ⊢
  generalize r.outcome n = y at hnl hin ⊢
  generalize r.outcome { n with storage := [] } = z at hml hnl
  cases hml with
  | result hml =>
    cases hnl with
    | result hnl =>
      refine .result ⟨hml.1.trans hnl.1.symm, ?_⟩
      exact { hml.2.toAgrees.trans hnl.2.toAgrees.symm with
        storage := him.trans hm.storage
        kept := hin.trans hm.kept
        balanced := hm.balanced.of_eq hwm }
  | fault hml =>
    cases hnl with
    | fault hnl => exact .fault (hml.toAgrees.trans hnl.toAgrees.symm)

end Shared

namespace Delivers

theorem shared_bind {r : Run γ} (h : Shared keep r) {k : γ → Run α} {l : γ → Run β}
    {out : α → β → List Value} (hk : ∀ a, Delivers bottom keep top (k a) (l a) out) :
    Delivers bottom keep top (r >>= k) (r >>= l) out :=
  Related.bind h.related fun a _ => Related.of_fact fun hab => hab ▸ hk a

theorem push (v : Value) :
    Delivers bottom keep top (push v) (Pure.pure v : Run Value) fun _ v => v :: top :=
  fun _ _ hm => .result { hm with storage := congrArg (v :: ·) hm.storage }

/-- The result of what both do is pushed by the one, and is the result of the other. -/
theorem bind_push {r : Run Value} (h : Shared keep r) :
    Delivers bottom keep top (r >>= fun v => Run.push v) r fun _ v => v :: top := by
  have hb : Delivers bottom keep top (r >>= fun v => Run.push v) (r >>= fun v => Pure.pure v)
      fun _ v => v :: top := shared_bind h fun v => push v
  rwa [bind_pure] at hb

end Delivers

end Run

open Run (Delivers Shared)

variable {bottom top : List Value} {keep : Event → Bool} {c : Caller} {f : Frame}

/-! ### Steps -/

theorem runSteps_concat (c : Caller) (f : Frame) : ∀ a b : List Instr,
    runSteps c f (a ++ b) = runSteps c f a >>= fun _ => runSteps c f b
  | [], _ => rfl
  | i :: a, b => by
    simp only [List.cons_append, runSteps, runSteps_concat c f a b, bind_assoc]

section
variable (hf : f.view.base ≤ bottom.length) (ht : f.trace = false ∨ ∀ i vs, keep (.step i vs) = false)

include ht in
/-- Records of steps are not among those that are kept, if there are any. -/
theorem trace_delivers (i : Instr) :
    Delivers bottom keep top (trace f i) (pure ()) fun _ _ => top := by
  intro m n hm
  rcases ht with ht | ht
  · unfold trace
    rw [ht]
    exact .result hm
  · obtain ⟨log, hl, hl'⟩ := outcome_trace ht f i m
    rw [hl]
    exact .result { hm with log := hl'.trans hm.log }

/-! The pieces of code, one after the other. -/

include ht in
theorem cons_delivers {i : Instr} {steps : List Instr} {α β : Type} {s : Run α} {l : α → Run β}
    {mid : α → List Value} {out : β → List Value}
    (h : Delivers bottom keep top (step c f i) s fun _ a => mid a)
    (hk : ∀ a, Delivers bottom keep (mid a) (runSteps c f steps) (l a) fun _ b => out b) :
    Delivers bottom keep top (runSteps c f (i :: steps)) (s >>= l) fun _ b => out b := by
  rw [← pure_bind () fun _ => s >>= l]
  exact Delivers.bind (trace_delivers ht i) fun _ _ => Delivers.bind h fun _ a => hk a

include ht in
theorem one_delivers {i : Instr} {α : Type} {s : Run α} {out : α → List Value}
    (h : Delivers bottom keep top (step c f i) s fun _ a => out a) :
    Delivers bottom keep top (runSteps c f [i]) s fun _ a => out a := by
  have hb : Delivers bottom keep top (runSteps c f [i]) (s >>= fun a => pure a) fun _ a => out a :=
    cons_delivers ht h fun a => Delivers.pure rfl
  rwa [bind_pure] at hb

theorem append_delivers {a b : List Instr} {α β : Type} {s : Run α} {l : α → Run β}
    {mid : α → List Value} {out : β → List Value}
    (h : Delivers bottom keep top (runSteps c f a) s fun _ v => mid v)
    (hk : ∀ v, Delivers bottom keep (mid v) (runSteps c f b) (l v) fun _ w => out w) :
    Delivers bottom keep top (runSteps c f (a ++ b)) (s >>= l) fun _ w => out w := by
  rw [runSteps_concat]
  exact Delivers.bind h fun _ v => hk v

include hf in
theorem pop_delivers {v : Value} {α β : Type} {k : Value → Run α} {s : Run β}
    {out : α → β → List Value} (h : Delivers bottom keep top (k v) s out) :
    Delivers bottom keep (v :: top) (Run.pop f >>= k) s out := by
  refine Delivers.left (fun m hm => ?_) h
  have hp : (Run.pop f).outcome m = (.ok v, { m with storage := top ++ bottom }) := by
    rw [Run.outcome_pop, hm, View.pop_cons hf]
  exact Run.outcome_bind_of_ok hp

include hf in
theorem binary_delivers (op : BinaryOp) (x y : Value) :
    Delivers bottom keep (y :: x :: top) (step c f (.binary op)) (computed (Operator.binary op x y))
      fun _ v => v :: top :=
  pop_delivers hf (pop_delivers hf (Delivers.shared_bind (Shared.lift _) fun v =>
    Delivers.bind_push (Shared.distinguish v)))

include hf in
theorem unary_delivers (op : UnaryOp) (x : Value) :
    Delivers bottom keep (x :: top) (step c f (.unary op)) (computed (Operator.unary op x))
      fun _ v => v :: top :=
  pop_delivers hf (Delivers.shared_bind (Shared.lift _) fun v =>
    Delivers.bind_push (Shared.distinguish v))

theorem get_delivers (name : Text) :
    Delivers bottom keep top (step c f (.get name)) (do (← resolve f name).read)
      fun _ v => v :: top := by
  refine Delivers.shared_bind (Shared.resolve f name) fun s => ?_
  cases s with
  | value v => exact Delivers.push v
  | placeholder name => exact Delivers.bind_push (Shared.object _)

theorem closure_delivers (params : List Text) (body : List Instr) :
    Delivers bottom keep top (step c f (.closure params body))
      (Run.callable fun serial => .closure serial params body f.scope) fun _ v => v :: top :=
  Delivers.bind_push (Shared.callable _)

end

/-! ### Calls -/

/-- A call on a stack of its own, taken apart. -/
theorem outcome_apply (c : Caller) (f : Frame) (s : Symbol) (args : List Value) (n : Machine) :
    (s.apply c f args).outcome n =
      match (callSymbol c { f with view := View.whole } (some args.length) (some 1) s).outcome
        { n with storage := args.reverse } with
      | (.ok _, n') => (onlyOne n'.storage.reverse).outcome { n' with storage := n.storage }
      | (.error e, n') => (.error e, { n' with storage := n.storage }) := by
  unfold Symbol.apply
  rw [Run.outcome_bind, Run.outcome_aside, Run.outcome_bind_of_ok (Run.outcome_pushAll args _),
    Run.outcome_bind, List.append_nil]
  rcases (callSymbol c { f with view := View.whole } (some args.length) (some 1) s).outcome
    { n with storage := args.reverse } with ⟨e | _, n'⟩
  · rfl
  · dsimp only
    rw [Run.outcome_values, View.values_whole]

/-- **A call in the midst of pending operands** does what it does on a stack that holds its arguments
alone, and leaves one result. -/
theorem callSymbol_delivers (hc : c.Orderly keep) (hf : f.view.base ≤ bottom.length) (s : Symbol)
    (args : List Value) :
    Delivers bottom keep (args.reverse ++ top) (callSymbol c f (some args.length) (some 1) s)
      (s.apply c f args) fun _ v => v :: top := by
  intro m n hm
  -- below the arguments wait the other operands; the call may as well begin its view above them
  let rest := top ++ bottom
  have hbase : f.view.base ≤ rest.length := by rw [List.length_append]; omega
  have hstorage : m.storage = args.reverse ++ rest := by rw [hm.storage, List.append_assoc]
  obtain ⟨hview, left, hleft, hone⟩ :=
    callSymbol_spares (w := ⟨rest.length⟩) hc.spares hbase (Nat.le_refl _) hstorage hm.balanced s
  rw [List.length_reverse] at hview hleft hone
  -- and what it does on such a view it does on a stack of its own
  let g : Frame := { f with view := View.whole }
  let n1 : Machine := { n with storage := args.reverse }
  have hg : Frame.RestsOn rest keep { f with view := ⟨rest.length⟩ } g :=
    ⟨rfl, by simp [g, View.raise, View.whole], .inl rfl⟩
  have hn1 : m.RestsOn rest keep n1 := { hm.toAgrees with storage := hstorage }
  have halike := callSymbol_alike hc.isolated hg (some args.length) (some 1) s m n1 hn1
  have hwithin := (callSymbol_within hc.confined g (some args.length) (some 1) s n1).shuffles
  rw [← hview] at halike
  rw [outcome_apply]
  generalize (callSymbol c f (some args.length) (some 1) s).outcome m = x at halike hleft hone ⊢
  generalize (callSymbol c g (some args.length) (some 1) s).outcome n1 = y at halike hwithin ⊢
  cases halike with
  | result h =>
    obtain ⟨v, rfl⟩ := List.length_eq_one_iff.mp (hone _ rfl)
    have hy := List.append_cancel_right (h.2.storage.symm.trans hleft)
    dsimp only
    rw [hy]
    exact .result { h.2.toAgrees with
      storage := hleft
      kept := hm.kept
      balanced := hm.balanced.of_eq (h.2.shuffles.trans (hwithin.trans hm.shuffles.symm)) }
  | fault h => exact .fault { h.toAgrees with }

end StackCalc
