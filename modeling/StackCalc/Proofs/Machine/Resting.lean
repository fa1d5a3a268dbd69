import StackCalc.Proofs.Run.Related
import StackCalc.Proofs.Stack.Resting

/-! # Machines whose storage rests on another

`m.RestsOn below keep n`: the machine `m` is `n` with its storage put on top of `below`, and the logs
agree on the records that `keep` picks. A frame rests on a frame if its view is raised accordingly and
the traces agree, unless no record of a step is kept.

Two runs are `Alike` if they keep machines in this relation and end with related results. With
`keep` everywhere true this says that the two do exactly the same; with `keep` false on steps it says
that they do the same but for the tracing. Here are the rules for the pieces of runs; what they make of
the functions of the machine is said in `Isolation`. -/

namespace StackCalc

/-- The machines agree on everything but the storage, and their logs on what `keep` picks. -/
structure Machine.Agrees (keep : Event → Bool) (m n : Machine) : Prop where
  scopes : m.scopes = n.scopes
  builders : m.builders = n.builders
  natives : m.natives = n.natives
  shuffles : m.shuffles = n.shuffles
  next : m.next = n.next
  effects : m.effects = n.effects
  logging : m.logging = n.logging
  log : m.log.toList.filter keep = n.log.toList.filter keep

theorem Machine.Agrees.refl (keep : Event → Bool) (m : Machine) : m.Agrees keep m :=
  ⟨rfl, rfl, rfl, rfl, rfl, rfl, rfl, rfl⟩

theorem Machine.Agrees.symm {keep : Event → Bool} {m n : Machine} (h : m.Agrees keep n) :
    n.Agrees keep m :=
  ⟨h.scopes.symm, h.builders.symm, h.natives.symm, h.shuffles.symm, h.next.symm, h.effects.symm,
    h.logging.symm, h.log.symm⟩

theorem Machine.Agrees.trans {keep : Event → Bool} {m n o : Machine} (h : m.Agrees keep n)
    (h' : n.Agrees keep o) : m.Agrees keep o :=
  ⟨h.scopes.trans h'.scopes, h.builders.trans h'.builders, h.natives.trans h'.natives,
    h.shuffles.trans h'.shuffles, h.next.trans h'.next, h.effects.trans h'.effects,
    h.logging.trans h'.logging, h.log.trans h'.log⟩

/-- **The machine `m` is `n` with its storage put on top of `below`.** -/
structure Machine.RestsOn (below : List Value) (keep : Event → Bool) (m n : Machine) : Prop
    extends Machine.Agrees keep m n where
  storage : m.storage = n.storage ++ below

/-- Both trace their steps or neither does, or records of steps do not matter. -/
def SameTrace (keep : Event → Bool) (s t : Bool) : Prop := s = t ∨ ∀ i vs, keep (.step i vs) = false

/-- The frame `f` is `g` with its view raised above `below`. -/
structure Frame.RestsOn (below : List Value) (keep : Event → Bool) (f g : Frame) : Prop where
  scope : f.scope = g.scope
  view : f.view = g.view.raise below.length
  trace : SameTrace keep f.trace g.trace

theorem Machine.RestsOn.eq {below : List Value} {m n : Machine}
    (h : m.RestsOn below (fun _ => true) n) : m = { n with storage := n.storage ++ below } := by
  obtain ⟨⟨h1, h2, h3, h4, h5, h6, h7, h8⟩, h9⟩ := h
  obtain ⟨storage, scopes, builders, natives, shuffles, next, effects, logging, log⟩ := m
  rw [List.filter_eq_self.mpr fun _ _ => rfl, List.filter_eq_self.mpr fun _ _ => rfl,
    Array.toList_inj] at h8
  simp_all

/-- On nothing, only the logs may differ. -/
theorem Machine.RestsOn.eq_but_log {keep : Event → Bool} {m n : Machine} (h : m.RestsOn [] keep n) :
    m = { n with log := m.log } := by
  obtain ⟨⟨h1, h2, h3, h4, h5, h6, h7, -⟩, h9⟩ := h
  obtain ⟨storage, scopes, builders, natives, shuffles, next, effects, logging, log⟩ := m
  rw [List.append_nil] at h9
  simp_all

namespace Run

variable {α β γ δ : Type} {below : List Value} {keep : Event → Bool}

/-- **Runs that are alike**: on machines in the relation they end with machines in the relation, and with
results related by `A` or the same fault. -/
def Alike (below : List Value) (keep : Event → Bool) (A : α → β → Prop) (r : Run α) (s : Run β) : Prop :=
  Related (Machine.RestsOn below keep) r s (fun a b m n => A a b ∧ m.RestsOn below keep n)
    (Machine.RestsOn below keep)

namespace Alike

variable {A : α → β → Prop} {B : γ → δ → Prop} {r : Run α} {s : Run β}

theorem pure {a : α} {b : β} (h : A a b) : Alike below keep A (Pure.pure a) (Pure.pure b) :=
  Related.pure fun _ _ hm => ⟨h, hm⟩

theorem throw (e : Fault) : Alike below keep A (throw e) (throw e) := Related.throw e fun _ _ h => h

theorem bind {k : α → Run γ} {l : β → Run δ} (h : Alike below keep A r s)
    (hk : ∀ a b, A a b → Alike below keep B (k a) (l b)) :
    Alike below keep B (r >>= k) (s >>= l) :=
  Related.bind h fun a b => Related.of_fact fun hab => hk a b hab

/-- The form in which most runs are put together: the first two have the same result. -/
theorem bind_eq {r s : Run α} {k : α → Run γ} {l : α → Run δ} (h : Alike below keep Eq r s)
    (hk : ∀ a, Alike below keep B (k a) (l a)) : Alike below keep B (r >>= k) (s >>= l) :=
  bind h fun a _ hab => hab ▸ hk a

theorem lift (x : Except Fault α) : Alike below keep Eq (liftM x : Run α) (liftM x) :=
  Related.lift x fun _ _ h => h

theorem get_bind {k l : Machine → Run γ}
    (h : ∀ m n, m.RestsOn below keep n → Alike below keep Eq (k m) (l n)) :
    Alike below keep Eq (get >>= k) (get >>= l) :=
  fun m n hm => h m n hm m n hm

theorem modify {g h : Machine → Machine}
    (hgh : ∀ m n, m.RestsOn below keep n → (g m).RestsOn below keep (h n)) :
    Alike below keep Eq (modify g : Run PUnit) (modify h) :=
  fun m n hm => .result ⟨rfl, hgh m n hm⟩

theorem ite {p : Prop} [Decidable p] {r' : Run α} {s' : Run β} (h : Alike below keep A r s)
    (h' : Alike below keep A r' s') :
    Alike below keep A (if p then r else r') (if p then s else s') := by
  by_cases hp : p
  · rwa [if_pos hp, if_pos hp]
  · rwa [if_neg hp, if_neg hp]

theorem forM {k l : α → Run PUnit} (h : ∀ a, Alike below keep Eq (k a) (l a)) :
    ∀ as : List α, Alike below keep Eq (as.forM k) (as.forM l)
  | [] => pure rfl
  | a :: as => bind_eq (h a) fun _ => forM h as

/-- Each on an empty stack of its own: then nothing lies below. -/
theorem aside (h : Alike [] keep A r s) : Alike below keep A (aside r) (aside s) := by
  intro m n hm
  rw [outcome_aside, outcome_aside]
  have h0 := h { m with storage := [] } { n with storage := [] } { hm with storage := rfl }
  generalize r.outcome { m with storage := [] } = x at h0 ⊢
  generalize s.outcome { n with storage := [] } = y at h0 ⊢
  cases h0 with
  | result h => exact .result ⟨h.1, { h.2 with storage := hm.storage }⟩
  | fault h => exact .fault { h with storage := hm.storage }

theorem wants (declared : Option Int) (count : Int) (fault : Int → Fault) :
    Alike below keep Eq (wants declared count fault) (wants declared count fault) := by
  rcases declared with _ | n
  · exact pure rfl
  · exact ite (pure rfl) (throw _)

end Alike

/-! ### The pieces that look at the stack -/

section
variable {f g : Frame} (hf : f.RestsOn below keep g)
include hf

theorem size_alike : Alike below keep Eq (size f) (size g) := by
  intro m n hm
  rw [outcome_size, outcome_size, hf.view, hm.storage, View.size_raise]
  exact .result ⟨rfl, hm⟩

theorem values_alike : Alike below keep Eq (values f) (values g) := by
  intro m n hm
  rw [outcome_values, outcome_values, hf.view, hm.storage, View.values_raise]
  exact .result ⟨rfl, hm⟩

theorem pop_alike : Alike below keep Eq (pop f) (pop g) := by
  intro m n hm
  rw [outcome_pop, outcome_pop, hf.view, hm.storage, View.pop_raise]
  rcases g.view.pop n.storage with e | ⟨v, rest⟩
  · exact .fault hm
  · exact .result ⟨rfl, { hm with storage := rfl }⟩

theorem take_alike (count : Int) : Alike below keep Eq (take f count) (take g count) := by
  intro m n hm
  rw [outcome_take, outcome_take, hf.view, hm.storage, View.take_raise]
  rcases g.view.take n.storage count with e | ⟨vs, rest⟩
  · exact .fault hm
  · exact .result ⟨rfl, { hm with storage := rfl }⟩

theorem sub_alike (count : Int) :
    Alike below keep (fun v w => v = w.raise below.length) (sub f count) (sub g count) := by
  intro m n hm
  rw [outcome_sub, outcome_sub, hf.view, hm.storage, View.sub_raise]
  rcases g.view.sub n.storage count with e | top
  · exact .fault hm
  · exact .result ⟨rfl, hm⟩

theorem checkResults_alike (results : Option Int) :
    Alike below keep Eq (checkResults f results) (checkResults g results) := by
  rcases results with _ | r
  · exact Alike.pure rfl
  · exact Alike.bind_eq (size_alike hf) fun actual => Alike.ite (Alike.throw _) (Alike.pure rfl)

end

/-! ### The pieces that do not -/

theorem push_alike (v : Value) : Alike below keep Eq (push v) (push v) :=
  Alike.modify fun _ _ hm => { hm with storage := congrArg (v :: ·) hm.storage }

theorem pushAll_alike (vs : List Value) : Alike below keep Eq (pushAll vs) (pushAll vs) :=
  Alike.modify fun m n hm =>
    { hm with storage := by simp only [hm.storage, List.append_assoc] }

theorem fresh_alike : Alike below keep Eq fresh fresh := by
  intro m n hm
  have h : m.next = n.next := hm.next
  exact .result ⟨h, { hm with next := congrArg (· + 1) h }⟩

theorem note_alike (e : Event) : Alike below keep Eq (note e) (note e) := by
  refine Alike.modify fun m n hm => ?_
  by_cases h : n.logging = true
  · rw [if_pos h, if_pos (hm.logging.trans h)]
    exact { hm with log := by simp only [Array.toList_push, List.filter_append, hm.log] }
  · rwa [if_neg h, if_neg (by rwa [hm.logging])]

theorem emit_alike (c : Channel) (s : Text) : Alike below keep Eq (emit c s) (emit c s) :=
  Alike.modify fun _ _ hm => { hm with effects := congrArg (·.push ⟨c, s⟩) hm.effects }

theorem find?_alike (scope : ScopeId) (name : Text) :
    Alike below keep Eq (find? scope name) (find? scope name) := by
  intro m n hm
  rw [outcome_find?, outcome_find?, hm.scopes]
  exact .result ⟨rfl, hm⟩

theorem put_alike (scope : ScopeId) (name : Text) (v : Value) :
    Alike below keep Eq (put scope name v) (put scope name v) := by
  intro m n hm
  rw [outcome_put, outcome_put, hm.scopes]
  rcases n.scopes.put scope name v with e | scopes
  · exact .fault hm
  · exact .result ⟨rfl, { hm with scopes := rfl }⟩

theorem putAll_alike (scope : ScopeId) (entries : List (Text × Value)) :
    Alike below keep Eq (putAll scope entries) (putAll scope entries) := by
  have h : ∀ e : Text × Value, Alike below keep Eq (put scope e.1 e.2) (put scope e.1 e.2) :=
    fun e => put_alike scope e.1 e.2
  unfold putAll
  exact Alike.forM h entries

theorem grow_alike (s : Scope) : Alike below keep Eq (grow s) (grow s) := by
  intro m n hm
  have h : m.scopes = n.scopes := hm.scopes
  rw [outcome_grow, outcome_grow]
  exact .result ⟨by rw [h], { hm with scopes := by rw [h] }⟩

theorem distinguish_alike (v : Value) : Alike below keep Eq (distinguish v) (distinguish v) := by
  unfold distinguish
  split
  · exact Alike.ite (Alike.bind_eq fresh_alike fun _ => Alike.pure rfl) (Alike.pure rfl)
  · exact Alike.pure rfl

theorem callable_alike (make : Nat → Callable) :
    Alike below keep Eq (callable make) (callable make) :=
  Alike.bind_eq fresh_alike fun _ => Alike.pure rfl

theorem object_alike (make : Nat → Composite) : Alike below keep Eq (object make) (object make) :=
  Alike.bind_eq fresh_alike fun _ => Alike.pure rfl

theorem inner_alike {f g : Frame} (hf : f.RestsOn below keep g) (scope : ScopeId) (count : Int) :
    Alike below keep (Frame.RestsOn below keep) (inner f scope count) (inner g scope count) :=
  Alike.bind (sub_alike hf count) fun _ _ hv =>
    Alike.bind_eq (grow_alike _) fun _ => Alike.pure ⟨rfl, hv, hf.trace⟩

end Run

end StackCalc
