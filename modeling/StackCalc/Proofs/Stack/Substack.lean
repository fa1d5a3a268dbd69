import StackCalc.Proofs.Stack.Resting
import Mathlib.Logic.Relation

/-! # Views stay above their base

All views of a storage work on the same values, and know no more of them than where they begin. Operations through a
view of the top values, and through views that are taken from it in turn, leave alone what is below it: each of them
puts values on top or takes some off (`Family.Step.extends`), and none of these views begins further down
(`Family.Covers`). So a stack is always what was below its view, and what the view covers (`Stands`).

A view that was taken from another may lose its base to operations through the other. As long as this has not happened,
the same holds of it. -/

namespace StackCalc.View

variable {α : Type} {v w : View} {s t : List α}

/-! ### Above and below a base -/

/-- The values below a view, bottom first. -/
def lower (v : View) (s : List α) : List α := s.reverse.take v.base

theorem values_eq_drop (v : View) (s : List α) : v.values s = s.reverse.drop v.base := by
  rw [values, List.drop_reverse]

theorem clear_eq_lower (v : View) (s : List α) : v.clear s = (v.lower s).reverse := by
  rw [clear, lower, List.take_reverse, List.reverse_reverse]

theorem lower_append (h : v.base ≤ s.length) (t : List α) : v.lower (t ++ s) = v.lower s := by
  rw [lower, lower, List.reverse_append, List.take_append_of_le_length (by rwa [List.length_reverse])]

/-- A view shows what is below another one that begins further up, and then what the other shows. -/
theorem values_eq_append (hbase : v.base ≤ w.base) (hw : w.base ≤ s.length) :
    v.values s = (w.lower s).drop v.base ++ w.values s := by
  have hlength : v.base ≤ (w.lower s).length := by
    rw [lower, List.length_take, List.length_reverse]
    omega
  rw [values_eq_drop, values_eq_drop, ← List.drop_append_of_le_length hlength, lower, List.take_append_drop]

theorem values_clear (v w : View) (s : List α) : v.values (w.clear s) = (w.lower s).drop v.base := by
  rw [values_eq_drop, clear_eq_lower, List.reverse_reverse]

/-- **A stack and a view of its top values**, when the storage has changed from `s` to `t`: what was below the view
still is, the stack shows this and then what the view shows, and shows no more than this when the view has been
cleared. -/
structure Stands (v w : View) (s t : List α) : Prop where
  lower_eq : w.lower t = w.lower s
  values_eq : v.values t = (w.lower s).drop v.base ++ w.values t
  cleared : v.values (w.clear t) = (w.lower s).drop v.base

theorem Stands.of_lower_eq (hbase : v.base ≤ w.base) (ht : w.base ≤ t.length) (h : w.lower t = w.lower s) :
    Stands v w s t where
  lower_eq := h
  values_eq := h ▸ values_eq_append hbase ht
  cleared := h ▸ values_clear v w t

/-! ### Popping and peeking -/

theorem pop_cases (v : View) (s : List α) :
    (v.size s ≤ 0 ∧ v.pop s = .error .underflow) ∨
      0 < v.size s ∧ ∃ x rest, s = x :: rest ∧ v.pop s = .ok (x, rest) := by
  unfold pop size
  by_cases h : s.length ≤ v.base
  · rw [if_pos h]
    exact .inl ⟨by omega, rfl⟩
  · rw [if_neg h]
    cases s with
    | nil => exact absurd (Nat.zero_le _) h
    | cons x rest => exact .inr ⟨by omega, x, rest, rfl, rfl⟩

theorem peek_cases (v : View) (s : List α) (depth : Nat) :
    (v.size s ≤ depth ∧ v.peek s depth = .error (.tooShallow depth)) ∨
      depth < v.size s ∧ ∃ x, s[depth]? = some x ∧ v.peek s depth = .ok x := by
  unfold peek size
  by_cases h : (s.length : Int) - 1 - depth < v.base
  · rw [if_pos h]
    exact .inl ⟨by omega, rfl⟩
  · have hlt : depth < s.length := by omega
    have hx : s[depth]? = some s[depth] := List.getElem?_eq_getElem hlt
    rw [if_neg h, if_neg (by omega), Int.toNat_natCast, hx]
    exact .inr ⟨by omega, _, rfl, rfl⟩

/-! ### Operations through the views of a storage -/

/-- What may be done through a view. -/
inductive Operation (α : Type) where
  | push (x : α)
  | pop
  | peek (depth : Nat)
  | clear
  | sub (count : Int)

/-- A storage and views of it. -/
structure Family (α : Type) where
  storage : List α
  views : List View

namespace Family

/-- Does something through a view: the value that is given back, if there is one, and what is left. -/
def act (f : Family α) (v : View) : Operation α → Except Fault (Option α) × Family α
  | .push x => (.ok none, { f with storage := x :: f.storage })
  | .pop =>
    match v.pop f.storage with
    | .ok (x, s) => (.ok (some x), { f with storage := s })
    | .error e => (.error e, f)
  | .peek depth =>
    match v.peek f.storage depth with
    | .ok x => (.ok (some x), f)
    | .error e => (.error e, f)
  | .clear => (.ok none, { f with storage := v.clear f.storage })
  | .sub count =>
    match v.sub f.storage count with
    | .ok w => (.ok none, { f with views := f.views ++ [w] })
    | .error e => (.error e, f)

/-- Something is done through one of the views. -/
def Step (f g : Family α) : Prop := ∃ v ∈ f.views, ∃ op, g = (f.act v op).2

/-- **What operations lead to**, one after the other, successful or not. -/
def Leads : Family α → Family α → Prop := Relation.ReflTransGen Step

/-- What operations lead to that do not uncover the base of a view. -/
def LeadsOver (w : View) : Family α → Family α → Prop :=
  Relation.ReflTransGen fun f g => Step f g ∧ w.base ≤ g.storage.length

/-- **What is promised of the operations through a view**: popping and peeking fail exactly if the view is too shallow,
they give back the values of the view from the top, and an operation that fails changes nothing. -/
structure Guarded (f : Family α) (v : View) : Prop where
  pop_fails : (∃ e, (f.act v .pop).1 = .error e ∧ e.category = .stackContents) ↔ v.size f.storage ≤ 0
  pop_gives : 0 < v.size f.storage → ∃ x, (f.act v .pop).1 = .ok (some x) ∧
    v.values f.storage = v.values (f.act v .pop).2.storage ++ [x]
  peek_fails : ∀ depth : Nat,
    (∃ e, (f.act v (.peek depth)).1 = .error e ∧ e.category = .stackContents) ↔ v.size f.storage ≤ depth
  peek_gives : ∀ depth : Nat, depth < v.size f.storage → ∃ x, (f.act v (.peek depth)).1 = .ok (some x) ∧
    (v.values f.storage).reverse[depth]? = some x
  unchanged : ∀ op e, (f.act v op).1 = .error e → (f.act v op).2 = f

section
variable (f : Family α) (v : View)

theorem act_pop : f.act v .pop = match v.pop f.storage with
    | .ok (x, s) => (.ok (some x), { f with storage := s })
    | .error e => (.error e, f) := rfl

theorem act_peek (depth : Nat) : f.act v (.peek depth) = match v.peek f.storage depth with
    | .ok x => (.ok (some x), f)
    | .error e => (.error e, f) := rfl

theorem act_sub (count : Int) : f.act v (.sub count) = match v.sub f.storage count with
    | .ok w => (.ok none, { f with views := f.views ++ [w] })
    | .error e => (.error e, f) := rfl

/-- What an operation through a view can do. -/
inductive Change : Family α → Prop where
  | same : Change f
  | push (x : α) : Change { f with storage := x :: f.storage }
  | pop {x : α} {s : List α} (hs : f.storage = x :: s) (hv : v.base ≤ s.length) : Change { f with storage := s }
  | clear : Change { f with storage := v.clear f.storage }
  | sub {count : Int} {w : View} (hw : v.sub f.storage count = .ok w) : Change { f with views := f.views ++ [w] }

theorem change_act (op : Operation α) : f.Change v (f.act v op).2 := by
  cases op with
  | push x => exact .push x
  | pop =>
    rw [act_pop]
    rcases v.pop_cases f.storage with ⟨-, hpop⟩ | ⟨hsize, x, rest, hs, hpop⟩ <;> rw [hpop]
    · exact .same
    · rw [size, hs, List.length_cons] at hsize
      exact .pop hs (by omega)
  | peek depth =>
    rw [act_peek]
    rcases v.peek f.storage depth with e | x <;> exact .same
  | clear => exact .clear
  | sub count =>
    rw [act_sub]
    rcases hw : v.sub f.storage count with e | w
    · exact .same
    · exact .sub hw

theorem act_of_error {op : Operation α} {e : Fault} (h : (f.act v op).1 = .error e) : (f.act v op).2 = f := by
  cases op with
  | push x => cases h
  | pop =>
    rw [act_pop] at h ⊢
    rcases hpop : v.pop f.storage with e | ⟨x, s⟩
    · rfl
    · rw [hpop] at h
      cases h
  | peek depth =>
    rw [act_peek] at h ⊢
    rcases v.peek f.storage depth with e | x <;> rfl
  | clear => cases h
  | sub count =>
    rw [act_sub] at h ⊢
    rcases hsub : v.sub f.storage count with e | w
    · rfl
    · rw [hsub] at h
      cases h

end

variable {f g : Family α}

/-- **An operation puts values on top or takes some off.** -/
theorem Change.extends (h : f.Change v g) : ∃ top, g.storage = top ++ f.storage ∨ f.storage = top ++ g.storage := by
  cases h with
  | same => exact ⟨[], .inl rfl⟩
  | push x => exact ⟨[x], .inl rfl⟩
  | @pop x s hs => exact ⟨[x], .inr hs⟩
  | clear => exact ⟨_, .inr (List.take_append_drop _ _).symm⟩
  | sub => exact ⟨[], .inl rfl⟩

/-- What is below a base that is covered before and after stays. -/
theorem Step.lower_eq (h : Step f g) (hf : w.base ≤ f.storage.length) (hg : w.base ≤ g.storage.length) :
    w.lower g.storage = w.lower f.storage := by
  obtain ⟨v, -, op, rfl⟩ := h
  obtain ⟨top, hs | hs⟩ := (f.change_act v op).extends
  · rw [hs, lower_append hf]
  · rw [hs, lower_append hg]

/-- **The storage reaches up to a base, and no view begins below it.** -/
structure Covers (f : Family α) (base : Nat) : Prop where
  storage : base ≤ f.storage.length
  views : ∀ v ∈ f.views, base ≤ v.base

theorem Covers.change {base : Nat} (hf : f.Covers base) (hv : base ≤ v.base) (h : f.Change v g) : g.Covers base := by
  have hstorage := hf.storage
  cases h with
  | same => exact hf
  | push x => exact ⟨Nat.le_succ_of_le hstorage, hf.views⟩
  | pop hs hlength => exact ⟨Nat.le_trans hv hlength, hf.views⟩
  | clear =>
    refine ⟨?_, hf.views⟩
    dsimp only [View.clear]
    rw [List.length_drop]
    omega
  | sub hw =>
    refine ⟨hstorage, List.forall_mem_append.2 ⟨hf.views, List.forall_mem_singleton.2 ?_⟩⟩
    exact Nat.le_trans hv (base_of_sub hw).1

/-- **A base that is covered stays covered.** -/
theorem Covers.step {base : Nat} (hf : f.Covers base) (h : Step f g) : g.Covers base := by
  obtain ⟨v, hv, op, rfl⟩ := h
  exact hf.change (hf.views v hv) (f.change_act v op)

theorem Covers.leads {base : Nat} (hf : f.Covers base) (h : Leads f g) : g.Covers base := by
  induction h with
  | refl => exact hf
  | tail _ hstep ih => exact ih.step hstep

/-- What is below a base stays as long as it is not uncovered. -/
theorem LeadsOver.lower_eq (h : LeadsOver w f g) (hf : w.base ≤ f.storage.length) :
    w.base ≤ g.storage.length ∧ w.lower g.storage = w.lower f.storage := by
  induction h with
  | refl => exact ⟨hf, rfl⟩
  | tail _ hstep ih =>
    obtain ⟨hlength, hlower⟩ := ih
    exact ⟨hstep.2, (hstep.1.lower_eq hlength hstep.2).trans hlower⟩

/-- A base that is covered is not uncovered. -/
theorem Leads.over (h : Leads f g) (hf : f.Covers w.base) : LeadsOver w f g := by
  induction h with
  | refl => exact .refl
  | tail hlead hstep ih => exact ih.tail ⟨hstep, ((hf.leads hlead).step hstep).storage⟩

/-- **A view that is taken stands on what was below it**, as long as its base is not uncovered. -/
theorem LeadsOver.stands (h : LeadsOver w f g) {count : Int} (hsub : v.sub f.storage count = .ok w) :
    Stands v w f.storage g.storage := by
  obtain ⟨hbase, hlength⟩ := base_of_sub hsub
  obtain ⟨hg, hlower⟩ := h.lower_eq hlength
  exact .of_lower_eq hbase hg hlower

/-! ### What an operation gives back -/

/-- A view shows the values that it had, and then what is pushed. -/
theorem values_cons {x : α} (hv : v.base ≤ s.length) : v.values (x :: s) = v.values s ++ [x] := by
  rw [values_eq_drop, values_eq_drop, List.reverse_cons,
    List.drop_append_of_le_length (by rwa [List.length_reverse])]

/-- The values of a view from the top are those of the storage. -/
theorem getElem?_reverse_values {depth : Nat} (h : depth < v.size s) : (v.values s).reverse[depth]? = s[depth]? := by
  unfold size at h
  rw [values, List.reverse_reverse, List.getElem?_take_of_lt (by omega)]

theorem guarded (f : Family α) (v : View) : f.Guarded v where
  pop_fails := by
    rw [act_pop]
    rcases v.pop_cases f.storage with ⟨hsize, hpop⟩ | ⟨hsize, x, rest, -, hpop⟩ <;> rw [hpop]
    · exact iff_of_true ⟨_, rfl, rfl⟩ hsize
    · refine iff_of_false ?_ (by omega)
      rintro ⟨_, h, -⟩
      cases h
  pop_gives := fun hpos => by
    rw [act_pop]
    rcases v.pop_cases f.storage with ⟨hsize, -⟩ | ⟨hsize, x, rest, hs, hpop⟩
    · omega
    · rw [size, hs, List.length_cons] at hsize
      rw [hpop, hs]
      exact ⟨x, rfl, values_cons (by omega)⟩
  peek_fails := fun depth => by
    rw [act_peek]
    rcases v.peek_cases f.storage depth with ⟨hsize, hpeek⟩ | ⟨hsize, x, -, hpeek⟩ <;> rw [hpeek]
    · exact iff_of_true ⟨_, rfl, rfl⟩ hsize
    · refine iff_of_false ?_ (by omega)
      rintro ⟨_, h, -⟩
      cases h
  peek_gives := fun depth hdepth => by
    rw [act_peek]
    rcases v.peek_cases f.storage depth with ⟨hsize, -⟩ | ⟨hsize, x, hx, hpeek⟩
    · omega
    · rw [hpeek]
      exact ⟨x, rfl, (getElem?_reverse_values hsize).trans hx⟩
  unchanged := fun _ _ => act_of_error f v

end Family

open Family (Leads LeadsOver)

/-- A view of any number of values that there are. -/
theorem exists_sub {n : Nat} (h : (n : Int) ≤ v.size s) : ∃ w, v.sub s n = .ok w ∧ w.size s = n := by
  unfold size at h
  refine ⟨⟨s.length - n⟩, ?_, ?_⟩
  · unfold sub size
    rw [if_neg (by omega), if_neg (by omega), Int.toNat_natCast]
  · unfold size
    dsimp only
    omega

/-- **A view of the top values of a stack.** There is one of any number of values that the stack has. Whatever
operations through it, and through views that were taken from it in turn, lead to, it stands on what was below it: this
has not changed, the stack shows this and what the view shows, and only this when the view is cleared. Through all of
the views popping and peeking fail exactly where there is no value to give back, and what fails changes nothing. A view
that was taken on the way stands on what was below it as long as its base is not uncovered. -/
theorem sub_stands (v : View) (s : List α) (n : Nat) (hn : (n : Int) ≤ v.size s) :
    ∃ w, v.sub s n = .ok w ∧ w.size s = n ∧ ∀ f, Leads ⟨s, [w]⟩ f →
      Stands v w s f.storage ∧ (∀ x ∈ f.views, f.Guarded x) ∧
      ∀ x ∈ f.views, ∀ (count : Int) (y : View), x.sub f.storage count = .ok y →
        ∀ g, LeadsOver y (f.act x (.sub count)).2 g → Stands x y f.storage g.storage := by
  obtain ⟨w, hsub, hsize⟩ := exists_sub hn
  have hcovers : (⟨s, [w]⟩ : Family α).Covers w.base :=
    ⟨(base_of_sub hsub).2, List.forall_mem_singleton.2 (Nat.le_refl _)⟩
  refine ⟨w, hsub, hsize, fun f hf => ⟨(hf.over hcovers).stands hsub, fun x _ => f.guarded x, ?_⟩⟩
  intro x _ count y hy g hg
  have htaken : (f.act x (.sub count)).2.storage = f.storage := by
    rw [Family.act_sub, hy]
  rw [← htaken] at hy ⊢
  exact hg.stands hy

/-- A view of two of three values, of which one is taken off; and a view of none of the view's values, on which one is
put. -/
theorem sub_stands_three : ∃ w, whole.sub [3, 2, 1] (2 : Nat) = .ok w ∧ Stands whole w [3, 2, 1] [2, 1] ∧
    ∃ x, w.sub [2, 1] 0 = .ok x ∧ Stands w x [2, 1] [7, 2, 1] := by
  obtain ⟨w, hsub, -, hleads⟩ := sub_stands whole [3, 2, 1] 2 (by decide)
  obtain rfl : ⟨1⟩ = w := Except.ok.inj hsub
  have hpop : Leads (α := Nat) ⟨[3, 2, 1], [⟨1⟩]⟩ ⟨[2, 1], [⟨1⟩]⟩ := .single ⟨⟨1⟩, List.mem_cons_self, .pop, rfl⟩
  have hpush : LeadsOver (α := Nat) ⟨2⟩ ⟨[2, 1], [⟨1⟩, ⟨2⟩]⟩ ⟨[7, 2, 1], [⟨1⟩, ⟨2⟩]⟩ :=
    .single ⟨⟨⟨2⟩, List.mem_cons_of_mem _ List.mem_cons_self, .push 7, rfl⟩, by decide⟩
  obtain ⟨hstands, -, htaken⟩ := hleads _ hpop
  exact ⟨⟨1⟩, hsub, hstands, ⟨2⟩, rfl, htaken ⟨1⟩ List.mem_cons_self 0 ⟨2⟩ rfl _ hpush⟩

end StackCalc.View
