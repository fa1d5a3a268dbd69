import StackCalc.Pattern.Match
import Mathlib.Tactic.Common

/-! # What parts match

`Part.Matches env part v entries` says, without running anything, that a part matches a value and what it
binds, in order: constructors are looked up in `env`. Matching answers `true` exactly if this is so, and
has then bound these entries one after the other (`Part.outcome_accepts_iff`). -/

namespace StackCalc

mutual

/-- **A part matches a value and binds the entries.** -/
inductive Part.Matches (env : Text → Option Symbol) : Part → Value → Bindings → Prop where
  | any (v : Value) : Part.Matches env .any v []
  | bind (name : Text) (v : Value) : Part.Matches env (.bind name) v [(name, v)]
  | exact {expected v : Value} (h : v.eq expected = true) : Part.Matches env (.exact expected) v []
  | cons {a b : Part} {v x y : Value} {made made' : Bindings} (hv : v.payload = .cons x y)
      (ha : Part.Matches env a x made) (hb : Part.Matches env b y made') :
      Part.Matches env (.cons a b) v (made ++ made')
  | construct {name : Text} {args : List Part} {v : Value} {vs : List Value} {made : Bindings}
      (hv : takeApart env name args.length v = .ok (some vs)) (hargs : Part.MatchAll env args vs made) :
      Part.Matches env (.construct name args) v made

/-- Parts match values one by one. -/
inductive Part.MatchAll (env : Text → Option Symbol) : List Part → List Value → Bindings → Prop where
  | nil : Part.MatchAll env [] [] []
  | cons {p : Part} {ps : List Part} {v : Value} {vs : List Value} {made made' : Bindings}
      (hp : Part.Matches env p v made) (hps : Part.MatchAll env ps vs made') :
      Part.MatchAll env (p :: ps) (v :: vs) (made ++ made')

end

namespace Matching

variable {α β : Type}

theorem outcome_bind (r : Matching α) (k : α → Matching β) (b : Bindings) :
    (r >>= k).outcome b =
      match r.outcome b with
      | (.ok a, b') => (k a).outcome b'
      | (.error e, b') => (.error e, b') := by
  rcases h : r.outcome b with ⟨e | a, b'⟩ <;>
    simp only [outcome, ExceptT.run_bind, StateT.run_bind] at h ⊢ <;> rw [h] <;> rfl

theorem outcome_bind_of_ok {r : Matching α} {k : α → Matching β} {b b' : Bindings} {a : α}
    (h : r.outcome b = (.ok a, b')) : (r >>= k).outcome b = (k a).outcome b' := by
  rw [outcome_bind, h]

theorem outcome_lift_bind (x : Except Fault α) (k : α → Matching β) (b : Bindings) :
    ((liftM x : Matching α) >>= k).outcome b =
      match x with
      | .ok a => (k a).outcome b
      | .error e => (.error e, b) := by
  cases x <;> rfl

/-- A test of two parts succeeds if both do, one after the other. -/
theorem outcome_and_eq_true {r s : Matching Bool} {b b' : Bindings}
    (h : (do if ← r then s else return false).outcome b = (.ok true, b')) :
    ∃ mid, r.outcome b = (.ok true, mid) ∧ s.outcome mid = (.ok true, b') := by
  rw [outcome_bind] at h
  rcases hr : r.outcome b with ⟨e | _ | _, mid⟩ <;> rw [hr] at h
  · cases h
  · cases h
  · exact ⟨mid, rfl, h⟩

end Matching

namespace Bindings

theorem putAll_append (b entries entries' : Bindings) :
    b.putAll (entries ++ entries') = (b.putAll entries).putAll entries' := List.foldl_append

end Bindings

open Matching (outcome_bind_of_ok)

variable {env : Text → Option Symbol}

mutual

/-- What matches is accepted, and bound. -/
theorem Part.Matches.outcome_accepts {part : Part} {v : Value} {made : Bindings}
    (h : Part.Matches env part v made) (b : Bindings) :
    (part.accepts env v).outcome b = (.ok true, b.putAll made) := by
  cases h with
  | any | bind => rfl
  | exact h =>
    unfold Part.accepts
    rw [h]
    rfl
  | @cons p q _ x y made made' hv ha hb =>
    unfold Part.accepts
    rw [hv]
    dsimp only
    rw [outcome_bind_of_ok (ha.outcome_accepts b), if_pos rfl, hb.outcome_accepts, Bindings.putAll_append]
  | construct hv hargs =>
    unfold Part.accepts
    rw [hv, Matching.outcome_lift_bind]
    exact hargs.outcome_acceptsAll b

theorem Part.MatchAll.outcome_acceptsAll {ps : List Part} {vs : List Value} {made : Bindings}
    (h : Part.MatchAll env ps vs made) (b : Bindings) :
    (acceptsAll env ps vs).outcome b = (.ok true, b.putAll made) := by
  cases h with
  | nil => rfl
  | cons hp hps =>
    unfold acceptsAll
    rw [outcome_bind_of_ok (hp.outcome_accepts b), if_pos rfl, hps.outcome_acceptsAll,
      Bindings.putAll_append]

end

/-- What a constructor takes apart has as many values as are expected. -/
theorem length_takeApart {name : Text} {count : Nat} {v : Value} {vs : List Value}
    (h : takeApart env name count v = .ok (some vs)) : vs.length = count := by
  unfold takeApart at h
  rcases hc : findConstructor env name with e | c <;> rw [hc] at h
  · cases h
  · rcases hd : c.decompose? v count with _ | ws <;> simp only [bind, Except.bind, hd] at h
    · cases h
    · split_ifs at h with hlen
      cases h
      exact hlen

mutual

/-- What is accepted matches, with the entries that have been bound. -/
theorem Part.matches_of_accepts : ∀ (part : Part) (v : Value) {b b' : Bindings},
    (part.accepts env v).outcome b = (.ok true, b') →
    ∃ made, Part.Matches env part v made ∧ b' = b.putAll made
  | .any, v, b, b', h => by
    cases h
    exact ⟨[], .any v, rfl⟩
  | .bind name, v, b, b', h => by
    cases h
    exact ⟨[(name, v)], .bind name v, rfl⟩
  | .exact expected, v, b, b', h => by
    unfold Part.accepts at h
    injection h with hv hb
    injection hv with hv
    exact ⟨[], .exact hv, hb.symm⟩
  | .cons p q, v, b, b', h => by
    unfold Part.accepts at h
    split at h
    next x y hv =>
      obtain ⟨mid, hp, hq⟩ := Matching.outcome_and_eq_true h
      obtain ⟨made, hmade, rfl⟩ := Part.matches_of_accepts p x hp
      obtain ⟨made', hmade', rfl⟩ := Part.matches_of_accepts q y hq
      exact ⟨made ++ made', .cons hv hmade hmade', (Bindings.putAll_append b made made').symm⟩
    next => cases h
  | .construct name args, v, b, b', h => by
    unfold Part.accepts at h
    rw [Matching.outcome_lift_bind] at h
    rcases ht : takeApart env name args.length v with e | _ | vs <;> rw [ht] at h
    · cases h
    · cases h
    · obtain ⟨made, hmade, rfl⟩ := Part.matchAll_of_acceptsAll args vs (length_takeApart ht) h
      exact ⟨made, .construct ht hmade, rfl⟩

theorem Part.matchAll_of_acceptsAll : ∀ (ps : List Part) (vs : List Value) {b b' : Bindings},
    vs.length = ps.length → (acceptsAll env ps vs).outcome b = (.ok true, b') →
    ∃ made, Part.MatchAll env ps vs made ∧ b' = b.putAll made
  | [], [], b, b', _, h => by
    cases h
    exact ⟨[], .nil, rfl⟩
  | [], _ :: _, _, _, hlen, _ => by cases hlen
  | _ :: _, [], _, _, hlen, _ => by cases hlen
  | p :: ps, v :: vs, b, b', hlen, h => by
    obtain ⟨mid, hp, hps⟩ := Matching.outcome_and_eq_true h
    obtain ⟨made, hmade, rfl⟩ := Part.matches_of_accepts p v hp
    obtain ⟨made', hmade', rfl⟩ := Part.matchAll_of_acceptsAll ps vs (Nat.succ.inj hlen) hps
    exact ⟨made ++ made', .cons hmade hmade', (Bindings.putAll_append b made made').symm⟩

end

/-- **Matching answers `true` exactly if the parts match**, and has then bound what they bind. -/
theorem Pattern.outcome_accepts_iff {p : Pattern} {vs : List Value} (hlen : vs.length = p.parts.length)
    {b b' : Bindings} : (p.accepts env vs).outcome b = (.ok true, b') ↔
      ∃ made, Part.MatchAll env p.parts vs made ∧ b' = b.putAll made := by
  unfold Pattern.accepts
  rw [if_pos hlen]
  constructor
  · exact Part.matchAll_of_acceptsAll p.parts vs hlen
  · rintro ⟨made, hmade, rfl⟩
    exact hmade.outcome_acceptsAll b

end StackCalc
