import StackCalc.Machine.Call
import StackCalc.Proofs.Fault.Expected
import Mathlib.Data.List.Forall2
import Mathlib.Data.List.Perm.Subperm
import Mathlib.Data.List.Nodup

/-! # Declarations of record types

A declaration is a list of texts, the name and the fields. It is accepted if no field is named twice
(`structParts_eq_ok_iff`), which is found out by counting the fields without repetitions. -/

namespace StackCalc

/-! ### Counting without repetitions -/

theorem nodup_eraseDups : ∀ l : List Text, l.eraseDups.Nodup
  | [] => List.nodup_nil
  | s :: l => by
    rw [List.eraseDups_cons, List.nodup_cons]
    refine ⟨fun h => ?_, nodup_eraseDups _⟩
    have hfilter := List.of_mem_filter (List.mem_eraseDups.1 h)
    simp at hfilter
termination_by l => l.length
decreasing_by exact Nat.lt_succ_of_le (List.length_filter_le _ _)

/-- A list is as long without repetitions just if it has none. -/
theorem length_eraseDups_eq_iff {l : List Text} : l.eraseDups.length = l.length ↔ l.Nodup := by
  constructor
  · intro h
    have hsub : l.eraseDups.Subperm l := (nodup_eraseDups l).subperm fun _ => List.mem_eraseDups.1
    exact (hsub.perm_of_length_le (Nat.le_of_eq h.symm)).nodup_iff.1 (nodup_eraseDups l)
  · intro h
    exact ((List.perm_ext_iff_of_nodup (nodup_eraseDups l) h).2 fun _ => List.mem_eraseDups).length_eq

/-! ### Texts -/

/-- The value is the text. -/
def Value.IsText (v : Value) (s : Text) : Prop := v.payload = .str s

theorem Value.wantText_eq_ok_iff {context s : Text} {v : Value} : v.wantText context = .ok s ↔ v.IsText s := by
  unfold wantText IsText
  constructor
  · intro h
    split at h
    next t ht =>
      cases h
      exact ht
    next => cases h
  · intro h
    rw [h]

theorem mapM_wantText_eq_ok_iff {context : Text} : ∀ {vs : List Value} {texts : List Text},
    vs.mapM (Value.wantText context) = .ok texts ↔ List.Forall₂ Value.IsText vs texts
  | [], texts => by
    constructor
    · intro h
      cases h
      exact .nil
    · rintro ⟨⟩
      rfl
  | v :: vs, texts => by
    rw [List.mapM_cons]
    constructor
    · intro h
      obtain ⟨s, hs, h⟩ := exists_of_bind_ok h
      obtain ⟨rest, hrest, h⟩ := exists_of_bind_ok h
      cases h
      exact .cons (Value.wantText_eq_ok_iff.1 hs) (mapM_wantText_eq_ok_iff.1 hrest)
    · rintro (_ | ⟨hs, hrest⟩)
      rw [Value.wantText_eq_ok_iff.2 hs, mapM_wantText_eq_ok_iff.2 hrest]
      rfl

/-! ### The parts of a declaration -/

/-- Texts are a name and fields, and no field may be named twice. -/
theorem structParts_texts {given : List Value} {name : Text} {fields : List Text}
    (h : List.Forall₂ Value.IsText given (name :: fields)) :
    structParts given = if fields.Nodup then .ok (name, fields)
      else .error (.duplicateFields name (showList (fields.map Text.quoted))) := by
  rcases h with _ | ⟨hname, hfields⟩
  simp only [structParts, Value.wantText_eq_ok_iff.2 hname, mapM_wantText_eq_ok_iff.2 hfields, bind, Except.bind]
  by_cases hnodup : fields.Nodup
  · rw [if_pos hnodup, if_pos (length_eraseDups_eq_iff.2 hnodup)]
    rfl
  · rw [if_neg hnodup, if_neg (mt length_eraseDups_eq_iff.1 hnodup)]
    rfl

/-- **A declaration is accepted** if it is a name and fields with different names. -/
theorem structParts_eq_ok_iff {given : List Value} {name : Text} {fields : List Text} :
    structParts given = .ok (name, fields) ↔ List.Forall₂ Value.IsText given (name :: fields) ∧ fields.Nodup := by
  constructor
  · intro h
    have htexts : List.Forall₂ Value.IsText given (name :: fields) := by
      cases given with
      | nil => cases h
      | cons v vs =>
        obtain ⟨s, hs, h⟩ := exists_of_bind_ok h
        obtain ⟨texts, htexts, h⟩ := exists_of_bind_ok h
        split_ifs at h
        cases h
        exact .cons (Value.wantText_eq_ok_iff.1 hs) (mapM_wantText_eq_ok_iff.1 htexts)
    refine ⟨htexts, ?_⟩
    by_contra hnodup
    rw [structParts_texts htexts, if_neg hnodup] at h
    cases h
  · rintro ⟨htexts, hnodup⟩
    rw [structParts_texts htexts, if_pos hnodup]

end StackCalc
