import StackCalc.Data.Yaml.Scalar
import Mathlib.Tactic.Common

/-! # Folding

What a text means if it is taken for the inside of a scalar in double quotes, and some of its characters end lines. Of
the characters that JSON writes as they are, three do. Blanks before and behind a line end are dropped, a single line
feed is a blank (`foldBreak`), and a line may not begin as a separator of documents does. A text that ends no line means
itself (`foldLine_of_unbroken`). -/

namespace StackCalc.Yaml

/-- What a line end stands for. -/
def lineEnd? (c : Char) : Option Char :=
  if c == '\x85' then some '\n' else if c == '\u2028' || c == '\u2029' then some c else none

/-- A line that begins so separates documents. -/
def separates (cs : List Char) : Bool :=
  (cs.take 3 == ['-', '-', '-'] || cs.take 3 == ['.', '.', '.']) && cs[3]?.any fun c => c == ' ' || (lineEnd? c).isSome

/-- Nothing but blanks stands before the next line end. -/
def endsLineBlank (cs : List Char) : Bool := ((cs.dropWhile (· == ' ')).head?.bind lineEnd?).isSome

mutual

/-- **The meaning of the rest of a line and of all lines behind it**; none if one of them separates documents. -/
def foldLine : List Char → Option (List Char)
  | [] => some []
  | c :: cs =>
    match lineEnd? c with
    | some e => if separates cs then none else (foldStart cs).map fun p => foldBreak [e] p.1 ++ p.2
    | none => if c == ' ' && endsLineBlank cs then foldLine cs else (foldLine cs).map (c :: ·)

/-- The line ends of empty lines in front, and the meaning of what is behind them. -/
def foldStart : List Char → Option (List Char × List Char)
  | [] => some ([], [])
  | c :: cs =>
    match lineEnd? c with
    | some e => if separates cs then none else (foldStart cs).map fun p => (e :: p.1, p.2)
    | none => if c == ' ' then foldStart cs else (foldLine cs).map fun text => ([], c :: text)

end

/-- What stands behind a line end. -/
def foldBehind (cs : List Char) : Option (List Char × List Char) := if separates cs then none else foldStart cs

theorem lineEnd?_cases {c e : Char} (h : lineEnd? c = some e) :
    c = '\x85' ∧ e = '\n' ∨ (c = '\u2028' ∨ c = '\u2029') ∧ e = c := by
  unfold lineEnd? at h
  split_ifs at h with hnext hsep
  · exact .inl ⟨beq_iff_eq.1 hnext, (Option.some.inj h).symm⟩
  · exact .inr ⟨by simpa using hsep, (Option.some.inj h).symm⟩

section
variable {c e : Char} {cs : List Char}

theorem ne_blank_of_lineEnd? (h : lineEnd? c = some e) : c ≠ ' ' := by
  rintro rfl
  cases h

theorem foldLine_end (h : lineEnd? c = some e) :
    foldLine (c :: cs) = (foldBehind cs).map fun p => foldBreak [e] p.1 ++ p.2 := by
  unfold foldLine foldBehind
  rw [h]
  dsimp only
  split_ifs <;> rfl

theorem foldStart_end (h : lineEnd? c = some e) :
    foldStart (c :: cs) = (foldBehind cs).map fun p => (e :: p.1, p.2) := by
  unfold foldStart foldBehind
  rw [h]
  dsimp only
  split_ifs <;> rfl

theorem foldLine_char (h : lineEnd? c = none) (hblank : c ≠ ' ') : foldLine (c :: cs) = (foldLine cs).map (c :: ·) := by
  have hc : (c == ' ') = false := beq_eq_false_iff_ne.2 hblank
  rw [foldLine, h]
  dsimp only
  rw [hc, Bool.false_and, if_neg Bool.false_ne_true]

theorem foldStart_char (h : lineEnd? c = none) (hblank : c ≠ ' ') :
    foldStart (c :: cs) = (foldLine (c :: cs)).map ([], ·) := by
  have hc : (c == ' ') = false := beq_eq_false_iff_ne.2 hblank
  rw [foldLine_char h hblank, Option.map_map, foldStart, h]
  dsimp only
  rw [hc, if_neg Bool.false_ne_true]
  rfl

theorem foldLine_blank (cs : List Char) :
    foldLine (' ' :: cs) = if endsLineBlank cs then foldLine cs else (foldLine cs).map (' ' :: ·) := rfl

theorem foldStart_blank (cs : List Char) : foldStart (' ' :: cs) = foldStart cs := rfl

end

section
variable (m : ℕ) {cs : List Char}

theorem foldStart_blanks (cs : List Char) : foldStart (List.replicate m ' ' ++ cs) = foldStart cs := by
  induction m with
  | zero => rfl
  | succ m ih => rw [List.replicate_succ, List.cons_append, foldStart_blank, ih]

theorem endsLineBlank_blanks (hhead : cs.head? ≠ some ' ') :
    endsLineBlank (List.replicate m ' ' ++ cs) = (cs.head?.bind lineEnd?).isSome := by
  have hdrop : cs.dropWhile (· == ' ') = cs := by
    cases cs with
    | nil => rfl
    | cons c cs => exact List.dropWhile_cons_of_neg (by simpa using hhead)
  unfold endsLineBlank
  rw [List.dropWhile_append_of_pos fun c hc => by simp [List.eq_of_mem_replicate hc], hdrop]

/-- Blanks before a line end are dropped. -/
theorem foldLine_blanks_end {c e : Char} (h : lineEnd? c = some e) (cs : List Char) :
    foldLine (List.replicate m ' ' ++ c :: cs) = foldLine (c :: cs) := by
  have hblank : (c :: cs).head? ≠ some ' ' := fun hc => ne_blank_of_lineEnd? h (Option.some.inj hc)
  induction m with
  | zero => rfl
  | succ m ih =>
    have hends : endsLineBlank (List.replicate m ' ' ++ c :: cs) = true := by
      rw [endsLineBlank_blanks m hblank, List.head?_cons, Option.bind_some, h]
      rfl
    rw [List.replicate_succ, List.cons_append, foldLine_blank, hends, if_pos rfl, ih]

/-- Other blanks mean themselves. -/
theorem foldLine_blanks (hhead : cs.head? ≠ some ' ') (hline : cs.head?.bind lineEnd? = none) :
    foldLine (List.replicate m ' ' ++ cs) = (foldLine cs).map (List.replicate m ' ' ++ ·) := by
  induction m with
  | zero => exact (Option.map_id' (x := foldLine cs)).symm
  | succ m ih =>
    have hends : endsLineBlank (List.replicate m ' ' ++ cs) = false := by
      rw [endsLineBlank_blanks m hhead, hline]
      rfl
    rw [List.replicate_succ, List.cons_append, foldLine_blank, hends, if_neg Bool.false_ne_true, ih, Option.map_map]
    rfl

end

/-- **A text that ends no line means itself.** -/
theorem foldLine_of_unbroken {cs : List Char} (h : ∀ c ∈ cs, lineEnd? c = none) : foldLine cs = some cs := by
  induction cs with
  | nil => rfl
  | cons c cs ih =>
    have hcs := ih fun d hd => h d (List.mem_cons_of_mem c hd)
    have hends : endsLineBlank cs = false := by
      unfold endsLineBlank
      rw [Option.isSome_eq_false_iff, Option.isNone_iff_eq_none, Option.bind_eq_none_iff]
      intro d hd
      exact h d (List.mem_cons_of_mem c ((List.dropWhile_suffix _).subset (List.mem_of_mem_head? hd)))
    rw [foldLine, h c List.mem_cons_self]
    dsimp only
    rw [hends, Bool.and_false, if_neg Bool.false_ne_true, hcs]
    rfl

example : foldLine "one \x85 two \u2028\x85 three".toList = some "one two\u2028\nthree".toList := by decide

example : foldLine "one\u2028--- two".toList = none := by decide

end StackCalc.Yaml
