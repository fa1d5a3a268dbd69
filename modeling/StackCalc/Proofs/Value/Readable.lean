import StackCalc.Proofs.Fault.Expected
import StackCalc.Proofs.Number.Notation
import StackCalc.Proofs.Wire.Record
import StackCalc.Value.Written

/-! # Written values are read in one way

The form in which values are written is a notation: words, numerals, texts in quotes, lists in brackets and pairs
with a colon (`Value.WrittenAs`). Its first character tells the kind of a value (`Kind.eq_of_opening`), and none of
its forms runs on into what follows, but for numerals, which stop where no digit follows. So of a text that begins
with a written value it can be told which value that is, and where it ends (`Value.WrittenAs.same`): the separators
of lists and pairs are no part of their members, whatever characters the texts in them have. -/

namespace StackCalc

/-- Built from null, truth values, integers, texts and pairs. -/
def Value.Discrete : Value → Prop
  | .mk _ p =>
    match p with
    | .int _ | .str _ | .bool _ | .null => True
    | .cons a b => a.Discrete ∧ b.Discrete
    | _ => False

/-! ### The notation -/

mutual

/-- **How a value is written.** A list may as well be written as the pair that it is. -/
inductive Value.WrittenAs : Value → List CodePoint → Prop where
  | null (d : DomainId) : Value.WrittenAs (.mk d .null) ['n', 'u', 'l', 'l']
  | bool (d : DomainId) (b : Bool) : Value.WrittenAs (.mk d (.bool b))
      (if b then ['t', 'r', 'u', 'e'] else ['f', 'a', 'l', 's', 'e'])
  | int (d : DomainId) (n : Int) : Value.WrittenAs (.mk d (.int n)) (Integer.render n : Text).codes
  | str (d : DomainId) (s : Text) : Value.WrittenAs (.mk d (.str s)) (Text.writtenCodes s.codes)
  | list (d : DomainId) {a b : Value} {x items : List CodePoint} (ha : Value.WrittenAs a x)
      (hb : Value.ContinuedAs b items) :
      Value.WrittenAs (.mk d (.cons a b)) (.char '[' :: (x ++ (items ++ [.char ']'])))
  | pair (d : DomainId) {a b : Value} {x y : List CodePoint} (ha : Value.WrittenAs a x) (hb : Value.WrittenAs b y) :
      Value.WrittenAs (.mk d (.cons a b))
        (.char '(' :: (x ++ (.char ' ' :: .char ':' :: .char ' ' :: (y ++ [.char ')']))))

/-- How the rest of a list is written: each item after a comma. -/
inductive Value.ContinuedAs : Value → List CodePoint → Prop where
  | null (d : DomainId) : Value.ContinuedAs (.mk d .null) []
  | cons (d : DomainId) {a b : Value} {x items : List CodePoint} (ha : Value.WrittenAs a x)
      (hb : Value.ContinuedAs b items) : Value.ContinuedAs (.mk d (.cons a b)) (.char ',' :: .char ' ' :: (x ++ items))

end

/-- The items of the rest of a list, one after the other. -/
def continuation (items : List Text) : List CodePoint := items.flatMap fun s => .char ',' :: .char ' ' :: s.codes

theorem codes_showList (s : Text) (items : List Text) :
    (showList (s :: items)).codes = .char '[' :: (s.codes ++ (continuation items ++ [.char ']'])) := by
  have hitems : (Text.intercalate ", " (s :: items)).codes = s.codes ++ continuation items := by
    rw [Text.codes_intercalate]
    induction items generalizing s with
    | nil => simp [continuation]
    | cons t items ih =>
      have hsep : (", " : Text).codes = [.char ',', .char ' '] := rfl
      rw [List.map_cons, List.map_cons, List.intercalate_cons_cons, ← List.map_cons, ih, hsep, List.append_assoc]
      rfl
  have hopen : ("[" : Text).codes = [.char '['] := rfl
  have hclose : ("]" : Text).codes = [.char ']'] := rfl
  rw [showList, Text.codes_append, Text.codes_append, hitems, hopen, hclose, List.append_assoc, List.append_assoc]
  rfl

mutual

/-- Values are written in the notation. -/
theorem Value.writtenAs_of_written : ∀ {v : Value} {s : Text}, v.Discrete → v.written = .ok s →
    v.WrittenAs s.codes
  | .mk d p, s, hv, h => by
    unfold Value.written at h
    cases p with
    | int n =>
      unfold Payload.written showInt Integer.render? at h
      split_ifs at h
      cases h
      exact .int d n
    | str t =>
      cases h
      exact .str d t
    | bool b =>
      cases h
      cases b with
      | true => exact .bool d true
      | false => exact .bool d false
    | null =>
      cases h
      exact .null d
    | cons a b =>
      unfold Payload.written at h
      obtain ⟨rest, hrest, h⟩ := exists_of_bind_ok h
      cases rest with
      | some items =>
        obtain ⟨x, hx, h⟩ := exists_of_bind_ok h
        cases h
        rw [codes_showList]
        exact .list d (Value.writtenAs_of_written hv.1 hx) (Value.continuedAs_of_writtenTail hv.2 hrest)
      | none =>
        obtain ⟨x, hx, h⟩ := exists_of_bind_ok h
        obtain ⟨y, hy, h⟩ := exists_of_bind_ok h
        cases h
        have htext : ("(" ++ x ++ " : " ++ y ++ ")").codes =
            .char '(' :: (x.codes ++ (.char ' ' :: .char ':' :: .char ' ' :: (y.codes ++ [.char ')']))) := by
          simp only [Text.codes_append, List.append_assoc]
          rfl
        rw [htext]
        exact .pair d (Value.writtenAs_of_written hv.1 hx) (Value.writtenAs_of_written hv.2 hy)
    | float | code | callable | object | host => exact hv.elim

theorem Value.continuedAs_of_writtenTail : ∀ {v : Value} {items : List Text}, v.Discrete →
    v.writtenTail = .ok (some items) → v.ContinuedAs (continuation items)
  | .mk d p, items, hv, h => by
    unfold Value.writtenTail at h
    cases p with
    | null =>
      cases h
      exact .null d
    | cons a b =>
      unfold Payload.writtenTail at h
      obtain ⟨rest, hrest, h⟩ := exists_of_bind_ok h
      cases rest with
      | some rest =>
        obtain ⟨x, hx, h⟩ := exists_of_bind_ok h
        cases h
        have htext : continuation (x :: rest) = .char ',' :: .char ' ' :: (x.codes ++ continuation rest) := rfl
        rw [htext]
        exact .cons d (Value.writtenAs_of_written hv.1 hx) (Value.continuedAs_of_writtenTail hv.2 hrest)
      | none => cases h
    | _ => cases h

end

/-! ### Reading -/

/-- What a value of a kind can begin with. -/
def Kind.openings : Kind → List CodePoint
  | .null => ['n']
  | .bool => ['t', 'f']
  | .int => ("-0123456789" : Text).codes
  | .str => ['\'']
  | .cons => ['[', '(']
  | _ => []

/-- The first character tells the kind. -/
theorem Kind.eq_of_opening {k l : Kind} {c : CodePoint} (hk : c ∈ k.openings) (hl : c ∈ l.openings) : k = l := by
  have hall : ∀ k l : Kind, k = l ∨ k.openings.any l.openings.contains = false := by
    intro k l
    cases k <;> cases l <;> decide
  refine (hall k l).resolve_right fun hnone => ?_
  have hmissing := List.any_eq_false.mp hnone c hk
  exact hmissing (List.contains_iff_mem.mpr hl)

/-- A code point of a numeral. -/
def inNumeral (c : CodePoint) : Bool := Kind.int.openings.contains c

theorem inNumeral_of_isDigit {c : Char} (h : c.isDigit = true) : inNumeral c = true := by
  have hall : ∀ n : Fin 58, '0'.toNat ≤ n.1 → inNumeral (Char.ofNat n.1) = true := by decide
  have hle : 48 ≤ c.toNat ∧ c.toNat ≤ 57 := by
    simp only [Char.isDigit, Bool.and_eq_true, decide_eq_true_eq] at h
    exact h
  have hchar := hall ⟨c.toNat, by omega⟩ hle.1
  rwa [Char.ofNat_toNat] at hchar

theorem inNumeral_of_mem_render {n : Int} {c : CodePoint} (h : c ∈ (Integer.render n : Text).codes) :
    inNumeral c = true := by
  rw [Text.codes_ofString, Integer.toList_render, Decimal.Spelling.text_ofNat] at h
  obtain ⟨c, hc, rfl⟩ := List.mem_map.1 h
  rcases List.mem_append.1 hc with hc | hc
  · split_ifs at hc
    · rw [List.mem_singleton.1 hc]
      decide
    · exact absurd hc List.not_mem_nil
  · exact inNumeral_of_isDigit (Decimal.isDigit_of_mem_toDigits hc)

theorem codes_render_ne_nil (n : Int) : (Integer.render n : Text).codes ≠ [] := by
  rw [Text.codes_ofString, Integer.toList_render, Decimal.Spelling.text_ofNat, ne_eq, List.map_eq_nil_iff]
  exact List.append_ne_nil_of_right_ne_nil _ Nat.toDigits_ne_nil

/-- A written value begins like its kind does. -/
theorem Value.WrittenAs.opens {v : Value} {x : List CodePoint} (h : v.WrittenAs x) :
    ∃ c cs, x = c :: cs ∧ c ∈ v.kind.openings := by
  cases h with
  | null => exact ⟨'n', _, rfl, List.mem_cons_self⟩
  | bool d b =>
    cases b with
    | true => exact ⟨'t', _, rfl, List.mem_cons_self⟩
    | false => exact ⟨'f', _, rfl, List.mem_cons_of_mem _ List.mem_cons_self⟩
  | int d n =>
    obtain ⟨c, cs, htext⟩ := List.exists_cons_of_ne_nil (codes_render_ne_nil n)
    have hc : inNumeral c = true := inNumeral_of_mem_render (by rw [htext]; exact List.mem_cons_self)
    exact ⟨c, cs, htext, List.contains_iff_mem.1 hc⟩
  | str => exact ⟨'\'', _, rfl, List.mem_cons_self⟩
  | list => exact ⟨'[', _, rfl, List.mem_cons_self⟩
  | pair => exact ⟨'(', _, rfl, List.mem_cons_of_mem _ List.mem_cons_self⟩

/-- The rest of a list goes on with a comma, if with anything. -/
theorem Value.ContinuedAs.stops {v : Value} {items : List CodePoint} (h : v.ContinuedAs items) (rest : List CodePoint) :
    Stops inNumeral (items ++ .char ']' :: rest) := by
  cases h with
  | null => exact .cons (by decide)
  | cons => exact .cons (by decide)

theorem render_append_inj {m n : Int} {r r' : List CodePoint} (hr : Stops inNumeral r) (hr' : Stops inNumeral r')
    (h : (Integer.render m : Text).codes ++ r = (Integer.render n : Text).codes ++ r') : m = n ∧ r = r' := by
  have hrun : ∀ k : Int, ∀ c ∈ (Integer.render k : Text).codes, inNumeral c = true := fun k c hc =>
    inNumeral_of_mem_render hc
  have hcodes := congrArg (List.takeWhile inNumeral) h
  rw [takeWhile_run (hrun m) hr, takeWhile_run (hrun n) hr'] at hcodes
  have hnumber := congrArg (fun s : String => Integer.ofChars? s.toList) (Text.ofString_inj.1 (Text.ext hcodes))
  rw [Integer.ofChars?_render, Integer.ofChars?_render] at hnumber
  obtain rfl := Option.some.inj hnumber
  exact ⟨rfl, List.append_cancel_left h⟩

theorem writtenCodes_append_inj {s t : Text} {r r' : List CodePoint}
    (h : Text.writtenCodes s.codes ++ r = Text.writtenCodes t.codes ++ r') : s = t ∧ r = r' := by
  have hread := congrArg Text.readWritten h
  rw [Text.readWritten_writtenCodes, Text.readWritten_writtenCodes] at hread
  obtain ⟨hst, hr⟩ := Prod.mk.inj (Option.some.inj hread)
  exact ⟨Text.ext hst, hr⟩

/-- Values written alike, as far as they go, are of one kind. -/
theorem Value.WrittenAs.kind_eq {v w : Value} {x y r r' : List CodePoint} (hv : v.WrittenAs x) (hw : w.WrittenAs y)
    (h : x ++ r = y ++ r') : v.kind = w.kind := by
  obtain ⟨c, cs, rfl, hc⟩ := hv.opens
  obtain ⟨c', cs', rfl, hc'⟩ := hw.opens
  obtain rfl : c = c' := (List.cons.inj h).1
  exact Kind.eq_of_opening hc hc'

mutual

/-- **A text begins with one written value at most**, and it can be told where the value ends. -/
theorem Value.WrittenAs.same : ∀ {v w : Value} {x y r r' : List CodePoint}, v.WrittenAs x → w.WrittenAs y →
    Stops inNumeral r → Stops inNumeral r' → x ++ r = y ++ r' → v.Same w ∧ r = r'
  | _, _, _, _, r, r', .null d, hw, hr, hr', h => by
    have hkind := (Value.WrittenAs.null d).kind_eq hw h
    cases hw with
    | null e => exact ⟨.null d e, List.append_cancel_left h⟩
    | _ => cases hkind
  | _, _, _, _, r, r', .bool d b, hw, hr, hr', h => by
    have hkind := (Value.WrittenAs.bool d b).kind_eq hw h
    cases hw with
    | bool e c =>
      cases b <;> cases c <;> cases h
      · exact ⟨.bool d e false, rfl⟩
      · exact ⟨.bool d e true, rfl⟩
    | _ => cases hkind
  | _, _, _, _, r, r', .int d n, hw, hr, hr', h => by
    have hkind := (Value.WrittenAs.int d n).kind_eq hw h
    cases hw with
    | int e k =>
      obtain ⟨rfl, hrest⟩ := render_append_inj hr hr' h
      exact ⟨.int d e n, hrest⟩
    | _ => cases hkind
  | _, _, _, _, r, r', .str d s, hw, hr, hr', h => by
    have hkind := (Value.WrittenAs.str d s).kind_eq hw h
    cases hw with
    | str e t =>
      obtain ⟨rfl, hrest⟩ := writtenCodes_append_inj h
      exact ⟨.str d e s, hrest⟩
    | _ => cases hkind
  | _, _, _, _, r, r', .list d ha hb, hw, hr, hr', h => by
    have hkind := (Value.WrittenAs.list d ha hb).kind_eq hw h
    cases hw with
    | list e ha' hb' =>
      simp only [List.cons_append, List.cons.injEq, true_and, List.append_assoc, List.nil_append] at h
      obtain ⟨hhead, hrest⟩ := ha.same ha' (hb.stops r) (hb'.stops r') h
      obtain ⟨htail, hrest⟩ := hb.same hb' hrest
      exact ⟨.cons d e hhead htail, hrest⟩
    | pair => cases h
    | _ => cases hkind
  | _, _, _, _, r, r', .pair d ha hb, hw, hr, hr', h => by
    have hkind := (Value.WrittenAs.pair d ha hb).kind_eq hw h
    cases hw with
    | pair e ha' hb' =>
      simp only [List.cons_append, List.cons.injEq, true_and, List.append_assoc, List.nil_append] at h
      obtain ⟨hhead, hrest⟩ := ha.same ha' (.cons (by decide)) (.cons (by decide)) h
      simp only [List.cons.injEq, true_and] at hrest
      obtain ⟨htail, hrest⟩ := hb.same hb' (.cons (by decide)) (.cons (by decide)) hrest
      exact ⟨.cons d e hhead htail, (List.cons.inj hrest).2⟩
    | list => cases h
    | _ => cases hkind

theorem Value.ContinuedAs.same : ∀ {v w : Value} {x y r r' : List CodePoint}, v.ContinuedAs x → w.ContinuedAs y →
    x ++ .char ']' :: r = y ++ .char ']' :: r' → v.Same w ∧ r = r'
  | _, _, _, _, _, _, .null d, .null e, h => by
    cases h
    exact ⟨.null d e, rfl⟩
  | _, _, _, _, r, r', .cons d ha hb, .cons e ha' hb', h => by
    simp only [List.cons_append, List.cons.injEq, true_and, List.append_assoc] at h
    obtain ⟨hhead, hrest⟩ := ha.same ha' (hb.stops r) (hb'.stops r') h
    obtain ⟨htail, hrest⟩ := hb.same hb' hrest
    exact ⟨.cons d e hhead htail, hrest⟩
  | _, _, _, _, _, _, .null _, .cons _ _ _, h => by cases h
  | _, _, _, _, _, _, .cons _ _ _, .null _, h => by cases h

end

/-! ### What a text tells -/

/-- The domains of values and the cells of numbers are no part of how values are written. -/
theorem Value.Same.written_eq {v w : Value} (h : v.Same w) :
    v.written = w.written ∧ v.writtenTail = w.writtenTail := by
  induction h with
  | cons d e ha hb iha ihb =>
    unfold Value.written Value.writtenTail Payload.written Payload.writtenTail
    rw [iha.1, ihb.1, ihb.2]
    exact ⟨rfl, rfl⟩
  | _ => exact ⟨rfl, rfl⟩

/-- **Values that are written alike are alike**: of every two values of null, truth values, integers, texts and pairs
that have a text, the texts are the same just if the values have one shape with the same leaves. -/
theorem Value.same_iff_written_eq {v w : Value} (hv : v.Discrete) (hw : w.Discrete) {s t : Text}
    (hs : v.written = .ok s) (ht : w.written = .ok t) : s = t ↔ v.Same w := by
  constructor
  · rintro rfl
    have hsame := (Value.writtenAs_of_written hv hs).same (Value.writtenAs_of_written hw ht) .nil .nil rfl
    exact hsame.1
  · intro h
    have heq := h.written_eq.1
    rw [hs, ht] at heq
    exact Except.ok.inj heq

/-- A text that has the separator of lists in it is one item, and two empty texts are two. -/
theorem Value.same_iff_written_eq_separator : ¬Value.Same
    (.mk 0 (.cons (.mk 0 (.str "', '")) (.mk 0 (.cons
      (.mk 0 (.cons (.mk 0 (.int 1)) (.mk 0 (.int (-2))))) (.mk 0 .null)))))
    (.mk 0 (.cons (.mk 0 (.str "")) (.mk 0 (.cons (.mk 0 (.str "")) (.mk 0 (.cons
      (.mk 0 (.cons (.mk 0 (.int 1)) (.mk 0 (.int (-2))))) (.mk 0 .null))))))) := by
  rw [← Value.same_iff_written_eq (s := "['\\', \\'', (1 : -2)]") (t := "['', '', (1 : -2)]")]
  · decide
  · exact ⟨trivial, ⟨trivial, trivial⟩, trivial⟩
  · exact ⟨trivial, trivial, ⟨trivial, trivial⟩, trivial⟩
  · decide +kernel
  · decide +kernel

end StackCalc
