import StackCalc.Proofs.Data.Json.Scalar
import Mathlib.Data.List.Forall2

/-! # Reading JSON back

Data that JSON can hold exactly (`Exact`) is read back from its text (`exists_write`, `read_of_spells`), on one line or
indented: blanks are passed over wherever the two differ. The fuel of the reader counts the characters of the text,
of which every item and every member has at least one. -/

namespace StackCalc.Json

/-! ### Lists and objects -/

theorem skipSpace_of_opens {c : CodePoint} (hc : c.isIn isSpace = false) {pre : List CodePoint}
    (hpre : ∀ d ∈ pre, d.isIn isSpace = true) (cs : List CodePoint) : skipSpace (pre ++ c :: cs) = c :: cs :=
  dropWhile_run hpre (Stops.cons hc)

theorem isSpace_of_mem_blank : ∀ d ∈ [CodePoint.char ' '], d.isIn isSpace = true :=
  List.all_iff_forall_prop.1 (by decide)

theorem skipSpace_blank {c : CodePoint} (hc : c.isIn isSpace = false) (cs : List CodePoint) :
    skipSpace (.char ' ' :: c :: cs) = c :: cs :=
  skipSpace_of_opens hc isSpace_of_mem_blank cs

theorem skipSpace_comma (cs : List CodePoint) : skipSpace (.char ',' :: cs) = .char ',' :: cs :=
  dropWhile_of_stops (Stops.cons (by decide))

theorem stops_goesOn_space {post : List CodePoint} (hpost : ∀ d ∈ post, d.isIn isSpace = true) {c : CodePoint}
    (hc : c.isIn goesOn = false) (cs : List CodePoint) : Stops (·.isIn goesOn) (post ++ c :: cs) := by
  rcases post with _ | ⟨d, post⟩
  · exact Stops.cons hc
  · refine Stops.cons ?_
    have hspace := hpost d List.mem_cons_self
    cases d with
    | half => rfl
    | char d =>
      unfold CodePoint.isIn isSpace at hspace
      simp only [Bool.or_eq_true, beq_iff_eq] at hspace
      rcases hspace with ((rfl | rfl) | rfl) | rfl <;> decide

theorem head_intercalate {sep text : List CodePoint} {c : CodePoint} {cs : List CodePoint} (h : text = c :: cs)
    (texts : List (List CodePoint)) : ∃ cs', List.intercalate sep (text :: texts) = c :: cs' := by
  rw [h]
  cases texts with
  | nil => exact ⟨_, List.intercalate_singleton⟩
  | cons => exact ⟨_, List.intercalate_cons_cons⟩

section
variable {gap post : List CodePoint} (hgap : ∀ c ∈ gap, c.isIn isSpace = true)
  (hpost : ∀ c ∈ post, c.isIn isSpace = true)

include hgap hpost

/-- **Items are read back**, in front of their closing bracket. -/
theorem items_intercalate : ∀ {texts : List (List CodePoint)} {ds : List Data}, List.Forall₂ Spells texts ds → ds ≠ [] →
    ∀ (done : List Data) (rest : List CodePoint) (fuel : ℕ), (List.intercalate (.char ',' :: gap) texts).length < fuel →
      items fuel done (List.intercalate (.char ',' :: gap) texts ++ (post ++ .char ']' :: rest)) =
        .ok (.list (done.reverse ++ ds), rest)
  | _, _, .nil, h, _, _, _, _ => absurd rfl h
  | [text], [d], .cons hd .nil, _, done, rest, fuel, hfuel => by
    obtain ⟨fuel, rfl⟩ : ∃ k, fuel = k + 1 := ⟨fuel - 1, by omega⟩
    rw [List.intercalate_singleton] at hfuel ⊢
    rw [items, hd.value_eq (by omega) (stops_goesOn_space hpost (by decide) rest)]
    simp only [Except.bind, bind, skipSpace_of_opens (c := .char ']') (by decide) hpost]
    rw [List.reverse_cons]
    rfl
  | text :: text' :: texts, d :: d' :: ds, .cons hd (.cons hd' hds), _, done, rest, fuel, hfuel => by
    obtain ⟨fuel, rfl⟩ : ∃ k, fuel = k + 1 := ⟨fuel - 1, by omega⟩
    obtain ⟨c, cs, hcs, hc, -⟩ := hd'.opens
    obtain ⟨cs', hcs'⟩ := head_intercalate hcs texts
    have ih := items_intercalate (.cons hd' hds) (List.cons_ne_nil _ _) (d :: done) rest fuel
    rw [List.intercalate_cons_cons, List.length_append, List.length_append, List.length_cons] at hfuel
    rw [List.intercalate_cons_cons, items, List.append_assoc, List.append_assoc, List.cons_append,
      hd.value_eq (by omega) (Stops.cons (by decide))]
    simp only [Except.bind, bind]
    rw [skipSpace_comma]
    change items fuel (d :: done) (skipSpace (gap ++ _)) = _
    rw [hcs', List.cons_append, skipSpace_of_opens hc hgap, ← List.cons_append, ← hcs', ih (by omega),
      List.reverse_cons, List.append_assoc]
    rfl

/-- A text is one of a member: its name in quotes, a colon, and a text of its value. -/
def SpellsMember (text : List CodePoint) (e : Data × Data) : Prop :=
  ∃ name body, e.1 = .str name ∧ Spells body e.2 ∧ text = (writeText name).codes ++ (.char ':' :: .char ' ' :: body)

omit hgap hpost in
theorem SpellsMember.head {text : List CodePoint} {e : Data × Data} (h : SpellsMember text e) :
    ∃ cs, text = .char '"' :: cs := by
  obtain ⟨name, body, -, -, htext⟩ := h
  rw [codes_writeText] at htext
  exact ⟨_, htext⟩

omit hgap hpost in
/-- What follows a name. -/
theorem members_colon (name : Text) (body rest : List CodePoint) (fuel : ℕ) (done : List (Data × Data)) :
    members (fuel + 1) done ((writeText name).codes ++ (.char ':' :: .char ' ' :: body) ++ rest) = (do
      let (d, more) ← value fuel (skipSpace (.char ' ' :: (body ++ rest)))
      match skipSpace more with
        | .char '\x7d' :: more' => return (.map (Data.insert (.str name) d done), more')
        | .char ',' :: more' => members fuel (Data.insert (.str name) d done) (skipSpace more')
        | _ => throw .badJson) := by
  rw [codes_writeText]
  simp only [List.cons_append, List.append_assoc, List.nil_append]
  rw [members, textBody_writeText]
  rfl

/-- **Members are read back**, in front of their closing bracket. -/
theorem members_intercalate : ∀ {texts : List (List CodePoint)} {es : List (Data × Data)},
    List.Forall₂ SpellsMember texts es → es ≠ [] → ∀ (done : List (Data × Data)) (rest : List CodePoint) (fuel : ℕ),
      (List.intercalate (.char ',' :: gap) texts).length < fuel →
      members fuel done (List.intercalate (.char ',' :: gap) texts ++ (post ++ .char '\x7d' :: rest)) =
        .ok (.map (es.foldl (fun m e => Data.insert e.1 e.2 m) done), rest)
  | _, _, .nil, h, _, _, _, _ => absurd rfl h
  | [text], [(key, d)], .cons ⟨name, body, hkey, hd, htext⟩ .nil, _, done, rest, fuel, hfuel => by
    obtain ⟨fuel, rfl⟩ : ∃ k, fuel = k + 1 := ⟨fuel - 1, by omega⟩
    obtain ⟨c, cs, hcs, hc, -⟩ := hd.opens
    dsimp only at hkey hd
    rw [List.intercalate_singleton, htext, List.length_append, List.length_cons, List.length_cons] at hfuel
    rw [List.intercalate_singleton, htext, members_colon]
    have hblank : skipSpace (.char ' ' :: (body ++ (post ++ .char '\x7d' :: rest))) =
        body ++ (post ++ .char '\x7d' :: rest) := by
      rw [hcs]
      exact skipSpace_blank hc _
    rw [hblank, hd.value_eq (by omega) (stops_goesOn_space hpost (by decide) rest), hkey]
    simp only [Except.bind, bind, skipSpace_of_opens (c := .char '\x7d') (by decide) hpost]
    rfl
  | text :: text' :: texts, (key, d) :: e' :: es, .cons ⟨name, body, hkey, hd, htext⟩ (.cons he' hes), _, done, rest,
      fuel, hfuel => by
    obtain ⟨fuel, rfl⟩ : ∃ k, fuel = k + 1 := ⟨fuel - 1, by omega⟩
    obtain ⟨c, cs, hcs, hc, -⟩ := hd.opens
    obtain ⟨_, hhead⟩ := he'.head
    obtain ⟨cs', hcs'⟩ := head_intercalate hhead texts
    have ih := members_intercalate (.cons he' hes) (List.cons_ne_nil _ _) (Data.insert (.str name) d done) rest fuel
    dsimp only at hkey hd
    rw [List.intercalate_cons_cons, htext, List.length_append, List.length_append, List.length_append, List.length_cons,
      List.length_cons, List.length_cons] at hfuel
    rw [List.intercalate_cons_cons, htext, List.append_assoc, List.append_assoc, members_colon, List.cons_append]
    have hblank : ∀ more, skipSpace (.char ' ' :: (body ++ more)) = body ++ more := by
      intro more
      rw [hcs]
      exact skipSpace_blank hc _
    rw [hblank, hd.value_eq (by omega) (Stops.cons (by decide)), hkey]
    simp only [Except.bind, bind]
    rw [skipSpace_comma]
    change members fuel (Data.insert (.str name) d done) (skipSpace (gap ++ _)) = _
    rw [hcs', List.cons_append, skipSpace_of_opens (by decide) hgap, ← List.cons_append, ← hcs', ih (by omega)]
    rfl

end

/-! ### Brackets -/

namespace Breaking

theorem codes_newline (n : ℕ) : (newline n).codes = .char '\n' :: List.replicate (2 * n) (.char ' ') := by
  unfold newline
  simp only [Text.codes_append, Text.codes_ofChars, List.map_replicate]
  rfl

theorem isSpace_of_mem_newline {n : ℕ} {c : CodePoint} (h : c ∈ (newline n).codes) : c.isIn isSpace = true := by
  rw [codes_newline] at h
  rcases List.mem_cons.1 h with rfl | h
  · rfl
  · rw [List.eq_of_mem_replicate h]
    rfl

theorem wrap_nil (b : Breaking) (left right : Text) : b.wrap left right [] = left ++ right := rfl

/-- **Brackets and commas with blanks** are what is put around items. -/
theorem exists_wrap (b : Breaking) : ∃ pre gap post : List CodePoint, (∀ c ∈ pre, c.isIn isSpace = true) ∧
    (∀ c ∈ gap, c.isIn isSpace = true) ∧ (∀ c ∈ post, c.isIn isSpace = true) ∧
    ∀ (left right : Text) {texts : List Text}, texts ≠ [] → (b.wrap left right texts).codes =
      left.codes ++ (pre ++ (List.intercalate (.char ',' :: gap) (texts.map Text.codes) ++ (post ++ right.codes))) := by
  have hempty : ∀ {texts : List Text}, texts ≠ [] → texts.isEmpty = false := fun h => List.isEmpty_eq_false_iff.2 h
  cases b with
  | flat =>
    refine ⟨[], [.char ' '], [], by simp, isSpace_of_mem_blank, by simp, fun left right texts h => ?_⟩
    unfold wrap
    rw [hempty h, if_neg (by decide)]
    simp only [Text.codes_append, Text.codes_intercalate, List.append_assoc, List.nil_append]
    rfl
  | indented n =>
    refine ⟨(newline (n + 1)).codes, (newline (n + 1)).codes, (newline n).codes, fun _ => isSpace_of_mem_newline,
      fun _ => isSpace_of_mem_newline, fun _ => isSpace_of_mem_newline, fun left right texts h => ?_⟩
    unfold wrap
    rw [hempty h, if_neg (by decide)]
    simp only [Text.codes_append, Text.codes_intercalate, List.append_assoc]
    rfl

theorem exists_wrap_left (b : Breaking) (left right : Text) (texts : List Text) :
    ∃ cs, (b.wrap left right texts).codes = left.codes ++ cs := by
  unfold wrap
  split_ifs
  · exact ⟨_, Text.codes_append ..⟩
  · cases b <;> simp only [Text.codes_append, List.append_assoc] <;> exact ⟨_, rfl⟩

end Breaking

theorem value_square {c : CodePoint} {cs cs' : List CodePoint} (hskip : skipSpace cs = c :: cs')
    (hc : c ≠ .char ']') (fuel : ℕ) :
    value (fuel + 1) (.char '[' :: cs) = items fuel [] (c :: cs') := by
  rw [value, hskip]
  split
  next heq => exact absurd (List.cons.inj heq).1 hc
  next => rfl

theorem value_curly {c : CodePoint} {cs cs' : List CodePoint} (hskip : skipSpace cs = c :: cs')
    (hc : c ≠ .char '\x7d') (fuel : ℕ) :
    value (fuel + 1) (.char '\x7b' :: cs) = members fuel [] (c :: cs') := by
  rw [value, hskip]
  split
  next heq => exact absurd (List.cons.inj heq).1 hc
  next => rfl

/-- **Texts of the items make a text of the list.** -/
theorem spells_list (b : Breaking) {texts : List Text} {ds : List Data}
    (h : List.Forall₂ (fun t d => Spells (Text.codes t) d) texts ds) :
    Spells (b.wrap "[" "]" texts).codes (.list ds) := by
  cases h with
  | nil =>
    rw [b.wrap_nil]
    refine ⟨⟨.char '[', _, rfl, by decide, by decide, by decide⟩, fun {fuel rest} hfuel _ => ?_⟩
    obtain ⟨fuel, rfl⟩ : ∃ k, fuel = k + 1 := ⟨fuel - 1, by have : 2 ≤ fuel := hfuel; omega⟩
    rfl
  | @cons t d texts ds hd hds =>
    obtain ⟨pre, gap, post, hpre, hgap, hpost, hwrap⟩ := b.exists_wrap
    have hforall : List.Forall₂ Spells ((t :: texts).map Text.codes) (d :: ds) :=
      List.forall₂_map_left_iff.2 (.cons hd hds)
    obtain ⟨c, cs, hcs, hc, hsquare, -⟩ := hd.opens
    obtain ⟨cs', hcs'⟩ := head_intercalate hcs (texts.map Text.codes)
    rw [hwrap "[" "]" (List.cons_ne_nil _ _)]
    refine ⟨⟨.char '[', _, rfl, by decide, by decide, by decide⟩, fun {fuel rest} hfuel _ => ?_⟩
    have hlength : (List.intercalate (.char ',' :: gap) ((t :: texts).map Text.codes)).length + 2 ≤ fuel := by
      simp only [List.length_append] at hfuel
      have hone : ("[" : Text).codes.length = 1 ∧ ("]" : Text).codes.length = 1 := ⟨rfl, rfl⟩
      omega
    obtain ⟨fuel, rfl⟩ : ∃ k, fuel = k + 1 := ⟨fuel - 1, by omega⟩
    have hopen : ("[" : Text).codes = [.char '['] := rfl
    have hclose : ("]" : Text).codes = [.char ']'] := rfl
    rw [hopen, hclose]
    simp only [List.append_assoc, List.cons_append, List.nil_append]
    have hskip : skipSpace (pre ++ (List.intercalate (.char ',' :: gap) ((t :: texts).map Text.codes) ++
        (post ++ .char ']' :: rest))) = c :: (cs' ++ (post ++ .char ']' :: rest)) := by
      rw [List.map_cons, hcs']
      exact skipSpace_of_opens hc hpre _
    rw [value_square hskip hsquare, ← List.cons_append, ← hcs']
    exact items_intercalate hgap hpost hforall (List.cons_ne_nil _ _) [] rest fuel (by omega)

/-- **Texts of the members make a text of the object.** -/
theorem spells_map (b : Breaking) {texts : List Text} {es : List (Data × Data)}
    (h : List.Forall₂ (fun t e => SpellsMember (Text.codes t) e) texts es) :
    Spells (b.wrap "\x7b" "\x7d" texts).codes (.map (Data.mapOf es)) := by
  cases h with
  | nil =>
    rw [b.wrap_nil]
    refine ⟨⟨.char '\x7b', _, rfl, by decide, by decide, by decide⟩, fun {fuel rest} hfuel _ => ?_⟩
    obtain ⟨fuel, rfl⟩ : ∃ k, fuel = k + 1 := ⟨fuel - 1, by have : 2 ≤ fuel := hfuel; omega⟩
    rfl
  | @cons t e texts es he hes =>
    obtain ⟨pre, gap, post, hpre, hgap, hpost, hwrap⟩ := b.exists_wrap
    have hforall : List.Forall₂ SpellsMember ((t :: texts).map Text.codes) (e :: es) :=
      List.forall₂_map_left_iff.2 (.cons he hes)
    obtain ⟨_, hhead⟩ := he.head
    obtain ⟨cs', hcs'⟩ := head_intercalate hhead (texts.map Text.codes)
    rw [hwrap "\x7b" "\x7d" (List.cons_ne_nil _ _)]
    refine ⟨⟨.char '\x7b', _, rfl, by decide, by decide, by decide⟩, fun {fuel rest} hfuel _ => ?_⟩
    have hlength : (List.intercalate (.char ',' :: gap) ((t :: texts).map Text.codes)).length + 2 ≤ fuel := by
      simp only [List.length_append] at hfuel
      have hone : ("\x7b" : Text).codes.length = 1 ∧ ("\x7d" : Text).codes.length = 1 := ⟨rfl, rfl⟩
      omega
    obtain ⟨fuel, rfl⟩ : ∃ k, fuel = k + 1 := ⟨fuel - 1, by omega⟩
    have hopen : ("\x7b" : Text).codes = [.char '\x7b'] := rfl
    have hclose : ("\x7d" : Text).codes = [.char '\x7d'] := rfl
    rw [hopen, hclose]
    simp only [List.append_assoc, List.cons_append, List.nil_append]
    have hskip : skipSpace (pre ++ (List.intercalate (.char ',' :: gap) ((t :: texts).map Text.codes) ++
        (post ++ .char '\x7d' :: rest))) = .char '"' :: (cs' ++ (post ++ .char '\x7d' :: rest)) := by
      rw [List.map_cons, hcs']
      exact skipSpace_of_opens (by decide) hpre _
    rw [value_curly hskip (by decide), ← List.cons_append, ← hcs']
    exact members_intercalate hgap hpost hforall (List.cons_ne_nil _ _) [] rest fuel (by omega)

/-! ### Whole data -/

mutual

/-- **Data that JSON holds exactly**: integers with a text, numbers, texts, truth values and null, in lists and in
mappings of distinct names. -/
def Exact : Data → Prop
  | .int n => Integer.hasText n = true
  | .float x => x.isNaN = false
  | .str _ | .bool _ | .null => True
  | .list items => AllExact items
  | .map entries => Data.mapOf entries = entries ∧ EntriesExact entries
  | _ => False

def AllExact : List Data → Prop
  | [] => True
  | d :: ds => Exact d ∧ AllExact ds

def EntriesExact : List (Data × Data) → Prop
  | [] => True
  | (k, v) :: rest => (∃ s, k = .str s) ∧ Exact v ∧ EntriesExact rest

end

section
variable (b : Breaking)

theorem write_int {n : ℤ} (h : Integer.hasText n = true) : write b (.int n) = .ok (Integer.render n) := by
  unfold write showInt Integer.render?
  rw [if_pos h]

theorem write_float (x : Binary64) : write b (.float x) = .ok (Decimal.render numberLayout x) := by
  rw [write]
  rfl

theorem write_str (s : Text) : write b (.str s) = .ok (writeText s) := by
  rw [write]
  rfl

theorem write_bool (v : Bool) : write b (.bool v) = .ok (if v then "true" else "false") := by
  rw [write]
  rfl

theorem write_null : write b .null = .ok "null" := by
  unfold write
  rfl

end

mutual

/-- **What is written for exact data is a text of it.** -/
theorem exists_write (b : Breaking) : ∀ {d : Data}, Exact d → ∃ text, write b d = .ok text ∧ Spells text.codes d
  | .int n, h => ⟨_, write_int b h, spells_int h⟩
  | .float x, h => ⟨_, write_float b x, spells_float h⟩
  | .str s, _ => ⟨_, write_str b s, spells_str s⟩
  | .bool v, _ => ⟨_, write_bool b v, spells_bool v⟩
  | .null, _ => ⟨_, write_null b, spells_null⟩
  | .list items, h => by
    obtain ⟨texts, htexts, hspells⟩ := exists_writeAll b.deeper (show AllExact items from h)
    refine ⟨_, ?_, spells_list b hspells⟩
    rw [write, htexts]
    rfl
  | .map entries, h => by
    obtain ⟨texts, htexts, hspells⟩ := exists_writeEntries b.deeper (show EntriesExact entries from h.2)
    have hspells := spells_map b hspells
    rw [h.1] at hspells
    refine ⟨_, ?_, hspells⟩
    rw [write, htexts]
    rfl

theorem exists_writeAll (b : Breaking) : ∀ {ds : List Data}, AllExact ds →
    ∃ texts, writeAll b ds = .ok texts ∧ List.Forall₂ (fun t d => Spells (Text.codes t) d) texts ds
  | [], _ => ⟨[], by rw [writeAll]; rfl, .nil⟩
  | d :: ds, h => by
    obtain ⟨text, htext, hd⟩ := exists_write b h.1
    obtain ⟨texts, htexts, hds⟩ := exists_writeAll b h.2
    refine ⟨text :: texts, ?_, .cons hd hds⟩
    rw [writeAll, htext, htexts]
    rfl

theorem exists_writeEntries (b : Breaking) : ∀ {es : List (Data × Data)}, EntriesExact es →
    ∃ texts, writeEntries b es = .ok texts ∧ List.Forall₂ (fun t e => SpellsMember (Text.codes t) e) texts es
  | [], _ => ⟨[], by rw [writeEntries]; rfl, .nil⟩
  | (k, v) :: rest, h => by
    obtain ⟨name, hname⟩ := h.1
    obtain ⟨text, htext, hv⟩ := exists_write b h.2.1
    obtain ⟨texts, htexts, hrest⟩ := exists_writeEntries b h.2.2
    refine ⟨(writeText name ++ ": " ++ text) :: texts, ?_, .cons ⟨name, text.codes, hname, hv, ?_⟩ hrest⟩
    · rw [writeEntries, hname, write_str, htext, htexts]
      rfl
    · simp only [Text.codes_append, List.append_assoc]
      rfl

end

/-- **Exact data is read back from what was written.** -/
theorem read_of_spells {text : Text} {d : Data} (h : Spells text.codes d) : read text = .ok d := by
  obtain ⟨c, cs, hcs, hc, -⟩ := h.opens
  have hskip : skipSpace text.codes = text.codes ++ [] := by
    rw [hcs, List.append_nil]
    exact dropWhile_of_stops (Stops.cons hc)
  unfold read
  dsimp only
  rw [hskip, h.value_eq (by omega) Stops.nil]
  rfl

end StackCalc.Json
