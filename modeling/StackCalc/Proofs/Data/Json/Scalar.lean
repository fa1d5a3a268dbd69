import StackCalc.Data.Json
import StackCalc.Proofs.Number.Notation

/-! # Scalars in JSON

A numeral is found whole in front of whatever does not go on with it (`number?_text`), and a code point is read back
from what is written for it (`textBody_escapeCode`). So every number, text and word is read back from its text. This
is said with `Spells`, which is also what is proved of lists and objects. -/

namespace StackCalc.Json

open Decimal (Spelling)

/-! ### Numbers -/

/-- The characters that a number can go on with. -/
def goesOn (c : Char) : Bool := c.isDigit || c == '.' || c == 'e' || c == 'E'

/-- The sign of a number token. -/
def signOf : List Char → List Char × List Char
  | '-' :: rest => (['-'], rest)
  | rest => ([], rest)

/-- The whole part of a number token. -/
def wholeOf : List Char → List Char
  | '0' :: _ => ['0']
  | body => body.takeWhile Char.isDigit

/-- The point and the digits behind it, if there are any. -/
def fractionOf : List Char → List Char
  | '.' :: rest =>
    let ds := rest.takeWhile Char.isDigit
    if ds.isEmpty then [] else '.' :: ds
  | _ => []

/-- The exponent of a number token, if it is a whole one. -/
def exponentOf : List Char → List Char
  | e :: rest =>
    if e == 'e' || e == 'E' then
      let mark := match rest with
        | '+' :: _ => ['+']
        | '-' :: _ => ['-']
        | _ => []
      let ds := (rest.drop mark.length).takeWhile Char.isDigit
      if ds.isEmpty then [] else e :: mark ++ ds
    else []
  | _ => []

theorem number?_eq (cs : List Char) : number? cs =
    (let body := (signOf cs).2
    let whole := wholeOf body
    if whole.isEmpty then none
    else
      let afterWhole := body.drop whole.length
      let fraction := fractionOf afterWhole
      let afterFraction := afterWhole.drop fraction.length
      let exponent := exponentOf afterFraction
      some ((signOf cs).1 ++ whole ++ fraction ++ exponent, fraction.isEmpty && exponent.isEmpty)) := rfl

section
variable {s : Spelling} {rest : List Char}

theorem goesOn_of_isDigit {c : Char} (h : c.isDigit = true) : goesOn c = true := by
  unfold goesOn
  rw [h]
  rfl

theorem stops_isDigit (hrest : Stops goesOn rest) : Stops Char.isDigit rest := fun c hc => by
  cases hdigit : c.isDigit
  · rfl
  · have hstop := hrest c hc
    rw [goesOn_of_isDigit hdigit] at hstop
    cases hstop

theorem exponentOf_text (hs : s.Proper) (hrest : Stops goesOn rest) :
    exponentOf (s.exponentText ++ rest) = s.exponentText := by
  unfold Spelling.exponentText
  rcases hexp : s.exponent with _ | ⟨neg, ds⟩
  · rcases rest with _ | ⟨c, rest⟩
    · rfl
    · have hstop := hrest c rfl
      unfold goesOn at hstop
      simp only [Bool.or_eq_false_iff] at hstop
      simp [exponentOf, hstop.1.2, hstop.2]
  · obtain ⟨hne, hdigits⟩ := hs.exponent neg ds hexp
    have htake : (ds ++ rest).takeWhile Char.isDigit = ds := takeWhile_run hdigits (stops_isDigit hrest)
    have hempty : ds.isEmpty = false := by
      rw [List.isEmpty_eq_false_iff]
      exact hne
    cases neg <;> simp [exponentOf, htake, hempty]

theorem fractionOf_text (hs : s.Proper) (hrest : Stops goesOn rest) :
    fractionOf (s.pointText ++ (s.exponentText ++ rest)) = s.pointText := by
  unfold Spelling.pointText
  split_ifs with hf
  · rcases Spelling.exponentText_cases s with h | ⟨r, h⟩
    · rw [h]
      rcases rest with _ | ⟨c, rest⟩
      · rfl
      · have hstop := hrest c rfl
        unfold goesOn at hstop
        simp only [Bool.or_eq_false_iff, beq_eq_false_iff_ne] at hstop
        simp only [List.nil_append]
        unfold fractionOf
        split
        next heq =>
          cases heq
          exact absurd rfl hstop.1.1.2
        next => rfl
    · rw [h]
      rfl
  · have hend : Stops Char.isDigit (s.exponentText ++ rest) :=
      Spelling.stops_exponentText rest fun _ => stops_isDigit hrest
    have hempty : s.fraction.isEmpty = false := by
      rw [List.isEmpty_eq_false_iff]
      exact hf
    unfold fractionOf
    simp only [List.cons_append]
    rw [takeWhile_run hs.fraction hend, hempty, if_neg (by decide)]

theorem wholeOf_text (hs : s.Proper) (hrest : Stops goesOn rest) :
    wholeOf (s.whole ++ (s.pointText ++ (s.exponentText ++ rest))) = s.whole := by
  have hstop : Stops Char.isDigit (s.pointText ++ (s.exponentText ++ rest)) := by
    unfold Spelling.pointText
    split_ifs
    · exact Spelling.stops_exponentText rest fun _ => stops_isDigit hrest
    · exact Stops.cons (by decide)
  obtain ⟨c, cs, hw, -⟩ := Spelling.head_whole hs
  have htake := takeWhile_run hs.whole hstop
  rw [hw] at htake ⊢
  unfold wholeOf
  split
  next heq =>
    obtain ⟨rfl, -⟩ := List.cons.inj heq
    have := hs.lead (by rw [hw]; rfl)
    rw [← hw, this]
  next => exact htake

theorem signOf_text (hs : s.Proper) (neg : Bool) (rest : List Char) :
    signOf ((if neg then ['-'] else []) ++ (s.text ++ rest)) = (if neg then ['-'] else [], s.text ++ rest) := by
  cases neg
  · obtain ⟨c, cs, hw, hc⟩ := Spelling.head_whole hs
    unfold Spelling.text
    rw [hw]
    unfold signOf
    split
    next heq =>
      obtain ⟨rfl, -⟩ := List.cons.inj heq
      cases hc
    next => rfl
  · rfl

/-- **A numeral is found whole.** -/
theorem number?_text (hs : s.Proper) (neg : Bool) (hrest : Stops goesOn rest) :
    number? ((if neg then ['-'] else []) ++ (s.text ++ rest)) =
      some ((if neg then ['-'] else []) ++ s.text, s.isIntegral) := by
  have hempty : s.whole.isEmpty = false := by
    rw [List.isEmpty_eq_false_iff]
    exact hs.nonempty
  have hpoint : s.pointText.isEmpty = s.fraction.isEmpty := by
    unfold Spelling.pointText
    cases s.fraction <;> rfl
  have hexponent : s.exponentText.isEmpty = s.exponent.isNone := by
    unfold Spelling.exponentText
    cases s.exponent <;> rfl
  have htext : s.text ++ rest = s.whole ++ (s.pointText ++ (s.exponentText ++ rest)) := by
    unfold Spelling.text
    simp only [List.append_assoc]
  rw [number?_eq, signOf_text hs]
  dsimp only
  rw [htext, wholeOf_text hs hrest, hempty, if_neg (by decide), List.drop_left, fractionOf_text hs hrest,
    List.drop_left, exponentOf_text hs hrest, hpoint, hexponent]
  unfold Spelling.text Spelling.isIntegral
  simp only [List.append_assoc]

/-- No word begins like a numeral: but for its sign it begins with a letter. -/
theorem words_find?_signed (hs : s.Proper) (neg : Bool) (rest : List Char) :
    words.find? (fun w => w.1.toList.isPrefixOf ((if neg then ['-'] else []) ++ (s.text ++ rest))) = none := by
  obtain ⟨c, cs, hw, hc⟩ := Spelling.head_whole hs
  have hletter : 'n' ≠ c ∧ 't' ≠ c ∧ 'f' ≠ c ∧ 'N' ≠ c ∧ 'I' ≠ c ∧ '-' ≠ c := by
    refine ⟨?_, ?_, ?_, ?_, ?_, ?_⟩ <;>
    · rintro rfl
      cases hc
  unfold Spelling.text
  rw [hw]
  cases neg <;> simp [words, hletter]

end

theorem characters_append (cs : List Char) (rest : List CodePoint) :
    characters (cs.map .char ++ rest) = cs ++ characters rest := by
  induction cs with
  | nil => rfl
  | cons c cs ih => rw [List.map_cons, List.cons_append, characters, ih, List.cons_append]

theorem stops_characters {p : Char → Bool} {rest : List CodePoint} (h : Stops (·.isIn p) rest) :
    Stops p (characters rest) := by
  rcases rest with _ | ⟨c | i, rest⟩
  · exact .nil
  · exact .cons (h (.char c) rfl)
  · exact .nil

/-- A numeral is read as its value. -/
theorem scalar_text {s : Spelling} (hs : s.Proper) (neg : Bool) {rest : List CodePoint}
    (hrest : Stops (·.isIn goesOn) rest) :
    scalar (((if neg then ['-'] else []) ++ s.text).map .char ++ rest) =
      (numberData ((if neg then ['-'] else []) ++ s.text) s.isIntegral).map (·, rest) := by
  have hdrop : (((if neg then ['-'] else []) ++ s.text).map CodePoint.char ++ rest).drop
      ((if neg then ['-'] else []) ++ s.text).length = rest := List.drop_left' (List.length_map ..)
  unfold scalar
  rw [characters_append, List.append_assoc, words_find?_signed hs, number?_text hs neg (stops_characters hrest)]
  dsimp only
  rw [hdrop]
  cases numberData ((if neg then ['-'] else []) ++ s.text) s.isIntegral <;> rfl

/-! ### Texts -/

theorem hexDigit?_digitChar {n : ℕ} (hn : n < 16) : Text.hexDigit? (Nat.digitChar n) = some n := by
  have hall : ∀ k : Fin 16, Text.hexDigit? (Nat.digitChar k) = some k.1 := by decide
  exact hall ⟨n, hn⟩

theorem hex4?_hex {n : ℕ} (hn : n < 65536) (rest : List CodePoint) :
    hex4? ((Text.hex 4 n).map .char ++ rest) = some (n, rest) := by
  have htext : Text.hex 4 n = [Nat.digitChar (n / 16 / 16 / 16 % 16), Nat.digitChar (n / 16 / 16 % 16),
      Nat.digitChar (n / 16 % 16), Nat.digitChar (n % 16)] := rfl
  have hsum : 4096 * (n / 16 / 16 / 16 % 16) + 256 * (n / 16 / 16 % 16) + 16 * (n / 16 % 16) + n % 16 = n := by omega
  rw [htext]
  simp only [List.map_cons, List.map_nil, List.cons_append, List.nil_append, hex4?]
  repeat rw [hexDigit?_digitChar (Nat.mod_lt _ (by norm_num))]
  simp only [Option.bind_eq_bind, Option.bind_some, hsum]
  rfl

theorem numberedEscape?_hex {c : Char} (hc : c.toNat < 32) (rest : List CodePoint) :
    numberedEscape? ((Text.hex 4 c.toNat).map .char ++ rest) = some (.char c, rest) := by
  unfold numberedEscape?
  rw [hex4?_hex (by omega)]
  have hlow : ¬ (0xD800 ≤ c.toNat ∧ c.toNat < 0xDC00) := by omega
  have hcode : CodePoint.ofNat c.toNat = .char c := CodePoint.ofNat_toNat (.char c)
  simp only [Option.bind_eq_bind, Option.bind_some]
  rw [if_neg hlow, hcode]
  rfl

theorem textBody_escapeChar (c : Char) (fuel : ℕ) (done rest : List CodePoint) :
    textBody (fuel + 1) done ((escapeChar c).map .char ++ rest) = textBody fuel (.char c :: done) rest := by
  unfold escapeChar
  split_ifs with hquote hn hr ht hb hf hlow
  · rcases Bool.or_eq_true_iff.1 hquote with h | h <;> obtain rfl := beq_iff_eq.1 h <;> rfl
  · obtain rfl := beq_iff_eq.1 hn
    rfl
  · obtain rfl := beq_iff_eq.1 hr
    rfl
  · obtain rfl := beq_iff_eq.1 ht
    rfl
  · obtain rfl := beq_iff_eq.1 hb
    rfl
  · obtain rfl := beq_iff_eq.1 hf
    rfl
  · simp only [List.map_cons, List.cons_append]
    rw [textBody, numberedEscape?_hex hlow]
  · simp only [Bool.or_eq_true, beq_iff_eq, not_or] at hquote
    simp only [List.map_cons, List.map_nil, List.cons_append, List.nil_append]
    rw [textBody]
    · simp [hlow, hquote, CodePoint.toNat]
    · exact fun h => hquote.1 (CodePoint.char.inj h)
    · exact fun _ h _ => hquote.2 (CodePoint.char.inj h)
    · exact fun _ _ h _ => hquote.2 (CodePoint.char.inj h)

/-- **A code point is read back from what is written for it.** -/
theorem textBody_escapeCode (c : CodePoint) (fuel : ℕ) (done rest : List CodePoint) :
    textBody (fuel + 1) done (escapeCode c ++ rest) = textBody fuel (c :: done) rest := by
  cases c with
  | half i =>
    have hnumber : ¬ (CodePoint.half i).toNat < 0x20 :=
      Nat.not_lt.2 (Nat.le_trans (by decide : 0x20 ≤ CodePoint.firstHalf) (Nat.le_add_right _ _))
    rw [escapeCode, List.singleton_append, textBody]
    · simp [hnumber]
    all_goals simp
  | char c => exact textBody_escapeChar c fuel done rest

/-- **A text is read up to its closing quote.** -/
theorem textBody_flatMap (s : List CodePoint) : ∀ (done rest : List CodePoint) {fuel : ℕ}, s.length < fuel →
    textBody fuel done (s.flatMap escapeCode ++ .char '"' :: rest) = .ok (⟨done.reverse ++ s⟩, rest) := by
  induction s with
  | nil =>
    intro done rest fuel hfuel
    obtain ⟨fuel, rfl⟩ : ∃ k, fuel = k + 1 := ⟨fuel - 1, by omega⟩
    rw [List.append_nil]
    rfl
  | cons c s ih =>
    intro done rest fuel hfuel
    rw [List.length_cons] at hfuel
    obtain ⟨fuel, rfl⟩ : ∃ k, fuel = k + 1 := ⟨fuel - 1, by omega⟩
    rw [List.flatMap_cons, List.append_assoc, textBody_escapeCode, ih (c :: done) rest (by omega), List.reverse_cons,
      List.append_assoc]
    rfl

/-! ### Values -/

/-- **A text is one of the data**: it is not empty, does not begin with what may stand between values, and is read as
the data, whatever follows that does not go on with a number. -/
structure Spells (text : List CodePoint) (d : Data) : Prop where
  opens : ∃ c cs, text = c :: cs ∧ c.isIn isSpace = false ∧ c ≠ .char ']' ∧ c ≠ .char '\x7d'
  value_eq {fuel : ℕ} {rest : List CodePoint} (hfuel : text.length ≤ fuel) (hrest : Stops (·.isIn goesOn) rest) :
    value fuel (text ++ rest) = .ok (d, rest)

theorem value_eq_scalar {c : Char} (cs : List CodePoint) (hquote : c ≠ '"') (hsquare : c ≠ '[')
    (hcurly : c ≠ '\x7b') (fuel : ℕ) : value (fuel + 1) (.char c :: cs) = scalar (.char c :: cs) := by
  rw [value]
  · exact fun _ h => hquote (CodePoint.char.inj (List.cons.inj h).1)
  · exact fun _ h => hsquare (CodePoint.char.inj (List.cons.inj h).1)
  · exact fun _ h => hcurly (CodePoint.char.inj (List.cons.inj h).1)

/-- A text that begins like a word or a number is one of the data if the scalar is. -/
theorem spells_scalar {text : List Char} {d : Data} {c : Char} {cs : List Char} (htext : text = c :: cs)
    (hopens : isSpace c = false ∧ c ≠ ']' ∧ c ≠ '\x7d') (hclass : c ≠ '"' ∧ c ≠ '[' ∧ c ≠ '\x7b')
    (h : ∀ {rest}, Stops (·.isIn goesOn) rest → scalar (text.map .char ++ rest) = .ok (d, rest)) :
    Spells (text.map .char) d := by
  subst htext
  refine ⟨⟨c, cs.map .char, rfl, hopens.1, fun h => hopens.2.1 (CodePoint.char.inj h), fun h =>
    hopens.2.2 (CodePoint.char.inj h)⟩, fun {fuel rest} hfuel hrest => ?_⟩
  obtain ⟨fuel, rfl⟩ : ∃ k, fuel = k + 1 := ⟨fuel - 1, by rw [List.length_map, List.length_cons] at hfuel; omega⟩
  rw [List.map_cons, List.cons_append, value_eq_scalar _ hclass.1 hclass.2.1 hclass.2.2]
  exact h hrest

theorem spells_null : Spells ("null" : Text).codes .null :=
  spells_scalar rfl (by decide) (by decide) fun _ => rfl

theorem spells_bool (b : Bool) : Spells (if b then "true" else "false" : Text).codes (.bool b) := by
  cases b
  · exact spells_scalar rfl (by decide) (by decide) fun _ => rfl
  · exact spells_scalar rfl (by decide) (by decide) fun _ => rfl

theorem spells_infinity (neg : Bool) :
    Spells (((if neg then ['-'] else []) ++ "Infinity".toList).map .char) (.float (Binary64.infinity neg)) := by
  cases neg
  · exact spells_scalar rfl (by decide) (by decide) fun _ => rfl
  · exact spells_scalar rfl (by decide) (by decide) fun _ => rfl

/-- A numeral is a text of the number that its characters stand for. -/
theorem spells_number {s : Spelling} (hs : s.Proper) {neg : Bool} {d : Data}
    (h : numberData ((if neg then ['-'] else []) ++ s.text) s.isIntegral = .ok d) :
    Spells (((if neg then ['-'] else []) ++ s.text).map .char) d := by
  have hread : ∀ {rest}, Stops (·.isIn goesOn) rest →
      scalar (((if neg then ['-'] else []) ++ s.text).map .char ++ rest) = .ok (d, rest) := by
    intro rest hrest
    rw [scalar_text hs neg hrest, h]
    rfl
  obtain ⟨c, cs, hw, hc⟩ := Spelling.head_whole hs
  have hne : ∀ d : Char, d.isDigit = false → c ≠ d := by
    rintro d hd rfl
    rw [hc] at hd
    cases hd
  cases neg
  · have htext : (if false then ['-'] else []) ++ s.text = c :: (cs ++ (s.pointText ++ s.exponentText)) := by
      unfold Spelling.text
      rw [hw]
      rfl
    have hspace : isSpace c = false := by
      unfold isSpace
      simp only [Bool.or_eq_false_iff, beq_eq_false_iff_ne]
      exact ⟨⟨⟨hne _ (by decide), hne _ (by decide)⟩, hne _ (by decide)⟩, hne _ (by decide)⟩
    exact spells_scalar htext ⟨hspace, hne _ (by decide), hne _ (by decide)⟩
      ⟨hne _ (by decide), hne _ (by decide), hne _ (by decide)⟩ hread
  · exact spells_scalar rfl (by decide) (by decide) hread

theorem spells_int {n : ℤ} (h : Integer.hasText n = true) : Spells (Integer.render n : Text).codes (.int n) := by
  have hdata : numberData (Integer.render n).toList true = .ok (.int n) := by
    unfold numberData
    rw [if_pos rfl, Integer.ofChars?_render]
    dsimp only
    rw [if_pos (Integer.fits_render h)]
  rw [Text.codes_ofString]
  rw [Integer.toList_render] at hdata ⊢
  exact spells_number (Spelling.ofNat_proper _) hdata

theorem spells_float {x : Binary64} (h : x.isNaN = false) :
    Spells (Decimal.render numberLayout x : Text).codes (.float x) := by
  rw [Text.codes_ofString]
  rcases Binary64.read_cases h with ⟨neg, hread, hx⟩ | ⟨neg, m, q, hread⟩
  · rw [Decimal.toList_render_infinite numberLayout hread, hx]
    exact spells_infinity neg
  · obtain ⟨s, hs, hreal, -, htext, hvalue⟩ := Decimal.exists_spelling numberLayout hread
    rw [htext]
    refine spells_number hs ?_
    unfold numberData
    rw [hreal, if_neg (by decide), Spelling.ofChars?_text hs]
    dsimp only [Decimal.Literal.toBinary64]
    rw [hvalue, ← (Binary64.of_read_finite hread).1]

theorem length_le_flatMap {α β : Type} {f : α → List β} (hf : ∀ a, 0 < (f a).length) (s : List α) :
    s.length ≤ (s.flatMap f).length := by
  induction s with
  | nil => exact le_rfl
  | cons a s ih =>
    have := hf a
    rw [List.flatMap_cons, List.length_append, List.length_cons]
    omega

theorem length_escapeChar_pos (c : Char) : 0 < (escapeChar c).length := by
  unfold escapeChar
  split_ifs <;> simp

theorem length_escapeCode_pos : ∀ c : CodePoint, 0 < (escapeCode c).length
  | .half _ => Nat.one_pos
  | .char c => by
    rw [escapeCode, List.length_map]
    exact length_escapeChar_pos c

theorem codes_writeText (s : Text) :
    (writeText s).codes = .char '"' :: (s.codes.flatMap escapeCode ++ [.char '"']) := by
  unfold writeText
  simp only [Text.codes_append, List.append_assoc]
  rfl

/-- What a text in quotes is read as behind its opening quote, with the fuel that reading has there. -/
theorem textBody_writeText (s : Text) (rest : List CodePoint) :
    textBody (s.codes.flatMap escapeCode ++ .char '"' :: rest).length.succ []
      (s.codes.flatMap escapeCode ++ .char '"' :: rest) = .ok (s, rest) := by
  rw [textBody_flatMap, List.reverse_nil, List.nil_append]
  have := length_le_flatMap length_escapeCode_pos s.codes
  rw [List.length_append]
  omega

theorem spells_str (s : Text) : Spells (writeText s).codes (.str s) := by
  rw [codes_writeText]
  refine ⟨⟨.char '"', _, rfl, by decide, by decide, by decide⟩, fun {fuel rest} hfuel _ => ?_⟩
  obtain ⟨fuel, rfl⟩ : ∃ k, fuel = k + 1 := ⟨fuel - 1, by rw [List.length_cons] at hfuel; omega⟩
  rw [List.cons_append, List.append_assoc, value, List.singleton_append, textBody_writeText]
  rfl

end StackCalc.Json
