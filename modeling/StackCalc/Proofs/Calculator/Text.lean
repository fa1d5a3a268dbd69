import StackCalc.Calculator.Exchange
import StackCalc.Proofs.Calculator.Globals
import StackCalc.Proofs.Data.Conversion
import StackCalc.Proofs.Data.Json
import StackCalc.Proofs.Data.Yaml.Plain
import StackCalc.Proofs.Data.Yaml.Quoted

/-! # Values as JSON, read without a format

A text without a format is taken for JSON if it begins with a bracket or a brace, and for YAML otherwise. So what is
written for a pair goes back through the reader of JSON, and what is written for a scalar through that of YAML, as a
plain word or in quotes. `Value.deserialize_serialize` says what becomes of a value of scalars and pairs on this way.

The two readers agree on null, truth values, integers, and floats with a point. They do not on a float in exponent
form without a point or on an infinity, which are words without a meaning to YAML (`Value.deserialize_exponent`), nor
on texts with control characters above the first thirty-two, with halves of surrogate pairs or with line ends that
only YAML knows, which JSON leaves as they are.

This rests on how PyYAML 6.0.3 takes a text apart, which the definitions under `Yaml` restate: which code points it
allows, how it resolves plain scalars, and how it folds lines inside double quotes. -/

namespace StackCalc

/-! ### The values in question -/

/-- **A value of scalars and pairs**, in which every float is a number. -/
def Value.Ordinary : Value → Prop
  | .mk _ p =>
    match p with
    | .float x _ => x.isNaN = false
    | .int _ | .str _ | .bool _ | .null => True
    | .cons a b => a.Ordinary ∧ b.Ordinary
    | _ => False

/-- Every integer in the value has a text. -/
def Value.Written : Value → Prop
  | .mk _ p =>
    match p with
    | .int n => Integer.hasText n = true
    | .cons a b => a.Written ∧ b.Written
    | _ => True

theorem Value.Ordinary.basic : ∀ {v : Value}, v.Ordinary → v.Basic
  | .mk _ p, h => by
    cases p with
    | int | float | str | bool | null => trivial
    | cons a b => exact ⟨Ordinary.basic h.1, Ordinary.basic h.2⟩
    | code | callable | object | host => exact h.elim

/-- **The data is exact, or it cannot be written**, as the condition is met or not. -/
structure Json.Decides (written : Prop) (d : Data) : Prop where
  exact (h : written) : Json.Exact d
  error (h : ¬ written) (b : Json.Breaking) : Json.write b d = .error .tooManyDigits

/-- The same for items. -/
structure Json.DecidesAll (written : Prop) (ds : List Data) : Prop where
  exact (h : written) : Json.AllExact ds
  error (h : ¬ written) (b : Json.Breaking) : Json.writeAll b ds = .error .tooManyDigits

namespace Json

section
variable {p q : Prop} {d e : Data} {ds : List Data}

theorem DecidesAll.cons (hd : Decides p d) (hds : DecidesAll q ds) : DecidesAll (p ∧ q) (d :: ds) := by
  refine ⟨fun h => ⟨hd.exact h.1, hds.exact h.2⟩, fun h b => ?_⟩
  rw [writeAll]
  by_cases hp : p
  · obtain ⟨text, htext, -⟩ := exists_write b (hd.exact hp)
    rw [htext, hds.error (fun hq => h ⟨hp, hq⟩) b]
    rfl
  · rw [hd.error hp b]
    rfl

theorem Decides.list (hds : DecidesAll p ds) : Decides p (.list ds) := by
  refine ⟨fun h => hds.exact h, fun h b => ?_⟩
  rw [write, hds.error h]
  rfl

theorem Decides.pair (hd : Decides p d) (he : Decides q e) :
    Decides (p ∧ q) (.map [(.str "car", d), (.str "cdr", e)]) := by
  refine ⟨fun h => ⟨rfl, ⟨_, rfl⟩, hd.exact h.1, ⟨_, rfl⟩, he.exact h.2, trivial⟩, fun h b => ?_⟩
  have hname : ∀ name, write b.deeper (.str name) = .ok (writeText name) := fun name => by
    rw [write]
    rfl
  rw [write, writeEntries, hname]
  by_cases hp : p
  · obtain ⟨text, htext, -⟩ := exists_write b.deeper (hd.exact hp)
    rw [htext, writeEntries, hname, he.error (fun hq => h ⟨hp, hq⟩) b.deeper]
    rfl
  · rw [hd.error hp b.deeper]
    rfl

end

end Json

mutual

/-- The data of such a value is exact, unless an integer in it has no text to be written. -/
theorem Value.decides_toData : ∀ {v : Value} {d : Data}, v.Ordinary → v.toData = .ok d → Json.Decides v.Written d
  | .mk dom p, d, hv, hd => by
    unfold toData at hd
    cases p with
    | int n =>
      cases hd
      refine ⟨fun h => h, fun h b => ?_⟩
      have htext : ¬ Integer.hasText n = true := h
      unfold Json.write showInt Integer.render?
      rw [if_neg htext]
    | float x i =>
      cases hd
      exact ⟨fun _ => hv, fun h => absurd trivial h⟩
    | str s =>
      cases hd
      exact ⟨fun _ => trivial, fun h => absurd trivial h⟩
    | bool b =>
      cases hd
      exact ⟨fun _ => trivial, fun h => absurd trivial h⟩
    | null =>
      cases hd
      exact ⟨fun _ => trivial, fun h => absurd trivial h⟩
    | cons a b =>
      obtain ⟨first, hfirst, hd⟩ := exists_of_bind_ok hd
      obtain ⟨rest, hrest, hd⟩ := exists_of_bind_ok hd
      have hcar := Value.decides_toData hv.1 hfirst
      cases rest with
      | some rest =>
        cases hd
        exact .list (.cons hcar (Value.decides_toDataTail hv.2 hrest))
      | none =>
        obtain ⟨second, hsecond, hd⟩ := exists_of_bind_ok hd
        cases hd
        exact .pair hcar (Value.decides_toData hv.2 hsecond)
    | code | callable | object | host => exact hv.elim

theorem Value.decides_toDataTail : ∀ {v : Value} {ds : List Data}, v.Ordinary → v.toDataTail = .ok (some ds) →
    Json.DecidesAll v.Written ds
  | .mk dom p, ds, hv, hds => by
    unfold toDataTail at hds
    cases p with
    | null =>
      cases hds
      exact ⟨fun _ => trivial, fun h => absurd trivial h⟩
    | cons a b =>
      obtain ⟨first, hfirst, hds⟩ := exists_of_bind_ok hds
      obtain ⟨rest, hrest, hds⟩ := exists_of_bind_ok hds
      cases rest with
      | none => cases hds
      | some rest =>
        cases hds
        exact .cons (Value.decides_toData hv.1 hfirst) (Value.decides_toDataTail hv.2 hrest)
    | _ => cases hds

end

/-! ### The format that a text looks like -/

namespace TextFormat

theorem detect_eq_json {text : Text} {c : Char} {cs : List CodePoint} (htext : text.codes = .char c :: cs)
    (hc : c = '[' ∨ c = '\x7b') : detect text = json := by
  unfold detect
  rw [htext]
  rcases hc with rfl | rfl <;> rfl

theorem detect_eq_yaml {text : Text} {c : Char} {cs : List CodePoint} (htext : text.codes = .char c :: cs)
    (hblank : Text.isBlank c = false) (hc : c ≠ '[' ∧ c ≠ '\x7b') : detect text = yaml := by
  have hstops : Stops (·.isIn Text.isBlank) (.char c :: cs) := .cons hblank
  unfold detect
  rw [htext, dropWhile_of_stops hstops]
  split
  next heq => exact absurd (CodePoint.char.inj (List.cons.inj heq).1) hc.2
  next heq => exact absurd (CodePoint.char.inj (List.cons.inj heq).1) hc.1
  next => rfl

theorem detect_word {text : String} (h : Yaml.Word text.toList) : detect text = yaml := by
  obtain ⟨c, cs, htext, hc⟩ := h.head
  have hcodes : (text : Text).codes = .char c :: cs.map .char := by rw [Text.codes_ofString, htext, List.map_cons]
  have hall : ∀ d ∈ '-' :: Yaml.alphanumerics, Text.isBlank d = false ∧ d ≠ '[' ∧ d ≠ '\x7b' :=
    List.all_iff_forall_prop.1 (by decide)
  obtain ⟨hblank, hne⟩ := hall c (by
    rcases hc with hc | ⟨rfl, -⟩
    · exact List.mem_cons_of_mem _ hc
    · exact List.mem_cons_self)
  exact detect_eq_yaml hcodes hblank hne

theorem detect_writeText (s : Text) : detect (Json.writeText s) = yaml :=
  detect_eq_yaml (Json.codes_writeText s) (by decide) (by decide)

theorem detect_writeList {b : Json.Breaking} {items : List Data} {text : Text}
    (h : Json.write b (.list items) = .ok text) : detect text = json := by
  rw [Json.write] at h
  obtain ⟨texts, -, h⟩ := exists_of_bind_ok h
  obtain ⟨cs, hcs⟩ := b.exists_wrap_left "[" "]" texts
  cases h
  exact detect_eq_json hcs (.inl rfl)

theorem detect_writeMap {b : Json.Breaking} {entries : List (Data × Data)} {text : Text}
    (h : Json.write b (.map entries) = .ok text) : detect text = json := by
  rw [Json.write] at h
  obtain ⟨texts, -, h⟩ := exists_of_bind_ok h
  obtain ⟨cs, hcs⟩ := b.exists_wrap_left "\x7b" "\x7d" texts
  cases h
  exact detect_eq_json hcs (.inr rfl)

end TextFormat

/-- The text of a pair is that of a list or a mapping. -/
theorem detect_pair {dom : DomainId} {car cdr : Value} {d : Data} (hd : (Value.mk dom (.cons car cdr)).toData = .ok d)
    {b : Json.Breaking} {text : Text} (htext : Json.write b d = .ok text) : TextFormat.detect text = .json := by
  unfold Value.toData at hd
  obtain ⟨first, -, hd⟩ := exists_of_bind_ok hd
  obtain ⟨rest, -, hd⟩ := exists_of_bind_ok hd
  cases rest with
  | some rest =>
    cases hd
    exact TextFormat.detect_writeList htext
  | none =>
    obtain ⟨second, -, hd⟩ := exists_of_bind_ok hd
    cases hd
    exact TextFormat.detect_writeMap htext

/-! ### Reading without a format -/

/-- Reading the text gives the value, on any machine, but for a new cell that it may be given. -/
def Restores (text : Text) (v : Value) : Prop :=
  ∀ m : Machine, ∃ w next, (deserialize text none).outcome m = (.ok w, { m with next := next }) ∧ v.Same w

theorem restores_of_read {text : Text} {d : Data} (hread : (TextFormat.detect text).read text = .ok d) {v w : Value}
    (hvalue : d.toValue 0 = .ok w) (hsame : v.Same w) : Restores text v := by
  intro m
  obtain ⟨w', next, houtcome, hdistinct⟩ := outcome_distinguishAll w m
  refine ⟨w', next, ?_, hdistinct v hsame⟩
  unfold deserialize Calculator.ofData
  rw [Option.filter_none]
  dsimp only
  rw [hread, Run.outcome_lift_bind]
  dsimp only
  rw [hvalue, Run.outcome_lift_bind]
  exact houtcome

theorem outcome_deserialize_error {text : Text} {f : Fault} (hread : (TextFormat.detect text).read text = .error f)
    (m : Machine) : (deserialize text none).outcome m = (.error f, m) := by
  unfold deserialize
  rw [Option.filter_none]
  dsimp only
  rw [hread, Run.outcome_lift_bind]

/-! ### There and back -/

/-- **What YAML reads as JSON means it**: a pair, which is read as JSON anyway, and of scalars a float with a point in
its text, and a text of nothing but characters that JSON escapes or that YAML takes as they are. -/
def Value.Kept : Value → Prop
  | .mk _ (.float x _) => '.' ∈ (Decimal.render Json.numberLayout x).toList
  | .mk _ (.str s) => ∀ c ∈ s.codes, c.isIn (fun ch => Yaml.readable ch && (Yaml.lineEnd? ch).isNone) = true
  | _ => True

/-- **What a value is after it has been written as JSON and read without a format**; none if its text is refused. A
float without a point in its text is the text; a text with half of a pair is refused, and in others line ends are
folded. -/
def Value.returned : Value → Option Value
  | .mk dom (.float x i) =>
    let text := Decimal.render Json.numberLayout x
    some (if '.' ∈ text.toList then .mk dom (.float x i) else .mk dom (.str text))
  | .mk dom (.str s) =>
    (s.chars?.filter (·.all Yaml.readable)).bind fun cs => (Yaml.foldLine cs).map fun t => .mk dom (.str (.ofChars t))
  | v => some v

theorem Value.returned_of_kept : ∀ {v : Value}, v.Kept → v.returned = some v
  | .mk dom p, h => by
    unfold returned
    cases p with
    | float x i =>
      have hpoint : '.' ∈ (Decimal.render Json.numberLayout x).toList := h
      dsimp only
      rw [if_pos hpoint]
    | str s =>
      obtain ⟨cs, rfl, hcs⟩ := Text.exists_ofChars h
      have hchars : ∀ c ∈ cs, Yaml.readable c = true ∧ Yaml.lineEnd? c = none := fun c hc => by
        simpa using hcs c hc
      have hreadable : cs.all Yaml.readable = true := List.all_eq_true.2 fun c hc => (hchars c hc).1
      dsimp only
      rw [Text.chars?_ofChars, Option.filter_some, if_pos hreadable, Option.bind_some,
        Yaml.foldLine_of_unbroken fun c hc => (hchars c hc).2, Option.map_some]
    | _ => rfl

/-- What reading a text gives on any machine: such a value, or a fault. -/
def ReadAs (text : Text) : Option Value → Prop
  | some v => Restores text v
  | none => ∀ m : Machine, (deserialize text none).outcome m = (.error .badYaml, m)

def Value.isPair : Value → Bool
  | .mk _ (.cons ..) => true
  | _ => false

theorem Value.exists_toValue {v : Value} (hv : v.Basic) {d : Data} (hd : v.toData = .ok d) :
    ∃ w, d.toValue 0 = .ok w ∧ v.Same w := by
  let _ : Legibility := ⟨False⟩
  exact (v.returns_toData 0 False.elim hd).basic hv

theorem Value.serialize_json {v : Value} {d : Data} (hd : v.toData = .ok d) (pretty : Bool) :
    v.serialize (some "json") pretty = Json.write (if pretty then .indented 0 else .flat) d := by
  have hname : (some ("json" : Text)).bind TextFormat.ofName? = some .json := by decide +kernel
  unfold serialize
  rw [hd, hname]
  rfl

theorem detect_scalar {text : Text} {v : Value} (h : TextFormat.detect text = .yaml) (hv : v.isPair = false) :
    TextFormat.detect text = .json ↔ v.isPair = true := by
  rw [h, hv]
  exact ⟨fun h => (nomatch h), fun h => (nomatch h)⟩

/-- A word is read as the data that it spells in YAML. -/
theorem restores_word {text : String} {d : Data} (h : Yaml.Spells text d) {v w : Value} (hvalue : d.toValue 0 = .ok w)
    (hsame : v.Same w) : Restores text v := by
  refine restores_of_read ?_ hvalue hsame
  rw [TextFormat.detect_word h.word]
  exact h.read_eq

theorem readAs_word {text : String} {d : Data} (h : Yaml.Spells text d) {v u w : Value} (hv : v.isPair = false)
    (hvalue : d.toValue 0 = .ok w) (hsame : u.Same w) (hreturned : v.returned = some u) :
    (TextFormat.detect text = .json ↔ v.isPair = true) ∧ ReadAs text v.returned := by
  rw [hreturned]
  exact ⟨detect_scalar (TextFormat.detect_word h.word) hv, restores_word h hvalue hsame⟩

/-- A text in quotes is read as folding leaves the text, or refused. -/
theorem readAs_writeText (dom : DomainId) (s : Text) :
    ReadAs (Json.writeText s) (Value.mk dom (.str s)).returned := by
  have hdetect := TextFormat.detect_writeText s
  unfold Value.returned
  dsimp only
  have herror : Yaml.read (Json.writeText s) = .error .badYaml → ReadAs (Json.writeText s) none := fun h m =>
    outcome_deserialize_error (by rw [hdetect]; exact h) m
  cases hchars : s.chars? with
  | none =>
    obtain ⟨i, hi⟩ := Text.chars?_eq_none_iff.1 hchars
    exact herror (Yaml.read_writeText_half hi)
  | some cs =>
    obtain rfl := Text.eq_ofChars_of_chars? hchars
    rw [Option.filter_some]
    by_cases hreadable : cs.all Yaml.readable = true
    · have hread := Yaml.read_writeText hreadable
      rw [if_pos hreadable, Option.bind_some]
      rcases hfold : Yaml.foldLine cs with _ | t <;> rw [hfold] at hread
      · exact herror hread
      · refine restores_of_read (d := .str (.ofChars t)) ?_ rfl (.str dom 0 _)
        rw [hdetect]
        exact hread
    · rw [if_neg hreadable]
      exact herror (Yaml.read_writeText_error (Bool.eq_false_iff.2 hreadable))

/-- **What is written is read as `Value.returned` says.** -/
theorem Value.readAs_write {v : Value} (hv : v.Ordinary) (hwritten : v.Written) {d : Data} (hd : v.toData = .ok d)
    {b : Json.Breaking} {text : Text} (htext : Json.write b d = .ok text) (hspells : Json.Spells text.codes d) :
    (TextFormat.detect text = .json ↔ v.isPair = true) ∧ ReadAs text v.returned := by
  obtain ⟨w, hw, hsame⟩ := Value.exists_toValue hv.basic hd
  obtain ⟨dom, p⟩ := v
  cases p with
  | int n =>
    cases hd
    have hn : Integer.hasText n = true := hwritten
    rw [Json.write_int b hn] at htext
    cases htext
    exact readAs_word (Yaml.spells_int hn) rfl hw hsame rfl
  | bool v =>
    cases hd
    rw [Json.write_bool] at htext
    obtain rfl : text = Text.ofString (if v then "true" else "false") := by
      cases v <;> exact (Except.ok.inj htext).symm
    exact readAs_word (Yaml.spells_bool v) rfl hw hsame rfl
  | null =>
    cases hd
    rw [Json.write_null] at htext
    cases htext
    exact readAs_word Yaml.spells_null rfl hw hsame rfl
  | float x i =>
    cases hd
    rw [Json.write_float] at htext
    cases htext
    have hword := Yaml.spells_float hv rfl
    have hreturned : (Value.mk dom (.float x i)).returned =
        some (if '.' ∈ (Decimal.render Json.numberLayout x).toList then .mk dom (.float x i)
          else .mk dom (.str (Decimal.render Json.numberLayout x))) := by
      unfold Value.returned
      rfl
    by_cases hpoint : '.' ∈ (Decimal.render Json.numberLayout x).toList
    · rw [if_pos hpoint] at hword hreturned
      exact readAs_word hword rfl hw hsame hreturned
    · rw [if_neg hpoint] at hword hreturned
      exact readAs_word hword rfl rfl (.str dom 0 _) hreturned
  | str s =>
    cases hd
    rw [Json.write_str] at htext
    cases htext
    exact ⟨detect_scalar (TextFormat.detect_writeText s) rfl, readAs_writeText dom s⟩
  | cons car cdr =>
    have hdetect := detect_pair hd htext
    refine ⟨⟨fun _ => rfl, fun _ => hdetect⟩, restores_of_read ?_ hw hsame⟩
    rw [hdetect]
    exact Json.read_of_spells hspells
  | code | callable | object | host => exact hv.elim

/-- **JSON that is read without a format named comes back as far as YAML agrees with it.** A value of scalars and
pairs is written, on one line or indented, unless an integer in it has no text. The text is taken for JSON just if the
value is a pair, and it is read as `Value.returned` says: as the value itself if that is kept. That YAML is read as
PyYAML 6.0.3 reads it is assumed: `Yaml.read` says so. -/
theorem Value.deserialize_serialize {v : Value} (hv : v.Ordinary) (pretty : Bool) :
    (¬ v.Written → v.serialize (some "json") pretty = .error .tooManyDigits) ∧
    (v.Written → ∃ text, v.serialize (some "json") pretty = .ok text ∧
      (TextFormat.detect text = .json ↔ v.isPair = true) ∧ ReadAs text v.returned ∧ (v.Kept → Restores text v)) := by
  obtain ⟨d, hd⟩ := Value.exists_toData hv.basic
  have hdecides := Value.decides_toData hv hd
  rw [Value.serialize_json hd]
  set b : Json.Breaking := if pretty then .indented 0 else .flat
  refine ⟨fun h => hdecides.error h b, fun h => ?_⟩
  obtain ⟨text, htext, hspells⟩ := Json.exists_write b (hdecides.exact h)
  obtain ⟨hformat, hread⟩ := Value.readAs_write hv h hd htext hspells
  refine ⟨text, htext, hformat, hread, fun hkept => ?_⟩
  rw [Value.returned_of_kept hkept] at hread
  exact hread

/-- The text "yes" would be a truth value without its quotes. -/
theorem Value.deserialize_serialize_yes :
    let v : Value := .mk 0 (.str "yes")
    v.Ordinary ∧ ∃ text, v.serialize (some "json") true = .ok text ∧ TextFormat.detect text ≠ .json ∧
      Restores text v := by
  intro v
  have hv : v.Ordinary := trivial
  have hkept : v.Kept := show ∀ c ∈ ("yes" : Text).codes, _ from List.all_iff_forall_prop.1 (by decide)
  obtain ⟨text, htext, hformat, -, hrestores⟩ := (Value.deserialize_serialize hv true).2 trivial
  exact ⟨hv, text, htext, fun h => absurd (hformat.1 h) Bool.false_ne_true, hrestores hkept⟩

theorem Value.not_same_float_of_str {dom dom' : DomainId} {i : Nat} {x : Binary64} {s : Text} {w : Value}
    (h : (Value.mk dom (.str s)).Same w) : ¬ (Value.mk dom' (.float x i)).Same w := by
  cases h
  intro h
  cases h

/-- The float ten to the sixteenth is written with an exponent and no point, so it comes back as a text. -/
theorem Value.deserialize_exponent :
    let v : Value := .mk 0 (.float ⟨0x4341C37937E08000⟩ 0)
    v.Ordinary ∧ v.serialize (some "json") false = .ok "1e+16" ∧
      ∀ m : Machine, ∃ w m', (deserialize "1e+16" none).outcome m = (.ok w, m') ∧ ¬ v.Same w := by
  intro v
  have hnan : (⟨0x4341C37937E08000⟩ : Binary64).isNaN = false := by decide
  have hrender : Decimal.render Json.numberLayout ⟨0x4341C37937E08000⟩ = "1e+16" := by decide +kernel
  have hword := Yaml.spells_float hnan hrender
  have hpoint : '.' ∉ "1e+16".toList := by decide
  rw [if_neg hpoint] at hword
  refine ⟨hnan, ?_, fun m => ?_⟩
  · rw [Value.serialize_json (v := v) rfl, ← hrender]
    exact Json.write_float _ _
  · obtain ⟨w, next, houtcome, hsame⟩ := restores_word hword rfl (.str 0 0 _) m
    refine ⟨w, _, houtcome, fun hsame' => ?_⟩
    exact Value.not_same_float_of_str hsame hsame'

end StackCalc
