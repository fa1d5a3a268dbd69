import StackCalc.Proofs.Fault.Expected
import StackCalc.Proofs.Value.Hereditary
import StackCalc.Machine.Call

/-! # What functions of values may end in

The functions that take values and give values back, texts of values, data and templates: what they make of
values with a hereditary property has it as well, and their faults are ordinary. A text can only be missing
for an integer with too many digits. -/

namespace StackCalc

/-! ### Members -/

/-- The forms of members have what each of them has that there is. -/
theorem Members.yields_forms [Tolerance] {α : Type} {P : α → Prop} {entries : List (Text × Except Fault α)}
    (h : ∀ e ∈ entries, Yields P e.2) : Yields (fun found => ∀ e ∈ found, P e.2) (Members.forms entries) := by
  refine Yields.mapM fun e he => ?_
  have hfound : Yields P ((entries.lookup e.1).getD e.2) := by
    rcases hlookup : entries.lookup e.1 with _ | r
    · exact h e he
    · obtain ⟨before, after, hentries, -⟩ := List.lookup_eq_some_iff.1 hlookup
      exact h (e.1, r) (hentries ▸ List.mem_append_right before List.mem_cons_self)
  exact hfound.bind fun a ha => .pure ha

theorem Members.ends_forms [Tolerance] {α : Type} {entries : List (Text × Except Fault α)}
    (h : ∀ e ∈ entries, Ends e.2) :
    Ends (Members.forms entries) :=
  (Members.yields_forms h).ends

section Texts
variable [TextTolerance]

/-! ### Texts -/

theorem ends_showInt (n : Int) : Ends (showInt n) := by
  unfold showInt
  split
  · exact Ends.ok _
  · exact .error TextTolerance.tooManyDigits

mutual

theorem Value.ends_shown (names : Naming) (v : Value) : Ends (v.shown names) := by
  cases v with
  | mk d p =>
    unfold Value.shown
    exact (p.ends_shown names).bind fun _ => Ends.pure _

theorem Payload.ends_shown (names : Naming) : ∀ p : Payload, Ends (p.shown names)
  | .int n => by
    unfold Payload.shown
    exact ends_showInt n
  | .cons a b => by
    unfold Payload.shown
    exact (a.ends_shown names).bind fun _ => (b.ends_shown names).bind fun _ => Ends.pure _
  | .code c => by
    unfold Payload.shown
    exact c.ends_shown names
  | .float _ _ | .str _ | .bool _ | .null | .callable _ | .object _ | .host .. => by
    unfold Payload.shown
    exact Ends.pure _

theorem Code.ends_shown (names : Naming) : ∀ c : Code, Ends (c.shown names)
  | .mk _ steps => by
    unfold Code.shown
    exact (ends_showSteps names steps).bind fun _ => Ends.pure _

theorem Instr.ends_shown (names : Naming) : ∀ i : Instr, Ends (i.shown names)
  | .push v => by
    unfold Instr.shown
    exact (v.ends_shown names).bind fun _ => Ends.pure _
  | .get _ | .call .. | .binary _ | .unary _ | .closure .. => by
    unfold Instr.shown
    exact Ends.pure _

theorem ends_showSteps (names : Naming) (steps : List Instr) : Ends (showSteps names steps) := by
  cases steps with
  | nil => exact Ends.pure _
  | cons i steps =>
    unfold showSteps
    exact (i.ends_shown names).bind fun _ => (ends_showSteps names steps).bind fun _ => Ends.pure _

end

mutual

theorem Value.ends_written (v : Value) : Ends v.written := by
  cases v with
  | mk d p => exact p.ends_written

theorem Payload.ends_written : ∀ p : Payload, Ends p.written
  | .int n => by
    unfold Payload.written
    exact ends_showInt n
  | .cons a b => by
    unfold Payload.written
    refine b.ends_writtenTail.bind fun items => ?_
    cases items with
    | some items => exact a.ends_written.bind fun _ => Ends.pure _
    | none => exact a.ends_written.bind fun _ => b.ends_written.bind fun _ => Ends.pure _
  | .object c => c.ends_written
  | .float _ _ | .str _ | .bool _ | .null | .code _ | .callable _ | .host .. => by
    unfold Payload.written
    exact Ends.pure _

theorem Value.ends_writtenTail (v : Value) : Ends v.writtenTail := by
  cases v with
  | mk d p => exact p.ends_writtenTail

theorem Payload.ends_writtenTail : ∀ p : Payload, Ends p.writtenTail
  | .cons a b => by
    unfold Payload.writtenTail
    refine b.ends_writtenTail.bind fun items => ?_
    cases items with
    | some items => exact a.ends_written.bind fun _ => Ends.pure _
    | none => exact Ends.pure _
  | .int _ | .float _ _ | .str _ | .bool _ | .null | .code _ | .callable _ | .object _ | .host .. => by
    unfold Payload.writtenTail
    exact Ends.pure _

theorem Composite.ends_written : ∀ c : Composite, Ends c.written
  | .record t vs => by
    unfold Composite.written
    exact (Members.ends_forms fun e he => ends_writtenEach vs e.2 (List.of_mem_zip he).2).bind fun _ => Ends.pure _
  | .host _ _ n traits => by
    unfold Composite.written
    refine (ends_writtenMembers traits).bind fun items => ?_
    cases items <;> exact Ends.pure _
  | .struct _ | .pattern .. | .binder .. | .construction .. => by
    unfold Composite.written
    exact Ends.pure _

theorem ends_writtenMembers : ∀ traits : List Trait, Ends (writtenMembers traits)
  | [] => Ends.pure _
  | .members _ entries :: _ => by
    unfold writtenMembers
    exact (Members.ends_forms (ends_writtenEntries entries)).bind fun _ => Ends.pure _
  | .hiddenMembers _ :: _ => Ends.pure _
  | .repeats _ :: rest => by
    unfold writtenMembers
    exact ends_writtenMembers rest
  | .counts :: rest => by
    unfold writtenMembers
    exact ends_writtenMembers rest

theorem ends_writtenEntries : ∀ entries : List (Text × Value), ∀ e ∈ writtenEntries entries, Ends e.2
  | [] => fun _ he => by cases he
  | (_, v) :: rest => by
    unfold writtenEntries
    exact List.forall_mem_cons.2 ⟨v.ends_written, ends_writtenEntries rest⟩

theorem ends_writtenEach : ∀ vs : List Value, ∀ r ∈ writtenEach vs, Ends r
  | [] => fun _ hr => by cases hr
  | v :: vs => by
    unfold writtenEach
    exact List.forall_mem_cons.2 ⟨v.ends_written, ends_writtenEach vs⟩

end

mutual

theorem Data.ends_shown (names : Naming) : ∀ d : Data, Ends (d.shown names)
  | .int n | .subInt _ n => by
    unfold Data.shown
    exact ends_showInt n
  | .list items | .tuple items | .subList _ items => by
    unfold Data.shown
    exact (Data.ends_showAll names items).bind fun _ => Ends.pure _
  | .map entries => by
    unfold Data.shown
    exact (Data.ends_showEntries names entries).bind fun _ => Ends.pure _
  | .value v => by
    unfold Data.shown
    exact v.ends_shown names
  | .code c => by
    unfold Data.shown
    exact c.ends_shown names
  | .pair a b => by
    unfold Data.shown
    exact (Payload.cons a b).ends_shown names
  | .float _ | .subFloat .. | .str _ | .subStr .. | .bool _ | .null | .other .. | .cycle _ => by
    unfold Data.shown
    exact Ends.pure _

theorem Data.ends_showAll (names : Naming) : ∀ ds : List Data, Ends (Data.showAll names ds)
  | [] => Ends.pure _
  | d :: ds => by
    unfold Data.showAll
    exact (d.ends_shown names).bind fun _ => (Data.ends_showAll names ds).bind fun _ => Ends.pure _

theorem Data.ends_showEntries (names : Naming) : ∀ entries : List (Data × Data), Ends (Data.showEntries names entries)
  | [] => Ends.pure _
  | (k, v) :: rest => by
    unfold Data.showEntries
    refine (k.ends_shown names).bind fun _ => (v.ends_shown names).bind fun _ => ?_
    exact (Data.ends_showEntries names rest).bind fun _ => Ends.pure _

end

theorem Data.ends_text (d : Data) : Ends d.text := by
  unfold Data.text
  split
  · exact Ends.pure _
  · exact d.ends_shown _

theorem ends_showStack (names : Naming) (vs : List Value) : Ends (showStack names vs) := by
  unfold showStack showValues
  refine Ends.bind ?_ fun _ => Ends.pure _
  refine Ends.bind ?_ fun _ => Ends.pure _
  exact (Yields.mapM fun v _ => v.ends_shown names).ends

theorem ends_printed (v : Value) : Ends (printed v) := by
  unfold printed
  split
  · exact Ends.ok _
  · exact v.ends_written

/-! ### Faults that quote values -/

theorem Value.tolerated_faultWith {cause : Text → Fault} (h : ∀ s, (cause s).Tolerated) (v : Value) :
    (v.faultWith cause).Tolerated := by
  unfold Value.faultWith
  rcases hs : v.shown Naming.standard with f | s
  · exact (hs ▸ v.ends_shown _).of_error
  · exact h s

theorem Value.tolerated_faultWith2 {cause : Text → Text → Fault} (h : ∀ s t, (cause s t).Tolerated) (v w : Value) :
    (v.faultWith2 cause w).Tolerated := by
  unfold Value.faultWith2
  rcases hs : v.shown Naming.standard with f | s
  · exact (hs ▸ v.ends_shown _).of_error
  · rcases ht : w.shown Naming.standard with f | t
    · exact (ht ▸ w.ends_shown _).of_error
    · exact h s t

end Texts

/-- The text of a value is missing only if it has an integer with too many digits, -/
theorem Value.eq_tooManyDigits_of_shown {names : Naming} {v : Value} {f : Fault} (h : v.shown names = .error f) :
    f = .tooManyDigits :=
  Fault.eq_tooManyDigits_of_ends (fun _ => v.ends_shown names) h

/-- and so is the text of data. -/
theorem Data.eq_tooManyDigits_of_shown {names : Naming} {d : Data} {f : Fault} (h : d.shown names = .error f) :
    f = .tooManyDigits :=
  Fault.eq_tooManyDigits_of_ends (fun _ => d.ends_shown names) h

variable [OrdinaryTolerance]

theorem Value.tolerated_wrongKind (names : Naming) (k : Kind) (context : Option Text) (v : Value) :
    (v.wrongKind names k context).Tolerated := by
  unfold Value.wrongKind
  rcases hs : v.payload.shown names with f | s
  · exact (hs ▸ v.payload.ends_shown _).of_error
  · exact .ordinary rfl

theorem Value.tolerated_unwanted (k : Kind) (context : Text) (v : Value) : (v.unwanted k context).Tolerated :=
  v.tolerated_wrongKind _ _ _

theorem tolerated_unconvertible (target : Text) (p : Payload) : (Convert.unconvertible target p).Tolerated := by
  unfold Convert.unconvertible
  rcases hs : p.shown Naming.standard with f | s
  · exact (hs ▸ p.ends_shown _).of_error
  · exact .ordinary rfl

theorem tolerated_notDecomposable (v : Value) : (notDecomposable v).Tolerated := by
  unfold notDecomposable
  rcases hs : v.shown Naming.standard with f | s
  · exact (hs ▸ v.ends_shown _).of_error
  · exact .ordinary rfl

theorem tolerated_noDataForm (v : Value) : (noDataForm v).Tolerated := by
  unfold noDataForm
  rcases hs : v.shown Naming.standard with f | s
  · exact (hs ▸ v.ends_shown _).of_error
  · exact .ordinary rfl

theorem tolerated_noValueForm (d : Data) : (noValueForm d).Tolerated := by
  unfold noValueForm
  rcases hs : d.shown Naming.standard with f | s
  · exact (hs ▸ d.ends_shown _).of_error
  · exact .ordinary rfl

/-! ### Values that have to be of a kind -/

theorem Value.ends_wantText (context : Text) (v : Value) : Ends (v.wantText context) := by
  unfold Value.wantText
  split
  · exact Ends.ok _
  · exact .error (v.tolerated_unwanted _ _)

theorem Value.yields_wantCode (context : Text) (v : Value) :
    Yields (fun c => v.payload = .code c) (v.wantCode context) := by
  unfold Value.wantCode
  split
  next c hc => exact .ok hc
  next => exact .error (v.tolerated_unwanted _ _)

theorem Value.yields_wantPair (context : Text) (v : Value) :
    Yields (fun p => v.payload = .cons p.1 p.2) (v.wantPair context) := by
  unfold Value.wantPair
  split
  next a b hab => exact .ok hab
  next => exact .error (v.tolerated_unwanted _ _)

theorem Value.yields_wantObject (context : Text) (v : Value) :
    Yields (fun c => v.payload = .object c) (v.wantObject context) := by
  unfold Value.wantObject
  split
  next c hc => exact .ok hc
  next => exact .error (v.tolerated_unwanted _ _)

theorem yields_wantPattern (v : Value) :
    Yields (fun p => ∃ serial, v.payload = .object (.pattern serial p)) (wantPattern v) := by
  refine (v.yields_wantObject _).bind fun c hc => ?_
  cases c with
  | pattern serial p => exact .ok ⟨serial, hc⟩
  | _ => exact .ordinary rfl

theorem ends_structParts (vs : List Value) : Ends (structParts vs) := by
  cases vs with
  | nil => exact .ordinary rfl
  | cons v vs =>
    refine (v.ends_wantText _).bind fun name => ?_
    refine (Yields.mapM fun w _ => w.ends_wantText _).ends.bind fun fields => ?_
    exact Yields.ite (fun _ => Ends.pure _) fun _ => .ordinary rfl

/-! ### Operators -/

variable {P : Value → Prop} [Value.Hereditary P]

namespace Operator

/-- Payloads that arithmetic results in are numbers. -/
theorem yields_arithmetic (op : BinaryOp) {onInts : Int → Int → Except Fault Payload}
    {onFloats : Binary64 → Binary64 → Except Fault Payload}
    (hInts : ∀ m n, Yields (fun p => p.isScalar = true) (onInts m n))
    (hFloats : ∀ x y, Yields (fun p => p.isScalar = true) (onFloats x y)) (a b : Value) :
    Yields P (arithmetic op onInts onFloats a b) := by
  unfold arithmetic
  split
  · exact (hInts _ _).map fun _ => Value.Hereditary.own
  · exact (hFloats _ _).map fun _ => Value.Hereditary.own
  · exact .error (a.tolerated_faultWith2 (fun _ _ => .ordinary rfl) b)

theorem yields_ofFloat? (x : Option Binary64) : Yields (fun p => p.isScalar = true) (ofFloat? x) := by
  cases x with
  | some x => exact .ok rfl
  | none => exact .ordinary rfl

theorem yields_comparison (op : BinaryOp) (onInts : Int → Int → Bool) (onFloats : Binary64 → Binary64 → Bool)
    (onTexts : Text → Text → Bool) (a b : Value) :
    Yields P (comparison op onInts onFloats onTexts a b) := by
  unfold comparison
  split
  · exact .ok (Value.Hereditary.own rfl)
  · exact .ok (Value.Hereditary.own rfl)
  · exact .ok (Value.Hereditary.own rfl)
  · exact .error (a.tolerated_faultWith2 (fun _ _ => .ordinary rfl) b)

theorem yields_add (a b : Value) : Yields P (add a b) := by
  unfold add
  split
  · exact .ok (Value.Hereditary.own rfl)
  · exact yields_arithmetic _ (fun _ _ => .ok rfl) (fun _ _ => .ok rfl) a b

theorem yields_member {target : Value} (h : P target) (key : Value) : Yields P (member target key) := by
  unfold member
  refine (key.ends_wantText _).bind fun name => ?_
  split
  next c m _ hm =>
    split
    next v hv => exact .ok (Bindings.forall_of_lookup (Value.Hereditary.members h hm) hv)
    next => exact .ordinary rfl
  next => exact .error (target.tolerated_faultWith fun _ => .ordinary rfl)

/-- **The value of a binary operator.** Only the compiler knows what to do with a marker. -/
theorem yields_binary {op : BinaryOp} (hop : op.isMarker = true → ∀ id, (Fault.markerOperator id).Tolerated)
    {a b : Value} (ha : P a) (hb : P b) : Yields P (binary op a b) := by
  cases op with
  | add => exact yields_add a b
  | sub | mul => exact yields_arithmetic _ (fun _ _ => .ok rfl) (fun _ _ => .ok rfl) a b
  | div =>
    refine yields_arithmetic _ (fun m n => ?_) (fun x y => ?_) a b
    · exact Yields.ite (fun _ => .ordinary rfl) fun _ => yields_ofFloat? _
    · exact Yields.ite (fun _ => .ordinary rfl) fun _ => .ok rfl
  | mod =>
    refine yields_arithmetic _ (fun m n => ?_) (fun x y => ?_) a b
    · exact Yields.ite (fun _ => .ordinary rfl) fun _ => .ok rfl
    · exact Yields.ite (fun _ => .ordinary rfl) fun _ => .ok rfl
  | eq | ne | and | or => exact .ok (Value.Hereditary.own rfl)
  | lt | le | gt | ge => exact yields_comparison _ _ _ _ a b
  | cons => exact .ok (Value.Hereditary.cons.2 ⟨ha, hb⟩)
  | dot => exact yields_member ha b
  | lambda | split => exact .error (hop rfl _)

theorem yields_unary (op : UnaryOp) (a : Value) : Yields P (unary op a) := by
  cases op with
  | neg =>
    dsimp only [unary]
    split
    · exact .ok (Value.Hereditary.own rfl)
    · exact .ok (Value.Hereditary.own rfl)
    · exact .error (a.tolerated_faultWith fun _ => .ordinary rfl)
  | not => exact .ok (Value.Hereditary.own rfl)

end Operator

/-! ### Conversions -/

namespace Convert

theorem yields_toInt (v : Value) : Yields P (toInt v) := by
  unfold toInt
  split
  · exact .ok (Value.Hereditary.own rfl)
  · exact .ok (Value.Hereditary.own rfl)
  · split
    · exact .ok (Value.Hereditary.own rfl)
    · exact .error (tolerated_unconvertible _ _)
  · split
    · exact .ok (Value.Hereditary.own rfl)
    · exact .error (tolerated_unconvertible _ _)
  · exact .error (v.tolerated_faultWith fun _ => .ordinary rfl)

theorem yields_toFloat (v : Value) : Yields P (toFloat v) := by
  unfold toFloat
  split
  · exact (Operator.yields_ofFloat? _).map fun _ => Value.Hereditary.own
  · exact (Operator.yields_ofFloat? _).map fun _ => Value.Hereditary.own
  · exact .ok (Value.Hereditary.own rfl)
  · split
    · exact .ok (Value.Hereditary.own rfl)
    · exact .error (tolerated_unconvertible _ _)
  · exact .error (v.tolerated_faultWith fun _ => .ordinary rfl)

theorem yields_toText {v : Value} (h : P v) : Yields P (toText v) := by
  unfold toText
  split
  · exact .ok h
  · exact v.ends_written.bind fun _ => .ok (Value.Hereditary.own rfl)

end Convert

/-! ### Data forms -/

mutual

theorem Value.ends_toData (v : Value) : Ends v.toData := by
  cases v with
  | mk d p =>
    unfold Value.toData
    cases p with
    | cons a b =>
      refine a.ends_toData.bind fun first => b.ends_toDataTail.bind fun rest => ?_
      cases rest with
      | some rest => exact Ends.pure _
      | none => exact b.ends_toData.bind fun _ => Ends.pure _
    | object c =>
      refine c.ends_toDataEntries.bind fun entries => ?_
      cases entries with
      | some entries => exact Ends.pure _
      | none => exact .error (tolerated_noDataForm _)
    | int _ | float _ _ | str _ | bool _ | null => exact Ends.pure _
    | code _ | callable _ | host => exact .error (tolerated_noDataForm _)

theorem Value.ends_toDataTail (v : Value) : Ends v.toDataTail := by
  cases v with
  | mk d p =>
    unfold Value.toDataTail
    cases p with
    | cons a b => exact a.ends_toData.bind fun first => b.ends_toDataTail.bind fun _ => Ends.pure _
    | _ => exact Ends.pure _

theorem Composite.ends_toDataEntries : ∀ c : Composite, Ends c.toDataEntries
  | .record t vs => by
    unfold Composite.toDataEntries
    exact (Members.ends_forms fun e he => ends_toDataEach vs e.2 (List.of_mem_zip he).2).bind fun _ => Ends.pure _
  | .host _ _ _ traits => ends_toDataTraits traits
  | .struct _ | .pattern .. | .binder .. | .construction .. => by
    unfold Composite.toDataEntries
    exact Ends.pure _

theorem ends_toDataTraits : ∀ traits : List Trait, Ends (toDataTraits traits)
  | [] => Ends.pure _
  | .members _ entries :: _ => by
    unfold toDataTraits
    exact (Members.ends_forms (ends_toDataMembers entries)).bind fun _ => Ends.pure _
  | .hiddenMembers _ :: _ => Ends.pure _
  | .repeats _ :: rest => by
    unfold toDataTraits
    exact ends_toDataTraits rest
  | .counts :: rest => by
    unfold toDataTraits
    exact ends_toDataTraits rest

theorem ends_toDataMembers : ∀ entries : List (Text × Value), ∀ e ∈ toDataMembers entries, Ends e.2
  | [] => fun _ he => by cases he
  | (_, v) :: rest => by
    unfold toDataMembers
    exact List.forall_mem_cons.2 ⟨v.ends_toData, ends_toDataMembers rest⟩

theorem ends_toDataEach : ∀ vs : List Value, ∀ r ∈ toDataEach vs, Ends r
  | [] => fun _ hr => by cases hr
  | v :: vs => by
    unfold toDataEach
    exact List.forall_mem_cons.2 ⟨v.ends_toData, ends_toDataEach vs⟩

end

mutual

/-- Data that is taken apart is made of scalars and pairs, so the value that it stands for has any property that is
handed down. -/
theorem Data.yields_toValue (id : DomainId) : ∀ d : Data, Yields P (d.toValue id)
  | .list items | .tuple items | .subList _ items => by
    unfold Data.toValue
    exact Data.yields_toValueList id items
  | .map [(k, v), (l, w)] => by
    unfold Data.toValue
    refine Yields.ite (fun _ => ?_) fun _ => Yields.ite (fun _ => ?_) fun _ => .error (tolerated_noValueForm _)
    · exact (v.yields_toValue id).bind fun a ha => (w.yields_toValue id).bind fun b hb =>
        .pure (Value.Hereditary.cons.2 ⟨ha, hb⟩)
    · exact (w.yields_toValue id).bind fun a ha => (v.yields_toValue id).bind fun b hb =>
        .pure (Value.Hereditary.cons.2 ⟨ha, hb⟩)
  | .map [] | .map [_] | .map (_ :: _ :: _ :: _) | .value _ | .code _ | .pair .. | .other .. =>
    .error (tolerated_noValueForm _)
  | .int _ | .float _ | .str _ | .bool _ | .null => .ok (Value.Hereditary.scalar id rfl)
  | .subInt .. | .subFloat .. | .subStr .. | .cycle _ => .ordinary rfl

theorem Data.yields_toValueList (id : DomainId) : ∀ items : List Data, Yields P (Data.toValueList id items)
  | [] => .ok (Value.Hereditary.scalar id rfl)
  | item :: rest => by
    unfold Data.toValueList
    refine (Data.yields_toValueList id rest).bind fun tail htail => ?_
    exact (item.yields_toValue id).bind fun v hv => .pure (Value.Hereditary.cons.2 ⟨hv, htail⟩)

end

theorem Domain.yields_payload? (id : DomainId) {k : Kind} {d : Data} (h : d.Holds P) :
    Yields (fun r => ∀ p, r = some p → P (.mk id p)) (Domain.payload? Naming.standard k d) := by
  have hsome : ∀ {p : Payload}, P (.mk id p) → ∀ q, some p = some q → P (.mk id q) := fun hp q hq =>
    Option.some.inj hq ▸ hp
  have hscalar : ∀ {p : Payload}, p.isScalar = true → ∀ q, some p = some q → P (.mk id q) := fun hp =>
    hsome (Value.Hereditary.scalar id hp)
  unfold Domain.payload?
  split
  · exact .ok (hscalar rfl)
  · exact .ok (hscalar rfl)
  · exact .ok (hscalar rfl)
  · exact .ok (hscalar rfl)
  · exact .ok (hscalar rfl)
  · exact .ok (hsome (Value.Hereditary.cons.2 h))
  · exact .ok (hsome (h id))
  · exact (Data.ends_shown _ _).bind fun _ => .pure (hscalar rfl)
  · exact (Data.ends_shown _ _).bind fun _ => .pure (hscalar rfl)
  · exact (Data.ends_shown _ _).bind fun _ => .pure (hscalar rfl)
  · exact .ok fun q hq => by cases hq

/-- A value is passed through, and other data make a payload. -/
theorem Domain.yields_wrap (id : DomainId) (dom : Domain) {d : Data} (h : d.Holds P) :
    Yields P (Domain.wrap Naming.standard id dom d) := by
  unfold Domain.wrap
  split
  next v =>
    refine Yields.ite (fun _ => .pure h) fun _ => ?_
    exact (v.ends_shown _).bind fun _ => .ordinary rfl
  next =>
    split
    next k _ =>
      unfold Domain.create
      split
      · exact .ordinary rfl
      · refine (Domain.yields_payload? id h).bind fun r hr => ?_
        cases r with
        | some p => exact .pure (hr p rfl)
        | none => exact (d.ends_shown _).bind fun _ => .ordinary rfl
    · exact (d.ends_shown _).bind fun _ => .ordinary rfl

/-! ### Templates -/

namespace Template

theorem ends_newDelimiters (key : List CodePoint) : Ends (newDelimiters key) := by
  unfold newDelimiters
  split
  · exact Ends.ok _
  · exact .ordinary rfl

theorem ends_applyTag (mark : Mark) (key : List CodePoint) (s : Scan) : Ends (applyTag mark key s) := by
  unfold applyTag
  cases mark with
  | endSection =>
    dsimp only
    split
    · exact Yields.ite (fun _ => Ends.ok _) fun _ => .ordinary rfl
    · exact .ordinary rfl
  | delimiters => exact (ends_newDelimiters key).bind fun _ => Ends.pure _
  | _ => exact Ends.ok _

theorem ends_scan : ∀ (fuel : Nat) (s : Scan) (cs : List CodePoint), Ends (scan fuel s cs)
  | 0, _, _ => Ends.ok _
  | fuel + 1, s, cs => by
    unfold scan
    split
    · exact Ends.ok _
    · refine Ends.bind ?_ fun r => ends_scan fuel r.1 r.2
      exact (ends_applyTag _ _ _).bind fun _ => Ends.pure _

mutual

theorem Piece.ends_render (stack : List Data) : ∀ p : Piece, Ends (p.render stack)
  | .text s => Ends.ok _
  | .value key => by
    unfold Piece.render
    exact Data.ends_text _
  | .part inverted key body => by
    unfold Piece.render
    refine Yields.ite (fun _ => Yields.ite (fun _ => Ends.ok _) fun _ => ends_renderAll stack body) fun _ => ?_
    refine Ends.bind ?_ fun _ => Ends.pure _
    exact (Yields.mapM fun item _ => ends_renderAll (item :: stack) body).ends

theorem ends_renderAll (stack : List Data) : ∀ ps : List Piece, Ends (renderAll stack ps)
  | [] => Ends.ok _
  | p :: ps => by
    unfold renderAll
    exact (p.ends_render stack).bind fun _ => (ends_renderAll stack ps).bind fun _ => Ends.pure _

end

theorem ends_render (source : Text) (context : List (Data × Data)) : Ends (render source context) :=
  (ends_scan _ _ _).bind fun _ => ends_renderAll _ _

end Template

theorem ends_templateData (v : Value) : Ends (templateData v) := by
  unfold templateData
  split
  · exact Ends.ok _
  · refine v.ends_toData.bind fun d => ?_
    split
    · exact Ends.pure _
    · exact .error (v.tolerated_faultWith fun _ => .ordinary rfl)

/-! ### Functions of values -/

theorem Builtin.yields_value_one {b : Builtin} (hb : b.arity? = some 1) {v : Value} (h : P v) :
    Yields P (b.value [v]) := by
  cases b with
  | bool => exact .ok (Value.Hereditary.own rfl)
  | type => exact .ok (Value.Hereditary.own rfl)
  | car => exact (v.yields_wantPair _).bind fun p hp => .pure (Value.Hereditary.pair h hp).1
  | cdr => exact (v.yields_wantPair _).bind fun p hp => .pure (Value.Hereditary.pair h hp).2
  | int => exact Convert.yields_toInt v
  | float => exact Convert.yields_toFloat v
  | str => exact Convert.yields_toText h
  | _ => cases hb

theorem Builtin.yields_value_two {b : Builtin} (hb : b.arity? = some 2) {v w : Value} (hv : P v) (hw : P w) :
    Yields P (b.value [v, w]) := by
  cases b with
  | cons => exact .ok (Value.Hereditary.cons.2 ⟨hv, hw⟩)
  | template =>
    refine (v.ends_wantText _).bind fun source => (ends_templateData w).bind fun context => ?_
    exact (Template.ends_render source context).bind fun _ => .pure (Value.Hereditary.own rfl)
  | _ => cases hb

omit [OrdinaryTolerance] in
theorem Builtin.arity?_cases {b : Builtin} {n : Nat} (hb : b.arity? = some n) : n = 1 ∨ n = 2 := by
  cases b <;> simp only [Builtin.arity?, Option.some.injEq, reduceCtorEq] at hb <;> omega

/-- **The functions whose value depends on their arguments alone**, given as many as they take. -/
theorem Builtin.yields_value {b : Builtin} {n : Nat} (hb : b.arity? = some n) {given : List Value}
    (hlen : given.length = n) (h : ∀ v ∈ given, P v) : Yields P (b.value given) := by
  rcases Builtin.arity?_cases hb with rfl | rfl
  · obtain ⟨v, rfl⟩ := List.length_eq_one_iff.1 hlen
    exact Builtin.yields_value_one hb (h v List.mem_cons_self)
  · match given, hlen, h with
    | [v, w], _, h =>
      exact Builtin.yields_value_two hb (h v List.mem_cons_self) (h w (List.mem_cons_of_mem v List.mem_cons_self))

/-- A template that sets one delimiter. -/
example : raised? (Builtin.template.value [.own (.str "\x7b\x7b=x=\x7d\x7d"), .own .null]) =
    some .missingDelimiter := by cbv

end StackCalc
