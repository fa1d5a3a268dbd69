import StackCalc.Proofs.Machine.Closure
import StackCalc.Proofs.Machine.Declaration
import StackCalc.Proofs.Machine.Lasting
import StackCalc.Proofs.Pattern.Inverse
import StackCalc.Proofs.Scope.Lookup
import StackCalc.Value.Written

/-! # Records

A record type is declared with different names for its fields, and its records keep one value a field, by place.
There are many ways to get at the values: by name, with a dot or from code that has the members in scope; by place,
with a pattern; all at once, in the text of the record or in a comparison. They all see the same
(`StructType.Views`), which comes down to names and places going together: of different names each is found at its
own place (`lookup_zip`).

What a dot finds is pushed like any result of an operator, and one that is not a number gets a cell there if it has
none yet (`Value.Settles`). -/

namespace StackCalc

/-- The record of a type with these values. -/
def StructType.record (t : StructType) (vs : List Value) : Value := .own (.object (.record t vs))

/-- The constructor of a type. -/
def StructType.constructor (t : StructType) : Value := .own (.object (.struct t))

/-! ### Declaring a type -/

section
variable {given : List Value} {f : Frame} {m : Machine} {s : List Value} (hm : m.storage = given.reverse ++ s)
  (hbase : f.view.base ≤ s.length)
include hm hbase

/-- A declaration takes its texts off the stack, and then the parts are looked at. -/
theorem outcome_callStruct_eq : (callStruct f (some given.length) (some 1)).outcome m =
    (match structParts given with
    | .ok (name, fields) => do
      Run.note (.declared name fields)
      Run.push (← Run.object fun serial => .struct ⟨serial, name, fields⟩)
    | .error e => throw e : Run Unit).outcome { m with storage := s } := by
  have htake : (takeArguments f (some given.length)).outcome m = (.ok given, { m with storage := s }) :=
    Run.outcome_take_append hm hbase
  rw [callStruct, callSingle_eq, Run.wants_self, pure_bind, bind_assoc, Run.outcome_bind_of_ok htake, bind_assoc,
    Run.outcome_lift_bind]
  rcases structParts given with e | ⟨name, fields⟩
  · rfl
  · dsimp only
    rw [bind_assoc]

variable {name : Text} {fields : List Text} (h : List.Forall₂ Value.IsText given (name :: fields))
include h

theorem outcome_callStruct (hnodup : fields.Nodup) : ∃ log,
    (callStruct f (some given.length) (some 1)).outcome m = (.ok (), { m with
      storage := StructType.constructor ⟨m.next, name, fields⟩ :: s, next := m.next + 1, log := log }) := by
  obtain ⟨log, hlog⟩ := Run.outcome_note (.declared name fields) { m with storage := s }
  refine ⟨log, ?_⟩
  rw [outcome_callStruct_eq hm hbase, structParts_texts h, if_pos hnodup]
  exact Run.outcome_bind_of_ok hlog

theorem outcome_callStruct_of_duplicates (hdup : ¬fields.Nodup) :
    (callStruct f (some given.length) (some 1)).outcome m =
      (.error (.duplicateFields name (showList (fields.map Text.quoted))), { m with storage := s }) := by
  rw [outcome_callStruct_eq hm hbase, structParts_texts h, if_neg hdup]
  rfl

end

/-! ### Making a record -/

theorem callAt_constructor (t : StructType) (depth : Nat) (f : Frame) (args results : Option Int) :
    callAt (depth + 1) f t.constructor args results = callConstructor f t args results := rfl

/-- With another number of values than there are fields nothing is made, and nothing happens. -/
theorem outcome_callConstructor_of_ne {t : StructType} {n : Int} (h : n ≠ t.fields.length) (f : Frame)
    (results : Option Int) (m : Machine) :
    (callConstructor f t (some n) results).outcome m = (.error (.structArguments t.name t.fields.length n), m) := by
  rw [callConstructor_eq, Run.wants_of_ne h]
  rfl

/-! ### Names and places -/

theorem names_zip {fields : List Text} {vs : List Value} (hlength : vs.length = fields.length) :
    Bindings.names (fields.zip vs) = fields := List.map_fst_zip (Nat.le_of_eq hlength.symm)

/-- Of different names, each is bound to what is at its own place. -/
theorem lookup_putAll_zip {fields : List Text} {vs : List Value} (hnodup : fields.Nodup)
    (hlength : vs.length = fields.length) (b : Bindings) {e : Text × Value} (he : e ∈ fields.zip vs) :
    (b.putAll (fields.zip vs)).lookup e.1 = some e.2 :=
  Bindings.lookup_putAll_of_mem (fields.zip vs) b (by rwa [names_zip hlength]) he

theorem lookup_zip {fields : List Text} {vs : List Value} (hnodup : fields.Nodup)
    (hlength : vs.length = fields.length) {e : Text × Value} (he : e ∈ fields.zip vs) :
    (fields.zip vs).lookup e.1 = some e.2 := by
  have hput := lookup_putAll_zip hnodup hlength [] he
  rw [Bindings.lookup_putAll_of_nodup (by rwa [names_zip hlength]), List.lookup_nil, Option.or_none] at hput
  exact hput

theorem lookup_zip_of_notMem {fields : List Text} {name : Text} (h : name ∉ fields) (vs : List Value) :
    (fields.zip vs).lookup name = none := by
  rw [List.lookup_eq_none_iff]
  intro e he
  have hne : name ≠ e.1 := fun heq => h (heq ▸ (List.of_mem_zip he).1)
  simpa using hne

/-! ### Members by name -/

/-- **The same value, with a cell of its own** if it is not a number and has none yet. -/
inductive Value.Settles : Value → Value → Prop where
  | self (v : Value) : Value.Settles v v
  | cell (d : DomainId) {x : Binary64} (hx : x.isNaN = true) (i : Nat) :
      Value.Settles (.mk d (.float x 0)) (.mk d (.float x i))

theorem outcome_distinguish (v : Value) (m : Machine) : ∃ w next,
    (Run.distinguish v).outcome m = (.ok w, { m with next := next }) ∧ v.Settles w := by
  unfold Run.distinguish
  split
  next d x =>
    by_cases hx : x.isNaN = true
    · rw [if_pos hx]
      exact ⟨_, m.next + 1, rfl, .cell d hx m.next⟩
    · rw [if_neg hx]
      exact ⟨_, m.next, rfl, .self _⟩
  next => exact ⟨v, m.next, rfl, .self v⟩

/-- The operator finds what the name has in the record. -/
theorem member_record (t : StructType) (vs : List Value) (name : Text) :
    Operator.binary .dot (t.record vs) (.own (.str name)) =
      match (t.fields.zip vs).lookup name with
      | some v => .ok v
      | none => .error (.noMember name t.name) := by
  change (match (t.fields.zip vs).lookup name with
    | some v => pure v
    | none => throw (.noMember name t.name) : Except Fault Value) = _
  rcases (t.fields.zip vs).lookup name with _ | v <;> rfl

section
variable (c : Caller) {f : Frame} {m : Machine} (hbase : f.view.base ≤ m.storage.length) (t : StructType)
  (vs : List Value) (name : Text)
include hbase

/-- **A dot after a record** is the operator on the record and the name. -/
theorem outcome_dot : ∃ log, (runSteps c f [.push (t.record vs), .key name, .binary .dot]).outcome m =
    (do
      let v ← (Operator.binary .dot (t.record vs) (.own (.str name)) : Except Fault Value)
      Run.push (← Run.distinguish v) : Run Unit).outcome { m with log := log } := by
  obtain ⟨log, hpush⟩ := outcome_runSteps_push c f [.binary .dot] [t.record vs, .own (.str name)] m
  obtain ⟨log', hdot⟩ := outcome_runSteps_cons c f (.binary .dot) []
    { m with storage := .own (.str name) :: t.record vs :: m.storage, log := log }
  have hkey := Run.outcome_pop_cons (f := f) (v := .own (.str name)) (s := t.record vs :: m.storage)
    (m := { m with storage := .own (.str name) :: t.record vs :: m.storage, log := log' }) rfl
    (Nat.le_succ_of_le hbase)
  have htarget := Run.outcome_pop_cons (f := f) (v := t.record vs) (s := m.storage)
    (m := { m with storage := t.record vs :: m.storage, log := log' }) rfl hbase
  have hlast : (step c f (.binary .dot) >>= fun _ => runSteps c f []) = step c f (.binary .dot) := bind_pure_unit
  refine ⟨log', hpush.trans (hdot.trans ?_)⟩
  rw [hlast, step, Run.outcome_bind_of_ok hkey, Run.outcome_bind_of_ok htarget]

end

/-! ### Members in scope -/

/-- What a member's name stands for where the members are in scope. -/
theorem find?_entering {m : Machine} {scope : ScopeId} {b : Bindings} {name : Text} {v : Value}
    (h : (Bindings.putAll [] b).lookup name = some v) (s : List Value) :
    (m.entering scope b s).scopes.find? m.scopes.scopes.size name = some (.value v) := by
  have hlayer : (m.entering scope b s).scopes.scopes[m.scopes.scopes.size]? =
      some (.layer scope (Bindings.putAll [] b)) := Array.getElem?_push_size
  unfold Forest.find?
  rw [Forest.findWithin_layer hlayer, h]

/-- **Code runs with the members of a record in scope**, on a stack of its own, and has to leave one value there. -/
theorem outcome_callWithMembers {c : Caller} {f : Frame} {t : StructType} {vs : List Value} {code : Code} {m : Machine}
    {s : List Value} (hm : m.storage = .own (.code code) :: t.record vs :: s) (hbase : f.view.base ≤ s.length)
    {n : Machine} {v : Value}
    (hrun : (runSteps c ⟨m.scopes.scopes.size, View.whole, f.trace⟩ code.steps).outcome
      (m.entering f.scope (t.fields.zip vs) []) = (.ok (), n)) (hn : n.storage = [v]) :
    (callWithMembers c f (some 2) (some 1)).outcome m = (.ok (), { n with storage := v :: s }) := by
  have htop : m.storage = [.own (.code code), t.record vs] ++ s := hm
  have hcode := Run.outcome_pop_cons (f := f) hm (Nat.le_succ_of_le hbase)
  have htarget := Run.outcome_pop_cons (f := f) (v := t.record vs) (s := s)
    (m := { m with storage := t.record vs :: s }) rfl hbase
  have howns : Forest.Owns ⟨m.scopes.scopes.push (.layer f.scope [])⟩ m.scopes.scopes.size :=
    Forest.owns_of_layer (b := []) Array.getElem?_push_size
  have haside := outcome_runAside_of_ok code (m := m.entering f.scope (t.fields.zip vs) s) hrun
  rw [hn] at haside
  refine outcome_callFixed_of_ok htop rfl hbase (t := [v]) ?_ rfl rfl
  rw [Run.outcome_bind_of_ok hcode, Run.outcome_lift_bind]
  dsimp only [Value.wantCode, Value.payload, Value.own]
  rw [Run.outcome_bind_of_ok htarget]
  dsimp only [Value.members?, Value.payload, StructType.record, Value.own, Composite.members?]
  rw [Run.outcome_bind_of_ok (Run.outcome_grow _ _), Run.outcome_bind_of_ok (Run.outcome_putAll _ howns)]
  dsimp only
  rw [Forest.bindAll_push]
  exact Run.outcome_bind_of_ok haside

/-- **A member's name as code for the builtin `with`.** -/
theorem outcome_with {f : Frame} {m : Machine} (hbase : f.view.base ≤ m.storage.length) {w : Value}
    (hwith : m.scopes.find? f.scope withName = some (.value w)) (hw : w.payload = .callable (.builtin .withMembers))
    (depth : Nat) (l : Label) {t : StructType} {vs : List Value} {name : Text} {v : Value}
    (hmember : (Bindings.putAll [] (t.fields.zip vs)).lookup name = some v) : ∃ log,
    (runSteps (callAt (depth + 1)) f [.push (t.record vs), .code l [.get name], .callWith withName 2 1]).outcome m =
      (.ok (), { m.entering f.scope (t.fields.zip vs) (v :: m.storage) with log := log }) := by
  let code : Value := .own (.code (.mk l [.get name]))
  obtain ⟨log, hpush⟩ := outcome_runSteps_push (callAt (depth + 1)) f [.callWith withName 2 1] [t.record vs, code] m
  obtain ⟨log', hcons⟩ := outcome_runSteps_cons (callAt (depth + 1)) f (.callWith withName 2 1) []
    { m with storage := code :: t.record vs :: m.storage, log := log }
  let called : Machine := { m with storage := code :: t.record vs :: m.storage, log := log' }
  have hlast : (step (callAt (depth + 1)) f (.callWith withName 2 1) >>= fun _ => runSteps (callAt (depth + 1)) f []) =
      step (callAt (depth + 1)) f (.callWith withName 2 1) := bind_pure_unit
  have hresolve : (resolve f withName).outcome called = (.ok (.value w), called) := Run.outcome_resolve hwith
  have hstep : (step (callAt (depth + 1)) f (.callWith withName 2 1)).outcome called =
      (callAt (depth + 1) f w (some 2) (some 1)).outcome called := Run.outcome_bind_of_ok hresolve
  -- the code is the name of the member alone
  let inner : Frame := ⟨m.scopes.scopes.size, View.whole, f.trace⟩
  obtain ⟨log'', hget⟩ := outcome_runSteps_cons (callAt depth) inner (.get name) []
    (called.entering f.scope (t.fields.zip vs) [])
  have hfind : (resolve inner name).outcome { called.entering f.scope (t.fields.zip vs) [] with log := log'' } =
      (.ok (.value v), { called.entering f.scope (t.fields.zip vs) [] with log := log'' }) :=
    Run.outcome_resolve (find?_entering hmember [])
  have hrun : (runSteps (callAt depth) inner [.get name]).outcome (called.entering f.scope (t.fields.zip vs) []) =
      (.ok (), { called.entering f.scope (t.fields.zip vs) [v] with log := log'' }) := by
    rw [hget, step, bind_assoc, Run.outcome_bind_of_ok hfind]
    rfl
  refine ⟨log'', hpush.trans (hcons.trans ?_)⟩
  rw [hlast]
  refine hstep.trans ?_
  rw [callAt_of_callable hw]
  exact outcome_callWithMembers (m := called) rfl hbase hrun rfl

/-! ### Members by place -/

theorem matchAll_binders (env : Text → Option Symbol) : ∀ {xs : List Text} {vs : List Value},
    vs.length = xs.length → Part.MatchAll env (xs.map .bind) vs (xs.zip vs)
  | [], [], _ => .nil
  | x :: _, v :: _, h => .cons (.bind x v) (matchAll_binders env (Nat.succ.inj h))

/-- **A pattern takes a record apart** into its values, by place. -/
theorem accepts_record {env : Text → Option Symbol} {ctor : Text} {t : StructType}
    (ht : recordType? env ctor = some t) {vs : List Value} (hlength : vs.length = t.fields.length) {xs : List Text}
    (hxs : xs.length = t.fields.length) (b : Bindings) :
    ((Part.construct ctor (xs.map .bind)).accepts env (t.record vs)).outcome b =
      (.ok true, b.putAll (xs.zip vs)) := by
  have hcount : vs.length = (xs.map Part.bind).length := by rw [List.length_map, hlength, hxs]
  have htake : takeApart env ctor (xs.map Part.bind).length (t.record vs) = .ok (some vs) := by
    rw [← hcount]
    exact takeApart_record ht rfl hlength
  have hmatch := Part.Matches.construct htake (matchAll_binders env (hlength.trans hxs.symm))
  exact hmatch.outcome_accepts b

/-! ### The values all at once -/

theorem writtenEach_eq_map (vs : List Value) : writtenEach vs = vs.map Value.written := by
  induction vs with
  | nil => rfl
  | cons v vs ih => rw [writtenEach, ih, List.map_cons]

/-- The values of a record have their texts by place, since no field is listed twice. -/
theorem forms_written {fields : List Text} (hnodup : fields.Nodup) {vs : List Value}
    (hlength : vs.length = fields.length) :
    List.map Prod.snd <$> Members.forms (fields.zip (writtenEach vs)) = vs.mapM Value.written := by
  rw [writtenEach_eq_map, Members.forms_zip hnodup (by rw [List.length_map, hlength])]
  clear hnodup
  induction vs generalizing fields with
  | nil =>
    rw [List.map_nil, List.zip_nil_right]
    rfl
  | cons v vs ih =>
    cases fields with
    | nil => cases hlength
    | cons field fields =>
      rw [List.map_cons, List.zip_cons_cons, List.mapM_cons, List.mapM_cons, ← ih (Nat.succ.inj hlength)]
      generalize (fields.zip (vs.map Value.written)).mapM (fun e => do return (e.1, ← e.2)) = rest
      rcases v.written with f | s
      · rfl
      · rcases rest with f | es <;> rfl

/-- A record is written as a call of its constructor. -/
theorem written_record {t : StructType} (hnodup : t.fields.Nodup) {vs : List Value}
    (hlength : vs.length = t.fields.length) : (t.record vs).written = (do
    return t.name ++ "(" ++ Text.intercalate ", " (← vs.mapM Value.written) ++ ")") := by
  rw [← forms_written hnodup hlength, bind_map_left]
  rfl

theorem agreeAll_iff : ∀ {vs ws : List Value}, (∀ v ∈ vs, v.isNaN = false) →
    (agreeAll vs ws = true ↔ List.Forall₂ (fun v w => v.eq w = true) vs ws)
  | [], [], _ => by simp [agreeAll]
  | [], _ :: _, _ => by simp [agreeAll]
  | _ :: _, [], _ => by simp [agreeAll]
  | v :: vs, w :: ws, h => by
    obtain ⟨hv, hvs⟩ := List.forall_mem_cons.1 h
    have hhead : v.agrees w = true ↔ v.eq w = true :=
      ⟨fun hagrees => Value.eq_of_agrees hagrees (.inl hv), Value.agrees_of_eq⟩
    rw [agreeAll, Bool.and_eq_true, List.forall₂_cons, agreeAll_iff hvs, hhead]

/-- Records are equal if they are of one type and their values are equal in pairs. -/
theorem eq_record_iff {t u : StructType} {vs ws : List Value} (hvs : ∀ v ∈ vs, v.isNaN = false) :
    (t.record vs).eq (u.record ws) = true ↔
      t.serial = u.serial ∧ List.Forall₂ (fun v w => v.eq w = true) vs ws := by
  have hagrees : (t.record vs).eq (u.record ws) = true ↔ (t.record vs).agrees (u.record ws) = true :=
    ⟨Value.agrees_of_eq, fun h => Value.eq_of_agrees h (.inl rfl)⟩
  unfold StructType.record Value.own at hagrees ⊢
  rw [hagrees, Value.agrees_mk_record, beq_self_eq_true, Bool.true_and, Bool.and_eq_true, beq_iff_eq,
    agreeAll_iff hvs]

/-- Records of types with different numbers are not equal, whatever their values. -/
theorem eq_record_of_ne {t u : StructType} (h : t.serial ≠ u.serial) (vs ws : List Value) :
    (t.record vs).eq (u.record ws) = false := by
  rw [Bool.eq_false_iff]
  intro heq
  have hagrees := Value.agrees_of_eq heq
  unfold StructType.record Value.own at hagrees
  rw [Value.agrees_mk_record, Bool.and_eq_true, Bool.and_eq_true, beq_iff_eq, beq_iff_eq] at hagrees
  exact h hagrees.2.1

/-! ### All views -/

/-- **All views of the records of a type agree.** -/
structure StructType.Views (t : StructType) : Prop where
  /-- The constructor makes a record of the values that it is called with, one for each field. -/
  made (depth : Nat) (f : Frame) {vs s : List Value} {m : Machine} (hlength : vs.length = t.fields.length)
    (hm : m.storage = vs.reverse ++ s) (hbase : f.view.base ≤ s.length) :
    (callAt (depth + 1) f t.constructor (some vs.length) (some 1)).outcome m =
      (.ok (), { m with storage := t.record vs :: s })
  /-- With another number of arguments nothing happens. -/
  refused (depth : Nat) (f : Frame) {n : Int} (results : Option Int) (m : Machine) (hn : n ≠ t.fields.length) :
    ∃ fault, (callAt (depth + 1) f t.constructor (some n) results).outcome m = (.error fault, m) ∧
      fault.category = .arity
  /-- A dot and the name of a field leave the value of the field. -/
  dot (c : Caller) {f : Frame} {vs : List Value} {m : Machine} (hlength : vs.length = t.fields.length)
    (hbase : f.view.base ≤ m.storage.length) : ∀ e ∈ t.fields.zip vs, ∃ steps w next log,
      (Expr.binary .dot (.value (t.record vs)) (.name e.1)).compile = .ok steps ∧
      (runSteps c f steps).outcome m = (.ok (), { m with storage := w :: m.storage, next := next, log := log }) ∧
      e.2.Settles w
  /-- A dot and another name leave nothing. -/
  other (c : Caller) {f : Frame} (vs : List Value) {m : Machine} (hbase : f.view.base ≤ m.storage.length)
    {name : Text} (hname : name ∉ t.fields) : ∃ steps fault log,
      (Expr.binary .dot (.value (t.record vs)) (.name name)).compile = .ok steps ∧
      (runSteps c f steps).outcome m = (.error fault, { m with log := log }) ∧ fault.category = .undefinedSymbol
  /-- In the block of `with` the name of a field stands for the value of the field. -/
  inside (depth : Nat) {f : Frame} {vs : List Value} {m : Machine} (hlength : vs.length = t.fields.length)
    (hbase : f.view.base ≤ m.storage.length) {w : Value} (hwith : m.scopes.find? f.scope withName = some (.value w))
    (hw : w.payload = .callable (.builtin .withMembers)) (n : Nat) : ∀ e ∈ t.fields.zip vs, ∃ steps log,
      (Expr.call withName [.value (t.record vs), .block n (.name e.1)]).compile = .ok steps ∧
      (runSteps (callAt (depth + 1)) f steps).outcome m =
        (.ok (), { m.entering f.scope (t.fields.zip vs) (e.2 :: m.storage) with log := log })
  /-- A pattern of binders matches, and the binders have the values by place. -/
  placed {env : Text → Option Symbol} {ctor : Text} (hctor : recordType? env ctor = some t) {vs : List Value}
    (hlength : vs.length = t.fields.length) {xs : List Text} (hxs : xs.length = t.fields.length) (b : Bindings) :
    ((Part.construct ctor (xs.map .bind)).accepts env (t.record vs)).outcome b = (.ok true, b.putAll (xs.zip vs)) ∧
      (xs.Nodup → ∀ e ∈ xs.zip vs, (b.putAll (xs.zip vs)).lookup e.1 = some e.2)
  /-- The values are written in order. -/
  written {vs : List Value} (hlength : vs.length = t.fields.length) : (t.record vs).written = (do
    return t.name ++ "(" ++ Text.intercalate ", " (← vs.mapM Value.written) ++ ")")
  /-- Records are equal if their values are, in pairs. -/
  equal {vs ws : List Value} (hvs : ∀ v ∈ vs, v.isNaN = false) :
    (t.record vs).eq (t.record ws) = true ↔ List.Forall₂ (fun v w => v.eq w = true) vs ws

theorem StructType.views {t : StructType} (hnodup : t.fields.Nodup) : t.Views where
  made depth f _ _ _ hlength hm hbase := by
    rw [callAt_constructor]
    exact outcome_callConstructor hm hlength hbase
  refused depth f _ results m hn := ⟨_, outcome_callConstructor_of_ne hn f results m, rfl⟩
  dot c f vs m hlength hbase e he := by
    obtain ⟨log, hdot⟩ := outcome_dot c hbase t vs e.1
    obtain ⟨w, next, hw, hsettles⟩ := outcome_distinguish e.2 { m with log := log }
    refine ⟨_, w, next, log, rfl, hdot.trans ?_, hsettles⟩
    rw [member_record, lookup_zip hnodup hlength he]
    exact Run.outcome_bind_of_ok hw
  other c f vs m hbase name hname := by
    obtain ⟨log, hdot⟩ := outcome_dot c hbase t vs name
    refine ⟨_, .noMember name t.name, log, rfl, hdot.trans ?_, rfl⟩
    rw [member_record, lookup_zip_of_notMem hname]
    rfl
  inside depth f vs m hlength hbase w hwith hw n e he := by
    obtain ⟨log, hrun⟩ := outcome_with hbase hwith hw depth [n] (lookup_putAll_zip hnodup hlength [] he)
    exact ⟨_, log, rfl, hrun⟩
  placed hctor _ hlength xs hxs b :=
    ⟨accepts_record hctor hlength hxs b, fun hdistinct _ he =>
      lookup_putAll_zip hdistinct (hlength.trans hxs.symm) b he⟩
  written := written_record hnodup
  equal hvs := by rw [eq_record_iff hvs, and_iff_right rfl]

/-- **What is declared is a type whose records are seen the same from all sides**: by name after a dot or in the block
of `with`, by place in a pattern, in their text and in comparisons. Texts are declared as a type if they name no
field twice. What is declared later, after whatever code, is another type, and no record of one is equal to one of
the other. -/
theorem callAt_struct_views {given : List Value} {name : Text} {fields : List Text}
    (h : List.Forall₂ Value.IsText given (name :: fields)) {v : Value}
    (hv : v.payload = .callable (.builtin .struct)) (depth : Nat) {f : Frame} {m : Machine} {s : List Value}
    (hm : m.storage = given.reverse ++ s) (hbase : f.view.base ≤ s.length) :
    (¬fields.Nodup → ∃ fault n, (callAt (depth + 1) f v (some given.length) (some 1)).outcome m = (.error fault, n) ∧
      fault.category = .general) ∧
    (fields.Nodup → ∃ n, (callAt (depth + 1) f v (some given.length) (some 1)).outcome m = (.ok (), n) ∧
      n.storage = StructType.constructor ⟨m.next, name, fields⟩ :: s ∧
      StructType.Views ⟨m.next, name, fields⟩ ∧
      ∀ (k : Nat) (g : Frame) (steps : List Instr) (other : Text) (others : List Text) (vs ws : List Value),
        let later : StructType := ⟨((runSteps (callAt k) g steps).outcome n).2.next, other, others⟩
        (StructType.record ⟨m.next, name, fields⟩ vs).eq (later.record ws) = false ∧
          (later.record ws).eq (StructType.record ⟨m.next, name, fields⟩ vs) = false) := by
  have hcall : callAt (depth + 1) f v (some given.length) (some 1) = callStruct f (some given.length) (some 1) :=
    callAt_of_callable hv depth f _ _
  rw [hcall]
  constructor
  · intro hdup
    exact ⟨_, _, outcome_callStruct_of_duplicates hm hbase h hdup, rfl⟩
  · intro hnodup
    obtain ⟨log, hstruct⟩ := outcome_callStruct hm hbase h hnodup
    refine ⟨_, hstruct, rfl, StructType.views hnodup, fun k g steps other others vs ws => ?_⟩
    have hlater : m.next < _ := next_le_runSteps k g steps
      { m with storage := StructType.constructor ⟨m.next, name, fields⟩ :: s, next := m.next + 1, log := log }
    exact ⟨eq_record_of_ne (Nat.ne_of_lt hlater) vs ws, eq_record_of_ne (Nat.ne_of_gt hlater) ws vs⟩

/-- Points are declared, and the second coordinate of one is what `with` finds for its name. -/
theorem callAt_struct_views_point :
    let m : Machine := { Machine.empty with
      storage := [.own (.str "y"), .own (.str "x"), .own (.str "Point")]
      scopes := ⟨#[.root [(withName, .own (.callable (.builtin .withMembers)))]]⟩ }
    let f : Frame := ⟨0, View.whole, false⟩
    let t : StructType := ⟨1, "Point", ["x", "y"]⟩
    (∃ n, (callAt 1 f (.own (.callable (.builtin .struct))) (some 3) (some 1)).outcome m = (.ok (), n) ∧
      n.storage = [t.constructor]) ∧
    ∃ steps n, (Expr.call withName [.value (t.record [.own (.int 3), .own .null]), .block 0 (.name "y")]).compile =
      .ok steps ∧ (runSteps (callAt 1) f steps).outcome m = (.ok (), n) ∧ n.storage = .own .null :: m.storage := by
  intro m f t
  have htexts : List.Forall₂ Value.IsText [.own (.str "Point"), .own (.str "x"), .own (.str "y")]
      ["Point", "x", "y"] := .cons rfl (.cons rfl (.cons rfl .nil))
  obtain ⟨n, hcall, hstorage, hviews, -⟩ := (callAt_struct_views (m := m) (f := f) (s := []) htexts
    (v := .own (.callable (.builtin .struct))) rfl 0 rfl (Nat.le_refl 0)).2 (by decide)
  have hlength : ([.own (.int 3), .own .null] : List Value).length = t.fields.length := rfl
  obtain ⟨steps, log, hsteps, hrun⟩ := hviews.inside 0 (m := m) (f := f) hlength (Nat.zero_le _) rfl rfl 0
    ("y", .own .null) (List.mem_cons_of_mem _ List.mem_cons_self)
  exact ⟨⟨n, hcall, hstorage⟩, steps, _, hsteps, hrun, rfl⟩

end StackCalc
