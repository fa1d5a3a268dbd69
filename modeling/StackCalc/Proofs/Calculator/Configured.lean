import StackCalc.Proofs.Calculator.Globals
import StackCalc.Proofs.Value.Faults
import StackCalc.Proofs.Wire.Loading

/-! # Setting up what a configuration asks for

A configuration is checked before a calculator is set up with it, and the two look at its globals
differently: the check accepts a scalar of a class of its own where it accepts a scalar, and the values are
made by the exact class. `Data.Denotes` says which value configured data stands for, without saying how it is
made: a list, of whatever class, stands for pairs that end in null.

What is accepted is set up, and every configured name then stands for the value of its data
(`create_configured`), unless the codec table refuses an entry, or a scalar of a class of its own stands
somewhere in the globals. -/

namespace StackCalc

/-! ### Values of configured data -/

/-- **The value that configured data stands for.** What is not a number may have any cell. -/
inductive Data.Denotes : Data → Value → Prop where
  | int (n : Int) : Denotes (.int n) (.own (.int n))
  | subInt (name : Text) (n : Int) : Denotes (.subInt name n) (.own (.int n))
  | float (x : Binary64) (cell : Nat) : Denotes (.float x) (.own (.float x cell))
  | subFloat (name : Text) (x : Binary64) (cell : Nat) : Denotes (.subFloat name x) (.own (.float x cell))
  | str (s : Text) : Denotes (.str s) (.own (.str s))
  | subStr (name : Text) (s : Text) : Denotes (.subStr name s) (.own (.str s))
  | bool (b : Bool) : Denotes (.bool b) (.own (.bool b))
  | null : Denotes .null (.own .null)
  | nil : Denotes (.list []) (.own .null)
  | cons {d : Data} {ds : List Data} {v w : Value} (hd : Denotes d v) (hds : Denotes (.list ds) w) :
      Denotes (.list (d :: ds)) (.own (.cons v w))
  | subList (name : Text) {ds : List Data} {v : Value} (h : Denotes (.list ds) v) : Denotes (.subList name ds) v

/-- A scalar of a class of its own stands somewhere in the data. -/
inductive Data.HoldsSubclass : Data → Prop where
  | int (name : Text) (n : Int) : HoldsSubclass (.subInt name n)
  | float (name : Text) (x : Binary64) : HoldsSubclass (.subFloat name x)
  | str (name : Text) (s : Text) : HoldsSubclass (.subStr name s)
  | item {d : Data} {ds : List Data} (hd : d ∈ ds) (h : HoldsSubclass d) : HoldsSubclass (.list ds)
  | subList (name : Text) {ds : List Data} (h : HoldsSubclass (.list ds)) : HoldsSubclass (.subList name ds)

theorem Data.not_holdsSubclass_nil : ¬ HoldsSubclass (.list []) := by
  intro h
  cases h with
  | item hd => cases hd

theorem Data.not_holdsSubclass_cons {d : Data} {ds : List Data} (hd : ¬ d.HoldsSubclass)
    (hds : ¬ HoldsSubclass (.list ds)) : ¬ HoldsSubclass (.list (d :: ds)) := by
  intro h
  cases h with
  | item hmem h =>
    rcases List.mem_cons.1 hmem with rfl | hmem
    · exact hd h
    · exact hds (.item hmem h)

theorem Data.not_holdsSubclass_subList {name : Text} {ds : List Data} (hds : ¬ HoldsSubclass (.list ds)) :
    ¬ HoldsSubclass (.subList name ds) := by
  intro h
  cases h with
  | subList _ h => exact hds h

theorem Data.HoldsSubclass.rest {d : Data} {ds : List Data} (h : HoldsSubclass (.list ds)) :
    HoldsSubclass (.list (d :: ds)) := by
  cases h with
  | item hd h => exact .item (List.mem_cons_of_mem d hd) h

/-- What is not a number gets a cell of its own, which does not change what the value stands for. -/
theorem Data.Denotes.distinguishAll {d : Data} {v : Value} (h : d.Denotes v) : ∀ m : Machine, ∃ w next,
    (Run.distinguishAll v).outcome m = (.ok w, { m with next := next }) ∧ d.Denotes w := by
  have hfloat : ∀ {d : Data} (x : Binary64) (cell : Nat), (∀ i, d.Denotes (.own (.float x i))) → ∀ m : Machine,
      ∃ w next, (Run.distinguishAll (.own (.float x cell))).outcome m = (.ok w, { m with next := next }) ∧
        d.Denotes w := by
    intro d x cell h m
    unfold Run.distinguishAll Value.own Run.distinguish
    dsimp only
    split
    next heq =>
      cases heq
      split_ifs
      · exact ⟨_, m.next + 1, rfl, h m.next⟩
      · exact ⟨_, m.next, rfl, h 0⟩
    · exact ⟨_, m.next, rfl, h cell⟩
  induction h with
  | float x cell => exact hfloat x cell (.float x)
  | subFloat name x cell => exact hfloat x cell (.subFloat name x)
  | @cons d ds v w _ _ ihd ihds =>
    intro m
    obtain ⟨v', next, hv, hdenotes⟩ := ihd m
    obtain ⟨w', next', hw, hdenotes'⟩ := ihds { m with next := next }
    refine ⟨.own (.cons v' w'), next', ?_, .cons hdenotes hdenotes'⟩
    unfold Run.distinguishAll Value.own
    dsimp only
    rw [Run.outcome_bind_of_ok hv, Run.outcome_bind_of_ok hw]
    rfl
  | int n => exact fun m => ⟨_, m.next, rfl, .int n⟩
  | subInt name n => exact fun m => ⟨_, m.next, rfl, .subInt name n⟩
  | str s => exact fun m => ⟨_, m.next, rfl, .str s⟩
  | subStr name s => exact fun m => ⟨_, m.next, rfl, .subStr name s⟩
  | bool b => exact fun m => ⟨_, m.next, rfl, .bool b⟩
  | null => exact fun m => ⟨_, m.next, rfl, .null⟩
  | nil => exact fun m => ⟨_, m.next, rfl, .nil⟩
  | subList name _ ih =>
    intro m
    obtain ⟨w, next, hw, hdenotes⟩ := ih m
    exact ⟨w, next, hw, .subList name hdenotes⟩

/-! ### Data that passes its check -/

mutual

/-- A member of a list that passes its check has the value it stands for, or a class of its own is in it. -/
theorem Data.toValue_of_checkGlobal {name : Text} : ∀ {d : Data}, Config.checkGlobal name d = .ok () →
    (¬ d.HoldsSubclass ∧ ∃ v, d.toValue 0 = .ok v ∧ d.Denotes v) ∨
      d.HoldsSubclass ∧ ∃ name, d.toValue 0 = .error (.unregisteredKind name)
  | .int n, _ => .inl ⟨nofun, _, rfl, .int n⟩
  | .float x, _ => .inl ⟨nofun, _, rfl, .float x 0⟩
  | .str s, _ => .inl ⟨nofun, _, rfl, .str s⟩
  | .bool b, _ => .inl ⟨nofun, _, rfl, .bool b⟩
  | .null, _ => .inl ⟨nofun, _, rfl, .null⟩
  | .subInt name n, _ => .inr ⟨.int name n, name, rfl⟩
  | .subFloat name x, _ => .inr ⟨.float name x, name, rfl⟩
  | .subStr name s, _ => .inr ⟨.str name s, name, rfl⟩
  | .list items, h => by
    unfold Config.checkGlobal at h
    unfold Data.toValue
    exact Data.toValueList_of_checkGlobals h
  | .subList className items, h => by
    unfold Config.checkGlobal at h
    unfold Data.toValue
    rcases Data.toValueList_of_checkGlobals h with ⟨hsub, v, hv, hdenotes⟩ | ⟨hsub, hv⟩
    · exact .inl ⟨Data.not_holdsSubclass_subList hsub, v, hv, .subList className hdenotes⟩
    · exact .inr ⟨.subList className hsub, hv⟩
  | .cycle false, h | .cycle true, h => by cases h
  | .tuple _, h | .map _, h | .value _, h | .code _, h | .pair .., h | .other .., h => by cases h

theorem Data.toValueList_of_checkGlobals {name : Text} : ∀ {ds : List Data}, Config.checkGlobals name ds = .ok () →
    (¬ (Data.list ds).HoldsSubclass ∧ ∃ v, Data.toValueList 0 ds = .ok v ∧ (Data.list ds).Denotes v) ∨
      (Data.list ds).HoldsSubclass ∧ ∃ name, Data.toValueList 0 ds = .error (.unregisteredKind name)
  | [], _ => .inl ⟨Data.not_holdsSubclass_nil, _, rfl, .nil⟩
  | d :: ds, h => by
    unfold Config.checkGlobals at h
    rcases hd : Config.checkGlobal name d with f | ⟨⟩ <;> rw [hd] at h
    · cases h
    unfold Data.toValueList
    -- the rest of the list is made first, so its fault comes first
    rcases Data.toValueList_of_checkGlobals h with ⟨hsubs, w, hw, hdenotes⟩ | ⟨hsub, name', hw⟩
    · rcases Data.toValue_of_checkGlobal hd with ⟨hsub, v, hv, hdenotes'⟩ | ⟨hsub, name', hv⟩
      · exact .inl ⟨Data.not_holdsSubclass_cons hsub hsubs, _, by rw [hw, hv]; rfl, .cons hdenotes' hdenotes⟩
      · exact .inr ⟨.item List.mem_cons_self hsub, name', by rw [hw, hv]; rfl⟩
    · exact .inr ⟨hsub.rest, name', by rw [hw]; rfl⟩

end

/-- The kind that is found for data of a class of its own is that of its base, but no payload is made of it. -/
theorem Domain.wrap_derived {d : Data} (hvalue : ∀ v, d ≠ .value v) {a : Admission}
    (hkind : (kindsOf d).find? (isRegistered standard) = some a.kind) (hfind : find? standard a.kind = some a)
    (hpayload : payload? Naming.standard a.kind d = pure none) :
    ∃ f, wrap Naming.standard 0 standard d = .error f ∧ (f.category = .wrongType ∨ f = .tooManyDigits) := by
  have hwrap : wrap Naming.standard 0 standard d = (do throw (.badPayload (← d.shown Naming.standard) a.name)) := by
    unfold wrap
    split
    next v => exact absurd rfl (hvalue v)
    next =>
      rw [hkind]
      dsimp only [create]
      rw [hfind, hpayload]
      rfl
  rcases hfault : wrap Naming.standard 0 standard d with f | v <;> rw [hwrap] at hfault
  · rcases Data.fault_cases hfault with ⟨s, rfl⟩ | ⟨rfl, -⟩
    · exact ⟨_, rfl, .inl rfl⟩
    · exact ⟨_, rfl, .inr rfl⟩
  · exact absurd hfault (Wire.CodecTable.throw_ne_ok _ _ _)

namespace Calculator

/-- **A global that passes its check** has the value it stands for, or a class of its own is in it. -/
theorem outcome_toValue {name : Text} {d : Data} (h : Config.checkGlobal name d = .ok ()) (m : Machine) :
    (¬ d.HoldsSubclass ∧ ∃ v next, (toValue d).outcome m = (.ok v, { m with next := next }) ∧ d.Denotes v) ∨
      d.HoldsSubclass ∧ ∃ f, (f.category = .wrongType ∨ f = .tooManyDigits) ∧
        (toValue d).outcome m = (.error f, m) := by
  have hmade : ∀ {x : Except Fault Value} {v : Value}, x = .ok v → d.Denotes v → ∃ w next,
      ((liftM x : Run Value) >>= Run.distinguishAll).outcome m = (.ok w, { m with next := next }) ∧ d.Denotes w := by
    rintro _ v rfl hv
    exact hv.distinguishAll m
  have hrefused : ∀ {x : Except Fault Value} {f : Fault}, x = .error f →
      ((liftM x : Run Value) >>= Run.distinguishAll).outcome m = (.error f, m) := by
    rintro _ f rfl
    rfl
  cases d with
  | int n => exact .inl ⟨nofun, hmade rfl (.int n)⟩
  | float x => exact .inl ⟨nofun, hmade rfl (.float x 0)⟩
  | str s => exact .inl ⟨nofun, hmade rfl (.str s)⟩
  | bool b => exact .inl ⟨nofun, hmade rfl (.bool b)⟩
  | null => exact .inl ⟨nofun, hmade rfl .null⟩
  | list | subList =>
    rcases Data.toValue_of_checkGlobal h with ⟨hsub, v, hv, hdenotes⟩ | ⟨hsub, _, hv⟩
    · exact .inl ⟨hsub, hmade hv hdenotes⟩
    · exact .inr ⟨hsub, _, .inl rfl, hrefused hv⟩
  | subInt name n =>
    obtain ⟨f, hwrap, hf⟩ :=
      Domain.wrap_derived (d := .subInt name n) nofun (a := ⟨.int, "int", .natural⟩) rfl rfl rfl
    exact .inr ⟨.int name n, f, hf, hrefused hwrap⟩
  | subFloat name x =>
    obtain ⟨f, hwrap, hf⟩ :=
      Domain.wrap_derived (d := .subFloat name x) nofun (a := ⟨.float, "float", .natural⟩) rfl rfl rfl
    exact .inr ⟨.float name x, f, hf, hrefused hwrap⟩
  | subStr name s =>
    obtain ⟨f, hwrap, hf⟩ :=
      Domain.wrap_derived (d := .subStr name s) nofun (a := ⟨.str, "str", .natural⟩) rfl rfl rfl
    exact .inr ⟨.str name s, f, hf, hrefused hwrap⟩
  | cycle mapping => cases mapping <;> cases h
  | _ => cases h

/-- Defines a configured name. -/
def defineEntry (e : Text × Data) : Calculation Unit := do
  let _ ← (define e.1 e.2 : Run Value)

theorem install_eq (config : Config) :
    install [] config = (do
      loadCodecs config.codecs
      config.globals.forM defineEntry
      pure ()) := rfl

theorem outcome_defineEntry {name : Text} {d : Data} (h : Config.checkGlobal name d = .ok ()) {c : Calculator}
    (howns : c.machine.scopes.Owns globalScope) :
    (¬ d.HoldsSubclass ∧ ∃ v c', (defineEntry (name, d)).outcome c = (.ok (), c') ∧ d.Denotes v ∧
        c'.machine.scopes = c.machine.scopes.bindAll globalScope [(name, v)]) ∨
      d.HoldsSubclass ∧ ∃ f, (f.category = .wrongType ∨ f = .tooManyDigits) ∧
        (defineEntry (name, d)).outcome c = (.error f, c) := by
  rcases outcome_toValue h c.machine with ⟨hsub, v, next, hv, hdenotes⟩ | ⟨hsub, f, hf, hv⟩
  · have hput : (Run.put globalScope name v).outcome { c.machine with next := next } = (.ok (), { c.machine with
        next := next, scopes := c.machine.scopes.bindAll globalScope [(name, v)] }) := by
      rw [Run.outcome_put, Forest.put, howns, ← Forest.bindAll_cons, Forest.bindAll_nil]
    have hdefine : (define name d).outcome c.machine = (.ok v, { c.machine with
        next := next, scopes := c.machine.scopes.bindAll globalScope [(name, v)] }) := by
      unfold define
      rw [Run.outcome_bind_of_ok hv]
      exact Run.outcome_bind_of_ok hput
    refine .inl ⟨hsub, v, { c with machine := { c.machine with
      next := next, scopes := c.machine.scopes.bindAll globalScope [(name, v)] } }, ?_, hdenotes, rfl⟩
    unfold defineEntry
    rw [Calculation.outcome_bind_of_ok (Calculation.outcome_run_of_eq hdefine)]
    rfl
  · have hdefine : (define name d).outcome c.machine = (.error f, c.machine) := by
      unfold define
      rw [Run.outcome_bind_of_error hv]
    refine .inr ⟨hsub, f, hf, ?_⟩
    unfold defineEntry
    rw [Calculation.outcome_bind_of_error (Calculation.outcome_run_of_eq hdefine)]

/-- **The globals are defined one after the other**, up to one that has a scalar of a class of its own in it. -/
theorem outcome_defineEntries : ∀ {globals : List (Text × Data)} {c : Calculator},
    (∀ e ∈ globals, Config.checkGlobal e.1 e.2 = .ok ()) → c.machine.scopes.Owns globalScope →
    ((∀ e ∈ globals, ¬ e.2.HoldsSubclass) ∧ ∃ (store : Bindings) (c' : Calculator),
        (globals.forM defineEntry).outcome c = (.ok ⟨⟩, c') ∧
        List.Forall₂ (fun e e' => e.1 = e'.1 ∧ e.2.Denotes e'.2) globals store ∧
        c'.machine.scopes = c.machine.scopes.bindAll globalScope store) ∨
      ∃ e ∈ globals, e.2.HoldsSubclass ∧ ∃ f c', (f.category = .wrongType ∨ f = .tooManyDigits) ∧
        (globals.forM defineEntry).outcome c = (.error f, c')
  | [], c, _, _ => .inl ⟨nofun, [], c, rfl, .nil, (Forest.bindAll_nil _ _).symm⟩
  | (name, d) :: globals, c, hcheck, howns => by
    obtain ⟨hd, hcheck⟩ := List.forall_mem_cons.1 hcheck
    have hforM : List.forM ((name, d) :: globals) defineEntry =
        (defineEntry (name, d) >>= fun _ => globals.forM defineEntry) := rfl
    rw [hforM]
    rcases outcome_defineEntry hd howns with ⟨hsub, v, c', hv, hdenotes, hscopes⟩ | ⟨hsub, f, hf, hv⟩
    · have howns' : c'.machine.scopes.Owns globalScope := by
        rw [hscopes]
        exact (Forest.targetWithin_modify c.machine.scopes globalScope _ _ globalScope).trans howns
      rw [Calculation.outcome_bind_of_ok hv]
      rcases outcome_defineEntries hcheck howns' with
        ⟨hsubs, store, c'', hstore, hmatch, hscopes'⟩ | ⟨e, he, hsub, hfault⟩
      · refine .inl ⟨List.forall_mem_cons.2 ⟨hsub, hsubs⟩, (name, v) :: store, c'', hstore,
          .cons ⟨rfl, hdenotes⟩ hmatch, ?_⟩
        rw [hscopes', hscopes]
        exact Forest.bindAll_cons c.machine.scopes globalScope name v store
      · exact .inr ⟨e, List.mem_cons_of_mem _ he, hsub, hfault⟩
    · exact .inr ⟨(name, d), List.mem_cons_self, hsub, f, c, hf, Calculation.outcome_bind_of_error hv⟩

/-! ### Setting up -/

/-- The codec table is loaded; nothing else that matters here changes. -/
theorem outcome_loadCodecs (entries : List (Data × Data)) (c : Calculator) :
    ∃ c' : Calculator, (loadCodecs entries).outcome c = ((c.codecs.load entries).1, c') ∧
      c'.machine.scopes = c.machine.scopes := by
  unfold loadCodecs
  rw [Calculation.outcome_current_bind]
  rcases c.codecs.load entries with ⟨f | ⟨⟩, table⟩
  · exact ⟨{ c with codecs := table }, rfl, rfl⟩
  · obtain ⟨log, hlog⟩ := Run.outcome_note (.codecsLoaded table.toList) c.machine
    refine ⟨{ c with codecs := table, machine := { c.machine with log := log } }, ?_, rfl⟩
    have hchange : (Calculation.change fun c => { c with codecs := table }).outcome c =
        (.ok (), { c with codecs := table }) := rfl
    dsimp only
    rw [Calculation.outcome_bind_of_ok hchange]
    exact Calculation.outcome_run_of_eq (c := { c with codecs := table }) hlog

/-- A check that has been passed. -/
theorem checkGlobal_of_namedGlobals : ∀ {entries : List (Data × Data)} {globals : List (Text × Data)},
    Config.namedGlobals entries = .ok globals → ∀ e ∈ globals, Config.checkGlobal e.1 e.2 = .ok ()
  | [], _, h, e, he => by
    cases h
    cases he
  | (k, d) :: entries, globals, h, e, he => by
    unfold Config.namedGlobals at h
    split at h
    next name _ =>
      rcases hd : Config.checkGlobal name d with f | ⟨⟩ <;> rw [hd] at h
      · cases h
      rcases hrest : Config.namedGlobals entries with f | rest <;> rw [hrest] at h
      · cases h
      cases h
      rcases List.mem_cons.1 he with rfl | he
      · exact hd
      · exact checkGlobal_of_namedGlobals hrest e he
    next => cases h

theorem checkGlobal_of_ofMapping {d : Data} {config : Config} (h : Config.ofMapping d = .ok config) :
    ∀ e ∈ config.globals, Config.checkGlobal e.1 e.2 = .ok () := by
  cases d with
  | map entries =>
    unfold Config.ofMapping Config.ofEntries at h
    dsimp only at h
    split_ifs at h
    · obtain ⟨unknown, hunknown, h⟩ := exists_of_bind_ok h
      cases h
    · obtain ⟨level, -, h⟩ := exists_of_bind_ok h
      obtain ⟨traced, -, h⟩ := exists_of_bind_ok h
      obtain ⟨named, -, h⟩ := exists_of_bind_ok h
      obtain ⟨globals, hglobals, h⟩ := exists_of_bind_ok h
      obtain ⟨codecs, -, h⟩ := exists_of_bind_ok h
      cases h
      exact checkGlobal_of_namedGlobals hglobals
  | _ => cases h

/-- Entries that correspond have the last data of a name where the last value is. -/
theorem lookup_denoted {globals : List (Text × Data)} {store : Bindings}
    (h : List.Forall₂ (fun e e' => e.1 = e'.1 ∧ Data.Denotes e.2 e'.2) globals store) {name : Text} {d : Data}
    (hd : globals.lookup name = some d) : ∃ v, store.lookup name = some v ∧ d.Denotes v := by
  induction h with
  | nil => cases hd
  | @cons e e' globals store he _ ih =>
    obtain ⟨n, d'⟩ := e
    obtain ⟨n', v⟩ := e'
    obtain ⟨rfl, hv⟩ := he
    rw [List.lookup_cons] at hd ⊢
    rcases hn : name == n with _ | _ <;> rw [hn] at hd
    · exact ih hd
    · cases hd
      exact ⟨v, rfl, hv⟩

/-- **What comes of setting up a configuration.** -/
inductive SetsUp (config : Config) : Except Fault Calculator → Prop where
  /-- Every configured name stands for the value of its data; of two entries for one name the last counts. -/
  | done {c : Calculator} (hsub : ∀ e ∈ config.globals, ¬ e.2.HoldsSubclass)
      (h : ∀ name d, List.lookup name config.globals.reverse = some d → ∃ v, c.value? name = .ok v ∧ d.Denotes v) :
      SetsUp config (.ok c)
  /-- The codec table refuses an entry. -/
  | refused {f : Fault} (h : (Wire.CodecTable.empty.load config.codecs).1 = .error f)
      (hf : f.category = .configuration) : SetsUp config (.error f)
  /-- The codec table refuses an entry that cannot be quoted. -/
  | unwritable (h : (Wire.CodecTable.empty.load config.codecs).1 = .error .tooManyDigits)
      {e : Data × Data} (he : e ∈ config.codecs) (hd : e.1.Unwritable ∨ e.2.Unwritable) :
      SetsUp config (.error .tooManyDigits)
  /-- A scalar of a class of its own is refused, or cannot be quoted. -/
  | subclass {f : Fault} {e : Text × Data} (he : e ∈ config.globals) (hd : e.2.HoldsSubclass)
      (hf : f.category = .wrongType ∨ f = .tooManyDigits) : SetsUp config (.error f)

/-- **What passes its check can be set up**, without a host: every configured name then stands for the value of its
data. Nothing is in the way but an entry that the codec table refuses, and a scalar of a class of its own. -/
theorem create_configured {d : Data} {config : Config} (h : Config.ofMapping d = .ok config)
    (hkeys : ∀ e ∈ config.codecs, e.1.isKey = true) (logging : Bool) : SetsUp config (create [] config logging) := by
  obtain ⟨c, hload, hscopes⟩ := outcome_loadCodecs config.codecs (bare logging config.traced)
  have hroot : (bare logging config.traced).machine.scopes.scopes[globalScope]? = some (.root standardNames) := rfl
  unfold create
  rw [install_eq]
  rcases hresult : ((bare logging config.traced).codecs.load config.codecs).1 with f | ⟨⟩ <;> rw [hresult] at hload
  · rw [Calculation.outcome_bind_of_error hload]
    rcases Wire.CodecTable.load_fault hkeys hresult with hf | ⟨rfl, e, he, hd⟩
    · exact .refused hresult hf
    · exact .unwritable hresult he hd
  · rw [Calculation.outcome_bind_of_ok hload]
    have howns : c.machine.scopes.Owns globalScope := by
      rw [hscopes]
      exact Forest.owns_of_root hroot
    rcases outcome_defineEntries (checkGlobal_of_ofMapping h) howns with
      ⟨hsub, store, c', hstore, hmatch, hscopes'⟩ | ⟨e, he, hsub, f, c', hf, hfault⟩
    · rw [Calculation.outcome_bind_of_ok hstore]
      refine .done hsub fun name d hd => ?_
      obtain ⟨v, hv, hdenotes⟩ := lookup_denoted (List.rel_reverse hmatch) hd
      have hroot' : c'.machine.scopes.scopes[globalScope]? = some (.root (standardNames.putAll store)) := by
        rw [hscopes', Forest.getElem?_bindAll, if_pos rfl, hscopes, hroot]
        rfl
      refine ⟨v, (value?_eq_ok hroot').2 ?_, hdenotes⟩
      rw [Bindings.lookup_putAll, hv, Option.some_or]
    · rw [Calculation.outcome_bind_of_error hfault]
      exact .subclass he hsub hf

/-- Two globals, one of them a list in which a list of a class of its own stands, and a codec. -/
theorem create_configured_lists :
    let globals : List (Text × Data) := [("x", .int 1), ("xs", .list [.subList "Row" [.str "a"], .null])]
    let config : Config := ⟨none, false, globals, [(.str "int", .int 1)]⟩
    let d : Data := .map
      [(.str "globals", .map [(.str "x", .int 1), (.str "xs", .list [.subList "Row" [.str "a"], .null])]),
        (.str "codecs", .map [(.str "int", .int 1)])]
    Config.ofMapping d = .ok config ∧ (∀ e ∈ config.codecs, e.1.isKey = true) ∧
      SetsUp config (create [] config false) ∧ raised? (create [] config false) = none := by
  intro globals config d
  have hconfig : Config.ofMapping d = .ok config := rfl
  have hkeys : ∀ e ∈ config.codecs, e.1.isKey = true := List.forall_mem_singleton.2 rfl
  exact ⟨hconfig, hkeys, create_configured hconfig hkeys false, rfl⟩

/-- **What passes its check is not always set up**: a number of a class of its own is refused as a
global. -/
theorem create_subclass :
    let config : Config := ⟨none, false, [("x", .subInt "Count" 5)], []⟩
    Config.ofMapping (.map [(.str "globals", .map [(.str "x", .subInt "Count" 5)])]) = .ok config ∧
      raised? (create [] config false) = some (.badPayload "5" "int") ∧
      (Fault.badPayload "5" "int").category = .wrongType := by
  intro config
  exact ⟨rfl, by decide +kernel, rfl⟩

end Calculator

end StackCalc
