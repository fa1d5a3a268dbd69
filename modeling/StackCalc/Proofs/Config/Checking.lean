import StackCalc.Config
import StackCalc.Proofs.Wire.Loading

/-! # Which mappings are configurations

What a mapping means is one relation for each of its four entries, which tells what is of the right type and what
the configuration then holds (`Config.Means`); the relation for a section is open in what stands for an empty one.
Checking the mapping results in what it means and in nothing else, if everything that counts as false stands for an
empty section, not null alone (`Config.ofMapping_means`).

Each check is taken as a whole: which results it has, and which faults (`Judges`). A fault is the configuration's,
unless there is an excuse (`Config.Excused`): a global that is a list around itself is followed without end, and an
integer with too many digits cannot be quoted. -/

namespace StackCalc

/-! ### Checks -/

/-- **A check with these results and no others**; without a result it complains about the configuration, unless the
fault is excused. -/
structure Judges {α : Type} (x : Except Fault α) (results : α → Prop) (excused : Fault → Prop) : Prop where
  accepts : ∀ a, x = .ok a ↔ results a
  complains : ∀ f, x = .error f → f.category = .configuration ∨ excused f

namespace Judges

variable {α β : Type} {results : α → Prop} {excused : Fault → Prop}

theorem pure (a : α) : Judges (.ok a) (· = a) excused where
  accepts _ := ⟨fun heq => (Except.ok.inj heq).symm, fun heq => congrArg _ heq.symm⟩
  complains _ hf := by cases hf

theorem error {f : Fault} (h : ∀ a, ¬ results a) (hf : f.category = .configuration ∨ excused f) :
    Judges (.error f) results excused where
  accepts a := iff_of_false (fun heq => by cases heq) (h a)
  complains _ heq := by
    cases heq
    exact hf

/-- **One check after the other**: the second sees what the first results in. -/
theorem bind {x : Except Fault α} {k : α → Except Fault β} {results' : α → β → Prop} (hx : Judges x results excused)
    (hk : ∀ a, results a → Judges (k a) (results' a) excused) :
    Judges (x >>= k) (fun b => ∃ a, results a ∧ results' a b) excused := by
  rcases x with f | a
  · refine .error (fun b ⟨a, ha, _⟩ => ?_) (hx.complains f rfl)
    cases (hx.accepts a).2 ha
  · have ha : results a := (hx.accepts a).1 rfl
    refine ⟨fun b => ((hk a ha).accepts b).trans ⟨fun hb => ⟨a, ha, hb⟩, ?_⟩, (hk a ha).complains⟩
    rintro ⟨a', ha', hb⟩
    cases (hx.accepts a').2 ha'
    exact hb

/-- The same results in other words. -/
theorem congr {x : Except Fault α} {results' : α → Prop} (hx : Judges x results excused)
    (h : ∀ a, results a ↔ results' a) : Judges x results' excused :=
  ⟨fun a => (hx.accepts a).trans (h a), hx.complains⟩

/-- What is found is the one result. -/
theorem ok {a : α} (ha : results a) (h : ∀ b, results b → b = a) : Judges (.ok a) results excused :=
  (pure a).congr fun b => ⟨fun heq => heq ▸ ha, h b⟩

theorem mono {x : Except Fault α} {excused' : Fault → Prop} (hx : Judges x results excused)
    (h : ∀ f, excused f → excused' f) : Judges x results excused' :=
  ⟨hx.accepts, fun f hf => (hx.complains f hf).imp_right (h f)⟩

end Judges

/-! ### Quoting -/

/-- What comes of a fault that quotes data. -/
theorem Config.faultWith_cases (cause : Text → Fault) (d : Data) :
    (∃ s, Config.faultWith cause d = cause s) ∨ Config.faultWith cause d = .tooManyDigits ∧ d.Unwritable := by
  unfold Config.faultWith
  rcases hd : d.shown Naming.standard with f | s
  · obtain rfl := Data.eq_tooManyDigits_of_shown hd
    exact .inr ⟨rfl, hd⟩
  · exact .inl ⟨s, rfl⟩

theorem Data.showEntries_of_unwritable : ∀ {entries : List (Data × Data)} {e : Data × Data}, e ∈ entries →
    e.1.Unwritable → Data.showEntries Naming.standard entries = .error .tooManyDigits
  | (k, v) :: entries, e, he, hk => by
    unfold Data.showEntries
    rcases hkey : k.shown Naming.standard with f | key
    · rw [Data.eq_tooManyDigits_of_shown hkey]
      rfl
    rcases hvalue : v.shown Naming.standard with f | value
    · rw [Data.eq_tooManyDigits_of_shown hvalue]
      rfl
    rcases List.mem_cons.1 he with rfl | he
    · cases hkey.symm.trans hk
    · rw [Data.showEntries_of_unwritable he hk]
      rfl

/-- A mapping with a key that cannot be quoted cannot be quoted. -/
theorem Data.unwritable_map {entries : List (Data × Data)} {e : Data × Data} (he : e ∈ entries)
    (hk : e.1.Unwritable) : (Data.map entries).Unwritable := by
  unfold Data.Unwritable Data.shown
  rw [Data.showEntries_of_unwritable he hk]
  rfl

/-- Of many texts the first that is missing is the fault. -/
theorem Data.mapM_text_error : ∀ {ds : List Data} {f : Fault}, ds.mapM Data.text = .error f →
    f = .tooManyDigits ∧ ∃ d ∈ ds, d.Unwritable
  | [], _, h => by cases h
  | d :: ds, f, h => by
    rw [List.mapM_cons] at h
    rcases hd : d.text with g | s <;> rw [hd] at h
    · cases h
      have hshown : d.shown Naming.standard = .error f := by
        unfold Data.text at hd
        split at hd
        · cases hd
        · exact hd
      obtain rfl := Data.eq_tooManyDigits_of_shown hshown
      exact ⟨rfl, d, List.mem_cons_self, hshown⟩
    rcases hds : ds.mapM Data.text with g | texts <;> rw [hds] at h
    · cases h
      obtain ⟨hf, d', hd', hshown⟩ := Data.mapM_text_error hds
      exact ⟨hf, d', List.mem_cons_of_mem _ hd', hshown⟩
    · cases h

theorem Data.exists_mem_of_lookup? {key d : Data} {entries : List (Data × Data)}
    (h : Data.lookup? key entries = some d) : ∃ e ∈ entries, e.2 = d := by
  obtain ⟨e, he, rfl⟩ := Option.map_eq_some_iff.1 h
  exact ⟨e, List.mem_of_find?_eq_some he, rfl⟩

/-! ### What a mapping means -/

/-- **What a global may be**: a scalar, or a list of what a global may be, each of whatever class. -/
inductive Data.MayBeGlobal : Data → Prop where
  | int (n : Int) : MayBeGlobal (.int n)
  | subInt (name : Text) (n : Int) : MayBeGlobal (.subInt name n)
  | float (x : Binary64) : MayBeGlobal (.float x)
  | subFloat (name : Text) (x : Binary64) : MayBeGlobal (.subFloat name x)
  | str (s : Text) : MayBeGlobal (.str s)
  | subStr (name : Text) (s : Text) : MayBeGlobal (.subStr name s)
  | bool (b : Bool) : MayBeGlobal (.bool b)
  | null : MayBeGlobal .null
  | list {items : List Data} (h : ∀ d ∈ items, MayBeGlobal d) : MayBeGlobal (.list items)
  | subList {name : Text} {items : List Data} (h : ∀ d ∈ items, MayBeGlobal d) : MayBeGlobal (.subList name items)

/-- A list stands within itself, however deep in the lists of the data. -/
inductive Data.Circular : Data → Prop where
  | here : Circular (.cycle false)
  | item {d : Data} {ds : List Data} (hd : d ∈ ds) (h : Circular d) : Circular (.list ds)
  | subItem {name : Text} {d : Data} {ds : List Data} (hd : d ∈ ds) (h : Circular d) : Circular (.subList name ds)

theorem Data.Circular.rest {d : Data} {ds : List Data} (h : Circular (.list ds)) : Circular (.list (d :: ds)) := by
  cases h with
  | item hd h => exact .item (List.mem_cons_of_mem d hd) h

theorem Data.Circular.subList {name : Text} {ds : List Data} (h : Circular (.list ds)) :
    Circular (.subList name ds) := by
  cases h with
  | item hd h => exact .subItem hd h

namespace Config

/-- The entry of a mapping under one of the known keys. -/
def given (key : Text) (entries : List (Data × Data)) : Option Data := Data.lookup? (.str key) entries

/-- A level is named in any case, and held in capitals. -/
inductive MeansLevel : Option Data → Option Text → Prop where
  | absent : MeansLevel none none
  | null : MeansLevel (some .null) none
  | named {d : Data} {s : Text} (hd : d.string? = some s) (h : ∃ level ∈ levels, level.1 = s.map capital) :
      MeansLevel (some d) (some (s.map capital))

inductive MeansTrace : Option Data → Bool → Prop where
  | absent : MeansTrace none false
  | given (b : Bool) : MeansTrace (some (.bool b)) b

/-- A section is a mapping, and what is `vacant` stands for the empty one. -/
inductive MeansSection (vacant : Data → Prop) : Option Data → List (Data × Data) → Prop where
  | absent : MeansSection vacant none []
  | vacant {d : Data} (h : vacant d) : MeansSection vacant (some d) []
  | given (entries : List (Data × Data)) : MeansSection vacant (some (.map entries)) entries

/-- The names are texts, and what they stand for may be a global. -/
inductive MeansGlobals : List (Data × Data) → List (Text × Data) → Prop where
  | nil : MeansGlobals [] []
  | cons {k : Data} {name : Text} {d : Data} {entries : List (Data × Data)} {globals : List (Text × Data)}
      (hk : k.string? = some name) (hd : d.MayBeGlobal) (h : MeansGlobals entries globals) :
      MeansGlobals ((k, d) :: entries) ((name, d) :: globals)

/-- **What a mapping means**: its keys are known, each entry is of the right type, and the configuration holds exactly
what the entries say. -/
structure Means (vacant : Data → Prop) (entries : List (Data × Data)) (config : Config) : Prop where
  keys : ∀ e ∈ entries, ∃ key ∈ knownKeys, e.1.string? = some key
  level : MeansLevel (given "log_level" entries) config.logLevel
  traced : MeansTrace (given "trace" entries) config.traced
  globals : ∃ named, MeansSection vacant (given "globals" entries) named ∧ MeansGlobals named config.globals
  codecs : MeansSection vacant (given "codecs" entries) config.codecs

/-- **What stands in the way of a complaint about the configuration**: a global that is a list around itself, and a key
or a value with an integer of too many digits. -/
inductive Excused (entries : List (Data × Data)) : Fault → Prop where
  | circular {named : List (Data × Data)} {e : Data × Data} (h : given "globals" entries = some (.map named))
      (he : e ∈ named) (hd : e.2.Circular) : Excused entries .depthExceeded
  | unwritable {e : Data × Data} (he : e ∈ entries) (hd : e.1.Unwritable ∨ e.2.Unwritable) :
      Excused entries .tooManyDigits

/-! ### The checks -/

theorem isKnownKey_iff (k : Data) : isKnownKey k = true ↔ ∃ key ∈ knownKeys, k.string? = some key := by
  unfold isKnownKey
  rcases k.string? with _ | key <;> simp

theorem lookup_isSome_iff {name : Text} {table : List (Text × Nat)} :
    (table.lookup name).isSome = true ↔ ∃ e ∈ table, e.1 = name := by
  induction table with
  | nil => simp
  | cons e table ih =>
    rw [List.lookup_cons]
    by_cases h : name = e.1
    · simp [h]
    · simp [beq_false_of_ne h, ih, Ne.symm h]

variable {entries : List (Data × Data)}

/-- A fault that quotes what stands under a known key. -/
theorem complains_given {key : Text} {d : Data} (hd : given key entries = some d) (cause : Text → Fault)
    (hcause : ∀ s, (cause s).category = .configuration) :
    (faultWith cause d).category = .configuration ∨ Excused entries (faultWith cause d) := by
  rcases faultWith_cases cause d with ⟨s, hs⟩ | ⟨hf, hunwritable⟩
  · exact .inl (hs ▸ hcause s)
  · obtain ⟨e, he, rfl⟩ := Data.exists_mem_of_lookup? hd
    exact .inr (hf ▸ .unwritable he (.inr hunwritable))

theorem judges_readLevel (entries : List (Data × Data)) :
    Judges (readLevel (given "log_level" entries)) (MeansLevel (given "log_level" entries)) (Excused entries) := by
  rcases hd : given "log_level" entries with _ | d
  · exact .ok .absent fun level h => by cases h; rfl
  by_cases hnull : d = .null
  · subst hnull
    exact .ok .null fun level h => by
      cases h with
      | null => rfl
      | named hs => cases hs
  have hcomplains := complains_given hd .badLogLevel fun _ => rfl
  have hread : readLevel (some d) = (d.string?.map (Text.map capital)).elim (.error (faultWith .badLogLevel d))
      fun name => if (levels.lookup name).isSome then .ok (some name) else .error (faultWith .badLogLevel d) := by
    cases d <;> first | rfl | exact absurd rfl hnull
  rw [hread]
  rcases hs : d.string? with _ | s
  · refine .error (fun level h => ?_) hcomplains
    cases h with
    | null => exact hnull rfl
    | named hs' => cases hs.symm.trans hs'
  rw [Option.map_some, Option.elim_some]
  split_ifs with hname
  · refine .ok (.named hs (lookup_isSome_iff.1 hname)) fun level h => ?_
    cases h with
    | null => exact absurd rfl hnull
    | named hs' => cases hs.symm.trans hs'; rfl
  · refine .error (fun level h => ?_) hcomplains
    cases h with
    | null => exact hnull rfl
    | named hs' hlevel =>
      cases hs.symm.trans hs'
      exact hname (lookup_isSome_iff.2 hlevel)

theorem judges_readTrace (entries : List (Data × Data)) :
    Judges (readTrace (given "trace" entries)) (MeansTrace (given "trace" entries)) (Excused entries) := by
  rcases hd : given "trace" entries with _ | d
  · exact .ok .absent fun traced h => by cases h; rfl
  cases d with
  | bool b => exact .ok (.given b) fun traced h => by cases h; rfl
  | _ => exact .error (fun traced h => by cases h) (complains_given hd .badTrace fun _ => rfl)

/-- A section that may be left out: whatever counts as false stands for the empty one. -/
theorem judges_optionalMap {cause : Fault} (hcause : cause.category = .configuration) (d : Option Data)
    (excused : Fault → Prop) : Judges (optionalMap cause d) (MeansSection (fun d => d.truthy = false) d) excused := by
  rcases d with _ | d
  · exact .ok .absent fun named h => by cases h; rfl
  unfold optionalMap
  dsimp only
  rcases hd : d.truthy with _ | _
  · refine .ok (.vacant hd) fun named h => ?_
    cases h with
    | vacant => rfl
    | given => simpa [Data.truthy] using hd
  · cases d with
    | map named =>
      refine .ok (.given named) fun found h => ?_
      cases h with
      | vacant h => cases hd.symm.trans h
      | given => rfl
    | _ =>
      refine .error (fun named h => ?_) (.inl hcause)
      cases h with
      | vacant h => cases hd.symm.trans h

/-- What excuses the fault of data that is no global: it is followed without end. -/
def Endless (d : Data) (f : Fault) : Prop := f = .depthExceeded ∧ d.Circular

mutual

theorem judges_checkGlobal (name : Text) : ∀ d : Data,
    Judges (checkGlobal name d) (fun _ => d.MayBeGlobal) (Endless d)
  | .int n => .ok (.int n) fun _ _ => rfl
  | .subInt c n => .ok (.subInt c n) fun _ _ => rfl
  | .float x => .ok (.float x) fun _ _ => rfl
  | .subFloat c x => .ok (.subFloat c x) fun _ _ => rfl
  | .str s => .ok (.str s) fun _ _ => rfl
  | .subStr c s => .ok (.subStr c s) fun _ _ => rfl
  | .bool b => .ok (.bool b) fun _ _ => rfl
  | .null => .ok .null fun _ _ => rfl
  | .list items => by
    unfold checkGlobal
    refine (judges_checkGlobals name items).congr fun _ => ⟨.list, fun h => ?_⟩
    cases h with
    | list h => exact h
  | .subList _ items => by
    unfold checkGlobal
    refine ((judges_checkGlobals name items).congr fun _ => ⟨.subList, fun h => ?_⟩).mono fun f hf => ?_
    · cases h with
      | subList h => exact h
    · exact hf.imp_right .subList
  | .cycle false => .error (fun _ h => by cases h) (.inr ⟨rfl, .here⟩)
  | .cycle true | .tuple _ | .map _ | .value _ | .code _ | .pair .. | .other .. =>
    .error (fun _ h => by cases h) (.inl rfl)

theorem judges_checkGlobals (name : Text) : ∀ ds : List Data,
    Judges (checkGlobals name ds) (fun _ => ∀ d ∈ ds, d.MayBeGlobal) (Endless (.list ds))
  | [] => .ok (List.forall_mem_nil _) fun _ _ => rfl
  | d :: ds => by
    have hd : Judges (checkGlobal name d) (fun _ => d.MayBeGlobal) (Endless (.list (d :: ds))) :=
      (judges_checkGlobal name d).mono fun f hf => hf.imp_right (.item List.mem_cons_self)
    have hds : Judges (checkGlobals name ds) (fun _ => ∀ d ∈ ds, d.MayBeGlobal) (Endless (.list (d :: ds))) :=
      (judges_checkGlobals name ds).mono fun f hf => hf.imp_right .rest
    unfold checkGlobals
    refine (hd.bind fun _ _ => hds).congr fun _ => ?_
    rw [List.forall_mem_cons]
    exact ⟨fun h => h.choose_spec, fun h => ⟨(), h⟩⟩

end

/-- What excuses the fault of a section of globals. -/
def GlobalsExcused (named : List (Data × Data)) (f : Fault) : Prop :=
  ∃ e ∈ named, Endless e.2 f ∨ f = .tooManyDigits ∧ e.1.Unwritable

/-- **The globals are checked one after the other**: first the name, then what it stands for. -/
theorem judges_namedGlobals (named : List (Data × Data)) :
    Judges (namedGlobals named) (MeansGlobals named) (GlobalsExcused named) := by
  induction named with
  | nil => exact .ok .nil fun globals h => by cases h; rfl
  | cons e named ih =>
    obtain ⟨k, d⟩ := e
    unfold namedGlobals
    split
    next name hname =>
      have hd : Judges (checkGlobal name d) (fun _ => d.MayBeGlobal) (GlobalsExcused ((k, d) :: named)) :=
        (judges_checkGlobal name d).mono fun f hf => ⟨_, List.mem_cons_self, .inl hf⟩
      have hnamed : Judges (namedGlobals named) (MeansGlobals named) (GlobalsExcused ((k, d) :: named)) :=
        ih.mono fun f hf => hf.imp fun e he => he.imp_left (List.mem_cons_of_mem _)
      refine (hd.bind fun _ _ => hnamed.bind fun globals _ => .pure _).congr fun found => ?_
      constructor
      · rintro ⟨-, hd, globals, hglobals, rfl⟩
        exact .cons hname hd hglobals
      · rintro (_ | ⟨hk, hd, hglobals⟩)
        cases hname.symm.trans hk
        exact ⟨(), hd, _, hglobals, rfl⟩
    next hk =>
      refine .error (fun globals h => ?_) ?_
      · cases h with
        | cons hname => cases hk.symm.trans hname
      · rcases faultWith_cases .badGlobalName k with ⟨s, hs⟩ | ⟨hf, hunwritable⟩
        · rw [hs]
          exact .inl rfl
        · exact .inr ⟨_, List.mem_cons_self, .inr ⟨hf, hunwritable⟩⟩

/-- The section stands in the mapping, so what excuses its fault excuses that of the mapping. -/
theorem Excused.of_globals {vacant : Data → Prop} {named : List (Data × Data)}
    (hnamed : MeansSection vacant (given "globals" entries) named) {f : Fault} (hf : GlobalsExcused named f) :
    Excused entries f := by
  obtain ⟨e, he, hf⟩ := hf
  rcases hgiven : given "globals" entries with _ | d <;> rw [hgiven] at hnamed
  · cases hnamed
    cases he
  cases hnamed with
  | vacant => cases he
  | given =>
    rcases hf with ⟨rfl, hcircular⟩ | ⟨rfl, hunwritable⟩
    · exact .circular hgiven he hcircular
    · obtain ⟨e', he', hd⟩ := Data.exists_mem_of_lookup? hgiven
      exact .unwritable he' (.inr (hd ▸ Data.unwritable_map he hunwritable))

/-- **The check of a mapping** results in what the mapping means. -/
theorem judges_ofEntries (entries : List (Data × Data)) :
    Judges (ofEntries entries) (Means (fun d => d.truthy = false) entries) (Excused entries) := by
  have hkeys : ((entries.map (·.1)).filter fun k => !isKnownKey k) = [] ↔
      ∀ e ∈ entries, ∃ key ∈ knownKeys, e.1.string? = some key := by
    simp [List.filter_eq_nil_iff, isKnownKey_iff]
  unfold ofEntries
  dsimp only
  split_ifs with hknown
  · have hunknown : ∀ config, ¬ Means (fun d => d.truthy = false) entries config := fun config h => by
      rw [hkeys.2 h.keys] at hknown
      cases hknown
    rcases htexts : ((entries.map (·.1)).filter fun k => !isKnownKey k).mapM Data.text with f | texts <;>
      rw [htexts]
    · obtain ⟨rfl, k, hk, hunwritable⟩ := Data.mapM_text_error htexts
      obtain ⟨e, he, rfl⟩ := List.mem_map.1 (List.mem_filter.1 hk).1
      exact Judges.error hunknown (.inr (.unwritable he (.inl hunwritable)))
    · exact Judges.error hunknown (.inl rfl)
  · have hall : ∀ e ∈ entries, ∃ key ∈ knownKeys, e.1.string? = some key := by
      refine hkeys.1 (List.isEmpty_iff.1 ?_)
      simpa using hknown
    refine ((judges_readLevel entries).bind fun level _ => (judges_readTrace entries).bind fun traced _ =>
      (judges_optionalMap rfl _ _).bind fun named hnamed =>
        ((judges_namedGlobals named).mono fun f => .of_globals hnamed).bind fun globals _ =>
          (judges_optionalMap rfl _ _).bind fun codecs _ => .pure _).congr fun config => ?_
    constructor
    · rintro ⟨level, hlevel, traced, htraced, named, hnamed, globals, hglobals, codecs, hcodecs, rfl⟩
      exact ⟨hall, hlevel, htraced, ⟨named, hnamed, hglobals⟩, hcodecs⟩
    · rintro ⟨-, hlevel, htraced, ⟨named, hnamed, hglobals⟩, hcodecs⟩
      exact ⟨_, hlevel, _, htraced, named, hnamed, _, hglobals, _, hcodecs, rfl⟩

/-! ### Configurations -/

/-- **Which mappings are configurations.** A mapping is accepted with a configuration exactly if that is what it means:
all its keys are known, the level is null or a text that names one in any case, the trace is a truth value, the globals
are scalars and lists of such under names, and the codecs a mapping; what is left out has its default, and so has a
section that counts as false. Every other mapping is refused with a fault of the configuration, unless one of the
globals is a list around itself, or a key or a value has an integer with too many digits to be quoted. -/
theorem ofMapping_means (entries : List (Data × Data)) :
    (∀ config, ofMapping (.map entries) = .ok config ↔ Means (fun d => d.truthy = false) entries config) ∧
    ∀ f, ofMapping (.map entries) = .error f → f.category = .configuration ∨ Excused entries f := by
  obtain ⟨haccepts, hcomplains⟩ := judges_ofEntries entries
  exact ⟨haccepts, hcomplains⟩

/-- A level in small letters, a list in a list among the globals, and no codecs; a text is no truth value. -/
theorem ofMapping_means_nested :
    let named : List (Data × Data) := [(.str "xs", .list [.int 1, .list [.null]])]
    ofMapping (.map [(.str "log_level", .str "debug"), (.str "globals", .map named), (.str "codecs", .null)]) =
      .ok ⟨some "DEBUG", false, [("xs", .list [.int 1, .list [.null]])], []⟩ ∧
    ∃ f, ofMapping (.map [(.str "trace", .str "on")]) = .error f ∧ f.category = .configuration := by
  intro named
  refine ⟨((ofMapping_means _).1 _).2 ⟨?_, ?_, ?_, ?_, ?_⟩, ?_⟩
  · simp [knownKeys, Data.string?]
  · have hlevel : Text.map capital "debug" = "DEBUG" := by decide
    rw [← hlevel]
    exact .named rfl ⟨("DEBUG", 10), by decide, hlevel.symm⟩
  · exact .absent
  · refine ⟨named, .given named, .cons rfl (.list ?_) .nil⟩
    simp [Data.MayBeGlobal.int, Data.MayBeGlobal.null, Data.MayBeGlobal.list]
  · exact .vacant rfl
  · refine ⟨_, rfl, ((ofMapping_means [(.str "trace", .str "on")]).2 _ rfl).resolve_right ?_⟩
    rintro (_ | _)

/-- **A section of the wrong type can be taken for the empty one**: a list that counts as false, which is neither null
nor a mapping. -/
theorem ofMapping_emptyList :
    let entries : List (Data × Data) := [(.str "globals", .list [])]
    ofMapping (.map entries) = .ok default ∧ ¬ ∃ config, Means (fun d => d = .null) entries config := by
  intro entries
  refine ⟨rfl, ?_⟩
  rintro ⟨config, -, -, -, ⟨named, hnamed, -⟩, -⟩
  have hgiven : given "globals" entries = some (.list []) := rfl
  rw [hgiven] at hnamed
  cases hnamed with
  | vacant h => cases h

end Config

end StackCalc
