import StackCalc.Proofs.Machine.Quiet
import StackCalc.Proofs.Machine.Within
import StackCalc.Proofs.Expr.Evaluate

/-! # Building patterns

The program of a clause pushes code and calls the functions that add a piece to the pattern under
construction. Here is what each of these calls comes to while the program runs (`Constructing`): a literal
adds the part that its value stands for (`literalPart`) or fails, and an action is added at the end.

Literals call no functions (`LiteralsInert`), so while they are run all that happens to the machine is that
scopes and records of the log are added and serial numbers handed out (`Machine.Kept`); the pattern under
construction is there as it was when the literal is done. -/

namespace StackCalc

open StackCalc.Expr (codeValue)

/-! ### What stays -/

/-- **What building patterns leaves alone**: names stand for what they did, the host's functions are the
same, and nothing has been printed. -/
structure Machine.Kept (m n : Machine) : Prop extends Machine.Within none m n where
  effects : n.effects = m.effects
  logging : n.logging = m.logging

namespace Machine.Kept

variable {m n o : Machine}

theorem refl (m : Machine) : m.Kept m := ⟨.refl none m, rfl, rfl⟩

theorem trans (h : m.Kept n) (h' : n.Kept o) : m.Kept o :=
  ⟨h.toWithin.trans h'.toWithin, h'.effects.trans h.effects, h'.logging.trans h.logging⟩

/-- Changes of the storage, the patterns under construction, the serial numbers and the log. -/
theorem of_fields (m : Machine) (s : List Value) (builders : Array PatternBuilder) (next : Nat)
    (log : Array Event) : m.Kept { m with storage := s, builders := builders, next := next, log := log } :=
  ⟨⟨.refl _ _, rfl, rfl⟩, rfl, rfl⟩

/-- A new scope that does not hand binding on. -/
theorem grow (m : Machine) {s : Scope} (hs : ¬ s.IsPassage) :
    m.Kept { m with scopes := ⟨m.scopes.scopes.push s⟩ } :=
  ⟨⟨Forest.grows_push m.scopes hs, rfl, rfl⟩, rfl, rfl⟩

theorem find? (h : m.Kept n) {id : ScopeId} {name : Text} {v : Value}
    (hv : m.scopes.find? id name = some (.value v)) : n.scopes.find? id name = some (.value v) :=
  h.scopes.find?_eq_value hv

end Machine.Kept

/-- **Pattern literals call nothing**: no name that patterns know stands for a function. -/
def Machine.LiteralsInert (m : Machine) : Prop :=
  ∃ b, m.scopes.scopes[patternScope]? = some (.root b) ∧ ∀ e ∈ b, ¬ e.2.IsFunction

theorem Machine.LiteralsInert.of_kept {m n : Machine} (hm : m.LiteralsInert) (h : m.Kept n) : n.LiteralsInert := by
  obtain ⟨b, hb, hplain⟩ := hm
  exact ⟨b, h.scopes.getElem?_eq hb, hplain⟩

/-! ### Literals -/

/-- **The part that a literal stands for**: it is run where unknown names are placeholders, and the one value
that it leaves is translated. -/
def literalPart (c : Caller) (traced : Bool) (literal : Code) : Run Part := do
  let scope ← Run.grow (.literal patternScope)
  match ← runAside c scope traced literal with
  | [v] => return Part.ofValue v
  | vs => throw (addPart.literalFault vs)

theorem addPart_eq (c : Caller) (f : Frame) (builder : Nat) :
    addPart c f builder = (do
      let v ← Run.pop f
      let literal ← (v.wantCode "variable pattern" : Except Fault Code)
      let p ← literalPart c f.trace literal
      let b ← findBuilder builder
      let b' ← (b.addPart p : Except Fault PatternBuilder)
      setBuilder builder b') := by
  unfold addPart literalPart
  refine bind_congr fun v => bind_congr fun literal => ?_
  rw [bind_assoc]
  refine bind_congr fun scope => ?_
  rw [bind_assoc]
  refine bind_congr fun vs => ?_
  rcases vs with _ | ⟨v, _ | ⟨w, vs⟩⟩ <;> rfl

/-- However a literal ends, a scope has been added, and serial numbers and records of the log. -/
theorem outcome_literalPart {m : Machine} (hm : m.LiteralsInert) (depth : Nat) (traced : Bool) (literal : Code) :
    ∃ next log, ((literalPart (callAt depth) traced literal).outcome m).2 =
      { m with scopes := ⟨m.scopes.scopes.push (.literal patternScope)⟩, next := next, log := log } := by
  obtain ⟨b, hb, hplain⟩ := hm
  have hinert := inert_literal hb hplain
  obtain ⟨next, log, haside⟩ := outcome_runAside_quiet
    (m := { m with scopes := ⟨m.scopes.scopes.push (.literal patternScope)⟩ }) hinert depth traced literal
  refine ⟨next, log, ?_⟩
  unfold literalPart
  rw [Run.outcome_bind_of_ok (Run.outcome_grow _ m), Run.outcome_bind]
  rcases hrun : (runAside (callAt depth) m.scopes.scopes.size traced literal).outcome
      { m with scopes := ⟨m.scopes.scopes.push (.literal patternScope)⟩ } with ⟨e | vs, m'⟩
  · rw [hrun] at haside
    exact haside
  · rw [hrun] at haside
    rcases vs with _ | ⟨v, _ | ⟨w, vs⟩⟩ <;> exact haside

theorem Machine.Kept.literalPart {m : Machine} (hm : m.LiteralsInert) (depth : Nat) (traced : Bool)
    (literal : Code) : m.Kept ((StackCalc.literalPart (callAt depth) traced literal).outcome m).2 := by
  obtain ⟨next, log, h⟩ := outcome_literalPart hm depth traced literal
  rw [h]
  exact (Machine.Kept.grow m id).trans (.of_fields _ _ _ next log)

/-! ### Steps of a program -/

variable {c : Caller} {f : Frame} {m : Machine}

/-- A step that pushes code; at most the log changes besides. -/
theorem outcome_runSteps_code (c : Caller) (f : Frame) (label : Label) (steps rest : List Instr) (m : Machine) :
    ∃ log, (runSteps c f (.code label steps :: rest)).outcome m =
      (runSteps c f rest).outcome { m with storage := codeValue label steps :: m.storage, log := log } := by
  obtain ⟨log, h⟩ := outcome_runSteps_cons c f (.code label steps) rest m
  exact ⟨log, h⟩

/-- A step that calls what a name stands for. -/
theorem outcome_runSteps_call {name : Text} {v : Value} (h : m.scopes.find? f.scope name = some (.value v))
    (args results : Nat) (rest : List Instr) :
    ∃ log, (runSteps c f (.callWith name args results :: rest)).outcome m =
      (c f v (some args) (some results) >>= fun _ => runSteps c f rest).outcome { m with log := log } := by
  obtain ⟨log, hcons⟩ := outcome_runSteps_cons c f (.callWith name args results) rest m
  have hresolve : (resolve f name).outcome { m with log := log } = (.ok (.value v), { m with log := log }) :=
    Run.outcome_resolve h
  have hstep : step c f (.callWith name args results) =
      (do callSymbol c f (some args) (some results) (← resolve f name)) := rfl
  refine ⟨log, hcons.trans ?_⟩
  rw [hstep, bind_assoc, Run.outcome_bind_of_ok hresolve]
  rfl

/-- Code is pushed and handed to what a name stands for. -/
theorem outcome_runSteps_callCode {name : Text} {v : Value} (h : m.scopes.find? f.scope name = some (.value v))
    (label : Label) (steps : List Instr) (args results : Nat) (rest : List Instr) :
    ∃ log, (runSteps c f (.code label steps :: .callWith name args results :: rest)).outcome m =
      (c f v (some args) (some results) >>= fun _ => runSteps c f rest).outcome
        { m with storage := codeValue label steps :: m.storage, log := log } := by
  obtain ⟨log, hcode⟩ := outcome_runSteps_code c f label steps (.callWith name args results :: rest) m
  obtain ⟨log', hcall⟩ := outcome_runSteps_call (c := c)
    (m := { m with storage := codeValue label steps :: m.storage, log := log }) h args results rest
  exact ⟨log', hcode.trans hcall⟩

/-! ### Adding pieces -/

theorem wantCode_codeValue (label : Label) (steps : List Instr) (context : Text) :
    (codeValue label steps).wantCode context = .ok (.mk label steps) := rfl

/-- Parts are added as long as there is no action. -/
theorem PatternBuilder.addPart_eq_ok {b : PatternBuilder} (hb : b.hasAction = false) (p : Part) :
    b.addPart p = .ok { b with parts := b.parts ++ [p] } := by
  unfold PatternBuilder.addPart
  rw [hb]
  rfl

/-- Guarded actions are added as long as there is no default. -/
theorem PatternBuilder.addGuarded_eq_ok {b : PatternBuilder} (hb : b.fallback = none) (guard action : Code) :
    b.addGuarded guard action = .ok { b with clauses := b.clauses ++ [(guard, action)], hasAction := true } := by
  unfold PatternBuilder.addGuarded
  rw [hb]
  rfl

/-- The names that the program of a clause knows. -/
def builderNames (builder : Nat) : Bindings :=
  [(partName, .own (.callable (.addPart builder))),
    (guardedName, .own (.callable (.addGuarded builder))),
    (defaultName, .own (.callable (.addDefault builder)))]

/-- **While the program of a clause runs**: its scope knows the functions that add a piece, and these are the
pieces that have been added. -/
structure Constructing (builder : Nat) (g : Frame) (b : PatternBuilder) (m : Machine) : Prop where
  view : g.view = View.whole
  names : m.scopes.scopes[g.scope]? = some (.root (builderNames builder))
  inert : m.LiteralsInert
  pieces : m.builders[builder]? = some b

namespace Constructing

variable {builder : Nat} {g : Frame} {b : PatternBuilder} {m n : Machine}

/-- A name of the program of a clause. -/
theorem find? (h : Constructing builder g b m) {name : Text} {v : Value}
    (hv : (builderNames builder).lookup name = some v) : m.scopes.find? g.scope name = some (.value v) := by
  unfold Forest.find? Forest.findWithin
  rw [h.names]
  exact congrArg (Option.map Symbol.value) hv

theorem base_le (h : Constructing builder g b m) (s : List Value) : g.view.base ≤ s.length := by
  rw [h.view]
  exact Nat.zero_le _

theorem of_kept (h : Constructing builder g b m) (hkept : m.Kept n) (hbuilders : n.builders = m.builders) :
    Constructing builder g b n where
  view := h.view
  names := hkept.scopes.getElem?_eq h.names
  inert := h.inert.of_kept hkept
  pieces := hbuilders ▸ h.pieces

theorem outcome_findBuilder (h : Constructing builder g b m) :
    (findBuilder builder).outcome m = (.ok b, m) := by
  have hfind : (findBuilder builder).outcome m = (.ok (m.builders[builder]?.getD .empty), m) := rfl
  rw [hfind, h.pieces]
  rfl

/-- The pieces have become others. -/
theorem set (h : Constructing builder g b m) (b' : PatternBuilder) (s : List Value) :
    Constructing builder g b' { m with storage := s, builders := m.builders.setIfInBounds builder b' } where
  view := h.view
  names := h.names
  inert := h.inert
  pieces := Array.getElem?_setIfInBounds_self_of_lt (Array.getElem?_eq_some_iff.1 h.pieces).1

/-- A literal adds the part that it stands for, or fails. -/
theorem outcome_addPart (h : Constructing builder g b m) (hb : b.hasAction = false) {label : Label}
    {steps : List Instr} (hm : m.storage = [codeValue label steps]) (depth : Nat) :
    match (literalPart (callAt depth) g.trace (.mk label steps)).outcome { m with storage := [] } with
    | (.error e, n) => (addPart (callAt depth) g builder).outcome m = (.error e, n)
    | (.ok p, n) => n.storage = [] ∧ Constructing builder g b n ∧ (addPart (callAt depth) g builder).outcome m =
        (.ok (), { n with builders := n.builders.setIfInBounds builder { b with parts := b.parts ++ [p] } }) := by
  have hpop : (Run.pop g).outcome m = (.ok (codeValue label steps), { m with storage := [] }) :=
    Run.outcome_pop_cons hm (h.base_le [])
  have hinert : Machine.LiteralsInert { m with storage := [] } := h.inert
  have hkept := Machine.Kept.literalPart hinert depth g.trace (.mk label steps)
  obtain ⟨next, log, hend⟩ := outcome_literalPart hinert depth g.trace (.mk label steps)
  rw [addPart_eq, Run.outcome_bind_of_ok hpop, Run.outcome_lift_bind, wantCode_codeValue]
  rcases hpart : (literalPart (callAt depth) g.trace (.mk label steps)).outcome { m with storage := [] }
    with ⟨e | p, n⟩
  · exact Run.outcome_bind_of_error hpart
  · rw [hpart] at hkept hend
    dsimp only at hend
    have hstorage : n.storage = [] := by rw [hend]
    have hbuilders : n.builders = m.builders := by rw [hend]
    have hn : Constructing builder g b n :=
      h.of_kept ((Machine.Kept.of_fields m [] m.builders m.next m.log).trans hkept) hbuilders
    refine ⟨hstorage, hn, ?_⟩
    dsimp only
    rw [Run.outcome_bind_of_ok hpart, Run.outcome_bind_of_ok hn.outcome_findBuilder,
      PatternBuilder.addPart_eq_ok hb]
    rfl

/-- An action under a guard is added after the others. -/
theorem outcome_addGuarded (h : Constructing builder g b m) (hb : b.fallback = none) {label label' : Label}
    {guard action : List Instr} (hm : m.storage = [codeValue label' action, codeValue label guard]) :
    (addGuarded g builder).outcome m = (.ok (), { m with
      storage := []
      builders := m.builders.setIfInBounds builder
        { b with clauses := b.clauses ++ [(.mk label guard, .mk label' action)], hasAction := true } }) := by
  have haction : (Run.pop g).outcome m =
      (.ok (codeValue label' action), { m with storage := [codeValue label guard] }) :=
    Run.outcome_pop_cons hm (h.base_le _)
  have hguard : (Run.pop g).outcome { m with storage := [codeValue label guard] } =
      (.ok (codeValue label guard), { m with storage := [] }) := Run.outcome_pop_cons rfl (h.base_le [])
  have hn : Constructing builder g b { m with storage := [] } := { h with }
  unfold addGuarded
  rw [Run.outcome_bind_of_ok haction, Run.outcome_lift_bind, wantCode_codeValue]
  dsimp only
  rw [Run.outcome_bind_of_ok hguard, Run.outcome_lift_bind, wantCode_codeValue]
  dsimp only
  rw [Run.outcome_bind_of_ok hn.outcome_findBuilder, PatternBuilder.addGuarded_eq_ok hb]
  rfl

/-- The default is set. -/
theorem outcome_addDefault (h : Constructing builder g b m) (hb : b.fallback = none) {label : Label}
    {action : List Instr} (hm : m.storage = [codeValue label action]) :
    (addDefault g builder).outcome m = (.ok (), { m with
      storage := []
      builders := m.builders.setIfInBounds builder
        { b with fallback := some (.mk label action), hasAction := true } }) := by
  have haction : (Run.pop g).outcome m = (.ok (codeValue label action), { m with storage := [] }) :=
    Run.outcome_pop_cons hm (h.base_le _)
  have hn : Constructing builder g b { m with storage := [] } := { h with }
  unfold addDefault
  rw [Run.outcome_bind_of_ok haction, Run.outcome_lift_bind, wantCode_codeValue]
  dsimp only
  rw [Run.outcome_bind_of_ok hn.outcome_findBuilder, hb]
  rfl

/-! ### The steps that add pieces -/

section Call
variable {n : Machine} {takes : Nat} {body : Run Unit} (h : Constructing builder g b m) (hm : m.storage.length = takes)
include h hm

/-- A piece is added by a call that takes all there is on the stack. -/
theorem outcome_call_of_ok (hbody : body.outcome m = (.ok (), n)) (hn : n.storage = []) :
    (callFixed g takes 0 (some takes) (some (0 : Nat)) body).outcome m = (.ok (), n) :=
  outcome_callFixed_of_ok (s := []) (t := []) (List.append_nil _).symm hm (h.base_le []) hbody hn rfl

theorem outcome_call_of_error {e : Fault} (hbody : body.outcome m = (.error e, n)) :
    (callFixed g takes 0 (some takes) (some (0 : Nat)) body).outcome m = (.error e, n) :=
  outcome_callFixed_of_error (s := []) (List.append_nil _).symm hm (h.base_le []) hbody

end Call

/-- The steps of a literal: it is run, and its part is added unless it fails. -/
theorem literal_step (h : Constructing builder g b m) (hm : m.storage = []) (hb : b.hasAction = false)
    (depth : Nat) (label : Label) (steps rest : List Instr) :
    ∃ n, m.Kept n ∧ match (literalPart (callAt depth) g.trace (.mk label steps)).outcome n with
      | (.error e, n') =>
        (runSteps (callAt (depth + 1)) g (.code label steps :: .callWith partName 1 0 :: rest)).outcome m =
          (.error e, n')
      | (.ok p, n') => ∃ m', n'.Kept m' ∧ m'.storage = [] ∧
        Constructing builder g { b with parts := b.parts ++ [p] } m' ∧
        (runSteps (callAt (depth + 1)) g (.code label steps :: .callWith partName 1 0 :: rest)).outcome m =
          (runSteps (callAt (depth + 1)) g rest).outcome m' := by
  have hfind : m.scopes.find? g.scope partName = some (.value (.own (.callable (.addPart builder)))) := h.find? rfl
  obtain ⟨log, hrun⟩ := outcome_runSteps_callCode (c := callAt (depth + 1)) hfind label steps 1 0 rest
  have hcalled : Constructing builder g b { m with storage := codeValue label steps :: m.storage, log := log } :=
    { h with }
  have hstack : codeValue label steps :: m.storage = [codeValue label steps] := by rw [hm]
  have hlen : (codeValue label steps :: m.storage).length = 1 := congrArg List.length hstack
  have hadd := hcalled.outcome_addPart hb hstack depth
  refine ⟨{ m with storage := [], log := log }, .of_fields m [] m.builders m.next log, ?_⟩
  rw [hrun]
  rcases hpart : (literalPart (callAt depth) g.trace (.mk label steps)).outcome { m with storage := [], log := log }
    with ⟨e | p, n⟩
  · rw [hpart] at hadd
    exact Run.outcome_bind_of_error (hcalled.outcome_call_of_error hlen hadd)
  · rw [hpart] at hadd
    obtain ⟨hstorage, hn, hadd⟩ := hadd
    have hset := hn.set { b with parts := b.parts ++ [p] } n.storage
    refine ⟨_, ?_, ?_, hset, Run.outcome_bind_of_ok (hcalled.outcome_call_of_ok hlen hadd hstorage)⟩
    · exact .of_fields n n.storage _ n.next n.log
    · exact hstorage

/-- The steps of an action under a guard. -/
theorem guarded_step (h : Constructing builder g b m) (hm : m.storage = []) (hb : b.fallback = none)
    (depth : Nat) (label label' : Label) (guard action rest : List Instr) :
    ∃ m', m.Kept m' ∧ m'.storage = [] ∧
      Constructing builder g
        { b with clauses := b.clauses ++ [(.mk label guard, .mk label' action)], hasAction := true } m' ∧
      (runSteps (callAt (depth + 1)) g
        (.code label guard :: .code label' action :: .callWith guardedName 2 0 :: rest)).outcome m =
        (runSteps (callAt (depth + 1)) g rest).outcome m' := by
  have hfind : m.scopes.find? g.scope guardedName = some (.value (.own (.callable (.addGuarded builder)))) :=
    h.find? rfl
  obtain ⟨log, hcode⟩ := outcome_runSteps_code (callAt (depth + 1)) g label guard
    (.code label' action :: .callWith guardedName 2 0 :: rest) m
  obtain ⟨log', hrun⟩ := outcome_runSteps_callCode (c := callAt (depth + 1))
    (m := { m with storage := codeValue label guard :: m.storage, log := log }) hfind label' action 2 0 rest
  have hcalled : Constructing builder g b
      { m with storage := codeValue label' action :: codeValue label guard :: m.storage, log := log' } := { h with }
  have hstack : codeValue label' action :: codeValue label guard :: m.storage =
      [codeValue label' action, codeValue label guard] := by rw [hm]
  have hlen : (codeValue label' action :: codeValue label guard :: m.storage).length = 2 :=
    congrArg List.length hstack
  have hadd := hcalled.outcome_addGuarded hb hstack
  have hset := hcalled.set
    { b with clauses := b.clauses ++ [(.mk label guard, .mk label' action)], hasAction := true } []
  exact ⟨_, .of_fields m [] _ m.next log', rfl, hset,
    hcode.trans (hrun.trans (Run.outcome_bind_of_ok (hcalled.outcome_call_of_ok hlen hadd rfl)))⟩

/-- The steps of a default. -/
theorem default_step (h : Constructing builder g b m) (hm : m.storage = []) (hb : b.fallback = none)
    (depth : Nat) (label : Label) (action rest : List Instr) :
    ∃ m', m.Kept m' ∧ m'.storage = [] ∧
      Constructing builder g { b with fallback := some (.mk label action), hasAction := true } m' ∧
      (runSteps (callAt (depth + 1)) g (.code label action :: .callWith defaultName 1 0 :: rest)).outcome m =
        (runSteps (callAt (depth + 1)) g rest).outcome m' := by
  have hfind : m.scopes.find? g.scope defaultName = some (.value (.own (.callable (.addDefault builder)))) :=
    h.find? rfl
  obtain ⟨log, hrun⟩ := outcome_runSteps_callCode (c := callAt (depth + 1)) hfind label action 1 0 rest
  have hcalled : Constructing builder g b { m with storage := codeValue label action :: m.storage, log := log } :=
    { h with }
  have hstack : codeValue label action :: m.storage = [codeValue label action] := by rw [hm]
  have hlen : (codeValue label action :: m.storage).length = 1 := congrArg List.length hstack
  have hadd := hcalled.outcome_addDefault hb hstack
  have hset := hcalled.set { b with fallback := some (.mk label action), hasAction := true } []
  exact ⟨_, .of_fields m [] _ m.next log, rfl, hset,
    hrun.trans (Run.outcome_bind_of_ok (hcalled.outcome_call_of_ok hlen hadd rfl))⟩

end Constructing

/-! ### Whole programs -/

section Whole

variable {c : Caller} {m n : Machine} {traced : Bool} {program : Code}

/-- The machine on which the program of a clause is run. -/
def Machine.constructing (m : Machine) : Machine :=
  { m with
    storage := []
    scopes := ⟨m.scopes.scopes.push (.root (builderNames m.builders.size))⟩
    builders := m.builders.push .empty }

/-- The frame in which it is run. -/
def Machine.constructionFrame (m : Machine) (traced : Bool) : Frame := ⟨m.scopes.scopes.size, View.whole, traced⟩

theorem Machine.kept_constructing (m : Machine) : m.Kept m.constructing :=
  (Machine.Kept.grow m id).trans (.of_fields _ [] (m.builders.push .empty) m.next m.log)

/-- No piece has been added at the start. -/
theorem constructing_start (hm : m.LiteralsInert) (traced : Bool) :
    Constructing m.builders.size (m.constructionFrame traced) .empty m.constructing where
  view := rfl
  names := Array.getElem?_push_size
  inert := hm.of_kept m.kept_constructing
  pieces := Array.getElem?_push_size

/-- The program is run, and then the pattern is built of the pieces. -/
theorem construct_eq (c : Caller) (m : Machine) (traced : Bool) (program : Code) :
    (construct c traced program).outcome m = (do
      match ← runAside c m.scopes.scopes.size traced program with
      | [] => ((← findBuilder m.builders.size).build : Except Fault Pattern)
      | vs => throw (construct.leftoverFault vs) : Run Pattern).outcome { m.constructing with storage := m.storage } :=
  rfl

theorem outcome_construct_of_error {e : Fault}
    (h : (runSteps c (m.constructionFrame traced) program.steps).outcome m.constructing = (.error e, n)) :
    (construct c traced program).outcome m = (.error e, { n with storage := m.storage }) := by
  rw [construct_eq]
  exact Run.outcome_bind_of_error (outcome_runAside_of_error program h)

theorem outcome_construct_of_ok {b : PatternBuilder}
    (h : (runSteps c (m.constructionFrame traced) program.steps).outcome m.constructing = (.ok (), n))
    (hs : n.storage = []) (hb : n.builders[m.builders.size]? = some b) :
    (construct c traced program).outcome m = (b.build, { n with storage := m.storage }) := by
  have haside := outcome_runAside_of_ok program (m := { m.constructing with storage := m.storage }) h
  rw [hs] at haside
  have hfind : (findBuilder m.builders.size).outcome { n with storage := m.storage } =
      (.ok b, { n with storage := m.storage }) := by
    change (Except.ok (n.builders[m.builders.size]?.getD .empty), _) = _
    rw [hb]
    rfl
  rw [construct_eq, Run.outcome_bind_of_ok haside]
  exact Run.outcome_bind_of_ok hfind

/-- What `pattern` does once its counts have been checked. -/
def replaceByPattern (c : Caller) (f : Frame) : Run Unit := do
  let v ← Run.pop f
  let program ← (v.wantCode "pattern constructor code (first arg)" : Except Fault Code)
  let p ← construct c f.trace program
  Run.push (← Run.object fun serial => .pattern serial p)

theorem callPattern_eq (c : Caller) (f : Frame) (args results : Option Int) :
    callPattern c f args results = callFixed f 1 1 args results (replaceByPattern c f) := rfl

section Call
variable {f : Frame} {label : Label} {steps : List Instr} {s : List Value}
  (hs : m.storage = codeValue label steps :: s) (hbase : f.view.base ≤ s.length)
include hs hbase

theorem outcome_replaceByPattern :
    (replaceByPattern c f).outcome m = (do
      let p ← construct c f.trace (.mk label steps)
      Run.push (← Run.object fun serial => .pattern serial p)).outcome { m with storage := s } :=
  Run.outcome_bind_of_ok (Run.outcome_pop_cons hs hbase)

/-- `pattern` fails as the program does. -/
theorem outcome_callPattern_of_error {e : Fault}
    (h : (construct c f.trace (.mk label steps)).outcome { m with storage := s } = (.error e, n)) :
    (callPattern c f (some (1 : Nat)) (some (1 : Nat))).outcome m = (.error e, n) := by
  have hbody : (replaceByPattern c f).outcome m = (.error e, n) :=
    (outcome_replaceByPattern hs hbase).trans (Run.outcome_bind_of_error h)
  have htop : m.storage = [codeValue label steps] ++ s := hs
  rw [callPattern_eq]
  exact outcome_callFixed_of_error htop rfl hbase hbody

/-- `pattern` leaves a pattern in place of the program. -/
theorem outcome_callPattern_of_ok {p : Pattern}
    (h : (construct c f.trace (.mk label steps)).outcome { m with storage := s } = (.ok p, n)) (hn : n.storage = s) :
    (callPattern c f (some (1 : Nat)) (some (1 : Nat))).outcome m =
      (.ok (), { n with storage := .own (.object (.pattern n.next p)) :: s, next := n.next + 1 }) := by
  have hbody : (replaceByPattern c f).outcome m =
      (.ok (), { n with storage := .own (.object (.pattern n.next p)) :: n.storage, next := n.next + 1 }) :=
    (outcome_replaceByPattern hs hbase).trans (Run.outcome_bind_of_ok h)
  rw [hn] at hbody
  have htop : m.storage = [codeValue label steps] ++ s := hs
  rw [callPattern_eq]
  exact outcome_callFixed_of_ok (t := [.own (.object (.pattern n.next p))]) htop rfl hbase hbody rfl rfl

end Call

end Whole

end StackCalc
