import StackCalc.Proofs.Expr.Clause
import StackCalc.Proofs.Pattern.Construct
import StackCalc.Proofs.Calculator.Requests

/-! # What a match expression means

The steps of a match run one program for each clause and hand the patterns that result to `match`. What comes
of it is said here without programs: literals are built one after the other (`BuildsParts`), clause by clause
(`BuildsPatterns`), until one fails; and what a clause does once it matches is read off the clause
(`Alternative.Means`).

The induction is on what there is to build, literals within a clause and clauses within a match. It carries
along that names go on to stand for what they did, and for literals that the pieces built so far are there. -/

namespace StackCalc

open StackCalc.Expr (codeValue compileLiterals compileActions compileClauses)

/-! ### Meaning -/

/-- The code of an expression. -/
def Expr.IsCode (e : Expr) (code : Code) : Prop := e.compile = .ok code.steps

/-- **Literals are built one after the other**, the first one first, each into the part that it stands for.
The first one that fails is the last one that is tried. -/
inductive BuildsParts (c : Caller) (traced : Bool) :
    Machine → List Expr → Except Fault (List Part) → Machine → Prop where
  | nil {m m' : Machine} (h : m.Kept m') : BuildsParts c traced m [] (.ok []) m'
  | part {m n n' m' : Machine} {e : Expr} {es : List Expr} {code : Code} {p : Part}
      {result : Except Fault (List Part)} (h : m.Kept n) (hcode : e.IsCode code)
      (hp : (literalPart c traced code).outcome n = (.ok p, n')) (hrest : BuildsParts c traced n' es result m') :
      BuildsParts c traced m (e :: es) (result.map (p :: ·)) m'
  | fails {m n n' m' : Machine} {e : Expr} {es : List Expr} {code : Code} {fault : Fault} (h : m.Kept n)
      (hcode : e.IsCode code) (hp : (literalPart c traced code).outcome n = (.error fault, n')) (h' : n'.Kept m') :
      BuildsParts c traced m (e :: es) (.error fault) m'

/-- **The pattern of a clause whose literals have become these parts**: the code of its one action without
guards, and the guarded actions and the default of any other. -/
inductive Alternative.Means : Alternative → List Part → Pattern → Prop where
  | plain {literals : List Expr} {d : Expr} {action : Code} (parts : List Part) (hd : d.IsCode action) :
      Means ⟨literals, [], some d⟩ parts (.plain parts action)
  | guarded {literals : List Expr} {guarded : List (Expr × Expr)} {fallback : Option Expr}
      {clauses : List (Code × Code)} {default? : Option Code} (parts : List Part) (hne : guarded ≠ [])
      (hguarded : List.Forall₂ (fun e c => e.1.IsCode c.1 ∧ e.2.IsCode c.2) guarded clauses)
      (hfallback : Option.Rel Expr.IsCode fallback default?) :
      Means ⟨literals, guarded, fallback⟩ parts (.guarded parts clauses default?)

/-- **Clauses are built one after the other.** -/
inductive BuildsPatterns (c : Caller) (traced : Bool) :
    Machine → List Alternative → Except Fault (List Pattern) → Machine → Prop where
  | nil {m m' : Machine} (h : m.Kept m') : BuildsPatterns c traced m [] (.ok []) m'
  | pattern {m n m' : Machine} {a : Alternative} {as : List Alternative} {parts : List Part} {p : Pattern}
      {result : Except Fault (List Pattern)} (hparts : BuildsParts c traced m a.literals (.ok parts) n)
      (hp : a.Means parts p) (hrest : BuildsPatterns c traced n as result m') :
      BuildsPatterns c traced m (a :: as) (result.map (p :: ·)) m'
  | fails {m m' : Machine} {a : Alternative} {as : List Alternative} {fault : Fault}
      (hparts : BuildsParts c traced m a.literals (.error fault) m') :
      BuildsPatterns c traced m (a :: as) (.error fault) m'

namespace BuildsParts

variable {c : Caller} {traced : Bool} {m n o : Machine} {es : List Expr} {result : Except Fault (List Part)}

theorem of_kept (h : m.Kept n) (hn : BuildsParts c traced n es result o) : BuildsParts c traced m es result o := by
  cases hn with
  | nil h' => exact .nil (h.trans h')
  | part h' hcode hp hrest => exact .part (h.trans h') hcode hp hrest
  | fails h' hcode hp h'' => exact .fails (h.trans h') hcode hp h''

theorem trans_kept (hm : BuildsParts c traced m es result n) (h : n.Kept o) : BuildsParts c traced m es result o := by
  induction hm with
  | nil h' => exact .nil (h'.trans h)
  | part h' hcode hp _ ih => exact .part h' hcode hp (ih h)
  | fails h' hcode hp h'' => exact .fails h' hcode hp (h''.trans h)

/-- Whether the literals are built or one fails, what building leaves alone stays. -/
theorem kept {depth : Nat} (hinert : m.LiteralsInert) (hm : BuildsParts (callAt depth) traced m es result n) :
    m.Kept n := by
  induction hm with
  | nil h => exact h
  | @part m n n' m' e es code p result h hcode hp hrest ih =>
    have hn := hinert.of_kept h
    have hpart := Machine.Kept.literalPart hn depth traced code
    rw [hp] at hpart
    exact h.trans (hpart.trans (ih (hn.of_kept hpart)))
  | @fails m n n' m' e es code fault h hcode hp h' =>
    have hpart := Machine.Kept.literalPart (hinert.of_kept h) depth traced code
    rw [hp] at hpart
    exact h.trans (hpart.trans h')

end BuildsParts

namespace BuildsPatterns

variable {traced : Bool} {m n o : Machine} {as : List Alternative} {result : Except Fault (List Pattern)}

theorem trans_kept {c : Caller} (hm : BuildsPatterns c traced m as result n) (h : n.Kept o) :
    BuildsPatterns c traced m as result o := by
  induction hm with
  | nil h' => exact .nil (h'.trans h)
  | pattern hparts hp _ ih => exact .pattern hparts hp (ih h)
  | fails hparts => exact .fails (hparts.trans_kept h)

theorem kept {depth : Nat} (hinert : m.LiteralsInert) (hm : BuildsPatterns (callAt depth) traced m as result n) :
    m.Kept n := by
  induction hm with
  | nil h => exact h
  | pattern hparts hp _ ih =>
    have hkept := hparts.kept hinert
    exact hkept.trans (ih (hinert.of_kept hkept))
  | fails hparts => exact hparts.kept hinert

end BuildsPatterns

/-! ### Running the program of a clause -/

section Program

variable {serial i builder : Nat} {g : Frame} (depth : Nat)

/-- **The steps of the literals of a clause** build them one after the other. -/
theorem runSteps_literals : ∀ (es : List Expr) (j : Nat) {steps : List Instr} (rest : List Instr) {b : PatternBuilder}
    {m : Machine}, compileLiterals serial i j es = .ok steps → Constructing builder g b m → m.storage = [] →
    b.hasAction = false →
    ∃ result m', BuildsParts (callAt depth) g.trace m es result m' ∧ match result with
      | .error fault => (runSteps (callAt (depth + 1)) g (steps ++ rest)).outcome m = (.error fault, m')
      | .ok parts => m'.storage = [] ∧ Constructing builder g { b with parts := b.parts ++ parts } m' ∧
        (runSteps (callAt (depth + 1)) g (steps ++ rest)).outcome m = (runSteps (callAt (depth + 1)) g rest).outcome m'
  | [], j, steps, rest, b, m, h, hm, hs, hb => by
    cases h
    refine ⟨.ok [], m, .nil (.refl m), hs, ?_, rfl⟩
    rw [List.append_nil]
    exact hm
  | e :: es, j, steps, rest, b, m, h, hm, hs, hb => by
    obtain ⟨literal, hliteral, h⟩ := exists_of_bind_ok h
    obtain ⟨others, hothers, h⟩ := exists_of_bind_ok h
    cases h
    obtain ⟨n, hn, hstep⟩ := hm.literal_step hs hb depth [serial, i, 0, j] literal (others ++ rest)
    have hcode : e.IsCode (.mk [serial, i, 0, j] literal) := hliteral
    rcases hpart : (literalPart (callAt depth) g.trace (.mk [serial, i, 0, j] literal)).outcome n with ⟨fault | p, n'⟩
    · rw [hpart] at hstep
      exact ⟨.error fault, n', .fails hn hcode hpart (.refl n'), hstep⟩
    · rw [hpart] at hstep
      obtain ⟨m₁, hm₁, hs₁, hconstructing, hstep⟩ := hstep
      obtain ⟨result, m', hparts, hrun⟩ := runSteps_literals es (j + 1) rest hothers hconstructing hs₁ hb
      refine ⟨result.map (p :: ·), m', .part hn hcode hpart (.of_kept hm₁ hparts), ?_⟩
      rcases result with fault | parts
      · exact hstep.trans hrun
      · obtain ⟨hs', hconstructing', hrun⟩ := hrun
        rw [List.append_assoc] at hconstructing'
        exact ⟨hs', hconstructing', hstep.trans hrun⟩

/-- **The steps of the actions of a clause** add them in order, and then the fallback, if there is one. -/
theorem runSteps_actions (fallback : Option Expr) : ∀ (guarded : List (Expr × Expr)) (j : Nat) {steps : List Instr}
    {b : PatternBuilder} {m : Machine}, compileActions serial i j (Action.listOf guarded fallback) = .ok steps →
    Constructing builder g b m → m.storage = [] → b.fallback = none →
    ∃ clauses default? acted m', List.Forall₂ (fun e c => e.1.IsCode c.1 ∧ e.2.IsCode c.2) guarded clauses ∧
      Option.Rel Expr.IsCode fallback default? ∧ m.Kept m' ∧ m'.storage = [] ∧
      Constructing builder g
        { b with clauses := b.clauses ++ clauses, fallback := default?, hasAction := acted } m' ∧
      (runSteps (callAt (depth + 1)) g steps).outcome m = (.ok (), m')
  | [], j, steps, b, m, h, hm, hs, hb => by
    cases fallback with
    | none =>
      cases h
      refine ⟨[], none, b.hasAction, m, .nil, .none, .refl m, hs, ?_, rfl⟩
      rw [List.append_nil, ← hb]
      exact hm
    | some d =>
      obtain ⟨action, haction, h⟩ := exists_of_bind_ok h
      cases h
      obtain ⟨m', hkept, hs', hm', hrun⟩ := hm.default_step hs hb depth [serial, i, 1, j, 1] action []
      refine ⟨[], some (.mk [serial, i, 1, j, 1] action), true, m', .nil, .some haction, hkept, hs', ?_, hrun⟩
      rw [List.append_nil]
      exact hm'
  | (guard, action) :: guarded, j, steps, b, m, h, hm, hs, hb => by
    obtain ⟨guardSteps, hguard, h⟩ := exists_of_bind_ok h
    obtain ⟨actionSteps, haction, h⟩ := exists_of_bind_ok h
    obtain ⟨others, hothers, h⟩ := exists_of_bind_ok h
    cases h
    obtain ⟨m₁, hkept₁, hs₁, hm₁, hrun₁⟩ := hm.guarded_step hs hb depth
      [serial, i, 1, j, 0] [serial, i, 1, j, 1] guardSteps actionSteps others
    obtain ⟨clauses, default?, acted, m', hclauses, hdefault, hkept, hs', hm', hrun⟩ :=
      runSteps_actions fallback guarded (j + 1) hothers hm₁ hs₁ hb
    rw [List.append_assoc] at hm'
    exact ⟨(.mk [serial, i, 1, j, 0] guardSteps, .mk [serial, i, 1, j, 1] actionSteps) :: clauses, default?, acted, m',
      .cons ⟨hguard, haction⟩ hclauses, hdefault, hkept₁.trans hkept, hs', hm', hrun₁.trans hrun⟩

end Program

/-! ### Building the pattern of a clause -/

/-- The value is this pattern. -/
def Value.IsPattern (v : Value) (p : Pattern) : Prop := ∃ serial, v = .own (.object (.pattern serial p))

/-- The pattern of the pieces of a clause that has an action. -/
theorem exists_build {a : Alternative} (haction : a.guarded = [] → ∃ d, a.fallback = some d) (parts : List Part)
    {clauses : List (Code × Code)} {default? : Option Code}
    (hguarded : List.Forall₂ (fun e c => e.1.IsCode c.1 ∧ e.2.IsCode c.2) a.guarded clauses)
    (hfallback : Option.Rel Expr.IsCode a.fallback default?) (acted : Bool) :
    ∃ p, a.Means parts p ∧ PatternBuilder.build ⟨parts, clauses, default?, acted⟩ = .ok p := by
  obtain ⟨literals, guarded, fallback⟩ := a
  cases hguarded with
  | nil =>
    obtain ⟨d, hd⟩ := haction rfl
    dsimp only at hd
    subst hd
    cases hfallback with
    | some hd => exact ⟨_, .plain parts hd, rfl⟩
  | cons h hguarded => exact ⟨_, .guarded parts (List.cons_ne_nil _ _) (.cons h hguarded) hfallback, rfl⟩

section Clauses

variable {serial i : Nat} {m : Machine} (depth : Nat)

/-- **The program of a clause builds its pattern**, or fails as the first of its literals that does. -/
theorem outcome_construct {a : Alternative} (haction : a.guarded = [] → ∃ d, a.fallback = some d)
    {parts acts : List Instr} (hparts : compileLiterals serial i 0 a.literals = .ok parts)
    (hacts : compileActions serial i 0 (Action.listOf a.guarded a.fallback) = .ok acts) (hm : m.LiteralsInert)
    (traced : Bool) (label : Label) :
    ∃ result m', BuildsParts (callAt depth) traced m a.literals result m' ∧ match result with
      | .error fault =>
        (construct (callAt (depth + 1)) traced (.mk label (parts ++ acts))).outcome m = (.error fault, m')
      | .ok ps => ∃ p, a.Means ps p ∧ m'.storage = m.storage ∧
        (construct (callAt (depth + 1)) traced (.mk label (parts ++ acts))).outcome m = (.ok p, m') := by
  obtain ⟨result, n, hbuilt, hrun⟩ := runSteps_literals depth a.literals 0 acts hparts
    (constructing_start hm traced) rfl rfl
  have hbuilt : BuildsParts (callAt depth) traced m a.literals result n := hbuilt.of_kept m.kept_constructing
  rcases result with fault | ps
  · exact ⟨.error fault, { n with storage := m.storage }, hbuilt.trans_kept (.of_fields n _ n.builders n.next n.log),
      outcome_construct_of_error hrun⟩
  · obtain ⟨hs, hn, hrun⟩ := hrun
    obtain ⟨clauses, default?, acted, n', hclauses, hdefault, hkept, hs', hn', hactions⟩ :=
      runSteps_actions depth a.fallback a.guarded 0 hacts hn hs rfl
    obtain ⟨p, hp, hbuild⟩ := exists_build haction ps hclauses hdefault acted
    have hend : n.Kept { n' with storage := m.storage } := hkept.trans (.of_fields n' _ n'.builders n'.next n'.log)
    refine ⟨.ok ps, { n' with storage := m.storage }, hbuilt.trans_kept hend, p, hp, rfl, ?_⟩
    rw [outcome_construct_of_ok (hrun.trans hactions) hs' hn'.pieces]
    exact congrArg (·, _) hbuild

/-- `pattern` leaves the pattern of the clause in place of its program. -/
theorem outcome_callPattern {a : Alternative} (haction : a.guarded = [] → ∃ d, a.fallback = some d)
    {parts acts : List Instr} (hparts : compileLiterals serial i 0 a.literals = .ok parts)
    (hacts : compileActions serial i 0 (Action.listOf a.guarded a.fallback) = .ok acts) (hm : m.LiteralsInert)
    {label : Label} {f : Frame} {s : List Value} (hs : m.storage = codeValue label (parts ++ acts) :: s)
    (hbase : f.view.base ≤ s.length) :
    ∃ result m', BuildsParts (callAt depth) f.trace m a.literals result m' ∧ match result with
      | .error fault =>
        (callPattern (callAt (depth + 1)) f (some (1 : Nat)) (some (1 : Nat))).outcome m = (.error fault, m')
      | .ok ps => ∃ p v, a.Means ps p ∧ v.IsPattern p ∧ m'.storage = v :: s ∧
        (callPattern (callAt (depth + 1)) f (some (1 : Nat)) (some (1 : Nat))).outcome m = (.ok (), m') := by
  have hinert : Machine.LiteralsInert { m with storage := s } := hm
  obtain ⟨result, n, hbuilt, hrun⟩ := outcome_construct depth haction hparts hacts
    hinert f.trace label
  have hbuilt : BuildsParts (callAt depth) f.trace m a.literals result n :=
    hbuilt.of_kept (.of_fields m s m.builders m.next m.log)
  rcases result with fault | ps
  · exact ⟨.error fault, n, hbuilt, outcome_callPattern_of_error hs hbase hrun⟩
  · obtain ⟨p, hp, hn, hrun⟩ := hrun
    refine ⟨.ok ps, _, hbuilt.trans_kept ?_, p, .own (.object (.pattern n.next p)), hp, ⟨n.next, rfl⟩, ?_,
      outcome_callPattern_of_ok hs hbase hrun hn⟩
    · exact .of_fields n _ n.builders (n.next + 1) n.log
    · rfl

/-- **The steps of clauses push the patterns of the clauses**, or fail as the first literal that does. -/
theorem runSteps_clauses {f : Frame} {v : Value} (hv : v.payload = .callable (.builtin .pattern)) :
    ∀ (as : List Alternative) (i : Nat) {steps : List Instr} (rest : List Instr) {m : Machine},
      compileClauses serial i (as.map Alternative.toClause) = .ok steps →
      (∀ a ∈ as, a.guarded = [] → ∃ d, a.fallback = some d) → m.LiteralsInert →
      m.scopes.find? f.scope patternName = some (.value v) → f.view.base ≤ m.storage.length →
      ∃ result m', BuildsPatterns (callAt depth) f.trace m as result m' ∧ match result with
        | .error fault => (runSteps (callAt (depth + 2)) f (steps ++ rest)).outcome m = (.error fault, m')
        | .ok patterns => ∃ vs, vs.length = as.length ∧ List.Forall₂ Value.IsPattern vs patterns ∧
          m'.storage = vs.reverse ++ m.storage ∧
          (runSteps (callAt (depth + 2)) f (steps ++ rest)).outcome m =
            (runSteps (callAt (depth + 2)) f rest).outcome m'
  | [], i, steps, rest, m, h, _, _, _, _ => by
    cases h
    exact ⟨.ok [], m, .nil (.refl m), [], rfl, .nil, rfl, rfl⟩
  | a :: as, i, steps, rest, m, h, hactions, hm, hfind, hbase => by
    obtain ⟨parts, hparts, h⟩ := exists_of_bind_ok h
    obtain ⟨acts, hacts, h⟩ := exists_of_bind_ok h
    obtain ⟨others, hothers, h⟩ := exists_of_bind_ok h
    cases h
    obtain ⟨log, hrun⟩ := outcome_runSteps_callCode (c := callAt (depth + 2)) hfind [serial, i] (parts ++ acts) 1 1
      (others ++ rest)
    have hcall : callAt (depth + 2) f v (some (1 : Nat)) (some (1 : Nat)) =
        callPattern (callAt (depth + 1)) f (some (1 : Nat)) (some (1 : Nat)) := callAt_of_callable hv _ f _ _
    rw [hcall] at hrun
    obtain ⟨result, n, hbuilt, hpattern⟩ := outcome_callPattern depth
      (m := { m with storage := codeValue [serial, i] (parts ++ acts) :: m.storage, log := log })
      (hactions a List.mem_cons_self) hparts hacts hm rfl hbase
    have hbuilt : BuildsParts (callAt depth) f.trace m a.literals result n :=
      hbuilt.of_kept (.of_fields m _ m.builders m.next log)
    rcases result with fault | ps
    · exact ⟨.error fault, n, .fails hbuilt, hrun.trans (Run.outcome_bind_of_error hpattern)⟩
    · obtain ⟨p, v, hp, hv', hn, hpattern⟩ := hpattern
      have hkept := hbuilt.kept hm
      have hbase' : f.view.base ≤ n.storage.length := by
        rw [hn, List.length_cons]
        exact Nat.le_succ_of_le hbase
      obtain ⟨result, m', hbuilt', hrun'⟩ := runSteps_clauses hv as (i + 1) rest hothers
        (fun a ha => hactions a (List.mem_cons_of_mem _ ha)) (hm.of_kept hkept) (hkept.find? hfind) hbase'
      have hstep := hrun.trans (Run.outcome_bind_of_ok hpattern)
      refine ⟨result.map (p :: ·), m', .pattern hbuilt hp hbuilt', ?_⟩
      rcases result with fault | patterns
      · exact hstep.trans hrun'
      · obtain ⟨vs, hlen, hvs, hs', hrun'⟩ := hrun'
        refine ⟨v :: vs, congrArg (· + 1) hlen, .cons hv' hvs, ?_, hstep.trans hrun'⟩
        rw [hs', hn, List.reverse_cons, List.append_assoc]
        rfl

end Clauses

/-! ### Bundling the patterns -/

/-- The patterns on the stack are popped last first, and come out first first. -/
theorem outcome_popPatterns {f : Frame} {s : List Value} (hbase : f.view.base ≤ s.length) :
    ∀ {us : List Value} {ps : List Pattern}, List.Forall₂ Value.IsPattern us ps → ∀ {m : Machine},
      m.storage = us ++ s → (popPatterns f us.length).outcome m = (.ok ps.reverse, { m with storage := s })
  | [], _, .nil, m, hm => by
    have hstorage : m.storage = s := hm
    subst hstorage
    rfl
  | u :: us, p :: ps, .cons hu hus, m, hm => by
    obtain ⟨serial, rfl⟩ := hu
    have hpop : (Run.pop f).outcome m = (.ok (.own (.object (.pattern serial p))), { m with storage := us ++ s }) :=
      Run.outcome_pop_cons hm (by rw [List.length_append]; omega)
    have hwant : wantPattern (.own (.object (.pattern serial p))) = .ok p := rfl
    have hrest := outcome_popPatterns hbase hus (m := { m with storage := us ++ s }) rfl
    rw [List.length_cons, popPatterns, Run.outcome_bind_of_ok hpop, Run.outcome_lift_bind, hwant]
    dsimp only
    rw [Run.outcome_bind_of_ok hrest, List.reverse_cons]
    rfl

/-- `match` leaves one function in place of the patterns, over the scope of the frame. -/
theorem outcome_callMatch {f : Frame} {vs s : List Value} {patterns : List Pattern} {m : Machine}
    (hvs : List.Forall₂ Value.IsPattern vs patterns) (hm : m.storage = vs.reverse ++ s)
    (hbase : f.view.base ≤ s.length) :
    (callMatch f (some vs.length) (some (1 : Nat))).outcome m =
      (.ok (), { m with
        storage := .own (.callable (.matching m.next f.scope patterns)) :: s
        next := m.next + 1 }) := by
  have hpatterns := outcome_popPatterns hbase (List.rel_reverse hvs) hm
  rw [List.length_reverse, List.reverse_reverse] at hpatterns
  have hmade : (do
      let patterns ← popPatterns f (Int.toNat vs.length)
      Run.callable fun serial => .matching serial f.scope patterns).outcome m =
      (.ok (.own (.callable (.matching m.next f.scope patterns))), { m with storage := s, next := m.next + 1 }) :=
    Run.outcome_bind_of_ok hpatterns
  rw [callMatch, callSingle_eq]
  exact Run.outcome_bind_of_ok hmade

/-! ### Whole matches -/

/-- **The literals of a calculator call nothing**, whatever has been asked of it and whatever a run on it has done
so far: patterns know the constants. -/
theorem Calculator.Reached.literalsInert {ok : Request → Prop} {c : Calculator} (h : Reached ok c) {m : Machine}
    (hm : c.machine.Within (some globalScope) m) : m.LiteralsInert := by
  have hknown : KnowsConstants { c with machine := m } := stable_knowsConstants.grows m h.knowsConstants hm.scopes
  have hconstants : ∀ e ∈ constants, ¬ e.2.IsFunction := by
    simp [constants, Value.IsFunction, Value.own, Value.payload]
  exact ⟨constants, hknown.2, hconstants⟩

/-- **A match expression means its clauses.** Where `match` and `pattern` are what they are by default, the steps
of a match build the patterns of its clauses, in order. If a literal fails they fail with the same fault, and no
literal after it has been run. Otherwise they leave exactly one value on top of what was on the stack: a function
over the scope of the frame that tries these patterns. Apart from that the machine is kept.

Two calls have to nest, `pattern` and the function that adds a piece; a literal calls nothing but values, as what
patterns know are the constants (`Calculator.Reached.literalsInert`). -/
theorem runSteps_matchOf {number : Nat} {children : List Expr} {e : Expr} {steps : List Instr}
    (he : Expr.matchOf number children = .ok e) (hsteps : e.compile = .ok steps) {f : Frame} {m : Machine}
    (hbase : f.view.base ≤ m.storage.length) (hm : m.LiteralsInert) {v w : Value}
    (hmatch : m.scopes.find? f.scope matchName = some (.value v))
    (hv : v.payload = .callable (.builtin .matchSymbol))
    (hpattern : m.scopes.find? f.scope patternName = some (.value w))
    (hw : w.payload = .callable (.builtin .pattern)) (depth : Nat) :
    ∃ alternatives result n, List.Forall₂ IsClause children alternatives ∧
      BuildsPatterns (callAt depth) f.trace m alternatives result n ∧ m.Kept n ∧ match result with
        | .error fault => (runSteps (callAt (depth + 2)) f steps).outcome m = (.error fault, n)
        | .ok patterns => ∃ serial, n.storage = .own (.callable (.matching serial f.scope patterns)) :: m.storage ∧
          (runSteps (callAt (depth + 2)) f steps).outcome m = (.ok (), n) := by
  obtain ⟨-, alternatives, hforms, rfl⟩ := matchOf_eq_ok_iff.1 he
  obtain ⟨patternSteps, hclauses, hsteps⟩ := exists_of_bind_ok hsteps
  cases hsteps
  obtain ⟨result, n, hbuilt, hrun⟩ := runSteps_clauses depth hw alternatives 0
    [.callWith matchName (alternatives.map Alternative.toClause).length 1] hclauses (hasAction_of_forms hforms) hm
    hpattern hbase
  have hkept := hbuilt.kept hm
  rcases result with fault | patterns
  · exact ⟨alternatives, .error fault, n, hforms, hbuilt, hkept, hrun⟩
  · obtain ⟨vs, hlen, hvs, hn, hrun⟩ := hrun
    have hcount : vs.length = (alternatives.map Alternative.toClause).length := by rw [hlen, List.length_map]
    obtain ⟨log, hcall⟩ := outcome_runSteps_call (c := callAt (depth + 2)) (hkept.find? hmatch)
      (alternatives.map Alternative.toClause).length 1 []
    rw [callAt_of_callable hv] at hcall
    have hmade := outcome_callMatch (m := { n with log := log }) hvs hn hbase
    rw [hcount] at hmade
    have hend : n.Kept { n with
        storage := .own (.callable (.matching n.next f.scope patterns)) :: m.storage
        next := n.next + 1
        log := log } := .of_fields n _ n.builders (n.next + 1) log
    exact ⟨alternatives, .ok patterns, _, hforms, hbuilt.trans_kept hend, hkept.trans hend, n.next, rfl,
      (hrun.trans hcall).trans (Run.outcome_bind_of_ok hmade)⟩

/-- The clauses `(true, x) -> x` and `(_) \ g -> x \ null`. -/
def twoClauses : List Expr :=
  [.binary .lambda (.bracket [.name "true", .name "x"]) (.name "x"),
    .binary .split (.bracket [.name "_"])
      (.binary .split (.binary .lambda (.name "g") (.name "x")) (.value (.own .null)))]

/-- A match of two clauses, in the global scope of a new calculator. -/
theorem runSteps_matchOf_twoClauses :
    let f : Frame := ⟨globalScope, View.whole, false⟩
    let m := (Calculator.bare false false).machine
    ∃ e steps v w, Expr.matchOf 0 twoClauses = .ok e ∧ e.compile = .ok steps ∧
      f.view.base ≤ m.storage.length ∧ m.LiteralsInert ∧
      m.scopes.find? f.scope matchName = some (.value v) ∧ v.payload = .callable (.builtin .matchSymbol) ∧
      m.scopes.find? f.scope patternName = some (.value w) ∧ w.payload = .callable (.builtin .pattern) ∧
      ∃ alternatives result n, List.Forall₂ IsClause twoClauses alternatives ∧
        BuildsPatterns (callAt 0) false m alternatives result n ∧ m.Kept n ∧ match result with
          | .error fault => (runSteps (callAt 2) f steps).outcome m = (.error fault, n)
          | .ok patterns => ∃ serial, n.storage = [.own (.callable (.matching serial globalScope patterns))] ∧
            (runSteps (callAt 2) f steps).outcome m = (.ok (), n) := by
  intro f m
  have hreached : Calculator.Reached (fun _ => True) (Calculator.bare false false) := .bare false false
  have hinert : m.LiteralsInert := hreached.literalsInert (.refl _ m)
  have hmatch : Expr.matchOf 0 twoClauses = .ok (.matching 0 [
      .mk [.name "true", .name "x"] [.fallback (.name "x")],
      .mk [.name "_"] [.guarded (.name "g") (.name "x"), .fallback (.value (.own .null))]]) := rfl
  exact ⟨_, _, .own (.callable (.builtin .matchSymbol)), .own (.callable (.builtin .pattern)), rfl, rfl,
    Nat.zero_le _, hinert, rfl, rfl, rfl, rfl,
    runSteps_matchOf hmatch rfl (f := f) (m := m) (Nat.zero_le _) hinert
      (v := .own (.callable (.builtin .matchSymbol))) (w := .own (.callable (.builtin .pattern))) rfl rfl rfl rfl 0⟩

end StackCalc
