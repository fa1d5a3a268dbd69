import StackCalc.Proofs.Run.Outcome

/-! # Runs that are watched

A run that is watched comes with its chronicle: the events of the run, in the order in which they happen. Each
step that is taken is an event, before all that happens while it is taken, and so is every record that the
functions of the machine keep of their own. That a step is an event has nothing to do with the traces of frames:
`runSteps` puts it down for every step that it takes, in whatever frame.

The functions of the machine that run code are written here as watched runs, each after its own shape. All others
take no steps (`still`). -/

namespace StackCalc

/-- **A run, with the events of the run on each machine.** -/
structure Watched (α : Type) where
  run : Run α
  events : Machine → List Event

namespace Watched

/-- A run that takes no steps: its events are the other records that it keeps. -/
def still {α : Type} (r : Run α) : Watched α where
  run := r
  events m := ((r.outcome m).2.log.toList.drop m.log.toList.length).filter fun e => !e.isStep

/-- A step is about to be taken. -/
def mark (f : Frame) (i : Instr) : Watched Unit where
  run := trace f i
  events m := [.step i (f.view.values m.storage)]

/-- The second run happens after the first one, on the machine that that has left, or not at all. -/
def followedBy {α β : Type} (w : Watched α) (k : α → Watched β) : Watched β where
  run := w.run >>= fun a => (k a).run
  events m := w.events m ++
    match w.run.outcome m with
    | (.ok a, m') => (k a).events m'
    | (.error _, _) => []

instance : Monad Watched where
  pure a := still (pure a)
  bind := followedBy

/-- On an empty stack. -/
def aside {α : Type} (w : Watched α) : Watched α where
  run := Run.aside w.run
  events m := w.events { m with storage := [] }

/-- How a value is called, watched. -/
abbrev Caller := Frame → Value → (args results : Option Int) → Watched Unit

/-! ### Steps -/

def callSymbol (call : Caller) (f : Frame) (args results : Option Int) : Symbol → Watched Unit
  | .value v => call f v args results
  | .placeholder name => still (callPlaceholder f name args results)

/-- Only calls run code. -/
def step (call : Caller) (f : Frame) : Instr → Watched Unit
  | .call name args results => do callSymbol call f args results (← still (resolve f name))
  | i => still (StackCalc.step (fun _ _ _ _ => pure ()) f i)

/-- Every step is put down before it is taken. -/
def runSteps (call : Caller) (f : Frame) : List Instr → Watched Unit
  | [] => still (pure ())
  | i :: rest => do
    mark f i
    step call f i
    runSteps call f rest

def runAside (call : Caller) (scope : ScopeId) (traced : Bool) (code : Code) : Watched (List Value) :=
  aside do
    let f : Frame := ⟨scope, View.whole, traced⟩
    runSteps call f code.steps
    still (Run.values f)

/-! ### Selecting an alternative -/

def runGuard (call : Caller) (bindings : ScopeId) (traced : Bool) (guard : Code) : Watched Bool := do
  let scope ← still (Run.grow (.shield bindings))
  match ← runAside call scope traced guard with
  | [v] => still (pure v.truthy)
  | vs => still (throw (.guardResults vs.length))

def selectClause (call : Caller) (bindings : ScopeId) (traced : Bool) (fallback : Option Code) :
    List (Code × Code) → Watched (Option Code)
  | [] => still (pure fallback)
  | (guard, action) :: rest => do
    if ← runGuard call bindings traced guard then still (pure (some action))
    else selectClause call bindings traced fallback rest

def selectAction (call : Caller) (bindings : ScopeId) (traced : Bool) : Pattern → Watched (Option Code)
  | .plain _ action => still (pure (some action))
  | .guarded _ clauses fallback => selectClause call bindings traced fallback clauses

def select (call : Caller) (env bindings : ScopeId) (traced : Bool) (p : Pattern) (vs : List Value) :
    Watched (Option Code) := do
  let m ← still get
  let (accepted, made) := Matching.outcome (p.accepts (m.scopes.find? env) vs) []
  still (Run.putAll bindings made)
  match accepted with
  | .error f => still (throw f)
  | .ok false => still (pure none)
  | .ok true => selectAction call bindings traced p

def callMatching (call : Caller) (f : Frame) (scope : ScopeId) (args results : Option Int) (total : Nat) :
    Nat → List Pattern → Watched Unit
  | _, [] => still (throw .noAlternative)
  | index, p :: rest => do
    let required := p.parts.length
    if suits required args (← still (Run.size f)) then
      let candidates ← still (Run.sub f required)
      let bindings ← still (Run.grow (.layer scope []))
      let m ← still get
      match ← select call scope bindings f.trace p (candidates.values m.storage) with
      | none => callMatching call f scope args results total (index + 1) rest
      | some action => do
        still (Run.note (.alternative (index + 1) total))
        still (modify fun m => { m with storage := candidates.clear m.storage })
        let frame ← still (Run.inner f bindings 0)
        runSteps call frame action.steps
        still (Run.checkResults frame results)
    else callMatching call f scope args results total (index + 1) rest

/-! ### Constructing patterns -/

def addPart (call : Caller) (f : Frame) (builder : Nat) : Watched Unit := do
  let v ← still (Run.pop f)
  let code ← still (liftM (v.wantCode "variable pattern"))
  let literals ← still (Run.grow (.literal patternScope))
  match ← runAside call literals f.trace code with
  | [v] => still do
    let b ← findBuilder builder
    setBuilder builder (← (b.addPart (Part.ofValue v) : Except Fault PatternBuilder))
  | vs => still (throw (addPart.literalFault vs))

def construct (call : Caller) (traced : Bool) (program : Code) : Watched Pattern := do
  let builder ← still newBuilder
  let scope ← still (Run.grow (.root
    [(partName, .own (.callable (.addPart builder))),
      (guardedName, .own (.callable (.addGuarded builder))),
      (defaultName, .own (.callable (.addDefault builder)))]))
  match ← runAside call scope traced program with
  | [] => still do (← findBuilder builder).build
  | vs => still (throw (construct.leftoverFault vs))

/-! ### Calls -/

def callFixed (f : Frame) (takes gives : Nat) (args results : Option Int) (body : Watched Unit) : Watched Unit := do
  still (Run.wants args takes (.argumentCount takes))
  still (Run.wants results gives (.resultCount gives))
  let before ← still (Run.size f)
  if before < takes then still (throw (.tooFewValues takes before))
  else do
    body
    let after ← still (Run.size f)
    if after ≠ before - takes + gives then
      still (throw (.unbalancedCall after (before - takes + gives) takes gives))
    else still (pure ())

def callWithMembers (call : Caller) (f : Frame) (args results : Option Int) : Watched Unit :=
  callFixed f 2 1 args results do
    let v ← still (Run.pop f)
    let code ← still (liftM (v.wantCode "'with' block"))
    let target ← still (Run.pop f)
    match target.members? with
    | none => still (throw (target.faultWith fun s => .noMembers s "'with' target"))
    | some members => do
      let scope ← still (Run.grow (.layer f.scope []))
      still (Run.putAll scope members.toList)
      match ← runAside call scope f.trace code with
      | [v] => still (Run.push v)
      | vs => still (throw (.resultsLeft vs.length 1))

def callPattern (call : Caller) (f : Frame) (args results : Option Int) : Watched Unit :=
  callFixed f 1 1 args results do
    let v ← still (Run.pop f)
    let program ← still (liftM (v.wantCode "pattern constructor code (first arg)"))
    let p ← construct call f.trace program
    still do Run.push (← Run.object fun serial => .pattern serial p)

def callApply (call : Caller) (f : Frame) (args results : Option Int) : Watched Unit :=
  match args with
  | none => still (throw .applyWithoutTarget)
  | some n =>
    if n < 1 then still (throw .applyWithoutTarget)
    else do
      match ← still (Run.take f n) with
      | [] => still (throw .applyWithoutTarget)
      | target :: given => do
        still (Run.pushAll given)
        call f target (some (n - 1)) results

def callExecute (call : Caller) (f : Frame) (args results : Option Int) : Watched Unit := do
  still (Run.wants args 1 .executeArguments)
  let v ← still (Run.pop f)
  let code ← still (liftM (v.wantCode "'execute' argument"))
  let frame ← still (Run.inner f f.scope 0)
  runSteps call frame code.steps
  still (Run.checkResults frame results)

def callClosure (call : Caller) (f : Frame) (params : List Text) (body : List Instr) (scope : ScopeId)
    (args results : Option Int) : Watched Unit := do
  still (Run.wants args params.length (.functionArguments params.length))
  let frame ← still (Run.inner f scope params.length)
  let given ← still (Run.values frame)
  still (modify fun m => { m with storage := frame.view.clear m.storage })
  still (Run.putAll frame.scope (params.zip given))
  runSteps call frame body
  still (Run.checkResults frame results)

/-- Four of the builtin functions run code. -/
def callBuiltin (call : Caller) (f : Frame) (b : Builtin) (args results : Option Int) : Watched Unit :=
  match b with
  | .apply => callApply call f args results
  | .withMembers => callWithMembers call f args results
  | .execute => callExecute call f args results
  | .pattern => callPattern call f args results
  | b => still (StackCalc.callBuiltin (fun _ _ _ _ => pure ()) f b args results)

def callCallable (call : Caller) (f : Frame) (args results : Option Int) : Callable → Watched Unit
  | .builtin b => callBuiltin call f b args results
  | .closure _ params body scope => callClosure call f params body scope args results
  | .matching _ scope patterns => callMatching call f scope args results patterns.length 0 patterns
  | .addPart builder => callFixed f 1 0 args results (addPart call f builder)
  | h => still (StackCalc.callCallable (fun _ _ _ _ => pure ()) f args results h)

/-- Only a callable runs code when it is called. -/
def callWith (call : Caller) : Caller := fun f v args results =>
  match v.payload with
  | .callable h => callCallable call f args results h
  | _ => still (StackCalc.callWith (fun _ _ _ _ => pure ()) f v args results)

/-- **A call, watched**, at any depth. -/
def callAt : Nat → Caller
  | 0 => fun _ _ _ _ => still (throw .depthExceeded)
  | depth + 1 => callWith (callAt depth)

/-! ### Chronicles that are logs -/

variable {α β : Type}

/-- How a run ends that is watched, and what it has logged: its events, after what the machine `m` had logged
before. -/
structure Told (base : Nat) (P : α → Prop) (m : Machine) (events : List Event) (x y : Except Fault α × Machine) :
    Prop where
  same : x = y
  result : ∀ a, y.1 = .ok a → P a
  base_le : base ≤ y.2.storage.length
  logging : y.2.logging = true
  log : y.2.log.toList = m.log.toList ++ events

/-- **The chronicle tells what the run logs**, on machines that keep a log and hold `base` values. -/
def Tells (base : Nat) (P : α → Prop) (w : Watched α) (r : Run α) : Prop :=
  ∀ m : Machine, m.logging = true → base ≤ m.storage.length →
    Told base P m (w.events m) (w.run.outcome m) (r.outcome m)

/-- A chronicle of calls tells what they log, if the calling frame is traced. -/
def Caller.Tells (w : Caller) (c : StackCalc.Caller) : Prop :=
  ∀ (f : Frame) (v : Value) (args results : Option Int), f.trace = true →
    Watched.Tells f.view.base (fun _ => True) (w f v args results) (c f v args results)

namespace Tells

variable {base : Nat} {P : α → Prop} {Q : β → Prop}

theorem bind {w : Watched α} {r : Run α} {k : α → Watched β} {l : α → Run β} (h : Tells base P w r)
    (hk : ∀ a, P a → Tells base Q (k a) (l a)) : Tells base Q (w >>= k) (r >>= l) := by
  intro m hlogging hb
  obtain ⟨hsame, hresult, hbase, hlogging', hlog⟩ := h m hlogging hb
  change Told base Q m ((w.followedBy k).events m) ((w.run >>= fun a => (k a).run).outcome m) _
  rw [Run.outcome_bind, Run.outcome_bind, followedBy]
  dsimp only
  rw [hsame]
  rcases hr : r.outcome m with ⟨e | a, m'⟩ <;> rw [hr] at hresult hbase hlogging' hlog
  · refine ⟨rfl, ?_, hbase, hlogging', by rw [List.append_nil]; exact hlog⟩
    rintro b ⟨⟩
  · have hrest : Told base Q m' ((k a).events m') ((k a).run.outcome m') ((l a).outcome m') :=
      hk a (hresult a rfl) m' hlogging' hbase
    exact { hrest with log := by rw [hrest.log, hlog, List.append_assoc] }

/-- A run that leaves the log as it is has no events. -/
theorem events_still {r : Run α} {m : Machine} (h : (r.outcome m).2.log = m.log) : (still r).events m = [] := by
  change ((r.outcome m).2.log.toList.drop m.log.toList.length).filter _ = []
  rw [h, List.drop_length, List.filter_nil]

/-- What is read of the machine is no event. -/
theorem get_bind {k : Machine → Watched α} {l : Machine → Run α} (h : ∀ m, Tells base P (k m) (l m)) :
    Tells base P (still get >>= k) (get >>= l) := by
  intro m hlogging hb
  have hevents : (still get >>= k).events m = (still get).events m ++ (k m).events m := rfl
  rw [hevents, events_still rfl]
  exact h m m hlogging hb

theorem ite {p : Prop} [Decidable p] {w w' : Watched α} {r r' : Run α} (h : p → Tells base P w r)
    (h' : ¬ p → Tells base P w' r') : Tells base P (if p then w else w') (if p then r else r') := by
  split_ifs with hp
  · exact h hp
  · exact h' hp

theorem aside {w : Watched α} {r : Run α} (h : Tells 0 P w r) : Tells base P (aside w) (Run.aside r) := by
  intro m hlogging hb
  obtain ⟨hsame, hresult, -, hlogging', hlog⟩ := h { m with storage := [] } hlogging (Nat.zero_le _)
  change Told base P m (w.events _) ((Run.aside w.run).outcome m) _
  rw [Run.outcome_aside, Run.outcome_aside, hsame]
  exact ⟨rfl, hresult, hb, hlogging', hlog⟩

/-- A traced frame logs every step before it is taken. -/
theorem mark {f : Frame} (hf : f.trace = true) (i : Instr) : Tells base (fun _ => True) (mark f i) (trace f i) := by
  intro m hlogging hb
  have htrace : (trace f i).outcome m = (.ok (), { m with log := m.log.push (.step i (f.view.values m.storage)) }) := by
    unfold trace
    rw [if_pos hf, Run.outcome_bind_of_ok (Run.outcome_values f m), Run.note, Run.outcome_modify, if_pos hlogging]
  change Told base _ m _ ((trace f i).outcome m) _
  rw [htrace]
  exact ⟨rfl, fun _ _ => trivial, hb, hlogging, Array.toList_push⟩

/-- What runs in a part of a frame keeps to that part, and is traced if the frame is. -/
theorem inner_bind {f : Frame} {scope : ScopeId} {count : Int} {k : Frame → Watched α} {l : Frame → Run α}
    (h : ∀ frame : Frame, frame.trace = f.trace → Tells frame.view.base P (k frame) (l frame)) :
    Tells f.view.base P (still (Run.inner f scope count) >>= k) (Run.inner f scope count >>= l) := by
  intro m hlogging hb
  have hrun : (still (Run.inner f scope count)).run = Run.inner f scope count := rfl
  have hinner := Run.outcome_inner f scope count m
  have hlog : ((Run.inner f scope count).outcome m).2.log = m.log := by
    rw [hinner]
    split <;> rfl
  change Told _ P m ((still (Run.inner f scope count)).events m ++ _) ((Run.inner f scope count >>= _).outcome m) _
  rw [events_still hlog, List.nil_append, Run.outcome_bind, Run.outcome_bind]
  rw [hrun, hinner]
  rcases hsub : f.view.sub m.storage count with e | view
  · refine ⟨rfl, ?_, hb, hlogging, (List.append_nil _).symm⟩
    rintro a ⟨⟩
  · obtain ⟨hle, hlen⟩ := View.base_of_sub hsub
    have hrest := h ⟨m.scopes.scopes.size, view, f.trace⟩ rfl
      { m with scopes := ⟨m.scopes.scopes.push (.layer scope [])⟩ } hlogging hlen
    exact { hrest with base_le := Nat.le_trans hle hrest.base_le }

end Tells

end Watched

end StackCalc
