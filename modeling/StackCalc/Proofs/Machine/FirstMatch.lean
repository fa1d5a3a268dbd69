import StackCalc.Proofs.Machine.Selection

/-! # Calling a matching function

A call of a matching function passes over alternatives until one is selected or breaks, or none is left
(`Passed.cases`). The run lemma `Passed.outcome` follows the call through the alternatives that are passed
over, and `callAt_matching` says what becomes of the whole call: it runs the action of the first alternative
that is selected, on what is left of the stack, in a new scope over the entries that this alternative binds;
and if there is none, or one breaks before, the stack is as it was. -/

namespace StackCalc

variable {c : Caller} {f : Frame} {env : Text → Option Symbol} {scope : ScopeId} {args : Option Int}

/-- What is passed over is not selected. -/
theorem PassedOver.not_selects {m m' m'' : Machine} {p : Pattern} {entries : Bindings} {action : Code}
    (h : PassedOver c f env scope args m p m') : ¬ Selects c f env scope args m p entries action m'' := by
  rintro ⟨hfits, hparts, hchooses⟩
  have haccepts : (p.accepts env (m.topValues p.parts.length)).outcome [] =
      (.ok true, Bindings.putAll [] entries) :=
    (Pattern.outcome_accepts_iff (length_topValues hfits)).2 ⟨entries, hparts, rfl⟩
  cases h with
  | arity h => exact absurd hfits.suits (by rw [h]; decide)
  | mismatch _ h =>
    rw [haccepts] at h
    cases h
  | @noAction _ _ entries' _ hparts' h =>
    -- entries that come to the same bindings leave the guards no difference to see
    have haccepts' : (p.accepts env (m.topValues p.parts.length)).outcome [] =
        (.ok true, Bindings.putAll [] entries') :=
      (Pattern.outcome_accepts_iff (length_topValues hfits)).2 ⟨entries', hparts', rfl⟩
    have hbound : m.bound scope entries' = m.bound scope entries := by
      have hmade := haccepts'.symm.trans haccepts
      injection hmade with _ hmade
      rw [Machine.bound, hmade, Machine.bound]
    have houtcome := h.outcome
    rw [hbound, hchooses.outcome] at houtcome
    cases houtcome

/-- **Alternatives are passed over**, one after the other. -/
inductive Passed (c : Caller) (f : Frame) (env : Text → Option Symbol) (scope : ScopeId) (args : Option Int) :
    Machine → List Pattern → Machine → Prop where
  | nil (m : Machine) : Passed c f env scope args m [] m
  | cons {m m' m'' : Machine} {p : Pattern} {ps : List Pattern} (h : PassedOver c f env scope args m p m')
      (hrest : Passed c f env scope args m' ps m'') : Passed c f env scope args m (p :: ps) m''

/-- All alternatives are passed over, or there is a first one that is not. -/
theorem Passed.cases (c : Caller) (f : Frame) (env : Text → Option Symbol) (scope : ScopeId)
    (args : Option Int) : ∀ (ps : List Pattern) (m : Machine),
    (∃ m', Passed c f env scope args m ps m') ∨
      ∃ before p after m₁, ps = before ++ p :: after ∧ Passed c f env scope args m before m₁ ∧
        ((∃ entries action m₂, Selects c f env scope args m₁ p entries action m₂) ∨
          ∃ e m₂, Breaks c f env scope args m₁ p e m₂)
  | [], m => .inl ⟨m, .nil m⟩
  | p :: ps, m => by
    rcases alternative_cases c f env scope args m p with ⟨m', h⟩ | h
    · rcases Passed.cases c f env scope args ps m' with ⟨m'', hrest⟩ | ⟨before, q, after, m₁, rfl, hpassed, hq⟩
      · exact .inl ⟨m'', .cons h hrest⟩
      · exact .inr ⟨p :: before, q, after, m₁, rfl, .cons h hpassed, hq⟩
    · exact .inr ⟨[], p, ps, m, rfl, .nil m, h⟩

theorem Passed.tried (hc : c.Confined) {m m' : Machine} {ps : List Pattern}
    (h : Passed c f env scope args m ps m') : m.Tried m' := by
  induction h with
  | nil m => exact .refl m
  | cons h _ ih => exact (h.tried hc).trans ih

/-- The call goes on behind the alternatives that are passed over, on the machine that they leave. -/
theorem Passed.outcome (hc : c.Confined) {m m' : Machine} {before rest : List Pattern} {index total : Nat}
    {results : Option Int} (h : Passed c f env scope args m before m')
    (henv : ∀ n, m.Tried n → (n.withLayer scope []).scopes.find? scope = env) :
    (callMatching c f scope args results total index (before ++ rest)).outcome m =
      (callMatching c f scope args results total (index + before.length) rest).outcome m' := by
  induction h generalizing index with
  | nil m => rfl
  | @cons m m' m'' p ps h _ ih =>
    rw [List.cons_append, h.outcome (henv m (.refl m)), ih fun n hn => henv n ((h.tried hc).trans hn),
      List.length_cons, Nat.add_right_comm, Nat.add_assoc]

/-- **An action starts** on the machine `start` in the frame `frame`: the values that the alternative takes
are off the stack, of which the action sees nothing; its scope is new, and shows the entries in front of the
scope that the function was defined in; and every scope that was there is as it was. -/
structure Starts (m : Machine) (scope : ScopeId) (required : Nat) (entries : Bindings) (start : Machine)
    (frame : Frame) : Prop where
  storage : start.storage = m.storage.drop required
  view : frame.view = ⟨start.storage.length⟩
  fresh : m.scopes.scopes.size ≤ frame.scope
  owns : start.scopes.Owns frame.scope
  sees : ∀ name, start.scopes.find? frame.scope name =
    match (Bindings.putAll [] entries).lookup name with
    | some v => some (.value v)
    | none => m.scopes.find? scope name
  kept : ∀ i < m.scopes.scopes.size, start.scopes.scopes[i]? = m.scopes.scopes[i]?

theorem Selects.starts (hc : c.Confined) {m m₁ m₂ : Machine} {p : Pattern} {entries : Bindings} {action : Code}
    (hm : m.scopes.Ordered) (hscope : scope < m.scopes.scopes.size) (hpassed : m.Tried m₁)
    (h : Selects c f env scope args m₁ p entries action m₂) (e : Event) :
    Starts m scope p.parts.length entries (m₂.entered m₁.scopes.scopes.size p.parts.length e)
      (m₂.actionFrame f.trace p.parts.length) := by
  have hchosen : (m₁.bound scope entries).Tried m₂ := h.chooses.tried hc
  have hsize : m₁.scopes.scopes.size < m₂.scopes.scopes.size := by
    have hle := hchosen.size_le
    simp only [Machine.bound, Machine.withLayer, Array.size_push] at hle
    omega
  have hentered : ∀ i < m₂.scopes.scopes.size,
      (m₂.entered m₁.scopes.scopes.size p.parts.length e).scopes.scopes[i]? = m₂.scopes.scopes[i]? := by
    intro i hi
    rw [Machine.entered, Array.getElem?_push_lt hi, Array.getElem?_eq_getElem hi]
  have htop : (m₂.entered m₁.scopes.scopes.size p.parts.length e).scopes.scopes[m₂.scopes.scopes.size]? =
      some (.layer m₁.scopes.scopes.size []) := Array.getElem?_push_size
  have hbindings : (m₂.entered m₁.scopes.scopes.size p.parts.length e).scopes.scopes[m₁.scopes.scopes.size]? =
      some (.layer scope (Bindings.putAll [] entries)) := by
    rw [hentered _ hsize, hchosen.scopes _ (by simp [Machine.bound, Machine.withLayer])]
    exact Array.getElem?_push_size
  have htried : m.Tried m₂ := hpassed.trans ((m₁.tried_withLayer scope _).trans hchosen)
  have hkept : ∀ i < m.scopes.scopes.size,
      (m₂.entered m₁.scopes.scopes.size p.parts.length e).scopes.scopes[i]? = m.scopes.scopes[i]? := fun i hi =>
    (hentered i (Nat.lt_of_lt_of_le hi htried.size_le)).trans (htried.scopes i hi)
  exact
    { storage := congrArg (List.drop p.parts.length) htried.storage
      view := rfl
      fresh := htried.size_le
      owns := Forest.owns_of_layer htop
      sees := Forest.find?_layers hm hkept hscope (Nat.lt_of_lt_of_le hscope hpassed.size_le) hsize hbindings htop
      kept := hkept }

/-- **How a call of a matching function ends**; `call` is its outcome, given the alternatives. An alternative
is selected, all before it having been passed over: then the call is the run of its action, once, with its
results counted. Or all are passed over: then it fails to match. Or one breaks, all before it having been
passed over: then the call ends with that fault, whatever alternatives come after it. In the last two cases
the stack is as it was before the call. -/
inductive MatchingEnd (c : Caller) (f : Frame) (scope : ScopeId) (args results : Option Int) (m : Machine)
    (call : List Pattern → Except Fault Unit × Machine) : List Pattern → Prop where
  | selected {before after : List Pattern} {p : Pattern} {m₁ m₂ start : Machine} {entries : Bindings}
      {action : Code} {frame : Frame} (hpassed : Passed c f (m.scopes.find? scope) scope args m before m₁)
      (hselects : Selects c f (m.scopes.find? scope) scope args m₁ p entries action m₂)
      (hstarts : Starts m scope p.parts.length entries start frame)
      (hcall : call (before ++ p :: after) =
        (do runSteps c frame action.steps; Run.checkResults frame results).outcome start) :
      MatchingEnd c f scope args results m call (before ++ p :: after)
  | noneLeft {ps : List Pattern} {m' : Machine} (hpassed : Passed c f (m.scopes.find? scope) scope args m ps m')
      (hcall : call ps = (.error .noAlternative, m')) (hstorage : m'.storage = m.storage) :
      MatchingEnd c f scope args results m call ps
  | broken {before after : List Pattern} {p : Pattern} {m₁ m' : Machine} {e : Fault}
      (hpassed : Passed c f (m.scopes.find? scope) scope args m before m₁)
      (hbreaks : Breaks c f (m.scopes.find? scope) scope args m₁ p e m')
      (hcall : ∀ others, call (before ++ p :: others) = (.error e, m')) (hstorage : m'.storage = m.storage) :
      MatchingEnd c f scope args results m call (before ++ p :: after)

/-- **The first alternative that matches is taken**, whatever the function was defined over and however it is
called. -/
theorem callAt_matching (depth : Nat) (f : Frame) (d serial : Nat) (scope : ScopeId) (ps : List Pattern)
    (args results : Option Int) (m : Machine) (hm : m.scopes.Ordered) (hscope : scope < m.scopes.scopes.size) :
    MatchingEnd (callAt depth) f scope args results m
      (fun ps => (callAt (depth + 1) f (.mk d (.callable (.matching serial scope ps))) args results).outcome m)
      ps := by
  have hc : (callAt depth).Confined := confined_callAt depth
  have henv : ∀ n, m.Tried n → (n.withLayer scope []).scopes.find? scope = m.scopes.find? scope :=
    fun n hn => find?_withLayer hm hscope hn
  have hcall : ∀ ps, (callAt (depth + 1) f (.mk d (.callable (.matching serial scope ps))) args results).outcome m =
      (callMatching (callAt depth) f scope args results ps.length 0 ps).outcome m := fun _ => rfl
  rcases Passed.cases (callAt depth) f (m.scopes.find? scope) scope args ps m with
    ⟨m', h⟩ | ⟨before, p, after, m₁, rfl, hpassed, h | h⟩
  · refine .noneLeft h ?_ (h.tried hc).storage
    have houtcome : (callMatching (callAt depth) f scope args results ps.length 0 (ps ++ [])).outcome m =
        (callMatching (callAt depth) f scope args results ps.length (0 + ps.length) []).outcome m' :=
      h.outcome hc henv
    rw [List.append_nil] at houtcome
    rw [hcall, houtcome]
    rfl
  · obtain ⟨entries, action, m₂, h⟩ := h
    have htried := hpassed.tried hc
    refine .selected hpassed h
      (h.starts hc hm hscope htried (.alternative (0 + before.length + 1) (before ++ p :: after).length)) ?_
    rw [hcall, hpassed.outcome hc henv, h.outcome (henv m₁ htried)]
  · obtain ⟨e, m', h⟩ := h
    have htried := hpassed.tried hc
    refine .broken hpassed h (fun others => ?_) (htried.trans (h.tried hc)).storage
    rw [hcall, hpassed.outcome hc henv, h.outcome (henv m₁ htried)]

/-- Called with the value one, a function passes over an alternative that expects a pair, and over one whose
guard comes out false; the third binds the value, and its action reads it. -/
theorem callAt_matching_any :
    let m : Machine := { Machine.empty with storage := [.own (.int 1)], scopes := ⟨#[.root []]⟩ }
    let pair : Pattern := .plain [.cons .any .any] (.mk [] [])
    let never : Pattern := .guarded [.bind "x"] [(.mk [] [.push (.own (.bool false))], .mk [] [])] none
    let any : Pattern := .plain [.bind "x"] (.mk [] [.get "x"])
    let f : Frame := ⟨0, View.whole, false⟩
    let call := fun ps => (callAt 1 f (.mk 0 (.callable (.matching 1 0 ps))) (some 1) (some 1)).outcome m
    m.scopes.Ordered ∧ 0 < m.scopes.scopes.size ∧
      MatchingEnd (callAt 0) f 0 (some 1) (some 1) m call [pair, never, any] ∧
      (call [pair, never, any]).1 = .ok () ∧
      (call [pair, never, any]).2.storage = [.own (.int 1)] ∧
      (call [pair, never]).1 = .error .noAlternative := by
  have hordered : Forest.Ordered ⟨#[.root []]⟩ := by
    intro i q s hs hq
    rcases i with _ | i
    · cases hs
      cases hq
    · cases hs
  have hscope : 0 < (Forest.mk #[.root []]).scopes.size := by decide
  refine ⟨hordered, hscope, callAt_matching 0 _ 0 1 0 _ (some 1) (some 1) _ hordered hscope, ?_, ?_, ?_⟩
  · rfl
  · rfl
  · rfl

/-- Not every call that selects nothing fails to match: a declared count that is the arity of an alternative,
and more than there are values, is a fault of the stack. -/
theorem callAt_matching_tooFew :
    let m : Machine := { Machine.empty with scopes := ⟨#[.root []]⟩ }
    let p : Pattern := .plain [.bind "x"] (.mk [] [])
    let f : Frame := ⟨0, View.whole, false⟩
    (∀ entries action m', ¬ Selects (callAt 0) f (m.scopes.find? 0) 0 (some 1) m p entries action m') ∧
      (callAt 1 f (.mk 0 (.callable (.matching 1 0 [p]))) (some 1) none).outcome m =
        (.error (.tooFewValues 1 0), m) ∧
      (Fault.tooFewValues 1 0).category ≠ .matchFailure := by
  refine ⟨fun entries action m' h => ?_, rfl, by decide⟩
  exact absurd h.fits.depth (by decide)

end StackCalc
