import StackCalc.Data.Yaml.Content
import StackCalc.Data.Yaml.Printer
import StackCalc.Proofs.Number.Notation

/-! # Documents of one scalar

A text that is a single scalar has two tokens, the scalar and the end (`tokens_word`, `tokens_quoted`), and its data
are those of the scalar (`read_of_tokens`). The scanner is followed through states without an open block or bracket
(`Lexing.outside`): a scalar that begins a document may still turn out to be a key, so a candidate is kept, but none
that has to be one. -/

namespace StackCalc.Yaml

/-! ### Places -/

namespace Cursor

theorem rest_advance (c : Cursor) : c.advance.rest = c.rest.drop 1 := by
  unfold advance
  rcases h : c.rest with _ | ⟨ch, rest⟩
  · exact h
  · dsimp only
    split_ifs <;> rfl

theorem rest_drop : ∀ (n : ℕ) (c : Cursor), (Cursor.drop n c).rest = c.rest.drop n
  | 0, _ => rfl
  | n + 1, c => by
    unfold Cursor.drop
    rw [rest_drop n, rest_advance, List.drop_drop, Nat.add_comm]

theorem span_of_stops {p : Char → Bool} {c : Cursor} (h : Stops p c.rest) : c.span p = ([], c) := by
  unfold span
  rw [takeWhile_of_stops h]
  rfl

theorem takeBreak_of_stops {c : Cursor} (h : Stops isBreak c.rest) : c.takeBreak = ([], c) := by
  unfold takeBreak
  split
  next heq => 
    rw [heq] at h
    exact absurd (h '\r' rfl) (by decide)
  next ch rest _ heq =>
    rw [heq] at h
    rw [h ch rfl]
    rfl
  next => rfl

/-- What may stand in front of a token: blanks, line breaks, and comments. -/
def isLead (ch : Char) : Bool := ch == ' ' || ch == '#' || isBreak ch

variable {c : Cursor}

theorem stops_of_isLead {p : Char → Bool} (hp : ∀ ch, p ch = true → isLead ch = true) {cs : List Char}
    (h : Stops isLead cs) : Stops p cs := fun ch hch => by
  cases hpch : p ch
  · rfl
  · have := h ch hch
    rw [hp ch hpch] at this
    cases this

theorem takeBreak_of_isLead (h : Stops isLead c.rest) : c.takeBreak = ([], c) :=
  takeBreak_of_stops (stops_of_isLead (fun ch hch => by simp [isLead, hch]) h)

theorem skipComment_skipBlanks (h : Stops isLead c.rest) : c.skipBlanks.skipComment = c := by
  have hblanks : c.skipBlanks = c := by
    unfold skipBlanks skip
    rw [span_of_stops (stops_of_isLead (fun ch hch => by simp [isLead, beq_iff_eq.1 hch]) h)]
  have hcomment : c.peek ≠ some '#' := fun hpeek => by
    have := h '#' hpeek
    cases this
  unfold skipComment
  rw [hblanks, if_neg (by simpa using hcomment)]

end Cursor

namespace Lexing

/-- The step ends in a state without a fault. -/
def Goes {α : Type} (m : Lexing α) (l : Lexer) (a : α) (l' : Lexer) : Prop := (ExceptT.run m).run l = (.ok a, l')

/-- The step ends in a state with a fault. -/
def Fails {α : Type} (m : Lexing α) (l : Lexer) (e : Fault) (l' : Lexer) : Prop :=
  (ExceptT.run m).run l = (.error e, l')

section
variable {α β : Type} {m : Lexing α} {f : α → Lexing β} {l l' l'' : Lexer} {a : α} {b : β} {e : Fault}

theorem Goes.run_bind (hm : Goes m l a l') : (ExceptT.run (m >>= f)).run l = (ExceptT.run (f a)).run l' := by
  unfold Goes at hm
  rw [ExceptT.run_bind, StateT.run_bind, hm]
  rfl

theorem Goes.bind (hm : Goes m l a l') (hf : Goes (f a) l' b l'') : Goes (m >>= f) l b l'' := hm.run_bind.trans hf

theorem Goes.bind_fails (hm : Goes m l a l') (hf : Fails (f a) l' e l'') : Fails (m >>= f) l e l'' :=
  hm.run_bind.trans hf

theorem Fails.bind (hm : Fails m l e l') : Fails (m >>= f) l e l' := by
  unfold Fails at *
  rw [ExceptT.run_bind, StateT.run_bind, hm]
  rfl

theorem goes_pure (a : α) (l : Lexer) : Goes (pure a) l a l := rfl

theorem goes_get (l : Lexer) : Goes get l l l := rfl

theorem goes_set (l l' : Lexer) : Goes (set l') l ⟨⟩ l' := rfl

theorem goes_modify (g : Lexer → Lexer) (l : Lexer) : Goes (modify g) l ⟨⟩ (g l) := rfl

theorem goes_lift {x : Except Fault α} (h : x = .ok a) (l : Lexer) : Goes (liftM x : Lexing α) l a l := by
  subst h
  rfl

theorem fails_lift {x : Except Fault α} (h : x = .error e) (l : Lexer) : Fails (liftM x : Lexing α) l e l := by
  subst h
  rfl

end

/-- A state in which no block and no bracket is open. -/
def outside (c : Cursor) (ts : Array Token) (allowed : Bool) (ks : List Candidate) : Lexer :=
  ⟨c, ts, 0, -1, [], allowed, ks⟩

section
variable {c c' : Cursor} {ts : Array Token} {allowed : Bool} {ks : List Candidate}

theorem goes_closeBlocks (column : ℤ) :
    Goes (closeBlocks column) (outside c ts allowed ks) ⟨⟩ (outside c ts allowed ks) := by
  unfold closeBlocks
  refine (goes_modify _ _).trans ?_
  simp [outside, closing]

omit allowed in
/-- No candidate of these has to be a key. -/
theorem any_required (hks : ∀ k ∈ ks, k.required = false) (p : Candidate → Bool) :
    ¬ (ks.any fun k => p k && k.required) = true := by
  rw [List.any_eq_true]
  rintro ⟨k, hk, h⟩
  rw [hks k hk, Bool.and_false] at h
  cases h

theorem goes_giveUpStale (c : Cursor) (ts : Array Token) (allowed : Bool) (hks : ∀ k ∈ ks, k.required = false) :
    ∃ p, Goes giveUpStale (outside c ts allowed ks) ⟨⟩ (outside c ts allowed (ks.filter p)) := by
  refine ⟨fun k => !(k.place.line != c.line || decide (keyLimit < c.index - k.place.index)), ?_⟩
  unfold giveUpStale
  refine (goes_get _).bind ?_
  dsimp only [outside]
  rw [if_neg (any_required hks _)]
  exact goes_set _ _

theorem goes_giveUpCandidate (c : Cursor) (ts : Array Token) (allowed : Bool) (hks : ∀ k ∈ ks, k.required = false) :
    ∃ p, Goes giveUpCandidate (outside c ts allowed ks) ⟨⟩ (outside c ts allowed (ks.filter p)) := by
  refine ⟨fun k => k.level != 0, ?_⟩
  unfold giveUpCandidate
  refine (goes_get _).bind ?_
  dsimp only [outside]
  rw [if_neg (any_required hks _)]
  exact goes_set _ _

theorem goes_markCandidate (c : Cursor) (ts : Array Token) (hks : ∀ k ∈ ks, k.required = false) :
    ∃ ks', (∀ k ∈ ks', k.required = false) ∧ Goes markCandidate (outside c ts true ks) ⟨⟩ (outside c ts true ks') := by
  obtain ⟨p, hgoes⟩ := goes_giveUpCandidate c ts true hks
  refine ⟨⟨0, ts.size, false, c⟩ :: ks.filter p, ?_, ?_⟩
  · intro k hk
    rcases List.mem_cons.1 hk with rfl | hk
    · rfl
    · exact hks k (List.mem_of_mem_filter hk)
  · unfold markCandidate
    refine (goes_get _).bind ?_
    have hallowed : (outside c ts true ks).keysAllowed = true := rfl
    rw [hallowed, if_pos rfl]
    refine hgoes.bind ((goes_modify _ _).trans ?_)
    have hcolumn : ((-1 : ℤ) == c.column) = false := by
      rw [beq_eq_false_iff_ne]
      omega
    simp [outside, hcolumn]

theorem goes_skipToToken (hc : Stops Cursor.isLead c.rest) (fuel : ℕ) :
    Goes (skipToToken (fuel + 1)) (outside c ts allowed ks) ⟨⟩ (outside c ts allowed ks) := by
  unfold skipToToken
  refine (goes_get _).bind ?_
  dsimp only [outside]
  rw [Cursor.skipComment_skipBlanks hc, Cursor.takeBreak_of_isLead hc]
  exact goes_modify _ _

theorem goes_allowKeys (b : Bool) :
    Goes (allowKeys b) (outside c ts allowed ks) ⟨⟩ (outside c ts b ks) := rfl

theorem goes_emit (t : Token) :
    Goes (emit t) (outside c ts allowed ks) ⟨⟩ (outside c (ts.push t) allowed ks) := rfl

theorem goes_moveTo (c' : Cursor) :
    Goes (moveTo c') (outside c ts allowed ks) ⟨⟩ (outside c' ts allowed ks) := rfl

theorem goes_streamEnd (c : Cursor) (ts : Array Token) (allowed : Bool) (hks : ∀ k ∈ ks, k.required = false) :
    ∃ p, Goes streamEnd (outside c ts allowed ks) ⟨⟩ (outside c (ts.push .streamEnd) allowed (ks.filter p)) := by
  obtain ⟨p, hgoes⟩ := goes_giveUpCandidate c ts allowed hks
  exact ⟨p, (goes_closeBlocks _).bind (hgoes.bind (goes_emit _))⟩

/-- A scalar may be a key, so its place is kept. -/
theorem goes_node (ts : Array Token) (read : Cursor → Except Fault (Token × Cursor)) {t : Token}
    (hread : read c = .ok (t, c')) (hks : ∀ k ∈ ks, k.required = false) : ∃ ks', (∀ k ∈ ks', k.required = false) ∧
      Goes (node read) (outside c ts true ks) ⟨⟩ (outside c' (ts.push t) false ks') := by
  obtain ⟨ks', hks', hgoes⟩ := goes_markCandidate c ts hks
  refine ⟨ks', hks', hgoes.bind ((goes_allowKeys false).bind ((goes_get _).bind ?_))⟩
  exact (goes_lift hread _).bind ((goes_emit t).bind (goes_moveTo c'))

theorem fails_node (ts : Array Token) (read : Cursor → Except Fault (Token × Cursor)) {e : Fault}
    (hread : read c = .error e) (hks : ∀ k ∈ ks, k.required = false) :
    ∃ ks', Fails (node read) (outside c ts true ks) e (outside c ts false ks') := by
  obtain ⟨ks', -, hgoes⟩ := goes_markCandidate c ts hks
  exact ⟨ks', hgoes.bind_fails ((goes_allowKeys false).bind_fails ((goes_get _).bind_fails (fails_lift hread _).bind))⟩

theorem goes_plain (ts : Array Token) {text : String} (hread : plainScalar false 0 c = (text, false, c'))
    (hks : ∀ k ∈ ks, k.required = false) : ∃ ks', (∀ k ∈ ks', k.required = false) ∧
      Goes plain (outside c ts true ks) ⟨⟩ (outside c' (ts.push (.scalar text true)) false ks') := by
  obtain ⟨ks', hks', hgoes⟩ := goes_markCandidate c ts hks
  refine ⟨ks', hks', hgoes.bind ((goes_get _).bind ?_)⟩
  have hscalar : plainScalar ((outside c ts true ks').level != 0) ((outside c ts true ks').indent + 1)
      (outside c ts true ks').cursor = (text, false, c') := hread
  rw [hscalar]
  exact (goes_allowKeys false).bind ((goes_emit _).bind (goes_moveTo c'))

/-- At the end of the text there is one token more. -/
theorem goes_next_end (ts : Array Token) (allowed : Bool) (hend : c.rest = []) (hks : ∀ k ∈ ks, k.required = false) :
    ∃ ks', Goes next (outside c ts allowed ks) false (outside c (ts.push .streamEnd) allowed ks') := by
  have hlead : Stops Cursor.isLead c.rest := by
    rw [hend]
    exact Stops.nil
  have hpeek : c.peek = none := by
    unfold Cursor.peek
    rw [hend]
    rfl
  obtain ⟨p, hstale⟩ := goes_giveUpStale c ts allowed hks
  obtain ⟨p', hstream⟩ := goes_streamEnd c ts allowed fun k hk => hks k (List.mem_of_mem_filter hk)
  refine ⟨(ks.filter p).filter p', (goes_get _).bind ((goes_skipToToken hlead _).bind (hstale.bind ((goes_get _).bind
    ((goes_closeBlocks _).bind ?_))))⟩
  simp only [outside, hpeek]
  exact hstream.bind (goes_pure false _)

/-- The token of a text in double quotes. -/
def quotedToken (c : Cursor) : Except Fault (Token × Cursor) := do
  let taken ← quotedScalar true c
  return (.scalar taken.1 false, taken.2)

/-- A quote begins a text in quotes, and nothing else. -/
theorem run_next_quoted (ts : Array Token) {cs : List Char} (hrest : c.rest = '"' :: cs)
    (hks : ∀ k ∈ ks, k.required = false) : ∃ ks', (∀ k ∈ ks', k.required = false) ∧
      (ExceptT.run next).run (outside c ts true ks) =
        (ExceptT.run (do node quotedToken; return true)).run (outside c ts true ks') := by
  have hlead : Stops Cursor.isLead c.rest := by
    rw [hrest]
    exact Stops.cons (by decide)
  have hpeek : c.peek = some '"' := by
    unfold Cursor.peek
    rw [hrest]
    rfl
  have hseparator : c.atSeparator = false := by
    unfold Cursor.atSeparator
    rw [hrest]
    simp
  obtain ⟨p, hstale⟩ := goes_giveUpStale c ts true hks
  refine ⟨ks.filter p, fun k hk => hks k (List.mem_of_mem_filter hk), (goes_get _).run_bind.trans
    ((goes_skipToToken hlead _).run_bind.trans (hstale.run_bind.trans ((goes_get _).run_bind.trans
      ((goes_closeBlocks _).run_bind.trans ?_))))⟩
  simp only [outside, hpeek, hseparator, Bool.and_false]
  rfl

/-- A text in double quotes is a token. -/
theorem goes_next_quoted (ts : Array Token) {cs : List Char} (hrest : c.rest = '"' :: cs) {text : Text}
    (hread : quotedScalar true c = .ok (text, c')) (hks : ∀ k ∈ ks, k.required = false) :
    ∃ ks', (∀ k ∈ ks', k.required = false) ∧
      Goes next (outside c ts true ks) true (outside c' (ts.push (.scalar text false)) false ks') := by
  have htoken : quotedToken c = .ok (.scalar text false, c') := by
    unfold quotedToken
    rw [hread]
    rfl
  obtain ⟨ks₁, hks₁, hrun⟩ := run_next_quoted ts hrest hks
  obtain ⟨ks', hks', hnode⟩ := goes_node ts quotedToken htoken hks₁
  exact ⟨ks', hks', hrun.trans (hnode.bind (goes_pure true _))⟩

/-- Where none can be read there is a fault, and no token. -/
theorem fails_next_quoted (ts : Array Token) {cs : List Char} (hrest : c.rest = '"' :: cs) {e : Fault}
    (hread : quotedScalar true c = .error e) (hks : ∀ k ∈ ks, k.required = false) :
    ∃ ks', Fails next (outside c ts true ks) e (outside c ts false ks') := by
  have htoken : quotedToken c = .error e := by
    unfold quotedToken
    rw [hread]
    rfl
  obtain ⟨ks₁, hks₁, hrun⟩ := run_next_quoted ts hrest hks
  obtain ⟨ks', hnode⟩ := fails_node ts quotedToken htoken hks₁
  exact ⟨ks', hrun.trans hnode.bind⟩

end

end Lexing

/-! ### Words -/

/-- Letters and digits. -/
def alphanumerics : List Char := "0123456789ABCDEFGHIJKLMNOPQRSTUVWXYZabcdefghijklmnopqrstuvwxyz".toList

/-- **The characters are those of a word or a numeral**: letters, digits, signs and points, and the first is a letter or
a digit, or a sign in front of one. -/
structure Word (cs : List Char) : Prop where
  chars : ∀ c ∈ cs, c ∈ '-' :: '+' :: '.' :: alphanumerics
  head : ∃ c rest, cs = c :: rest ∧ (c ∈ alphanumerics ∨ c = '-' ∧ ∃ d ds, rest = d :: ds ∧ d ∈ alphanumerics)

namespace Word

variable {cs : List Char}

theorem isAllowed (h : Word cs) : cs.all isAllowed = true := by
  have hall : ∀ c ∈ '-' :: '+' :: '.' :: alphanumerics, Yaml.isAllowed c = true :=
    List.all_iff_forall_prop.1 (by decide)
  exact List.all_eq_true.2 fun c hc => hall c (h.chars c hc)

theorem plainRun (h : Word cs) : plainRun false cs = cs := by
  have hall : ∀ c ∈ '-' :: '+' :: '.' :: alphanumerics, isGap (some c) = false ∧ (c == ':') = false :=
    List.all_iff_forall_prop.1 (by decide)
  have hchars := h.chars
  clear h
  induction cs with
  | nil => rfl
  | cons c cs ih =>
    obtain ⟨hgap, hcolon⟩ := hall c (hchars c List.mem_cons_self)
    unfold Yaml.plainRun
    rw [hgap, hcolon, ih fun d hd => hchars d (List.mem_cons_of_mem c hd)]
    simp

/-- A word is a plain scalar, up to the end of the text. -/
theorem plainScalar (h : Word cs) {c : Cursor} (hrest : c.rest = cs) :
    ∃ c', c'.rest = [] ∧ Yaml.plainScalar false 0 c = (String.ofList cs, false, c') := by
  have hend : (Cursor.drop cs.length c).rest = [] := by
    rw [Cursor.rest_drop, hrest, List.drop_length]
  refine ⟨_, hend, ?_⟩
  have hstops : ∀ p, Stops p (Cursor.drop cs.length c).rest := fun p => by
    rw [hend]
    exact Stops.nil
  obtain ⟨fuel, hfuel⟩ : ∃ k, cs.length = k + 1 := by
    obtain ⟨ch, rest, hcs, -⟩ := h.head
    exact ⟨rest.length, by rw [hcs, List.length_cons]⟩
  have hgap : plainGap (Cursor.drop cs.length c) = (some [], false, Cursor.drop cs.length c) := by
    unfold plainGap
    rw [Cursor.span_of_stops (hstops _)]
    dsimp only
    rw [Cursor.takeBreak_of_stops (hstops _)]
  unfold Yaml.plainScalar
  rw [hrest, hfuel]
  unfold plainRuns
  rw [hrest, h.plainRun]
  dsimp only
  rw [hgap, ← hfuel]
  rfl

end Word

namespace Lexing

section
variable {c : Cursor} {ts : Array Token} {ks : List Candidate}

/-- A word is a token. -/
theorem goes_next_word (c : Cursor) (ts : Array Token) (h : Word c.rest) (hks : ∀ k ∈ ks, k.required = false) :
    ∃ c' ks', c'.rest = [] ∧ (∀ k ∈ ks', k.required = false) ∧
      Goes next (outside c ts true ks) true (outside c' (ts.push (.scalar (String.ofList c.rest) true)) false ks') := by
  obtain ⟨c', hend, hread⟩ := h.plainScalar rfl
  obtain ⟨ch, rest, hrest, hhead⟩ := h.head
  have halnum : ∀ d ∈ alphanumerics, Cursor.isLead d = false ∧ d ≠ '-' ∧ d ≠ '.' ∧ isGap (some d) = false ∧
      isIndicator d = false := List.all_iff_forall_prop.1 (by decide)
  have hlead : Stops Cursor.isLead c.rest := by
    rw [hrest]
    rcases hhead with hch | ⟨rfl, -⟩
    · exact Stops.cons (halnum ch hch).1
    · exact Stops.cons (by decide)
  have hpeek : c.peek = some ch := by
    unfold Cursor.peek
    rw [hrest]
    rfl
  have hseparator : c.atSeparator = false := by
    unfold Cursor.atSeparator
    rw [hrest]
    rcases hhead with hch | ⟨rfl, d, ds, rfl, hd⟩
    · simp [(halnum ch hch).2.1, (halnum ch hch).2.2.1]
    · simp [(halnum d hd).2.1]
  obtain ⟨p, hstale⟩ := goes_giveUpStale c ts true hks
  obtain ⟨ks', hks', hplain⟩ := goes_plain ts hread fun k hk => hks k (List.mem_of_mem_filter hk)
  have hnext : Goes (do
      plain
      return true) (outside c ts true (ks.filter p)) true
      (outside c' (ts.push (.scalar (String.ofList c.rest) true)) false ks') := hplain.bind (goes_pure true _)
  refine ⟨c', ks', hend, hks', (goes_get _).bind ((goes_skipToToken hlead _).bind (hstale.bind ((goes_get _).bind
    ((goes_closeBlocks _).bind ?_))))⟩
  simp only [outside, hpeek, hseparator, Bool.and_false]
  rcases hhead with hch | ⟨rfl, d, ds, rfl, hd⟩
  · obtain ⟨-, hminus, -, hgap, hindicator⟩ := halnum ch hch
    have hne : ∀ e ∈ ['%', '[', '\x7b', ']', '\x7d', ',', '?', ':', '*', '&', '!', '|', '>', '\'', '"'],
        (ch == e) = false := fun e he => by
      have hspecial : e ∉ alphanumerics :=
        (List.all_iff_forall_prop (p := fun e => e ∉ alphanumerics)).1 (by decide) e he
      exact beq_eq_false_iff_ne.2 fun heq => hspecial (heq ▸ hch)
    have hstarts : startsPlain false ch (c.ahead 1) = true := by
      unfold startsPlain
      rw [hgap, hindicator]
      rfl
    simpa [outside, hne, hminus, hstarts] using hnext
  · have hgap : isGap (c.ahead 1) = false := by
      unfold Cursor.ahead
      rw [hrest]
      exact (halnum d hd).2.2.2.1
    have hstarts : startsPlain false '-' (c.ahead 1) = true := by
      unfold startsPlain
      rw [hgap]
      rfl
    simpa [outside, hgap, hstarts] using hnext

end

end Lexing

/-! ### The tokens of a document -/

/-- The state in front of a text. -/
def Lexing.before (cs : List Char) : Lexer := Lexing.outside (Cursor.start cs) #[] true []

/-- Tokens are those of the state that reading them ends in. -/
theorem tokens_eq {cs : List Char} (hallowed : cs.all isAllowed = true) (hmark : cs.head? ≠ some '\uFEFF') :
    tokens cs = match (ExceptT.run (Lexing.all (cs.length + 2))).run (Lexing.before cs) with
      | (.ok (), l) => (l.tokens.toList, none)
      | (.error e, l) => (l.tokens.toList, some e) := by
  have hmark' : (cs.head? == some '\uFEFF') = false := by
    rw [beq_eq_false_iff_ne]
    exact hmark
  have hbefore : (⟨Cursor.start cs, #[], 0, -1, [], true, []⟩ : Lexer) = Lexing.before cs := rfl
  unfold tokens
  rw [hallowed, if_neg (by decide), hmark']
  dsimp only
  rw [if_neg Bool.false_ne_true, hbefore]
  rcases (ExceptT.run (Lexing.all (cs.length + 2))).run (Lexing.before cs) with ⟨_ | _, l⟩ <;> rfl

/-- After one scalar there is nothing but the end. -/
theorem goes_all_scalar {c c' : Cursor} {t : Token} {ks : List Candidate} (fuel : ℕ)
    (h : Lexing.Goes Lexing.next (Lexing.outside c #[] true []) true (Lexing.outside c' #[t] false ks))
    (hend : c'.rest = []) (hks : ∀ k ∈ ks, k.required = false) :
    ∃ l : Lexer, l.tokens.toList = [t, .streamEnd] ∧
      Lexing.Goes (Lexing.all (fuel + 2)) (Lexing.outside c #[] true []) ⟨⟩ l := by
  obtain ⟨ks', hnext⟩ := Lexing.goes_next_end #[t] false hend hks
  refine ⟨Lexing.outside c' #[t, .streamEnd] false ks', rfl, ?_⟩
  unfold Lexing.all
  refine h.bind ?_
  rw [if_pos rfl]
  unfold Lexing.all
  exact hnext.bind (Lexing.goes_pure _ _)

/-- **A word is a document of one plain scalar.** -/
theorem tokens_word {cs : List Char} (h : Word cs) :
    tokens cs = ([.scalar (String.ofList cs) true, .streamEnd], none) := by
  obtain ⟨c', ks, hend, hks, hnext⟩ := Lexing.goes_next_word (Cursor.start cs) #[] h (List.forall_mem_nil _)
  obtain ⟨l, hl, hall⟩ := goes_all_scalar cs.length hnext hend hks
  have hmark : cs.head? ≠ some '\uFEFF' := fun hhead =>
    absurd (h.chars _ (List.mem_of_mem_head? hhead)) (by decide)
  have hrun : (ExceptT.run (Lexing.all (cs.length + 2))).run (Lexing.before cs) = (.ok (), l) := hall
  rw [tokens_eq h.isAllowed hmark, hrun]
  dsimp only
  rw [hl]
  rfl

/-- **A text in quotes is a document of one quoted scalar.** -/
theorem tokens_quoted {cs : List Char} (hallowed : ('"' :: cs).all isAllowed = true) {text : Text} {c' : Cursor}
    (hread : quotedScalar true (Cursor.start ('"' :: cs)) = .ok (text, c')) (hend : c'.rest = []) :
    tokens ('"' :: cs) = ([.scalar text false, .streamEnd], none) := by
  obtain ⟨ks, hks, hnext⟩ := Lexing.goes_next_quoted #[] rfl hread (List.forall_mem_nil _)
  obtain ⟨l, hl, hall⟩ := goes_all_scalar ('"' :: cs).length hnext hend hks
  have hrun : (ExceptT.run (Lexing.all (('"' :: cs).length + 2))).run (Lexing.before ('"' :: cs)) = (.ok (), l) := hall
  rw [tokens_eq hallowed (by simp), hrun]
  dsimp only
  rw [hl]

theorem tokens_quoted_error {cs : List Char} (hallowed : ('"' :: cs).all isAllowed = true) {e : Fault}
    (hread : quotedScalar true (Cursor.start ('"' :: cs)) = .error e) : tokens ('"' :: cs) = ([], some e) := by
  obtain ⟨ks, hnext⟩ := Lexing.fails_next_quoted #[] rfl hread (List.forall_mem_nil _)
  have hrun : (ExceptT.run (Lexing.all (('"' :: cs).length + 2))).run (Lexing.before ('"' :: cs)) =
      (.error e, Lexing.outside (Cursor.start ('"' :: cs)) #[] false ks) := by
    unfold Lexing.all
    exact hnext.bind
  rw [tokens_eq hallowed (by simp), hrun]
  rfl

theorem tokens_of_not_allowed {cs : List Char} (h : cs.all isAllowed = false) : tokens cs = ([], some .badYaml) := by
  unfold tokens
  rw [h]
  rfl

/-! ### The data of a document -/

/-- A document of one scalar has the data of the scalar. -/
theorem read_of_tokens {cs : List Char} {s : Text} {isPlain : Bool} {d : Data}
    (h : tokens cs = ([.scalar s isPlain, .streamEnd], none))
    (hread : (Parsing.scalarTag none isPlain s).read s = .ok d) : read (.ofChars cs) = .ok d := by
  have hnode : Node.ofChars? cs = .ok (some (.scalar (Parsing.scalarTag none isPlain s) s)) := by
    unfold Node.ofChars?
    rw [h]
    rfl
  have hdata : (Node.scalar (Parsing.scalarTag none isPlain s) s).data = .ok d := by
    unfold Node.data
    exact hread
  unfold read
  rw [Text.chars?_ofChars]
  dsimp only
  rw [hnode]
  change Node.content (cs.length + 1) (.scalar (Parsing.scalarTag none isPlain s) s) = .ok d
  unfold Node.content
  rw [hdata]

/-- A text without a token is refused with the fault that stands in place of the first. -/
theorem read_of_tokens_error {cs : List Char} {e : Fault} (h : tokens cs = ([], some e)) :
    read (.ofChars cs) = .error e := by
  have hnode : Node.ofChars? cs = .error e := by
    unfold Node.ofChars?
    rw [h]
    rfl
  unfold read
  rw [Text.chars?_ofChars]
  dsimp only
  rw [hnode]
  rfl

/-- A text with half of a surrogate pair is no document. -/
theorem read_of_half {text : Text} {i : Fin 2048} (h : .half i ∈ text.codes) : read text = .error .badYaml := by
  unfold read
  rw [Text.chars?_eq_none_iff.2 ⟨i, h⟩]
  rfl

end StackCalc.Yaml
