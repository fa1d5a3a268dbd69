import StackCalc.Pattern.Match
import Mathlib.Tactic.Common

/-! # What values mention

Code gets at the state of a machine by what it mentions: the names that it looks up, its operators, the scopes
that its closures were made in, the patterns under construction that it adds to, the functions of the host.
`Value.mentions` lists all of this, for the code in a value at any depth: in blocks, closures, patterns, their
guards and actions, and in the values that these hold.

The value that a pattern compares with is not run and not handed out, so what it mentions does not count. -/

namespace StackCalc

/-- What code can mention. -/
inductive Mention where
  | name (s : Text)
  | operator (op : BinaryOp)
  /-- A declared number of arguments. -/
  | count (n : Int)
  | scope (id : ScopeId)
  | builder (id : Nat)
  /-- A function of the host, by its place in the table of its kind. -/
  | host (index : Nat)
  deriving DecidableEq, Repr

/-- What holds of a number of arguments that is not negative and of an operator that has a meaning: no compiler
can do without. -/
class Mention.Elementary (A : Mention → Prop) : Prop where
  count (n : Nat) : A (.count n)
  operator {op : BinaryOp} (h : op.isMarker = false) : A (.operator op)

mutual

/-- **What a value mentions**, in all code that it holds. -/
def Value.mentions : Value → List Mention
  | .mk _ p => p.mentions

def Payload.mentions : Payload → List Mention
  | .cons a b => a.mentions ++ b.mentions
  | .code c => c.mentions
  | .callable f => f.mentions
  | .object c => c.mentions
  | .int _ | .float .. | .str _ | .bool _ | .null | .host .. => []

/-- What a step mentions, and the code that it pushes or closes over. -/
def Instr.mentions : Instr → List Mention
  | .push v => v.mentions
  | .get name => [.name name]
  | .call name args _ => .name name :: args.toList.map .count
  | .binary op => [.operator op]
  | .unary _ => []
  | .closure _ body => stepMentions body

def Code.mentions : Code → List Mention
  | .mk _ steps => stepMentions steps

def stepMentions : List Instr → List Mention
  | [] => []
  | i :: steps => i.mentions ++ stepMentions steps

def Callable.mentions : Callable → List Mention
  | .builtin _ | .counter _ => []
  | .native _ index _ _ _ | .shuffle _ index => [.host index]
  | .closure _ _ body scope => .scope scope :: stepMentions body
  | .matching _ scope patterns => .scope scope :: patternMentions patterns
  | .addPart builder | .addGuarded builder | .addDefault builder => [.builder builder]

def Composite.mentions : Composite → List Mention
  | .struct _ | .binder .. => []
  | .record _ vs => valueMentions vs
  | .pattern _ p => p.mentions
  | .construction _ name args => .name name :: valueMentions args
  | .host _ _ _ traits => traitMentions traits

def valueMentions : List Value → List Mention
  | [] => []
  | v :: vs => v.mentions ++ valueMentions vs

def Trait.mentions : Trait → List Mention
  | .members _ entries | .hiddenMembers entries => entryMentions entries
  | .repeats _ | .counts => []

def traitMentions : List Trait → List Mention
  | [] => []
  | t :: ts => t.mentions ++ traitMentions ts

def entryMentions : List (Text × Value) → List Mention
  | [] => []
  | (_, v) :: entries => v.mentions ++ entryMentions entries

def Part.mentions : Part → List Mention
  | .any | .bind _ | .exact _ => []
  | .cons a b => a.mentions ++ b.mentions
  | .construct name args => .name name :: partMentions args

def partMentions : List Part → List Mention
  | [] => []
  | p :: ps => p.mentions ++ partMentions ps

def Pattern.mentions : Pattern → List Mention
  | .plain parts action => partMentions parts ++ action.mentions
  | .guarded parts clauses fallback =>
    partMentions parts ++ clauseMentions clauses ++ (match fallback with
      | some action => action.mentions
      | none => [])

def patternMentions : List Pattern → List Mention
  | [] => []
  | p :: ps => p.mentions ++ patternMentions ps

def clauseMentions : List (Code × Code) → List Mention
  | [] => []
  | (guard, action) :: rest => guard.mentions ++ action.mentions ++ clauseMentions rest

end

variable {x : Mention}

/-! ### Mentions of lists -/

@[simp] theorem mem_stepMentions {steps : List Instr} : x ∈ stepMentions steps ↔ ∃ i ∈ steps, x ∈ i.mentions := by
  induction steps with
  | nil => simp [stepMentions]
  | cons i steps ih => simp [stepMentions, ih]

@[simp] theorem mem_valueMentions {vs : List Value} : x ∈ valueMentions vs ↔ ∃ v ∈ vs, x ∈ v.mentions := by
  induction vs with
  | nil => simp [valueMentions]
  | cons v vs ih => simp [valueMentions, ih]

@[simp] theorem mem_traitMentions {ts : List Trait} : x ∈ traitMentions ts ↔ ∃ t ∈ ts, x ∈ t.mentions := by
  induction ts with
  | nil => simp [traitMentions]
  | cons t ts ih => simp [traitMentions, ih]

@[simp] theorem mem_entryMentions {entries : List (Text × Value)} :
    x ∈ entryMentions entries ↔ ∃ e ∈ entries, x ∈ e.2.mentions := by
  induction entries with
  | nil => simp [entryMentions]
  | cons e entries ih => simp [entryMentions, ih]

@[simp] theorem mem_partMentions {ps : List Part} : x ∈ partMentions ps ↔ ∃ p ∈ ps, x ∈ p.mentions := by
  induction ps with
  | nil => simp [partMentions]
  | cons p ps ih => simp [partMentions, ih]

@[simp] theorem mem_patternMentions {ps : List Pattern} : x ∈ patternMentions ps ↔ ∃ p ∈ ps, x ∈ p.mentions := by
  induction ps with
  | nil => simp [patternMentions]
  | cons p ps ih => simp [patternMentions, ih]

@[simp] theorem mem_clauseMentions {clauses : List (Code × Code)} :
    x ∈ clauseMentions clauses ↔ ∃ c ∈ clauses, x ∈ c.1.mentions ∨ x ∈ c.2.mentions := by
  induction clauses with
  | nil => simp [clauseMentions]
  | cons c clauses ih => simp [clauseMentions, ih, or_assoc]

theorem Code.mem_mentions {c : Code} : x ∈ c.mentions ↔ ∃ i ∈ c.steps, x ∈ i.mentions := by
  cases c with
  | mk label steps => simp [Code.mentions, Code.steps]

theorem Value.mem_mentions {v : Value} : x ∈ v.mentions ↔ x ∈ v.payload.mentions := by
  cases v with
  | mk d p => simp [Value.mentions, Value.payload]

/-- What is found in a pattern: in its parts, its actions or its guards. -/
theorem Pattern.mem_mentions_guarded {parts : List Part} {clauses : List (Code × Code)} {fallback : Option Code} :
    x ∈ (Pattern.guarded parts clauses fallback).mentions ↔
      (∃ p ∈ parts, x ∈ p.mentions) ∨ (∃ c ∈ clauses, x ∈ c.1.mentions ∨ x ∈ c.2.mentions) ∨
        ∃ action, fallback = some action ∧ x ∈ action.mentions := by
  cases fallback <;> simp [Pattern.mentions]

/-! ### Parts of literals -/

mutual

/-- What a pattern literal stands for mentions nothing that its value does not. -/
theorem Part.mentions_ofValue : ∀ {v : Value}, x ∈ (Part.ofValue v).mentions → x ∈ v.mentions
  | .mk d p, h => by
    unfold Part.ofValue at h
    unfold Value.mentions
    split at h
    next serial name =>
      split_ifs at h <;> cases h
    next serial name args =>
      simp only [Part.mentions, List.mem_cons] at h
      simp only [Payload.mentions, Composite.mentions, List.mem_cons]
      exact h.imp_right Part.mentions_ofValues
    next a b =>
      simp only [Part.mentions, List.mem_append] at h
      simp only [Payload.mentions, List.mem_append]
      exact h.imp Part.mentions_ofValue Part.mentions_ofValue
    next => cases h

theorem Part.mentions_ofValues : ∀ {vs : List Value}, x ∈ partMentions (Part.ofValues vs) → x ∈ valueMentions vs
  | [], h => h
  | v :: vs, h => by
    simp only [Part.ofValues, partMentions, List.mem_append] at h
    simp only [valueMentions, List.mem_append]
    exact h.imp Part.mentions_ofValue Part.mentions_ofValues

end

end StackCalc
