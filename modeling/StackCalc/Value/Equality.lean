import StackCalc.Value.Basic

/-! # Equality of values

Two values are equal if they have the same domain and kind and equal payloads. Scalars are compared by
value, records by their type and field by field, everything with an identity by that identity. Members of
pairs and records are equal also if they are the very same object, which makes a difference for what is
not a number: `agree` is equality with that addition. -/

namespace StackCalc

/-- The same callable. -/
def Callable.same : Callable → Callable → Bool
  | .builtin a, .builtin b => a == b
  | .addPart a, .addPart b | .addGuarded a, .addGuarded b | .addDefault a, .addDefault b => a == b
  | f, g =>
    match f.serial?, g.serial? with
    | some a, some b => a == b
    | _, _ => false

/-- The serial number of a composite that is equal to itself only. -/
def Composite.identity? : Composite → Option Nat
  | .struct t => some t.serial
  | .record .. => none
  | .pattern n _ | .binder n _ | .construction n .. | .host n .. => some n

mutual

/-- Equality of values. -/
def Value.eq : Value → Value → Bool
  | .mk d p, .mk e q => d == e && p.eq q

/-- Equality of payloads; those of different kinds differ. -/
def Payload.eq : Payload → Payload → Bool
  | .int m, .int n => m == n
  | .float x _, .float y _ => x.eq y
  | .str s, .str t => s == t
  | .bool a, .bool b => a == b
  | .null, .null => true
  | .cons a b, .cons c d => a.agrees c && b.agrees d
  | .code c, .code d => c.label == d.label
  | .callable f, .callable g => f.same g
  | .object c, .object d => c.eq d
  | .host k s _, .host l t _ => k == l && s == t
  | _, _ => false

/-- The same object, or equal. -/
def Value.agrees : Value → Value → Bool
  | .mk d p, .mk e q =>
    d == e &&
      match p, q with
      | .float x m, .float y n => (x == y && m == n) || x.eq y
      | p, q => p.eq q

def Composite.eq : Composite → Composite → Bool
  | .record t vs, .record u ws => t.serial == u.serial && agreeAll vs ws
  | c, d =>
    match c.identity?, d.identity? with
    | some m, some n => m == n
    | _, _ => false

/-- Two lists of the same length agree member by member. -/
def agreeAll : List Value → List Value → Bool
  | [], [] => true
  | v :: vs, w :: ws => v.agrees w && agreeAll vs ws
  | _, _ => false

end

/-- Equality as the given domain sees it: it vouches for its own values only. -/
def Value.eqIn (d : DomainId) (v w : Value) : Bool :=
  v.domain == d && w.domain == d && v.payload.eq w.payload

mutual

/-- Has a hash that equal values share; containers of the host have none. -/
def Value.isHashable : Value → Bool
  | .mk _ p => p.isHashable

def Payload.isHashable : Payload → Bool
  | .cons a b => a.isHashable && b.isHashable
  | .object (.record _ vs) => allHashable vs
  | .host .. => false
  | _ => true

def allHashable : List Value → Bool
  | [] => true
  | v :: vs => v.isHashable && allHashable vs

end

theorem Value.eq_iff (v w : Value) :
    v.eq w = true ↔ v.domain = w.domain ∧ v.payload.eq w.payload = true := by
  cases v; cases w; simp [Value.eq, Value.domain, Value.payload]

end StackCalc
