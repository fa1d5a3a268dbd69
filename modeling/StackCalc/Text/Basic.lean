/-! # Texts

A text is a sequence of code points. Nearly all of them are characters; half of a surrogate pair is none, but may stand
in a text that comes from a host or from an escape. Literals are texts without halves (`Text.ofString`), and only
such a text has a string (`Text.string?`) and thus bytes. -/

namespace StackCalc

/-- A code point: a character, or half of a surrogate pair, by its place among the halves. -/
inductive CodePoint where
  | char (c : Char)
  | half (i : Fin 2048)
  deriving DecidableEq, Repr, Inhabited

namespace CodePoint

instance : Coe Char CodePoint := ⟨char⟩

/-- The number of the first half. -/
def firstHalf : Nat := 0xD800

def toNat : CodePoint → Nat
  | char c => c.toNat
  | half i => firstHalf + i

/-- The code point with a number. -/
def ofNat (n : Nat) : CodePoint :=
  if h : n - firstHalf < 2048 ∧ firstHalf ≤ n then half ⟨n - firstHalf, h.1⟩ else char (Char.ofNat n)

/-- A code point is the one with its number: no character has the number of a half. -/
theorem ofNat_toNat : ∀ c : CodePoint, ofNat c.toNat = c
  | half i => by
    have hi : firstHalf + i.1 - firstHalf < 2048 ∧ firstHalf ≤ firstHalf + i.1 := by omega
    have hindex : firstHalf + i.1 - firstHalf = i.1 := by omega
    simp only [toNat, ofNat, dif_pos hi, hindex]
  | char c => by
    have hvalid : c.toNat < 0xD800 ∨ 0xDFFF < c.toNat ∧ c.toNat < 0x110000 := c.valid
    have hnone : ¬ (c.toNat - firstHalf < 2048 ∧ firstHalf ≤ c.toNat) := by
      unfold firstHalf
      omega
    simp only [toNat, ofNat, dif_neg hnone, Char.ofNat_toNat]

def char? : CodePoint → Option Char
  | char c => some c
  | half _ => none

/-- A character of a class; half of a pair is in none. -/
def isIn (p : Char → Bool) : CodePoint → Bool
  | char c => p c
  | half _ => false

/-- Changes a character. -/
def map (f : Char → Char) : CodePoint → CodePoint
  | char c => char (f c)
  | half i => half i

/-- The character that stands in for half of a pair where characters are wanted. -/
def blurred : CodePoint → Char
  | char c => c
  | half _ => '\uFFFD'

end CodePoint

/-- A text. -/
@[ext]
structure Text where
  codes : List CodePoint
  deriving DecidableEq, Repr, Inhabited

namespace Text

def ofChars (cs : List Char) : Text := ⟨cs.map .char⟩

def ofString (s : String) : Text := ofChars s.toList

instance : Coe String Text := ⟨ofString⟩

protected def append (s t : Text) : Text := ⟨s.codes ++ t.codes⟩

instance : Append Text := ⟨Text.append⟩

/-- Texts are in the order of the numbers of their code points. -/
instance : LT Text := ⟨fun s t => s.codes.map CodePoint.toNat < t.codes.map CodePoint.toNat⟩

instance (s t : Text) : Decidable (s < t) :=
  inferInstanceAs (Decidable (s.codes.map CodePoint.toNat < t.codes.map CodePoint.toNat))

def length (s : Text) : Nat := s.codes.length

def join (ss : List Text) : Text := ⟨ss.flatMap codes⟩

/-- The texts with another one between each two of them. -/
def intercalate (separator : Text) (ss : List Text) : Text := ⟨separator.codes.intercalate (ss.map codes)⟩

/-- Changes the characters. -/
def map (f : Char → Char) (s : Text) : Text := ⟨s.codes.map (CodePoint.map f)⟩

def startsWith (s start : Text) : Bool := start.codes.isPrefixOf s.codes

def endsWith (s ending : Text) : Bool := ending.codes.isSuffixOf s.codes

/-- The parts between the code points that separate them. -/
def split (separates : CodePoint → Bool) (s : Text) : List Text := (s.codes.splitOnP separates).map mk

/-- The characters of a text without halves of pairs. -/
def chars? (s : Text) : Option (List Char) := s.codes.mapM CodePoint.char?

/-- The string of a text without halves of pairs. -/
def string? (s : Text) : Option String := s.chars?.map String.ofList

/-- The bytes of a text without halves of pairs. -/
def utf8? (s : Text) : Option (List UInt8) := s.string?.map fun t => t.toUTF8.toList

/-- The string with a stand-in for each half of a pair. -/
def blurred (s : Text) : String := String.ofList (s.codes.map CodePoint.blurred)

/-! ### Literals -/

@[simp] theorem codes_ofChars (cs : List Char) : (ofChars cs).codes = cs.map .char := rfl

@[simp] theorem codes_ofString (s : String) : (s : Text).codes = s.toList.map .char := rfl

@[simp] theorem codes_append (s t : Text) : (s ++ t).codes = s.codes ++ t.codes := rfl

@[simp] theorem codes_intercalate (separator : Text) (ss : List Text) :
    (intercalate separator ss).codes = separator.codes.intercalate (ss.map codes) := rfl

@[simp] theorem chars?_ofChars (cs : List Char) : (ofChars cs).chars? = some cs := by
  unfold chars? ofChars
  induction cs with
  | nil => rfl
  | cons c cs ih =>
    rw [List.map_cons, List.mapM_cons, ih]
    rfl

theorem eq_ofChars_of_chars? {s : Text} {cs : List Char} (h : s.chars? = some cs) : s = ofChars cs := by
  obtain ⟨codes⟩ := s
  unfold chars? at h
  dsimp only at h
  suffices hcodes : codes = cs.map .char by rw [hcodes]; rfl
  induction codes generalizing cs with
  | nil =>
    cases h
    rfl
  | cons c codes ih =>
    cases c with
    | half i => cases h
    | char c =>
      rcases hrest : codes.mapM CodePoint.char? with _ | rest <;> rw [List.mapM_cons, hrest] at h <;> cases h
      rw [ih hrest, List.map_cons]

@[simp] theorem string?_ofString (s : String) : (s : Text).string? = some s := by
  simp [string?, ofString]

@[simp] theorem blurred_ofString (s : String) : (s : Text).blurred = s := by
  have hchars : (s.toList.map CodePoint.char).map CodePoint.blurred = s.toList := by
    rw [List.map_map]
    exact List.map_id _
  rw [blurred, codes_ofString, hchars, String.ofList_toList]

@[simp] theorem ofString_inj {s t : String} : (s : Text) = t ↔ s = t :=
  ⟨fun h => Option.some.inj (by rw [← string?_ofString s, h, string?_ofString]), congrArg ofString⟩

/-- Just the halves of pairs have no characters. -/
theorem chars?_eq_none_iff {s : Text} : s.chars? = none ↔ ∃ i, CodePoint.half i ∈ s.codes := by
  obtain ⟨codes⟩ := s
  unfold chars?
  dsimp only
  induction codes with
  | nil => simp
  | cons c codes ih =>
    cases c with
    | half i => exact ⟨fun _ => ⟨i, List.mem_cons_self⟩, fun _ => rfl⟩
    | char c =>
      simp only [List.mem_cons, reduceCtorEq, false_or]
      rw [← ih, List.mapM_cons]
      cases codes.mapM CodePoint.char? with
      | none => exact Iff.rfl
      | some cs => simp [CodePoint.char?]

/-- A text whose code points are of a class of characters. -/
theorem exists_ofChars {s : Text} {p : Char → Bool} (h : ∀ c ∈ s.codes, c.isIn p = true) :
    ∃ cs, s = ofChars cs ∧ ∀ c ∈ cs, p c = true := by
  cases hcs : s.chars? with
  | none =>
    obtain ⟨i, hi⟩ := chars?_eq_none_iff.1 hcs
    cases h _ hi
  | some cs =>
    have hs := eq_ofChars_of_chars? hcs
    exact ⟨cs, hs, fun c hc => h (.char c) (hs ▸ List.mem_map_of_mem hc)⟩

theorem utf8?_eq_none_iff {s : Text} : s.utf8? = none ↔ ∃ i, CodePoint.half i ∈ s.codes := by
  rw [utf8?, string?, Option.map_eq_none_iff, Option.map_eq_none_iff, chars?_eq_none_iff]

theorem eq_ofString_of_string? {s : Text} {t : String} (h : s.string? = some t) : s = t := by
  obtain ⟨cs, hcs, rfl⟩ := Option.map_eq_some_iff.1 h
  rw [eq_ofChars_of_chars? hcs, ofString, String.toList_ofList]

end Text

end StackCalc
