import StackCalc.Text.Basic
import StackCalc.Text.Printable

/-! # Quoted text

The two ways in which a text is shown. `quoted` is the diagnostic form: single quotes unless the text
has a single and no double quote, escapes for the backslash, the quote and the three common controls,
and a numbered escape for what is not printable. `written` is the form of a literal inside an
expression: always single quotes, and only the quote and the backslash are escaped, so that `readWritten`
gets the text back. -/

namespace StackCalc.Text

/-- The last `width` digits of a number in base sixteen. -/
def hex : Nat → Nat → List Char
  | 0, _ => []
  | width + 1, n => hex width (n / 16) ++ [Nat.digitChar (n % 16)]

theorem length_hex (width n : Nat) : (hex width n).length = width := by
  induction width generalizing n with
  | zero => rfl
  | succ width ih => simp [hex, ih]

/-- A numbered escape, as short as the code point allows. -/
def numberedEscape (n : Nat) : List Char :=
  if n ≤ 0xFF then '\\' :: 'x' :: hex 2 n
  else if n ≤ 0xFFFF then '\\' :: 'u' :: hex 4 n
  else '\\' :: 'U' :: hex 8 n

/-- One character of a text that is shown between the given quotes. -/
def quotedChar (quote c : Char) : List Char :=
  if c == quote || c == '\\' then ['\\', c]
  else if c == '\t' then ['\\', 't']
  else if c == '\n' then ['\\', 'n']
  else if c == '\r' then ['\\', 'r']
  else if isPrintable c then [c]
  else numberedEscape c.toNat

/-- One code point of a text that is shown between the given quotes. Half of a pair is not printable. -/
def quotedCode (quote : Char) : CodePoint → List Char
  | .char c => quotedChar quote c
  | .half i => numberedEscape (CodePoint.half i).toNat

/-- Double quotes only for a text with a single and no double quote. -/
def quoteFor (s : List CodePoint) : Char :=
  if s.contains '\'' && !s.contains '"' then '"' else '\''

/-- The diagnostic form of a text. -/
def quoted (s : Text) : Text :=
  ofChars (quoteFor s.codes :: s.codes.flatMap (quotedCode (quoteFor s.codes)) ++ [quoteFor s.codes])

/-- The diagnostic form of bytes: ASCII characters as in a text, the others numbered. -/
def quotedBytes (bytes : List UInt8) : Text :=
  let s := bytes.map fun b => Char.ofNat b.toNat
  let quote := quoteFor (s.map .char)
  let one (c : Char) : List Char := if c.toNat < 0x7F then quotedChar quote c else numberedEscape c.toNat
  ofChars ('b' :: quote :: s.flatMap one ++ [quote])

/-! ### Literals in expressions -/

/-- One code point of a literal. -/
def writtenCode (c : CodePoint) : List CodePoint :=
  if c == '\'' || c == '\\' then ['\\', c] else [c]

/-- The literal for a text. -/
def writtenCodes (s : List CodePoint) : List CodePoint :=
  .char '\'' :: s.flatMap writtenCode ++ [.char '\'']

@[inherit_doc writtenCodes]
def written (s : Text) : Text := ⟨writtenCodes s.codes⟩

/-- The text up to the closing quote of a literal, and what follows the quote. -/
def readWrittenBody : List CodePoint → Option (List CodePoint × List CodePoint)
  | [] => none
  | .char '\\' :: c :: rest => (readWrittenBody rest).map fun (s, r) => (c :: s, r)
  | c :: rest =>
    if c == '\'' then some ([], rest)
    else (readWrittenBody rest).map fun (s, r) => (c :: s, r)

/-- A literal at the front of a text, and what follows it. -/
def readWritten : List CodePoint → Option (List CodePoint × List CodePoint)
  | .char '\'' :: rest => readWrittenBody rest
  | _ => none

theorem readWrittenBody_flatMap (s rest : List CodePoint) :
    readWrittenBody (s.flatMap writtenCode ++ .char '\'' :: rest) = some (s, rest) := by
  induction s with
  | nil => simp [readWrittenBody]
  | cons c s ih =>
    rw [List.flatMap_cons, List.append_assoc]
    by_cases hq : c = '\''
    · subst hq; simp [writtenCode, readWrittenBody, ih]
    · by_cases hb : c = '\\'
      · subst hb; simp [writtenCode, readWrittenBody, ih]
      · have hw : writtenCode c = [c] := by simp [writtenCode, hq, hb]
        rw [hw, List.singleton_append, readWrittenBody.eq_3 _ _ (by intro _ _ h; exact absurd h hb)]
        simp [hq, ih]

theorem readWritten_writtenCodes (s rest : List CodePoint) :
    readWritten (writtenCodes s ++ rest) = some (s, rest) := by
  simp [writtenCodes, readWritten, readWrittenBody_flatMap]

end StackCalc.Text
