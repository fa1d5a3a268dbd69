import StackCalc.Fault

/-! # Dates and times

A date, or a date with a time of day and the distance of its zone from universal time, in the spellings that
PyYAML 6.0.3 takes for one. -/

namespace StackCalc.Yaml

/-- A time of day; the zone is its distance from universal time in minutes. -/
structure TimeOfDay where
  hour : Nat
  minute : Nat
  second : Nat
  microsecond : Nat
  zone : Option Int
  deriving DecidableEq

/-- A date, with or without a time of day. -/
structure Timestamp where
  year : Nat
  month : Nat
  day : Nat
  time : Option TimeOfDay
  deriving DecidableEq

namespace Timestamp

/-! ### Reading -/

/-- The number at the front of a text, of as many digits as are there between two bounds. -/
def digits (least most : Nat) (cs : List Char) : Option (Nat × List Char) :=
  let ds := (cs.take most).takeWhile Char.isDigit
  if ds.length < least then none
  else some (ds.foldl (fun n c => 10 * n + (c.toNat - 48)) 0, cs.drop ds.length)

/-- Passes a character. -/
def expect (c : Char) : List Char → Option (List Char)
  | d :: rest => if d == c then some rest else none
  | [] => none

def isBlank (c : Char) : Bool := c == ' ' || c == '\t'

/-- What stands between date and time: the letter T, or blanks. -/
def separator : List Char → Option (List Char)
  | c :: rest =>
    if c == 'T' || c == 't' then some rest
    else if isBlank c then some (rest.dropWhile isBlank)
    else none
  | [] => none

/-- The microseconds that the digits of a fraction stand for. -/
def fraction (ds : List Char) : Nat :=
  let six := ds.take 6
  (six ++ List.replicate (6 - six.length) '0').foldl (fun n c => 10 * n + (c.toNat - 48)) 0

/-- The zone at the end of a text. -/
def zone : List Char → Option Int
  | ['Z'] => some 0
  | c :: rest => do
    if c != '+' && c != '-' then none
    let (hours, rest) ← digits 1 2 rest
    let (minutes, rest) ← match rest with
      | [] => some (0, [])
      | rest => (expect ':' rest).bind (digits 2 2)
    if !rest.isEmpty then none
    let offset : Int := (60 * hours + minutes : Nat)
    return if c == '-' then -offset else offset
  | [] => none

/-- A time of day that ends a text. -/
def timeOfDay (cs : List Char) : Option TimeOfDay := do
  let (hour, cs) ← digits 1 2 cs
  let (minute, cs) ← (expect ':' cs).bind (digits 2 2)
  let (second, cs) ← (expect ':' cs).bind (digits 2 2)
  let (microsecond, cs) := match cs with
    | '.' :: rest => (fraction (rest.takeWhile Char.isDigit), rest.dropWhile Char.isDigit)
    | cs => (0, cs)
  if cs.isEmpty then return ⟨hour, minute, second, microsecond, none⟩
  else return ⟨hour, minute, second, microsecond, some (← zone (cs.dropWhile isBlank))⟩

/-- The parts of a date or a date with a time; whether there is such a day is not asked. -/
def ofChars? (cs : List Char) : Option Timestamp := do
  let (year, cs) ← digits 4 4 cs
  let (month, cs) ← (expect '-' cs).bind (digits 1 2)
  let (day, cs) ← (expect '-' cs).bind (digits 1 2)
  if cs.isEmpty then return ⟨year, month, day, none⟩
  else return ⟨year, month, day, some (← (separator cs).bind timeOfDay)⟩

/-- A plain scalar that is a date has two digits for the month and the day, unless a time follows. -/
def isPlain (cs : List Char) : Bool :=
  match ofChars? cs with
  | some t => t.time.isSome || cs.length == 10
  | none => false

/-! ### Validity -/

def isLeap (year : Nat) : Bool := year % 4 == 0 && (year % 100 != 0 || year % 400 == 0)

def daysIn (year month : Nat) : Nat :=
  if month == 2 then (if isLeap year then 29 else 28)
  else if month == 4 || month == 6 || month == 9 || month == 11 then 30
  else 31

def TimeOfDay.isValid (t : TimeOfDay) : Bool :=
  t.hour < 24 && t.minute < 60 && t.second < 60 && t.zone.all fun z => z.natAbs < 24 * 60

/-- There is such a day and such a time. -/
def isValid (t : Timestamp) : Bool :=
  1 ≤ t.year && 1 ≤ t.month && t.month ≤ 12 && 1 ≤ t.day && t.day ≤ daysIn t.year t.month &&
    t.time.all TimeOfDay.isValid

/-! ### Diagnostic text -/

/-- The class that a timestamp is shown as. -/
def className (t : Timestamp) : String := if t.time.isSome then "datetime" else "date"

/-- A zone is universal time or a distance, given as days and seconds that are not negative. -/
def showZone (z : Int) : String :=
  if z == 0 then "datetime.timezone.utc"
  else
    let distance :=
      if z < 0 then "days=-1, seconds=" ++ toString (86400 + 60 * z) else "seconds=" ++ toString (60 * z)
    "datetime.timezone(datetime.timedelta(" ++ distance ++ "))"

/-- The fields that are shown of a time: seconds and microseconds only if they are needed. -/
def TimeOfDay.fields (t : TimeOfDay) : List Nat :=
  if t.microsecond != 0 then [t.hour, t.minute, t.second, t.microsecond]
  else if t.second != 0 then [t.hour, t.minute, t.second]
  else [t.hour, t.minute]

def shown (t : Timestamp) : String :=
  let fields := [t.year, t.month, t.day] ++ t.time.elim [] TimeOfDay.fields
  let zone := match t.time.bind (·.zone) with
    | some z => ", tzinfo=" ++ showZone z
    | none => ""
  "datetime." ++ t.className ++ "(" ++ ", ".intercalate (fields.map toString) ++ zone ++ ")"

end Timestamp

end StackCalc.Yaml
