import Stencil.Text.Bytes
import Stencil.Wrap

/-!
# Instants

Points in time with the clock that they were read from. A text gives the date of the Gregorian
calendar and the time of day of that clock, and a `Z` or how far the clock is ahead.
-/
namespace Stencil

/-- A point in time. -/
structure Instant where
  /-- Nanoseconds since the start of the year 1. -/
  nanos : Int
  /-- How many seconds the clock is ahead. -/
  offset : Int := 0
  deriving DecidableEq, Repr

namespace Instant

/-- The start of the year 1. -/
def zero : Instant := { nanos := 0 }

/-- A later reading of the same clock. -/
def later (t : Instant) (nanos : Int) : Instant := { t with nanos := t.nanos + nanos }

def nanosPerSecond : Int := 1000000000

/-- Years with a leap day. -/
def isLeap (year : Int) : Bool := year % 4 == 0 && (year % 100 != 0 || year % 400 == 0)

/-- The days of a month. -/
def daysIn (year month : Int) : Int :=
  if month = 2 then if isLeap year then 29 else 28
  else if month = 4 ∨ month = 6 ∨ month = 9 ∨ month = 11 then 30
  else 31

/-- Days from the start of the year 1 to that of a year. -/
def daysBeforeYear (year : Int) : Int :=
  let y := year - 1
  365 * y + y / 4 - y / 100 + y / 400

/-- Days from the start of a year to that of a month. -/
def daysBeforeMonth (year : Int) (month : Nat) : Int :=
  ((List.range (month - 1)).map fun (m : Nat) => daysIn year ((m : Int) + 1)).foldl (· + ·) 0

/-! ### Reading -/

/-- How the fields of a text are set. -/
structure Layout where
  /-- Months, days, minutes and seconds have two digits; otherwise they may have one. -/
  twoDigits : Bool
  /-- What stands between the date and the time. -/
  divider : Char
  /-- The clock is told at the end. -/
  zoned : Bool

/-- The layout of stored times. -/
def storedLayout : Layout := ⟨true, 'T', true⟩

/-- A number of one or two digits. -/
def number (twoDigits : Bool) : Bytes → Option (Int × Bytes)
  | a :: b :: rest =>
    if isDigit a && isDigit b then some ((Bytes.natOfDigits [a, b] : Int), rest)
    else if isDigit a && !twoDigits then some ((Bytes.natOfDigits [a] : Int), b :: rest)
    else none
  | [a] => if isDigit a && !twoDigits then some ((Bytes.natOfDigits [a] : Int), []) else none
  | [] => none

/-- A number between two bounds. -/
def numberIn (twoDigits : Bool) (least most : Int) (s : Bytes) : Option (Int × Bytes) :=
  match number twoDigits s with
  | some (n, rest) => if least ≤ n ∧ n ≤ most then some (n, rest) else none
  | none => none

/-- The rest after a certain character; a space stands for any number of them. -/
def after (c : Char) : Bytes → Option Bytes
  | d :: rest =>
    if d = ascii c then some (if c = ' ' then rest.dropWhile (· = 32) else rest) else none
  | [] => none

/-- A year of four digits. -/
def year (s : Bytes) : Option (Int × Bytes) :=
  if (s.take 4).length = 4 ∧ (s.take 4).all isDigit then
    some ((Bytes.natOfDigits (s.take 4) : Int), s.drop 4)
  else none

/-- A date, as the number of days since the start of the year 1. -/
def date (twoDigits : Bool) (s : Bytes) : Option (Int × Bytes) := do
  let (y, s) ← year s
  let (m, s) ← numberIn twoDigits 1 12 (← after '-' s)
  let (d, s) ← numberIn twoDigits 1 (daysIn y m) (← after '-' s)
  return (daysBeforeYear y + daysBeforeMonth y m.toNat + (d - 1), s)

/-- A fraction of a second in nanoseconds, further digits cut off, and the rest of the text. -/
def fraction : Bytes → Int × Bytes
  | [] => (0, [])
  | c :: cs =>
    let ds := cs.takeWhile isDigit
    if (c = ascii '.' ∨ c = ascii ',') ∧ ds ≠ [] then
      let nine := (ds ++ List.replicate 9 (ascii '0')).take 9
      ((Bytes.natOfDigits nine : Int), cs.dropWhile isDigit)
    else (0, c :: cs)

/-- A time of day in nanoseconds. The hour may always have one digit. -/
def timeOfDay (twoDigits : Bool) (s : Bytes) : Option (Int × Bytes) := do
  let (h, s) ← numberIn false 0 23 s
  let (m, s) ← numberIn twoDigits 0 59 (← after ':' s)
  let (sec, s) ← numberIn twoDigits 0 59 (← after ':' s)
  let (nanos, s) := fraction s
  return ((h * 3600 + m * 60 + sec) * nanosPerSecond + nanos, s)

/-- How far a clock is ahead in seconds; the text must end there. Up to 24 hours and 60 minutes
are taken. -/
def zone (s : Bytes) : Option Int :=
  if s = "Z" then some 0
  else match s with
    | sign :: rest => do
      let (hours, rest) ← numberIn true 0 24 rest
      let (minutes, rest) ← numberIn true 0 60 (← after ':' rest)
      let distance := (hours * 60 + minutes) * 60
      if rest ≠ [] then none
      else if sign = ascii '+' then some distance
      else if sign = ascii '-' then some (-distance)
      else none
    | [] => none

/-- Reads a date and time in a layout. -/
def read? (l : Layout) (s : Bytes) : Option Instant := do
  let (days, s) ← date l.twoDigits s
  let (ofDay, s) ← timeOfDay l.twoDigits (← after l.divider s)
  let offset ← if l.zoned then zone s else if s = [] then some 0 else none
  return { nanos := (days * 86400 - offset) * nanosPerSecond + ofDay, offset }

/-- Reads a stored time. -/
def parse? (s : Bytes) : Option Instant := read? storedLayout s

/-- Reads a date alone, which stands for its first moment. -/
def ofDate? (s : Bytes) : Option Instant :=
  match date false s with
  | some (days, []) => some { nanos := days * 86400 * nanosPerSecond }
  | _ => none

/-! ### Writing -/

/-- The year, month and day of a number of days since the start of the year 1. -/
def civil (days : Int) : Int × Int × Int :=
  -- years start in March, so that a leap day is the last of its year
  let z := days + 306
  let era := z / 146097
  let dayOfEra := z % 146097
  let yearOfEra := (dayOfEra - dayOfEra / 1460 + dayOfEra / 36524 - dayOfEra / 146096) / 365
  let dayOfYear := dayOfEra - (365 * yearOfEra + yearOfEra / 4 - yearOfEra / 100)
  let shifted := (5 * dayOfYear + 2) / 153
  let day := dayOfYear - (153 * shifted + 2) / 5 + 1
  let month := if shifted < 10 then shifted + 3 else shifted - 9
  (yearOfEra + era * 400 + (if month ≤ 2 then 1 else 0), month, day)

/-- Nanoseconds of the clock's own time. -/
def localNanos (t : Instant) : Int := t.nanos + t.offset * nanosPerSecond

def dateText (t : Instant) : Bytes :=
  let (year, month, day) := civil (t.localNanos / nanosPerSecond / 86400)
  Bytes.padded 4 year.toNat ++ "-" ++ Bytes.padded 2 month.toNat ++ "-" ++ Bytes.padded 2 day.toNat

/-- The time of day; a fraction is shown without zeros at its end. -/
def timeText (t : Instant) : Bytes :=
  let ofDay := (t.localNanos / nanosPerSecond % 86400).toNat
  let nanos := Bytes.padded 9 (t.localNanos % nanosPerSecond).toNat
  let shown := (nanos.reverse.dropWhile (· = ascii '0')).reverse
  Bytes.padded 2 (ofDay / 3600) ++ ":" ++ Bytes.padded 2 (ofDay / 60 % 60) ++ ":"
    ++ Bytes.padded 2 (ofDay % 60) ++ (if shown = [] then [] else ascii '.' :: shown)

/-- How far the clock is ahead: a sign, hours and minutes with `between` between them. -/
def offsetText (between : Bytes) (t : Instant) : Bytes :=
  let minutes := t.offset.natAbs / 60
  ascii (if t.offset < 0 then '-' else '+') :: Bytes.padded 2 (minutes / 60) ++ between
    ++ Bytes.padded 2 (minutes % 60)

/-- The stored text of an instant; a clock that is a day or more ahead has none. -/
def text? (t : Instant) : Option Bytes :=
  if 86400 ≤ t.offset.natAbs then none
  else
    let zone : Bytes := if t.offset = 0 then "Z" else offsetText ":" t
    some (t.dateText ++ "T" ++ t.timeText ++ zone)

/-- The text of an instant in a listing of values. -/
def display (t : Instant) : Bytes :=
  let name : Bytes := if t.offset = 0 then "UTC" else offsetText [] t
  t.dateText ++ " " ++ t.timeText ++ " " ++ offsetText [] t ++ " " ++ name

/-! ### Distances -/

/-- The longest time that is told apart. -/
def maxSpan : Int := wordLimit - 1

/-- The time from one instant to another. -/
def since (start now : Instant) : Int :=
  max (-maxSpan - 1) (min maxSpan (now.nanos - start.nanos))

end Instant

end Stencil
