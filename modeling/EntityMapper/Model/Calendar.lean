import EntityMapper.Decimal.Reading
import EntityMapper.Text.Blank

/-!
# Dates and times in text

Two forms of text denote an instant: a date with a time and an offset, in fixed
fields, and a bare date, which stands for its midnight. Instants count
microseconds since the epoch. The calendar is the proleptic Gregorian one.
-/

namespace EntityMapper.Calendar

def isLeap (year : Int) : Bool :=
  year % 4 == 0 && (year % 100 != 0 || year % 400 == 0)

/-- The number of days of a month. -/
def monthDays (year : Int) : Nat → Nat
  | 2 => if isLeap year then 29 else 28
  | 4 | 6 | 9 | 11 => 30
  | _ => 31

/-- The number of days of the months before one. -/
def daysBeforeMonth (year : Int) : Nat → Nat
  | 0 | 1 => 0
  | month + 1 => daysBeforeMonth year month + monthDays year month

/-- The number of days from the first day of the year one to the first day of a
year. -/
def daysBeforeYear (year : Int) : Int :=
  let y := year - 1
  365 * y + y / 4 - y / 100 + y / 400

/-- The number of days from the epoch to a date. -/
def daysFromEpoch (year : Int) (month day : Nat) : Int :=
  daysBeforeYear year - daysBeforeYear 1970 + daysBeforeMonth year month + day - 1

/-- Whether a date is in the calendar and in the range of years that dates have. -/
def isDate (year : Int) (month day : Nat) : Bool :=
  decide (-262143 ≤ year) && decide (year ≤ 262142) && decide (1 ≤ month) &&
    decide (month ≤ 12) && decide (1 ≤ day) && decide (day ≤ monthDays year month)

def microsPerSecond : Int := 1000000

def secondsPerDay : Int := 86400

/-- A number of exactly the given count of digits, and what follows it. -/
def fixedDigits? (count : Nat) (text : List Char) : Option (Nat × List Char) :=
  let digits := text.take count
  if digits.length = count ∧ digits.all Text.isDigit then
    some (Decimal.digitsValue digits, text.drop count)
  else none

/-- What follows one of the given characters. -/
def skipOne? (allowed : List Char) : List Char → Option (List Char)
  | [] => none
  | c :: rest => if allowed.contains c then some rest else none

/-- Nanoseconds behind a point, if there is one. Digits past the ninth are
dropped. -/
def fraction? : List Char → Option (Nat × List Char)
  | '.' :: rest =>
    let digits := rest.takeWhile Text.isDigit
    let kept := digits.take 9
    if digits.isEmpty then none
    else some (Decimal.digitsValue kept * Nat.pow 10 (9 - kept.length),
      rest.dropWhile Text.isDigit)
  | rest => some (0, rest)

/-- An offset from universal time in minutes: the letter Z, or a sign with hours
and minutes of less than a day. -/
def offset? : List Char → Option (Int × List Char)
  | [] => none
  | c :: rest =>
    if c = 'Z' ∨ c = 'z' then some (0, rest)
    else if c = '+' ∨ c = '-' ∨ c.toNat = 0x2212 then do
      let (hours, rest) ← fixedDigits? 2 rest
      let rest ← skipOne? [':'] rest
      let (minutes, rest) ← fixedDigits? 2 rest
      if 60 ≤ minutes ∨ 24 ≤ hours then none
      let size : Int := hours * 60 + minutes
      return (if c = '+' then size else -size, rest)
    else none

/-- The instant of a date with time and offset. The second sixty is the second
after the fifty-ninth. -/
def readInstant? (text : List Char) : Option Int := do
  let (year, rest) ← fixedDigits? 4 text
  let rest ← skipOne? ['-'] rest
  let (month, rest) ← fixedDigits? 2 rest
  let rest ← skipOne? ['-'] rest
  let (day, rest) ← fixedDigits? 2 rest
  let rest ← skipOne? ['T', 't', ' '] rest
  let (hour, rest) ← fixedDigits? 2 rest
  let rest ← skipOne? [':'] rest
  let (minute, rest) ← fixedDigits? 2 rest
  let rest ← skipOne? [':'] rest
  let (second, rest) ← fixedDigits? 2 rest
  let (nanos, rest) ← fraction? rest
  let (offset, rest) ← offset? rest
  if !rest.isEmpty || !isDate year month day || decide (23 < hour) ||
    decide (59 < minute) || decide (60 < second) then none
  let seconds : Int := daysFromEpoch year month day * secondsPerDay +
    ((hour * 60 + minute : Nat) - offset) * 60 + second
  return seconds * microsPerSecond + (nanos / 1000 : Nat)

/-- One or more digits, at most the given count of them, and what follows. -/
def someDigits? (most : Nat) (text : List Char) : Option (Nat × List Char) :=
  let digits := (text.takeWhile Text.isDigit).take most
  if digits.isEmpty then none
    else some (Decimal.digitsValue digits, text.drop digits.length)

/-- A year: at most four digits, or any number of them behind a sign. Blanks may
come first. -/
def year? (text : List Char) : Option (Int × List Char) :=
  match text.dropWhile Text.isBlank with
  | '-' :: rest =>
    (someDigits? rest.length rest).map fun (n, more) => (-(n : Int), more)
  | '+' :: rest =>
    (someDigits? rest.length rest).map fun (n, more) => ((n : Int), more)
  | rest => (someDigits? 4 rest).map fun (n, more) => ((n : Int), more)

/-- The midnight of a date of year, month and day between hyphens. Blanks may
come before each number. -/
def readDate? (text : List Char) : Option Int := do
  let (year, rest) ← year? text
  let rest ← skipOne? ['-'] rest
  let (month, rest) ← someDigits? 2 (rest.dropWhile Text.isBlank)
  let rest ← skipOne? ['-'] rest
  let (day, rest) ← someDigits? 2 (rest.dropWhile Text.isBlank)
  if !rest.isEmpty || !isDate year month day then none
  return daysFromEpoch year month day * secondsPerDay * microsPerSecond

/-- The instant a text denotes, in microseconds since the epoch. -/
def read? (text : String) : Option Int :=
  match readInstant? text.toList with
  | some micros => some micros
  | none => readDate? text.toList

end EntityMapper.Calendar
