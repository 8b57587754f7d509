import TypedJson.Basic
import TypedJson.Number.Decimal
/-!
# Dates written as text

A text is a date in one of five forms: a full date-time with an offset, whose
fields have a fixed number of digits, and four looser forms without an offset that
are read as universal time.  The looser forms let a number be shorter than its field
and be preceded by blanks, and a year with an explicit sign have any length.  A
sixtieth second is a leap second: it counts as one second after the fifty-ninth.
-/
namespace TypedJson
namespace Date

/-! ## The calendar -/

def isLeapYear (y : Int) : Bool := y % 4 == 0 && (y % 100 != 0 || y % 400 == 0)

def monthLength (y : Int) (m : Nat) : Nat :=
  if m = 2 then (if isLeapYear y then 29 else 28)
  else if m = 4 ∨ m = 6 ∨ m = 9 ∨ m = 11 then 30 else 31

def firstYear : Int := -262143

def lastYear : Int := 262142

/-- The day exists, in a year that can be represented. -/
def isDay (y : Int) (m d : Nat) : Bool :=
  decide (firstYear ≤ y ∧ y ≤ lastYear ∧ 1 ≤ m ∧ m ≤ 12 ∧ 1 ≤ d ∧ d ≤ monthLength y m)

/-- Days from the first of January 1970, in a year counted from March. -/
def dayNumber (y : Int) (m d : Nat) : Int :=
  let y := if m ≤ 2 then y - 1 else y
  let era := y / 400
  let yearOfEra := y % 400
  let month : Int := (m + 9) % 12
  let dayOfYear := (153 * month + 2) / 5 + d - 1
  let dayOfEra := yearOfEra * 365 + yearOfEra / 4 - yearOfEra / 100 + dayOfYear
  era * 146097 + dayOfEra - 719468

/-- A point in time without an offset; a leap second has more than a second's worth
of nanoseconds. -/
structure Moment where
  day : Int
  second : Nat
  nanosecond : Nat

/-- The moment of a day and a time of day, if both exist. -/
def moment? (y : Int) (m d hour minute second nanosecond : Nat) : Option Moment :=
  if isDay y m d ∧ hour ≤ 23 ∧ minute ≤ 59 ∧ second ≤ 60 then
    let leap := second = 60
    some {
      day := dayNumber y m d
      second := hour * 3600 + minute * 60 + (if leap then 59 else second)
      nanosecond := if leap then nanosecond + 1000000000 else nanosecond }
  else none

/-- Milliseconds since the start of 1970, rounded down. -/
def Moment.milliseconds (t : Moment) : Int :=
  (t.day * 86400 + t.second) * 1000 + (t.nanosecond / 1000000 : Nat)

/-- The milliseconds lie within the years that can be represented. -/
def isTimestamp (ms : Int) : Bool :=
  decide (dayNumber firstYear 1 1 * 86400000 ≤ ms ∧
    ms < (dayNumber lastYear 12 31 + 1) * 86400000)

/-! ## Fields -/

/-- What was read from the front of a text, and the rest. -/
abbrev Reading (α : Type) := Option (α × List Char)

def literal (c : Char) : List Char → Option (List Char)
  | d :: rest => if d = c then some rest else none
  | [] => none

/-- One digit at least and `width` at most. -/
def digitsUpTo (width : Nat) (cs : List Char) : Reading Nat :=
  match (cs.take width).takeWhile Char.isDigit with
  | [] => none
  | ds => some (decimalValue ds, cs.drop ds.length)

def exactDigits (width : Nat) (cs : List Char) : Reading Nat :=
  let ds := cs.take width
  if ds.length = width ∧ ds.all Char.isDigit then some (decimalValue ds, cs.drop width) else none

/-- A number of up to two digits, after blanks. -/
def shortNumber (cs : List Char) : Reading Nat := digitsUpTo 2 (Text.trimLeft cs)

/-- A year, after blanks: four digits at most, or any number of them after a sign. -/
def year (cs : List Char) : Reading Int :=
  match Text.trimLeft cs with
  | '-' :: rest => (digitsUpTo rest.length rest).map fun r => (-(r.1 : Int), r.2)
  | '+' :: rest => (digitsUpTo rest.length rest).map fun r => ((r.1 : Int), r.2)
  | rest => (digitsUpTo 4 rest).map fun r => ((r.1 : Int), r.2)

/-- The digits behind a decimal point as nanoseconds; further digits do not count. -/
def nanoseconds (cs : List Char) : Reading Nat :=
  match cs.takeWhile Char.isDigit with
  | [] => none
  | ds => some (decimalValue ((ds ++ List.replicate 9 '0').take 9), cs.drop ds.length)

/-- A point and digits, or nothing. -/
def fraction : List Char → Reading Nat
  | '.' :: rest => nanoseconds rest
  | cs => some (0, cs)

/-- An offset from universal time in seconds. -/
def offset : List Char → Option (Int × List Char)
  | [] => none
  | sign :: cs =>
    if sign = 'Z' ∨ sign = 'z' then some (0, cs)
    else if sign = '+' ∨ sign = '-' ∨ sign = '\u2212' then do
      let (hours, cs) ← exactDigits 2 cs
      let cs ← literal ':' cs
      let (minutes, cs) ← exactDigits 2 cs
      if hours ≤ 23 ∧ minutes ≤ 59 then
        let seconds : Int := hours * 3600 + minutes * 60
        some (if sign = '+' then seconds else -seconds, cs)
      else none
    else none

/-! ## Forms -/

def atEnd (t : Option Moment) : List Char → Option Moment
  | [] => t
  | _ => none

/-- A date and a time with an offset, every field at its full width. -/
def withOffset? (cs : List Char) : Option Int := do
  let (y, cs) ← exactDigits 4 cs
  let cs ← literal '-' cs
  let (m, cs) ← exactDigits 2 cs
  let cs ← literal '-' cs
  let (d, cs) ← exactDigits 2 cs
  let cs ← literal 'T' cs <|> literal 't' cs <|> literal ' ' cs
  let (hour, cs) ← exactDigits 2 cs
  let cs ← literal ':' cs
  let (minute, cs) ← exactDigits 2 cs
  let cs ← literal ':' cs
  let (second, cs) ← exactDigits 2 cs
  let (nanosecond, cs) ← fraction cs
  let (shift, cs) ← offset cs
  let t ← atEnd (moment? y m d hour minute second nanosecond) cs
  pure (t.milliseconds - shift * 1000)

def dayPart (cs : List Char) : Option ((Int × Nat × Nat) × List Char) := do
  let (y, cs) ← year cs
  let cs ← literal '-' cs
  let (m, cs) ← shortNumber cs
  let cs ← literal '-' cs
  let (d, cs) ← shortNumber cs
  pure ((y, m, d), cs)

def minutePart (cs : List Char) : Option ((Nat × Nat) × List Char) := do
  let (hour, cs) ← shortNumber cs
  let cs ← literal ':' cs
  let (minute, cs) ← shortNumber cs
  pure ((hour, minute), cs)

/-- A day, what `separator` takes off, and a time with seconds. -/
def withSeconds? (separator : List Char → Option (List Char)) (cs : List Char) : Option Moment := do
  let ((y, m, d), cs) ← dayPart cs
  let cs ← separator cs
  let ((hour, minute), cs) ← minutePart cs
  let cs ← literal ':' cs
  let (second, cs) ← shortNumber cs
  let (nanosecond, cs) ← fraction cs
  atEnd (moment? y m d hour minute second nanosecond) cs

def withMinutes? (cs : List Char) : Option Moment := do
  let ((y, m, d), cs) ← dayPart cs
  let cs ← literal 'T' cs
  let ((hour, minute), cs) ← minutePart cs
  atEnd (moment? y m d hour minute 0 0) cs

def dayOnly? (cs : List Char) : Option Moment := do
  let ((y, m, d), cs) ← dayPart cs
  atEnd (moment? y m d 0 0 0 0) cs

/-- The milliseconds since the start of 1970 that a text stands for. -/
def parse? (text : String) : Option Int :=
  let cs := Text.trim text.toList
  withOffset? cs
    <|> (withSeconds? (literal 'T') cs).map (·.milliseconds)
    <|> (withMinutes? cs).map (·.milliseconds)
    <|> (withSeconds? (fun cs => some (Text.trimLeft cs)) cs).map (·.milliseconds)
    <|> (dayOnly? cs).map (·.milliseconds)

end Date
end TypedJson
