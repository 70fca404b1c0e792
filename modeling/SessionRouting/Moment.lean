/-
Moments on the wall clock, exact to the nanosecond, and their RFC 3339 text in universal time.
-/
import SessionRouting.Text.Digits

namespace SessionRouting

open Text

/-- A moment, in nanoseconds since 1970 began. -/
structure Moment where
  nanos : Int
  deriving DecidableEq, Repr, Inhabited

namespace Moment

instance : LE Moment := ⟨fun a b => a.nanos ≤ b.nanos⟩

instance : LT Moment := ⟨fun a b => a.nanos < b.nanos⟩

instance (a b : Moment) : Decidable (a ≤ b) := inferInstanceAs (Decidable (a.nanos ≤ b.nanos))

instance (a b : Moment) : Decidable (a < b) := inferInstanceAs (Decidable (a.nanos < b.nanos))

/-- The moment `nanos` after the given second. -/
def ofSeconds (seconds nanos : Int) : Moment :=
  ⟨seconds * 1000000000 + nanos⟩

/-- The whole seconds since 1970 began, rounded down. -/
def seconds (m : Moment) : Int :=
  m.nanos.fdiv 1000000000

/-- The nanoseconds since the last whole second. -/
def subsecond (m : Moment) : Nat :=
  (m.nanos.fmod 1000000000).toNat

/-- The moment this many milliseconds later, or earlier for a negative number. -/
def addMillis (m : Moment) (ms : Int) : Moment :=
  ⟨m.nanos + ms * 1000000⟩

/-! ## Calendar -/

/-- A date of the proleptic Gregorian calendar. -/
structure Date where
  year : Int
  month : Nat
  day : Nat
  deriving DecidableEq, Repr

/-- The date that lies `days` days after the first of January 1970. The reckoning begins a year with
March, so that a leap day is the last day of a year, and counts in cycles of 400 years, which have
146097 days. -/
def Date.ofDays (days : Int) : Date :=
  let shifted := days + 719468
  let cycle := shifted.fdiv 146097
  let dayOfCycle := (shifted.fmod 146097).toNat
  let yearOfCycle := (dayOfCycle - dayOfCycle / 1460 + dayOfCycle / 36524 - dayOfCycle / 146096) / 365
  let dayOfYear := dayOfCycle - (365 * yearOfCycle + yearOfCycle / 4 - yearOfCycle / 100)
  let monthFromMarch := (5 * dayOfYear + 2) / 153
  let day := dayOfYear - (153 * monthFromMarch + 2) / 5 + 1
  let month := if monthFromMarch < 10 then monthFromMarch + 3 else monthFromMarch - 9
  let year := (yearOfCycle : Int) + cycle * 400
  { year := if month ≤ 2 then year + 1 else year, month, day }

/-- The year with at least four digits, and with a sign unless it lies between 0 and 9999. -/
def yearText (year : Int) : List Char :=
  if year < 0 then '-' :: decimalPadded 4 year.natAbs
  else if year ≤ 9999 then decimalPadded 4 year.toNat
  else '+' :: decimalPadded 4 year.toNat

/-- The moment as a date and a time of day in universal time, without what is left of the second. -/
def text (m : Moment) : String :=
  let date := Date.ofDays (m.seconds.fdiv 86400)
  let second := (m.seconds.fmod 86400).toNat
  String.ofList <|
    yearText date.year ++ '-' :: decimalPadded 2 date.month ++ '-' :: decimalPadded 2 date.day ++
      'T' :: decimalPadded 2 (second / 3600) ++ ':' :: decimalPadded 2 (second / 60 % 60) ++
      ':' :: decimalPadded 2 (second % 60) ++ ['Z']

end Moment

end SessionRouting
