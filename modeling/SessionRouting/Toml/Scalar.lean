/-
The values of a TOML text that are written without quotes or brackets: truth values, integers, other
numbers, dates and times. Each is one run of letters, digits and `+ - _ . :`, but for a space that may
stand between a date and a time.
-/
import SessionRouting.Text.Split
import SessionRouting.Toml.Lexeme
import SessionRouting.Tree

namespace SessionRouting.Toml

open Scan Text

/-! ## Numbers -/

/-- The digits of a number with single underscores between digits left out. -/
def ungroup (isDigit : Char → Bool) (s : List Char) : Option (List Char) :=
  let groups := fields '_' s
  if groups.all (fun g => !g.isEmpty && g.all isDigit) then some groups.flatten else none

/-- The digits of a decimal integer without a sign: no leading zero unless it is the only digit. -/
def wholeDigits (s : List Char) : Option (List Char) := do
  let ds ← ungroup Char.isDigit s
  if s.head? = some '0' ∧ s.length ≠ 1 then none else some ds

/-- The sign of a number, negative or not, and what comes after it. -/
def takeSign : List Char → Bool × List Char
  | '-' :: r => (true, r)
  | '+' :: r => (false, r)
  | r => (false, r)

/-- The integers that 64 bits hold. -/
def toInt64? (negative : Bool) (n : Nat) : Option Int :=
  let i : Int := if negative then -n else n
  if -0x8000000000000000 ≤ i ∧ i < 0x8000000000000000 then some i else none

/-- Reads an integer: decimal with or without a sign, or with the mark of another base. -/
def readInteger (s : List Char) : Option Int :=
  let inBase (base : Nat) (r : List Char) : Option Int := do
    toInt64? false (valueIn base (← ungroup (isDigitIn base) r))
  match s with
  | '0' :: 'x' :: r => inBase 16 r
  | '0' :: 'o' :: r => inBase 8 r
  | '0' :: 'b' :: r => inBase 2 r
  | _ => do
    let (negative, r) := takeSign s
    toInt64? negative (valueIn 10 (← wholeDigits r))

/-- Whether `digits · 10 ^ exponent` is nearer to 2 ^ 1024 than to the greatest number that 64 bits of
floating point hold, or lies above both. -/
def overflowsDouble (digits : List Char) (exponent : Int) : Bool :=
  let m := valueIn 10 digits
  let magnitude : Int := (decimal m).length + exponent
  if m = 0 ∨ magnitude < 300 then false
  else if magnitude > 400 then true
  else
    let limit := Nat.pow 2 1024 - Nat.pow 2 970
    if 0 ≤ exponent then m * Nat.pow 10 exponent.toNat ≥ limit
    else m ≥ limit * Nat.pow 10 (-exponent).toNat

/-- Reads a number with a fraction or an exponent, an infinity or a NaN. A number too large for 64 bits
is refused, but for a negative one, which counts as infinity. -/
def isReal (s : List Char) : Bool :=
  let (negative, r) := takeSign s
  if r = ['i', 'n', 'f'] ∨ r = ['n', 'a', 'n'] then true
  else
    let (mantissa, exponent?) := match cutFirst 'e' (r.map Char.toLower) with
      | some (m, e) => (m, some e)
      | none => (r, none)
    let (whole, fraction?) := match cutFirst '.' mantissa with
      | some (w, f) => (w, some f)
      | none => (mantissa, none)
    if exponent?.isNone ∧ fraction?.isNone then false
    else
      let exponent := takeSign (exponent?.getD ['0'])
      match wholeDigits whole, ungroup Char.isDigit (fraction?.getD ['0']), ungroup Char.isDigit exponent.2 with
      | some w, some f, some e =>
        let power : Int := if exponent.1 then -(valueIn 10 e : Int) else valueIn 10 e
        negative || !overflowsDouble (w ++ f) (power - f.length)
      | _, _, _ => false

/-! ## Dates and times -/

/-- Reads exactly `width` digits as a number from `low` to `high`. -/
def fixedDigits (width low high : Nat) : Scan Nat := fun s =>
  let ds := s.take width
  if ds.length = width ∧ ds.all Char.isDigit ∧ low ≤ valueIn 10 ds ∧ valueIn 10 ds ≤ high
  then some (valueIn 10 ds, s.drop width)
  else none

def isLeapYear (year : Nat) : Bool :=
  year % 4 == 0 && (year % 100 != 0 || year % 400 == 0)

def daysIn (year month : Nat) : Nat :=
  if month = 2 then (if isLeapYear year then 29 else 28)
  else if month = 4 ∨ month = 6 ∨ month = 9 ∨ month = 11 then 30
  else 31

def date : Scan Unit := do
  let year ← fixedDigits 4 0 9999
  text ['-']
  let month ← fixedDigits 2 1 12
  text ['-']
  discard (fixedDigits 2 1 (daysIn year month))

/-- A time of day, with a second 60 for a leap second. -/
def time : Scan Unit := do
  discard (fixedDigits 2 0 23)
  text [':']
  discard (fixedDigits 2 0 59)
  text [':']
  discard (fixedDigits 2 0 60)
  (do text ['.']; discard (run1 Char.isDigit)) <|> pure ()

/-- A difference to universal time. -/
def offset : Scan Unit :=
  discard (char fun c => c == 'Z' || c == 'z') <|> do
    discard (char fun c => c == '+' || c == '-')
    discard (fixedDigits 2 0 23)
    text [':']
    discard (fixedDigits 2 0 59)

/-- Whether the scan reads the whole text. -/
def reads (x : Scan Unit) (s : List Char) : Bool :=
  match x s with
  | some (_, []) => true
  | _ => false

def isDate (s : List Char) : Bool :=
  reads date s

def isTimeOfDay (s : List Char) : Bool :=
  reads (do time; offset <|> pure ()) s

/-- Whether a run of characters is a date, a date and a time, or a time alone. -/
def isDateTime (s : List Char) : Bool :=
  isDate s || reads time s || reads (do date; discard (char fun c => c == 'T' || c == 't'); time; offset <|> pure ()) s

/-! ## Any of these -/

/-- A character of a value that is written without quotes or brackets. -/
def isScalarChar (c : Char) : Bool :=
  c.isAlphanum || c == '+' || c == '-' || c == '_' || c == '.' || c == ':'

/-- A date or time stands for a table with one key that no table of settings knows. -/
def dateTimeTree (s : List Char) : Tree :=
  .table [("date-time", .text (String.ofList s))]

/-- Reads a whole run of characters as a value. -/
def readScalar (s : List Char) : Option Tree :=
  if s = ['t', 'r', 'u', 'e'] then some (.bool true)
  else if s = ['f', 'a', 'l', 's', 'e'] then some (.bool false)
  else if isDateTime s then some (dateTimeTree s)
  else match readInteger s with
    | some i => some (.int i)
    | none => if isReal s then some .real else none

/-- A time of day after the space that divides it from the date before it. -/
def timeAfterSpace : Scan (List Char) := do
  text [' ']
  let s ← run1 isScalarChar
  if isTimeOfDay s then return s else failure

def scalar : Scan Tree := do
  let s ← run1 isScalarChar
  let t ← if isDate s then timeAfterSpace <|> pure [] else pure []
  match if t.isEmpty then readScalar s else some (dateTimeTree (s ++ ' ' :: t)) with
  | some v => return v
  | none => failure

end SessionRouting.Toml
