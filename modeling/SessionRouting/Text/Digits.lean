/-
Decimal numerals: what they stand for, how they are read with a bound, and how they are written.
-/
namespace SessionRouting.Text

/-- The value of a digit, letters in either case standing for ten and above. -/
def digitValue (c : Char) : Nat :=
  if c.isDigit then c.toNat - '0'.toNat
  else if 'a' ≤ c ∧ c ≤ 'z' then c.toNat - 'a'.toNat + 10
  else if 'A' ≤ c ∧ c ≤ 'Z' then c.toNat - 'A'.toNat + 10
  else 36

/-- Whether the character is a digit in the given base. -/
def isDigitIn (base : Nat) (c : Char) : Bool :=
  digitValue c < base

/-- The number that the digits stand for, most significant first. -/
def valueIn (base : Nat) (ds : List Char) : Nat :=
  ds.foldl (fun n c => base * n + digitValue c) 0

/-- Reads one or more digits as a number of at most `limit`. -/
def readDigits (base limit : Nat) (s : List Char) : Option Nat :=
  if s ≠ [] ∧ s.all (isDigitIn base) ∧ valueIn base s ≤ limit then some (valueIn base s) else none

/-- Reads a number of at most `limit`: one or more decimal digits, with or without a plus sign before them. -/
def readCount (limit : Nat) : List Char → Option Nat
  | '+' :: ds => readDigits 10 limit ds
  | ds => readDigits 10 limit ds

/-- The decimal digits of a number, without leading zeros. -/
def decimal (n : Nat) : List Char :=
  Nat.toDigits 10 n

/-- The decimal digits of a number, zeros before them up to the given width. -/
def decimalPadded (width n : Nat) : List Char :=
  List.replicate (width - (decimal n).length) '0' ++ decimal n

end SessionRouting.Text
