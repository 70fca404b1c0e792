/-
The smallest parts of a TOML text: blanks, line ends, comments, strings and keys.
-/
import SessionRouting.Text.Digits
import SessionRouting.Toml.Scan

namespace SessionRouting.Toml

open Scan Text

/-- A space or a tab. -/
def isSpace (c : Char) : Bool :=
  c == ' ' || c == '\t'

def spaces : Scan Unit :=
  discard (run isSpace)

/-- A line feed, with or without a carriage return before it. -/
def newline : Scan Unit :=
  text ['\n'] <|> text ['\r', '\n']

/-- A character that is no control character, or a tab. -/
def isPrintable (c : Char) : Bool :=
  c == '\t' || (c.toNat ≥ 0x20 && c.toNat != 0x7F)

def comment : Scan Unit := do
  text ['#']
  discard (run isPrintable)

/-- Blanks, line ends and comments, each comment up to the end of its line. -/
def gap : Scan Unit :=
  discard <| many <| discard (run1 isSpace) <|> newline <|> do comment; newline

/-! ## Strings -/

/-- Reads this many hexadecimal digits as the number of a character. -/
def scalarValue (digits : Nat) : Scan Char := fun s => do
  let n ← readDigits 16 0x10FFFF (s.take digits)
  if (s.take digits).length = digits ∧ n.isValidChar then some (Char.ofNat n, s.drop digits) else none

/-- Reads an escape sequence. -/
def escape : Scan Char := do
  text ['\\']
  match ← char fun _ => true with
  | 'b' => return Char.ofNat 0x08
  | 't' => return '\t'
  | 'n' => return '\n'
  | 'f' => return Char.ofNat 0x0C
  | 'r' => return '\r'
  | '"' => return '"'
  | '\\' => return '\\'
  | 'u' => scalarValue 4
  | 'U' => scalarValue 8
  | _ => failure

/-- Characters of a string in double quotes: a run that stands for itself, or an escape sequence. -/
def basicPart : Scan (List Char) :=
  run1 (fun c => isPrintable c && c != '"' && c != '\\') <|> do return [← escape]

/-- A string in double quotes on one line, with escape sequences. -/
def basicString : Scan String := do
  text ['"']
  let parts ← many basicPart
  text ['"']
  return String.ofList parts.flatten

/-- A string in single quotes on one line, without escape sequences. -/
def literalString : Scan String := do
  text ['\'']
  let cs ← run fun c => isPrintable c && c != '\''
  text ['\'']
  return String.ofList cs

/-- A backslash at the end of a line: nothing is read of it, nor of the blanks and line ends after it. -/
def lineContinuation : Scan Unit := do
  text ['\\']
  spaces
  newline
  discard <| many <| discard (run1 isSpace) <|> newline

/-- A quote that is not the first of three in a row. -/
def loneQuote (quote : Char) : Scan (List Char)
  | c :: r => if c = quote ∧ ¬ [quote, quote].isPrefixOf r then some ([c], r) else none
  | [] => none

/-- Three quotes that end a string, with up to two more before them, which belong to it. -/
def closingQuotes (quote : Char) : Scan (List Char) := do
  let quotes ← run (· == quote)
  if 3 ≤ quotes.length ∧ quotes.length ≤ 5 then return quotes.drop 3 else failure

/-- A string between three quotes on each side, over any number of lines. A line end right after the
opening quotes is left out; every other one counts as a line feed. -/
def multilineString (quote : Char) (part : Scan (List Char)) : Scan String := do
  text [quote, quote, quote]
  newline <|> pure ()
  let parts ← many (part <|> (do newline; pure ['\n']) <|> loneQuote quote)
  let quotes ← closingQuotes quote
  return String.ofList (parts.flatten ++ quotes)

def multilineBasicString : Scan String :=
  multilineString '"' (basicPart <|> do lineContinuation; pure [])

def multilineLiteralString : Scan String :=
  multilineString '\'' (run1 fun c => isPrintable c && c != '\'')

def string : Scan String :=
  multilineBasicString <|> basicString <|> multilineLiteralString <|> literalString

/-! ## Keys -/

/-- A character of a key without quotes. -/
def isBareKeyChar (c : Char) : Bool :=
  c.isAlphanum || c == '_' || c == '-'

def simpleKey : Scan String :=
  basicString <|> literalString <|> do return String.ofList (← run1 isBareKeyChar)

/-- The most parts of a dotted key, and the most levels of lists and tables inside each other. -/
def maxDepth : Nat := 79

/-- A key of one or more parts with dots between them, and blanks around them. -/
def dottedKey : Scan (List String) := do
  let parts ← separated '.' (do spaces; let k ← simpleKey; spaces; pure k)
  if parts.length ≤ maxDepth then return parts else failure

end SessionRouting.Toml
