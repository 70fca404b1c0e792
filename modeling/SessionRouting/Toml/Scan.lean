/-
Scanning: reading something off the front of a text. A scan gives what it read and the rest of the
text, or nothing; after a failed scan another one starts at the same place.
-/
namespace SessionRouting.Toml

abbrev Scan (α : Type) := StateT (List Char) Option α

namespace Scan

/-- Reads one character that satisfies `p`. -/
def char (p : Char → Bool) : Scan Char
  | c :: r => if p c then some (c, r) else none
  | [] => none

/-- Reads exactly this text. -/
def text (t : List Char) : Scan Unit := fun s =>
  if t.isPrefixOf s then some ((), s.drop t.length) else none

/-- Reads the longest run of characters that satisfy `p`, which may be empty. -/
def run (p : Char → Bool) : Scan (List Char) := fun s =>
  some (s.takeWhile p, s.dropWhile p)

/-- Reads a run of at least one character that satisfies `p`. -/
def run1 (p : Char → Bool) : Scan (List Char) := do
  let cs ← run p
  if cs.isEmpty then failure else return cs

/-- Reads nothing, at the end of the text only. -/
def atEnd : Scan Unit
  | [] => some ((), [])
  | _ :: _ => none

/-- What `x` reads over and over, until it fails or reads nothing, and the rest. -/
def repeated {α : Type} (x : Scan α) (s : List Char) : List α × List Char :=
  match x s with
  | none => ([], s)
  | some (a, r) =>
    if r.length < s.length then
      let (as, rest) := repeated x r
      (a :: as, rest)
    else ([], s)
  termination_by s.length

def many {α : Type} (x : Scan α) : Scan (List α) := fun s =>
  some (repeated x s)

/-- Reads one or more of `x` with a `sep` between them. -/
def separated {α : Type} (sep : Char) (x : Scan α) : Scan (List α) := do
  let first ← x
  let others ← many (do discard (char (· == sep)); x)
  return first :: others

end Scan

end SessionRouting.Toml
