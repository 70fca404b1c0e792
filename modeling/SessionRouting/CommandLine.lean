/-
Command lines: what a run of a tool comes to, and the shapes of the words that a tool is started with.
-/
namespace SessionRouting.CommandLine

/-- What a run of a tool writes, and the code that it ends with. -/
structure Outcome where
  code : Nat
  stdout : String := ""
  stderr : String := ""
  deriving DecidableEq, Repr

/-- The shape of a word. -/
inductive Word
  /-- `--`, after which every word is an argument. -/
  | separator
  /-- `--name` or `--name=value`. -/
  | long (name : String) (value : Option String)
  /-- `-xyz`: an option of one letter and what is joined to it. -/
  | short (letter : Char) (joined : List Char)
  | argument (text : String)
  deriving DecidableEq, Repr

namespace Word

/-- The shape of a word. A lone hyphen is an argument. -/
def of (word : String) : Word :=
  match word.toList with
  | ['-', '-'] => separator
  | '-' :: '-' :: rest =>
    let name := rest.takeWhile (· ≠ '=')
    match rest.dropWhile (· ≠ '=') with
    | [] => long (String.ofList name) none
    | _ :: value => long (String.ofList name) (some (String.ofList value))
  | '-' :: letter :: joined => short letter joined
  | _ => argument word

end Word

/-- The value of an option that is joined to its letter, with or without a sign of equality. -/
def joinedValue : List Char → Option String
  | [] => none
  | '=' :: value => some (String.ofList value)
  | value => some (String.ofList value)

/-- The value of an option: the one that it brings along or else the next word, which has to be an argument.
With it come the words that are left. -/
def takeValue (brought : Option String) (rest : List String) : Option (String × List String) :=
  match brought, rest with
  | some value, _ => some (value, rest)
  | none, word :: rest =>
    match Word.of word with
    | .argument value => some (value, rest)
    | _ => none
  | none, [] => none

theorem length_le_of_takeValue {brought : Option String} {rest left : List String} {value : String}
    (h : takeValue brought rest = some (value, left)) : left.length ≤ rest.length := by
  unfold takeValue at h
  split at h
  · simp_all
  · split at h <;> simp_all
  · cases h

end SessionRouting.CommandLine
