/-
The check of a configuration file from the command line.
-/
import SessionRouting.CommandLine
import SessionRouting.Settings.File

namespace SessionRouting.CommandLine.Check

/-- The file that is read when none is named. -/
def defaultPath : String := "/etc/sshproxy/managerd.toml"

/-- What the daemon is started with. -/
structure Request where
  config : Option String := none
  /-- Only the configuration is checked. -/
  checkOnly : Bool := false
  deriving DecidableEq, Repr

/-- The value that a word brings along to the option that names the file, if it is that option. -/
def configOption? : Word → Option (Option String)
  | .long "config" brought => some brought
  | .short 'c' joined => some (joinedValue joined)
  | _ => none

/-- Reads options. No option may come twice. -/
def readWords (r : Request) : List String → Option Request
  | [] => some r
  | word :: rest =>
    match configOption? (Word.of word) with
    | some brought =>
      match _h : takeValue brought rest with
      | some (value, left) => if r.config.isSome then none else readWords { r with config := value } left
      | none => none
    | none =>
      if Word.of word = .long "check" none ∧ !r.checkOnly then readWords { r with checkOnly := true } rest
      else none
  termination_by words => words.length
  decreasing_by
    · have := length_le_of_takeValue ‹_›
      simp only [List.length_cons]; omega
    · simp

/-- Reads the words after the name of the program. -/
def Request.read? (words : List String) : Option Request :=
  readWords {} words

/-- The path of the configuration file. -/
def Request.path (r : Request) : String :=
  r.config.getD defaultPath

/-- The outcome for the file at a path, from its bytes if it could be read. -/
def run (path : String) (bytes : Option (List UInt8)) : Outcome :=
  match Settings.ofFile bytes with
  | .ok _ => { code := 0, stdout := path ++ ": configuration OK\n" }
  | .error f => { code := 1, stderr := path ++ ": " ++ f.message ++ "\n" }

/-- The outcome for words that are no request, or not one for a check. -/
def usage : Outcome :=
  { code := 2, stderr := "Usage: sshproxy-managerd --check [--config FILE]\n" }

/-- The path of the file to check, if that is what is asked for. -/
def Request.target? (r : Request) : Option String :=
  if r.checkOnly then some r.path else none

end SessionRouting.CommandLine.Check
