/-
Configuration files: the settings that the bytes of a file write, checked, or the reason why the file
cannot be used.
-/
import SessionRouting.Settings.Decode
import SessionRouting.Settings.Problem
import SessionRouting.SystemError
import SessionRouting.Text.Utf8
import SessionRouting.Toml.Document

namespace SessionRouting.Settings

/-- Why a configuration cannot be used. -/
inductive Fault
  /-- The file cannot be read as text. -/
  | unreadable (reason : String)
  /-- The text is not TOML, or a value is not of the kind that its field asks for. -/
  | malformed
  | problems (found : List Problem)

namespace Fault

/-- What is said of a fault. Of a malformed text it says no more than that. -/
def message : Fault → String
  | unreadable reason => "IO error: " ++ reason
  | malformed => "Parse error: "
  | problems found => "Validation failed: " ++ ", ".intercalate (found.map Problem.message)

end Fault

/-- The settings that a TOML text writes, if they have no problems. -/
def ofToml (text : String) : Except Fault Settings :=
  match (Toml.read? text).bind (ofTree? .file) with
  | none => .error .malformed
  | some s => if s.problems.isEmpty then .ok s else .error (.problems s.problems)

/-- The settings in a file with these bytes. -/
def ofBytes (bytes : List UInt8) : Except Fault Settings :=
  match Text.Utf8.decode bytes with
  | .ok cs => ofToml (String.ofList cs)
  | .error _ => .error (.unreadable "stream did not contain valid UTF-8")

/-- The settings in a file, if there is one. -/
def ofFile : Option (List UInt8) → Except Fault Settings
  | some bytes => ofBytes bytes
  | none => .error (.unreadable SystemError.noSuchFile.message)

end SessionRouting.Settings
