/-
The command line: reads the words that the program is started with, and checks a configuration file.
-/
import SessionRouting.CommandLine.Check

namespace SessionRouting.CommandLine

/-- The bytes of the file at a path, if it can be read. -/
def readFile (path : String) : IO (Option (List UInt8)) := do
  try
    let bytes ← IO.FS.readBinFile path
    return some bytes.toList
  catch _ => return none

/-- Writes an outcome and gives its code. -/
def finish (o : Outcome) : IO UInt32 := do
  IO.print o.stdout
  IO.eprint o.stderr
  return o.code.toUInt32

end SessionRouting.CommandLine

open SessionRouting.CommandLine in
def main (words : List String) : IO UInt32 := do
  match (Check.Request.read? words).bind (·.target?) with
  | some path => finish (Check.run path (← readFile path))
  | none => finish Check.usage
