/-
Refusals: the reasons for which a command line is not carried out. They are what a client gets to see.
-/
import SessionRouting.Address
import SessionRouting.Command
import SessionRouting.Membership

namespace SessionRouting

namespace Routing

/-- Why no backend is found for a user and a target. -/
inductive Fault
  | groups (f : Membership.Fault)
  | noCandidate
  deriving DecidableEq, Repr

namespace Fault

def message : Fault → String
  | groups f => f.message
  | noCandidate => "no candidate available"

end Fault

end Routing

inductive Refusal
  | emptyLine
  | unknownCommand (word : String)
  | tooFewArguments (command : Command.Kind)
  | tooManyArguments (command : Command.Kind)
  | badAddress (f : Address.Fault)
  | unknownTopic (word : String)
  | routing (f : Routing.Fault)
  /-- The daemon takes no more commands. -/
  | stopping
  deriving DecidableEq, Repr

namespace Refusal

/-- The name of a command and the number of arguments that it takes. -/
def expectation (k : Command.Kind) : String :=
  "'" ++ k.name ++ "' (expected " ++ toString k.arity ++ ")"

def message : Refusal → String
  | emptyLine => "empty command"
  | unknownCommand word => "unknown command '" ++ word ++ "'"
  | tooFewArguments k => "not enough parameters for " ++ expectation k
  | tooManyArguments k => "too many parameters for " ++ expectation k
  | badAddress f => "invalid host: " ++ f.message
  | unknownTopic word => "unknown parameter '" ++ word ++ "'"
  | routing f => f.message
  | stopping => "service shutting down"

end Refusal

end SessionRouting
