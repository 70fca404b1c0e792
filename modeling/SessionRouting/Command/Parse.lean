/-
Reading command lines. The words of a line are divided by blanks; the first one names the command, and
the number of the others is checked before any of them is looked at.
-/
import SessionRouting.Refusal

namespace SessionRouting.Command

open Text

/-- Reads an address argument. -/
def readAddress (word : String) : Except Refusal String :=
  (Address.normalize word).mapError .badAddress

/-- Reads the command of the given kind from its arguments. -/
def ofArgs (k : Kind) (args : List String) : Except Refusal Command :=
  if args.length < k.arity then .error (.tooFewArguments k)
  else match k, args with
    | .connect, [user, target] => (readAddress target).map (.connect user ·)
    | .disconnect, [user, target] => (readAddress target).map (.disconnect user ·)
    | .disable, [host] => (readAddress host).map .disable
    | .enable, [host] => (readAddress host).map .enable
    | .failure, [host] => (readAddress host).map .failure
    | .info, [word] =>
      match Topic.ofName? word with
      | some topic => .ok (.info topic)
      | none => .error (.unknownTopic word)
    | _, _ => .error (.tooManyArguments k)

/-- Reads the words of a command line. -/
def ofWords : List (List Char) → Except Refusal Command
  | [] => .error .emptyLine
  | name :: args =>
    match Kind.ofName? name with
    | some k => ofArgs k (args.map String.ofList)
    | none => .error (.unknownCommand (String.ofList name))

/-- Reads a command line. -/
def parse (line : String) : Except Refusal Command :=
  ofWords (words line.toList)

end SessionRouting.Command
