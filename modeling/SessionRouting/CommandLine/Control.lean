/-
The control tool: it makes one call to the daemon and writes the answer. Before the subcommand it takes
the options `--addr` and `--timeout`.
-/
import SessionRouting.Client
import SessionRouting.CommandLine

namespace SessionRouting.CommandLine.Control

/-- The daemon that is called when none is named. -/
def defaultAddress : String := "127.0.0.1:55555"

/-- For how many seconds an answer is waited for when nothing is said about it. -/
def defaultTimeout : Nat := 10

inductive Subcommand
  | connect
  | disconnect
  | disable
  | enable
  | failure
  | list
  deriving DecidableEq, Repr

namespace Subcommand

def name : Subcommand → String
  | connect => "connect"
  | disconnect => "disconnect"
  | disable => "disable"
  | enable => "enable"
  | failure => "failure"
  | list => "show"

def all : List Subcommand :=
  [connect, disconnect, disable, enable, failure, list]

def ofName? (word : String) : Option Subcommand :=
  all.find? (·.name = word)

/-- The call with these arguments, if the subcommand takes them. -/
def call? : Subcommand → List String → Option Client.Call
  | connect, [user, host] => some (.connect user host)
  | disconnect, [user, host] => some (.disconnect user host)
  | disable, [host] => some (.disable host)
  | enable, [host] => some (.enable host)
  | failure, [host] => some (.failure host)
  | list, [word] => (Command.Topic.ofName? word).map fun topic => .info topic.name
  | _, _ => none

end Subcommand

/-- What the tool is started with. -/
structure Request where
  address : String
  timeoutSecs : Nat
  call : Client.Call
  deriving DecidableEq, Repr

/-- The options before the subcommand. -/
structure Options where
  address : Option String := none
  timeoutSecs : Option Nat := none

/-- The greatest number of seconds that can be asked for. -/
def maxTimeout : Nat := 0xFFFFFFFFFFFFFFFF

/-- An option that takes a value. -/
inductive Field
  | address
  | timeout
  deriving DecidableEq, Repr

/-- The option that a word is, and the value that it brings along. -/
def Field.of? : Word → Option (Field × Option String)
  | .long "addr" brought => some (address, brought)
  | .short 'a' joined => some (address, joinedValue joined)
  | .long "timeout" brought => some (timeout, brought)
  | .short 't' joined => some (timeout, joinedValue joined)
  | _ => none

/-- Sets an option that is not set yet. -/
def Options.set? (o : Options) (f : Field) (value : String) : Option Options :=
  match f, o with
  | .address, { address := none, .. } => some { o with address := value }
  | .timeout, { timeoutSecs := none, .. } =>
    (Text.readCount maxTimeout value.toList).map fun seconds => { o with timeoutSecs := seconds }
  | _, _ => none

/-- Reads the arguments of a subcommand; after a separator every word is one. -/
def readArguments : List String → Option (List String)
  | [] => some []
  | word :: rest =>
    match Word.of word with
    | .separator => some rest
    | .argument text => (readArguments rest).map (text :: ·)
    | _ => none

/-- Reads options up to the subcommand, and the subcommand. -/
def readWords (o : Options) : List String → Option Request
  | [] => none
  | word :: rest =>
    match Word.of word with
    | .argument name => do
      let call ← (← Subcommand.ofName? name).call? (← readArguments rest)
      return {
        address := o.address.getD defaultAddress
        timeoutSecs := o.timeoutSecs.getD defaultTimeout
        call }
    | word =>
      match Field.of? word with
      | none => none
      | some (field, brought) =>
        match _h : takeValue brought rest with
        | none => none
        | some (value, left) =>
          match o.set? field value with
          | some o => readWords o left
          | none => none
  termination_by words => words.length
  decreasing_by
    have := length_le_of_takeValue ‹_›
    simp only [List.length_cons]; omega

/-- Reads the words after the name of the program. -/
def Request.read? (words : List String) : Option Request :=
  readWords {} words

/-- What is written of the answer to a call. -/
def report : Except Response.Fault String → Outcome
  | .ok payload => { code := 0, stdout := if payload = "" then "" else payload ++ "\n" }
  | .error (.refused message) => { code := 1, stderr := "Error: " ++ message ++ "\n" }
  | .error f => { code := 2, stderr := "Error: cannot talk to daemon: " ++ f.message ++ "\n" }

variable {m : Type → Type} [Monad m]

/-- Makes the call and writes the answer. `dial` sends bytes to the daemon at an address and gives all that
comes back in the time that is allowed. -/
def run (dial : String → Nat → List UInt8 → m (Except Response.Fault (List UInt8))) (r : Request) : m Outcome := do
  return report (← Client.send (dial r.address r.timeoutSecs) r.call.line)

end SessionRouting.CommandLine.Control
