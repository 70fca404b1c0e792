/-
The commands that control the daemon, one on a line:

    connect    <user> <address>
    disconnect <user> <address>
    disable    <address>
    enable     <address>
    failure    <address>
    info       connections|checks
-/
namespace SessionRouting

namespace Command

/-- The six commands. -/
inductive Kind
  | connect
  | disconnect
  | disable
  | enable
  | failure
  | info
  deriving DecidableEq, Repr

namespace Kind

def name : Kind → String
  | connect => "connect"
  | disconnect => "disconnect"
  | disable => "disable"
  | enable => "enable"
  | failure => "failure"
  | info => "info"

/-- The number of words after the name of the command. -/
def arity : Kind → Nat
  | connect | disconnect => 2
  | disable | enable | failure | info => 1

def all : List Kind :=
  [connect, disconnect, disable, enable, failure, info]

/-- The command with this name, in letters of either case. -/
def ofName? (word : List Char) : Option Kind :=
  all.find? fun k => k.name.toList = word.map Char.toLower

end Kind

/-- What `info` lists. -/
inductive Topic
  | connections
  | checks
  deriving DecidableEq, Repr

namespace Topic

def name : Topic → String
  | connections => "connections"
  | checks => "checks"

/-- The topic with exactly this name. -/
def ofName? (word : String) : Option Topic :=
  if word = connections.name then some connections
  else if word = checks.name then some checks
  else none

end Topic

end Command

/-- A command with its arguments. Targets and hosts are canonical addresses. -/
inductive Command
  | connect (user target : String)
  | disconnect (user target : String)
  | disable (host : String)
  | enable (host : String)
  | failure (host : String)
  | info (topic : Command.Topic)
  deriving DecidableEq, Repr

namespace Command

def kind : Command → Kind
  | connect .. => .connect
  | disconnect .. => .disconnect
  | disable _ => .disable
  | enable _ => .enable
  | failure _ => .failure
  | info _ => .info

/-- The words after the name of the command. -/
def args : Command → List String
  | connect user target => [user, target]
  | disconnect user target => [user, target]
  | disable host => [host]
  | enable host => [host]
  | failure host => [host]
  | info topic => [topic.name]

/-- The line that gives the command, with one space between words. -/
def text (c : Command) : String :=
  " ".intercalate (c.kind.name :: c.args)

end Command

end SessionRouting
