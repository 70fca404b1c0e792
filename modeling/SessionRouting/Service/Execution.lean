/-
Execution of commands. `execute` carries out one command; `process` takes a command line from its text
to the answer and leaves the events that the log and the metrics are made of.
-/
import SessionRouting.Command.Parse
import SessionRouting.Reply
import SessionRouting.Service.Listing

namespace SessionRouting

open Health

variable {σ : Type}

/-- What a command comes to that is carried out: the reply, and a remark for the log. -/
structure Completion where
  reply : Reply
  anomaly : Option Anomaly := none
  deriving DecidableEq, Repr

namespace Completion

/-- A completion that has nothing to tell to the client. -/
def quiet (anomaly : Option Anomaly := none) : Completion where
  reply := .ok
  anomaly

end Completion

namespace Service

variable [World σ]

def connect (r : Router) (key : Session.Key) : StateM (Service σ) (Except Refusal Completion) := do
  match ← resolve r key with
  | .ok backend => return .ok { reply := .simple backend }
  | .error f => return .error (.routing f)

def disconnect (key : Session.Key) : StateM (Service σ) Completion := do
  match ← release key with
  | .ok remaining =>
    note (.released key remaining)
    return .quiet
  | .error (.unknown key) => return .quiet (some (.unknownSession key))

def disable (host : String) : StateM (Service σ) Completion := do
  let reached ← watching Watch.now
  watching (Watch.update host { verdict := .disabled, reached })
  return .quiet

/-- Probes a disabled host, so that its verdict follows from probes again. -/
def enable (host : String) : StateM (Service σ) Completion := do
  if (← get).watch.isDisabled host then
    let _ ← watching (Watch.probe host .ordered)
    return .quiet
  else return .quiet (some (.notDisabled host))

/-- Probes a host that is said to fail, unless it is disabled. -/
def failure (host : String) : StateM (Service σ) Completion := do
  if (← get).watch.isDisabled host then return .quiet (some (.alreadyDisabled host))
  else if ← watching (Watch.probe host .ordered) then return .quiet (some (.failureDisputed host))
  else return .quiet

def info (topic : Command.Topic) : StateM (Service σ) Completion := do
  return { reply := .bulk ((← get).listing topic) }

/-- Carries out a command. -/
def execute (r : Router) : Command → StateM (Service σ) (Except Refusal Completion)
  | .connect user target => connect r ⟨user, target⟩
  | .disconnect user target => .ok <$> disconnect ⟨user, target⟩
  | .disable host => .ok <$> disable host
  | .enable host => .ok <$> enable host
  | .failure host => .ok <$> failure host
  | .info topic => .ok <$> info topic

/-- Reads a line as a command and carries it out. -/
def perform (r : Router) (line : String) : StateM (Service σ) (Except Refusal Completion) := do
  match Command.parse line with
  | .error e =>
    note (.executed none false)
    return .error e
  | .ok command =>
    note (.executing command)
    let result ← execute r command
    note (.executed (some command.kind) result.isOk)
    return result

/-- Answers a command line. -/
def process (r : Router) (line : String) : StateM (Service σ) (Except Refusal Reply) := do
  match ← perform r line with
  | .ok completion =>
    completion.anomaly.forM fun a => note (.noticed a)
    return .ok completion.reply
  | .error e =>
    note (.failed line e)
    return .error e

end Service

end SessionRouting
