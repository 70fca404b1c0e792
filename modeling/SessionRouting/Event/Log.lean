/-
The log. An entry has a level, a message and named fields, and is written as
`LEVEL message name=value name=value`. `Trace.log` is the log of a trace of events.
-/
import SessionRouting.Event
import SessionRouting.Text.Blank

namespace SessionRouting

namespace Log

inductive Level
  | debug
  | info
  | warn
  deriving DecidableEq, Repr

namespace Level

def name : Level → String
  | debug => "DEBUG"
  | info => "INFO"
  | warn => "WARN"

end Level

structure Entry where
  level : Level
  message : String
  fields : List (String × String) := []

namespace Entry

def text (e : Entry) : String :=
  " ".intercalate (e.level.name :: e.message :: e.fields.map fun (name, value) => name ++ "=" ++ value)

end Entry

/-- A list of addresses as the log shows it. No character of an address needs an escape. -/
def listText (addresses : List String) : String :=
  "[" ++ ", ".intercalate (addresses.map fun a => "\"" ++ a ++ "\"") ++ "]"

/-- The verdict that there was before, as the log shows it. -/
def oldVerdictText : Option Health.Verdict → String
  | none => "None"
  | some .up => "Some(Up)"
  | some .down => "Some(Down)"
  | some .disabled => "Some(Disabled)"

/-- A line without the blanks at its ends. -/
def lineText (line : String) : String :=
  String.ofList (Text.trim line.toList)

end Log

namespace Anomaly

open Log in
/-- How an anomaly is logged. -/
def entry : Anomaly → Entry
  | unknownSession key => ⟨.warn, "Disconnect for unknown session", [("session", key.text)]⟩
  | notDisabled host => ⟨.warn, "Enable requested for host that is not disabled", [("host", host)]⟩
  | failureDisputed host =>
    ⟨.info, "Reported failure not confirmed: host answers probes", [("host", host)]⟩
  | alreadyDisabled host => ⟨.info, "Reported failure for disabled host", [("host", host)]⟩

end Anomaly

namespace Event

open Log in
/-- How an event is logged, if it is. -/
def entry? : Event → Option Entry
  | probed address reachable _ _ =>
    some ⟨.debug, "Probed backend", [("addr", address), ("reachable", toString reachable)]⟩
  | verdictChanged address old new =>
    some ⟨.info, "Host state changed", [("addr", address), ("from", oldVerdictText old), ("to", new.name)]⟩
  | groupUnnamed id => some ⟨.debug, "No group entry for gid", [("gid", toString id)]⟩
  | planned user target plan =>
    some ⟨.debug, "Resolved routing policy", [("user", user), ("target", target),
      ("algorithm", plan.strategy.text), ("candidates", listText plan.candidates)]⟩
  | skipped candidate strategy =>
    some ⟨.debug, "Skipping unreachable candidate", [("candidate", candidate), ("algorithm", strategy.text)]⟩
  | reused key backend count =>
    some ⟨.debug, "Reusing sticky backend",
      [("session", key.text), ("backend", backend), ("count", toString count)]⟩
  | lost key backend =>
    some ⟨.warn, "Sticky backend unhealthy, rerouting", [("session", key.text), ("backend", backend)]⟩
  | assigned key backend => some ⟨.info, "Assigned backend", [("session", key.text), ("backend", backend)]⟩
  | released key remaining =>
    some ⟨.debug, "Session released", [("session", key.text), ("remaining", toString remaining)]⟩
  | noticed anomaly => some anomaly.entry
  | executing command => some ⟨.debug, "Executing command", [("command", command.text)]⟩
  | failed line reason =>
    some ⟨.warn, "Command failed", [("line", lineText line), ("error", reason.message)]⟩
  | discarded line =>
    some ⟨.debug, "Client gone before reply, discarding result", [("line", lineText line)]⟩
  | draining => some ⟨.info, "Serializer received shutdown signal, draining accepted requests", []⟩
  | stopped => some ⟨.info, "Request serializer stopped", []⟩
  | checked .. | hostsTracked _ | entriesOpen _ | executed .. => none

end Event

namespace Trace

/-- The log entries of a trace, the earliest first. -/
def log (t : Trace) : List Log.Entry :=
  t.reverse.filterMap Event.entry?

end Trace

end SessionRouting
