/-
Events: what happens while the daemon works, in the order in which it happens. The log, the metrics
and the list of probed backends are three views of one trace of events.
-/
import SessionRouting.Anomaly
import SessionRouting.Health
import SessionRouting.Policy.Plan
import SessionRouting.Refusal

namespace SessionRouting

namespace Event

/-- Why a backend is probed. -/
inductive Cause
  /-- It was asked about at this moment, and there was no fresh verdict on it. -/
  | asked (moment : Moment)
  /-- A command calls for a probe, whatever verdict there is. -/
  | ordered
  deriving DecidableEq, Repr

/-- Where the answer to a question about a backend comes from. -/
inductive Source
  /-- The backend is disabled. -/
  | excluded
  /-- There is a fresh verdict on the backend. -/
  | recalled
  /-- The backend was probed. -/
  | probed
  deriving DecidableEq, Repr

end Event

inductive Event
  /-- A backend was probed; the answer was there at the moment `done`. -/
  | probed (address : String) (reachable : Bool) (cause : Event.Cause) (done : Moment)
  /-- A question about a backend, asked at the moment `asked`, was answered. -/
  | checked (address : String) (reachable : Bool) (source : Event.Source) (asked : Moment)
  /-- The verdict on a backend is a new one. -/
  | verdictChanged (address : String) (old : Option Health.Verdict) (new : Health.Verdict)
  /-- There are now verdicts on this many backends. -/
  | hostsTracked (count : Nat)
  /-- A group of a user has no name. -/
  | groupUnnamed (id : Nat)
  | planned (user target : String) (plan : Policy.Plan)
  /-- A candidate was passed over because it is not reachable. -/
  | skipped (candidate : String) (strategy : Strategy)
  /-- One more session goes to the backend that its key has already. -/
  | reused (key : Session.Key) (backend : String) (count : Nat)
  /-- The backend of a key is not reachable any more. -/
  | lost (key : Session.Key) (backend : String)
  | assigned (key : Session.Key) (backend : String)
  /-- There are now this many session entries. -/
  | entriesOpen (count : Nat)
  | released (key : Session.Key) (remaining : Nat)
  | noticed (anomaly : Anomaly)
  | executing (command : Command)
  /-- A command line is done with; a line that is no command has no kind. -/
  | executed (kind : Option Command.Kind) (ok : Bool)
  | failed (line : String) (reason : Refusal)
  /-- The client did not wait for the answer to its line. -/
  | discarded (line : String)
  /-- No more lines are taken; the accepted ones are still carried out. -/
  | draining
  | stopped
  deriving DecidableEq, Repr

/-- What has happened so far, the latest event first. -/
abbrev Trace := List Event

namespace Event

/-- The address that the event is a probe of. -/
def probedAddress? : Event → Option String
  | probed address _ _ _ => some address
  | _ => none

end Event

namespace Trace

/-- The probed addresses in the order of the probes. -/
def probes (t : Trace) : List String :=
  t.reverse.filterMap Event.probedAddress?

end Trace

end SessionRouting
