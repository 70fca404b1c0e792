/-
Anomalies: remarks on commands that were carried out although their caller may be mistaken. They go
into the log and never into the reply.
-/
import SessionRouting.Session

namespace SessionRouting

inductive Anomaly
  /-- A session ends that was not open. -/
  | unknownSession (key : Session.Key)
  /-- A host is enabled that was not disabled. -/
  | notDisabled (host : String)
  /-- A host is reported as failing and answers. -/
  | failureDisputed (host : String)
  /-- A host is reported as failing that is disabled anyway. -/
  | alreadyDisabled (host : String)
  deriving DecidableEq, Repr

namespace Anomaly

/-- What the anomaly is about. -/
def subject : Anomaly → String
  | unknownSession key => key.text
  | notDisabled host => host
  | failureDisputed host => host
  | alreadyDisabled host => host

end Anomaly

end SessionRouting
