/-
Verdicts on backends. A verdict is `up` or `down` after a probe and `disabled` after an explicit
command; its record tells when it was reached, so that it can be held fresh for a while.
-/
import SessionRouting.Moment

namespace SessionRouting.Health

inductive Verdict
  | up
  | down
  /-- Excluded by a command, whatever probes would say. -/
  | disabled
  deriving DecidableEq, Repr

namespace Verdict

/-- The verdict that follows from a probe. -/
def ofReachable (reachable : Bool) : Verdict :=
  if reachable then up else down

def name : Verdict → String
  | up => "up"
  | down => "down"
  | disabled => "disabled"

end Verdict

/-- A verdict and the moment at which it was reached. -/
structure Record where
  verdict : Verdict
  reached : Moment
  deriving DecidableEq, Repr

namespace Record

/-- Whether the verdict can still be relied on: it is at most `interval` nanoseconds old and does not
lie in the future. -/
def isFresh (interval : Nat) (r : Record) (now : Moment) : Bool :=
  r.reached ≤ now && now.nanos - r.reached.nanos ≤ interval

end Record

end SessionRouting.Health
