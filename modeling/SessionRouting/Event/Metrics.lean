/-
The metrics of a trace of events. A counter counts events of one sort and a gauge shows the number
that was last set. `Trace.metrics` lists the metrics that some event touched.
-/
import SessionRouting.Event

namespace SessionRouting

namespace Metrics

inductive Counter
  /-- Command lines by kind and outcome. -/
  | commands (kind : Option Command.Kind) (ok : Bool)
  | probes (reachable : Bool)
  deriving DecidableEq, Repr

namespace Counter

/-- The counter that an event adds one to. -/
def of? : Event → Option Counter
  | .executed kind ok => some (commands kind ok)
  | .probed _ reachable _ _ => some (probes reachable)
  | _ => none

/-- The number of events of a trace that add to the counter. -/
def value (c : Counter) (t : Trace) : Nat :=
  t.countP (of? · = some c)

def text : Counter → String
  | commands kind ok =>
    "sshproxy_commands_total\x7bcommand=" ++ (kind.map Command.Kind.name).getD "invalid" ++
      ",result=" ++ (if ok then "ok" else "error") ++ "\x7d"
  | probes reachable =>
    "sshproxy_probes_total\x7bresult=" ++ (if reachable then "up" else "down") ++ "\x7d"

def all : List Counter :=
  (none :: Command.Kind.all.map some).flatMap (fun k => [commands k true, commands k false]) ++
    [probes true, probes false]

end Counter

inductive Gauge
  | activeSessions
  | trackedHosts
  deriving DecidableEq, Repr

namespace Gauge

/-- The gauge that an event sets, and the number that it sets it to. -/
def of? : Event → Option (Gauge × Nat)
  | .entriesOpen count => some (activeSessions, count)
  | .hostsTracked count => some (trackedHosts, count)
  | _ => none

/-- The number that the gauge was last set to. -/
def value (g : Gauge) (t : Trace) : Option Nat :=
  t.findSome? fun e =>
    match of? e with
    | some (g', n) => if g' = g then some n else none
    | none => none

def text : Gauge → String
  | activeSessions => "sshproxy_active_sessions"
  | trackedHosts => "sshproxy_tracked_hosts"

def all : List Gauge :=
  [activeSessions, trackedHosts]

end Gauge

end Metrics

namespace Trace

open Metrics

/-- The metrics that a trace touched, with their values. -/
def metrics (t : Trace) : List (String × Nat) :=
  (Counter.all.filter (0 < ·.value t)).map (fun c => (c.text, c.value t)) ++
    Gauge.all.filterMap fun g => (g.value t).map (g.text, ·)

end Trace

end SessionRouting
