/-
The settings of the daemon, as configured. What a configuration leaves out has a default.
-/
import SessionRouting.Policy.Plan

namespace SessionRouting

namespace Settings

/-- Where control connections are accepted, and how many may be open at a time. -/
structure Listener where
  bindAddress : String := "127.0.0.1:55555"
  maxConnections : Nat := 1024

/-- How long a verdict on a host is kept, and how long a probe may take. -/
structure HealthCheck where
  intervalSecs : Nat := 600
  probeTimeoutSecs : Nat := 1

/-- How long a client may take to send its command line. -/
structure Timeouts where
  readSecs : Nat := 30

structure Observability where
  logLevel : String := "info"
  metricsEnabled : Bool := false
  metricsAddress : String := "127.0.0.1:9191"

/-- The global layer of the policy, which always has a strategy. -/
structure GlobalLayer where
  strategy : Strategy := .ordered
  routes : Routes := ∅

/-- The layer of a group or a user. -/
structure Layer where
  strategy : Option Strategy := none
  routes : Routes := ∅

end Settings

structure Settings where
  listener : Settings.Listener := {}
  healthCheck : Settings.HealthCheck := {}
  timeouts : Settings.Timeouts := {}
  observability : Settings.Observability := {}
  policy : Settings.GlobalLayer := {}
  groups : Table Settings.Layer := ∅
  users : Table Settings.Layer := ∅

namespace Settings

/-- Compiles the layers of a table in the order of their names. -/
def compileLayers (layers : Table Layer) : Except Address.Fault (Table Policy.Layer) := do
  let rows ← layers.toList.mapM fun (name, l) => do
    let l ← Policy.Layer.compile l.strategy l.routes
    return (name, l)
  return rows.foldl (fun t row => t.insert row.1 row.2) ∅

/-- The policy of the settings. The first fault is the answer: in the global layer, then in the layers of
groups, then in those of users. -/
def compilePolicy (s : Settings) : Except Address.Fault Policy := do
  let global ← Policy.Layer.compile (some s.policy.strategy) s.policy.routes
  let groups ← compileLayers s.groups
  let users ← compileLayers s.users
  return { global, groups, users }

end Settings

end SessionRouting
