/-
Settings out of a tree of data. A table may be written as a list: its items are then the fields in
the order in which they are declared. Unknown fields are ignored and missing ones keep their defaults;
a value of another kind than its field asks for makes the whole tree unreadable.
-/
import SessionRouting.Settings
import SessionRouting.Tree

namespace SessionRouting.Settings

/-- What a dialect of trees allows. -/
structure Dialect where
  /-- A list that stands for a table may hold more items than the table has fields. -/
  allowsSurplus : Bool
  /-- What may stand beside the name of a strategy that is written as the only key of a table. -/
  isUnit : Tree → Bool

namespace Dialect

/-- Trees from a configuration file. -/
def file : Dialect where
  allowsSurplus := true
  isUnit
    | .list [] => true
    | .table [] => true
    | _ => false

/-- Trees from a message. -/
def message : Dialect where
  allowsSurplus := false
  isUnit
    | .null => true
    | _ => false

end Dialect

variable (n : Dialect)

/-- The fields of a tree that stands for a table, by name. -/
def fieldsOf (names : List String) : Tree → Option (String → Option Tree)
  | .table rows => some fun name => rows.lookup name
  | .list items =>
    if n.allowsSurplus ∨ items.length ≤ names.length
    then some fun name => (names.idxOf? name).bind (items[·]?)
    else none
  | _ => none

/-- Reads a field, or takes the default when it is missing. -/
def readField {α : Type} (fields : String → Option Tree) (name : String) (read : Tree → Option α)
    (default : α) : Option α :=
  match fields name with
  | none => some default
  | some t => read t

def readText : Tree → Option String
  | .text s => some s
  | _ => none

def readBool : Tree → Option Bool
  | .bool b => some b
  | _ => none

/-- Reads a number of 64 bits without a sign. -/
def readNat : Tree → Option Nat
  | .int i => if 0 ≤ i ∧ i < 0x10000000000000000 then some i.toNat else none
  | _ => none

/-- Reads the name of a strategy, or a table with that name as its only key. -/
def readStrategy : Tree → Option Strategy
  | .text s => Strategy.read? s
  | .table [(s, t)] => if n.isUnit t then Strategy.read? s else none
  | _ => none

/-- Reads a strategy, or none where there is no value. -/
def readOptionalStrategy : Tree → Option (Option Strategy)
  | .null => some none
  | t => (readStrategy n t).map some

def readTexts : Tree → Option (List String)
  | .list items => items.mapM readText
  | _ => none

/-- Reads a table with values of one kind under any keys. -/
def readTable {α : Type} (read : Tree → Option α) : Tree → Option (Table α)
  | .table rows => do
    let rows ← rows.mapM fun (key, t) => (read t).map (key, ·)
    return Std.ExtTreeMap.ofList rows
  | _ => none

def readRoutes : Tree → Option Routes :=
  readTable readTexts

def readListener (t : Tree) : Option Listener := do
  let field ← fieldsOf n ["bind_address", "max_connections"] t
  let bindAddress ← readField field "bind_address" readText ({} : Listener).bindAddress
  let maxConnections ← readField field "max_connections" readNat ({} : Listener).maxConnections
  return { bindAddress, maxConnections }

def readHealthCheck (t : Tree) : Option HealthCheck := do
  let field ← fieldsOf n ["interval_secs", "probe_timeout_secs"] t
  let intervalSecs ← readField field "interval_secs" readNat ({} : HealthCheck).intervalSecs
  let probeTimeoutSecs ← readField field "probe_timeout_secs" readNat ({} : HealthCheck).probeTimeoutSecs
  return { intervalSecs, probeTimeoutSecs }

def readTimeouts (t : Tree) : Option Timeouts := do
  let field ← fieldsOf n ["read_secs"] t
  let readSecs ← readField field "read_secs" readNat ({} : Timeouts).readSecs
  return { readSecs }

def readObservability (t : Tree) : Option Observability := do
  let field ← fieldsOf n ["log_level", "metrics_enabled", "metrics_address"] t
  let logLevel ← readField field "log_level" readText ({} : Observability).logLevel
  let metricsEnabled ← readField field "metrics_enabled" readBool ({} : Observability).metricsEnabled
  let metricsAddress ← readField field "metrics_address" readText ({} : Observability).metricsAddress
  return { logLevel, metricsEnabled, metricsAddress }

def readGlobalLayer (t : Tree) : Option GlobalLayer := do
  let field ← fieldsOf n ["route_select", "routes"] t
  let strategy ← readField field "route_select" (readStrategy n) ({} : GlobalLayer).strategy
  let routes ← readField field "routes" readRoutes ({} : GlobalLayer).routes
  return { strategy, routes }

def readLayer (t : Tree) : Option Layer := do
  let field ← fieldsOf n ["route_select", "routes"] t
  let strategy ← readField field "route_select" (readOptionalStrategy n) ({} : Layer).strategy
  let routes ← readField field "routes" readRoutes ({} : Layer).routes
  return { strategy, routes }

/-- Reads settings. -/
def ofTree? (t : Tree) : Option Settings := do
  let field ← fieldsOf n
    ["listener", "health_check", "timeouts", "observability", "policy", "groups", "users"] t
  let listener ← readField field "listener" (readListener n) {}
  let healthCheck ← readField field "health_check" (readHealthCheck n) {}
  let timeouts ← readField field "timeouts" (readTimeouts n) {}
  let observability ← readField field "observability" (readObservability n) {}
  let policy ← readField field "policy" (readGlobalLayer n) {}
  let groups ← readField field "groups" (readTable (readLayer n)) ∅
  let users ← readField field "users" (readTable (readLayer n)) ∅
  return { listener, healthCheck, timeouts, observability, policy, groups, users }

end SessionRouting.Settings
