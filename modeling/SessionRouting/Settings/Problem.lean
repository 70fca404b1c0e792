/-
Problems of settings. `Settings.problems` lists everything that is wrong with well-formed settings;
the daemon runs only on settings without problems.
-/
import SessionRouting.Net.SocketAddress
import SessionRouting.Settings

namespace SessionRouting.Settings

/-- One thing that is wrong with settings. -/
inductive Problem
  | badSocketAddress (field value : String)
  | noConnections
  | zeroDuration (field : String)
  | noRoutes
  | badKey (layer key : String)
  | noDestinations (layer key : String)
  | badDestination (layer key destination : String)
  deriving DecidableEq, Repr

namespace Problem

def message : Problem → String
  | badSocketAddress field value => "invalid " ++ field ++ " '" ++ value ++ "'"
  | noConnections => "listener.max_connections must be greater than zero"
  | zeroDuration field => field ++ " must be greater than zero"
  | noRoutes => "no routes defined in [policy]"
  | badKey layer key => layer ++ ": invalid route key '" ++ key ++ "'"
  | noDestinations layer key => layer ++ ": route '" ++ key ++ "' has no destinations"
  | badDestination layer key destination =>
    layer ++ ": route '" ++ key ++ "' has invalid destination '" ++ destination ++ "'"

end Problem

/-- The problem, if the condition holds. -/
def problemIf (bad : Bool) (p : Problem) : List Problem :=
  if bad then [p] else []

/-- Whether a text does not write an address. -/
def isBadAddress (text : String) : Bool :=
  match Address.parse text with
  | .ok _ => false
  | .error _ => true

def isBadSocketAddress (text : String) : Bool :=
  (Net.SocketAddress.read? text).isNone

/-- The problems of one route of a layer: with its key, with the number of its destinations, then with
each of them. -/
def routeProblems (layer : String) (row : String × List String) : List Problem :=
  problemIf (row.1 != Policy.defaultRoute && isBadAddress row.1) (.badKey layer row.1) ++
    problemIf row.2.isEmpty (.noDestinations layer row.1) ++
    (row.2.filter isBadAddress).map (.badDestination layer row.1)

/-- The problems of the routes of a layer, in the order of their keys. -/
def routesProblems (layer : String) (routes : Routes) : List Problem :=
  routes.toList.flatMap (routeProblems layer)

/-- The problems of the layers of a table, in the order of their names. -/
def layersProblems (kind : String) (layers : Table Layer) : List Problem :=
  layers.toList.flatMap fun (name, l) => routesProblems (kind ++ "." ++ name) l.routes

/-- Everything that is wrong with settings, in a fixed order. The address for metrics counts only when
metrics are on. -/
def problems (s : Settings) : List Problem :=
  problemIf (isBadSocketAddress s.listener.bindAddress)
      (.badSocketAddress "listener.bind_address" s.listener.bindAddress) ++
    problemIf (s.listener.maxConnections == 0) .noConnections ++
    problemIf (s.observability.metricsEnabled && isBadSocketAddress s.observability.metricsAddress)
      (.badSocketAddress "observability.metrics_address" s.observability.metricsAddress) ++
    problemIf (s.healthCheck.intervalSecs == 0) (.zeroDuration "health_check.interval_secs") ++
    problemIf (s.healthCheck.probeTimeoutSecs == 0) (.zeroDuration "health_check.probe_timeout_secs") ++
    problemIf (s.timeouts.readSecs == 0) (.zeroDuration "timeouts.read_secs") ++
    problemIf s.policy.routes.isEmpty .noRoutes ++
    routesProblems "policy" s.policy.routes ++
    layersProblems "groups" s.groups ++
    layersProblems "users" s.users

end SessionRouting.Settings
