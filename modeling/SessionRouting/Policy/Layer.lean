/-
Layers of the routing policy. A layer names destinations for targets and may name a strategy; its
route `default` stands for every target without a route of its own. `Layer.compile` brings the
addresses of a configured layer to their canonical text.
-/
import SessionRouting.Address
import SessionRouting.Strategy
import SessionRouting.Table

namespace SessionRouting

/-- Destinations by route key, as configured: a target address or `default`. -/
abbrev Routes := Table (List String)

namespace Policy

/-- The route key that stands for every target without a route of its own. -/
def defaultRoute : String := "default"

/-- A layer whose keys and destinations are canonical addresses. -/
structure Layer where
  strategy : Option Strategy
  routes : Routes

namespace Layer

/-- The canonical text of a route key. -/
def compileKey (key : String) : Except Address.Fault String :=
  if key = defaultRoute then .ok key else Address.normalize key

/-- The canonical text of a route: the key first, then its destinations in order. -/
def compileRoute (row : String × List String) : Except Address.Fault (String × List String) := do
  let key ← compileKey row.1
  let destinations ← row.2.mapM Address.normalize
  return (key, destinations)

/-- Compiles the routes in code-point order of their keys. Of two keys for one address the later stands. -/
def compile (strategy : Option Strategy) (routes : Routes) : Except Address.Fault Layer := do
  let rows ← routes.toList.mapM compileRoute
  return { strategy, routes := rows.foldl (fun t row => t.insert row.1 row.2) ∅ }

/-- The destinations for a target: its own route, else the route `default`. -/
def lookup (l : Layer) (target : String) : Option (List String) :=
  l.routes[target]?.or l.routes[defaultRoute]?

end Layer

end Policy

end SessionRouting
