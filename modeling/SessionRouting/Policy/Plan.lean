/-
The routing policy: a global layer, layers for groups and layers for users. `Policy.plan` folds the
layers that apply to a user into one plan, a strategy and a list of candidates. Each layer replaces
what the layers before it say.
-/
import SessionRouting.Policy.Layer

namespace SessionRouting

structure Policy where
  global : Policy.Layer
  groups : Table Policy.Layer
  users : Table Policy.Layer

namespace Policy

/-- How to choose a backend for one request. -/
structure Plan where
  strategy : Strategy
  candidates : List String
  deriving DecidableEq, Repr

namespace Plan

/-- The plan after a layer has had its say about a target. -/
def override (target : String) (p : Plan) (l : Layer) : Plan where
  strategy := l.strategy.getD p.strategy
  candidates := (l.lookup target).getD p.candidates

end Plan

/-- The layers that apply to a user: the global one, those of their groups in the order of the names,
and their own. -/
def layersFor (p : Policy) (user : String) (groups : Names) : List Layer :=
  p.global :: groups.toList.filterMap (p.groups[·]?) ++ p.users[user]?.toList

/-- The plan for a user who asks for a canonical target. -/
def plan (p : Policy) (user target : String) (groups : Names) : Plan :=
  (p.layersFor user groups).foldl (Plan.override target) ⟨.ordered, []⟩

end Policy

end SessionRouting
