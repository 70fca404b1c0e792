/-
Strategies: the order in which the candidates of a route are asked.
-/
namespace SessionRouting

/-- How a backend is chosen among candidates: the first reachable one in the configured order, or in a
random order. -/
inductive Strategy
  | ordered
  | random
  deriving DecidableEq, Repr, Inhabited

namespace Strategy

def text : Strategy → String
  | ordered => "ordered"
  | random => "random"

/-- Reads the exact name of a strategy. -/
def read? (s : String) : Option Strategy :=
  if s = ordered.text then some ordered else if s = random.text then some random else none

end Strategy

end SessionRouting
