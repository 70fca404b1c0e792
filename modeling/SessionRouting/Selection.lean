/-
Choosing a backend: candidates are asked about one after the other until one is reachable.
-/
namespace SessionRouting.Selection

variable {m : Type → Type} [Monad m]

/-- The first candidate that `ask` answers yes for. Later candidates are not asked about; `skip` is done
for each one before it. -/
def firstReachable (ask : String → m Bool) (skip : String → m Unit) : List String → m (Option String)
  | [] => return none
  | c :: cs => do
    if ← ask c then return some c
    else
      skip c
      firstReachable ask skip cs

end SessionRouting.Selection
