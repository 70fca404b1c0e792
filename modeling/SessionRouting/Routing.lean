/-
Routing: from a user and a target to a backend. The policy turns them into a plan, and the plan's
strategy and candidates into a reachable backend.
-/
import SessionRouting.Health.Watch
import SessionRouting.Selection
import SessionRouting.Settings

namespace SessionRouting

open Health

variable {σ : Type}

/-- What a command is routed by: the policy, which no command changes, and the directory as it answers while the
command is carried out. -/
structure Router where
  policy : Policy
  directory : Directory

namespace Router

/-- The router for settings. -/
def ofSettings (s : Settings) (directory : Directory) : Except Address.Fault Router := do
  return { policy := ← s.compilePolicy, directory }

end Router

namespace Routing

variable [World σ]

/-- The candidates in the order in which they are asked about. -/
def arrange (strategy : Strategy) (candidates : List String) : StateM (Watch σ) (List String) :=
  match strategy with
  | .ordered => return candidates
  | .random => Watch.ask (World.shuffle candidates)

/-- The first reachable candidate in the order of the strategy. -/
def select (strategy : Strategy) (candidates : List String) : StateM (Watch σ) (Option String) := do
  let order ← arrange strategy candidates
  Selection.firstReachable Watch.check (fun c => Watch.note (.skipped c strategy)) order

/-- A reachable backend for a user who asks for a canonical target. -/
def route (r : Router) (user target : String) : StateM (Watch σ) (Except Fault String) := do
  let report := r.directory.groupsOf user
  report.unnamed.forM fun id => Watch.note (.groupUnnamed id)
  match report.groups with
  | .error f => return .error (.groups f)
  | .ok groups =>
    let plan := r.policy.plan user target groups
    Watch.note (.planned user target plan)
    match ← select plan.strategy plan.candidates with
    | some backend => return .ok backend
    | none => return .error .noCandidate

end Routing

end SessionRouting
