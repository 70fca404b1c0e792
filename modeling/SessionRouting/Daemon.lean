/-
The daemon from its settings: the router and the service that it starts with, and the limits that its
settings have to keep so that it comes up and can be stopped in order.
-/
import SessionRouting.Handoff
import SessionRouting.Listener
import SessionRouting.Net.SocketAddress

namespace SessionRouting

structure Daemon (σ : Type) where
  /-- The policy of the settings, with the directory that the daemon starts with. -/
  router : Router
  handoff : Handoff σ
  listener : Listener

namespace Daemon

/-- Why the daemon does not come up or cannot be stopped in order. -/
inductive Fault
  | policy (f : Address.Fault)
  | bind (reason : String)
  /-- More connections are allowed than can be counted. -/
  | tooManyConnections
  /-- The time by which connections have to end when the daemon stops cannot be told. -/
  | noDeadline
  deriving DecidableEq, Repr

namespace Fault

def message : Fault → String
  | policy f => f.message
  | bind reason => "Failed to bind: " ++ reason
  | tooManyConnections => "too many connections"
  | noDeadline => "no deadline"

end Fault

/-- The greatest number of connections that can be allowed. -/
def maxPermits : Nat := 0x1FFFFFFFFFFFFFFF

/-- The greatest number of seconds that the clock for deadlines can show. -/
def maxClock : Nat := 0x7FFFFFFFFFFFFFFF

/-- The second by which connections have to end, if the clock can show it. -/
def deadline? (uptime readSecs : Nat) : Option Nat :=
  if uptime + readSecs ≤ maxClock then some (uptime + readSecs) else none

variable {σ : Type}

/-- Brings the daemon up. -/
def start (s : Settings) (directory : Directory) (world : σ) : Except Fault (Daemon σ) := do
  let router ← (Router.ofSettings s directory).mapError .policy
  if (Net.SocketAddress.read? s.listener.bindAddress).isNone then
    throw (.bind "invalid socket address syntax")
  if maxPermits < s.listener.maxConnections then throw .tooManyConnections
  return {
    router
    handoff := { service := .start s.healthCheck.intervalSecs world }
    listener := .start s.listener.maxConnections }

/-- Stops the daemon when its clock shows `uptime`; the connections have as long to end as the settings give
to a client for its line. -/
def stop [World σ] (s : Settings) (uptime : Nat) (d : Daemon σ) : Except Fault (Daemon σ) :=
  match deadline? uptime s.timeouts.readSecs with
  | some _ => .ok { d with handoff := ((Handoff.shutDown d.router).run d.handoff).2 }
  | none => .error .noDeadline

end Daemon

end SessionRouting
