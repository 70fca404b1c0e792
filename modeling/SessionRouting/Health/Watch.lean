/-
The watch over backends: the verdicts reached so far, in a world in which backends can be probed.
`check` answers from a fresh verdict and probes when there is none; a disabled backend is never
reachable and is not probed.
-/
import SessionRouting.Event
import SessionRouting.World

namespace SessionRouting.Health

variable {σ : Type}

structure Watch (σ : Type) where
  /-- For how many nanoseconds a verdict is fresh. -/
  interval : Nat
  records : Table Record := ∅
  world : σ
  trace : Trace := []

namespace Watch

/-- Adds an event to the trace. -/
def note (e : Event) : StateM (Watch σ) Unit :=
  modify fun h => { h with trace := e :: h.trace }

/-- Puts a question to the world. -/
def ask {α : Type} (question : σ → α × σ) : StateM (Watch σ) α :=
  modifyGet fun h =>
    let (answer, world) := question h.world
    (answer, { h with world })

/-- Replaces the record of an address, or makes the first one. -/
def update (address : String) (r : Record) : StateM (Watch σ) Unit := do
  let old := (← get).records[address]?.map Record.verdict
  modify fun h => { h with records := h.records.insert address r }
  if old ≠ some r.verdict then note (.verdictChanged address old r.verdict)
  note (.hostsTracked (← get).records.size)

def isDisabled (h : Watch σ) (address : String) : Bool :=
  h.records[address]?.any (·.verdict = .disabled)

/-- What can be said of an address without a probe: a disabled one is not reachable, and a fresh verdict
still holds. -/
def known (h : Watch σ) (address : String) (asked : Moment) : Option (Event.Source × Bool) :=
  match h.records[address]? with
  | some r =>
    if r.verdict = .disabled then some (.excluded, false)
    else if r.isFresh h.interval asked then some (.recalled, r.verdict = .up)
    else none
  | none => none

variable [World σ]

def now : StateM (Watch σ) Moment :=
  ask World.now

/-- Probes an address and records the verdict that follows. -/
def probe (address : String) (cause : Event.Cause) : StateM (Watch σ) Bool := do
  let reachable ← ask (World.probe address)
  let done ← now
  note (.probed address reachable cause done)
  update address { verdict := .ofReachable reachable, reached := done }
  return reachable

/-- Whether an address counts as reachable. -/
def check (address : String) : StateM (Watch σ) Bool := do
  let asked ← now
  let (source, reachable) ← match (← get).known address asked with
    | some answer => pure answer
    | none => (Event.Source.probed, ·) <$> probe address (.asked asked)
  note (.checked address reachable source asked)
  return reachable

end Watch

end SessionRouting.Health
