/-
The service: the watch over backends together with the open sessions. `resolve` finds a backend for a
new session. It stays with the backend that the key has as long as that one is reachable, and
otherwise routes afresh; `release` ends a session.
-/
import SessionRouting.Routing

namespace SessionRouting

open Health

variable {σ : Type}

/-- All that commands can change. -/
structure Service (σ : Type) where
  watch : Watch σ
  sessions : Sessions := ∅

namespace Service

/-- The service before the first command, with a check interval in seconds. -/
def start (intervalSecs : Nat) (world : σ) : Service σ where
  watch := { interval := intervalSecs * 1000000000, world }

/-- Does something to the watch alone. -/
def watching {α : Type} (x : StateM (Watch σ) α) : StateM (Service σ) α :=
  modifyGet fun s =>
    let (a, watch) := x.run s.watch
    (a, { s with watch })

def note (e : Event) : StateM (Service σ) Unit :=
  watching (Watch.note e)

/-- Writes the entry of a key. -/
def put (key : Session.Key) (entry : Session) : StateM (Service σ) Unit :=
  modify fun s => { s with sessions := s.sessions.insert key entry }

/-- Removes the entry of a key. -/
def remove (key : Session.Key) : StateM (Service σ) Unit :=
  modify fun s => { s with sessions := s.sessions.erase key }

def noteEntries : StateM (Service σ) Unit := do
  note (.entriesOpen (← get).sessions.size)

variable [World σ]

/-- One more session on the backend that the key has, if it has one and that one is reachable. A backend
that turns out not to be is recorded as down, unless it is disabled. -/
def reuse (key : Session.Key) : StateM (Service σ) (Option String) := do
  match (← get).sessions[key]? with
  | none => return none
  | some entry =>
    if ← watching (Watch.check entry.backend) then
      let lastActive ← watching Watch.now
      put key { entry with count := entry.count + 1, lastActive }
      note (.reused key entry.backend (entry.count + 1))
      return some entry.backend
    else
      note (.lost key entry.backend)
      unless (← get).watch.isDisabled entry.backend do
        let reached ← watching Watch.now
        watching (Watch.update entry.backend { verdict := .down, reached })
      return none

/-- A backend for a new session on the key. -/
def resolve (r : Router) (key : Session.Key) : StateM (Service σ) (Except Routing.Fault String) := do
  match ← reuse key with
  | some backend => return .ok backend
  | none =>
    match ← watching (Routing.route r key.user key.target) with
    | .error f => return .error f
    | .ok backend =>
      note (.assigned key backend)
      let lastActive ← watching Watch.now
      put key { backend, count := 1, lastActive }
      noteEntries
      return .ok backend

/-- Ends one session on the key and tells how many remain. -/
def release (key : Session.Key) : StateM (Service σ) (Except Session.Fault Nat) := do
  match (← get).sessions[key]? with
  | none => return .error (.unknown key)
  | some entry =>
    let remaining := entry.count - 1
    if remaining = 0 then
      remove key
      noteEntries
    else
      let lastActive ← watching Watch.now
      put key { entry with count := remaining, lastActive }
    return .ok remaining

end Service

end SessionRouting
