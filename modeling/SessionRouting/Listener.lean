/-
Open connections and the permits that limit them. A permit is taken before a connection is accepted
and is given back when its worker has ended; from the acceptance until shortly before that a tracker
counts the connection as open. A worker reads one line, has it carried out, sends the answer and ends, or
it ends before that.

`Listener.step?` makes one move of the listener or of a worker if that move is possible; the moves may
come in any order.
-/
namespace SessionRouting

/-- The number of open connections. -/
structure Tracker where
  active : Nat := 0
  deriving DecidableEq, Repr

namespace Tracker

def enter (t : Tracker) : Tracker :=
  ⟨t.active + 1⟩

def leave (t : Tracker) : Tracker :=
  ⟨t.active - 1⟩

def isIdle (t : Tracker) : Bool :=
  t.active = 0

end Tracker

namespace Listener

/-- How far a worker is. -/
inductive Stage
  /-- It waits for the client's line. -/
  | reading
  /-- It has the line carried out and sends the answer. -/
  | answering
  /-- It is done with its connection and still holds its permit. -/
  | closed
  | ended
  deriving DecidableEq, Repr

/-- How a worker comes to be done with its connection. -/
inductive Ending
  /-- The client has sent nothing. -/
  | silent
  /-- What the client has sent is not a line. -/
  | unreadable
  /-- The client's time has run out. -/
  | timedOut
  /-- The answer cannot be sent. -/
  | unsent
  | answered
  deriving DecidableEq, Repr

/-- The stage in which a worker is before such an ending. -/
def Ending.stage : Ending → Stage
  | silent | unreadable | timedOut => .reading
  | unsent | answered => .answering

/-- What serves a connection. -/
structure Worker where
  id : Nat
  stage : Stage := .reading
  deriving DecidableEq, Repr

inductive Move
  /-- The listener takes a permit and waits for a connection. -/
  | acquire
  | accept
  /-- No connection comes of the wait. -/
  | acceptFails
  /-- The worker has got the client's line. -/
  | receive (id : Nat)
  /-- The worker is done with its connection. -/
  | close (id : Nat) (ending : Ending)
  /-- The worker has ended. -/
  | depart (id : Nat)
  /-- The listener accepts no more connections. -/
  | shut
  deriving DecidableEq, Repr

end Listener

structure Listener where
  /-- The number of permits that are free. -/
  available : Nat
  /-- The listener holds a permit and waits for a connection. -/
  isWaiting : Bool := false
  isShut : Bool := false
  tracker : Tracker := {}
  /-- The workers of all connections that were accepted, in the order in which they were. -/
  workers : List Listener.Worker := []
  nextId : Nat := 1
  deriving DecidableEq, Repr

namespace Listener

/-- The listener before its first connection. -/
def start (maxConnections : Nat) : Listener where
  available := maxConnections

/-- Takes a worker from one stage to another, if it is in the first one. -/
def advance? (l : Listener) (id : Nat) (stage next : Stage) : Option Listener :=
  if { id, stage } ∈ l.workers then
    some { l with workers := l.workers.replace { id, stage } { id, stage := next } }
  else none

/-- The state after a move, if the move is possible. -/
def step? (l : Listener) : Move → Option Listener
  | .acquire =>
    if 0 < l.available ∧ !l.isWaiting ∧ !l.isShut then
      some { l with available := l.available - 1, isWaiting := true }
    else none
  | .accept =>
    if l.isWaiting then
      some { l with
        isWaiting := false
        tracker := l.tracker.enter
        workers := l.workers ++ [{ id := l.nextId }]
        nextId := l.nextId + 1 }
    else none
  | .acceptFails =>
    if l.isWaiting then some { l with available := l.available + 1, isWaiting := false } else none
  | .receive id => l.advance? id .reading .answering
  | .close id ending => do
    let l ← l.advance? id ending.stage .closed
    return { l with tracker := l.tracker.leave }
  | .depart id => do
    let l ← l.advance? id .closed .ended
    return { l with available := l.available + 1 }
  | .shut =>
    if l.isShut then none
    else if l.isWaiting then some { l with available := l.available + 1, isWaiting := false, isShut := true }
    else some { l with isShut := true }

end Listener

end SessionRouting
