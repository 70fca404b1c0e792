/-
The switch by which the daemon is told to stop. It has any number of handles that can throw it and of
signals that wait for it, it stays thrown once it is, and letting go of handles does not throw it.
-/
namespace SessionRouting

/-- A switch with the number of its handles, each of them held or let go, and of its signals. -/
structure StopSwitch where
  thrown : Bool := false
  handles : List Bool := [true]
  signals : Nat := 0
  deriving DecidableEq, Repr

namespace StopSwitch

def isHeld (s : StopSwitch) (handle : Nat) : Bool :=
  s.handles[handle]? = some true

/-- Adds a handle. -/
def clone (s : StopSwitch) : StopSwitch :=
  { s with handles := s.handles ++ [true] }

/-- Lets go of a handle. -/
def release (s : StopSwitch) (handle : Nat) : StopSwitch :=
  { s with handles := s.handles.set handle false }

/-- Throws the switch with a handle that is held. -/
def throw (s : StopSwitch) (handle : Nat) : StopSwitch :=
  { s with thrown := s.thrown || s.isHeld handle }

/-- Adds a signal. -/
def subscribe (s : StopSwitch) : StopSwitch :=
  { s with signals := s.signals + 1 }

/-- Whether a signal need not wait any longer. -/
def isReady (s : StopSwitch) (signal : Nat) : Bool :=
  signal < s.signals && s.thrown

end StopSwitch

end SessionRouting
