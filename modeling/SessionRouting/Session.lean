/-
Sessions. A session entry belongs to a user and a target; it holds the backend that was assigned, how
many sessions are open on it and when that last changed.
-/
import SessionRouting.Moment
import Std.Data.ExtTreeMap

namespace SessionRouting

namespace Session

/-- Who is connected to which target. -/
structure Key where
  user : String
  target : String
  deriving DecidableEq, Repr

namespace Key

/-- Keys are ordered by their users and then by their targets. -/
instance : Ord Key := ⟨compareLex (compareOn Key.user) (compareOn Key.target)⟩

instance : Std.TransOrd Key :=
  inferInstanceAs (Std.TransCmp (compareLex (compareOn Key.user) (compareOn Key.target)))

instance : Std.LawfulEqOrd Key where
  eq_of_compare {a b} h := by
    have h : compareLex (compareOn Key.user) (compareOn Key.target) a b = .eq := h
    simp only [compareLex, compareOn, Ordering.then_eq_eq, Std.LawfulEqOrd.compare_eq_iff_eq] at h
    cases a; cases b; simp_all

def text (k : Key) : String :=
  k.user ++ "@" ++ k.target

end Key

/-- Why a session cannot be ended. -/
inductive Fault
  | unknown (key : Key)
  deriving DecidableEq, Repr

namespace Fault

def message : Fault → String
  | unknown key => "no active session for " ++ key.text

end Fault

end Session

/-- The backend of a key, the number of its open sessions and the moment of the last change. -/
structure Session where
  backend : String
  count : Nat
  lastActive : Moment
  deriving DecidableEq, Repr

/-- The open sessions. Their rows come in the order of the keys. -/
abbrev Sessions := Std.ExtTreeMap Session.Key Session compare

end SessionRouting
