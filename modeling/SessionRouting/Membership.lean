/-
The groups that users belong to. A `Directory` answers for a user with the set of their groups or
with the reason why they are not known; `Directory.ofMembers` answers from a fixed table.
-/
import SessionRouting.Table

namespace SessionRouting

namespace Membership

/-- Why the groups of a user are not known. -/
inductive Fault
  | unknownUser (user : String)
  | lookup (user reason : String)
  deriving DecidableEq, Repr

namespace Fault

def message : Fault → String
  | unknownUser user => "unknown user '" ++ user ++ "'"
  | lookup user reason => "group lookup failed for '" ++ user ++ "': " ++ reason

end Fault

/-- The answer for one user: their groups, and the ids of the groups left out for want of a name. -/
structure Report where
  groups : Except Fault Names
  unnamed : List Nat := []

/-- Known users with their groups. -/
abbrev Members := Table Names

namespace Members

/-- Adds groups to those of a user, who is known from then on even without any. -/
def add (m : Members) (user : String) (groups : List String) : Members :=
  m.insert user (groups.foldl (·.insert ·) (m.getD user ∅))

end Members

end Membership

/-- A source of group memberships. -/
structure Directory where
  groupsOf : String → Membership.Report

namespace Directory

/-- The directory that knows the users of a table and no others. -/
def ofMembers (m : Membership.Members) : Directory where
  groupsOf user :=
    match m[user]? with
    | some groups => { groups := .ok groups }
    | none => { groups := .error (.unknownUser user) }

end Directory

end SessionRouting
