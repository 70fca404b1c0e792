/-
Group lookup in the system's user database. Its calls answer into a buffer that the caller sizes:
when the answer does not fit they say so and the caller tries again with more room, up to a limit of
2^20. `Calls.groupsOf` makes these calls and collects the names of a user's groups.
-/
import SessionRouting.Membership
import SessionRouting.SystemError
import SessionRouting.Text.Utf8

namespace SessionRouting.Membership

/-- The answer to asking for one entry. -/
inductive Answer (α : Type)
  | found (entry : α)
  | absent
  | failed (error : SystemError)

/-- The answer to asking for a list of groups: the whole list, or the count that the call leaves behind
when there is not enough room. -/
inductive ListAnswer
  | all (groups : List Nat)
  | short (count : Nat)

/-- The calls of a user database. Each one is told how much room there is for its answer, in bytes or, for
a list, in groups. -/
structure Calls where
  /-- Asks for the primary group of a user. -/
  askUser : (user : String) → (room : Nat) → Answer Nat
  /-- Asks for all groups of a user whose primary group is the given one. -/
  askGroups : (user : String) → (primary room : Nat) → ListAnswer
  /-- Asks for the bytes of a group's name, which an entry may do without. -/
  askGroup : (id room : Nat) → Answer (Option (List UInt8))

namespace Calls

/-- The most bytes and the most groups that a lookup makes room for. -/
def maxRoom : Nat := 0x100000

/-- Asks with twice the room as long as the buffer is too small and the limit is not reached. -/
def retry {α : Type} (ask : Nat → Answer α) (room : Nat) : Answer α :=
  match ask room with
  | .failed error =>
    if error = .bufferTooSmall ∧ 0 < room ∧ room < maxRoom then retry ask (2 * room) else .failed error
  | answer => answer
  termination_by maxRoom - room
  decreasing_by omega

/-- Asks for a list with more room as long as there is too little: with the room that the call reports,
or with twice as much when it reports none. No list when that is over the limit. -/
def retryList (ask : Nat → ListAnswer) (room : Nat) : Option (List Nat) :=
  match ask room with
  | .all groups => some groups
  | .short count =>
    let next := if room < count then count else 2 * room
    if room < next ∧ next ≤ maxRoom then retryList ask next else none
  termination_by maxRoom - room
  decreasing_by omega

/-- The room of the first try for an entry, in bytes, and for a list, in groups. -/
def firstRoom : Nat := 1024
def firstListRoom : Nat := 32

/-- The name of a group, with U+FFFD for what is not UTF-8, if it has an entry that can be read. A name ends at
its first zero. -/
def groupName (calls : Calls) (id : Nat) : Option String :=
  match retry (calls.askGroup id) firstRoom with
  | .found (some name) => some (String.ofList (Text.Utf8.decodeLossy (name.takeWhile (· ≠ 0))))
  | _ => none

/-- The groups of a user. Groups without a readable entry are left out. -/
def groupsOf (calls : Calls) (user : String) : Report :=
  if user.toList.contains (Char.ofNat 0) then { groups := .error (.unknownUser user) }
  else match retry (calls.askUser user) firstRoom with
    | .failed error => { groups := .error (.lookup user error.message) }
    | .absent => { groups := .error (.unknownUser user) }
    | .found primary =>
      match retryList (calls.askGroups user primary) firstListRoom with
      | none => { groups := .error (.lookup user "too many groups") }
      | some ids =>
        { groups := .ok ((ids.filterMap calls.groupName).foldl (·.insert ·) ∅)
          unnamed := ids.filter fun id => (calls.groupName id).isNone }

/-- The directory that makes these calls. -/
def directory (calls : Calls) : Directory where
  groupsOf := calls.groupsOf

end Calls

end SessionRouting.Membership
