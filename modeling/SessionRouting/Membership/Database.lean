/-
A user database that is held in memory. Its calls answer as the ones of the system do, so that lookups
can be made in it.
-/
import SessionRouting.Membership.Lookup

namespace SessionRouting.Membership

/-- What is known of a user: the primary group, the list of all groups, the room that the entry needs,
and the failure, if any, of asking for it. -/
structure UserEntry where
  primary : Nat
  groups : List Nat
  size : Nat := 0
  error : Option SystemError := none

/-- What is known of a group: its name in bytes, the room that the entry needs at least, and the
failure, if any, of asking for it. -/
structure GroupEntry where
  name : List UInt8
  size : Nat := 0
  error : Option SystemError := none

/-- A user database. `reportsCount` tells whether a call with too little room for a list of groups
reports the room that it needs. -/
structure Database where
  user : String → Option UserEntry
  group : Nat → Option GroupEntry
  reportsCount : Bool := true

namespace Database

/-- The list of a user's groups for a caller who takes `primary` to be the primary one. It stands in the
place of the one on record, and alone for a user who is not known. -/
def groups (db : Database) (user : String) (primary : Nat) : List Nat :=
  match db.user user with
  | some e => e.groups.replace e.primary primary
  | none => [primary]

/-- The calls that this database answers. -/
def calls (db : Database) : Calls where
  askUser user room :=
    match db.user user with
    | none => .absent
    | some e =>
      match e.error with
      | some error => .failed error
      | none => if e.size > room then .failed .bufferTooSmall else .found e.primary
  askGroups user primary room :=
    let groups := db.groups user primary
    if groups.length ≤ room then .all groups
    else .short (if db.reportsCount then groups.length else room)
  askGroup id room :=
    match db.group id with
    | none => .absent
    | some e =>
      match e.error with
      | some error => .failed error
      | none =>
        if max e.size (e.name.length + 1) > room then .failed .bufferTooSmall else .found (some e.name)

/-- The directory that asks this database. -/
def directory (db : Database) : Directory :=
  db.calls.directory

end Database

end SessionRouting.Membership
