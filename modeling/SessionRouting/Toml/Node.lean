/-
The tables of a TOML text while they are put together. Each remembers how it came about, which decides
who may add to it: a header states a table once, a dotted key adds only to tables that dotted keys have
made, and a value in braces is closed.
-/
import SessionRouting.Tree

namespace SessionRouting.Toml

/-- How a table came about. -/
inductive Origin
  /-- A header names it, or it is the whole text. -/
  | stated
  /-- A header names a table inside it. -/
  | impliedByHeader
  /-- A dotted key leads through it. -/
  | impliedByKey
  deriving DecidableEq

inductive Node
  | value (v : Tree)
  | table (origin : Origin) (members : List (String × Node))
  /-- A list of tables: the last one is still open. -/
  | tables (earlier : List Tree) (last : List (String × Node))

abbrev Members := List (String × Node)

mutual

def Node.toTree : Node → Tree
  | .value v => v
  | .table _ members => .table (Node.rows members)
  | .tables earlier last => .list (earlier ++ [.table (Node.rows last)])

def Node.rows : List (String × Node) → List (String × Tree)
  | [] => []
  | (key, n) :: r => (key, n.toTree) :: Node.rows r

end

namespace Members

/-- Gives a key a node, in the place of the one that it has. -/
def put (ms : Members) (key : String) (n : Node) : Members :=
  match ms with
  | [] => [(key, n)]
  | (k, m) :: r => if k = key then (k, n) :: r else (k, m) :: put r key n

/-- Changes the table that a path leads to. Missing tables on the way are made; a list of tables leads
into its last one. A dotted key does not lead into a table that a header states. -/
def change (byKey : Bool) (act : Origin → Members → Option Members) :
    List String → Origin → Members → Option Members
  | [], origin, ms => act origin ms
  | key :: path, _, ms =>
    match ms.lookup key with
    | none => do
      let origin := if byKey then .impliedByKey else .impliedByHeader
      let sub ← change byKey act path origin []
      return ms.put key (.table origin sub)
    | some (.value _) => none
    | some (.table origin sub) =>
      if byKey ∧ origin = .stated then none
      else do
        let sub ← change byKey act path origin sub
        return ms.put key (.table origin sub)
    | some (.tables earlier last) => do
      let last ← change byKey act path .stated last
      return ms.put key (.tables earlier last)

/-- Adds a value under a dotted key, counted from a table of the given origin. No key is given twice,
and a dotted key ends in a table that dotted keys have made. -/
def addValue (path : List String) (key : String) (v : Tree) (origin : Origin) (ms : Members) : Option Members :=
  change true
    (fun o ms =>
      if (o = .impliedByKey) ↔ path = [] then none
      else if (ms.lookup key).isSome then none
      else some (ms.put key (.value v)))
    path origin ms

/-- States a table, which only headers of tables inside it may have named before. -/
def addTable (path : List String) (key : String) (ms : Members) : Option Members :=
  change false
    (fun _ ms =>
      match ms.lookup key with
      | none => some (ms.put key (.table .stated []))
      | some (.table .impliedByHeader sub) => some (ms.put key (.table .stated sub))
      | _ => none)
    path .stated ms

/-- Adds a table to a list of tables, or begins one. -/
def addToList (path : List String) (key : String) (ms : Members) : Option Members :=
  change false
    (fun _ ms =>
      match ms.lookup key with
      | none => some (ms.put key (.tables [] []))
      | some (.tables earlier last) => some (ms.put key (.tables (earlier ++ [.table (Node.rows last)]) []))
      | _ => none)
    path .stated ms

end Members

end SessionRouting.Toml
