/-
Whole TOML texts: values with brackets, the lines of a text, and the tree that the lines add up to.
`Toml.read?` gives that tree, or nothing when the text is not TOML.
-/
import SessionRouting.Toml.Node
import SessionRouting.Toml.Scalar

namespace SessionRouting.Toml

open Scan

/-- A key with the tables that lead to it, and its value. -/
structure Pair where
  path : List String
  key : String
  value : Tree

/-- The parts of a dotted key before the last one, and the last one. -/
def splitKey (parts : List String) : Option (List String × String) :=
  parts.getLast?.map (parts.dropLast, ·)

/-! ## Values -/

/-- A key and a value with an equals sign between them. -/
def pair (value : Scan Tree) : Scan Pair := do
  let parts ← dottedKey
  text ['=']
  spaces
  let v ← value
  match splitKey parts with
  | some (path, key) => return { path, key, value := v }
  | none => failure

/-- Values in square brackets, over any number of lines, with or without a comma after the last. -/
def list (value : Scan Tree) : Scan Tree := do
  text ['[']
  let items ← (do
    let items ← separated ',' (do gap; let v ← value; gap; pure v)
    text [','] <|> pure ()
    pure items) <|> pure []
  gap
  text [']']
  return .list items

/-- Pairs in braces on one line, without a comma after the last. -/
def inlineTable (value : Scan Tree) : Scan Tree := do
  text ['\x7b']
  let pairs ← separated ',' (do let p ← pair value; spaces; pure p) <|> pure []
  spaces
  text ['\x7d']
  match pairs.foldlM (fun ms p => Members.addValue p.path p.key p.value .stated ms) [] with
  | some ms => return .table (Node.rows ms)
  | none => failure

/-- A value with at most `depth` levels of brackets inside each other. -/
def value : Nat → Scan Tree
  | 0 => (do return .text (← string)) <|> scalar
  | depth + 1 =>
    (do return .text (← string)) <|> list (value depth) <|> inlineTable (value depth) <|> scalar

/-! ## Lines -/

/-- What one line states, with the lines that its value goes on over. -/
inductive Statement
  | pair (p : Pair)
  | header (path : List String) (key : String)
  | listHeader (path : List String) (key : String)

/-- The header of a table, or of a table in a list of tables. -/
def header : Scan Statement := do
  let isList ← (do text ['[', '[']; pure true) <|> (do text ['[']; pure false)
  let parts ← dottedKey
  text (if isList then [']', ']'] else [']'])
  match splitKey parts with
  | some (path, key) => return if isList then .listHeader path key else .header path key
  | none => failure

/-- The end of a line or of the text. -/
def lineEnd : Scan Unit :=
  newline <|> atEnd

/-- A line with a statement, or with none. -/
def line : Scan (Option Statement) := do
  spaces
  let statement ← (do return some (← header)) <|> (do return some (.pair (← pair (value maxDepth)))) <|> pure none
  spaces
  comment <|> pure ()
  lineEnd
  return statement

/-- The statements of all lines. -/
def statements (s : List Char) : Option (List Statement) :=
  let (found, rest) := repeated line s
  if rest.isEmpty then some (found.filterMap id) else none

/-! ## The tree -/

/-- The tables so far, and the one that the last header names. -/
structure Draft where
  members : Members := []
  current : List String := []

/-- The tables after one more statement. -/
def Draft.add (d : Draft) : Statement → Option Draft
  | .pair p => do
    let members ← d.members.change false (Members.addValue p.path p.key p.value) d.current .stated
    return { d with members }
  | .header path key => do
    return { members := ← d.members.addTable path key, current := path ++ [key] }
  | .listHeader path key => do
    return { members := ← d.members.addToList path key, current := path ++ [key] }

/-- The tree that a TOML text writes. A byte-order mark before it is left out. -/
def read? (s : String) : Option Tree := do
  let s := match s.toList with
    | '\uFEFF' :: r => r
    | r => r
  let d ← (← statements s).foldlM Draft.add {}
  return .table (Node.rows d.members)

end SessionRouting.Toml
