/-
Trees of plain data, as a configuration text or a message writes them.
-/
namespace SessionRouting

inductive Tree
  | null
  | bool (b : Bool)
  | int (n : Int)
  /-- A number that is not an integer. -/
  | real
  | text (s : String)
  | list (items : List Tree)
  | table (rows : List (String × Tree))
  deriving Inhabited

end SessionRouting
