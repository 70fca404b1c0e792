/-
Tables keyed by text. Their rows come in code-point order of the keys, and two tables with the same
rows are equal.
-/
import Std.Data.ExtTreeMap
import Std.Data.ExtTreeSet

namespace SessionRouting

/-- A finite map from texts, with at most one value for a key. -/
abbrev Table (β : Type) := Std.ExtTreeMap String β compare

/-- A finite set of names, listed in code-point order. -/
abbrev Names := Std.ExtTreeSet String compare

end SessionRouting
