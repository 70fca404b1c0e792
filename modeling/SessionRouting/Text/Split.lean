/-
Cutting a text at a separator: at its first occurrence, at its last one, or at every one.
-/
namespace SessionRouting.Text

/-- The text before and after the first `sep`. -/
def cutFirst (sep : Char) : List Char → Option (List Char × List Char)
  | [] => none
  | c :: r => if c = sep then some ([], r) else (cutFirst sep r).map fun (a, b) => (c :: a, b)

/-- The text before and after the last `sep`. -/
def cutLast (sep : Char) : List Char → Option (List Char × List Char)
  | [] => none
  | c :: r =>
    match cutLast sep r with
    | some (a, b) => some (c :: a, b)
    | none => if c = sep then some ([], r) else none

/-- The text before and after the first place where `x` is directly followed by `y`. -/
def cutPair (x y : Char) : List Char → Option (List Char × List Char)
  | [] => none
  | c :: r =>
    match r with
    | [] => none
    | d :: r' => if c = x ∧ d = y then some ([], r') else (cutPair x y r).map fun (a, b) => (c :: a, b)

/-- The texts between the separators: one more than there are separators. -/
def fields (sep : Char) : List Char → List (List Char)
  | [] => [[]]
  | c :: r =>
    if c = sep then [] :: fields sep r
    else match fields sep r with
      | [] => [[c]]
      | f :: fs => (c :: f) :: fs

theorem cutFirst_eq_some {sep : Char} {s a b : List Char} (h : cutFirst sep s = some (a, b)) :
    s = a ++ sep :: b := by
  induction s generalizing a with
  | nil => simp [cutFirst] at h
  | cons c r ih =>
    unfold cutFirst at h
    split at h
    · simp_all
    · obtain ⟨⟨a', b'⟩, hr, he⟩ := Option.map_eq_some_iff.1 h
      simp only [Prod.mk.injEq] at he
      obtain ⟨rfl, rfl⟩ := he
      simp [ih hr]

end SessionRouting.Text
