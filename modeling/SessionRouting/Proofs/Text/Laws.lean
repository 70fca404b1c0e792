/-
Laws of the operations on texts: numbers are read back as they were written, a text is cut where it was joined, what
is trimmed begins and ends with no blank, words hold no blanks, and letters read the same in either case.
-/
import SessionRouting.Text.Blank
import SessionRouting.Text.Digits
import SessionRouting.Text.Split
import Mathlib.Data.List.DropRight

namespace SessionRouting.Text

/-! ## Classes of characters -/

theorem isDigit_iff (c : Char) : c.isDigit = true ↔ 48 ≤ c.toNat ∧ c.toNat ≤ 57 := Char.isDigit_iff_toNat

theorem isUpper_iff (c : Char) : c.isUpper = true ↔ 65 ≤ c.toNat ∧ c.toNat ≤ 90 := by
  show decide (c.val ≥ 'A'.val ∧ c.val ≤ 'Z'.val) = true ↔ _
  simp only [ge_iff_le, decide_eq_true_eq, UInt32.le_iff_toNat_le]
  rfl

theorem isLower_iff (c : Char) : c.isLower = true ↔ 97 ≤ c.toNat ∧ c.toNat ≤ 122 := by
  show (decide (c.val ≥ 'a'.val) && decide (c.val ≤ 'z'.val)) = true ↔ _
  simp only [ge_iff_le, Bool.and_eq_true, decide_eq_true_eq, UInt32.le_iff_toNat_le]
  rfl

theorem isAlphanum_eq (c : Char) : c.isAlphanum = (c.isUpper || c.isLower || c.isDigit) := rfl

theorem le_iff_toNat (c d : Char) : c ≤ d ↔ c.toNat ≤ d.toNat := by
  simp only [Char.le_def, UInt32.le_iff_toNat_le]
  rfl

/-! ## Numbers -/

theorem isDigit_of_mem_decimal {n : Nat} {c : Char} (hc : c ∈ decimal n) : c.isDigit = true :=
  Nat.isDigit_of_mem_toDigits (by decide) (by decide) hc

theorem isDigit_of_mem_decimalPadded {width n : Nat} {c : Char} (hc : c ∈ decimalPadded width n) :
    c.isDigit = true := by
  rcases List.mem_append.1 hc with hc | hc
  · rw [List.eq_of_mem_replicate hc]
    rfl
  · exact isDigit_of_mem_decimal hc

theorem decimal_ne_nil (n : Nat) : decimal n ≠ [] := Nat.toDigits_ne_nil

theorem digitValue_of_isDigit {c : Char} (hc : c.isDigit = true) : digitValue c = c.toNat - '0'.toNat := by
  simp [digitValue, hc]

theorem digitValue_lt_of_isDigit {c : Char} (hc : c.isDigit = true) : digitValue c < 10 := by
  have h9 : c.toNat ≤ 57 := ((isDigit_iff c).1 hc).2
  have h0 : '0'.toNat = 48 := rfl
  rw [digitValue_of_isDigit hc]
  omega

/-- A character that stands for a digit in some base is a digit or a letter. -/
theorem toNat_of_digitValue_lt {c : Char} (hc : digitValue c < 36) : 0x20 < c.toNat ∧ c.toNat < 0x7F := by
  have ha : 'a'.toNat = 97 := rfl
  have hz : 'z'.toNat = 122 := rfl
  have hA : 'A'.toNat = 65 := rfl
  have hZ : 'Z'.toNat = 90 := rfl
  unfold digitValue at hc
  split at hc
  · rename_i h
    have := (isDigit_iff c).1 h
    omega
  · split at hc
    · rename_i h
      rw [le_iff_toNat, le_iff_toNat] at h
      omega
    · split at hc
      · rename_i h
        rw [le_iff_toNat, le_iff_toNat] at h
        omega
      · omega

theorem valueIn_decimal (n : Nat) : valueIn 10 (decimal n) = n := by
  have hfold : valueIn 10 (decimal n) = (decimal n).foldl (fun m c => 10 * m + (c.toNat - '0'.toNat)) 0 := by
    refine List.foldl_ext _ _ _ fun m c hc => ?_
    rw [digitValue_of_isDigit (isDigit_of_mem_decimal hc)]
  rw [hfold, ← Nat.ofDigitChars_eq_foldl]
  exact Nat.ofDigitChars_ten_toDigits

theorem readDigits_decimal {limit n : Nat} (hn : n ≤ limit) : readDigits 10 limit (decimal n) = some n := by
  have hall : (decimal n).all (isDigitIn 10) = true := by
    rw [List.all_eq_true]
    intro c hc
    exact decide_eq_true (digitValue_lt_of_isDigit (isDigit_of_mem_decimal hc))
  unfold readDigits
  rw [valueIn_decimal, if_pos ⟨decimal_ne_nil n, hall, hn⟩]

theorem readDigits_le {base limit n : Nat} {s : List Char} (h : readDigits base limit s = some n) : n ≤ limit := by
  unfold readDigits at h
  split at h
  · rename_i hs
    cases h
    exact hs.2.2
  · cases h

theorem isDigitIn_of_readDigits {base limit n : Nat} {s : List Char} (h : readDigits base limit s = some n) {c : Char}
    (hc : c ∈ s) : isDigitIn base c = true := by
  unfold readDigits at h
  split at h
  · rename_i hs
    exact List.all_eq_true.1 hs.2.1 c hc
  · cases h

theorem valueIn_of_readDigits {base limit n : Nat} {s : List Char} (h : readDigits base limit s = some n) :
    valueIn base s = n := by
  unfold readDigits at h
  split at h
  · exact Option.some.inj h
  · cases h

theorem readCount_eq_readDigits (limit n : Nat) : readCount limit (decimal n) = readDigits 10 limit (decimal n) := by
  unfold readCount
  split
  · rename_i ds hd
    have hplus : '+' ∈ decimal n := hd ▸ List.mem_cons_self ..
    exact absurd (isDigit_of_mem_decimal hplus) (by decide)
  · rfl

theorem readCount_decimal {limit n : Nat} (hn : n ≤ limit) : readCount limit (decimal n) = some n := by
  rw [readCount_eq_readDigits, readDigits_decimal hn]

theorem eq_of_readCount_decimal {limit n m : Nat} (h : readCount limit (decimal n) = some m) : m = n := by
  rw [readCount_eq_readDigits] at h
  rw [← valueIn_of_readDigits h, valueIn_decimal]

theorem readCount_le {limit n : Nat} {s : List Char} (h : readCount limit s = some n) : n ≤ limit := by
  unfold readCount at h
  split at h
  · exact readDigits_le h
  · exact readDigits_le h

/-! ## Cuts -/

theorem cutFirst_append {sep : Char} {a : List Char} (ha : sep ∉ a) (b : List Char) :
    cutFirst sep (a ++ sep :: b) = some (a, b) := by
  induction a with
  | nil => simp [cutFirst]
  | cons c a ih =>
    simp only [List.mem_cons, not_or] at ha
    rw [List.cons_append, cutFirst, if_neg (Ne.symm ha.1), ih ha.2]
    rfl

theorem not_mem_of_cutFirst {sep : Char} {s a b : List Char} (h : cutFirst sep s = some (a, b)) : sep ∉ a := by
  induction s generalizing a with
  | nil => simp [cutFirst] at h
  | cons c r ih =>
    unfold cutFirst at h
    split at h
    · cases h
      exact List.not_mem_nil
    · rename_i hc
      obtain ⟨⟨a', b'⟩, hr, he⟩ := Option.map_eq_some_iff.1 h
      cases he
      simp only [List.mem_cons, not_or]
      exact ⟨Ne.symm hc, ih hr⟩

theorem cutLast_eq_none {sep : Char} {s : List Char} (hs : sep ∉ s) : cutLast sep s = none := by
  induction s with
  | nil => rfl
  | cons c r ih =>
    simp only [List.mem_cons, not_or] at hs
    simp [cutLast, ih hs.2, Ne.symm hs.1]

theorem cutLast_append {sep : Char} (a : List Char) {b : List Char} (hb : sep ∉ b) :
    cutLast sep (a ++ sep :: b) = some (a, b) := by
  induction a with
  | nil => simp [cutLast, cutLast_eq_none hb]
  | cons c a ih => simp [cutLast, ih]

theorem cutPair_append {x y : Char} {a : List Char} (ha : x ∉ a) (b : List Char) :
    cutPair x y (a ++ x :: y :: b) = some (a, b) := by
  induction a with
  | nil => simp [cutPair]
  | cons c a ih =>
    simp only [List.mem_cons, not_or] at ha
    have hcut : cutPair x y (c :: (a ++ x :: y :: b)) =
        (cutPair x y (a ++ x :: y :: b)).map fun (p : List Char × List Char) => (c :: p.1, p.2) := by
      cases a with
      | nil => simp [cutPair, Ne.symm ha.1]
      | cons d a => simp [cutPair, Ne.symm ha.1]
    rw [List.cons_append, hcut, ih ha.2]
    rfl

theorem cutPair_eq_some {x y : Char} {s a b : List Char} (h : cutPair x y s = some (a, b)) : s = a ++ x :: y :: b := by
  induction s generalizing a with
  | nil => cases h
  | cons c r ih =>
    cases r with
    | nil => cases h
    | cons d r =>
      unfold cutPair at h
      simp only at h
      split at h
      · rename_i hcd
        cases h
        rw [hcd.1, hcd.2]
        rfl
      · obtain ⟨⟨a', b'⟩, hr, he⟩ := Option.map_eq_some_iff.1 h
        cases he
        rw [ih hr]
        rfl

theorem mem_of_mem_fields {sep c : Char} {s : List Char} (hc : c ∈ s) : c = sep ∨ ∃ f ∈ fields sep s, c ∈ f := by
  induction s with
  | nil => cases hc
  | cons d r ih =>
    unfold fields
    by_cases hd : d = sep
    · rw [if_pos hd]
      rcases List.mem_cons.1 hc with rfl | hc
      · exact .inl hd
      · exact (ih hc).imp id fun ⟨f, hf, hcf⟩ => ⟨f, List.mem_cons_of_mem _ hf, hcf⟩
    · rw [if_neg hd]
      rcases hfs : fields sep r with _ | ⟨f, fs⟩
      · rcases List.mem_cons.1 hc with rfl | hc
        · exact .inr ⟨[c], List.mem_singleton_self _, List.mem_singleton_self _⟩
        · rcases ih hc with h | ⟨g, hg, -⟩
          · exact .inl h
          · rw [hfs] at hg
            cases hg
      · rcases List.mem_cons.1 hc with rfl | hc
        · exact .inr ⟨c :: f, List.mem_cons_self .., List.mem_cons_self ..⟩
        · rcases ih hc with h | ⟨g, hg, hcg⟩
          · exact .inl h
          · rw [hfs] at hg
            rcases List.mem_cons.1 hg with rfl | hg
            · exact .inr ⟨d :: g, List.mem_cons_self .., List.mem_cons_of_mem _ hcg⟩
            · exact .inr ⟨g, List.mem_cons_of_mem _ hg, hcg⟩

/-! ## Blanks -/

theorem dropEnd_append {p : Char → Bool} (s : List Char) {t : List Char} (ht : ∀ c ∈ t, p c = true) :
    dropEnd p (s ++ t) = dropEnd p s := by
  unfold dropEnd
  rw [List.reverse_append, List.dropWhile_append_of_pos (by simpa using ht)]

theorem dropEnd_concat {p : Char → Bool} (s : List Char) {c : Char} (hc : p c = false) :
    dropEnd p (s ++ [c]) = s ++ [c] := by
  unfold dropEnd
  rw [List.reverse_append, List.reverse_singleton, List.singleton_append, List.dropWhile_cons_of_neg (by simp [hc])]
  simp

/-- What is dropped at the end satisfies the condition. -/
theorem dropEnd_split (p : Char → Bool) (s : List Char) : ∃ t, s = dropEnd p s ++ t ∧ ∀ c ∈ t, p c = true := by
  refine ⟨(s.reverse.takeWhile p).reverse, ?_, fun c hc => List.mem_takeWhile_imp (List.mem_reverse.1 hc)⟩
  unfold dropEnd
  rw [← List.reverse_append, List.takeWhile_append_dropWhile, List.reverse_reverse]

theorem mem_of_mem_dropEnd {p : Char → Bool} {s : List Char} {c : Char} (hc : c ∈ dropEnd p s) : c ∈ s := by
  obtain ⟨t, ht, -⟩ := dropEnd_split p s
  rw [ht]
  exact List.mem_append_left _ hc

theorem mem_of_mem_trim {s : List Char} {c : Char} (hc : c ∈ trim s) : c ∈ s :=
  (List.dropWhile_sublist _).subset (mem_of_mem_dropEnd hc)

/-- There is nothing to trim without blanks. -/
theorem trim_of_not_isBlank {s : List Char} (hs : ∀ c ∈ s, isBlank c = false) : trim s = s := by
  unfold trim
  rw [List.dropWhile_eq_self_iff.2 fun hl => by simp [hs _ (List.getElem_mem hl)]]
  rcases List.eq_nil_or_concat s with rfl | ⟨r, c, rfl⟩
  · rfl
  · rw [List.concat_eq_append] at hs ⊢
    exact dropEnd_concat r (hs c (by simp))

theorem not_isBlank_of_toNat {c : Char} (h : 0x20 < c.toNat ∧ c.toNat < 0x7F) : isBlank c = false := by
  unfold isBlank
  simp
  omega

theorem not_isBlank_of_isDigit {c : Char} (hc : c.isDigit = true) : isBlank c = false := by
  have := (isDigit_iff c).1 hc
  exact not_isBlank_of_toNat (by omega)

/-! ## Words -/

theorem words_cons_of_blank {c : Char} (hc : isBlank c = true) (s : List Char) : words (c :: s) = words s := if_pos hc

theorem words_cons_of_not_blank {c : Char} (hc : ¬ isBlank c = true) (s : List Char) : words (c :: s) =
    match s with
    | [] => [[c]]
    | d :: _ =>
      if isBlank d then [c] :: words s
      else match words s with
        | [] => [[c]]
        | w :: ws => (c :: w) :: ws := if_neg hc

/-- Words are not empty and hold no blanks. -/
theorem words_spec (s : List Char) : ∀ w ∈ words s, w ≠ [] ∧ ∀ c ∈ w, isBlank c = false := by
  induction s with
  | nil => exact fun w hw => absurd hw List.not_mem_nil
  | cons c r ih =>
    by_cases hc : isBlank c = true
    · rw [words_cons_of_blank hc]
      exact ih
    · have hfalse : isBlank c = false := by simpa using hc
      have hone : ∀ w ∈ [[c]], w ≠ [] ∧ ∀ d ∈ w, isBlank d = false := by simp [hfalse]
      rw [words_cons_of_not_blank hc]
      cases r with
      | nil => exact hone
      | cons d r =>
        simp only
        split
        · intro w hw
          rcases List.mem_cons.1 hw with rfl | hw
          · exact hone _ (List.mem_singleton_self _)
          · exact ih w hw
        · split
          · exact hone
          · rename_i w ws hws
            intro v hv
            rcases List.mem_cons.1 hv with rfl | hv
            · refine ⟨List.cons_ne_nil _ _, fun e he => ?_⟩
              rcases List.mem_cons.1 he with rfl | he
              · exact hfalse
              · exact (ih w (hws ▸ List.mem_cons_self ..)).2 e he
            · exact ih v (hws ▸ List.mem_cons_of_mem _ hv)

theorem words_of_blank {t : List Char} (ht : ∀ c ∈ t, isBlank c = true) : words t = [] := by
  induction t with
  | nil => rfl
  | cons c t ih =>
    rw [words_cons_of_blank (ht c (List.mem_cons_self ..))]
    exact ih fun d hd => ht d (List.mem_cons_of_mem _ hd)

/-- Blanks at the end of a text are no part of its words. -/
theorem words_append_blank (s : List Char) {t : List Char} (ht : ∀ c ∈ t, isBlank c = true) :
    words (s ++ t) = words s := by
  induction s with
  | nil => exact words_of_blank ht
  | cons c r ih =>
    by_cases hc : isBlank c = true
    · rw [List.cons_append, words_cons_of_blank hc, words_cons_of_blank hc, ih]
    · rw [List.cons_append, words_cons_of_not_blank hc, words_cons_of_not_blank hc, ih]
      cases r with
      | cons d r => rfl
      | nil =>
        cases t with
        | nil => rfl
        | cons d t => exact if_pos (ht d (List.mem_cons_self ..))

/-! ## Letters -/

theorem toLower_eq_self {c : Char} (hc : c.isUpper = false) : c.toLower = c := by
  unfold Char.toLower
  exact dif_neg (of_decide_eq_false hc)

/-- A capital letter and the small one. -/
theorem toNat_toLower {c : Char} (hc : c.isUpper = true) : c.toLower.toNat = c.toNat + 32 := by
  have hrange : c.val ≥ 'A'.val ∧ c.val ≤ 'Z'.val := of_decide_eq_true hc
  have hle : c.val.toNat ≤ 90 := ((isUpper_iff c).1 hc).2
  unfold Char.toLower
  rw [dif_pos hrange]
  show (c.val + 32).toNat = c.val.toNat + 32
  rw [UInt32.toNat_add]
  exact Nat.mod_eq_of_lt (by show c.val.toNat + 32 < 4294967296; omega)

/-- Small and capital letters have the same value as digits. -/
theorem digitValue_toLower (c : Char) : digitValue c.toLower = digitValue c := by
  cases hc : c.isUpper with
  | false => rw [toLower_eq_self hc]
  | true =>
    have hsmall := toNat_toLower hc
    have hrange := (isUpper_iff c).1 hc
    have ha : 'a'.toNat = 97 := rfl
    have hz : 'z'.toNat = 122 := rfl
    have hA : 'A'.toNat = 65 := rfl
    have hZ : 'Z'.toNat = 90 := rfl
    have hdigit : c.isDigit = false ∧ c.toLower.isDigit = false := by
      simp only [Bool.eq_false_iff, ne_eq, isDigit_iff]
      omega
    simp only [digitValue, hdigit.1, hdigit.2, Bool.false_eq_true, if_false, le_iff_toNat]
    rw [if_pos (by omega), if_neg (by omega), if_pos (by omega)]
    omega

theorem isLower_toLower {c : Char} (hc : c.isUpper = true) : c.toLower.isLower = true := by
  rw [isLower_iff, toNat_toLower hc]
  have := (isUpper_iff c).1 hc
  omega

/-- Only a capital letter is changed, and only into a small one. -/
theorem toLower_eq_iff {sep : Char} (hs : sep.isAlpha = false) (c : Char) : c.toLower = sep ↔ c = sep := by
  replace hs : sep.isUpper = false ∧ sep.isLower = false := Bool.or_eq_false_iff.1 hs
  cases hc : c.isUpper with
  | false => rw [toLower_eq_self hc]
  | true =>
    have hsmall := isLower_toLower hc
    constructor
    · rintro rfl
      rw [hs.2] at hsmall
      cases hsmall
    · rintro rfl
      rw [hs.1] at hc
      cases hc

theorem toLower_toLower (c : Char) : c.toLower.toLower = c.toLower := by
  cases hc : c.isUpper with
  | false => rw [toLower_eq_self hc, toLower_eq_self hc]
  | true =>
    refine toLower_eq_self ?_
    rw [Bool.eq_false_iff, ne_eq, isUpper_iff, toNat_toLower hc]
    have := (isUpper_iff c).1 hc
    omega

/-- The text in small letters. -/
def lower (s : List Char) : List Char := s.map Char.toLower

theorem lower_lower (s : List Char) : lower (lower s) = lower s := by
  unfold lower
  rw [List.map_map]
  exact List.map_congr_left fun c _ => toLower_toLower c

theorem mem_lower {sep : Char} (hs : sep.isAlpha = false) (s : List Char) : sep ∈ lower s ↔ sep ∈ s := by
  simp [lower, toLower_eq_iff hs]

theorem lower_eq_nil {s : List Char} : lower s = [] ↔ s = [] := List.map_eq_nil_iff

theorem readDigits_lower (base limit : Nat) (s : List Char) :
    readDigits base limit (lower s) = readDigits base limit s := by
  have hall : (lower s).all (isDigitIn base) = s.all (isDigitIn base) := by
    simp only [lower, List.all_map]
    exact congrArg s.all (funext fun c => by simp only [Function.comp, isDigitIn, digitValue_toLower])
  have hvalue : valueIn base (lower s) = valueIn base s := by
    simp only [valueIn, lower, List.foldl_map, digitValue_toLower]
  simp only [readDigits, hall, hvalue, ne_eq, lower_eq_nil]

theorem fields_lower {sep : Char} (hs : sep.isAlpha = false) (s : List Char) :
    fields sep (lower s) = (fields sep s).map lower := by
  induction s with
  | nil => rfl
  | cons c r ih =>
    have hstep : fields sep (lower (c :: r)) = if c.toLower = sep then [] :: fields sep (lower r) else
        match fields sep (lower r) with
        | [] => [[c.toLower]]
        | f :: fs => (c.toLower :: f) :: fs := rfl
    rw [hstep, ih]
    simp only [fields, toLower_eq_iff hs]
    split
    · rfl
    · cases fields sep r <;> rfl

theorem cutPair_lower {x y : Char} (hx : x.isAlpha = false) (hy : y.isAlpha = false) (s : List Char) :
    cutPair x y (lower s) = (cutPair x y s).map fun p => (lower p.1, lower p.2) := by
  induction s with
  | nil => rfl
  | cons c r ih =>
    cases r with
    | nil => rfl
    | cons d r =>
      have hstep : cutPair x y (lower (c :: d :: r)) = if c.toLower = x ∧ d.toLower = y then some ([], lower r) else
          (cutPair x y (lower (d :: r))).map fun p => (c.toLower :: p.1, p.2) := rfl
      rw [hstep, ih]
      simp only [cutPair, toLower_eq_iff hx, toLower_eq_iff hy]
      split
      · rfl
      · simp only [Option.map_map]
        rfl

end SessionRouting.Text
