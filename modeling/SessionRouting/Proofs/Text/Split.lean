/-
Texts that are cut and put together again. The fields of a text are what it is joined of (`fields_intercalate`), its
words are its fields between blanks that are not empty (`words_eq_splitOnP`), and a number without leading zeros is
written by its digits in one way only (`decimal_valueIn`).
-/
import SessionRouting.Proofs.Text.Laws
import Mathlib.Algebra.Group.Nat.Defs

namespace SessionRouting.Text

/-! ## Digits -/

theorem valueIn_concat (base : Nat) (ds : List Char) (c : Char) :
    valueIn base (ds ++ [c]) = base * valueIn base ds + digitValue c := by
  simp [valueIn]

theorem isDigit_iff_digitValue (c : Char) : c.isDigit = true ↔ digitValue c < 10 := by
  constructor
  · exact digitValue_lt_of_isDigit
  · intro h
    by_contra hc
    unfold digitValue at h
    rw [if_neg hc] at h
    split at h
    · omega
    · split at h <;> omega

/-- The digit with the value that a decimal digit has. -/
theorem digitChar_digitValue {c : Char} (hc : c.isDigit = true) : Nat.digitChar (digitValue c) = c := by
  obtain ⟨hlow, hhigh⟩ := (isDigit_iff c).1 hc
  have hdigits : ∀ n < 10, Nat.digitChar n = Char.ofNat (n + 48) := by decide
  calc Nat.digitChar (digitValue c) = Nat.digitChar (c.toNat - 48) := congrArg _ (digitValue_of_isDigit hc)
    _ = Char.ofNat (c.toNat - 48 + 48) := hdigits _ (by omega)
    _ = Char.ofNat c.toNat := by rw [Nat.sub_add_cancel hlow]
    _ = c := Char.ofNat_toNat c

/-- Digits of which the first is no zero stand for a positive number. -/
theorem valueIn_pos {c : Char} {ds : List Char} (hc : 0 < digitValue c) : 0 < valueIn 10 (c :: ds) := by
  induction ds using List.reverseRecOn with
  | nil => simpa [valueIn] using hc
  | append_singleton ds d ih =>
    rw [← List.cons_append, valueIn_concat]
    omega

/-- Digits without leading zeros are the decimal digits of their number. -/
theorem decimal_valueIn {ds : List Char} (hne : ds ≠ []) (hds : ∀ c ∈ ds, c.isDigit = true)
    (hzero : ds.length = 1 ∨ ds.head? ≠ some '0') : decimal (valueIn 10 ds) = ds := by
  -- from the end, since the last digit is what is left when the number is divided
  induction ds using List.reverseRecOn with
  | nil => exact absurd rfl hne
  | append_singleton ds c ih =>
    have hc : c.isDigit = true := hds c (by simp)
    have hlt : digitValue c < 10 := digitValue_lt_of_isDigit hc
    unfold decimal at ih ⊢
    rw [valueIn_concat]
    cases ds with
    | nil =>
      have hvalue : valueIn 10 ([] : List Char) = 0 := rfl
      rw [hvalue, Nat.mul_zero, Nat.zero_add, Nat.toDigits_of_lt_base hlt, digitChar_digitValue hc]
      rfl
    | cons d ds =>
      have hd : d.isDigit = true := hds d (by simp)
      have hpos : 0 < digitValue d := by
        refine Nat.pos_of_ne_zero fun h => ?_
        have hd0 : d = '0' := by rw [← digitChar_digitValue hd, h]; rfl
        rcases hzero with hlen | hhead
        · simp at hlen
        · exact hhead (by simp [hd0])
      rw [← Nat.toDigits_append_toDigits (by decide) (valueIn_pos hpos) hlt, Nat.toDigits_of_lt_base hlt,
        digitChar_digitValue hc]
      congr 1
      refine ih (List.cons_ne_nil _ _) (fun e he => hds e (List.mem_append_left _ he)) (.inr ?_)
      rcases hzero with hlen | hhead
      · simp at hlen
      · simpa using hhead

/-- Digits stand for less than there are texts of their length. -/
theorem valueIn_lt_pow {base : Nat} {ds : List Char} (hds : ∀ c ∈ ds, isDigitIn base c = true) :
    valueIn base ds < base ^ ds.length := by
  induction ds using List.reverseRecOn with
  | nil => exact Nat.one_pos
  | append_singleton ds c ih =>
    have hc : digitValue c < base := of_decide_eq_true (hds c (by simp))
    have hlt := ih fun e he => hds e (by simp [he])
    rw [valueIn_concat, List.length_append, List.length_singleton, Nat.pow_succ, Nat.mul_comm (base ^ ds.length)]
    calc base * valueIn base ds + digitValue c < base * valueIn base ds + base := by omega
      _ = base * (valueIn base ds + 1) := rfl
      _ ≤ base * base ^ ds.length := Nat.mul_le_mul_left base hlt

theorem readCount_eq_some_iff {limit n : Nat} {s : List Char} : readCount limit s = some n ↔
    ∃ sign digits, s = sign ++ digits ∧ (sign = [] ∨ sign = ['+']) ∧ readDigits 10 limit digits = some n := by
  constructor
  · intro h
    unfold readCount at h
    split at h
    · exact ⟨['+'], _, rfl, .inr rfl, h⟩
    · exact ⟨[], s, rfl, .inl rfl, h⟩
  · rintro ⟨sign, digits, rfl, rfl | rfl, h⟩
    · unfold readCount
      split
      · rename_i ds hds
        obtain rfl : digits = '+' :: ds := hds
        exact absurd (isDigitIn_of_readDigits h (List.mem_cons_self ..)) (by decide)
      · exact h
    · exact h

theorem readDigits_eq_some_iff {limit n : Nat} {s : List Char} : readDigits 10 limit s = some n ↔
    s ≠ [] ∧ (∀ c ∈ s, c.isDigit = true) ∧ valueIn 10 s ≤ limit ∧ valueIn 10 s = n := by
  simp [readDigits, isDigitIn, isDigit_iff_digitValue, and_assoc]

/-! ## Fields -/

theorem fields_eq_splitOn (sep : Char) (s : List Char) : fields sep s = s.splitOn sep := by
  induction s with
  | nil => rfl
  | cons c r ih =>
    obtain ⟨f, fs, hfs⟩ := List.exists_cons_of_ne_nil (List.splitOn_ne_nil sep r)
    rw [List.splitOn_cons_eq_if_modifyHead, fields, ih, hfs]
    simp only [beq_iff_eq, List.modifyHead_cons]

theorem intercalate_fields (sep : Char) (s : List Char) : [sep].intercalate (fields sep s) = s := by
  rw [fields_eq_splitOn, List.intercalate_splitOn]

theorem fields_intercalate {sep : Char} {fs : List (List Char)} (hne : fs ≠ []) (hfs : ∀ f ∈ fs, sep ∉ f) :
    fields sep ([sep].intercalate fs) = fs := by
  rw [fields_eq_splitOn, List.splitOn_intercalate sep hfs hne]

/-! ## Pairs -/

theorem cutPair_eq_none {x y : Char} {s : List Char} (hs : x ∉ s) : cutPair x y s = none := by
  cases h : cutPair x y s with
  | none => rfl
  | some p => exact absurd (by rw [cutPair_eq_some h]; simp) hs

/-- An `x` that no `y` follows does not count. -/
theorem cutPair_skip {x y : Char} {a b : List Char} (ha : x ∉ a) (hb : b.head? ≠ some y) :
    cutPair x y (a ++ x :: b) = (cutPair x y b).map fun p => (a ++ x :: p.1, p.2) := by
  induction a with
  | nil =>
    cases b with
    | nil => rfl
    | cons d b =>
      have hd : d ≠ y := fun h => hb (congrArg some h)
      simp [cutPair, hd]
  | cons c a ih =>
    obtain ⟨hc, ha⟩ := not_or.1 (mt List.mem_cons.2 ha)
    have hstep : cutPair x y (c :: (a ++ x :: b)) = (cutPair x y (a ++ x :: b)).map fun p => (c :: p.1, p.2) := by
      cases a with
      | nil => simp [cutPair, Ne.symm hc]
      | cons d a => simp [cutPair, Ne.symm hc]
    rw [List.cons_append, hstep, ih ha, Option.map_map]
    rfl

/-! ## Words -/

/-- The words of a text are what stands between its blanks, where anything does. -/
theorem words_eq_splitOnP (s : List Char) : words s = (s.splitOnP isBlank).filter fun w => !w.isEmpty := by
  induction s with
  | nil => rfl
  | cons c r ih =>
    rw [List.splitOnP_cons_eq_if_modifyHead]
    by_cases hc : isBlank c = true
    · rw [words_cons_of_blank hc, if_pos hc, ih]
      rfl
    · rw [words_cons_of_not_blank hc, if_neg hc, ih]
      cases r with
      | nil => rfl
      | cons d r =>
        rw [List.splitOnP_cons_eq_if_modifyHead]
        by_cases hd : isBlank d = true
        · simp [hd]
        · obtain ⟨f, fs, hfs⟩ := List.exists_cons_of_ne_nil (List.splitOnP_ne_nil isBlank r)
          simp [hd, hfs]

/-- A blank parts words. -/
theorem words_append_cons {c : Char} (hc : isBlank c = true) (s t : List Char) :
    words (s ++ c :: t) = words s ++ words t := by
  simp only [words_eq_splitOnP, List.splitOnP_append_cons s t hc, List.filter_append]

theorem words_of_not_isBlank {w : List Char} (hne : w ≠ []) (hw : ∀ c ∈ w, isBlank c = false) : words w = [w] := by
  rw [words_eq_splitOnP, List.splitOnP_eq_singleton hw]
  simp [hne]

/-- Blanks before a text are no part of its words. -/
theorem words_blank_append {t : List Char} (ht : ∀ c ∈ t, isBlank c = true) (s : List Char) :
    words (t ++ s) = words s := by
  induction t with
  | nil => rfl
  | cons c t ih =>
    obtain ⟨hc, ht⟩ := List.forall_mem_cons.1 ht
    rw [List.cons_append, words_cons_of_blank hc, ih ht]

theorem words_trim (s : List Char) : words (trim s) = words s := by
  obtain ⟨t, hs, ht⟩ := dropEnd_split isBlank (s.dropWhile isBlank)
  calc words (trim s) = words (trim s ++ t) := (words_append_blank _ ht).symm
    _ = words (s.dropWhile isBlank) := congrArg words hs.symm
    _ = words (s.takeWhile isBlank ++ s.dropWhile isBlank) :=
      (words_blank_append (fun _ hc => List.mem_takeWhile_imp hc) _).symm
    _ = words s := by rw [List.takeWhile_append_dropWhile]

theorem words_ne_nil {c : Char} (hc : isBlank c = false) (s : List Char) : words (c :: s) ≠ [] := by
  rw [words_cons_of_not_blank (by simp [hc])]
  cases s with
  | nil => exact List.cons_ne_nil _ _
  | cons d s =>
    simp only
    split
    · exact List.cons_ne_nil _ _
    · split <;> exact List.cons_ne_nil _ _

/-- Only blanks have no words. -/
theorem words_eq_nil_iff {s : List Char} : words s = [] ↔ ∀ c ∈ s, isBlank c = true := by
  constructor
  · intro h
    induction s with
    | nil => exact fun c hc => absurd hc List.not_mem_nil
    | cons c s ih =>
      cases hc : isBlank c with
      | false => exact absurd h (words_ne_nil hc s)
      | true =>
        rw [words_cons_of_blank hc] at h
        exact List.forall_mem_cons.2 ⟨hc, ih h⟩
  · exact words_of_blank

theorem dropEnd_cons {p : Char → Bool} {c : Char} (hc : p c = false) (s : List Char) :
    dropEnd p (c :: s) = c :: dropEnd p s := by
  have hstay : [c].dropWhile p = [c] := List.dropWhile_cons_of_neg (by simp [hc])
  unfold dropEnd
  rw [List.reverse_cons, List.dropWhile_append, hstay]
  split
  · rename_i hnil
    rw [List.isEmpty_iff.1 hnil]
    rfl
  · rw [List.reverse_append]
    rfl

theorem trim_cons_of_blank {c : Char} (hc : isBlank c = true) (s : List Char) : trim (c :: s) = trim s := by
  unfold trim
  rw [List.dropWhile_cons_of_pos hc]

theorem trim_cons_of_not_blank {c : Char} (hc : isBlank c = false) (s : List Char) :
    trim (c :: s) = c :: dropEnd isBlank s := by
  unfold trim
  rw [List.dropWhile_cons_of_neg (by simp [hc]), dropEnd_cons hc]

/-- A text of one word is that word when it is trimmed. -/
theorem trim_of_words {s w : List Char} (h : words s = [w]) : trim s = w := by
  induction s generalizing w with
  | nil => cases h
  | cons c s ih =>
    cases hc : isBlank c with
    | true =>
      rw [words_cons_of_blank hc] at h
      rw [trim_cons_of_blank hc, ih h]
    | false =>
      rw [trim_cons_of_not_blank hc]
      rw [words_cons_of_not_blank (by simp [hc])] at h
      cases s with
      | nil => exact (List.cons.inj h).1
      | cons d s =>
        cases hd : isBlank d with
        | true =>
          -- the word is the first character, and the rest is blank
          simp only [hd, ↓reduceIte] at h
          obtain ⟨rfl, hrest⟩ := List.cons.inj h
          exact congrArg (c :: ·) (dropEnd_append [] (words_eq_nil_iff.1 hrest))
        | false =>
          simp only [hd, Bool.false_eq_true, ↓reduceIte] at h
          cases hwords : words (d :: s) with
          | nil => exact absurd hwords (words_ne_nil hd s)
          | cons v vs =>
            rw [hwords] at h
            obtain ⟨rfl, rfl⟩ := List.cons.inj h
            rw [dropEnd_cons hd, ← trim_cons_of_not_blank hd, ih hwords]

theorem words_intercalate {ws : List (List Char)} (hws : ∀ w ∈ ws, w ≠ [] ∧ ∀ c ∈ w, isBlank c = false) :
    words ([' '].intercalate ws) = ws := by
  induction ws with
  | nil => rfl
  | cons w ws ih =>
    have hw : words w = [w] := words_of_not_isBlank (hws w (by simp)).1 (hws w (by simp)).2
    cases ws with
    | nil => rw [List.intercalate_singleton, hw]
    | cons v ws =>
      rw [List.intercalate_cons_cons, List.append_assoc, List.singleton_append,
        words_append_cons (by decide), hw, ih fun u hu => hws u (List.mem_cons_of_mem _ hu)]
      rfl

end SessionRouting.Text
