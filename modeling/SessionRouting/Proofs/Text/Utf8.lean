/-
UTF-8 there and back: the bytes of a text are read as the text, and no other bytes are, `decode_eq_ok_iff`. The bytes
of a character are its own, so that a line feed among the bytes of a text is one in the text, and bytes of a text that
are cut off are read as the beginning of the text or end inside a character, `decodeFrom_of_isPrefix`.
-/
import SessionRouting.Text.Utf8
import Mathlib.Tactic.SplitIfs

namespace SessionRouting.Text.Utf8

/-! ## One character -/

theorem toNat_byte {n : Nat} (hn : n < 256) : (UInt8.ofNat n).toNat = n := by
  rw [UInt8.toNat_ofNat', Nat.mod_eq_of_lt hn]

/-- The numbers of characters: all up to 0x10FFFF but those from 0xD800 to 0xDFFF. -/
theorem toNat_valid (c : Char) : c.toNat < 0xD800 ∨ (0xDFFF < c.toNat ∧ c.toNat < 0x110000) := c.valid

theorem readTail_cons {code read count low high : Nat} {b : UInt8} {r : List UInt8}
    (hb : low ≤ b.toNat ∧ b.toNat ≤ high) : readTail code read (count + 1) (low, high) (b :: r) =
      readTail (64 * code + (b.toNat - 0x80)) (read + 1) count (0x80, 0xBF) r := by
  rw [readTail, if_pos hb]

/-- The bytes of a character and their values, by their number. -/
theorem bytes_cases (c : Char) :
    (c.toNat ≤ 0x7F ∧ ∃ b, String.utf8EncodeChar c = [b] ∧ b.toNat = c.toNat) ∨
    (0x80 ≤ c.toNat ∧ c.toNat ≤ 0x7FF ∧ ∃ b₁ b₂, String.utf8EncodeChar c = [b₁, b₂] ∧
      b₁.toNat = c.toNat / 64 + 0xC0 ∧ b₂.toNat = c.toNat % 64 + 0x80) ∨
    (0x800 ≤ c.toNat ∧ c.toNat ≤ 0xFFFF ∧ ∃ b₁ b₂ b₃, String.utf8EncodeChar c = [b₁, b₂, b₃] ∧
      b₁.toNat = c.toNat / 4096 + 0xE0 ∧ b₂.toNat = c.toNat / 64 % 64 + 0x80 ∧ b₃.toNat = c.toNat % 64 + 0x80) ∨
    (0x10000 ≤ c.toNat ∧ ∃ b₁ b₂ b₃ b₄, String.utf8EncodeChar c = [b₁, b₂, b₃, b₄] ∧
      b₁.toNat = c.toNat / 262144 + 0xF0 ∧ b₂.toNat = c.toNat / 4096 % 64 + 0x80 ∧
      b₃.toNat = c.toNat / 64 % 64 + 0x80 ∧ b₄.toNat = c.toNat % 64 + 0x80) := by
  have hv := toNat_valid c
  have hcode : c.val.toNat = c.toNat := rfl
  unfold String.utf8EncodeChar
  simp only [hcode]
  generalize c.toNat = v at hv
  split
  · exact .inl ⟨by omega, _, rfl, toNat_byte (by omega)⟩
  · split
    · refine .inr (.inl ⟨by omega, by omega, _, _, rfl, ?_, toNat_byte (by omega)⟩)
      rw [toNat_byte (by omega)]
      omega
    · split
      · refine .inr (.inr (.inl ⟨by omega, by omega, _, _, _, rfl, ?_, toNat_byte (by omega), toNat_byte (by omega)⟩))
        rw [toNat_byte (by omega)]
        omega
      · refine .inr (.inr (.inr ⟨by omega, _, _, _, _, rfl, ?_, toNat_byte (by omega), toNat_byte (by omega),
          toNat_byte (by omega)⟩))
        rw [toNat_byte (by omega)]
        omega

variable {c : Char} (rest : List UInt8)

theorem decodeChar_one {b : UInt8} (h : c.toNat ≤ 0x7F) (hb : b.toNat = c.toNat) :
    decodeChar b rest = .ok (c, 0) := by
  have htail : tailLength b.toNat = some 0 := by
    unfold tailLength
    rw [if_pos (by omega)]
  simp only [decodeChar, htail, readTail, if_true]
  rw [hb, Char.ofNat_toNat]

theorem decodeChar_two {b₁ b₂ : UInt8} (hlo : 0x80 ≤ c.toNat) (hhi : c.toNat ≤ 0x7FF)
    (h1 : b₁.toNat = c.toNat / 64 + 0xC0) (h2 : b₂.toNat = c.toNat % 64 + 0x80) :
    decodeChar b₁ (b₂ :: rest) = .ok (c, 1) := by
  have htail : tailLength b₁.toNat = some 1 := by
    unfold tailLength
    rw [if_neg (by omega), if_pos (by omega)]
  have hsecond : secondRange b₁.toNat = (0x80, 0xBF) := by
    unfold secondRange
    rw [if_neg (by omega), if_neg (by omega), if_neg (by omega), if_neg (by omega)]
  have hcode : 64 * (b₁.toNat - 0xC0) + (b₂.toNat - 0x80) = c.toNat := by omega
  simp only [decodeChar, htail, hsecond]
  rw [readTail_cons (by omega)]
  simp [readTail, hcode, Char.ofNat_toNat]

/-- The second byte is told apart from those of surrogates and of longer forms than needed. -/
theorem decodeChar_three {b₁ b₂ b₃ : UInt8} (hlo : 0x800 ≤ c.toNat) (hhi : c.toNat ≤ 0xFFFF)
    (h1 : b₁.toNat = c.toNat / 4096 + 0xE0) (h2 : b₂.toNat = c.toNat / 64 % 64 + 0x80)
    (h3 : b₃.toNat = c.toNat % 64 + 0x80) : decodeChar b₁ (b₂ :: b₃ :: rest) = .ok (c, 2) := by
  have hv := toNat_valid c
  have htail : tailLength b₁.toNat = some 2 := by
    unfold tailLength
    rw [if_neg (by omega), if_neg (by omega), if_pos (by omega)]
  have hsecond : (secondRange b₁.toNat).1 ≤ b₂.toNat ∧ b₂.toNat ≤ (secondRange b₁.toNat).2 := by
    unfold secondRange
    split
    · simp only; omega
    · split
      · simp only; omega
      · rw [if_neg (by omega), if_neg (by omega)]
        simp only
        omega
  have hcode : 64 * (64 * (b₁.toNat - 0xE0) + (b₂.toNat - 0x80)) + (b₃.toNat - 0x80) = c.toNat := by omega
  simp only [decodeChar, htail]
  rw [readTail_cons hsecond, readTail_cons (by omega)]
  simp [readTail, hcode, Char.ofNat_toNat]

theorem decodeChar_four {b₁ b₂ b₃ b₄ : UInt8} (hlo : 0x10000 ≤ c.toNat) (h1 : b₁.toNat = c.toNat / 262144 + 0xF0)
    (h2 : b₂.toNat = c.toNat / 4096 % 64 + 0x80) (h3 : b₃.toNat = c.toNat / 64 % 64 + 0x80)
    (h4 : b₄.toNat = c.toNat % 64 + 0x80) : decodeChar b₁ (b₂ :: b₃ :: b₄ :: rest) = .ok (c, 3) := by
  have hv := toNat_valid c
  have htail : tailLength b₁.toNat = some 3 := by
    unfold tailLength
    rw [if_neg (by omega), if_neg (by omega), if_neg (by omega), if_pos (by omega)]
  have hsecond : (secondRange b₁.toNat).1 ≤ b₂.toNat ∧ b₂.toNat ≤ (secondRange b₁.toNat).2 := by
    unfold secondRange
    rw [if_neg (by omega), if_neg (by omega)]
    split
    · simp only; omega
    · split
      · simp only; omega
      · simp only; omega
  have hcode : 64 * (64 * (64 * (b₁.toNat - 0xF0) + (b₂.toNat - 0x80)) + (b₃.toNat - 0x80)) + (b₄.toNat - 0x80) =
      c.toNat := by omega
  simp only [decodeChar, htail]
  rw [readTail_cons hsecond, readTail_cons (by omega), readTail_cons (by omega)]
  simp [readTail, hcode, Char.ofNat_toNat]

/-- The bytes of a character are read as the character, whatever comes after them. -/
theorem decodeChar_encode (c : Char) : ∃ b tail, String.utf8EncodeChar c = b :: tail ∧
    ∀ rest, decodeChar b (tail ++ rest) = .ok (c, tail.length) := by
  rcases bytes_cases c with ⟨h, b, he, hb⟩ | ⟨hlo, hhi, b₁, b₂, he, h1, h2⟩ |
    ⟨hlo, hhi, b₁, b₂, b₃, he, h1, h2, h3⟩ | ⟨hlo, b₁, b₂, b₃, b₄, he, h1, h2, h3, h4⟩
  · exact ⟨b, [], he, fun rest => decodeChar_one rest h hb⟩
  · exact ⟨b₁, [b₂], he, fun rest => decodeChar_two rest hlo hhi h1 h2⟩
  · exact ⟨b₁, [b₂, b₃], he, fun rest => decodeChar_three rest hlo hhi h1 h2 h3⟩
  · exact ⟨b₁, [b₂, b₃, b₄], he, fun rest => decodeChar_four rest hlo h1 h2 h3 h4⟩

/-! ## What is read as a character -/

theorem toNat_ofNat {n : Nat} (hn : n.isValidChar) : (Char.ofNat n).toNat = n := by
  unfold Char.ofNat
  rw [dif_pos hn]
  rfl

theorem utf8EncodeChar_one {b : UInt8} (hb : b.toNat < 0x80) :
    String.utf8EncodeChar (Char.ofNat b.toNat) = [b] := by
  have hc : (Char.ofNat b.toNat).toNat = b.toNat := toNat_ofNat (.inl (by omega))
  rcases bytes_cases (Char.ofNat b.toNat) with ⟨-, b', he, hb'⟩ | h | h | h
  · rw [he, UInt8.toNat_inj.1 (hb'.trans hc)]
  all_goals omega

theorem utf8EncodeChar_two {b₁ b₂ : UInt8} (h1 : 0xC2 ≤ b₁.toNat ∧ b₁.toNat ≤ 0xDF)
    (h2 : 0x80 ≤ b₂.toNat ∧ b₂.toNat ≤ 0xBF) :
    String.utf8EncodeChar (Char.ofNat (64 * (b₁.toNat - 0xC0) + (b₂.toNat - 0x80))) = [b₁, b₂] := by
  have hc := toNat_ofNat (n := 64 * (b₁.toNat - 0xC0) + (b₂.toNat - 0x80)) (.inl (by omega))
  generalize Char.ofNat _ = c at hc ⊢
  rcases bytes_cases c with h | ⟨-, -, b₁', b₂', he, h1', h2'⟩ | h | h
  · omega
  · have hb₁ : b₁' = b₁ := UInt8.toNat_inj.1 (by omega)
    have hb₂ : b₂' = b₂ := UInt8.toNat_inj.1 (by omega)
    rw [he, hb₁, hb₂]
  all_goals omega

/-- Neither a longer form than needed nor a surrogate. -/
theorem utf8EncodeChar_three {b₁ b₂ b₃ : UInt8} (h1 : 0xE0 ≤ b₁.toNat ∧ b₁.toNat ≤ 0xEF)
    (h2 : 0x80 ≤ b₂.toNat ∧ b₂.toNat ≤ 0xBF) (h3 : 0x80 ≤ b₃.toNat ∧ b₃.toNat ≤ 0xBF)
    (hlow : b₁.toNat = 0xE0 → 0xA0 ≤ b₂.toNat) (hhigh : b₁.toNat = 0xED → b₂.toNat ≤ 0x9F) :
    String.utf8EncodeChar (Char.ofNat
      (64 * (64 * (b₁.toNat - 0xE0) + (b₂.toNat - 0x80)) + (b₃.toNat - 0x80))) = [b₁, b₂, b₃] := by
  have hc := toNat_ofNat (n := 64 * (64 * (b₁.toNat - 0xE0) + (b₂.toNat - 0x80)) + (b₃.toNat - 0x80))
    (by unfold Nat.isValidChar; omega)
  generalize Char.ofNat _ = c at hc ⊢
  rcases bytes_cases c with h | h | ⟨-, -, b₁', b₂', b₃', he, h1', h2', h3'⟩ | h
  · omega
  · omega
  · have hb₁ : b₁' = b₁ := UInt8.toNat_inj.1 (by omega)
    have hb₂ : b₂' = b₂ := UInt8.toNat_inj.1 (by omega)
    have hb₃ : b₃' = b₃ := UInt8.toNat_inj.1 (by omega)
    rw [he, hb₁, hb₂, hb₃]
  · omega

/-- Neither a longer form than needed nor beyond the last character. -/
theorem utf8EncodeChar_four {b₁ b₂ b₃ b₄ : UInt8} (h1 : 0xF0 ≤ b₁.toNat ∧ b₁.toNat ≤ 0xF4)
    (h2 : 0x80 ≤ b₂.toNat ∧ b₂.toNat ≤ 0xBF) (h3 : 0x80 ≤ b₃.toNat ∧ b₃.toNat ≤ 0xBF)
    (h4 : 0x80 ≤ b₄.toNat ∧ b₄.toNat ≤ 0xBF) (hlow : b₁.toNat = 0xF0 → 0x90 ≤ b₂.toNat)
    (hhigh : b₁.toNat = 0xF4 → b₂.toNat ≤ 0x8F) :
    String.utf8EncodeChar (Char.ofNat (64 * (64 * (64 * (b₁.toNat - 0xF0) + (b₂.toNat - 0x80)) + (b₃.toNat - 0x80)) +
      (b₄.toNat - 0x80))) = [b₁, b₂, b₃, b₄] := by
  have hc := toNat_ofNat
    (n := 64 * (64 * (64 * (b₁.toNat - 0xF0) + (b₂.toNat - 0x80)) + (b₃.toNat - 0x80)) + (b₄.toNat - 0x80))
    (by unfold Nat.isValidChar; omega)
  generalize Char.ofNat _ = c at hc ⊢
  rcases bytes_cases c with h | h | h | ⟨-, b₁', b₂', b₃', b₄', he, h1', h2', h3', h4'⟩
  · omega
  · omega
  · omega
  · have hb₁ : b₁' = b₁ := UInt8.toNat_inj.1 (by omega)
    have hb₂ : b₂' = b₂ := UInt8.toNat_inj.1 (by omega)
    have hb₃ : b₃' = b₃ := UInt8.toNat_inj.1 (by omega)
    have hb₄ : b₄' = b₄ := UInt8.toNat_inj.1 (by omega)
    rw [he, hb₁, hb₂, hb₃, hb₄]

theorem tailLength_cases {first count : Nat} (h : tailLength first = some count) :
    (count = 0 ∧ first < 0x80) ∨ (count = 1 ∧ 0xC2 ≤ first ∧ first ≤ 0xDF) ∨
      (count = 2 ∧ 0xE0 ≤ first ∧ first ≤ 0xEF) ∨ (count = 3 ∧ 0xF0 ≤ first ∧ first ≤ 0xF4) := by
  unfold tailLength at h
  split_ifs at h <;> cases h <;> omega

/-- The second byte leaves out longer forms than needed, surrogates, and what is beyond the last character. -/
theorem secondRange_bounds (first : Nat) :
    0x80 ≤ (secondRange first).1 ∧ (secondRange first).2 ≤ 0xBF ∧
      (first = 0xE0 → 0xA0 ≤ (secondRange first).1) ∧ (first = 0xED → (secondRange first).2 ≤ 0x9F) ∧
      (first = 0xF0 → 0x90 ≤ (secondRange first).1) ∧ (first = 0xF4 → (secondRange first).2 ≤ 0x8F) := by
  unfold secondRange
  split_ifs <;> simp only <;> omega

theorem exists_of_readTail_succ {code read count v : Nat} {range : Nat × Nat} {r : List UInt8}
    (h : readTail code read (count + 1) range r = .ok v) :
    ∃ b s, r = b :: s ∧ (range.1 ≤ b.toNat ∧ b.toNat ≤ range.2) ∧
      readTail (64 * code + (b.toNat - 0x80)) (read + 1) count (0x80, 0xBF) s = .ok v := by
  cases r with
  | nil => cases h
  | cons b s =>
    unfold readTail at h
    split at h
    · rename_i hb
      exact ⟨b, s, rfl, hb, h⟩
    · cases h

theorem eq_of_readTail_zero {code read v : Nat} {range : Nat × Nat} {r : List UInt8}
    (h : readTail code read 0 range r = .ok v) : code = v := by
  unfold readTail at h
  exact Except.ok.inj h

/-- What is read as a character are its bytes. -/
theorem exists_of_decodeChar {b : UInt8} {r : List UInt8} {c : Char} {n : Nat} (h : decodeChar b r = .ok (c, n)) :
    ∃ tail rest, r = tail ++ rest ∧ tail.length = n ∧ String.utf8EncodeChar c = b :: tail := by
  obtain ⟨hlow, hhigh, hlow₃, hhigh₃, hlow₄, hhigh₄⟩ := secondRange_bounds b.toNat
  unfold decodeChar at h
  cases htail : tailLength b.toNat with
  | none =>
    simp only [htail] at h
    cases h
  | some count =>
    simp only [htail] at h
    split at h
    · rename_i v hv
      cases h
      rcases tailLength_cases htail with ⟨rfl, h1⟩ | ⟨rfl, h1⟩ | ⟨rfl, h1⟩ | ⟨rfl, h1⟩
      · obtain rfl := eq_of_readTail_zero hv
        exact ⟨[], r, rfl, rfl, utf8EncodeChar_one h1⟩
      · obtain ⟨b₂, s, rfl, h2, hv⟩ := exists_of_readTail_succ hv
        obtain rfl := eq_of_readTail_zero hv
        exact ⟨[b₂], s, rfl, rfl, utf8EncodeChar_two h1 (by omega)⟩
      · obtain ⟨b₂, s, rfl, h2, hv⟩ := exists_of_readTail_succ hv
        obtain ⟨b₃, s, rfl, h3, hv⟩ := exists_of_readTail_succ hv
        obtain rfl := eq_of_readTail_zero hv
        exact ⟨[b₂, b₃], s, rfl, rfl, utf8EncodeChar_three h1 (by omega) h3 (by omega) (by omega)⟩
      · obtain ⟨b₂, s, rfl, h2, hv⟩ := exists_of_readTail_succ hv
        obtain ⟨b₃, s, rfl, h3, hv⟩ := exists_of_readTail_succ hv
        obtain ⟨b₄, s, rfl, h4, hv⟩ := exists_of_readTail_succ hv
        obtain rfl := eq_of_readTail_zero hv
        exact ⟨[b₂, b₃, b₄], s, rfl, rfl, utf8EncodeChar_four h1 (by omega) h3 h4 (by omega) (by omega)⟩
    · cases h

/-! ## Texts -/

theorem encode_cons_eq (c : Char) (s : List Char) : encode (c :: s) = String.utf8EncodeChar c ++ encode s :=
  List.flatMap_cons

theorem encode_append (s t : List Char) : encode (s ++ t) = encode s ++ encode t := List.flatMap_append

/-- The bytes of a text that is not empty, and what is read of bytes that begin as they do. -/
theorem encode_cons (c : Char) : ∃ b tail, (∀ s, encode (c :: s) = b :: (tail ++ encode s)) ∧
    ∀ rest, decodeChar b (tail ++ rest) = .ok (c, tail.length) := by
  obtain ⟨b, tail, hbytes, hchar⟩ := decodeChar_encode c
  refine ⟨b, tail, fun s => ?_, hchar⟩
  rw [encode_cons_eq, hbytes]
  rfl

theorem decodeFrom_encode (index : Nat) (s : List Char) : decodeFrom index (encode s) = .ok s := by
  induction s generalizing index with
  | nil =>
    unfold encode
    rw [List.flatMap_nil, decodeFrom]
  | cons c s ih =>
    obtain ⟨b, tail, hcons, hchar⟩ := encode_cons c
    rw [hcons, decodeFrom]
    simp only [hchar, List.drop_left, ih]

/-- The bytes of a text are read as the text. -/
theorem decode_encode (s : List Char) : decode (encode s) = .ok s := decodeFrom_encode 0 s

theorem eq_encode_of_decodeFrom {index : Nat} {bytes : List UInt8} {s : List Char}
    (h : decodeFrom index bytes = .ok s) : bytes = encode s := by
  induction index, bytes using decodeFrom.induct generalizing s with
  | case1 index =>
    rw [decodeFrom] at h
    cases h
    rfl
  | case2 index b r cause hchar =>
    rw [decodeFrom, hchar] at h
    cases h
  | case3 index b r c n hchar cs hrest ih =>
    obtain ⟨tail, rest, rfl, rfl, hc⟩ := exists_of_decodeChar hchar
    rw [decodeFrom, hchar] at h
    simp only [hrest] at h
    cases h
    rw [List.drop_left] at ih hrest
    rw [ih hrest, encode_cons_eq, hc]
    rfl
  | case4 index b r c n hchar e hrest ih =>
    rw [decodeFrom, hchar] at h
    simp only [hrest] at h
    cases h

/-- Bytes are read as a text exactly if they are the bytes of the text. -/
theorem decode_eq_ok_iff {bytes : List UInt8} {s : List Char} : decode bytes = .ok s ↔ bytes = encode s := by
  constructor
  · exact eq_encode_of_decodeFrom
  · rintro rfl
    exact decode_encode s

/-- A small byte in a text is the character with that number. -/
theorem mem_of_mem_encode {s : List Char} {c : Char} (hc : c.toNat < 0x80)
    (h : UInt8.ofNat c.toNat ∈ encode s) : c ∈ s := by
  obtain ⟨d, hd, hb⟩ := List.mem_flatMap.1 h
  have hbyte : (UInt8.ofNat c.toNat).toNat = c.toNat := toNat_byte (by omega)
  generalize UInt8.ofNat c.toNat = b at hb hbyte
  suffices hnat : d.toNat = c.toNat by
    rwa [← Char.ofNat_toNat c, ← hnat, Char.ofNat_toNat]
  rcases bytes_cases d with ⟨-, b₁, he, h1⟩ | ⟨hlo, -, b₁, b₂, he, h1, h2⟩ | ⟨hlo, -, b₁, b₂, b₃, he, h1, h2, h3⟩ |
    ⟨hlo, b₁, b₂, b₃, b₄, he, h1, h2, h3, h4⟩
  all_goals
    rw [he] at hb
    simp only [List.mem_cons, List.not_mem_nil, or_false] at hb
  · rw [← h1, ← hb, hbyte]
  · rcases hb with rfl | rfl <;> omega
  · rcases hb with rfl | rfl | rfl <;> omega
  · rcases hb with rfl | rfl | rfl | rfl <;> omega

/-- A text whose first byte is a small one begins with the character with that number, which has no other bytes. -/
theorem exists_of_head?_encode {s : List Char} {b : UInt8} (hb : b.toNat < 0x80) (h : (encode s).head? = some b) :
    ∃ r, s = Char.ofNat b.toNat :: r ∧ encode s = b :: encode r := by
  cases s with
  | nil => cases h
  | cons c r =>
    have hbytes : String.utf8EncodeChar c = [b] ∧ c.toNat = b.toNat := by
      rw [encode_cons_eq] at h
      rcases bytes_cases c with ⟨-, b₁, he, h1⟩ | ⟨hlo, -, b₁, b₂, he, h1, -⟩ | ⟨hlo, -, b₁, b₂, b₃, he, h1, -, -⟩ |
        ⟨hlo, b₁, b₂, b₃, b₄, he, h1, -, -, -⟩
      all_goals
        rw [he] at h
        obtain rfl : b₁ = b := Option.some.inj h
      · exact ⟨he, h1.symm⟩
      all_goals omega
    rw [encode_cons_eq, hbytes.1, ← hbytes.2, Char.ofNat_toNat]
    exact ⟨r, rfl, rfl⟩

/-! ## Texts that are cut off -/

/-- Bytes that stop before the last one of a character are cut short. -/
theorem readTail_truncated {code read count v : Nat} {range : Nat × Nat} {r s : List UInt8}
    (h : readTail code read count range r = .ok v) (hs : s <+: r) (hlen : s.length < count) :
    readTail code read count range s = .error .truncated := by
  -- on the number of bytes to come; the range of the next one changes after the first
  induction count generalizing code read range r s with
  | zero => exact absurd hlen (Nat.not_lt_zero _)
  | succ count ih =>
    cases s with
    | nil => rfl
    | cons b s =>
      obtain ⟨q, rfl⟩ := hs
      rw [List.cons_append] at h
      unfold readTail at h ⊢
      split at h
      · rename_i hb
        rw [if_pos hb]
        exact ih h (List.prefix_append ..) (Nat.lt_of_succ_lt_succ hlen)
      · cases h

theorem decodeChar_truncated {b : UInt8} {r s : List UInt8} {c : Char} {n : Nat} (h : decodeChar b r = .ok (c, n))
    (hs : s <+: r) (hlen : s.length < n) : decodeChar b s = .error .truncated := by
  unfold decodeChar at h ⊢
  cases htail : tailLength b.toNat with
  | none =>
    simp only [htail] at h
    cases h
  | some count =>
    simp only [htail] at h ⊢
    split at h
    · rename_i code hcode
      cases h
      rw [readTail_truncated hcode hs hlen]
    · cases h

/-- The beginning of the bytes of a text is read as the beginning of the text, or else it ends inside a character. -/
theorem decodeFrom_of_isPrefix (index : Nat) {s : List Char} {bytes : List UInt8} (h : bytes <+: encode s) :
    (∃ t, t <+: s ∧ bytes = encode t) ∨ ∃ i, decodeFrom index bytes = .error ⟨i, .truncated⟩ := by
  induction s generalizing index bytes with
  | nil => exact .inl ⟨[], List.prefix_rfl, List.prefix_nil.1 h⟩
  | cons c s ih =>
    obtain ⟨b, tail, hcons, hchar⟩ := encode_cons c
    cases bytes with
    | nil => exact .inl ⟨[], List.nil_prefix, rfl⟩
    | cons b' r =>
      rw [hcons, List.cons_prefix_cons] at h
      obtain ⟨rfl, hr⟩ := h
      rw [decodeFrom]
      by_cases hlen : r.length < tail.length
      · refine .inr ⟨index, ?_⟩
        simp only [decodeChar_truncated (hchar (encode s)) hr hlen]
      · -- The first character is whole, so that the bytes after it begin the rest of the text.
        obtain ⟨r, rfl⟩ : tail <+: r :=
          List.prefix_of_prefix_length_le (List.prefix_append ..) hr (Nat.le_of_not_lt hlen)
        rcases ih (index + tail.length + 1) ((List.prefix_append_right_inj tail).1 hr) with ⟨t, ht, rfl⟩ | ⟨i, hi⟩
        · exact .inl ⟨c :: t, List.cons_prefix_cons.2 ⟨rfl, ht⟩, (hcons t).symm⟩
        · refine .inr ⟨i, ?_⟩
          simp only [hchar, List.drop_left, hi]

theorem length_encode_pos {s : List Char} (hs : s ≠ []) : 0 < (encode s).length := by
  obtain ⟨c, s, rfl⟩ := List.exists_cons_of_ne_nil hs
  obtain ⟨b, tail, hcons, -⟩ := encode_cons c
  rw [hcons]
  exact Nat.zero_lt_succ _

end SessionRouting.Text.Utf8
