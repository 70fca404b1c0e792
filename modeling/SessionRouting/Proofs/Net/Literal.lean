/-
Literals of IP addresses: letters of either case write the same address (`Ipv6.read?_lower`), and every character of a
literal is a hexadecimal digit, a colon or a dot (`Ipv6.isLiteralChar_of_read?`).
-/
import SessionRouting.Net.Ip
import SessionRouting.Proofs.Text.Laws

namespace SessionRouting

open Text

/-- Every member is mapped if all are. -/
theorem exists_of_mapM_eq_some {α β : Type} {f : α → Option β} {l : List α} {ys : List β} (h : l.mapM f = some ys) :
    ∀ x ∈ l, ∃ y, f x = some y := by
  induction l generalizing ys with
  | nil => exact fun x hx => absurd hx List.not_mem_nil
  | cons a l ih =>
    simp only [List.mapM_cons, Option.bind_eq_bind, Option.bind_eq_some_iff] at h
    obtain ⟨b, hb, ys', hys, -⟩ := h
    intro x hx
    rcases List.mem_cons.1 hx with rfl | hx
    · exact ⟨b, hb⟩
    · exact ih hys x hx

namespace Net

theorem mapM_map_lower {α : Type} {f : List Char → Option α} (hf : ∀ s, f (lower s) = f s) (l : List (List Char)) :
    (l.map lower).mapM f = l.mapM f := by
  rw [List.mapM_map]
  exact congrArg (l.mapM ·) (funext hf)

namespace Ipv4

theorem readOctet_lower (s : List Char) : readOctet (lower s) = readOctet s := by
  have hhead : (lower s).head? = some '0' ↔ s.head? = some '0' := by
    cases s with
    | nil => simp [lower]
    | cons c r => simp [lower, toLower_eq_iff (show '0'.isAlpha = false by decide)]
  simp only [readOctet, readDigits_lower, ne_eq, hhead]
  simp only [lower, List.length_map]

theorem read?_lower (s : List Char) : read? (lower s) = read? s := by
  simp only [read?, fields_lower (show '.'.isAlpha = false by decide), List.length_map, mapM_map_lower readOctet_lower]

end Ipv4

/-- The characters of a literal are hexadecimal digits, colons and dots. -/
def isLiteralChar (c : Char) : Bool := isDigitIn 16 c || c == ':' || c == '.'

theorem isLiteralChar_range {c : Char} (hc : isLiteralChar c = true) : 0x20 < c.toNat ∧ c.toNat < 0x7F := by
  simp only [isLiteralChar, Bool.or_eq_true, beq_iff_eq] at hc
  rcases hc with (hc | rfl) | rfl
  · have hlt : digitValue c < 16 := of_decide_eq_true hc
    exact toNat_of_digitValue_lt (by omega)
  · decide
  · decide

theorem Ipv4.isLiteralChar_of_read? {s : List Char} {octets : List Nat} (h : read? s = some octets) {c : Char}
    (hc : c ∈ s) : isLiteralChar c = true := by
  unfold read? at h
  simp only at h
  split at h
  · rcases (mem_of_mem_fields hc : c = '.' ∨ _) with rfl | ⟨f, hf, hcf⟩
    · decide
    · obtain ⟨n, hn⟩ := exists_of_mapM_eq_some h f hf
      unfold readOctet at hn
      split at hn
      · have hdigit : digitValue c < 10 := of_decide_eq_true (isDigitIn_of_readDigits hn hcf)
        have hhex : isDigitIn 16 c = true := decide_eq_true (by omega)
        simp [isLiteralChar, hhex]
      · cases hn
  · cases h

namespace Ipv6

theorem readGroup_lower (s : List Char) : readGroup (lower s) = readGroup s := by
  simp only [readGroup, readDigits_lower]
  simp only [lower, List.length_map]

theorem readTail_lower (fs : List (List Char)) : readTail (fs.map lower) = readTail fs := by
  induction fs with
  | nil => rfl
  | cons f fs ih =>
    cases fs with
    | nil => simp only [List.map_cons, List.map_nil, readTail, readGroup_lower, Ipv4.read?_lower]
    | cons g fs =>
      simp only [List.map_cons] at ih ⊢
      simp only [readTail, readGroup_lower, ih]

theorem groupTexts_lower (s : List Char) : groupTexts (lower s) = (groupTexts s).map lower := by
  simp only [groupTexts, lower_eq_nil, fields_lower (show ':'.isAlpha = false by decide)]
  split <;> rfl

/-- Letters of either case write the same address. -/
theorem read?_lower (s : List Char) : read? (lower s) = read? s := by
  unfold read?
  rw [cutPair_lower (by decide) (by decide), groupTexts_lower, readTail_lower]
  cases cutPair ':' ':' s with
  | none => rfl
  | some p => simp only [Option.map_some, groupTexts_lower, readTail_lower, mapM_map_lower readGroup_lower]

theorem isLiteralChar_of_readGroup {s : List Char} {g : Nat} (h : readGroup s = some g) {c : Char} (hc : c ∈ s) :
    isLiteralChar c = true := by
  unfold readGroup at h
  split at h
  · simp [isLiteralChar, isDigitIn_of_readDigits h hc]
  · cases h

theorem isLiteralChar_of_readTail {fs : List (List Char)} {gs : List Nat} (h : readTail fs = some gs) :
    ∀ f ∈ fs, ∀ c ∈ f, isLiteralChar c = true := by
  induction fs generalizing gs with
  | nil => exact fun f hf => absurd hf List.not_mem_nil
  | cons f fs ih =>
    cases fs with
    | nil =>
      intro f' hf' c hc
      obtain rfl := List.mem_singleton.1 hf'
      unfold readTail at h
      split at h
      · rename_i g hg
        exact isLiteralChar_of_readGroup hg hc
      · split at h
        · rename_i hv4
          exact Ipv4.isLiteralChar_of_read? hv4 hc
        · cases h
    | cons g fs =>
      unfold readTail at h
      split at h
      · rename_i hg hgs
        intro f' hf' c hc
        rcases List.mem_cons.1 hf' with rfl | hf'
        · exact isLiteralChar_of_readGroup hg hc
        · exact ih hgs f' hf' c hc
      · cases h

theorem mem_of_mem_groupTexts {s : List Char} {c : Char} (hc : c ∈ s) : c = ':' ∨ ∃ f ∈ groupTexts s, c ∈ f := by
  unfold groupTexts
  rw [if_neg (List.ne_nil_of_mem hc)]
  exact mem_of_mem_fields hc

theorem isLiteralChar_of_groupTexts {s : List Char} (h : ∀ f ∈ groupTexts s, ∀ c ∈ f, isLiteralChar c = true) :
    ∀ c ∈ s, isLiteralChar c = true := by
  intro c hc
  rcases mem_of_mem_groupTexts hc with rfl | ⟨f, hf, hcf⟩
  · decide
  · exact h f hf c hcf

theorem isLiteralChar_of_read? {s : List Char} (h : (read? s).isSome = true) : ∀ c ∈ s, isLiteralChar c = true := by
  unfold read? at h
  split at h
  · split at h
    · rename_i hgs
      exact isLiteralChar_of_groupTexts (isLiteralChar_of_readTail hgs)
    · cases h
  · rename_i front back hcut
    split at h
    · rename_i hs ts hfront hback
      have h1 : ∀ c ∈ front, isLiteralChar c = true := by
        refine isLiteralChar_of_groupTexts fun f hf c hc => ?_
        obtain ⟨g, hg⟩ := exists_of_mapM_eq_some hfront f hf
        exact isLiteralChar_of_readGroup hg hc
      have h2 := isLiteralChar_of_groupTexts (isLiteralChar_of_readTail hback)
      intro c hc
      rw [cutPair_eq_some hcut] at hc
      simp only [List.mem_append, List.mem_cons] at hc
      rcases hc with hc | rfl | rfl | hc
      · exact h1 c hc
      · decide
      · decide
      · exact h2 c hc
    · cases h

end Ipv6

end Net

end SessionRouting
