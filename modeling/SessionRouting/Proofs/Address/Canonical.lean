/-
Canonical texts of addresses. What `Address.parse` reads is in order (`Canonical`), and an address in order is read
back from its text, so that the canonical text of an address is its own canonical text: `normalize_normalize`. A
canonical text holds no blanks.
-/
import SessionRouting.Address
import SessionRouting.Proofs.Net.Literal

namespace SessionRouting

open Text

namespace Address

/-- The host is a name, or a literal in brackets, in small letters, and the port is one that can be written. -/
structure Canonical (a : Address) : Prop where
  host : (isHostName a.host = true ∧ lower a.host = a.host) ∨
    ∃ literal, a.host = '[' :: literal ++ [']'] ∧ ']' ∉ literal ∧ lower literal = literal ∧
      (Net.Ipv6.read? literal).isSome = true
  port : 0 < a.port ∧ a.port ≤ 65535

theorem readPort_bounds {s : List Char} {n : Nat} (h : readPort s = some n) : 0 < n ∧ n ≤ 65535 := by
  unfold readPort at h
  split at h
  · cases h
  · rename_i hn
    refine ⟨Nat.pos_of_ne_zero ?_, readCount_le h⟩
    rintro rfl
    exact hn h

theorem readPort_decimal {n : Nat} (hn : 0 < n ∧ n ≤ 65535) : readPort (decimal n) = some n := by
  unfold readPort
  rw [readCount_decimal hn.2]
  split
  · rename_i h
    cases h
    omega
  · rfl

/-- The host with the port that is written after it, or with the usual one. -/
def withPort (text : String) (host : List Char) : Option (List Char) → Except Fault Address
  | none => .ok ⟨host, defaultPort⟩
  | some p =>
    match readPort p with
    | some n => .ok ⟨host, n⟩
    | none => .error (.port text)

theorem withPort_ok {text : String} {host : List Char} {port : Option (List Char)} {a : Address}
    (h : withPort text host port = .ok a) : a.host = host ∧ 0 < a.port ∧ a.port ≤ 65535 := by
  cases port with
  | none =>
    cases h
    exact ⟨rfl, Nat.succ_pos 21, (by decide : defaultPort ≤ 65535)⟩
  | some p =>
    unfold withPort at h
    simp only at h
    split at h
    · rename_i n hn
      cases h
      exact ⟨rfl, readPort_bounds hn⟩
    · cases h

theorem withPort_error {text : String} {host : List Char} {port : Option (List Char)} {f : Fault}
    (h : withPort text host port = .error f) : f = .port text := by
  cases port with
  | none => cases h
  | some p =>
    unfold withPort at h
    simp only at h
    split at h
    · cases h
    · cases h
      rfl

/-- How a text that is not empty is read, by its shape. -/
theorem parseTrimmed_eq {s : List Char} (hs : s ≠ []) : parseTrimmed s =
    match Shape.of s with
    | .unclosed => .error (.host (String.ofList s))
    | .bracketed literal after =>
      if (Net.Ipv6.read? literal).isNone then .error (.host (String.ofList s))
      else match after with
        | [] => withPort (String.ofList s) ('[' :: lower literal ++ [']']) none
        | ':' :: p => withPort (String.ofList s) ('[' :: lower literal ++ [']']) (some p)
        | _ => .error (.port (String.ofList s))
    | .plain host port =>
      if isHostName host then withPort (String.ofList s) (lower host) port else .error (.host (String.ofList s)) := by
  unfold parseTrimmed
  rw [if_neg hs]
  rfl

theorem isHostChar_toLower (c : Char) : isHostChar c.toLower = isHostChar c := by
  cases hc : c.isUpper with
  | false => rw [toLower_eq_self hc]
  | true =>
    simp [isHostChar, isAlphanum_eq, hc, isLower_toLower hc]

theorem isHostName_lower (s : List Char) : isHostName (lower s) = isHostName s := by
  simp [isHostName, lower, Function.comp_def, isHostChar_toLower]

theorem Shape.of_bracketed {s literal after : List Char} (h : Shape.of s = .bracketed literal after) :
    s = '[' :: (literal ++ ']' :: after) ∧ ']' ∉ literal := by
  unfold Shape.of at h
  split at h
  · split at h
    · rename_i r _ _ hcut
      cases h
      exact ⟨congrArg _ (cutFirst_eq_some hcut), not_mem_of_cutFirst hcut⟩
    · cases h
  · split at h <;> cases h

/-- What is read is in order. -/
theorem canonical_of_parse {raw : String} {a : Address} (h : parse raw = .ok a) : a.Canonical := by
  unfold parse at h
  generalize trim raw.toList = s at h
  have hs : s ≠ [] := by
    rintro rfl
    cases h
  rw [parseTrimmed_eq hs] at h
  split at h
  · cases h
  · rename_i literal after hshape
    obtain ⟨-, hclose⟩ := Shape.of_bracketed hshape
    split at h
    · cases h
    · rename_i hread
      have hhost : ∀ {port}, withPort (String.ofList s) ('[' :: lower literal ++ [']']) port = .ok a → a.Canonical := by
        intro port h
        obtain ⟨ha, hport⟩ := withPort_ok h
        refine ⟨.inr ⟨lower literal, ha, ?_, lower_lower literal, ?_⟩, hport⟩
        · rwa [mem_lower (by decide)]
        · rw [Net.Ipv6.read?_lower]
          simpa [Option.isSome_iff_ne_none] using hread
      split at h
      · exact hhost h
      · exact hhost h
      · cases h
  · split at h
    · rename_i hname
      obtain ⟨ha, hport⟩ := withPort_ok h
      refine ⟨.inl ⟨?_, ?_⟩, hport⟩
      · rw [ha, isHostName_lower]
        exact hname
      · rw [ha, lower_lower]
    · cases h

/-! ## Reading a canonical text -/

theorem toList_text (a : Address) : a.text.toList = a.host ++ ':' :: decimal a.port := String.toList_ofList

theorem isHostChar_range {c : Char} (hc : isHostChar c = true) : 0x20 < c.toNat ∧ c.toNat < 0x7F := by
  simp only [isHostChar, isAlphanum_eq, Bool.or_eq_true, beq_iff_eq, isUpper_iff, isLower_iff, isDigit_iff] at hc
  rcases hc with ((((hc | hc) | hc) | rfl) | rfl) | rfl
  · omega
  · omega
  · omega
  · decide
  · decide
  · decide

theorem isHostChar_of_isHostName {s : List Char} (hs : isHostName s = true) {c : Char} (hc : c ∈ s) :
    isHostChar c = true := by
  simp only [isHostName, Bool.and_eq_true, List.all_eq_true] at hs
  exact hs.2 c hc

/-- The characters of a canonical text. -/
theorem Canonical.mem_text {a : Address} (ha : a.Canonical) {c : Char} (hc : c ∈ a.text.toList) :
    isHostChar c = true ∨ Net.isLiteralChar c = true ∨ c = '[' ∨ c = ']' := by
  rw [toList_text, List.mem_append, List.mem_cons] at hc
  rcases hc with hc | rfl | hc
  · rcases ha.host with ⟨hname, -⟩ | ⟨literal, hhost, -, -, hread⟩
    · exact .inl (isHostChar_of_isHostName hname hc)
    · rw [hhost] at hc
      simp only [List.cons_append, List.mem_cons, List.mem_append, List.not_mem_nil, or_false] at hc
      rcases hc with rfl | hc | rfl
      · exact .inr (.inr (.inl rfl))
      · exact .inr (.inl (Net.Ipv6.isLiteralChar_of_read? hread c hc))
      · exact .inr (.inr (.inr rfl))
  · exact .inr (.inl (by decide))
  · exact .inl (by simp [isHostChar, isAlphanum_eq, isDigit_of_mem_decimal hc])

/-- A canonical text holds no blanks and no characters that cannot be seen. -/
theorem Canonical.range {a : Address} (ha : a.Canonical) : ∀ c ∈ a.text.toList, 0x20 < c.toNat ∧ c.toNat < 0x7F := by
  intro c hc
  rcases ha.mem_text hc with hc | hc | rfl | rfl
  · exact isHostChar_range hc
  · exact Net.isLiteralChar_range hc
  · decide
  · decide

theorem Canonical.not_isBlank {a : Address} (ha : a.Canonical) : ∀ c ∈ a.text.toList, isBlank c = false :=
  fun c hc => not_isBlank_of_toNat (ha.range c hc)

theorem trim_text {a : Address} (ha : a.Canonical) : trim a.text.toList = a.text.toList :=
  trim_of_not_isBlank ha.not_isBlank

theorem withPort_decimal (text : String) (host : List Char) {n : Nat} (hn : 0 < n ∧ n ≤ 65535) :
    withPort text host (some (decimal n)) = .ok ⟨host, n⟩ := by
  unfold withPort
  simp only [readPort_decimal hn]

theorem colon_notMem_decimal (n : Nat) : ':' ∉ decimal n :=
  fun h => absurd (isDigit_of_mem_decimal h) (by decide)

/-- The text of an address that is in order is read as that address. -/
theorem parse_text {a : Address} (ha : a.Canonical) : parse a.text = .ok a := by
  have hne : a.text.toList ≠ [] := by
    rw [toList_text]
    simp
  unfold parse
  rw [trim_text ha, parseTrimmed_eq hne]
  rcases ha.host with ⟨hname, hlower⟩ | ⟨literal, hhost, hclose, hlower, hread⟩
  · have hshape : Shape.of a.text.toList = .plain a.host (some (decimal a.port)) := by
      have hcut := cutLast_append a.host (colon_notMem_decimal a.port)
      rw [toList_text]
      unfold Shape.of
      split
      · rename_i r hr
        -- a host name does not begin with a bracket
        obtain ⟨c, cs, hcs⟩ : ∃ c cs, a.host = c :: cs := by
          cases hh : a.host with
          | nil => simp [hh, isHostName] at hname
          | cons c cs => exact ⟨c, cs, rfl⟩
        rw [hcs, List.cons_append] at hr
        obtain ⟨rfl, -⟩ := List.cons.inj hr
        have := isHostChar_of_isHostName hname (hcs ▸ List.mem_cons_self ..)
        exact absurd this (by decide)
      · rw [hcut]
    simp only [hshape, hname, if_true, hlower]
    exact withPort_decimal _ _ ha.port
  · have hshape : Shape.of a.text.toList = .bracketed literal (':' :: decimal a.port) := by
      have hcut := cutFirst_append hclose (':' :: decimal a.port)
      rw [toList_text, hhost]
      simp [Shape.of, hcut]
    have hsome : (Net.Ipv6.read? literal).isNone = false := by
      rw [Option.isNone_eq_false_iff]
      exact hread
    simp only [hshape, hsome, Bool.false_eq_true, if_false, hlower]
    rw [withPort_decimal _ _ ha.port, ← hhost]

theorem normalize_eq_ok {raw text : String} : normalize raw = .ok text ↔ ∃ a, parse raw = .ok a ∧ a.text = text := by
  unfold normalize
  cases parse raw <;> simp [Except.map]

theorem normalize_eq_error {raw : String} {f : Fault} : normalize raw = .error f ↔ parse raw = .error f := by
  unfold normalize
  cases parse raw <;> simp [Except.map]

/-- The canonical text of an address is its own canonical text. -/
theorem normalize_normalize {raw text : String} (h : normalize raw = .ok text) : normalize text = .ok text := by
  obtain ⟨a, ha, rfl⟩ := normalize_eq_ok.1 h
  exact normalize_eq_ok.2 ⟨a, parse_text (canonical_of_parse ha), rfl⟩

/-- A canonical text holds no blanks. -/
theorem not_isBlank_of_normalize {raw text : String} (h : normalize raw = .ok text) :
    ∀ c ∈ text.toList, isBlank c = false := by
  obtain ⟨a, ha, rfl⟩ := normalize_eq_ok.1 h
  exact (canonical_of_parse ha).not_isBlank

/-- A canonical text holds no `@`. -/
theorem at_notMem_of_normalize {raw text : String} (h : normalize raw = .ok text) : '@' ∉ text.toList := by
  obtain ⟨a, ha, rfl⟩ := normalize_eq_ok.1 h
  intro hmem
  rcases (canonical_of_parse ha).mem_text hmem with h | h | h | h
  · exact absurd h (by decide)
  · exact absurd h (by decide)
  · exact absurd h (by decide)
  · exact absurd h (by decide)

/-- What a fault says of a text that is no address: nothing, or the text without the blanks around it. -/
theorem fault_of_parse {raw : String} {f : Fault} (h : parse raw = .error f) :
    f = .empty ∨ f = .host (String.ofList (trim raw.toList)) ∨ f = .port (String.ofList (trim raw.toList)) := by
  unfold parse at h
  generalize trim raw.toList = s at h
  by_cases hs : s = []
  · subst hs
    cases h
    exact .inl rfl
  · refine .inr ?_
    rw [parseTrimmed_eq hs] at h
    split at h
    · cases h
      exact .inl rfl
    · split at h
      · cases h
        exact .inl rfl
      · split at h
        · exact .inr (withPort_error h)
        · exact .inr (withPort_error h)
        · cases h
          exact .inr rfl
    · split at h
      · exact .inr (withPort_error h)
      · cases h
        exact .inl rfl

end Address

end SessionRouting
