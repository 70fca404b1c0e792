/-
The grammar of responses. A frame is a body and the frame ending. Its body delivers a payload (`Frame.Delivers`) or
refuses a command (`Frame.Refuses`), and its bytes are read as what the body says; all other bytes are malformed:
`Response.decode_grammar`.
-/
import SessionRouting.Proofs.Connection.Torn
import SessionRouting.Proofs.Text.Split

namespace SessionRouting

open Text

/-! ## Texts of frames -/

/-- The texts that state a number: one or more digits that stand for it, with or without a plus sign before them. -/
inductive Text.States : List Char → Nat → Prop
  | digits {sign digits : List Char} (hsign : sign = [] ∨ sign = ['+']) (hne : digits ≠ [])
    (hdigits : ∀ c ∈ digits, c.isDigit = true) : States (sign ++ digits) (valueIn 10 digits)

namespace Frame

/-- The bodies that deliver a payload: as it is, or after a line that states how many bytes it has. -/
inductive Delivers (payload : List Char) : List Char → Prop
  | simple : Delivers payload ('+' :: payload)
  | bulk {length : List Char} (h : States length (Utf8.encode payload).length) :
    Delivers payload ('$' :: length ++ ending ++ payload)

/-- The bodies that refuse a command with a message: behind a mark, or as it is if it does not begin with the mark. -/
inductive Refuses (message : List Char) : List Char → Prop
  | marked : Refuses message ('-' :: refusalMark ++ message)
  | bare (h : ¬ refusalMark <+: message) : Refuses message ('-' :: message)

end Frame

/-! ## Lengths -/

theorem Text.readCount_iff_states {limit n : Nat} {s : List Char} :
    readCount limit s = some n ↔ States s n ∧ n ≤ limit := by
  constructor
  · intro h
    obtain ⟨sign, digits, rfl, hsign, hread⟩ := readCount_eq_some_iff.1 h
    obtain ⟨hne, hdigits, hle, rfl⟩ := readDigits_eq_some_iff.1 hread
    exact ⟨.digits hsign hne hdigits, hle⟩
  · rintro ⟨hs, hle⟩
    cases hs with
    | digits hsign hne hdigits =>
      exact readCount_eq_some_iff.2 ⟨_, _, rfl, hsign, readDigits_eq_some_iff.2 ⟨hne, hdigits, hle, rfl⟩⟩

/-- No ending begins within the length. -/
theorem Text.States.not_mem {s : List Char} {n : Nat} (h : States s n) : '\r' ∉ s := by
  cases h with
  | @digits sign digits hsign _ hdigits =>
    intro hr
    rcases List.mem_append.1 hr with hr | hr
    · rcases hsign with rfl | rfl
      · cases hr
      · exact absurd hr (by decide)
    · exact absurd (hdigits _ hr) (by decide)

namespace Response

/-! ## What is read of a body -/

theorem decodeBulk_eq_ok_iff {s : List Char} {p : String} : decodeBulk s = .ok p ↔
    ∃ length, s = length ++ Frame.ending ++ p.toList ∧ States length (Utf8.encode p.toList).length ∧
      (Utf8.encode p.toList).length ≤ maxLength := by
  constructor
  · intro h
    unfold decodeBulk at h
    split at h
    · cases h
    · rename_i length payload hcut
      split at h
      · cases h
      · rename_i n hcount
        simp only at h
        split at h
        · rename_i hlen
          cases h
          obtain ⟨hstates, hle⟩ := readCount_iff_states.1 hcount
          rw [String.toList_ofList, hlen]
          exact ⟨length, by simp [cutPair_eq_some hcut, Frame.ending], hstates, hle⟩
        · cases h
  · rintro ⟨length, rfl, hstates, hle⟩
    have hcut : cutPair '\r' '\n' (length ++ Frame.ending ++ p.toList) = some (length, p.toList) := by
      rw [List.append_assoc]
      exact cutPair_append hstates.not_mem p.toList
    unfold decodeBulk
    simp only [hcut, readCount_iff_states.2 ⟨hstates, hle⟩, ↓reduceIte, String.ofList_toList]

theorem decodeBulk_cases (s : List Char) : (∃ p, decodeBulk s = .ok p) ∨ IsMalformed (decodeBulk s) := by
  unfold decodeBulk
  split
  · exact .inr ⟨_, rfl⟩
  · split
    · exact .inr ⟨_, rfl⟩
    · simp only
      split
      · exact .inl ⟨_, rfl⟩
      · exact .inr ⟨_, rfl⟩

theorem dropMark_of_not_isPrefix {m : List Char} (hm : ¬ Frame.refusalMark <+: m) : dropMark m = m :=
  if_neg (mt List.isPrefixOf_iff_prefix.1 hm)

/-- The message of a refusal is what comes after the mark, or everything if there is no mark. -/
theorem refuses_dropMark (s : List Char) : Frame.Refuses (dropMark s) ('-' :: s) := by
  by_cases hs : Frame.refusalMark <+: s
  · obtain ⟨m, rfl⟩ := hs
    rw [dropMark_append]
    exact .marked
  · rw [dropMark_of_not_isPrefix hs]
    exact .bare hs

/-- A body is read by its first character. -/
theorem decodeBody_cases (body : List Char) :
    (∃ r, body = '+' :: r ∧ decodeBody body = .ok (String.ofList r)) ∨
    (∃ r, body = '-' :: r ∧ decodeBody body = .error (.refused (String.ofList (dropMark r)))) ∨
    (∃ r, body = '$' :: r ∧ decodeBody body = decodeBulk r) ∨ IsMalformed (decodeBody body) := by
  unfold decodeBody
  split
  · exact .inl ⟨_, rfl, rfl⟩
  · exact .inr (.inl ⟨_, rfl, rfl⟩)
  · exact .inr (.inr (.inl ⟨_, rfl, rfl⟩))
  · exact .inr (.inr (.inr ⟨_, rfl⟩))

theorem delivers_of_decodeBody {body : List Char} {p : String} (h : decodeBody body = .ok p) :
    Frame.Delivers p.toList body := by
  rcases decodeBody_cases body with ⟨r, rfl, hx⟩ | ⟨r, rfl, hx⟩ | ⟨r, rfl, hx⟩ | ⟨m, hx⟩
  all_goals rw [hx] at h
  · cases h
    rw [String.toList_ofList]
    exact .simple
  · cases h
  · obtain ⟨length, rfl, hstates, -⟩ := decodeBulk_eq_ok_iff.1 h
    exact .bulk hstates
  · cases h

theorem decodeBody_of_delivers {body : List Char} {p : String} (h : Frame.Delivers p.toList body)
    (hle : (Utf8.encode p.toList).length ≤ maxLength) : decodeBody body = .ok p := by
  cases h with
  | simple => exact congrArg Except.ok String.ofList_toList
  | bulk hstates => exact decodeBulk_eq_ok_iff.2 ⟨_, rfl, hstates, hle⟩

theorem decodeBody_of_refuses {body m : List Char} (h : Frame.Refuses m body) :
    decodeBody body = .error (.refused (String.ofList m)) := by
  cases h with
  | marked =>
    show Except.error (Fault.refused (String.ofList (dropMark (Frame.refusalMark ++ m)))) = _
    rw [dropMark_append]
  | bare hm =>
    show Except.error (Fault.refused (String.ofList (dropMark m))) = _
    rw [dropMark_of_not_isPrefix hm]

theorem decodeBody_eq_refused_iff {body : List Char} {m : String} :
    decodeBody body = .error (.refused m) ↔ Frame.Refuses m.toList body := by
  constructor
  · intro h
    rcases decodeBody_cases body with ⟨r, rfl, hx⟩ | ⟨r, rfl, hx⟩ | ⟨r, rfl, hx⟩ | ⟨f, hx⟩
    all_goals rw [hx] at h
    · cases h
    · cases h
      rw [String.toList_ofList]
      exact refuses_dropMark r
    · rcases decodeBulk_cases r with ⟨p, hp⟩ | ⟨f, hf⟩
      · rw [hp] at h
        cases h
      · rw [hf] at h
        cases h
    · cases h
  · intro h
    rw [decodeBody_of_refuses h, String.ofList_toList]

/-- A body is never read as anything but a payload, a refusal or no frame. -/
theorem decodeBody_outcomes (body : List Char) :
    (∃ p, decodeBody body = .ok p) ∨ (∃ m, decodeBody body = .error (.refused m)) ∨ IsMalformed (decodeBody body) := by
  rcases decodeBody_cases body with ⟨r, -, hx⟩ | ⟨r, -, hx⟩ | ⟨r, -, hx⟩ | hm
  · exact .inl ⟨_, hx⟩
  · exact .inr (.inl ⟨_, hx⟩)
  · rw [hx]
    exact (decodeBulk_cases r).imp_right .inr
  · exact .inr (.inr hm)

/-! ## What is read of bytes -/

/-- Bytes that are read as anything are those of a body and the ending, and are read as the body. -/
theorem decode_cases (bytes : List UInt8) :
    (∃ body, bytes = Frame.bytes (body ++ Frame.ending) ∧ decode bytes = decodeBody body) ∨
      IsMalformed (decode bytes) := by
  unfold decode
  cases htext : Utf8.decode bytes with
  | error f => exact .inr ⟨_, rfl⟩
  | ok cs =>
    simp only
    cases hend : dropEnding cs with
    | none => exact .inr ⟨_, rfl⟩
    | some body =>
      rw [dropEnding_eq_some hend] at htext
      exact .inl ⟨body, Utf8.decode_eq_ok_iff.1 htext, rfl⟩

theorem decode_eq_iff {bytes : List UInt8} {x : Except Fault String} (hx : ¬ IsMalformed x) :
    decode bytes = x ↔ ∃ body, bytes = Frame.bytes (body ++ Frame.ending) ∧ decodeBody body = x := by
  constructor
  · intro h
    rcases decode_cases bytes with ⟨body, hbytes, hbody⟩ | hm
    · exact ⟨body, hbytes, hbody.symm.trans h⟩
    · exact absurd (h ▸ hm) hx
  · rintro ⟨body, rfl, hbody⟩
    rw [decode_bytes, hbody]

theorem decode_outcomes (bytes : List UInt8) :
    (∃ p, decode bytes = .ok p) ∨ (∃ m, decode bytes = .error (.refused m)) ∨ IsMalformed (decode bytes) := by
  rcases decode_cases bytes with ⟨body, -, hx⟩ | hm
  · rw [hx]
    exact decodeBody_outcomes body
  · exact .inr (.inr hm)

theorem not_isMalformed_ok (p : String) : ¬ IsMalformed (.ok p) := by
  rintro ⟨_, h⟩
  cases h

theorem not_isMalformed_refused (m : String) : ¬ IsMalformed (.error (.refused m)) := by
  rintro ⟨_, h⟩
  cases h

end Response

/-- A payload has no more bytes than its frame. -/
theorem Frame.Delivers.length_le {payload body : List Char} (h : Delivers payload body) :
    (Utf8.encode payload).length ≤ (bytes (body ++ ending)).length := by
  unfold bytes
  cases h with
  | simple =>
    rw [← List.singleton_append]
    simp only [Utf8.encode_append, List.length_append]
    omega
  | bulk =>
    simp only [Utf8.encode_append, List.length_append]
    omega

/-- A body can be cut after its first byte if that one is a sign. -/
theorem Frame.isValid_after_sign {body : String} {b : UInt8} (hb : b = 43 ∨ b = 45 ∨ b = 36)
    (h : (Utf8.encode body.toList).head? = some b) : (⟨1⟩ : String.Pos.Raw).IsValid body := by
  have hsmall : b.toNat < 0x80 := by rcases hb with rfl | rfl | rfl <;> decide
  obtain ⟨r, hr, -⟩ := Utf8.exists_of_head?_encode hsmall h
  refine String.Pos.Raw.isValid_iff_exists_append.2
    ⟨String.singleton (Char.ofNat b.toNat), String.ofList r, ?_, ?_⟩
  · rw [← String.toList_inj, hr]
    simp
  · rcases hb with rfl | rfl | rfl <;> rfl

namespace Response

/-- Bytes, of which a machine can hold no more than a frame can state, are read as a payload, as a refusal or as no
frame at all, each exactly as the grammar of frames has it. Where a body is cut after its first byte, that is within
the body and not within a character. -/
theorem decode_grammar {bytes : List UInt8} (hb : bytes.length ≤ maxLength) :
    (∀ p : String, decode bytes = .ok p ↔
      ∃ body, bytes = Frame.bytes (body ++ Frame.ending) ∧ Frame.Delivers p.toList body) ∧
    (∀ m : String, decode bytes = .error (.refused m) ↔
      ∃ body, bytes = Frame.bytes (body ++ Frame.ending) ∧ Frame.Refuses m.toList body) ∧
    ((∃ f, decode bytes = .error (.malformed f)) ↔ ¬ ∃ body text, bytes = Frame.bytes (body ++ Frame.ending) ∧
      (Frame.Delivers text body ∨ Frame.Refuses text body)) ∧
    ∀ body : String, bytes = Frame.bytes (body.toList ++ Frame.ending) → ∀ b : UInt8, b = 43 ∨ b = 45 ∨ b = 36 →
      (Utf8.encode body.toList).head? = some b → (⟨1⟩ : String.Pos.Raw).IsValid body := by
  have hok : ∀ p : String, decode bytes = .ok p ↔
      ∃ body, bytes = Frame.bytes (body ++ Frame.ending) ∧ Frame.Delivers p.toList body := by
    intro p
    rw [decode_eq_iff (not_isMalformed_ok p)]
    refine exists_congr fun body => and_congr_right fun hbytes => ⟨delivers_of_decodeBody, fun h => ?_⟩
    exact decodeBody_of_delivers h (h.length_le.trans (hbytes ▸ hb))
  have hrefused : ∀ m : String, decode bytes = .error (.refused m) ↔
      ∃ body, bytes = Frame.bytes (body ++ Frame.ending) ∧ Frame.Refuses m.toList body := by
    intro m
    rw [decode_eq_iff (not_isMalformed_refused m)]
    simp only [decodeBody_eq_refused_iff]
  refine ⟨hok, hrefused, ⟨?_, fun hno => ?_⟩, fun body _ b => Frame.isValid_after_sign⟩
  · rintro ⟨f, hf⟩ ⟨body, text, hbytes, h | h⟩
    · rw [(hok (String.ofList text)).2 ⟨body, hbytes, by rwa [String.toList_ofList]⟩] at hf
      cases hf
    · rw [(hrefused (String.ofList text)).2 ⟨body, hbytes, by rwa [String.toList_ofList]⟩] at hf
      cases hf
  · rcases decode_outcomes bytes with ⟨p, hp⟩ | ⟨m, hm⟩ | hm
    · obtain ⟨body, hbytes, h⟩ := (hok p).1 hp
      exact absurd ⟨body, p.toList, hbytes, .inl h⟩ hno
    · obtain ⟨body, hbytes, h⟩ := (hrefused m).1 hm
      exact absurd ⟨body, m.toList, hbytes, .inr h⟩ hno
    · exact hm

/-- A length with a plus sign and a zero before it is understood, and the payload may hold endings of its own. -/
theorem decode_grammar_padded :
    let bytes : List UInt8 := [36, 43, 48, 53, 13, 10, 195, 169, 13, 10, 98, 13, 10]
    bytes.length ≤ maxLength ∧ decode bytes = .ok "é\r\nb" := by
  intro bytes
  have hb : bytes.length ≤ maxLength := by decide
  have hlength : States "+05".toList (Utf8.encode "é\r\nb".toList).length :=
    @States.digits ['+'] ['0', '5'] (.inr rfl) (by decide) (by simp)
  exact ⟨hb, ((decode_grammar hb).1 _).2 ⟨"$+05\r\né\r\nb".toList, by decide, .bulk hlength⟩⟩

end Response

end SessionRouting
