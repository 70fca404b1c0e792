/-
Frames there and back. A reply or a refusal is read from its frame as it was, provided that its text stays on one line
or, for a payload of many lines, that its length can be stated: `decode_ofResult`.
-/
import SessionRouting.Proofs.Text.Laws
import SessionRouting.Proofs.Text.Utf8
import SessionRouting.Response

namespace SessionRouting

open Text

/-! ## Texts on one line -/

/-- A text without carriage returns and line feeds. -/
def Text.IsLine (s : String) : Prop := ∀ c ∈ s.toList, c ≠ '\r' ∧ c ≠ '\n'

theorem Text.IsLine.append {s t : String} (hs : IsLine s) (ht : IsLine t) : IsLine (s ++ t) := by
  intro c hc
  rw [String.toList_append, List.mem_append] at hc
  rcases hc with hc | hc
  · exact hs c hc
  · exact ht c hc

theorem Text.isLine_of_not_isBlank {s : String} (hs : ∀ c ∈ s.toList, isBlank c = false) : IsLine s := by
  intro c hc
  have hblank := hs c hc
  constructor
  · rintro rfl
    exact absurd hblank (by decide)
  · rintro rfl
    exact absurd hblank (by decide)

/-- It can be told from the bytes, which is quicker. -/
theorem Text.isLine_iff_bytes (s : String) :
    IsLine s ↔ (s.toByteArray.data.toList.all fun b => b != 13 && b != 10) = true := by
  have hbytes : s.toByteArray.data.toList = Utf8.encode s.toList := by
    rw [← String.utf8Encode_toList (b := s), List.utf8Encode, List.data_toByteArray, List.toList_toArray]
    rfl
  rw [hbytes, List.all_eq_true]
  constructor
  · intro hs b hb
    rw [Bool.and_eq_true, bne_iff_ne, bne_iff_ne]
    constructor
    · rintro rfl
      exact (hs '\r' (Utf8.mem_of_mem_encode (by decide) hb)).1 rfl
    · rintro rfl
      exact (hs '\n' (Utf8.mem_of_mem_encode (by decide) hb)).2 rfl
  · intro hs c hc
    have hmem : ∀ b ∈ String.utf8EncodeChar c, (b != 13 && b != 10) = true := fun b hb =>
      hs b (List.mem_flatMap.2 ⟨c, hc, hb⟩)
    constructor
    · rintro rfl
      exact absurd (hmem 13 (by decide)) (by decide)
    · rintro rfl
      exact absurd (hmem 10 (by decide)) (by decide)

instance (s : String) : Decidable (IsLine s) := decidable_of_iff _ (isLine_iff_bytes s).symm

/-- Such a text is left as it is when it is brought on one line. -/
theorem Text.IsLine.oneLine {s : String} (hs : IsLine s) : Frame.oneLine s.toList = s.toList := by
  unfold Frame.oneLine
  conv_rhs => rw [← List.map_id s.toList]
  refine List.map_congr_left fun c hc => ?_
  obtain ⟨hcr, hlf⟩ := hs c hc
  rw [if_neg (by simp [hcr, hlf])]
  rfl

namespace Response

theorem dropEnding_append (s : List Char) : dropEnding (s ++ Frame.ending) = some s := by
  induction s with
  | nil => rfl
  | cons c s ih =>
    have hne : c :: (s ++ Frame.ending) ≠ Frame.ending := by
      intro h
      have := congrArg List.length h
      simp [Frame.ending] at this
    rw [List.cons_append, dropEnding, if_neg hne, ih]
    rfl

/-- A frame is read by its body. -/
theorem decode_bytes (body : List Char) : decode (Frame.bytes (body ++ Frame.ending)) = decodeBody body := by
  unfold decode Frame.bytes
  rw [Utf8.decode_encode]
  simp only [dropEnding_append]

theorem decode_simple {text : String} (ht : IsLine text) :
    decode (Frame.bytes (Frame.ofReply (.simple text))) = .ok text := by
  unfold Frame.ofReply
  rw [decode_bytes, ht.oneLine]
  exact congrArg Except.ok String.ofList_toList

theorem dropMark_append (m : List Char) : dropMark (Frame.refusalMark ++ m) = m := by
  unfold dropMark
  rw [if_pos (List.isPrefixOf_iff_prefix.2 (List.prefix_append ..)), List.drop_left]

theorem decode_message {message : String} (hm : IsLine message) :
    decode (Frame.bytes (Frame.ofMessage message)) = .error (.refused message) := by
  unfold Frame.ofMessage
  rw [decode_bytes, hm.oneLine]
  show Except.error (Fault.refused (String.ofList (dropMark (Frame.refusalMark ++ message.toList)))) = _
  rw [dropMark_append, String.ofList_toList]

/-- A payload is cut off at the end of the line that states a length. -/
theorem cutPair_decimal (n : Nat) (payload : List Char) :
    cutPair '\r' '\n' (decimal n ++ Frame.ending ++ payload) = some (decimal n, payload) := by
  have hcr : '\r' ∉ decimal n := fun h => absurd (isDigit_of_mem_decimal h) (by decide)
  rw [List.append_assoc]
  exact cutPair_append hcr payload

theorem decode_bulk {payload : String} (hp : (Utf8.encode payload.toList).length ≤ maxLength) :
    decode (Frame.bytes (Frame.ofReply (.bulk payload))) = .ok payload := by
  unfold Frame.ofReply
  simp only [List.cons_append]
  rw [← List.cons_append, decode_bytes]
  unfold decodeBody decodeBulk
  simp only [cutPair_decimal, readCount_decimal hp, ↓reduceIte, String.ofList_toList]

end Response

/-- A result that a frame can carry. -/
def Frame.Carries : Except Refusal Reply → Prop
  | .ok (.simple text) => IsLine text
  | .ok (.bulk payload) => (Utf8.encode payload.toList).length ≤ Response.maxLength
  | .error e => IsLine e.message

/-- What the client gets of a result. -/
def Response.ofResult : Except Refusal Reply → Except Response.Fault String
  | .ok reply => .ok reply.payload
  | .error e => .error (.refused e.message)

theorem Response.decode_ofResult {x : Except Refusal Reply} (hx : Frame.Carries x) :
    decode (Frame.bytes (Frame.ofResult x)) = ofResult x := by
  cases x with
  | ok reply =>
    cases reply with
    | simple text => exact decode_simple hx
    | bulk payload => exact decode_bulk hx
  | error e => exact decode_message hx

end SessionRouting
