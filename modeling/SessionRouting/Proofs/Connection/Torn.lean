/-
Frames that are cut off. A text comes back from its frame as it was in a payload, and with a space for each carriage
return and each line feed in the other frames. What is cut from the end of a frame never goes unnoticed: bytes that
stop before the end of a frame are malformed, wherever they stop, `Response.decode_whole_or_torn`.
-/
import SessionRouting.Proofs.Connection.Frame

namespace SessionRouting

open Text

/-! ## Texts on one line -/

/-- The text with a space for each carriage return and each line feed. -/
def Text.flat (s : String) : String := s.map fun c => if c = '\r' ∨ c = '\n' then ' ' else c

theorem Text.toList_flat (s : String) : (flat s).toList = Frame.oneLine s.toList := String.toList_map

theorem Text.isLine_flat (s : String) : IsLine (flat s) := by
  intro c hc
  rw [toList_flat] at hc
  obtain ⟨d, -, rfl⟩ := List.mem_map.1 hc
  split
  · decide
  · rename_i hd
    exact not_or.1 hd

namespace Frame

/-- A text that has been brought on one line is left as it is. -/
theorem oneLine_flat (s : String) : oneLine (flat s).toList = oneLine s.toList :=
  (isLine_flat s).oneLine.trans (toList_flat s)

theorem ofReply_flat (s : String) : ofReply (.simple (flat s)) = ofReply (.simple s) :=
  congrArg (fun text => '+' :: text ++ ending) (oneLine_flat s)

theorem ofMessage_flat (s : String) : ofMessage (flat s) = ofMessage s :=
  congrArg (fun text => '-' :: refusalMark ++ text ++ ending) (oneLine_flat s)

/-- The frame of a single line: neither a carriage return nor a line feed stands before its ending. -/
def IsSingle (frame : List Char) : Prop :=
  ∃ line : List Char, frame = line ++ ending ∧ ∀ c ∈ line, c ≠ '\r' ∧ c ≠ '\n'

/-- A text on one line behind a mark. -/
theorem isSingle_append (mark : List Char) (hmark : ∀ c ∈ mark, c ≠ '\r' ∧ c ≠ '\n') (s : String) :
    IsSingle (mark ++ oneLine s.toList ++ ending) := by
  refine ⟨mark ++ oneLine s.toList, rfl, ?_⟩
  rw [← toList_flat, List.forall_mem_append]
  exact ⟨hmark, isLine_flat s⟩

theorem isSingle_ofReply (s : String) : IsSingle (ofReply (.simple s)) :=
  isSingle_append ['+'] (by simp) s

theorem isSingle_ofMessage (s : String) : IsSingle (ofMessage s) :=
  isSingle_append ('-' :: refusalMark) (by simp [refusalMark]) s

/-- Its bytes hold one carriage return and one line feed, the two at the end. -/
theorem IsSingle.bytes {frame : List Char} (h : IsSingle frame) :
    ∃ front : List UInt8, bytes frame = front ++ [13, 10] ∧ 13 ∉ front ∧ 10 ∉ front := by
  obtain ⟨line, rfl, hline⟩ := h
  refine ⟨Utf8.encode line, Utf8.encode_append line ending, fun hcr => ?_, fun hlf => ?_⟩
  · exact (hline '\r' (Utf8.mem_of_mem_encode (by decide) hcr)).1 rfl
  · exact (hline '\n' (Utf8.mem_of_mem_encode (by decide) hlf)).2 rfl

/-- What has come of a frame that breaks off: its first bytes, but not all of them. -/
def TornFrom (frame : List Char) (torn : List UInt8) : Prop :=
  torn <+: bytes frame ∧ torn ≠ bytes frame

end Frame

namespace Response

/-- The client takes them for no frame at all. -/
def IsMalformed (x : Except Fault String) : Prop := ∃ m, x = .error (.malformed m)

/-- The line that states the length of a payload. -/
def lengthLine (payload : List Char) : List Char := decimal (Utf8.encode payload).length ++ Frame.ending

theorem dropEnding_eq_some {s body : List Char} (h : dropEnding s = some body) : s = body ++ Frame.ending := by
  induction s generalizing body with
  | nil => cases h
  | cons c s ih =>
    unfold dropEnding at h
    split at h
    · rename_i hs
      cases h
      exact hs
    · obtain ⟨b, hb, rfl⟩ := Option.map_eq_some_iff.1 h
      rw [ih hb]
      rfl

/-- Bytes that break off are read, if at all, by what stands before an ending that the frame holds before its own. -/
theorem decode_torn {frame : List Char} {torn : List UInt8} (h : Frame.TornFrom frame torn) :
    IsMalformed (decode torn) ∨
      ∃ body, body ++ Frame.ending <+: frame ∧ body ++ Frame.ending ≠ frame ∧ decode torn = decodeBody body := by
  obtain ⟨hp, hne⟩ := h
  rcases Utf8.decodeFrom_of_isPrefix 0 hp with ⟨s, hs, rfl⟩ | ⟨i, hi⟩
  · cases hend : dropEnding s with
    | none =>
      refine .inl ⟨.noEnding, ?_⟩
      unfold decode
      rw [Utf8.decode_encode]
      simp only [hend]
    | some body =>
      obtain rfl := dropEnding_eq_some hend
      exact .inr ⟨body, hs, fun heq => hne (congrArg Frame.bytes heq), decode_bytes body⟩
  · refine .inl ⟨.notText ⟨i, .truncated⟩, ?_⟩
    unfold decode Utf8.decode
    rw [hi]

theorem prefix_of_ending {s r : List Char} (hp : r <+: s ++ Frame.ending) (hne : r ≠ s ++ Frame.ending) :
    r <+: s ++ ['\r'] := by
  have hconcat : s ++ Frame.ending = s ++ ['\r'] ++ ['\n'] := (List.append_assoc s ['\r'] ['\n']).symm
  rw [hconcat] at hp hne
  exact (List.prefix_concat_iff.1 hp).resolve_left hne

/-- Of what breaks off within a line and its ending, a line feed stands in the line. -/
theorem lineFeed_mem_of_isPrefix {s r : List Char} (hp : r <+: s ++ Frame.ending) (hne : r ≠ s ++ Frame.ending)
    (hr : '\n' ∈ r) : '\n' ∈ s := by
  have hmem : '\n' ∈ s ++ ['\r'] := (prefix_of_ending hp hne).subset hr
  exact (List.mem_append.1 hmem).resolve_right (by decide)

/-- A single line holds no ending before its own. -/
theorem isMalformed_of_isSingle {frame : List Char} (hf : Frame.IsSingle frame) {torn : List UInt8}
    (h : Frame.TornFrom frame torn) : IsMalformed (decode torn) := by
  obtain ⟨line, rfl, hline⟩ := hf
  refine (decode_torn h).resolve_right ?_
  rintro ⟨body, hp, hne, -⟩
  have hlf : '\n' ∈ line := lineFeed_mem_of_isPrefix hp hne (List.mem_append_right body (by decide))
  exact (hline '\n' hlf).2 rfl

/-- The length of one payload stated before another one. -/
theorem isMalformed_of_length_ne {payload received : List Char}
    (hlen : (Utf8.encode received).length ≠ (Utf8.encode payload).length) :
    IsMalformed (decodeBulk (lengthLine payload ++ received)) := by
  unfold decodeBulk lengthLine
  simp only [cutPair_decimal]
  cases hcount : readCount maxLength (decimal (Utf8.encode payload).length) with
  | none =>
    -- the length is too great to be stated, and so to be read
    exact ⟨_, rfl⟩
  | some m =>
    obtain rfl := eq_of_readCount_decimal hcount
    simp only [if_neg hlen]
    exact ⟨_, rfl⟩

/-- Without a line feed there is no line that states a length. -/
theorem isMalformed_of_not_mem {s : List Char} (hs : '\n' ∉ s) : IsMalformed (decodeBulk s) := by
  cases hcut : cutPair '\r' '\n' s with
  | none =>
    refine ⟨.noLengthLine, ?_⟩
    unfold decodeBulk
    simp only [hcut]
  | some p =>
    rw [cutPair_eq_some hcut] at hs
    exact absurd (by simp) hs

/-- A part of a payload is shorter in bytes than the payload. -/
theorem length_encode_lt {s t : List Char} (hp : s ++ Frame.ending <+: t ++ Frame.ending)
    (hne : s ++ Frame.ending ≠ t ++ Frame.ending) : (Utf8.encode s).length < (Utf8.encode t).length := by
  have hlen : s.length < t.length := by
    have := (prefix_of_ending hp hne).length_le
    simp only [List.length_append, Frame.ending, List.length_cons, List.length_nil] at this
    omega
  obtain ⟨q, rfl⟩ : s <+: t := List.prefix_of_prefix_length_le ((List.prefix_append ..).trans hp)
    (List.prefix_append ..) hlen.le
  have hq : q ≠ [] := by
    rintro rfl
    rw [List.append_nil] at hlen
    exact lt_irrefl _ hlen
  rw [Utf8.encode_append, List.length_append]
  have := Utf8.length_encode_pos hq
  omega

/-- What is left of a payload is told from the payload by the stated length, whatever endings stand in it. -/
theorem isMalformed_of_bulk {payload : String} {torn : List UInt8}
    (h : Frame.TornFrom (Frame.ofReply (.bulk payload)) torn) : IsMalformed (decode torn) := by
  rcases decode_torn h with hm | ⟨body, hp, hne, hbody⟩
  · exact hm
  rw [hbody]
  have hframe : Frame.ofReply (.bulk payload) =
      '$' :: (lengthLine payload.toList ++ (payload.toList ++ Frame.ending)) := by
    simp only [Frame.ofReply, lengthLine, List.cons_append, List.append_assoc]
  rw [hframe] at hp hne
  cases body with
  | nil => exact absurd (List.cons_prefix_cons.1 hp).1 (by decide)
  | cons c r =>
    rw [List.cons_append] at hp hne
    obtain ⟨rfl, hr⟩ := List.cons_prefix_cons.1 hp
    show IsMalformed (decodeBulk r)
    by_cases hline : lengthLine payload.toList <+: r
    · -- The length is known. What stands before the ending is then part of the payload, and not all of it.
      obtain ⟨received, rfl⟩ := hline
      rw [List.append_assoc] at hr hne
      refine isMalformed_of_length_ne (length_encode_lt ((List.prefix_append_right_inj _).1 hr) fun heq => ?_).ne
      rw [heq] at hne
      exact hne rfl
    · -- The bytes break off within the line that states the length.
      have hpart : r <+: lengthLine payload.toList :=
        (List.prefix_or_prefix_of_prefix ((List.prefix_append ..).trans hr) (List.prefix_append ..)).resolve_right hline
      have hne' : r ≠ lengthLine payload.toList := fun heq => hline (heq ▸ List.prefix_rfl)
      refine isMalformed_of_not_mem fun hlf => ?_
      exact absurd (isDigit_of_mem_decimal (lineFeed_mem_of_isPrefix hpart hne' hlf)) (by decide)

end Response

/-- A text is read from its frames as it was sent, with spaces for its line breaks in those of one line, and whatever
is left of a frame that is cut off is malformed. The length of a text that a machine can hold can be stated. -/
theorem Response.decode_whole_or_torn (t : String) :
    ((Utf8.encode t.toList).length ≤ maxLength → decode (Frame.bytes (Frame.ofReply (.bulk t))) = .ok t) ∧
      decode (Frame.bytes (Frame.ofReply (.simple t))) = .ok (flat t) ∧
      decode (Frame.bytes (Frame.ofMessage t)) = .error (.refused (flat t)) ∧
      (∀ frame ∈ [Frame.ofReply (.simple t), Frame.ofMessage t], ∃ front : List UInt8,
        Frame.bytes frame = front ++ [13, 10] ∧ 13 ∉ front ∧ 10 ∉ front) ∧
      ∀ frame ∈ [Frame.ofReply (.simple t), Frame.ofReply (.bulk t), Frame.ofMessage t], ∀ torn : List UInt8,
        torn <+: Frame.bytes frame → torn ≠ Frame.bytes frame → ∃ m, decode torn = .error (.malformed m) := by
  refine ⟨decode_bulk, ?_, ?_, ?_, ?_⟩
  · rw [← Frame.ofReply_flat]
    exact decode_simple (isLine_flat t)
  · rw [← Frame.ofMessage_flat]
    exact decode_message (isLine_flat t)
  · rw [List.forall_mem_cons, List.forall_mem_singleton]
    exact ⟨(Frame.isSingle_ofReply t).bytes, (Frame.isSingle_ofMessage t).bytes⟩
  · rw [List.forall_mem_cons, List.forall_mem_cons, List.forall_mem_singleton]
    exact ⟨fun torn hp hne => isMalformed_of_isSingle (Frame.isSingle_ofReply t) ⟨hp, hne⟩,
      fun torn hp hne => isMalformed_of_bulk ⟨hp, hne⟩,
      fun torn hp hne => isMalformed_of_isSingle (Frame.isSingle_ofMessage t) ⟨hp, hne⟩⟩

/-- A payload with a line break in it, cut off right after that. -/
theorem Response.torn_at_line_break :
    (Utf8.encode "é\r\nb".toList).length ≤ maxLength ∧
      decode (Frame.bytes (Frame.ofReply (.bulk "é\r\nb"))) = .ok "é\r\nb" ∧
      ([36, 53, 13, 10, 195, 169, 13, 10] : List UInt8) <+: Frame.bytes (Frame.ofReply (.bulk "é\r\nb")) ∧
      ∃ m, decode [36, 53, 13, 10, 195, 169, 13, 10] = .error (.malformed m) := by
  have hlen : (Utf8.encode "é\r\nb".toList).length ≤ maxLength := by decide
  have hp : ([36, 53, 13, 10, 195, 169, 13, 10] : List UInt8) <+: Frame.bytes (Frame.ofReply (.bulk "é\r\nb")) := by
    decide
  obtain ⟨hwhole, -, -, -, htorn⟩ := decode_whole_or_torn "é\r\nb"
  exact ⟨hlen, hwhole hlen, hp, htorn _ (by simp) _ hp (by decide)⟩

end SessionRouting
