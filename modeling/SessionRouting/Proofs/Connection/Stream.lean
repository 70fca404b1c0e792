/-
Streams and the lines that are read of them. Of a stream of bytes a part is read, up to its first line feed or up to
the limit (`Part`). The chunks in which the bytes arrive make no difference to it, nor does what comes after it:
`Part.read_eq`. The part says whether there is a line and which one, `read_exact`.
-/
import SessionRouting.Proofs.Connection.Chunks

namespace SessionRouting

open Text

namespace Line

/-! ## What is read of a stream -/

/-- The part of a stream that is read: up to its first line feed if that is within the limit, and otherwise as much
as the limit allows. -/
inductive Part : List UInt8 → List UInt8 → Prop
  | ended {front : List UInt8} (rest : List UInt8) (hfront : lineFeed ∉ front) (hlen : front.length < maxBytes) :
    Part (front ++ lineFeed :: rest) (front ++ [lineFeed])
  | unended {stream : List UInt8} (h : lineFeed ∉ stream.take maxBytes) : Part stream (stream.take maxBytes)

/-- As many bytes as the limit allows come without a line feed among them. -/
def Overlong (stream : List UInt8) : Prop := maxBytes ≤ stream.length ∧ lineFeed ∉ stream.take maxBytes

/-- The line is what is left of the text without the line ends at its end. -/
def Strips (text line : List Char) : Prop :=
  ∃ ends, text = line ++ ends ∧ (∀ c ∈ ends, c = '\r' ∨ c = '\n') ∧
    ∀ c, line.getLast? = some c → c ≠ '\r' ∧ c ≠ '\n'

theorem isLineEnd_iff (c : Char) : isLineEnd c = true ↔ c = '\r' ∨ c = '\n' := by simp [isLineEnd]

theorem strips_iff {text line : List Char} : Strips text line ↔ line = dropEnd isLineEnd text := by
  constructor
  · rintro ⟨ends, rfl, hends, hlast⟩
    rw [dropEnd_append line fun c hc => (isLineEnd_iff c).2 (hends c hc)]
    rcases List.eq_nil_or_concat' line with rfl | ⟨front, c, rfl⟩
    · rfl
    · have hc : ¬ isLineEnd c = true := by
        rw [isLineEnd_iff]
        exact not_or.2 (hlast c List.getLast?_concat)
      exact (dropEnd_concat front (Bool.eq_false_iff.2 hc)).symm
  · rintro rfl
    obtain ⟨ends, htext, hends⟩ := dropEnd_split isLineEnd text
    refine ⟨ends, htext, fun c hc => (isLineEnd_iff c).1 (hends c hc), fun c hc => ?_⟩
    unfold dropEnd at hc
    rw [List.getLast?_reverse] at hc
    have hstop := List.head?_dropWhile_not isLineEnd text.reverse
    rw [hc] at hstop
    rw [← not_or, ← isLineEnd_iff]
    simpa using hstop

theorem strips_stripped (line : String) : Strips line.toList (stripped line).toList := by
  unfold stripped
  rw [String.toList_ofList]
  exact strips_iff.2 rfl

namespace Part

variable {stream bytes : List UInt8}

theorem exists_part (stream : List UInt8) : ∃ bytes, Part stream bytes := by
  by_cases hfeed : lineFeed ∈ stream.take maxBytes
  · obtain ⟨front, rest, htake, hfront⟩ := List.eq_append_cons_of_mem hfeed
    have hlen : front.length < maxBytes := by
      have hle := List.length_take_le maxBytes stream
      rw [htake, List.length_append, List.length_cons] at hle
      omega
    have hstream : stream = front ++ lineFeed :: (rest ++ stream.drop maxBytes) := by
      conv_lhs => rw [← List.take_append_drop maxBytes stream, htake]
      simp
    rw [hstream]
    exact ⟨_, .ended _ hfront hlen⟩
  · exact ⟨_, .unended hfeed⟩

/-- A stream within the limit that has no line feed is read whole. -/
theorem whole (hfeed : lineFeed ∉ stream) (hlen : stream.length ≤ maxBytes) : Part stream stream := by
  have htake : stream.take maxBytes = stream := List.take_of_length_le hlen
  have hpart : Part stream (stream.take maxBytes) := .unended (htake.symm ▸ hfeed)
  rwa [htake] at hpart

/-- In one piece the stream is read just so far. -/
theorem feed_eq (h : Part stream bytes) : (({} : Progress).feed stream).bytes = bytes := by
  cases h with
  | ended rest hfront hlen =>
    rw [Progress.feed_of_lineFeed rfl hfront (by simpa using hlen)]
    rfl
  | unended hfeed =>
    rcases Nat.lt_or_ge stream.length maxBytes with hlen | hlen
    · -- the stream ends before the limit, and reading would go on
      rw [List.take_of_length_le hlen.le] at hfeed ⊢
      rw [Progress.feed_of_not_mem rfl hfeed (by simpa using hlen)]
      rfl
    · rw [Progress.feed_of_long (p := {}) rfl (by decide) hfeed (by simpa using hlen)]
      rfl

/-- There is one such part. -/
theorem unique {bytes' : List UInt8} (h : Part stream bytes) (h' : Part stream bytes') : bytes' = bytes :=
  h'.feed_eq.symm.trans h.feed_eq

/-- Whatever the chunks, the answer is that to the part. -/
theorem read_eq {chunks : List (List UInt8)} (h : Part chunks.flatten bytes) : Line.read chunks = ofBytes bytes := by
  unfold Line.read
  rw [Progress.foldl_feed_flatten chunks fun _ => by decide, h.feed_eq]

theorem eq_nil_iff (h : Part stream bytes) : bytes = [] ↔ stream = [] := by
  cases h with
  | ended => simp
  | unended =>
    rw [List.take_eq_nil_iff]
    exact or_iff_right (by decide)

theorem isCut_iff (h : Part stream bytes) : IsCut bytes ↔ Overlong stream := by
  unfold IsCut Overlong
  cases h with
  | @ended front rest hfront hlen =>
    have hmem : lineFeed ∈ (front ++ lineFeed :: rest).take maxBytes := by
      rw [List.take_append, List.take_cons (by omega)]
      simp
    simp [hmem]
  | unended hfeed =>
    have hlast : (stream.take maxBytes).getLast? ≠ some lineFeed := fun hl => hfeed (List.mem_of_getLast? hl)
    have hfull : maxBytes ≤ (stream.take maxBytes).length ↔ maxBytes ≤ stream.length := by
      rw [List.length_take]
      omega
    simp only [ne_eq, hlast, not_false_eq_true, true_and, hfull, hfeed, and_true]

/-- What comes after a line feed is not in the part. -/
theorem exists_of_lineFeed {front : List UInt8} (hfeed : lineFeed ∈ front) :
    ∃ bytes, ∀ rest, Part (front ++ rest) bytes := by
  obtain ⟨part, more, rfl, hpart⟩ := List.eq_append_cons_of_mem hfeed
  rcases Nat.lt_or_ge part.length maxBytes with hlen | hlen
  · refine ⟨part ++ [lineFeed], fun rest => ?_⟩
    rw [List.append_assoc, List.cons_append]
    exact .ended _ hpart hlen
  · -- the limit comes before the line feed
    refine ⟨part.take maxBytes, fun rest => ?_⟩
    have htake : (part ++ lineFeed :: more ++ rest).take maxBytes = part.take maxBytes := by
      rw [List.append_assoc, List.take_append_of_le_length hlen]
    rw [← htake]
    exact .unended (htake ▸ fun h => hpart (List.mem_of_mem_take h))

end Part

/-! ## The answer to a part -/

/-- Nothing is read of an empty part. -/
theorem ofBytes_eq_none_iff {bytes : List UInt8} : ofBytes bytes = .ok none ↔ bytes = [] := by
  unfold ofBytes
  split
  · rename_i hnil
    simp [hnil]
  · rename_i hne
    split
    · simp [hne]
    · split <;> simp [hne]

variable {bytes : List UInt8}

theorem ofBytes_eq_some_iff (hcut : ¬ IsCut bytes) {line : String} : ofBytes bytes = .ok (some line) ↔
    bytes ≠ [] ∧ ∃ text, bytes = Utf8.encode text ∧ Strips text line.toList := by
  unfold ofBytes
  rw [if_neg (show ¬ (bytes.getLast? ≠ some lineFeed ∧ maxBytes ≤ bytes.length) from hcut)]
  simp only [← Utf8.decode_eq_ok_iff, strips_iff]
  split
  · rename_i hnil
    simp [hnil]
  · rename_i hne
    cases Utf8.decode bytes with
    | ok text =>
      have hline : String.ofList (dropEnd isLineEnd text) = line ↔ line.toList = dropEnd isLineEnd text := by
        rw [eq_comm, ← String.toList_inj, String.toList_ofList]
      simp only [hne, ne_eq, not_false_eq_true, true_and, Except.ok.injEq, Option.some.injEq, exists_eq_left']
      exact hline
    | error f => simp

theorem ofBytes_eq_notText_iff (hcut : ¬ IsCut bytes) :
    (∃ f, ofBytes bytes = .error (.notText f)) ↔ ¬ ∃ text, bytes = Utf8.encode text := by
  unfold ofBytes
  rw [if_neg (show ¬ (bytes.getLast? ≠ some lineFeed ∧ maxBytes ≤ bytes.length) from hcut)]
  simp only [← Utf8.decode_eq_ok_iff]
  split
  · rename_i hnil
    have hdecode : Utf8.decode ([] : List UInt8) = .ok [] := Utf8.decode_encode []
    simp [hnil, hdecode]
  · cases Utf8.decode bytes <;> simp

/-! ## Lines within the limit -/

/-- The answer to a line with its line feed. -/
theorem ofBytes_of_lineFeed {text : String} {rest : List UInt8} (htext : '\n' ∉ text.toList)
    (hlen : (Utf8.encode text.toList).length < maxBytes)
    (h : Part (Utf8.encode text.toList ++ lineFeed :: rest) bytes) :
    ofBytes bytes = .ok (some (stripped text)) := by
  have hrequest : Client.request text = bytes := by
    rw [request_eq]
    exact h.unique (.ended rest (lineFeed_not_mem htext) hlen)
  rw [← hrequest, ofBytes_request]

/-- The answer to a line that ends with the stream. -/
theorem ofBytes_of_end {text : String} (hne : text ≠ "") (htext : '\n' ∉ text.toList)
    (hlen : (Utf8.encode text.toList).length < maxBytes) (h : Part (Utf8.encode text.toList) bytes) :
    ofBytes bytes = .ok (some (stripped text)) := by
  obtain rfl : Utf8.encode text.toList = bytes := h.unique (.whole (lineFeed_not_mem htext) hlen.le)
  have hbytes : Utf8.encode text.toList ≠ [] :=
    List.ne_nil_of_length_pos (Utf8.length_encode_pos (mt String.toList_eq_nil_iff.1 hne))
  rw [ofBytes_eq_some_iff fun hcut => absurd hcut.2 (Nat.not_le.2 hlen)]
  exact ⟨hbytes, _, rfl, strips_stripped text⟩

/-- What is read of a stream that has come to its end. In whatever chunks it arrives, the answer is the same, and the
part that is read decides it, whatever stream that is part of. Nothing is read of the empty stream. There is no line if
as many bytes as the limit allows come without a line feed, nor if the bytes that are read are no text; otherwise the
line is that text without the line ends at its end. Bytes after a line feed make no difference. A text is read as a
line if it keeps to the limit together with a line feed, whether the line feed comes or the stream ends in its place. -/
theorem read_exact (stream : List UInt8) :
    ∃ bytes answer, (∀ b, Part stream b ↔ b = bytes) ∧
      (∀ chunks : List (List UInt8), chunks.flatten = stream → Line.read chunks = answer) ∧
      (∀ chunks : List (List UInt8), Part chunks.flatten bytes → Line.read chunks = answer) ∧
      (answer = .ok none ↔ stream = []) ∧
      (answer = .error .tooLong ↔ Overlong stream) ∧
      ((∃ f, answer = .error (.notText f)) ↔ ¬ Overlong stream ∧ ¬ ∃ text, bytes = Utf8.encode text) ∧
      (∀ line : String, answer = .ok (some line) ↔
        ¬ Overlong stream ∧ stream ≠ [] ∧ ∃ text, bytes = Utf8.encode text ∧ Strips text line.toList) ∧
      (∀ front rest rest' : List UInt8, lineFeed ∈ front → stream = front ++ rest →
        ∀ chunks : List (List UInt8), chunks.flatten = front ++ rest' → Line.read chunks = answer) ∧
      ∀ text : String, '\n' ∉ text.toList → (Utf8.encode text.toList).length + 1 ≤ maxBytes →
        (∃ rest, stream = Utf8.encode text.toList ++ lineFeed :: rest) ∨
          stream = Utf8.encode text.toList ∧ text ≠ "" →
        ∃ line : String, answer = .ok (some line) ∧ Strips text.toList line.toList := by
  obtain ⟨bytes, hpart⟩ := Part.exists_part stream
  have hlong : ofBytes bytes = .error .tooLong ↔ Overlong stream := by
    rw [ofBytes_eq_tooLong_iff, hpart.isCut_iff]
  refine ⟨bytes, ofBytes bytes, fun b => ⟨hpart.unique, fun h => h ▸ hpart⟩,
    fun chunks hchunks => Part.read_eq (hchunks ▸ hpart), fun chunks => Part.read_eq, ?_, hlong, ?_, fun line => ?_,
    fun front rest rest' hfeed hstream chunks hchunks => ?_, fun text htext hlen hcases => ?_⟩
  · rw [ofBytes_eq_none_iff, hpart.eq_nil_iff]
  · by_cases hover : Overlong stream
    · simp [hlong.2 hover, hover]
    · rw [ofBytes_eq_notText_iff (mt hpart.isCut_iff.1 hover)]
      exact (and_iff_right hover).symm
  · by_cases hover : Overlong stream
    · simp [hlong.2 hover, hover]
    · rw [ofBytes_eq_some_iff (mt hpart.isCut_iff.1 hover), ne_eq, hpart.eq_nil_iff]
      exact (and_iff_right hover).symm
  · obtain ⟨bytes', hfront⟩ := Part.exists_of_lineFeed hfeed
    obtain rfl : bytes' = bytes := hpart.unique (hstream ▸ hfront rest)
    exact Part.read_eq (hchunks ▸ hfront rest')
  · refine ⟨stripped text, ?_, strips_stripped text⟩
    rcases hcases with ⟨rest, rfl⟩ | ⟨rfl, hne⟩
    · exact ofBytes_of_lineFeed htext hlen hpart
    · exact ofBytes_of_end hne htext hlen hpart

/-- A character that is cut in two and bytes after the line feed that are no text make no difference. -/
theorem read_of_split_character :
    '\n' ∉ "aé\r".toList ∧ (Utf8.encode "aé\r".toList).length + 1 ≤ maxBytes ∧
      ([[97, 195], [], [169, 13], [10, 255]] : List (List UInt8)).flatten =
        Utf8.encode "aé\r".toList ++ lineFeed :: [255] ∧
      ∃ line : String, Line.read [[97, 195], [], [169, 13], [10, 255]] = .ok (some line) ∧
        Strips "aé\r".toList line.toList := by
  have htext : '\n' ∉ "aé\r".toList := by decide
  have hlen : (Utf8.encode "aé\r".toList).length + 1 ≤ maxBytes := by decide
  have hstream : ([[97, 195], [], [169, 13], [10, 255]] : List (List UInt8)).flatten =
      Utf8.encode "aé\r".toList ++ lineFeed :: [255] := by decide
  obtain ⟨_, answer, -, hread, -, -, -, -, -, -, hline⟩ := read_exact (Utf8.encode "aé\r".toList ++ lineFeed :: [255])
  rw [hread _ hstream]
  exact ⟨htext, hlen, hstream, hline _ htext hlen (.inl ⟨_, rfl⟩)⟩

end Line

end SessionRouting
