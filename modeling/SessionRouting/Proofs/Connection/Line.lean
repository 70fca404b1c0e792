/-
Lines from bytes. In whatever chunks the bytes arrive, what is read is the line up to its line feed, provided that it
keeps to the limit: `foldl_feed_request`. The bytes of a request give the line without the line ends at its end
(`ofBytes_request`), which make no difference to the command: `parse_stripped`.
-/
import SessionRouting.Client
import SessionRouting.Command.Parse
import SessionRouting.Connection
import SessionRouting.Proofs.Text.Laws
import SessionRouting.Proofs.Text.Utf8

namespace SessionRouting

open Text

namespace Line

/-! ## Chunks -/

theorem cutAtLineFeed_of_not_mem {bytes : List UInt8} (h : lineFeed ∉ bytes) :
    cutAtLineFeed bytes = (bytes, false) := by
  induction bytes with
  | nil => rfl
  | cons b r ih =>
    simp only [List.mem_cons, not_or] at h
    rw [cutAtLineFeed, if_neg (Ne.symm h.1), ih h.2]

theorem cutAtLineFeed_append {bytes : List UInt8} (h : lineFeed ∉ bytes) (rest : List UInt8) :
    cutAtLineFeed (bytes ++ lineFeed :: rest) = (bytes ++ [lineFeed], true) := by
  induction bytes with
  | nil => rfl
  | cons b r ih =>
    simp only [List.mem_cons, not_or] at h
    rw [List.cons_append, cutAtLineFeed, if_neg (Ne.symm h.1), ih h.2]
    rfl

namespace Progress

/-- Nothing more is read once the line is there. -/
theorem foldl_feed_of_isDone {p : Progress} (hp : p.isDone = true) (chunks : List (List UInt8)) :
    chunks.foldl feed p = p := by
  induction chunks with
  | nil => rfl
  | cons chunk chunks ih =>
    rw [List.foldl_cons, feed, if_pos hp, ih]

/-- A chunk within the line is read whole. -/
theorem feed_of_not_mem {p : Progress} {chunk : List UInt8} (hp : p.isDone = false) (hfeed : lineFeed ∉ chunk)
    (hlen : p.bytes.length + chunk.length < maxBytes) :
    p.feed chunk = { bytes := p.bytes ++ chunk, isDone := false } := by
  have htake : chunk.take (maxBytes - p.bytes.length) = chunk := List.take_of_length_le (by omega)
  unfold feed
  simp [hp, htake, cutAtLineFeed_of_not_mem hfeed, hlen]

/-- A chunk with the line feed is read up to there. -/
theorem feed_of_lineFeed {p : Progress} {part rest : List UInt8} (hp : p.isDone = false) (hfeed : lineFeed ∉ part)
    (hlen : p.bytes.length + part.length < maxBytes) :
    p.feed (part ++ lineFeed :: rest) = { bytes := p.bytes ++ part ++ [lineFeed], isDone := true } := by
  have htake : (part ++ lineFeed :: rest).take (maxBytes - p.bytes.length) =
      part ++ lineFeed :: rest.take (maxBytes - p.bytes.length - part.length - 1) := by
    rw [List.take_append, List.take_of_length_le (by omega), List.take_cons (by omega)]
  unfold feed
  simp [hp, htake, cutAtLineFeed_append hfeed]

/-- Whatever the chunks, the line is read to its line feed and no further. -/
theorem foldl_feed (chunks : List (List UInt8)) {p : Progress} {part rest : List UInt8} (hp : p.isDone = false)
    (hfeed : lineFeed ∉ part) (hlen : p.bytes.length + part.length < maxBytes)
    (hall : chunks.flatten = part ++ lineFeed :: rest) :
    chunks.foldl feed p = { bytes := p.bytes ++ part ++ [lineFeed], isDone := true } := by
  induction chunks generalizing p part with
  | nil => simp at hall
  | cons chunk chunks ih =>
    rw [List.flatten_cons] at hall
    rw [List.foldl_cons]
    rcases List.append_eq_append_iff.1 hall with ⟨part', rfl, hall'⟩ | ⟨beyond, rfl, hbeyond⟩
    · simp only [List.mem_append, not_or] at hfeed
      rw [List.length_append] at hlen
      rw [feed_of_not_mem hp hfeed.1 (by omega), ih rfl hfeed.2 (by rw [List.length_append]; omega) hall',
        ← List.append_assoc]
    · cases beyond with
      | nil =>
        -- the chunk ends just before the line feed
        rw [List.append_nil, feed_of_not_mem hp hfeed hlen,
          ih rfl List.not_mem_nil (by rw [List.length_append]; simpa using hlen) hbeyond.symm, List.append_nil]
      | cons b beyond =>
        obtain ⟨rfl, -⟩ := List.cons.inj hbeyond
        rw [feed_of_lineFeed hp hfeed hlen, foldl_feed_of_isDone rfl]

end Progress

/-! ## Requests -/

/-- Whether a character is one of a line end. -/
def isLineEnd (c : Char) : Bool := c = '\r' || c = '\n'

theorem isBlank_of_isLineEnd {c : Char} (hc : isLineEnd c = true) : isBlank c = true := by
  simp only [isLineEnd, Bool.or_eq_true, decide_eq_true_eq] at hc
  rcases hc with rfl | rfl <;> decide

/-- The text of a line as the daemon gets it: without the line ends at its end. -/
def stripped (line : String) : String := String.ofList (dropEnd isLineEnd line.toList)

/-- Line ends at the end of a line make no difference to the command. -/
theorem parse_stripped (line : String) : Command.parse (stripped line) = Command.parse line := by
  obtain ⟨ends, hline, hends⟩ := dropEnd_split isLineEnd line.toList
  unfold Command.parse stripped
  rw [String.toList_ofList]
  conv_rhs => rw [hline]
  rw [words_append_blank _ fun c hc => isBlank_of_isLineEnd (hends c hc)]

theorem request_eq (line : String) : Client.request line = Utf8.encode line.toList ++ [lineFeed] :=
  Utf8.encode_append _ _

theorem lineFeed_not_mem {line : String} (h : '\n' ∉ line.toList) : lineFeed ∉ Utf8.encode line.toList :=
  fun hmem => h (Utf8.mem_of_mem_encode (c := '\n') (by decide) hmem)

/-- The bytes of a request give the line. -/
theorem ofBytes_request (line : String) : ofBytes (Client.request line) = .ok (some (stripped line)) := by
  have hlast : (Client.request line).getLast? = some lineFeed := by
    rw [request_eq, List.getLast?_append]
    rfl
  have hdrop : dropEnd isLineEnd (line.toList ++ ['\n']) = dropEnd isLineEnd line.toList :=
    dropEnd_append _ fun c hc => by
      obtain rfl := List.mem_singleton.1 hc
      decide
  unfold ofBytes
  rw [if_neg (by simp [request_eq]), if_neg (by simp [hlast])]
  unfold Client.request
  rw [Utf8.decode_encode]
  exact congrArg (fun cs => Except.ok (some (String.ofList cs))) hdrop

/-- However the bytes of a request arrive, they are the line, if it keeps to the limit. -/
theorem foldl_feed_request {line : String} (h : '\n' ∉ line.toList)
    (hlen : (Utf8.encode line.toList).length < maxBytes) {chunks : List (List UInt8)}
    (hchunks : chunks.flatten = Client.request line) :
    chunks.foldl Progress.feed {} = { bytes := Client.request line, isDone := true } := by
  have hsum : 0 + (Utf8.encode line.toList).length < maxBytes := by omega
  rw [request_eq] at hchunks ⊢
  exact Progress.foldl_feed chunks (p := {}) rfl (lineFeed_not_mem h) hsum hchunks

end Line

end SessionRouting
