/-
Chunks. What is read of a stream of bytes is the same in one piece and in any others: `Progress.foldl_feed_flatten`. It
ends with the first line feed, `Progress.feed_of_lineFeed`, or with the limit, `Progress.feed_of_long`, so that of a
request with line feeds in its line the daemon reads the first line: `read_request`.
-/
import SessionRouting.Proofs.Connection.Line

namespace SessionRouting

open Text

namespace Line

theorem cutAtLineFeed_of_prefix {front : List UInt8} (h : lineFeed ∉ front) (rest : List UInt8) :
    cutAtLineFeed (front ++ rest) = (front ++ (cutAtLineFeed rest).1, (cutAtLineFeed rest).2) := by
  induction front with
  | nil => rfl
  | cons b front ih =>
    obtain ⟨hb, hfront⟩ := not_or.1 (mt List.mem_cons.2 h)
    rw [List.cons_append, cutAtLineFeed, if_neg (Ne.symm hb), ih hfront]
    rfl

namespace Progress

/-- What is to go on has not come to the limit. -/
def Within (p : Progress) : Prop := p.isDone = false → p.bytes.length < maxBytes

theorem feed_of_isDone {p : Progress} (hp : p.isDone = true) (chunk : List UInt8) : p.feed chunk = p := if_pos hp

/-- Without a line feed up to the limit, as much is read as the limit allows. -/
theorem feed_of_long {p : Progress} {chunk : List UInt8} (hp : p.isDone = false) (hle : p.bytes.length ≤ maxBytes)
    (hfeed : lineFeed ∉ chunk.take (maxBytes - p.bytes.length)) (hlen : maxBytes ≤ p.bytes.length + chunk.length) :
    p.feed chunk = { bytes := p.bytes ++ chunk.take (maxBytes - p.bytes.length), isDone := true } := by
  have hfull : maxBytes ≤ p.bytes.length + min (maxBytes - p.bytes.length) chunk.length := by omega
  unfold feed
  simp [hp, cutAtLineFeed_of_not_mem hfeed, hfull]

theorem within_feed {p : Progress} (hp : p.Within) (chunk : List UInt8) : (p.feed chunk).Within := by
  unfold feed
  split
  · exact hp
  · intro hdone
    obtain ⟨-, hlen⟩ := Bool.or_eq_false_iff.1 hdone
    rw [List.length_append]
    exact Nat.lt_of_not_le (of_decide_eq_false hlen)

/-- Two chunks are read like one. -/
theorem feed_append {p : Progress} (hp : p.Within) (a b : List UInt8) : p.feed (a ++ b) = (p.feed a).feed b := by
  cases hdone : p.isDone with
  | true => simp only [feed_of_isDone hdone]
  | false =>
    have hroom := hp hdone
    by_cases hfeed : lineFeed ∈ a.take (maxBytes - p.bytes.length)
    · -- the line feed is in the first chunk
      obtain ⟨part, rest, ha, hpart⟩ := List.eq_append_cons_of_mem hfeed
      have hlen : p.bytes.length + part.length < maxBytes := by
        have := congrArg List.length ha
        simp only [List.length_take, List.length_append, List.length_cons] at this
        omega
      obtain ⟨rest', ha'⟩ : ∃ rest', a = part ++ lineFeed :: rest' := by
        refine ⟨rest ++ a.drop (maxBytes - p.bytes.length), ?_⟩
        conv_lhs => rw [← List.take_append_drop (maxBytes - p.bytes.length) a, ha]
        simp
      rw [ha', List.append_assoc, List.cons_append, feed_of_lineFeed hdone hpart hlen,
        feed_of_lineFeed hdone hpart hlen, feed_of_isDone rfl]
    · rcases Nat.lt_or_ge (p.bytes.length + a.length) maxBytes with hlen | hlen
      · -- the line goes on into the second chunk
        rw [List.take_of_length_le (by omega)] at hfeed
        have htake : (a ++ b).take (maxBytes - p.bytes.length) =
            a ++ b.take (maxBytes - (p.bytes ++ a).length) := by
          rw [List.take_append, List.take_of_length_le (by omega), List.length_append]
          congr 2
          omega
        rw [feed_of_not_mem hdone hfeed hlen]
        unfold feed
        simp only [hdone, Bool.false_eq_true, ↓reduceIte]
        rw [htake, cutAtLineFeed_of_prefix hfeed]
        simp only [List.append_assoc, List.length_append, Nat.add_assoc]
      · -- the limit is in the first chunk
        have htake : (a ++ b).take (maxBytes - p.bytes.length) = a.take (maxBytes - p.bytes.length) :=
          List.take_append_of_le_length (by omega)
        have hlen' : maxBytes ≤ p.bytes.length + (a ++ b).length := by
          rw [List.length_append]
          omega
        rw [feed_of_long hdone hroom.le hfeed hlen, feed_of_long hdone hroom.le (htake ▸ hfeed) hlen', htake,
          feed_of_isDone rfl]

/-- Whatever the chunks, they are read like the bytes in one piece. -/
theorem foldl_feed_flatten (chunks : List (List UInt8)) {p : Progress} (hp : p.Within) :
    chunks.foldl feed p = p.feed chunks.flatten := by
  induction chunks generalizing p with
  | nil =>
    cases hdone : p.isDone with
    | true => exact (feed_of_isDone hdone _).symm
    | false =>
      rw [List.flatten_nil, feed_of_not_mem hdone List.not_mem_nil (hp hdone), List.append_nil, ← hdone]
      rfl
  | cons chunk chunks ih =>
    rw [List.foldl_cons, ih (within_feed hp chunk), List.flatten_cons, feed_append hp]

end Progress

/-! ## Requests of any lines -/

/-- The text up to its first line feed. -/
def first (line : String) : String := String.ofList (line.toList.takeWhile (· ≠ '\n'))

/-- What comes after the first line of a text, from its line feed on. -/
def later (line : String) : List Char := line.toList.dropWhile (· ≠ '\n')

theorem lineFeed_not_mem_first (line : String) : '\n' ∉ (first line).toList := by
  intro h
  rw [first, String.toList_ofList] at h
  exact absurd (List.mem_takeWhile_imp h) (by decide)

theorem first_append_later (line : String) : (first line).toList ++ later line = line.toList := by
  rw [first, String.toList_ofList]
  exact List.takeWhile_append_dropWhile

theorem later_cases (line : String) : later line = [] ∨ ∃ rest, later line = '\n' :: rest := by
  cases hlater : later line with
  | nil => exact .inl rfl
  | cons c rest =>
    have hstop := List.head?_dropWhile_not (· ≠ '\n') line.toList
    rw [show line.toList.dropWhile (· ≠ '\n') = c :: rest from hlater] at hstop
    obtain rfl : c = '\n' := by simpa using hstop
    exact .inr ⟨rest, rfl⟩

/-- A request begins with the first line and a line feed. -/
theorem request_eq_first (line : String) :
    ∃ rest, Client.request line = Utf8.encode (first line).toList ++ lineFeed :: rest := by
  rw [request_eq, ← first_append_later line, Utf8.encode_append, List.append_assoc]
  rcases later_cases line with h | ⟨rest, h⟩
  · exact ⟨[], by rw [h]; rfl⟩
  · exact ⟨Utf8.encode rest ++ [lineFeed], by rw [h]; rfl⟩

/-- The limit cuts off what is read: the bytes reach it and do not end with a line feed. -/
def IsCut (bytes : List UInt8) : Prop := bytes.getLast? ≠ some lineFeed ∧ maxBytes ≤ bytes.length

theorem ofBytes_eq_tooLong_iff {bytes : List UInt8} : ofBytes bytes = .error .tooLong ↔ IsCut bytes := by
  unfold ofBytes IsCut
  split
  · rename_i hnil
    simp [hnil, maxBytes]
  · split
    · rename_i hlong
      simp [hlong]
    · rename_i hshort
      split <;> simp [hshort]

theorem ofBytes_of_long {bytes : List UInt8} (hfeed : lineFeed ∉ bytes) (hlen : maxBytes ≤ bytes.length) :
    ofBytes bytes = .error .tooLong :=
  ofBytes_eq_tooLong_iff.2 ⟨fun h => hfeed (List.mem_of_getLast? h), hlen⟩

/-- Of a request the first line is read, if it keeps to the limit. -/
theorem read_request {line : String} {chunks : List (List UInt8)} (hchunks : chunks.flatten = Client.request line) :
    (chunks.foldl Progress.feed {}).isDone = true ∧
      Line.read chunks = if (Utf8.encode (first line).toList).length < maxBytes then .ok (some (stripped (first line)))
        else .error .tooLong := by
  obtain ⟨rest, hrest⟩ := request_eq_first line
  have hfeed := lineFeed_not_mem (lineFeed_not_mem_first line)
  have hread : chunks.foldl Progress.feed {} = ({} : Progress).feed (Client.request line) := by
    rw [← hchunks, Progress.foldl_feed_flatten chunks fun _ => by decide]
  unfold read
  rw [hread, hrest]
  split
  · rename_i hlen
    have hsum : ({} : Progress).bytes.length + (Utf8.encode (first line).toList).length < maxBytes := by
      simpa using hlen
    rw [Progress.feed_of_lineFeed rfl hfeed hsum]
    refine ⟨rfl, ?_⟩
    simp only [List.nil_append]
    rw [← request_eq, ofBytes_request]
  · rename_i hlen
    have hle : maxBytes ≤ (Utf8.encode (first line).toList).length := Nat.le_of_not_lt hlen
    have htake : (Utf8.encode (first line).toList ++ lineFeed :: rest).take (maxBytes - ([] : List UInt8).length) =
        (Utf8.encode (first line).toList).take maxBytes := List.take_append_of_le_length hle
    have hnone : lineFeed ∉ (Utf8.encode (first line).toList).take maxBytes := fun h => hfeed (List.mem_of_mem_take h)
    rw [Progress.feed_of_long rfl (by decide) (by rwa [htake])
      (by simp only [List.length_append, List.length_nil]; omega)]
    refine ⟨rfl, ?_⟩
    simp only [List.nil_append]
    rw [htake]
    exact ofBytes_of_long hnone (by rw [List.length_take]; omega)

end Line

end SessionRouting
