/-
Calls and the commands that the daemon reads of them. The arguments of a call stand in its line as they are, so that
blanks and line feeds in them make other words of it. Whatever they are, the daemon reads a command of the kind that is
called, or none, and then the call fails. It reads the command that is called if the arguments fit a line
(`Client.Call.Plain`), and another one otherwise: `read_iff_plain` and `read_other_than_called`.
-/
import SessionRouting.Proofs.Address.Grammar
import SessionRouting.Proofs.Command.Grammar
import SessionRouting.Proofs.Connection.Chunks
import SessionRouting.Proofs.Connection.Torn
import SessionRouting.Proofs.Handoff.Exchange

namespace SessionRouting

open Text

/-- Nothing but blanks comes after the first line feed of the text, if it has one. -/
def Text.EndsLine (s : String) : Prop := ∀ c ∈ Line.later s, isBlank c = true

instance (s : String) : Decidable (EndsLine s) := decidable_of_iff _ List.all_eq_true

/-- The command that the daemon reads from the chunks of a connection, if they give one. -/
def Connection.command? (chunks : List (List UInt8)) : Option Command :=
  match Line.read chunks with
  | .ok (some line) => (Command.parse line).toOption
  | _ => none

namespace Client.Call

/-- The command that is called, if its host is an address: the user as it is, and the canonical address. -/
def command : Call → Option Command
  | connect user host => (Address.normalize host).toOption.map (.connect user)
  | disconnect user host => (Address.normalize host).toOption.map (.disconnect user)
  | disable host => (Address.normalize host).toOption.map .disable
  | enable host => (Address.normalize host).toOption.map .enable
  | failure host => (Address.normalize host).toOption.map .failure
  | info topic => (Command.Topic.ofName? topic).map .info

/-- The arguments fit a line: users and topics are words, and hosts end the line. -/
def Plain : Call → Prop
  | connect user host => IsWord user ∧ EndsLine host
  | disconnect user host => IsWord user ∧ EndsLine host
  | disable host => EndsLine host
  | enable host => EndsLine host
  | failure host => EndsLine host
  | info topic => IsWord topic

end Client.Call

/-! ## First lines and their words -/

namespace Line

theorem first_eq_self {s : String} (hs : '\n' ∉ s.toList) : first s = s := by
  have htake : s.toList.takeWhile (· ≠ '\n') = s.toList :=
    List.takeWhile_eq_self_iff.2 fun c hc => decide_eq_true fun h => hs (h ▸ hc)
  rw [first, htake, String.ofList_toList]

theorem first_append {s : String} (hs : '\n' ∉ s.toList) (t : String) : first (s ++ t) = s ++ first t := by
  have hkeep : ∀ c ∈ s.toList, decide (c ≠ '\n') = true := fun c hc => decide_eq_true fun h => hs (h ▸ hc)
  unfold first
  rw [String.toList_append, List.takeWhile_append_of_pos hkeep, String.ofList_append, String.ofList_toList]

end Line

theorem Text.IsWord.lineFeed_not_mem {s : String} (hs : IsWord s) : '\n' ∉ s.toList :=
  fun h => absurd (hs.2 '\n' h) (by decide)

namespace Command

theorem isWord_of_mem_wordsOf {s w : String} (h : w ∈ wordsOf s) : IsWord w := by
  rw [wordsOf_eq] at h
  obtain ⟨v, hv, rfl⟩ := List.mem_map.1 h
  exact isWord_of_mem_words hv

/-- A word, a space and more words. -/
theorem wordsOf_append {w : String} (hw : IsWord w) (s : String) : wordsOf (w ++ " " ++ s) = w :: wordsOf s := by
  have htext : (w ++ " " ++ s).toList = w.toList ++ ' ' :: s.toList := by
    simp [String.toList_append]
  have hne : w.toList ≠ [] := fun h => hw.1 (String.toList_eq_nil_iff.1 h)
  rw [wordsOf_eq, wordsOf_eq, htext, words_append_cons (by decide), words_of_not_isBlank hne hw.2]
  simp

theorem wordsOf_of_isWord {w : String} (hw : IsWord w) : wordsOf w = [w] := by
  have hne : w.toList ≠ [] := fun h => hw.1 (String.toList_eq_nil_iff.1 h)
  rw [wordsOf_eq, words_of_not_isBlank hne hw.2]
  simp

/-- The words of a text are those of its first line and those after it. -/
theorem wordsOf_eq_append (s : String) :
    wordsOf s = wordsOf (Line.first s) ++ (words (Line.later s)).map String.ofList := by
  rw [wordsOf_eq, wordsOf_eq, ← List.map_append, ← Line.first_append_later s]
  rcases Line.later_cases s with h | ⟨rest, h⟩
  · rw [h, List.append_nil, words_eq_nil_iff.2 fun c hc => absurd hc List.not_mem_nil, List.append_nil]
  · have hblank : isBlank '\n' = true := by decide
    rw [h, words_append_cons hblank, words_cons_of_blank hblank]

/-- A text has no words but those of its first line exactly if it ends its line. -/
theorem wordsOf_eq_first_iff (s : String) : wordsOf s = wordsOf (Line.first s) ↔ EndsLine s := by
  rw [wordsOf_eq_append, List.append_right_eq_self, List.map_eq_nil_iff, words_eq_nil_iff]
  rfl

theorem wordsOf_of_normalize {s a : String} (h : Address.normalize s = .ok a) :
    wordsOf s = [String.ofList (trim s.toList)] := by
  rw [wordsOf_eq, Address.words_of_normalize h]
  rfl

/-- An address is read from its only word. -/
theorem normalize_of_wordsOf {s w : String} (h : wordsOf s = [w]) : Address.normalize s = Address.normalize w := by
  rw [wordsOf_eq] at h
  obtain ⟨v, hv, hw⟩ := List.map_eq_singleton_iff.1 h
  obtain rfl := hw
  refine Address.normalize_of_trim ?_
  rw [trim_of_words hv, String.toList_ofList]
  have hmem : v ∈ words s.toList := hv ▸ List.mem_singleton_self v
  exact (trim_of_not_isBlank (words_spec _ v hmem).2).symm

/-! ## Arguments -/

theorem Gives.length_eq {k : Kind} {args : List String} {c : Command} (h : Gives k args (.ok c)) :
    args.length = k.arity := by
  cases h with
  | address ht ha => exact ht.length_eq
  | topic t => rfl

theorem Gives.kind_eq {k : Kind} {args : List String} {c : Command} (h : Gives k args (.ok c)) : c.kind = k := by
  cases h with
  | address ht ha => cases ht <;> rfl
  | topic t => rfl

/-- All arguments but the last one are taken as they are. -/
theorem Gives.dropLast_args {k : Kind} {args : List String} {c : Command} (h : Gives k args (.ok c)) :
    c.args.dropLast = args.dropLast := by
  cases h with
  | address ht ha => cases ht <;> rfl
  | topic t => rfl

theorem command_eq_some_iff {make : String → Command} {host : String} {c : Command} :
    (Address.normalize host).toOption.map make = some c ↔ ∃ a, Address.normalize host = .ok a ∧ make a = c := by
  cases Address.normalize host <;> simp [Except.toOption]

section

variable {k : Kind} (front : List String) {make : String → Command} (hk : ∀ w, Takes k (front ++ [w]) w make)
variable {host : String} {c : Command}

include hk

theorem gives_iff {w : String} : Gives k (front ++ [w]) (.ok c) ↔ ∃ a, Address.normalize w = .ok a ∧ make a = c := by
  rw [← ofArgs_eq_iff, ofArgs_of_takes (hk w), readAddress]
  cases Address.normalize w <;> simp [Except.map, Except.mapError]

/-- The command that is read of the first line is the one that the whole text gives, if this ends its line. -/
theorem command_eq_iff_of_front (h : Gives k (front ++ wordsOf (Line.first host)) (.ok c)) :
    (Address.normalize host).toOption.map make = some c ↔ EndsLine host := by
  have hlen : (wordsOf (Line.first host)).length = 1 := by
    have hfront := (hk "").length_eq
    have hall := h.length_eq
    rw [List.length_append] at hall hfront
    simp only [List.length_singleton] at hfront
    omega
  obtain ⟨w, hw⟩ := List.length_eq_one_iff.1 hlen
  rw [hw, gives_iff front hk] at h
  rw [command_eq_some_iff, ← wordsOf_eq_first_iff, hw]
  constructor
  · rintro ⟨a, ha, -⟩
    -- an address is one word, and so it has no other one than this
    have hone := wordsOf_of_normalize ha
    have hall := wordsOf_eq_append host
    rw [hone, hw, List.singleton_append] at hall
    rw [hone, (List.cons.inj hall).1]
  · intro hwords
    rw [normalize_of_wordsOf hwords]
    exact h

/-- With a host that ends its line, the command is read. -/
theorem gives_of_front (he : EndsLine host) (h : (Address.normalize host).toOption.map make = some c) :
    Gives k (front ++ wordsOf (Line.first host)) (.ok c) := by
  obtain ⟨a, ha, hc⟩ := command_eq_some_iff.1 h
  have hwords := wordsOf_of_normalize ha
  rw [← (wordsOf_eq_first_iff host).2 he, hwords, gives_iff front hk]
  exact ⟨a, (normalize_of_wordsOf hwords).symm.trans ha, hc⟩

end

section

variable {k : Kind} {make : String → String → Command} (hk : ∀ user w, Takes k [user, w] w (make user))
variable {user host : String} {c : Command}

theorem wordsOf_first_pair (hu : IsWord user) (host : String) :
    wordsOf (Line.first (user ++ " " ++ host)) = [user] ++ wordsOf (Line.first host) := by
  have hfeed : '\n' ∉ (user ++ " ").toList := by
    rw [String.toList_append, List.mem_append]
    exact not_or.2 ⟨hu.lineFeed_not_mem, by decide⟩
  rw [Line.first_append hfeed, wordsOf_append hu]
  rfl

include hk

/-- With a user in front of the host, that has to be a word. -/
theorem command_eq_iff_word_endsLine (hargs : ∀ user a, (make user a).args = [user, a])
    (h : Gives k (wordsOf (Line.first (user ++ " " ++ host))) (.ok c)) :
    (Address.normalize host).toOption.map (make user) = some c ↔ IsWord user ∧ EndsLine host := by
  constructor
  · intro hc
    have hu : IsWord user := by
      obtain ⟨a, -, rfl⟩ := command_eq_some_iff.1 hc
      have hmem : user ∈ (wordsOf (Line.first (user ++ " " ++ host))).dropLast := by
        rw [← h.dropLast_args, hargs]
        exact List.mem_singleton_self user
      exact isWord_of_mem_wordsOf (List.mem_of_mem_dropLast hmem)
    rw [wordsOf_first_pair hu] at h
    exact ⟨hu, (command_eq_iff_of_front [user] (hk user) h).1 hc⟩
  · rintro ⟨hu, he⟩
    rw [wordsOf_first_pair hu] at h
    exact (command_eq_iff_of_front [user] (hk user) h).2 he

theorem gives_of_word_endsLine (hu : IsWord user) (he : EndsLine host)
    (h : (Address.normalize host).toOption.map (make user) = some c) :
    Gives k (wordsOf (Line.first (user ++ " " ++ host))) (.ok c) := by
  rw [wordsOf_first_pair hu]
  exact gives_of_front [user] (hk user) he h

end

section

variable {k : Kind} {make : String → Command} (hk : ∀ w, Takes k [w] w make) {host : String} {c : Command}

include hk

theorem command_eq_iff_endsLine (h : Gives k (wordsOf (Line.first host)) (.ok c)) :
    (Address.normalize host).toOption.map make = some c ↔ EndsLine host := by
  rw [← List.nil_append (wordsOf _)] at h
  exact command_eq_iff_of_front [] hk h

theorem gives_of_endsLine (he : EndsLine host) (h : (Address.normalize host).toOption.map make = some c) :
    Gives k (wordsOf (Line.first host)) (.ok c) := by
  rw [← List.nil_append (wordsOf _)]
  exact gives_of_front [] hk he h

end

theorem Gives.info {args : List String} {c : Command} (h : Gives .info args (.ok c)) :
    ∃ t : Topic, args = [t.name] ∧ c = .info t := by
  cases h with
  | address ht ha => cases ht
  | topic t => exact ⟨t, rfl, rfl⟩

theorem wordsOf_first_of_isWord {w : String} (hw : IsWord w) : wordsOf (Line.first w) = [w] := by
  rw [Line.first_eq_self hw.lineFeed_not_mem, wordsOf_of_isWord hw]

end Command

namespace Client

namespace Call

/-- What stands in the line of a call after the name of the command. -/
def tail : Call → String
  | connect user host => user ++ " " ++ host
  | disconnect user host => user ++ " " ++ host
  | disable host => host
  | enable host => host
  | failure host => host
  | info topic => topic

/-- The words of the arguments of a call, as far as they stand on the first line. -/
def words (call : Call) : List String := Command.wordsOf (Line.first call.tail)

theorem line_eq (call : Call) : call.line = call.kind.name ++ " " ++ call.tail := by
  unfold line
  refine String.toList_inj.1 ?_
  rw [String.toList_intercalate]
  cases call <;>
    simp [args, tail, List.intercalate_cons_cons, List.intercalate_singleton, String.toList_append]

/-- The first line of a call is read as what the words on it mean. -/
theorem parse_first_line (call : Call) :
    Command.parse (Line.first call.line) = Command.ofArgs call.kind call.words := by
  have hname := call.kind.isWord_name
  have hfeed : '\n' ∉ (call.kind.name ++ " ").toList := by
    rw [String.toList_append, List.mem_append]
    exact not_or.2 ⟨hname.lineFeed_not_mem, by decide⟩
  rw [Command.parse_eq_iff, line_eq, Line.first_append hfeed, Command.wordsOf_append hname]
  exact .command call.kind.called_name (Command.gives_ofArgs _ _)

theorem command_eq_iff_plain {call : Call} {c : Command} (h : Command.Gives call.kind call.words (.ok c)) :
    call.command = some c ↔ call.Plain := by
  cases call with
  | connect user host => exact Command.command_eq_iff_word_endsLine .connect (fun _ _ => rfl) h
  | disconnect user host => exact Command.command_eq_iff_word_endsLine .disconnect (fun _ _ => rfl) h
  | disable host => exact Command.command_eq_iff_endsLine .disable h
  | enable host => exact Command.command_eq_iff_endsLine .enable h
  | failure host => exact Command.command_eq_iff_endsLine .failure h
  | info topic =>
    obtain ⟨t, hwords, rfl⟩ := Command.Gives.info h
    have hcalled : (info topic).command = some (.info t) ↔ topic = t.name := by
      rw [← Command.Topic.ofName?_eq_some_iff]
      show (Command.Topic.ofName? topic).map Command.info = _ ↔ _
      simp
    rw [hcalled]
    constructor
    · rintro rfl
      exact t.isWord_name
    · intro hw
      rw [words, tail, Command.wordsOf_first_of_isWord hw] at hwords
      exact (List.cons.inj hwords).1

theorem gives_of_plain {call : Call} {c : Command} (hp : call.Plain) (h : call.command = some c) :
    Command.Gives call.kind call.words (.ok c) := by
  cases call with
  | connect user host => exact Command.gives_of_word_endsLine .connect hp.1 hp.2 h
  | disconnect user host => exact Command.gives_of_word_endsLine .disconnect hp.1 hp.2 h
  | disable host => exact Command.gives_of_endsLine .disable hp h
  | enable host => exact Command.gives_of_endsLine .enable hp h
  | failure host => exact Command.gives_of_endsLine .failure hp h
  | info topic =>
    obtain ⟨t, ht, rfl⟩ := Option.map_eq_some_iff.1 h
    rw [words, tail, Command.wordsOf_first_of_isWord hp, Command.Topic.ofName?_eq_some_iff.1 ht]
    exact .topic t

/-- The words of such a call are read as what is called, and as nothing if its host is no address. -/
theorem toOption_ofArgs_words {call : Call} (hp : call.Plain) :
    (Command.ofArgs call.kind call.words).toOption = call.command := by
  have hgives := Command.gives_ofArgs call.kind call.words
  cases hargs : Command.ofArgs call.kind call.words with
  | ok c =>
    rw [hargs] at hgives
    exact ((command_eq_iff_plain hgives).2 hp).symm
  | error e =>
    cases hc : call.command with
    | none => rfl
    | some c =>
      rw [Command.ofArgs_eq_iff.2 (gives_of_plain hp hc)] at hargs
      cases hargs

/-- The daemon reads the words of the first line of a call, if that keeps to the limit. -/
theorem command?_request {call : Call} {chunks : List (List UInt8)} (hchunks : chunks.flatten = request call.line) :
    Connection.command? chunks =
      if (Utf8.encode (Line.first call.line).toList).length < Line.maxBytes then
        (Command.ofArgs call.kind call.words).toOption
      else none := by
  unfold Connection.command?
  rw [(Line.read_request hchunks).2]
  by_cases hlen : (Utf8.encode (Line.first call.line).toList).length < Line.maxBytes
  · rw [if_pos hlen, if_pos hlen]
    simp only [Line.parse_stripped, parse_first_line]
  · rw [if_neg hlen, if_neg hlen]

theorem gives_of_command? {call : Call} {chunks : List (List UInt8)} (hchunks : chunks.flatten = request call.line)
    {c : Command} (h : Connection.command? chunks = some c) : Command.Gives call.kind call.words (.ok c) := by
  rw [command?_request hchunks] at h
  split at h
  · rw [← Command.ofArgs_eq_iff]
    cases hargs : Command.ofArgs call.kind call.words with
    | ok c' =>
      rw [hargs] at h
      rw [Option.some.inj h]
    | error e =>
      rw [hargs] at h
      cases h
  · cases h

end Call

variable {σ : Type} [World σ]

/-- Nothing is no frame. -/
theorem decode_nil : Response.decode [] = .error (.malformed .noEnding) := by
  unfold Response.decode
  rw [show Utf8.decode [] = .ok [] from Utf8.decode_encode []]
  rfl

/-- A refusal is an error for the client. -/
theorem decode_refusal (e : Refusal) : ∃ f, Response.decode (Frame.bytes (Frame.ofResult (.error e))) = .error f := by
  refine ⟨.refused (flat e.message), ?_⟩
  show Response.decode (Frame.bytes (Frame.ofMessage e.message)) = _
  rw [← Frame.ofMessage_flat]
  exact Response.decode_message (isLine_flat _)

/-- What is read as no command comes back as an error, whatever the daemon has been doing. -/
theorem send_of_unread (r : Router) (s₀ : Service σ) (ms : List Handoff.Move) {line : String}
    {chunks : List UInt8 → List (List UInt8)} (hchunks : ∀ bytes, (chunks bytes).flatten = bytes) (ended : Bool)
    (h : Connection.command? (chunks (request line)) = none) :
    ∃ f, ((send (fun bytes => .ok <$> Connection.serve (Handoff.exchange r) (chunks bytes) ended) line).run
      (({ service := s₀ } : Handoff σ).play r.policy ms)).1 = .error f := by
  have hdone := (Line.read_request (hchunks (request line))).1
  unfold Connection.command? Line.read at h
  unfold send Connection.serve
  simp only [hdone, Bool.or_true, ↓reduceIte, Program.run_bind, Program.run_map, Program.run_pure]
  generalize Line.ofBytes ((chunks (request line)).foldl Line.Progress.feed {}).bytes = read at h
  cases read with
  | error f => exact ⟨_, decode_nil⟩
  | ok text =>
    cases text with
    | none => exact ⟨_, decode_nil⟩
    | some text =>
      simp only at h
      have hrefused : ∃ e,
          ((Handoff.exchange r text).run (({ service := s₀ } : Handoff σ).play r.policy ms)).1 = .error e := by
        rcases Handoff.exchange_of_play r s₀ ms text with hx | ⟨s, hx⟩
        · exact ⟨_, hx⟩
        · cases hp : Command.parse text with
          | error e => exact ⟨e, hx.trans (Service.process_of_error r hp s).1⟩
          | ok c =>
            rw [hp] at h
            cases h
      obtain ⟨e, he⟩ := hrefused
      simp only [Connection.answer, Program.run_bind, Program.run_pure, he]
      exact decode_refusal e

/-- What a call makes the daemon do. Let the daemon be in any state, and the bytes of the call arrive in whatever
chunks. If the daemon reads no command from them, the call ends in an error. If it reads one, this is of the kind that
is called, and it is the command that is called, with the user as it is and the canonical address, exactly if the user
is a word and nothing but blanks comes after the first line feed of the host. A call with such arguments is read as what
is called, and as nothing if its host is no address or its first line has more than 4095 bytes. -/
theorem read_iff_plain (r : Router) (s₀ : Service σ) (ms : List Handoff.Move) (call : Call)
    {chunks : List UInt8 → List (List UInt8)} (hchunks : ∀ bytes, (chunks bytes).flatten = bytes) (ended : Bool) :
    let h := ({ service := s₀ } : Handoff σ).play r.policy ms
    let dial := fun bytes => .ok <$> Connection.serve (Handoff.exchange r) (chunks bytes) ended
    let read := Connection.command? (chunks (request call.line))
    (read = none → ∃ f, ((send dial call.line).run h).1 = .error f) ∧
    (∀ c, read = some c → c.kind = call.kind ∧ (call.command = some c ↔ call.Plain)) ∧
    (call.Plain → read = if (Utf8.encode (Line.first call.line).toList).length ≤ 4095 then call.command else none) := by
  intro h dial read
  have hbytes := hchunks (request call.line)
  refine ⟨send_of_unread r s₀ ms hchunks ended, fun c hc => ?_, fun hp => ?_⟩
  · have hgives := Call.gives_of_command? hbytes hc
    exact ⟨hgives.kind_eq, Call.command_eq_iff_plain hgives⟩
  · show Connection.command? (chunks (request call.line)) = _
    rw [Call.command?_request hbytes, Call.toOption_ofArgs_words hp]
    exact if_congr Nat.lt_succ_iff rfl rfl

/-- A user with an umlaut and a host with blanks around it, byte by byte. A daemon that has begun to stop gets a call
without a host. -/
theorem read_of_blanks_around :
    let r : Router := .flat ["h1:22"]
    let s₀ : Service (Script fun _ => true) := Service.fresh 5 ⟨0⟩
    let chunks (bytes : List UInt8) : List (List UInt8) := bytes.map fun b => [b]
    let call : Call := .connect "Ümit" " SVC\n\r\t"
    (∀ bytes, (chunks bytes).flatten = bytes) ∧
      Connection.command? (chunks (request call.line)) = some (.connect "Ümit" "svc:22") ∧
      ∃ f, ((send (fun bytes => .ok <$> Connection.serve (Handoff.exchange r) (chunks bytes) true)
        (Call.disable "").line).run (({ service := s₀ } : Handoff _).play r.policy [.trigger, .notice])).1 =
          .error f := by
  intro r s₀ chunks call
  have hchunks : ∀ bytes, (chunks bytes).flatten = bytes := fun bytes =>
    (List.flatMap_def ..).symm.trans (List.flatMap_singleton' bytes)
  have hplain : call.Plain := ⟨by decide +kernel, by decide +kernel⟩
  have hcalled : call.command = some (.connect "Ümit" "svc:22") := by decide +kernel
  refine ⟨hchunks, ?_, ?_⟩
  · have hshort : (Utf8.encode (Line.first call.line).toList).length ≤ 4095 := by decide +kernel
    exact ((read_iff_plain r s₀ [] call hchunks true).2.2 hplain).trans ((if_pos hshort).trans hcalled)
  · exact (read_iff_plain r s₀ [.trigger, .notice] (.disable "") hchunks true).1 (by decide +kernel)

/-- Calls that make the daemon do what is not called, without an error. A blank in the user gives the address of the
command when the host is empty, and a line feed in the host leaves out what comes after it. -/
theorem read_other_than_called :
    let r : Router := .flat ["h1:22"]
    let h : Handoff (Script fun _ => true) := { service := Service.fresh 5 ⟨0⟩ }
    let dial (bytes : List UInt8) : StateM (Handoff (Script fun _ => true)) (Except Response.Fault (List UInt8)) :=
      .ok <$> Connection.serve (Handoff.exchange r) [bytes] true
    let shifted : Call := .connect "alice svc" ""
    let cut : Call := .disable "h1\nh2"
    (Connection.command? [request shifted.line] = some (.connect "alice" "svc:22") ∧ shifted.command = none ∧
      ((send dial shifted.line).run h).1 = .ok "h1:22") ∧
    (Connection.command? [request cut.line] = some (.disable "h1:22") ∧ cut.command = none ∧
      ((send dial cut.line).run h).1 = .ok "OK") := by
  refine ⟨⟨by decide +kernel, by decide +kernel, by decide +kernel⟩, by decide +kernel, by decide +kernel, ?_⟩
  decide +kernel

end Client

end SessionRouting
