/-
The control protocol is transparent. What a client gets that sends a line to a daemon with a free worker is what reading
the line and carrying it out on the service comes to (`Service.outcome`): the payload of the reply, or the message of
the refusal, without a change to either. Between them stand the bytes of the line and their chunks, the handoff, the
frame and its bytes.
-/
import SessionRouting.Proofs.Connection.Line
import SessionRouting.Proofs.Connection.Message
import SessionRouting.Proofs.Handoff.Exchange
import SessionRouting.Proofs.Service.Canonical

namespace SessionRouting

open Text

variable {σ : Type} [World σ]

namespace Service

/-! ## What a line comes to -/

/-- What comes of reading a line and carrying out the command. -/
def outcome (r : Router) (s : Service σ) (line : String) : Except Refusal Reply := do
  let c ← Command.parse line
  let completion ← result r s c
  return completion.reply

theorem outcome_of_error (r : Router) (s : Service σ) {line : String} {e : Refusal}
    (hp : Command.parse line = .error e) : outcome r s line = .error e := by
  unfold outcome
  rw [hp]
  rfl

theorem outcome_of_ok (r : Router) (s : Service σ) {line : String} {c : Command} (hp : Command.parse line = .ok c) :
    outcome r s line = (result r s c).map Completion.reply := by
  unfold outcome
  rw [hp]
  rfl

omit [World σ] in
theorem Untouched.bare_eq {s s' : Service σ} (h : Untouched s s') : s'.bare = s.bare := by
  unfold bare retrace Health.Watch.retrace
  rw [h.sessions, h.records, h.interval, h.world]

/-- The answer to a line is its outcome, whatever the trace is. -/
theorem answer_eq_outcome (r : Router) {s s' : Service σ} (h : s.bare = s'.bare) (line : String) :
    answer r s line = outcome r s' line := by
  cases hp : Command.parse line with
  | error e => exact (process_of_error r hp s).1.trans (outcome_of_error r s' hp).symm
  | ok c =>
    obtain ⟨s₀, h0, hx, -⟩ := process_of_ok r hp s
    rw [outcome_of_ok r s' hp, ← result_congr (h0.bare_eq.trans h) r c]
    exact hx

/-! ## What frames have to carry -/

/-- A route that is not found is refused on one line. -/
theorem isLine_of_routed {r : Router} (hd : r.directory.Plain) {user target : String} (hu : IsLine user)
    {h h' : Health.Watch σ} {f : Routing.Fault} (hx : Routing.Routed r user target h (.error f) h') :
    IsLine f.message := by
  cases hx with
  | ungrouped hg => exact hd.isLine hu hg
  | exhausted => exact by decide

/-- The outcome of a line in a state that lines have led to is such that a frame can carry it. -/
theorem carries_outcome {s : Settings} {r : Router} (hr : s.compilePolicy = .ok r.policy) (hd : r.directory.Plain)
    {lines : List String} {t : Service σ} (h : Canonical s lines t) {line : String}
    (hfits : ∀ topic, Command.parse line = .ok (.info topic) →
      (Utf8.encode (t.listing topic).toList).length ≤ Response.maxLength) :
    Frame.Carries (outcome r t line) := by
  have hread := Command.reading_parse line
  cases hp : Command.parse line with
  | error e =>
    rw [outcome_of_error r t hp]
    rw [hp] at hread
    refine Command.Misread.isLine (fun w hw => ?_) hread
    obtain ⟨v, hv, rfl⟩ := List.mem_map.1 hw
    exact Command.isWord_of_mem_words hv
  | ok c =>
    have hparsed := Command.parsed_of_parse hp
    have hx := executed r t c
    have hnext := h.next hr hp
    rw [outcome_of_ok r t hp]
    generalize hresult : result r t c = x at hx
    generalize next r t c = t' at hx hnext
    have hok : IsLine Reply.ok.payload := by decide
    cases c with
    | connect user target =>
      cases hx with
      | connected hx =>
        obtain ⟨-, e, he, rfl, -⟩ := hx.ok_record
        have hcanonical := (hnext.record _ (hnext.entry _ e he).2.1).1
        exact isLine_of_not_isBlank (Address.not_isBlank_of_normalize hcanonical)
      | refused hx =>
        cases hparsed with
        | connect hu _ =>
          cases hx with
          | failed _ hroute => exact isLine_of_routed hd hu.isLine hroute
    | info topic =>
      cases hx with
      | listed => exact hfits topic hp
    | disconnect user target => cases hx <;> exact hok
    | disable host => cases hx; exact hok
    | enable host => cases hx <;> exact hok
    | failure host => cases hx <;> exact hok

end Service

namespace Client

/-! ## From the client and back -/

/-- What comes back over a connection on which a whole line arrives is the frame of the answer to it. -/
theorem serve_request {m : Type → Type} [Monad m] (submit : String → m (Except Refusal Reply)) {line : String}
    (hline : '\n' ∉ line.toList) (hlen : (Utf8.encode line.toList).length < Line.maxBytes)
    {chunks : List (List UInt8)} (hchunks : chunks.flatten = request line) (ended : Bool) :
    Connection.serve submit chunks ended =
      do return Frame.bytes (Frame.ofResult (← submit (Line.stripped line))) := by
  unfold Connection.serve
  simp only [Line.foldl_feed_request hline hlen hchunks, Bool.or_true, ↓reduceIte, Line.ofBytes_request,
    Connection.answer]

/-- The client gets what the frame of the answer says. -/
theorem run_send (r : Router) {h : Handoff σ} (hi : h.Idle) {line : String} (hline : '\n' ∉ line.toList)
    (hlen : (Utf8.encode line.toList).length < Line.maxBytes) {chunks : List UInt8 → List (List UInt8)}
    (hchunks : ∀ bytes, (chunks bytes).flatten = bytes) (ended : Bool) :
    ((send (fun bytes => .ok <$> Connection.serve (Handoff.exchange r) (chunks bytes) ended) line).run h).1 =
      Response.decode (Frame.bytes (Frame.ofResult (Service.answer r h.service (Line.stripped line)))) := by
  have hserve := serve_request (Handoff.exchange (σ := σ) r) hline hlen (hchunks (request line)) ended
  unfold send
  simp only [hserve, Program.run_bind, Program.run_map, (Handoff.exchange_of_idle r hi _).1, Program.run_pure]

theorem outcome_stripped (r : Router) (t : Service σ) (line : String) :
    Service.outcome r t (Line.stripped line) = Service.outcome r t line := by
  unfold Service.outcome
  rw [Line.parse_stripped]

/-- A line that a client sends comes back as what it comes to. Let the daemon be in any state that lines lead to from
its start, whatever the directory has answered at each of them, with a free worker; the line have no line feed and no
more than 4095 bytes; and the bytes arrive in whatever chunks. Then a line that is no command and a command that is
refused come back with the message of the refusal, and a command that is carried out with the text of its reply. The
response is never malformed. The directory has to give its reasons on one line now, and the listings must not be longer
than a frame can state. -/
theorem send_transparent {s : Settings} {r : Router} (hr : s.compilePolicy = .ok r.policy) (hd : r.directory.Plain)
    (w : σ) (lines : List (String × Directory)) {h : Handoff σ} (hi : h.Idle)
    (hs : h.service.own = (Service.served r.policy (Service.start s.healthCheck.intervalSecs w) lines).own)
    {line : String} (hline : '\n' ∉ line.toList) (hlen : (Utf8.encode line.toList).length ≤ 4095)
    (hfits : ∀ topic, Command.parse line = .ok (.info topic) →
      (Utf8.encode (h.service.listing topic).toList).length ≤ Response.maxLength)
    {chunks : List UInt8 → List (List UInt8)} (hchunks : ∀ bytes, (chunks bytes).flatten = bytes) (ended : Bool) :
    let t := Service.served r.policy (Service.start s.healthCheck.intervalSecs w) lines
    let x := ((send (fun bytes => .ok <$> Connection.serve (Handoff.exchange r) (chunks bytes) ended) line).run h).1
    (∀ e, Command.parse line = .error e → x = .error (.refused e.message)) ∧
    (∀ c e, Command.parse line = .ok c → Service.result r t c = .error e → x = .error (.refused e.message)) ∧
    (∀ c completion, Command.parse line = .ok c → Service.result r t c = .ok completion →
      x = .ok completion.reply.payload) ∧
    ∀ f, x ≠ .error (.malformed f) := by
  intro t x
  -- the traces may differ in what the handoff has noted, which neither answers nor listings read
  have hbare : h.service.bare = t.bare := Service.bare_of_own hs
  have hlisting : h.service.listing = t.listing := by
    have hown := congrArg Service.listing hs
    exact hown
  have hcarries : Frame.Carries (Service.outcome r t line) :=
    Service.carries_outcome hr hd (.served hr w lines) (hlisting ▸ hfits)
  have hx : x = Response.ofResult (Service.outcome r t line) := by
    have hrun := run_send r hi hline (Nat.lt_succ_of_le hlen) hchunks ended
    rw [Service.answer_eq_outcome r hbare, outcome_stripped, Response.decode_ofResult hcarries] at hrun
    exact hrun
  refine ⟨fun e hp => ?_, fun c e hp he => ?_, fun c completion hp hc => ?_, fun f hf => ?_⟩
  · rw [hx, Service.outcome_of_error r t hp]
    rfl
  · rw [hx, Service.outcome_of_ok r t hp, he]
    rfl
  · rw [hx, Service.outcome_of_ok r t hp, hc]
    rfl
  · rw [hx] at hf
    cases ho : Service.outcome r t line with
    | ok reply =>
      rw [ho] at hf
      cases hf
    | error e =>
      rw [ho] at hf
      cases hf

/-- A `connect` with a carriage return at its end, byte by byte, of a user who was not known at the `disable` before. -/
theorem send_transparent_connect :
    let s : Settings := { policy := { routes := (∅ : Routes).insert Policy.defaultRoute ["H1"] } }
    let r : Router :=
      { policy :=
          { global := ⟨some .ordered, (∅ : Routes).insert Policy.defaultRoute ["h1:22"]⟩
            groups := ∅
            users := ∅ }
        directory := .ofMembers ((∅ : Membership.Members).insert "alice" ∅) }
    let lines := [("disable H2", Directory.ofMembers ∅)]
    let h : Handoff (Script fun _ => true) :=
      { service := Service.served r.policy (Service.start s.healthCheck.intervalSecs ⟨0⟩) lines }
    let dial (bytes : List UInt8) : StateM (Handoff (Script fun _ => true)) (Except Response.Fault (List UInt8)) :=
      .ok <$> Connection.serve (Handoff.exchange r) (bytes.map fun b => [b]) true
    ((send dial "connect alice Svc\r").run h).1 = .ok "h1:22" := by
  intro s r lines h dial
  have hservice : h.service = Service.served r.policy (Service.start s.healthCheck.intervalSecs ⟨0⟩) lines := rfl
  have hparse : Command.parse "connect alice Svc\r" = .ok (.connect "alice" "svc:22") := by decide +kernel
  refine (send_transparent (s := s) (r := r) rfl (Directory.plain_ofMembers _) ⟨0⟩ lines (h := h) ⟨rfl, rfl, rfl, rfl⟩
    (by rw [hservice]) (by decide +kernel) (by decide +kernel) (fun topic hp => ?_) (fun bytes => ?_)
    true).2.2.1 (.connect "alice" "svc:22") { reply := .simple "h1:22" } hparse ?_
  · rw [hparse] at hp
    cases hp
  · exact (List.flatMap_def ..).symm.trans (List.flatMap_singleton' bytes)
  · decide +kernel

end Client

end SessionRouting
