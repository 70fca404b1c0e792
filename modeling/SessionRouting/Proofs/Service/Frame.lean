/-
What commands leave alone. Each command has a scope, the addresses that it may probe or change the verdict on, and
at most one key whose entry it may change: `next_frame`. Commands that fail, and those whose caller is mistaken,
change less: `process_intact`.
-/
import SessionRouting.Proofs.Session.Tally

namespace SessionRouting

open Health

variable {σ : Type}

/-! ## Within a scope -/

/-- Nothing but verdicts on addresses in the scope has changed, and nothing but these has been probed. -/
structure Health.Watch.Within (scope : List String) (h h' : Watch σ) : Prop where
  record : ∀ a, a ∉ scope → h'.records[a]? = h.records[a]?
  probed : ∃ l, h'.trace.probes = h.trace.probes ++ l ∧ ∀ a ∈ l, a ∈ scope

namespace Health.Watch.Within

variable {scope : List String} {h h' h'' : Watch σ}

theorem refl (scope : List String) (h : Watch σ) : Within scope h h :=
  ⟨fun _ _ => rfl, [], (List.append_nil _).symm, fun a ha => by cases ha⟩

theorem trans (h1 : Within scope h h') (h2 : Within scope h' h'') : Within scope h h'' := by
  refine ⟨fun a ha => (h2.record a ha).trans (h1.record a ha), ?_⟩
  obtain ⟨l, hl, hs⟩ := h1.probed
  obtain ⟨l', hl', hs'⟩ := h2.probed
  refine ⟨l ++ l', by rw [hl', hl, List.append_assoc], fun a ha => ?_⟩
  rcases List.mem_append.1 ha with ha | ha
  · exact hs a ha
  · exact hs' a ha

/-- A step without a probe. -/
theorem of_probes_eq (hr : ∀ a, a ∉ scope → h'.records[a]? = h.records[a]?)
    (hp : h'.trace.probes = h.trace.probes) : Within scope h h' :=
  ⟨hr, [], hp.trans (List.append_nil _).symm, fun a ha => by cases ha⟩

theorem eq_of_nil (hw : Within [] h h') : h'.records = h.records ∧ h'.trace.probes = h.trace.probes := by
  refine ⟨Std.ExtTreeMap.ext_getElem? fun a => hw.record a List.not_mem_nil, ?_⟩
  obtain ⟨l, hl, hs⟩ := hw.probed
  cases l with
  | nil => exact hl.trans (List.append_nil _)
  | cons a l => exact absurd (hs a (List.mem_cons_self ..)) List.not_mem_nil

variable [World σ]

theorem probed_self {a : String} (ha : a ∈ scope) (h : Watch σ) (cause : Event.Cause) :
    Within scope h (h.probed a cause) := by
  refine ⟨fun b hb => ?_, [a], h.probes_probed a cause, fun b hb => List.mem_singleton.1 hb ▸ ha⟩
  have hab : a ≠ b := fun hab => hb (hab ▸ ha)
  rw [getElem?_records_probed, if_neg hab]

end Health.Watch.Within

variable [World σ]

/-- No deed goes beyond the scope of its command. -/
theorem Deed.within {c : Command} {scope : List String} {h h' : Watch σ} (hd : Deed c scope h h') :
    h.Within scope h' := by
  cases hd with
  | aside ha =>
    cases ha with
    | tick => exact .of_probes_eq (fun _ _ => rfl) rfl
    | shuffle => exact .of_probes_eq (fun _ _ => rfl) rfl
    | remark he =>
      exact .of_probes_eq (fun _ _ => rfl) (Trace.collect_of_cons (Event.probedAddress?_of_isRemark he) _)
  | answer => exact .of_probes_eq (fun _ _ => rfl) (Trace.collect_of_cons rfl _)
  | @ask _ a _ ha hk =>
    have hticked : h.Within scope h.ticked := .of_probes_eq (fun _ _ => rfl) rfl
    have hprobed := hticked.trans (Watch.Within.probed_self ha h.ticked (.asked (World.time h.world)))
    exact ⟨hprobed.record, by rw [Trace.probes_eq_collect, Trace.collect_of_cons rfl]; exact hprobed.probed⟩
  | @lose _ a _ key _ ha _ _ =>
    refine .of_probes_eq (fun b hb => ?_) (h.probes_lost key a)
    have hab : ¬ (a = b ∧ h.isDisabled a = false) := fun hab => hb (hab.1 ▸ ha)
    rw [Watch.getElem?_records_lost, if_neg hab]
  | @exclude a _ ha _ =>
    refine .of_probes_eq (fun b hb => ?_) (h.ticked.probes_updated a _)
    have hab : a ≠ b := fun hab => hb (hab ▸ ha)
    exact (Watch.getElem?_records_updated h.ticked a b _).trans (if_neg hab)
  | probe _ ha => exact Watch.Within.probed_self ha h .ordered

theorem Deeds.within {c : Command} {scope : List String} {h h' : Watch σ} (hd : Deeds c scope h h') :
    h.Within scope h' := by
  induction hd with
  | refl => exact .refl scope h
  | tail _ hd ih => exact ih.trans hd.within

/-- The key whose sessions a command is about. -/
def Command.key? : Command → Option Session.Key
  | .connect user target | .disconnect user target => some ⟨user, target⟩
  | .disable _ | .enable _ | .failure _ | .info _ => none

namespace Service

theorem within_scope (r : Router) (s : Service σ) (c : Command) :
    s.watch.Within (scope r s c) (next r s c).watch :=
  (executed r s c).deeds.within

theorem getElem?_sessions_next (r : Router) (s : Service σ) {c : Command} {k : Session.Key} (hk : c.key? ≠ some k) :
    (next r s c).sessions[k]? = s.sessions[k]? := by
  refine (executed r s c).entry_eq (fun _ hc => hk ?_) fun hc => hk ?_
  · rw [hc, Command.key?]
  · rw [hc, Command.key?]

theorem sessions_next (r : Router) (s : Service σ) {c : Command} (hc : c.key? = none) :
    (next r s c).sessions = s.sessions :=
  Std.ExtTreeMap.ext_getElem? fun k => getElem?_sessions_next r s (k := k) (by simp [hc])

/-- The frame of every command, in every state. `info` leaves the whole state as it is. A `disconnect` changes no
verdict, probes nothing and changes no entry but that of its key. The commands about a host change no entry, and
probe and change the verdict on that host alone. A `connect` changes no entry but that of its key, and probes and
changes the verdicts only on the backend that the key has and on the candidates of the policy. -/
theorem next_frame (r : Router) (s : Service σ) :
    (∀ topic, next r s (.info topic) = s) ∧
    (∀ user target, let s' := next r s (.disconnect user target)
      s'.watch.records = s.watch.records ∧ s'.watch.trace.probes = s.watch.trace.probes ∧
      ∀ k : Session.Key, k ≠ ⟨user, target⟩ → s'.sessions[k]? = s.sessions[k]?) ∧
    (∀ host, ∀ c ∈ [Command.disable host, .enable host, .failure host], let s' := next r s c
      s'.sessions = s.sessions ∧ s.watch.Within [host] s'.watch) ∧
    ∀ user target, let s' := next r s (.connect user target)
      (∀ k : Session.Key, k ≠ ⟨user, target⟩ → s'.sessions[k]? = s.sessions[k]?) ∧
      s.watch.Within ((s.sessions[(⟨user, target⟩ : Session.Key)]?.map Session.backend).toList ++
        Routing.candidates r user target) s'.watch := by
  refine ⟨fun topic => rfl, ?_, ?_, ?_⟩
  · intro user target
    obtain ⟨hrecords, hprobes⟩ := (within_scope r s (.disconnect user target)).eq_of_nil
    refine ⟨hrecords, hprobes, fun k hk => getElem?_sessions_next r s ?_⟩
    simpa [Command.key?] using hk.symm
  · intro host c hc
    simp only [List.mem_cons, List.not_mem_nil, or_false] at hc
    rcases hc with rfl | rfl | rfl
    · exact ⟨sessions_next r s rfl, within_scope r s (.disable host)⟩
    · exact ⟨sessions_next r s rfl, within_scope r s (.enable host)⟩
    · exact ⟨sessions_next r s rfl, within_scope r s (.failure host)⟩
  · intro user target
    refine ⟨fun k hk => getElem?_sessions_next r s ?_, within_scope r s (.connect user target)⟩
    simpa [Command.key?] using hk.symm

/-! ## Lines that come to nothing -/

/-- The sessions and the watch are exactly as before, and nothing was probed or even asked of the world. Events may
have been noted. -/
structure Untouched (s s' : Service σ) : Prop where
  sessions : s'.sessions = s.sessions
  records : s'.watch.records = s.watch.records
  interval : s'.watch.interval = s.watch.interval
  world : s'.watch.world = s.watch.world
  probes : s'.watch.trace.probes = s.watch.trace.probes

omit [World σ] in
theorem Untouched.refl (s : Service σ) : Untouched s s := ⟨rfl, rfl, rfl, rfl, rfl⟩

omit [World σ] in
theorem Untouched.trans {s s' s'' : Service σ} (h1 : Untouched s s') (h2 : Untouched s' s'') : Untouched s s'' where
  sessions := h2.sessions.trans h1.sessions
  records := h2.records.trans h1.records
  interval := h2.interval.trans h1.interval
  world := h2.world.trans h1.world
  probes := h2.probes.trans h1.probes

omit [World σ] in
theorem untouched_note {e : Event} (he : e.probedAddress? = none) (s : Service σ) :
    Untouched s ((note e).run s).2 :=
  ⟨rfl, rfl, rfl, rfl, Trace.collect_of_cons he _⟩

omit [World σ] in
theorem untouched_noticed (anomaly : Option Anomaly) (s : Service σ) :
    Untouched s ((anomaly.forM fun a => note (.noticed a) : StateM (Service σ) Unit).run s).2 := by
  cases anomaly with
  | none => exact .refl s
  | some a => exact untouched_note rfl s

omit [World σ] in
theorem Untouched.isDisabled_eq {s s' : Service σ} (h : Untouched s s') (a : String) :
    s'.watch.isDisabled a = s.watch.isDisabled a := by
  unfold Watch.isDisabled
  rw [h.records]

/-- A line that is no command is refused. -/
theorem process_of_error (r : Router) {line : String} {e : Refusal} (hp : Command.parse line = .error e)
    (s : Service σ) : ((process r line).run s).1 = .error e ∧ Untouched s ((process r line).run s).2 := by
  have hrun : (process r line).run s =
      (.error e, ((note (.failed line e)).run ((note (.executed none false)).run s).2).2) := by
    unfold process perform
    simp only [hp, Program.run_bind, Program.run_pure]
  rw [hrun]
  exact ⟨rfl, (untouched_note rfl s).trans (untouched_note rfl _)⟩

/-- A line that is a command is carried out between two lots of remarks. -/
theorem process_of_ok (r : Router) {line : String} {c : Command} (hp : Command.parse line = .ok c) (s : Service σ) :
    ∃ s₀, Untouched s s₀ ∧ ((process r line).run s).1 = (result r s₀ c).map Completion.reply ∧
      Untouched (next r s₀ c) ((process r line).run s).2 := by
  let s₀ := ((note (.executing c)).run s).2
  let s₁ := ((note (.executed (some c.kind) (result r s₀ c).isOk)).run (next r s₀ c)).2
  have h01 : Untouched (next r s₀ c) s₁ := untouched_note rfl _
  have hperform : (perform r line).run s = (result r s₀ c, s₁) := by
    unfold perform
    simp only [hp, Program.run_bind]
    rfl
  refine ⟨s₀, untouched_note rfl s, ?_⟩
  unfold process
  simp only [Program.run_bind, hperform]
  generalize result r s₀ c = x at h01
  cases x with
  | error e => exact ⟨rfl, h01.trans (untouched_note rfl _)⟩
  | ok completion => exact ⟨rfl, h01.trans (untouched_noticed completion.anomaly _)⟩

theorem Executed.disconnect_reply {r : Router} {s s' : Service σ} {user target : String}
    {x : Except Refusal Completion} (hx : Executed r s (.disconnect user target) x s') :
    x.map Completion.reply = .ok .ok ∧
      (s.sessions[(⟨user, target⟩ : Session.Key)]? = none → s' = s) := by
  cases hx with
  | disconnected hr =>
    refine ⟨rfl, fun he => ?_⟩
    cases hr with
    | last he' => exact absurd (he'.symm.trans he) (by simp)
    | remaining he' => exact absurd (he'.symm.trans he) (by simp)
  | unknownSession => exact ⟨rfl, fun _ => rfl⟩

theorem Executed.enable_reply {r : Router} {s s' : Service σ} {host : String} {x : Except Refusal Completion}
    (hx : Executed r s (.enable host) x s') :
    x.map Completion.reply = .ok .ok ∧ (s.watch.isDisabled host = false → s' = s) := by
  cases hx with
  | enabled hd => exact ⟨rfl, fun hn => absurd (hd.symm.trans hn) (by simp)⟩
  | notDisabled => exact ⟨rfl, fun _ => rfl⟩

theorem Executed.failure_reply {r : Router} {s s' : Service σ} {host : String} {x : Except Refusal Completion}
    (hx : Executed r s (.failure host) x s') :
    x.map Completion.reply = .ok .ok ∧ (s.watch.isDisabled host = true → s' = s) := by
  cases hx with
  | alreadyDisabled => exact ⟨rfl, fun _ => rfl⟩
  | failureDisputed hd => exact ⟨rfl, fun hn => absurd (hd.symm.trans hn) (by simp)⟩
  | failureConfirmed hd => exact ⟨rfl, fun hn => absurd (hd.symm.trans hn) (by simp)⟩

/-- What lines leave intact that come to nothing, in every state and whatever the clock shows and probes say. A
line that is no command, a `disconnect` of a session that is not open, an `enable` of a host that is not disabled
and a report on a host that is disabled touch nothing; the last three are answered as if all was well. A `connect`
that is refused leaves every session entry as it is, and no backend becomes disabled or ceases to be. -/
theorem process_intact (r : Router) (s : Service σ) (line : String) :
    let x := ((process r line).run s).1
    let s' := ((process r line).run s).2
    (∀ e, Command.parse line = .error e → x = .error e ∧ Untouched s s') ∧
    (∀ user target, Command.parse line = .ok (.disconnect user target) → x = .ok Reply.ok ∧
      (s.sessions[(⟨user, target⟩ : Session.Key)]? = none → Untouched s s')) ∧
    (∀ host, Command.parse line = .ok (.enable host) → x = .ok Reply.ok ∧
      (s.watch.isDisabled host = false → Untouched s s')) ∧
    (∀ host, Command.parse line = .ok (.failure host) → x = .ok Reply.ok ∧
      (s.watch.isDisabled host = true → Untouched s s')) ∧
    ∀ user target e, Command.parse line = .ok (.connect user target) → x = .error e →
      s'.sessions = s.sessions ∧ ∀ a, s'.watch.isDisabled a = s.watch.isDisabled a := by
  intro x s'
  refine ⟨fun e hp => process_of_error r hp s, ?_, ?_, ?_, ?_⟩
  · intro user target hp
    obtain ⟨s₀, h0, hx, h1⟩ := process_of_ok r hp s
    obtain ⟨hreply, hsame⟩ := (executed r s₀ (.disconnect user target)).disconnect_reply
    refine ⟨hx.trans hreply, fun he => h0.trans ?_⟩
    rwa [hsame (h0.sessions ▸ he)] at h1
  · intro host hp
    obtain ⟨s₀, h0, hx, h1⟩ := process_of_ok r hp s
    obtain ⟨hreply, hsame⟩ := (executed r s₀ (.enable host)).enable_reply
    refine ⟨hx.trans hreply, fun hd => h0.trans ?_⟩
    rwa [hsame ((h0.isDisabled_eq host).trans hd)] at h1
  · intro host hp
    obtain ⟨s₀, h0, hx, h1⟩ := process_of_ok r hp s
    obtain ⟨hreply, hsame⟩ := (executed r s₀ (.failure host)).failure_reply
    refine ⟨hx.trans hreply, fun hd => h0.trans ?_⟩
    rwa [hsame ((h0.isDisabled_eq host).trans hd)] at h1
  · intro user target e hp herror
    -- records may have been renewed on the way, but an entry changes only with a success
    obtain ⟨s₀, h0, hx, h1⟩ := process_of_ok r hp s
    have hfail : (result r s₀ (.connect user target)).isOk = false := by
      have hmap := hx.symm.trans herror
      cases hres : result r s₀ (.connect user target) with
      | ok completion =>
        rw [hres] at hmap
        cases hmap
      | error _ => rfl
    constructor
    · have hkeep : (next r s₀ (.connect user target)).sessions = s₀.sessions :=
        Std.ExtTreeMap.ext_getElem? fun k =>
          (executed r s₀ (.connect user target)).entry_eq (fun hok => by rw [hfail] at hok; cases hok) (by simp)
      rw [h1.sessions, hkeep, h0.sessions]
    · intro a
      have hdis := isDisabled_next r s₀ (.connect user target) a
      rw [h1.isDisabled_eq, ← h0.isDisabled_eq, Bool.eq_iff_iff, hdis]
      simp

end Service

end SessionRouting
