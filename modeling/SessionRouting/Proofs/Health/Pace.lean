/-
How often backends are probed, under a clock that never goes back. A check probes a backend only when more than one
interval has passed since each probe of it before, whatever commands were carried out meanwhile; only an `enable` or a
`failure` of the backend itself has it probed sooner.

`Watch.Rested` is the invariant: each probe in the trace is over, and it is not later than what is on record.
-/
import SessionRouting.Proofs.Health.Freshness

namespace SessionRouting

open Health

variable {σ : Type}

/-! ## Probes in a trace -/

/-- A probe of the address got its answer at the moment `done`. -/
def Trace.HasProbe (t : Trace) (a : String) (done : Moment) : Prop :=
  ∃ reachable cause, .probed a reachable cause done ∈ t

theorem Trace.hasProbe_cons {e : Event} {t : Trace} {a : String} {done : Moment} (he : e.probeOf? a = none) :
    Trace.HasProbe (e :: t) a done ↔ t.HasProbe a done := by
  unfold Trace.HasProbe
  constructor
  · rintro ⟨reachable, cause, hp⟩
    rcases List.mem_cons.1 hp with rfl | hp
    · simp [Event.probeOf?] at he
    · exact ⟨reachable, cause, hp⟩
  · rintro ⟨reachable, cause, hp⟩
    exact ⟨reachable, cause, List.mem_cons_of_mem _ hp⟩

namespace Health.Watch

@[simp] theorem hasProbe_updated (h : Watch σ) (a b : String) (r : Record) (done : Moment) :
    (h.updated a r).trace.HasProbe b done ↔ h.trace.HasProbe b done := by
  unfold updated
  simp only
  split
  · exact Trace.hasProbe_cons rfl
  · exact (Trace.hasProbe_cons rfl).trans (Trace.hasProbe_cons rfl)

variable [World σ]

theorem hasProbe_probed (h : Watch σ) (a b : String) (cause : Event.Cause) (done : Moment) :
    (h.probed a cause).trace.HasProbe b done ↔ (a = b ∧ done = h.probeDone a) ∨ h.trace.HasProbe b done := by
  unfold probed
  rw [hasProbe_updated]
  show Trace.HasProbe (.probed a (h.probeAnswer a) cause (h.probeDone a) :: h.trace) b done ↔ _
  by_cases hab : a = b
  · subst hab
    simp only [Trace.HasProbe, List.mem_cons, Event.probed.injEq, true_and]
    constructor
    · rintro ⟨reachable, cause', ⟨-, -, rfl⟩ | hp⟩
      · exact .inl rfl
      · exact .inr ⟨reachable, cause', hp⟩
    · rintro (rfl | ⟨reachable, cause', hp⟩)
      · exact ⟨_, _, .inl ⟨rfl, rfl, rfl⟩⟩
      · exact ⟨reachable, cause', .inr hp⟩
  · rw [Trace.hasProbe_cons (by simp [Event.probeOf?, hab])]
    simp [hab]

theorem hasProbe_lost (h : Watch σ) (key : Session.Key) (a b : String) (done : Moment) :
    (h.lost key a).trace.HasProbe b done ↔ h.trace.HasProbe b done := by
  unfold lost
  simp only
  split
  · exact Trace.hasProbe_cons rfl
  · rw [hasProbe_updated]
    exact Trace.hasProbe_cons rfl

/-! ## The invariant -/

/-- Every probe of the address lies in the past, and the address is on record since: as `disabled`, or with a moment
that no probe comes after. -/
structure Rested (h : Watch σ) (a : String) : Prop where
  past : ∀ done, h.trace.HasProbe a done → done ≤ World.time h.world
  record : ∀ done, h.trace.HasProbe a done → ∃ r, h.records[a]? = some r ∧ (r.verdict ≠ .disabled → done ≤ r.reached)

theorem rested_empty (interval : Nat) (w : σ) (a : String) : Rested { interval, world := w } a where
  past _ := by rintro ⟨_, _, hp⟩; cases hp
  record _ := by rintro ⟨_, _, hp⟩; cases hp

/-- Without a new probe, a record may be replaced by one that is `disabled` or of this moment. -/
theorem Rested.renew {h h' : Watch σ} {a : String} (hs : h.Rested a)
    (ht : ∀ done, h'.trace.HasProbe a done → h.trace.HasProbe a done)
    (hw : World.time h.world ≤ World.time h'.world)
    (hr : h'.records[a]? = h.records[a]? ∨
      ∃ r, h'.records[a]? = some r ∧ (r.verdict ≠ .disabled → World.time h.world ≤ r.reached)) : h'.Rested a where
  past done hp := Moment.le_trans (hs.past done (ht done hp)) hw
  record done hp := by
    rcases hr with hr | ⟨r, hr, hle⟩
    · rw [hr]
      exact hs.record done (ht done hp)
    · exact ⟨r, hr, fun hne => Moment.le_trans (hs.past done (ht done hp)) (hle hne)⟩

/-- A question that leads to a probe comes more than one interval after each probe before it. -/
theorem Rested.lt_of_unknown {h : Watch σ} {a : String} (hs : h.Rested a) (ht : h.Timed a)
    (hk : h.known a (World.time h.world) = none) {done : Moment} (hp : h.trace.HasProbe a done) :
    done.nanos + h.interval < (World.time h.world).nanos := by
  obtain ⟨r, hr, hle⟩ := hs.record done hp
  obtain ⟨hne, hstale⟩ := known_eq_none hk r hr
  have hpast : r.reached ≤ World.time h.world := ht.past r hr
  -- the record is not from the future, so it can only be too old
  have hold : ¬ (World.time h.world).nanos - r.reached.nanos ≤ h.interval := by
    simpa [Record.isFresh, hpast] using hstale
  have hdone : done.nanos ≤ r.reached.nanos := hle hne
  omega

variable [World.Steady σ]

theorem Rested.ticked {h : Watch σ} {a : String} (hs : h.Rested a) : h.ticked.Rested a :=
  hs.renew (fun _ => id) h.time_le_ticked (.inl rfl)

/-- A probe is over when its verdict is recorded. -/
theorem Rested.probed {h : Watch σ} {a : String} (hs : h.Rested a) (b : String) (cause : Event.Cause) :
    (h.probed b cause).Rested a := by
  have hle : World.time h.world ≤ h.probeDone b := h.time_le_probeDone b
  have hdone : h.probeDone b ≤ World.time (h.probed b cause).world := h.probeDone_le_probed b cause
  by_cases hba : b = a
  · subst hba
    have hp : ∀ done, (h.probed b cause).trace.HasProbe b done → done ≤ h.probeDone b := by
      intro done hp
      rcases (h.hasProbe_probed b b cause done).1 hp with ⟨-, rfl⟩ | hp
      · exact Moment.le_refl _
      · exact Moment.le_trans (hs.past done hp) hle
    have hr := (h.getElem?_records_probed b b cause).trans (if_pos rfl)
    exact ⟨fun done hd => Moment.le_trans (hp done hd) hdone, fun done hd => ⟨_, hr, fun _ => hp done hd⟩⟩
  · refine hs.renew (fun done hp => ?_) (Moment.le_trans hle hdone) (.inl ?_)
    · exact ((h.hasProbe_probed b a cause done).1 hp).resolve_left fun hab => hba hab.1
    · exact (h.getElem?_records_probed b a cause).trans (if_neg hba)

end Health.Watch

variable [World σ]

/-- Every deed keeps the probes at rest. -/
theorem Deed.rested [World.Steady σ] {c : Command} {scope : List String} {h h' : Watch σ}
    (hd : Deed c scope h h') {a : String} (hs : h.Rested a) : h'.Rested a := by
  have htime := hd.time_le
  cases hd with
  | aside ha =>
    cases ha with
    | tick => exact hs.ticked
    | shuffle => exact hs.renew (fun _ => id) htime (.inl rfl)
    | remark he =>
      exact hs.renew (fun _ => (Trace.hasProbe_cons (Event.isRemark_readings he a).1).1) htime (.inl rfl)
  | answer => exact hs.renew (fun _ => (Trace.hasProbe_cons rfl).1) htime (.inl rfl)
  | @ask _ b _ _ _ =>
    have hprobed := hs.ticked.probed b (.asked (World.time h.world))
    exact hprobed.renew (fun _ => (Trace.hasProbe_cons rfl).1) (Moment.le_refl _) (.inl rfl)
  | @lose _ b _ key _ _ _ _ =>
    refine hs.renew (fun done => (h.hasProbe_lost key b a done).1) htime ?_
    rw [h.getElem?_records_lost]
    split
    · exact .inr ⟨_, rfl, fun _ => Moment.le_refl _⟩
    · exact .inl rfl
  | @exclude b _ _ =>
    refine hs.renew (fun done => (h.ticked.hasProbe_updated b a _ done).1) htime ?_
    rw [Watch.getElem?_records_updated]
    split
    · exact .inr ⟨_, rfl, fun hne => absurd rfl hne⟩
    · exact .inl rfl
  | @probe _ b _ _ => exact hs.probed b .ordered

/-! ## The law -/

/-- A probe of a backend that is asked about comes more than one interval after each probe of it before. -/
def Event.Paced (interval : Nat) (e : Event) (t : Trace) : Prop :=
  ∀ a reachable asked done, e = .probed a reachable (.asked asked) done →
    ∀ before, t.HasProbe a before → before.nanos + interval < asked.nanos

/-- A probe is due to the command: a `connect` asks about the backend, or the command calls for a probe of it. -/
def Event.DueTo (c : Command) (e : Event) (_ : Trace) : Prop :=
  ∀ a reachable cause done, e = .probed a reachable cause done →
    (∃ asked, cause = .asked asked ∧ c.kind = .connect) ∨ cause = .ordered ∧ (c = .enable a ∨ c = .failure a)

theorem Deed.paced {c : Command} {scope : List String} {h h' : Watch σ} (hd : Deed c scope h h')
    (hs : ∀ a, h.Rested a) (ht : ∀ a, h.Timed a) : Trace.Grows (Event.Paced h.interval) h.trace h'.trace := by
  have hother : ∀ e t, e.probedAddress? = none → Event.Paced h.interval e t := by
    rintro e t he a reachable asked done rfl
    cases he
  refine hd.grows (fun e t he _ => hother e t he) ?_ (fun _ _ _ _ => hother _ _ rfl) fun _ _ => hother _ _ rfl
  rintro a reachable cause done hreason _ _ asked _ ⟨⟩ before hp
  obtain ⟨-, rfl, hk⟩ := hreason
  exact (hs a).lt_of_unknown (ht a) hk hp

theorem Deed.dueTo {c : Command} {scope : List String} {h h' : Watch σ} (hd : Deed c scope h h') :
    Trace.Grows (Event.DueTo c) h.trace h'.trace := by
  have hother : ∀ e t, e.probedAddress? = none → Event.DueTo c e t := by
    rintro e t he a reachable cause done rfl
    cases he
  refine hd.grows (fun e t he _ => hother e t he) ?_ (fun _ _ _ _ => hother _ _ rfl) fun _ _ => hother _ _ rfl
  rintro a reachable cause done hreason _ _ _ _ ⟨⟩
  cases cause with
  | asked asked => exact .inl ⟨asked, rfl, hreason.1⟩
  | ordered => exact .inr ⟨rfl, hreason.imp And.left And.left⟩

theorem Deeds.dueTo {c : Command} {scope : List String} {h h' : Watch σ} (hd : Deeds c scope h h') :
    Trace.Grows (Event.DueTo c) h.trace h'.trace := by
  induction hd with
  | refl => exact .refl
  | tail _ hd ih => exact ih.trans hd.dueTo

namespace Service

theorem paced_after [World.Steady σ] (p : Policy) (interval : Nat) (w : σ) (cmds : List (Command × Directory)) :
    Trace.Grows (Event.Paced interval) [] (after p (fresh interval w) cmds).watch.trace := by
  have hkeep := after_keep (p := p) (s := fresh interval w) (P := fun h => ((∀ a, h.Rested a) ∧ ∀ a, h.Timed a) ∧
    h.interval = interval ∧ Trace.Grows (Event.Paced interval) [] h.trace) ?_ ?_ cmds
  · exact hkeep.2.2
  · rintro c scope h h' hd ⟨⟨hs, ht⟩, rfl, hp⟩
    exact ⟨⟨fun a => hd.rested (hs a), fun a => hd.timed (ht a)⟩, hd.interval_eq, hp.trans (hd.paced hs ht)⟩
  · exact ⟨⟨Watch.rested_empty interval w, Watch.timed_empty interval w⟩, rfl, .refl⟩

/-- How often a backend is probed, in every run under a clock that never goes back, whatever the directory answers
meanwhile. When a check leads to a probe, its question came more than one interval after the answer of every earlier
probe of the backend, whoever had it probed. Only a `connect` has backends probed by checks, and every other probe is
one that an `enable` or a `failure` of that backend calls for; so where two probes of a backend lie within one interval,
one of these two called for the second. -/
theorem probes_paced [World.Steady σ] (p : Policy) (interval : Nat) (w : σ) (cmds : List (Command × Directory)) :
    let s := after p (fresh interval w) cmds
    (∀ (later mid earlier : Trace) a x x' cause asked done before,
      s.watch.trace = later ++ .probed a x (.asked asked) done :: (mid ++ .probed a x' cause before :: earlier) →
      before.nanos + interval < asked.nanos) ∧
    ∀ r c (later mid : Trace) a x cause done,
      (next r s c).watch.trace = later ++ .probed a x cause done :: (mid ++ s.watch.trace) →
      (∃ asked, cause = .asked asked ∧ c.kind = .connect) ∨ cause = .ordered ∧ (c = .enable a ∨ c = .failure a) := by
  intro s
  constructor
  · intro later mid earlier a x x' cause asked done before ht
    have hpaced := paced_after p interval w cmds
    rw [show (after p (fresh interval w) cmds).watch.trace = later ++ .probed a x (.asked asked) done ::
      ((mid ++ .probed a x' cause before :: earlier) ++ []) by rw [List.append_nil]; exact ht] at hpaced
    exact hpaced.apply a x asked done rfl before ⟨x', cause, by simp⟩
  · intro r c later mid a x cause done ht
    have hd := (executed r s c).deeds.dueTo
    rw [ht] at hd
    exact hd.apply a x cause done rfl

/-- With an interval of five, the third `connect` probes again eight nanoseconds after the answer to the first one, and
a report of a failure probes at once. -/
theorem probes_paced_three_connects :
    let s := after (.flat ["h1:22"]) (fresh 5 (⟨0⟩ : Script fun _ => true))
      [(.connect "alice" "svc:22", .groupless), (.connect "bob" "svc:22", .groupless),
        (.connect "alice" "svc:22", .groupless)]
    (∃ later mid earlier : Trace, s.watch.trace = later ++ .probed "h1:22" true (.asked ⟨12⟩) ⟨16⟩ ::
      (mid ++ .probed "h1:22" true (.asked ⟨0⟩) ⟨4⟩ :: earlier) ∧ (4 : Int) + 5 < 12) ∧
    ∃ later mid : Trace, ∃ cause, (next (.flat ["h1:22"]) s (.failure "h1:22")).watch.trace =
      later ++ .probed "h1:22" true cause ⟨22⟩ :: (mid ++ s.watch.trace) ∧ cause = .ordered := by
  intro s
  obtain ⟨hpace, hdue⟩ := probes_paced (.flat ["h1:22"]) 5 (⟨0⟩ : Script fun _ => true)
    [(.connect "alice" "svc:22", .groupless), (.connect "bob" "svc:22", .groupless),
      (.connect "alice" "svc:22", .groupless)]
  constructor
  · have hs : s.watch.trace = s.watch.trace.take 3 ++ .probed "h1:22" true (.asked ⟨12⟩) ⟨16⟩ ::
        ((s.watch.trace.drop 4).take 9 ++ .probed "h1:22" true (.asked ⟨0⟩) ⟨4⟩ :: s.watch.trace.drop 14) := by
      decide +kernel
    exact ⟨_, _, _, hs, hpace _ _ _ _ _ _ _ _ _ _ hs⟩
  · have hs : (next (.flat ["h1:22"]) s (.failure "h1:22")).watch.trace =
        [.hostsTracked 1] ++ .probed "h1:22" true .ordered ⟨22⟩ :: ([] ++ s.watch.trace) := by
      decide +kernel
    rcases hdue _ _ _ _ _ _ _ _ hs with ⟨_, hc, -⟩ | ⟨hc, -⟩
    · cases hc
    · exact ⟨_, _, _, hs, hc⟩

end Service

end SessionRouting
