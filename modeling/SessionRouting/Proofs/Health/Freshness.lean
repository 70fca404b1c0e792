/-
How old the answers of checks are, under a clock that never goes back. An answer that is recalled is the
one of the last probe, and as long as no session has lost the backend since, that probe was at most one
interval ago.

The loss of a backend dates its verdict anew without a probe. `known_lost` says what follows from it: the
next probe is put off by a whole interval, however long ago the last one was, so that the bound does not
hold beyond a loss.

`Watch.Timed` is the invariant. It relates the moment in a record to the moment of the last probe.
-/
import SessionRouting.Proofs.Health.Standing

namespace SessionRouting

open Health

variable {σ : Type} [World σ]

/-! ## The clock -/

namespace Health.Watch

variable [World.Steady σ]

theorem time_le_ticked (h : Watch σ) : World.time h.world ≤ World.time h.ticked.world :=
  World.Steady.now_le h.world

/-- A probe takes its time. -/
theorem time_le_probeDone (h : Watch σ) (a : String) : World.time h.world ≤ h.probeDone a :=
  World.Steady.probe_le a h.world

theorem probeDone_le_probed (h : Watch σ) (a : String) (cause : Event.Cause) :
    h.probeDone a ≤ World.time (h.probed a cause).world :=
  World.Steady.now_le _

theorem time_le_lost (h : Watch σ) (key : Session.Key) (a : String) :
    World.time h.world ≤ World.time (h.lost key a).world := by
  unfold lost
  simp only
  split
  · exact Int.le_refl _
  · exact h.time_le_ticked

end Health.Watch

/-- Time does not go back in a deed. -/
theorem Deed.time_le [World.Steady σ] {c : Command} {scope : List String} {h h' : Watch σ}
    (hd : Deed c scope h h') : World.time h.world ≤ World.time h'.world := by
  have hprobed : ∀ (h : Watch σ) (a : String) (cause : Event.Cause),
      World.time h.world ≤ World.time (h.probed a cause).world := fun h a cause =>
    Moment.le_trans (h.time_le_probeDone a) (h.probeDone_le_probed a cause)
  cases hd with
  | aside ha =>
    cases ha with
    | tick => exact h.time_le_ticked
    | shuffle l => exact World.Steady.shuffle_le l h.world
    | remark => exact Moment.le_refl _
  | answer => exact h.time_le_ticked
  | @ask _ b => exact Moment.le_trans h.time_le_ticked (hprobed h.ticked b (.asked (World.time h.world)))
  | @lose _ b _ key _ _ _ _ => exact h.time_le_lost key b
  | exclude _ _ => exact h.time_le_ticked
  | probe _ _ => exact hprobed h _ _

theorem Deeds.time_le [World.Steady σ] {c : Command} {scope : List String} {h h' : Watch σ}
    (hd : Deeds c scope h h') : World.time h.world ≤ World.time h'.world := by
  induction hd with
  | refl => exact Moment.le_refl _
  | tail _ hd ih => exact Moment.le_trans ih hd.time_le

/-! ## The moments in records -/

namespace Health.Watch

/-- The record of an address lies in the past. Its moment is that of the last probe, or a later one if a
session has lost the backend since, in which case it is not `up`. -/
structure Timed (h : Watch σ) (a : String) : Prop where
  past : ∀ r, h.records[a]? = some r → r.reached ≤ World.time h.world
  lost : ∀ r, h.records[a]? = some r → h.trace.isLost a = true → r.verdict ≠ .up
  since : ∀ r reachable done, h.records[a]? = some r → r.verdict ≠ .disabled →
    h.trace.lastProbe? a = some (reachable, done) →
    done ≤ r.reached ∧ (h.trace.isLost a = false → r.reached = done)

theorem timed_empty (interval : Nat) (w : σ) (a : String) : Timed { interval, world := w } a where
  past r hr := by simp at hr
  lost r hr := by simp at hr
  since r _ _ hr := by simp at hr

/-- What happens to other addresses does not matter, if the clock does not go back. -/
theorem Timed.frame {h h' : Watch σ} {a : String} (ht : h.Timed a) (hr : h'.records[a]? = h.records[a]?)
    (hl : h'.trace.isLost a = h.trace.isLost a) (hp : h'.trace.lastProbe? a = h.trace.lastProbe? a)
    (hw : World.time h.world ≤ World.time h'.world) : h'.Timed a where
  past r h1 := Moment.le_trans (ht.past r (hr ▸ h1)) hw
  lost r h1 h2 := ht.lost r (hr ▸ h1) (hl ▸ h2)
  since r reachable done h1 h2 h3 := by
    rw [hl]
    exact ht.since r reachable done (hr ▸ h1) h2 (hp ▸ h3)

/-- An event that says nothing about the address keeps the invariant. -/
theorem Timed.cons {h : Watch σ} {a : String} (ht : h.Timed a) {e : Event} (hl : e.lossOf? a = none)
    (hp : e.probeOf? a = none) : Timed { h with trace := e :: h.trace } a := by
  refine ht.frame rfl ?_ ?_ (Int.le_refl _)
  · show Trace.isLost (e :: h.trace) a = _
    rw [Trace.isLost_cons, hl, Option.getD_none]
  · show Trace.lastProbe? (e :: h.trace) a = _
    rw [Trace.lastProbe?_cons, hp, Option.none_or]

theorem Timed.updated_of_ne {h : Watch σ} {a b : String} (ht : h.Timed b) (r : Record) (hab : a ≠ b) :
    (h.updated a r).Timed b := by
  refine ht.frame ?_ (isLost_updated ..) (lastProbe?_updated ..) (Int.le_refl _)
  rw [getElem?_records_updated, if_neg hab]

variable [World.Steady σ]

theorem Timed.ticked {h : Watch σ} {a : String} (ht : h.Timed a) : h.ticked.Timed a :=
  ht.frame rfl rfl rfl h.time_le_ticked

/-- A probe dates the record with its own moment. -/
theorem Timed.probed {h : Watch σ} {a : String} (ht : h.Timed a) (b : String) (cause : Event.Cause) :
    (h.probed b cause).Timed a := by
  have hr := h.getElem?_records_probed b a cause
  have hl := h.isLost_probed b a cause
  have hp := h.lastProbe?_probed b a cause
  by_cases hab : b = a
  · rw [if_pos hab] at hr hl hp
    refine ⟨fun r hr' => ?_, fun r hr' hl' => ?_, fun r reachable done hr' _ hp' => ?_⟩
    · obtain rfl := Option.some.inj (hr.symm.trans hr')
      exact h.probeDone_le_probed b cause
    · exact absurd (hl.symm.trans hl') (by simp)
    · obtain rfl := Option.some.inj (hr.symm.trans hr')
      obtain ⟨-, rfl⟩ := Prod.mk.inj (Option.some.inj (hp.symm.trans hp'))
      exact ⟨Int.le_refl _, fun _ => rfl⟩
  · rw [if_neg hab] at hr hl hp
    exact ht.frame hr hl hp (Moment.le_trans (h.time_le_probeDone b) (h.probeDone_le_probed b cause))

/-- A loss dates the record anew, and leaves the last probe where it was. -/
theorem Timed.after_loss {h : Watch σ} {a b : String} (ht : h.Timed a) (key : Session.Key) {v : Record}
    (hv : h.records[b]? = some v) (hu : v.verdict ≠ .up) : (h.lost key b).Timed a := by
  have hr := h.getElem?_records_lost key b a
  have hl := h.isLost_lost key b a
  have hp := h.lastProbe?_lost key b a
  by_cases hab : b = a
  · subst hab
    rw [if_pos rfl] at hl
    have hnot : (h.lost key b).trace.isLost b ≠ false := by simp [hl]
    by_cases hd : h.isDisabled b = true
    · -- the record stays as it is, and `disabled` records have no date to keep
      rw [if_neg (by simp [hd])] at hr
      obtain ⟨v', hv', hdis⟩ := (isDisabled_iff h b).1 hd
      refine ⟨fun r hr' => ?_, fun r hr' _ => ?_, fun r reachable done hr' hne _ => ?_⟩
      · exact Moment.le_trans (ht.past r (hr.symm.trans hr')) (h.time_le_lost key b)
      · obtain rfl := Option.some.inj (hv.symm.trans (hr.symm.trans hr'))
        exact hu
      · obtain rfl := Option.some.inj (hv'.symm.trans (hr.symm.trans hr'))
        exact absurd hdis hne
    · rw [if_pos ⟨rfl, by simpa using hd⟩] at hr
      have hne : v.verdict ≠ .disabled := fun h' => hd ((isDisabled_iff h b).2 ⟨v, hv, h'⟩)
      refine ⟨fun r hr' => ?_, fun r hr' _ => ?_, fun r reachable done hr' _ hp' => ?_⟩
      · obtain rfl := Option.some.inj (hr.symm.trans hr')
        exact h.time_le_lost key b
      · obtain rfl := Option.some.inj (hr.symm.trans hr')
        simp
      · obtain rfl := Option.some.inj (hr.symm.trans hr')
        -- here the moment of the record and that of the probe part
        have hdone := (ht.since v reachable done hv hne (hp.symm.trans hp')).1
        exact ⟨Moment.le_trans hdone (ht.past v hv), fun h' => absurd h' hnot⟩
  · rw [if_neg (by simp [hab])] at hr
    rw [if_neg hab] at hl
    exact ht.frame hr hl hp (h.time_le_lost key b)

end Health.Watch

/-- Every deed keeps the moments in records. -/
theorem Deed.timed [World.Steady σ] {c : Command} {scope : List String} {h h' : Watch σ}
    (hd : Deed c scope h h') {a : String} (ht : h.Timed a) : h'.Timed a := by
  cases hd with
  | aside ha =>
    cases ha with
    | tick => exact ht.ticked
    | shuffle l => exact ht.frame rfl rfl rfl (World.Steady.shuffle_le l h.world)
    | remark he =>
      obtain ⟨hp, -, hl⟩ := Event.isRemark_readings he a
      exact ht.cons hl hp
  | answer => exact ht.ticked.cons rfl rfl
  | ask => exact (ht.ticked.probed _ _).cons rfl rfl
  | lose key _ _ hr hu => exact ht.after_loss key hr hu
  | @exclude b _ _ =>
    by_cases hab : b = a
    · have hr : ∀ r, (h.ticked.updated b { verdict := .disabled, reached := World.time h.world }).records[a]? =
          some r → r = { verdict := .disabled, reached := World.time h.world } := by
        intro r hr
        rw [Watch.getElem?_records_updated, if_pos hab] at hr
        exact (Option.some.inj hr).symm
      refine ⟨fun r hr' => ?_, fun r hr' _ => ?_, fun r _ _ hr' hne _ => ?_⟩
      · rw [hr r hr']
        exact h.time_le_ticked
      · rw [hr r hr']
        simp
      · rw [hr r hr'] at hne
        exact absurd rfl hne
    · exact ht.ticked.updated_of_ne _ hab
  | probe _ _ => exact ht.probed _ _

theorem Deed.interval_eq {c : Command} {scope : List String} {h h' : Watch σ} (hd : Deed c scope h h') :
    h'.interval = h.interval := by
  cases hd with
  | aside ha => cases ha <;> rfl
  | answer => rfl
  | ask => rfl
  | lose key _ _ _ _ => exact h.interval_lost key _
  | exclude _ _ => rfl
  | probe _ _ => rfl

/-! ## Where answers come from -/

/-- What an answer of a check goes by: that the backend is disabled, or the last probe. A probe that is
recalled is at most `interval` old if no session has lost the backend since. -/
def Event.Grounded (interval : Nat) (e : Event) (t : Trace) : Prop :=
  ∀ a reachable source asked, e = .checked a reachable source asked →
    match source with
    | .excluded => t.verdict? a = some .disabled ∧ reachable = false
    | .probed => ∃ done, t.lastProbe? a = some (reachable, done) ∧ asked ≤ done
    | .recalled => ∃ done, t.lastProbe? a = some (reachable, done) ∧ done ≤ asked ∧
        (reachable = true → t.isLost a = false) ∧
        (t.isLost a = false → asked.nanos - done.nanos ≤ interval)

namespace Health.Watch

omit [World σ] in
/-- What is known of a backend that is not disabled, from its record on. -/
theorem known_of_record {h : Watch σ} {a : String} {v : Record} {asked : Moment} (hv : h.records[a]? = some v)
    (hne : v.verdict ≠ .disabled) (hle : v.reached ≤ asked) :
    h.known a asked =
      if asked.nanos - v.reached.nanos ≤ h.interval then some (.recalled, decide (v.verdict = .up)) else none := by
  simp [known, hv, hne, Record.isFresh, hle]

/-- What is known of a backend goes by its last probe. -/
theorem known_of_lastProbe {h : Watch σ} {a : String} {asked : Moment} (hto : h.Told a) (hti : h.Timed a)
    {source : Event.Source} {reachable : Bool} (hk : h.known a asked = some (source, reachable)) :
    (source = .excluded ∧ h.trace.verdict? a = some .disabled ∧ reachable = false) ∨
    (source = .recalled ∧ ∃ done, h.trace.lastProbe? a = some (reachable, done) ∧ done ≤ asked ∧
      (reachable = true → h.trace.isLost a = false) ∧
      (h.trace.isLost a = false → asked.nanos - done.nanos ≤ h.interval)) := by
  obtain ⟨r, hr, ⟨hv, rfl, rfl⟩ | ⟨hv, hf, rfl, rfl⟩⟩ := known_eq_some hk
  · refine .inl ⟨rfl, ?_, rfl⟩
    rw [hto.verdict, hr, Option.map_some, hv]
  · obtain ⟨ok, done, hp, hok⟩ := hto.probe r hr hv
    obtain ⟨hdone, heq⟩ := hti.since r ok done hr hv hp
    simp only [Record.isFresh, Bool.and_eq_true, decide_eq_true_eq] at hf
    refine .inr ⟨rfl, done, ?_, Moment.le_trans hdone hf.1, fun h1 => ?_, fun h1 => ?_⟩
    · rw [hok, Verdict.ofReachable_eq_up]
      exact hp
    · rw [Bool.eq_false_iff]
      exact fun hl => hti.lost r hr hl (of_decide_eq_true h1)
    · rw [← heq h1]
      exact hf.2

end Health.Watch

/-- The answers that a deed adds to the trace go by what the trace tells. -/
theorem Deed.grounded [World.Steady σ] {c : Command} {scope : List String} {h h' : Watch σ}
    (hd : Deed c scope h h') (hto : ∀ a, h.Told a) (hti : ∀ a, h.Timed a) :
    Trace.Grows (Event.Grounded h.interval) h.trace h'.trace := by
  have hother : ∀ e t, e.isAnswer = false → Event.Grounded h.interval e t := by
    rintro e t he a reachable source asked rfl
    cases he
  refine hd.grows (fun e t _ he => hother e t he) (fun _ _ _ _ _ => hother _ _ rfl) ?_ ?_
  · rintro b source reachable hk _ _ _ _ ⟨⟩
    rcases Watch.known_of_lastProbe (hto b) (hti b) hk with ⟨rfl, hv, hr⟩ | ⟨rfl, hdone⟩
    · exact ⟨hv, hr⟩
    · exact hdone
  · rintro b hk _ _ _ _ ⟨⟩
    refine ⟨h.ticked.probeDone b, ?_, Moment.le_trans h.time_le_ticked (h.ticked.time_le_probeDone b)⟩
    rw [Watch.lastProbe?_probed, if_pos rfl]

namespace Service

variable [World.Steady σ]

theorem timed_after (p : Policy) (interval : Nat) (w : σ) (cmds : List (Command × Directory)) (a : String) :
    (after p (fresh interval w) cmds).watch.Timed a :=
  after_keep (P := fun h => h.Timed a) (fun _ _ _ _ hd ht => hd.timed ht) (Watch.timed_empty interval w a) cmds

/-- Every answer in a run is grounded. -/
theorem grounded_after (p : Policy) (interval : Nat) (w : σ) (cmds : List (Command × Directory)) :
    Trace.Grows (Event.Grounded interval) [] (after p (fresh interval w) cmds).watch.trace := by
  have hkeep := after_keep (p := p) (s := fresh interval w) (P := fun h => ((∀ a, h.Told a) ∧ ∀ a, h.Timed a) ∧
    h.interval = interval ∧ Trace.Grows (Event.Grounded interval) [] h.trace) ?_ ?_ cmds
  · exact hkeep.2.2
  · rintro c scope h h' hd ⟨⟨hto, hti⟩, rfl, hg⟩
    exact ⟨⟨hd.told hto, fun a => hd.timed (hti a)⟩, hd.interval_eq, hg.trans (hd.grounded hto hti)⟩
  · exact ⟨⟨Watch.told_empty interval w, Watch.timed_empty interval w⟩, rfl, .refl⟩

omit [World.Steady σ] in
theorem interval_after (p : Policy) (interval : Nat) (w : σ) (cmds : List (Command × Directory)) :
    (after p (fresh interval w) cmds).watch.interval = interval :=
  after_keep (P := fun h => h.interval = interval) (fun _ _ _ _ hd h0 => hd.interval_eq.trans h0) rfl cmds

/-- How old the answers of checks are, in every run under a clock that never goes back, whatever the directory
answers meanwhile. An answer that is recalled is the one of the last probe, and that probe was at most one
interval ago if no session has lost the backend since; so it is whenever the answer is yes. In that case a check
probes again exactly when the interval has passed since the last probe. A session that loses the backend starts
the interval anew, without a probe and however long ago the last one was. -/
theorem checks_after (p : Policy) (interval : Nat) (w : σ) (cmds : List (Command × Directory)) :
    let s := after p (fresh interval w) cmds
    (∀ (later t : Trace) a reachable asked, s.watch.trace = later ++ .checked a reachable .recalled asked :: t →
      ∃ done, t.lastProbe? a = some (reachable, done) ∧ done ≤ asked ∧ (reachable = true → t.isLost a = false) ∧
        (t.isLost a = false → asked.nanos - done.nanos ≤ interval)) ∧
    (∀ a v asked, s.watch.records[a]? = some v → v.verdict ≠ .disabled → s.watch.trace.isLost a = false →
      World.time s.watch.world ≤ asked → ∃ reachable done, s.watch.trace.lastProbe? a = some (reachable, done) ∧
        s.watch.known a asked = if asked.nanos - done.nanos ≤ interval then some (.recalled, reachable) else none) ∧
    ∀ key e h asked, s.sessions[key]? = some e → (Watch.check e.backend).run s.watch = (false, h) →
      h.isDisabled e.backend = false → World.time h.world ≤ asked →
      ((reuse key).run s).2.watch.known e.backend asked =
        if asked.nanos - (World.time h.world).nanos ≤ interval then some (.recalled, false) else none := by
  intro s
  have hinterval : s.watch.interval = interval := interval_after p interval w cmds
  refine ⟨?_, ?_, ?_⟩
  · intro later t a reachable asked ht
    have hg := grounded_after p interval w cmds
    rw [show (after p (fresh interval w) cmds).watch.trace = later ++ .checked a reachable .recalled asked :: (t ++ [])
      by rw [List.append_nil]; exact ht] at hg
    have hx := hg.apply a reachable .recalled asked rfl
    rw [List.append_nil] at hx
    exact hx
  · intro a v asked hv hne hl hle
    obtain ⟨reachable, done, hprobe, hok⟩ := (told_after p interval w cmds a).probe v hv hne
    have ht := timed_after p interval w cmds a
    obtain rfl := (ht.since v reachable done hv hne hprobe).2 hl
    refine ⟨reachable, v.reached, hprobe, ?_⟩
    rw [Watch.known_of_record hv hne (Moment.le_trans (ht.past v hv) hle), hinterval, hok, Verdict.ofReachable_eq_up]
  · intro key e h asked he hb hd hle
    have hrec : (h.lost key e.backend).records[e.backend]? =
        some { verdict := .down, reached := World.time h.world } := by
      rw [Watch.getElem?_records_lost, if_pos ⟨rfl, hd⟩]
    have hlost : (h.lost key e.backend).interval = interval := by
      have hcheck : Deed (.connect key.user key.target) [e.backend] s.watch h :=
        .check rfl (List.mem_singleton_self _) hb
      rw [Watch.interval_lost, hcheck.interval_eq, hinterval]
    rw [reuse_of_false he hb]
    show (h.lost key e.backend).known e.backend asked = _
    rw [Watch.known_of_record hrec (by simp) hle, hlost]
    rfl

/-- The second `connect` recalls a probe that was made four nanoseconds before. -/
theorem checks_after_two_connects :
    let s := after (.flat ["h1:22"]) (fresh 5 (⟨0⟩ : Script fun _ => true))
      (List.replicate 2 (.connect "alice" "svc:22", .groupless))
    ∃ later t : Trace, ∃ done, s.watch.trace = later ++ .checked "h1:22" true .recalled ⟨8⟩ :: t ∧
      t.lastProbe? "h1:22" = some (true, done) ∧ t.isLost "h1:22" = false ∧ 8 - done.nanos ≤ 5 := by
  intro s
  have hs : s.watch.trace = s.watch.trace.take 1 ++ .checked "h1:22" true .recalled ⟨8⟩ :: s.watch.trace.drop 2 := by
    decide +kernel
  obtain ⟨done, hp, -, hl, hage⟩ := (checks_after (.flat ["h1:22"]) 5 (⟨0⟩ : Script fun _ => true)
    (List.replicate 2 (.connect "alice" "svc:22", .groupless))).1 _ _ _ _ _ hs
  exact ⟨_, _, done, hs, hp, hl rfl, hage (hl rfl)⟩

/-- After a loss an answer may be recalled for longer: here the last probe was six nanoseconds before, with an
interval of five. -/
theorem recalled_beyond_interval :
    let s := after (.flat ["h1:22"]) (fresh 5 (⟨0⟩ : Script (· != 7)))
      (List.replicate 4 (.connect "alice" "svc:22", .groupless))
    ∃ later t : Trace, s.watch.trace = later ++ .checked "h1:22" false .recalled ⟨22⟩ :: t ∧
      t.verdict? "h1:22" = some .down ∧ ∃ done, t.lastProbe? "h1:22" = some (false, done) ∧ 5 < 22 - done.nanos := by
  intro s
  have hs : s.watch.trace =
      s.watch.trace.take 5 ++ .checked "h1:22" false .recalled ⟨22⟩ :: s.watch.trace.drop 6 := by
    decide +kernel
  exact ⟨_, _, hs, by decide +kernel, ⟨16⟩, by decide +kernel, by decide⟩

end Service

end SessionRouting
