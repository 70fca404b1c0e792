/-
The watch in a world that stands still. A check then answers as a function of the address: what is known of it when
the clock stops, or else what a probe says (`Watch.answerAt`). Checks and losses of backends change records, but not
this function, since a record that they renew says what it says.

`Watch.Settled` is the invariant. It tells the records and the probes from the addresses that have been asked about
and lost, in whatever order that happened.
-/
import SessionRouting.Proofs.Health.Freshness

namespace SessionRouting

open Health

variable {σ : Type} {moment : Moment} {up : String → Bool}

namespace Health.Watch

/-! ## What checks answer -/

/-- What a check of an address answers at a moment at which probes are answered as `up` says. -/
def answerAt (h : Watch σ) (moment : Moment) (up : String → Bool) (a : String) : Bool :=
  match h.known a moment with
  | some (_, reachable) => reachable
  | none => up a

theorem answerAt_of_known {h : Watch σ} {a : String} {source : Event.Source} {reachable : Bool}
    (hk : h.known a moment = some (source, reachable)) : h.answerAt moment up a = reachable := by
  unfold answerAt
  rw [hk]

theorem answerAt_of_unknown {h : Watch σ} {a : String} (hk : h.known a moment = none) :
    h.answerAt moment up a = up a := by
  unfold answerAt
  rw [hk]

/-- What is known tells of the records and the interval, and of nothing else in a watch. -/
theorem known_congr {σ' : Type} {h : Watch σ} {h' : Watch σ'} (hr : h'.records = h.records)
    (hi : h'.interval = h.interval) (a : String) (asked : Moment) : h'.known a asked = h.known a asked := by
  unfold known
  rw [hr, hi]

theorem answerAt_congr {σ' : Type} {h : Watch σ} {h' : Watch σ'} (hr : h'.records = h.records)
    (hi : h'.interval = h.interval) (a : String) : h'.answerAt moment up a = h.answerAt moment up a := by
  unfold answerAt
  rw [known_congr hr hi]

/-! ## The invariant -/

/-- The record of an address is renewed when it is asked about without being known, and when it is lost without
being disabled. -/
def Renews (h : Watch σ) (moment : Moment) (asked lost : List String) (a : String) : Prop :=
  (a ∈ asked ∧ h.known a moment = none) ∨ (a ∈ lost ∧ h.isDisabled a = false)

theorem Renews.isDisabled_eq {h : Watch σ} {asked lost : List String} {a : String}
    (hr : h.Renews moment asked lost a) : h.isDisabled a = false := by
  rcases hr with ⟨-, hk⟩ | ⟨-, hd⟩
  · exact isDisabled_of_unknown hk
  · exact hd

theorem renews_asked_concat {h : Watch σ} {asked lost : List String} {a b : String} :
    h.Renews moment (asked ++ [a]) lost b ↔ h.Renews moment asked lost b ∨ (a = b ∧ h.known a moment = none) := by
  simp only [Renews, List.mem_append, List.mem_singleton]
  constructor
  · rintro (⟨hb | rfl, hk⟩ | hb)
    · exact .inl (.inl ⟨hb, hk⟩)
    · exact .inr ⟨rfl, hk⟩
    · exact .inl (.inr hb)
  · rintro ((⟨hb, hk⟩ | hb) | ⟨rfl, hk⟩)
    · exact .inl ⟨.inl hb, hk⟩
    · exact .inr hb
    · exact .inl ⟨.inr rfl, hk⟩

theorem renews_lost_concat {h : Watch σ} {asked lost : List String} {a b : String} :
    h.Renews moment asked (lost ++ [a]) b ↔
      h.Renews moment asked lost b ∨ (a = b ∧ h.isDisabled a = false) := by
  simp only [Renews, List.mem_append, List.mem_singleton]
  constructor
  · rintro (hb | ⟨hb | rfl, hd⟩)
    · exact .inl (.inl hb)
    · exact .inl (.inr ⟨hb, hd⟩)
    · exact .inr ⟨rfl, hd⟩
  · rintro ((hb | ⟨hb, hd⟩) | ⟨rfl, hd⟩)
    · exact .inl hb
    · exact .inr ⟨.inl hb, hd⟩
    · exact .inr ⟨.inr rfl, hd⟩

/-- What a watch `h₀` has become after checks of `asked` and losses of `lost` while the world stands still: a renewed
record says what a check says, all others are the old ones, and each address that was asked about without being
known has been probed once. -/
structure Settled [World σ] (moment : Moment) (up : String → Bool) (h₀ : Watch σ) (asked lost : List String)
    (h : Watch σ) : Prop where
  still : World.Still moment up h.world
  interval : h.interval = h₀.interval
  renewed : ∀ a, h₀.Renews moment asked lost a →
    h.records[a]? = some { verdict := .ofReachable (h₀.answerAt moment up a), reached := moment }
  kept : ∀ a, ¬ h₀.Renews moment asked lost a → h.records[a]? = h₀.records[a]?
  lost : ∀ a ∈ lost, a ∈ asked ∧ h₀.answerAt moment up a = false
  probes : ∃ l, h.trace.probes = h₀.trace.probes ++ l ∧ l.Nodup ∧
    ∀ a, a ∈ l ↔ a ∈ asked ∧ h₀.known a moment = none

variable [World σ]

theorem settled_refl {h : Watch σ} (hw : World.Still moment up h.world) : Settled moment up h [] [] h where
  still := hw
  interval := rfl
  renewed a hr := by simp [Renews] at hr
  kept _ _ := rfl
  lost a ha := by cases ha
  probes := ⟨[], (List.append_nil _).symm, List.nodup_nil, by simp⟩

namespace Settled

variable {h₀ h h' : Watch σ} {asked lost : List String} {a : String}

theorem known_of_renews (hs : Settled moment up h₀ asked lost h) (hr : h₀.Renews moment asked lost a) :
    h.known a moment = some (.recalled, h₀.answerAt moment up a) := by
  rw [known_of_record (hs.renewed a hr) (Verdict.ofReachable_ne_disabled _) (Moment.le_refl _), if_pos (by simp),
    Verdict.ofReachable_eq_up]

theorem known_of_not_renews (hs : Settled moment up h₀ asked lost h) (hr : ¬ h₀.Renews moment asked lost a) :
    h.known a moment = h₀.known a moment := by
  unfold known
  rw [hs.kept a hr, hs.interval]

/-- Checks answer as they did when the clock stopped. -/
theorem answerAt_eq (hs : Settled moment up h₀ asked lost h) (a : String) :
    h.answerAt moment up a = h₀.answerAt moment up a := by
  by_cases hr : h₀.Renews moment asked lost a
  · exact answerAt_of_known (hs.known_of_renews hr)
  · unfold answerAt
    rw [hs.known_of_not_renews hr]

theorem isDisabled_eq (hs : Settled moment up h₀ asked lost h) (a : String) : h.isDisabled a = h₀.isDisabled a := by
  by_cases hr : h₀.Renews moment asked lost a
  · rw [hr.isDisabled_eq, Bool.eq_false_iff]
    intro hd
    obtain ⟨v, hv, hdis⟩ := (isDisabled_iff h a).1 hd
    obtain rfl := Option.some.inj ((hs.renewed a hr).symm.trans hv)
    exact Verdict.ofReachable_ne_disabled _ hdis
  · unfold isDisabled
    rw [hs.kept a hr]

/-- An address that was not known and is known now has been asked about. -/
theorem mem_asked (hs : Settled moment up h₀ asked lost h) (hk₀ : h₀.known a moment = none)
    (hk : h.known a moment ≠ none) : a ∈ asked := by
  have hr : h₀.Renews moment asked lost a := by
    by_contra hr
    exact hk ((hs.known_of_not_renews hr).trans hk₀)
  rcases hr with ⟨ha, -⟩ | ⟨ha, -⟩
  · exact ha
  · exact (hs.lost a ha).1

/-! ## Steps -/

theorem frame (hs : Settled moment up h₀ asked lost h) (hw : World.Leads h.world h'.world)
    (hi : h'.interval = h.interval) (hr : h'.records = h.records) (hp : h'.trace.probes = h.trace.probes) :
    Settled moment up h₀ asked lost h' where
  still := hs.still.leads hw
  interval := hi.trans hs.interval
  renewed a ha := hr ▸ hs.renewed a ha
  kept a ha := hr ▸ hs.kept a ha
  lost := hs.lost
  probes := hp ▸ hs.probes

theorem asides (hs : Settled moment up h₀ asked lost h) (ha : Asides h h') :
    Settled moment up h₀ asked lost h' := by
  induction ha with
  | refl => exact hs
  | tail _ ha ih =>
    cases ha with
    | tick => exact ih.frame (.now .refl) rfl rfl rfl
    | shuffle l => exact ih.frame (.shuffle l .refl) rfl rfl rfl
    | remark he =>
      exact ih.frame .refl rfl rfl (Trace.collect_of_cons (Event.probedAddress?_of_isRemark he) _)

theorem lost_concat (hs : Settled moment up h₀ asked lost h) (a : String) :
    ∀ b ∈ lost, b ∈ asked ++ [a] ∧ h₀.answerAt moment up b = false := by
  intro b hb
  obtain ⟨hasked, hno⟩ := hs.lost b hb
  exact ⟨List.mem_append_left _ hasked, hno⟩

/-- To ask again about what is known changes nothing. -/
theorem ask_known (hs : Settled moment up h₀ asked lost h) (ha : h₀.known a moment = none → a ∈ asked) :
    Settled moment up h₀ (asked ++ [a]) lost h := by
  have hiff : ∀ b, h₀.Renews moment (asked ++ [a]) lost b ↔ h₀.Renews moment asked lost b := by
    intro b
    rw [renews_asked_concat]
    refine or_iff_left_of_imp ?_
    rintro ⟨rfl, hk⟩
    exact .inl ⟨ha hk, hk⟩
  refine ⟨hs.still, hs.interval, fun b hb => hs.renewed b ((hiff b).1 hb),
    fun b hb => hs.kept b fun h => hb ((hiff b).2 h), hs.lost_concat a, ?_⟩
  obtain ⟨l, hl, hnodup, hmem⟩ := hs.probes
  refine ⟨l, hl, hnodup, fun b => (hmem b).trans ?_⟩
  simp only [List.mem_append, List.mem_singleton]
  constructor
  · rintro ⟨hb, hk⟩
    exact ⟨.inl hb, hk⟩
  · rintro ⟨hb | rfl, hk⟩
    · exact ⟨hb, hk⟩
    · exact ⟨ha hk, hk⟩

/-- A probe of what is not known makes it known. -/
theorem ask_unknown (hs : Settled moment up h₀ asked lost h) (hk : h.known a moment = none) (cause : Event.Cause) :
    Settled moment up h₀ (asked ++ [a]) lost (h.probed a cause) := by
  -- it has not been renewed, so that it was not known at first and has not been asked about
  have hr : ¬ h₀.Renews moment asked lost a := fun hr => by
    rw [hs.known_of_renews hr] at hk
    cases hk
  have hk₀ : h₀.known a moment = none := (hs.known_of_not_renews hr).symm.trans hk
  have hrec := fun b => h.getElem?_records_probed a b cause
  refine ⟨(hs.still.probe a).now, hs.interval, fun b hb => ?_, fun b hb => ?_, hs.lost_concat a, ?_⟩
  · rw [hrec]
    by_cases hab : a = b
    · subst hab
      have hanswer : h.probeAnswer a = h₀.answerAt moment up a :=
        (hs.still.probe_eq a).trans (answerAt_of_unknown hk₀).symm
      have hdone : h.probeDone a = moment := (hs.still.probe a).time_eq
      rw [if_pos rfl, hanswer, hdone]
    · rw [if_neg hab]
      exact hs.renewed b ((renews_asked_concat.1 hb).resolve_right fun hb => hab hb.1)
  · have hnot := not_or.1 fun h => hb (renews_asked_concat.2 h)
    have hab : a ≠ b := fun hab => hnot.2 ⟨hab, hk₀⟩
    rw [hrec, if_neg hab]
    exact hs.kept b hnot.1
  · obtain ⟨l, hl, hnodup, hmem⟩ := hs.probes
    have hal : a ∉ l := fun ha => hr (.inl ((hmem a).1 ha))
    refine ⟨l ++ [a], by rw [h.probes_probed, hl, List.append_assoc], ?_, fun b => ?_⟩
    · exact List.nodup_append.2 ⟨hnodup, List.nodup_singleton a, fun b hb c hc hbc =>
        hal (List.mem_singleton.1 hc ▸ hbc ▸ hb)⟩
    · simp only [List.mem_append, List.mem_singleton, hmem]
      constructor
      · rintro (⟨hb, hkb⟩ | rfl)
        · exact ⟨.inl hb, hkb⟩
        · exact ⟨.inr rfl, hk₀⟩
      · rintro ⟨hb | rfl, hkb⟩
        · exact .inl ⟨hb, hkb⟩
        · exact .inr rfl

/-- A check answers as it would have done when the clock stopped, and keeps the invariant. -/
theorem check (hs : Settled moment up h₀ asked lost h) (a : String) :
    ((Watch.check a).run h).1 = h₀.answerAt moment up a ∧
      Settled moment up h₀ (asked ++ [a]) lost ((Watch.check a).run h).2 := by
  have htime : World.time h.world = moment := hs.still.time_eq
  have hticked : Settled moment up h₀ asked lost h.ticked := hs.frame (.now .refl) rfl rfl rfl
  cases hk : h.known a (World.time h.world) with
  | some answer =>
    -- no probe: either it was known at first, or it has been asked about since
    rw [run_check_of_known hk]
    rw [htime] at hk
    refine ⟨(answerAt_of_known hk).symm.trans (hs.answerAt_eq a), ?_⟩
    have hne : h.known a moment ≠ none := by simp [hk]
    have hknown : Settled moment up h₀ (asked ++ [a]) lost h := hs.ask_known fun hk₀ => hs.mem_asked hk₀ hne
    exact hknown.frame (.now .refl) rfl rfl (Trace.collect_of_cons rfl _)
  | none =>
    rw [run_check_of_unknown hk]
    rw [htime] at hk
    constructor
    · calc h.ticked.probeAnswer a = up a := hticked.still.probe_eq a
        _ = h.answerAt moment up a := (answerAt_of_unknown hk).symm
        _ = h₀.answerAt moment up a := hs.answerAt_eq a
    · have hprobed := hticked.ask_unknown hk (.asked (World.time h.world))
      exact hprobed.frame .refl rfl rfl (Trace.collect_of_cons rfl _)

theorem lose (hs : Settled moment up h₀ asked lost h) (key : Session.Key) (ha : a ∈ asked)
    (hno : h₀.answerAt moment up a = false) : Settled moment up h₀ asked (lost ++ [a]) (h.lost key a) := by
  -- the clock is read only if the backend is not disabled
  have hworld : World.Leads h.world (h.lost key a).world := by
    unfold Watch.lost
    simp only
    split
    · exact .refl
    · exact .now .refl
  have hrec := fun b => h.getElem?_records_lost key a b
  simp only [hs.isDisabled_eq a, hs.still.time_eq] at hrec
  refine ⟨hs.still.leads hworld, (h.interval_lost key a).trans hs.interval, fun b hb => ?_, fun b hb => ?_, ?_, ?_⟩
  · rw [hrec]
    by_cases hab : a = b ∧ h₀.isDisabled a = false
    · -- the record becomes `down`, and no is what its check says
      rw [if_pos hab, ← hab.1, hno]
      rfl
    · rw [if_neg hab]
      exact hs.renewed b ((renews_lost_concat.1 hb).resolve_right hab)
  · have hnot := not_or.1 fun h => hb (renews_lost_concat.2 h)
    rw [hrec, if_neg hnot.2]
    exact hs.kept b hnot.1
  · intro b hb
    rcases List.mem_append.1 hb with hb | hb
    · exact hs.lost b hb
    · rw [List.mem_singleton.1 hb]
      exact ⟨ha, hno⟩
  · rw [h.probes_lost]
    exact hs.probes

/-- The records do not depend on the order of the questions and losses, nor on the world. -/
theorem records_eq {σ' : Type} [World σ'] {h₀' h₁' : Watch σ'} {h₁ : Watch σ} {asked' lost' : List String}
    (hr : h₀'.records = h₀.records) (hi : h₀'.interval = h₀.interval) (hs : Settled moment up h₀ asked lost h₁)
    (hs' : Settled moment up h₀' asked' lost' h₁') (hasked : ∀ a, a ∈ asked' ↔ a ∈ asked)
    (hlost : ∀ a, a ∈ lost' ↔ a ∈ lost) : h₁'.records = h₁.records := by
  have hiff : ∀ a, h₀'.Renews moment asked' lost' a ↔ h₀.Renews moment asked lost a := fun a => by
    unfold Renews isDisabled
    rw [hasked, hlost, known_congr hr hi, hr]
  apply Std.ExtTreeMap.ext_getElem?
  intro a
  by_cases ha : h₀.Renews moment asked lost a
  · rw [hs.renewed a ha, hs'.renewed a ((hiff a).2 ha), answerAt_congr hr hi]
  · rw [hs.kept a ha, hs'.kept a fun h => ha ((hiff a).1 h), hr]

/-- The records and the probes do not depend on the order of the questions and losses. -/
theorem unordered {h₁ h₂ : Watch σ} {asked' lost' : List String} (hs₁ : Settled moment up h₀ asked lost h₁)
    (hs₂ : Settled moment up h₀ asked' lost' h₂) (hasked : ∀ a, a ∈ asked ↔ a ∈ asked')
    (hlost : ∀ a, a ∈ lost ↔ a ∈ lost') :
    h₁.records = h₂.records ∧ ∃ l₁ l₂, h₁.trace.probes = h₀.trace.probes ++ l₁ ∧
      h₂.trace.probes = h₀.trace.probes ++ l₂ ∧ l₁.Perm l₂ ∧ l₁.Nodup := by
  constructor
  · exact hs₂.records_eq rfl rfl hs₁ hasked hlost
  · obtain ⟨l₁, hl₁, hn₁, hm₁⟩ := hs₁.probes
    obtain ⟨l₂, hl₂, hn₂, hm₂⟩ := hs₂.probes
    refine ⟨l₁, l₂, hl₁, hl₂, (List.perm_ext_iff_of_nodup hn₁ hn₂).2 fun a => ?_, hn₁⟩
    rw [hm₁, hm₂, hasked]

end Settled

end Health.Watch

end SessionRouting
