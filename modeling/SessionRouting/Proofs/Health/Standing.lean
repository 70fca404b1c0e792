/-
How backends stand over whole runs of commands. A backend is disabled from a `disable` to the next
`enable`, and the verdict on any other one is the answer of its last probe.

`Watch.Told` is the invariant: the trace tells the verdict in every record, and a record that is not
`disabled` says what the last probe said. Every deed keeps it, the loss of a backend included: its verdict
was not `up`, so that it has been probed and the probe has failed.
-/
import SessionRouting.Proofs.Service.Deeds

namespace SessionRouting

open Health

variable {σ : Type}

/-! ## What the trace tells of the records -/

namespace Health.Watch

/-- The trace tells the verdict on an address, and for one that is not `disabled` a probe that it follows
from. -/
structure Told (h : Watch σ) (a : String) : Prop where
  verdict : h.trace.verdict? a = h.records[a]?.map Record.verdict
  probe : ∀ r, h.records[a]? = some r → r.verdict ≠ .disabled →
    ∃ reachable done, h.trace.lastProbe? a = some (reachable, done) ∧ r.verdict = .ofReachable reachable

theorem told_empty (interval : Nat) (w : σ) (a : String) : Told { interval, world := w } a where
  verdict := by simp [Trace.verdict?]
  probe r hr := by simp at hr

/-- What happens to other addresses does not matter. -/
theorem Told.frame {h h' : Watch σ} {a : String} (ht : h.Told a) (hr : h'.records[a]? = h.records[a]?)
    (hv : h'.trace.verdict? a = h.trace.verdict? a) (hp : h'.trace.lastProbe? a = h.trace.lastProbe? a) :
    h'.Told a where
  verdict := by
    rw [hv, hr]
    exact ht.verdict
  probe r h1 h2 := by
    rw [hp]
    exact ht.probe r (hr ▸ h1) h2

/-- An event that says nothing about the address keeps the invariant. -/
theorem Told.cons {h : Watch σ} {a : String} (ht : h.Told a) {e : Event} (hv : e.verdictOf? a = none)
    (hp : e.probeOf? a = none) : Told { h with trace := e :: h.trace } a := by
  refine ht.frame rfl ?_ ?_
  · show Trace.verdict? (e :: h.trace) a = _
    rw [Trace.verdict?_cons, hv, Option.none_or]
  · show Trace.lastProbe? (e :: h.trace) a = _
    rw [Trace.lastProbe?_cons, hp, Option.none_or]

/-- A new record is told if it is `disabled` or follows from the last probe, whatever the old one was. -/
theorem told_updated_self {h : Watch σ} {a : String} {r : Record}
    (hv : h.trace.verdict? a = h.records[a]?.map Record.verdict)
    (hr : r.verdict ≠ .disabled →
      ∃ reachable done, h.trace.lastProbe? a = some (reachable, done) ∧ r.verdict = .ofReachable reachable) :
    (h.updated a r).Told a where
  verdict := by
    rw [verdict?_updated hv, if_pos rfl, getElem?_records_updated, if_pos rfl, Option.map_some]
  probe r' hr' hd := by
    rw [getElem?_records_updated, if_pos rfl, Option.some.injEq] at hr'
    subst hr'
    rw [lastProbe?_updated]
    exact hr hd

theorem Told.updated_of_ne {h : Watch σ} {a b : String} (ht : h.Told b) (hta : h.Told a) (r : Record) (hab : a ≠ b) :
    (h.updated a r).Told b := by
  refine ht.frame ?_ ?_ (lastProbe?_updated ..)
  · rw [getElem?_records_updated, if_neg hab]
  · rw [verdict?_updated hta.verdict, if_neg hab]

variable [World σ]

theorem Told.ticked {h : Watch σ} {a : String} (ht : h.Told a) : h.ticked.Told a := ht.frame rfl rfl rfl

/-- A probe is told, whatever the record was before. -/
theorem Told.probed {h : Watch σ} {b : String} (ht : ∀ a, h.Told a) (a : String) (cause : Event.Cause) :
    (h.probed a cause).Told b := by
  have hv : (h.probing a cause).trace.verdict? a = (h.probing a cause).records[a]?.map Record.verdict := by
    unfold probing
    rw [Trace.verdict?_cons]
    exact (ht a).verdict
  by_cases hab : a = b
  · subst hab
    refine told_updated_self hv fun _ => ⟨h.probeAnswer a, h.probeDone a, ?_, rfl⟩
    simp [probing, Trace.lastProbe?_cons, Event.probeOf?]
  · refine (ht b).frame ?_ ?_ ?_
    · rw [getElem?_records_probed, if_neg hab]
    · unfold Watch.probed
      rw [verdict?_updated hv, if_neg hab]
      simp [probing, Trace.verdict?_cons, Event.verdictOf?]
    · rw [lastProbe?_probed, if_neg hab]

/-- A backend that is lost was not found reachable, and the last probe of it said so if it is not disabled. -/
theorem Told.lost {h : Watch σ} {b : String} (ht : ∀ a, h.Told a) (key : Session.Key) {a : String} {r : Record}
    (hr : h.records[a]? = some r) (hu : r.verdict ≠ .up) : (h.lost key a).Told b := by
  have hn : ∀ b, Told { h with trace := .lost key a :: h.trace } b := fun b => (ht b).cons rfl rfl
  unfold Watch.lost
  simp only
  split
  · exact hn b
  · rename_i hd
    by_cases hab : a = b
    · subst hab
      have hrd : r.verdict ≠ .disabled := fun h' => hd ((isDisabled_iff _ _).2 ⟨r, hr, h'⟩)
      -- it was probed, and the verdict is not `up`: so the probe failed, as the new record says
      obtain ⟨reachable, done, hl, hv⟩ := (hn a).probe r hr hrd
      refine told_updated_self (hn a).verdict fun _ => ⟨reachable, done, hl, ?_⟩
      cases reachable with
      | true => exact absurd hv hu
      | false => rfl
    · exact (hn b).ticked.updated_of_ne (hn a).ticked _ hab

end Health.Watch

variable [World σ]

/-- Every deed keeps the tale in step with the records. -/
theorem Deed.told {c : Command} {scope : List String} {h h' : Watch σ} (hd : Deed c scope h h')
    (ht : ∀ a, h.Told a) (b : String) : h'.Told b := by
  cases hd with
  | aside ha =>
    cases ha with
    | tick => exact (ht b).ticked
    | shuffle => exact (ht b).frame rfl rfl rfl
    | remark he =>
      obtain ⟨hp, hv, -⟩ := Event.isRemark_readings he b
      exact (ht b).cons hv hp
  | answer => exact (ht b).ticked.cons rfl rfl
  | ask => exact (Watch.Told.probed (fun a => (ht a).ticked) _ _).cons rfl rfl
  | lose key _ _ hr hu => exact Watch.Told.lost ht key hr hu
  | @exclude a _ _ =>
    by_cases hab : a = b
    · subst hab
      exact Watch.told_updated_self (ht a).verdict fun hne => absurd rfl hne
    · exact (ht b).ticked.updated_of_ne (ht a).ticked _ hab
  | probe _ _ => exact Watch.Told.probed ht _ _

/-! ## Who is disabled -/

/-- Only the commands for it exclude a backend or bring it back. -/
theorem Deed.isDisabled_eq {c : Command} {scope : List String} {h h' : Watch σ} (hd : Deed c scope h h')
    {a : String} (hdis : c ≠ .disable a) (hen : c ≠ .enable a) : h'.isDisabled a = h.isDisabled a := by
  -- a probe of a backend that is not disabled does not change that
  have hprobed : ∀ (g : Watch σ) (b : String) (cause : Event.Cause), (b = a → g.isDisabled a = false) →
      (g.probed b cause).isDisabled a = g.isDisabled a := by
    intro g b cause hb
    rw [Watch.isDisabled_probed]
    split
    · rename_i hba
      exact (hb hba).symm
    · rfl
  cases hd with
  | aside ha => cases ha <;> rfl
  | answer => rfl
  | ask _ _ hk => exact hprobed h.ticked _ _ fun hba => hba ▸ Watch.isDisabled_of_unknown hk
  | lose key _ _ _ _ => exact h.isDisabled_lost key _ a
  | @exclude b hc _ =>
    have hba : b ≠ a := fun hba => hdis (hba ▸ hc)
    exact (Watch.isDisabled_updated _ b a _).trans (if_neg hba)
  | @probe _ b hc _ =>
    refine hprobed h b _ fun hba => ?_
    subst hba
    rcases hc with ⟨hc, -⟩ | ⟨-, hb⟩
    · exact absurd hc hen
    · exact hb

namespace Service

theorem isDisabled_next (r : Router) (s : Service σ) (c : Command) (a : String) :
    (next r s c).watch.isDisabled a = true ↔
      c = .disable a ∨ (s.watch.isDisabled a = true ∧ c ≠ .enable a) := by
  have hx := executed r s c
  by_cases hdis : c = .disable a
  · subst hdis
    generalize result r s (.disable a) = x, next r s (.disable a) = s' at hx
    cases hx
    simp [Watch.isDisabled_updated]
  by_cases hen : c = .enable a
  · subst hen
    generalize result r s (.enable a) = x, next r s (.enable a) = s' at hx
    cases hx with
    | enabled => simp [Watch.isDisabled_probed]
    | notDisabled hd => simp [hd]
  · have heq : (next r s c).watch.isDisabled a = s.watch.isDisabled a :=
      hx.deeds.keep (P := fun h => h.isDisabled a = s.watch.isDisabled a)
        (fun _ _ hd h0 => (hd.isDisabled_eq hdis hen).trans h0) rfl
    rw [heq]
    simp [hdis, hen]

/-- A backend is disabled exactly from a `disable` on to the next `enable`. -/
theorem isDisabled_after (p : Policy) (interval : Nat) (w : σ) (cmds : List (Command × Directory)) (a : String) :
    (after p (fresh interval w) cmds).watch.isDisabled a = true ↔
      ∃ pre post, cmds.map Prod.fst = pre ++ .disable a :: post ∧ .enable a ∉ post := by
  induction cmds using List.reverseRecOn with
  | nil => simp [fresh, Watch.isDisabled]
  | append_singleton cmds cmd ih =>
    obtain ⟨c, d⟩ := cmd
    rw [after_concat, isDisabled_next, ih, List.map_append, List.map_singleton]
    generalize cmds.map Prod.fst = cs
    constructor
    · rintro (rfl | ⟨⟨pre, post, rfl, hpost⟩, hc⟩)
      · exact ⟨cs, [], rfl, by simp⟩
      · exact ⟨pre, post ++ [c], by simp, by simp [hpost, hc.symm]⟩
    · rintro ⟨pre, post, hcmds, hpost⟩
      rcases eq_or_split_of_concat hcmds with ⟨-, rfl, -⟩ | ⟨post, rfl, rfl⟩
      · exact .inl rfl
      · simp only [List.mem_append, List.mem_singleton, not_or] at hpost
        exact .inr ⟨⟨pre, post, rfl, hpost.1⟩, Ne.symm hpost.2⟩

end Service

/-! ## Who is probed -/

/-- A probe of a backend that the trace tells to be disabled is made by the command that enables it. -/
def Event.Permitted (c : Command) (e : Event) (t : Trace) : Prop :=
  ∀ a reachable cause done, e = .probed a reachable cause done → t.verdict? a = some .disabled → c = .enable a

/-- In a deed a disabled backend is probed only to enable it. -/
theorem Deed.permitted {c : Command} {scope : List String} {h h' : Watch σ} (hd : Deed c scope h h')
    (ht : ∀ a, h.Told a) : Trace.Grows (Event.Permitted c) h.trace h'.trace := by
  have hother : ∀ e t, e.probedAddress? = none → Event.Permitted c e t := by
    rintro e t he a reachable cause done rfl
    cases he
  refine hd.grows (fun e t he _ => hother e t he) ?_ (fun _ _ _ _ => hother _ _ rfl) fun _ _ => hother _ _ rfl
  rintro a reachable cause done hreason _ _ _ _ ⟨⟩ hv
  rw [(ht a).verdict, Option.map_eq_some_iff] at hv
  obtain ⟨r, hr, hv⟩ := hv
  exact hreason.enable ((Watch.isDisabled_iff h a).2 ⟨r, hr, hv⟩)

/-- The tale stays in step over deeds, and only an `enable` probes a disabled backend in them. -/
theorem Deeds.told {c : Command} {scope : List String} {h h' : Watch σ} (hd : Deeds c scope h h')
    (ht : ∀ a, h.Told a) : (∀ a, h'.Told a) ∧ Trace.Grows (Event.Permitted c) h.trace h'.trace := by
  induction hd with
  | refl => exact ⟨ht, .refl⟩
  | tail _ hd ih => exact ⟨hd.told ih.1, ih.2.trans (hd.permitted ih.1)⟩

/-! ## What is on record -/

/-- A record stays, though its verdict may change. -/
theorem Deed.mem_records {c : Command} {scope : List String} {h h' : Watch σ} (hd : Deed c scope h h')
    {a : String} (ha : a ∈ h.records) : a ∈ h'.records := by
  have hinsert : ∀ (b : String) (r : Record), a ∈ h.records.insert b r := fun b r =>
    Std.ExtTreeMap.mem_insert.2 (.inr ha)
  cases hd with
  | aside hs => cases hs <;> exact ha
  | answer => exact ha
  | ask => exact hinsert _ _
  | @lose _ b _ key _ _ _ _ =>
    unfold Watch.lost
    simp only
    split
    · exact ha
    · exact hinsert b _
  | exclude => exact hinsert _ _
  | probe => exact hinsert _ _

namespace Service

/-- No session goes to a disabled backend. -/
theorem connect_of_isDisabled (r : Router) {s : Service σ} {a user target : String} {x : Completion}
    (hd : s.watch.isDisabled a = true) (hx : result r s (.connect user target) = .ok x) :
    x.reply ≠ .simple a := by
  have he := executed r s (.connect user target)
  rw [hx] at he
  generalize next r s (.connect user target) = s' at he
  cases he with
  | connected hr =>
    obtain ⟨h, hs, hb⟩ := hr.ok_cases (c := .connect user target) rfl
      (fun _ he => mem_scope_connect he) fun _ ha => List.mem_append_right _ ha
    rintro ⟨⟩
    have hd' : h.isDisabled a = true := hs.keep (P := fun h => h.isDisabled a = true)
      (fun _ _ hd h0 => (hd.isDisabled_eq (by simp) (by simp)).trans h0) hd
    rw [Watch.check_of_isDisabled hd'] at hb
    cases hb

theorem told_after (p : Policy) (interval : Nat) (w : σ) (cmds : List (Command × Directory)) (a : String) :
    (after p (fresh interval w) cmds).watch.Told a :=
  after_keep (P := fun h => ∀ a, h.Told a) (fun _ _ _ _ hd ht => hd.told ht) (Watch.told_empty interval w) cmds a

/-- How a backend stands after any run of commands, and what any further command does to it, whatever the directory
answers in the meantime: it is disabled exactly from a `disable` on to the next `enable`; otherwise its verdict is
the answer of its last probe; a probe of it while it is disabled is made by an `enable` of it; no `connect` is
answered with it while it is disabled; and once it is on record it stays there. -/
theorem standing_after (p : Policy) (interval : Nat) (w : σ) (cmds : List (Command × Directory)) (a : String) :
    let s := after p (fresh interval w) cmds
    (s.watch.isDisabled a = true ↔
      ∃ pre post, cmds.map Prod.fst = pre ++ .disable a :: post ∧ .enable a ∉ post) ∧
    (∀ v, s.watch.records[a]? = some v → v.verdict ≠ .disabled → ∃ reachable done,
      s.watch.trace.lastProbe? a = some (reachable, done) ∧ v.verdict = .ofReachable reachable) ∧
    (s.watch.trace.verdict? a = s.watch.records[a]?.map Record.verdict ∧
      ∀ r c later earlier reachable cause done,
        (next r s c).watch.trace = later ++ .probed a reachable cause done :: (earlier ++ s.watch.trace) →
        (earlier ++ s.watch.trace).verdict? a = some .disabled → c = .enable a) ∧
    (∀ r pre mid user target x, cmds.map Prod.fst = pre ++ .disable a :: mid → .enable a ∉ mid →
      result r s (.connect user target) = .ok x → x.reply ≠ .simple a) ∧
    ∀ more, a ∈ s.watch.records → a ∈ (after p s more).watch.records := by
  intro s
  have ht : ∀ b, s.watch.Told b := told_after p interval w cmds
  have hdis := isDisabled_after p interval w cmds a
  refine ⟨hdis, (ht a).probe, ⟨(ht a).verdict, ?_⟩, ?_, ?_⟩
  · intro r c later earlier reachable cause done hnew hv
    have hg := ((executed r s c).deeds.told ht).2
    rw [hnew] at hg
    exact hg.apply a reachable cause done rfl hv
  · intro r pre mid user target x hcmds hmid hx
    exact connect_of_isDisabled r (hdis.2 ⟨pre, mid, hcmds, hmid⟩) hx
  · intro more ha
    exact after_keep (P := fun h => a ∈ h.records) (fun _ _ _ _ hd ha => hd.mem_records ha) ha more

end Service

end SessionRouting
