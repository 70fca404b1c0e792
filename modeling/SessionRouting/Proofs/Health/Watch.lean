/-
What the operations of the watch do: their answers, the records and the world that they leave, and the
events that they add to the trace.

A trace is read for one address at a time: `Trace.verdict?` is the verdict that it tells,
`Trace.lastProbe?` the answer and the moment of the last probe, and `Trace.isLost` whether a session has
lost the backend since. `Trace.Grows` is the form in which the steps of a run are related to each other:
each event that is added stands in a given relation to the trace before it.
-/
import SessionRouting.Health.Watch
import SessionRouting.Proofs.World

namespace SessionRouting

/-! ## Programs over a state -/

namespace Program

variable {S α β : Type}

theorem run_pure (a : α) (s : S) : (pure a : StateM S α).run s = (a, s) := rfl

theorem run_bind (x : StateM S α) (f : α → StateM S β) (s : S) :
    (x >>= f).run s = (f (x.run s).1).run (x.run s).2 := rfl

theorem run_map (f : α → β) (x : StateM S α) (s : S) : (f <$> x).run s = (f (x.run s).1, (x.run s).2) := rfl

theorem run_get (s : S) : (get : StateM S S).run s = (s, s) := rfl

theorem run_modify (f : S → S) (s : S) : (modify f : StateM S Unit).run s = ((), f s) := rfl

end Program

/-! ## Reading a trace -/

namespace Event

/-- The answer of a probe of the address, and the moment at which it was there. -/
def probeOf? (a : String) : Event → Option (Bool × Moment)
  | probed b reachable _ done => if b = a then some (reachable, done) else none
  | _ => none

/-- The new verdict on the address. -/
def verdictOf? (a : String) : Event → Option Health.Verdict
  | verdictChanged b _ new => if b = a then some new else none
  | _ => none

/-- Whether a session loses the backend, or the backend is probed anew. -/
def lossOf? (a : String) : Event → Option Bool
  | probed b _ _ _ => if b = a then some false else none
  | lost _ b => if b = a then some true else none
  | _ => none

/-- The address that was asked about, and the answer. -/
def answer? : Event → Option (String × Bool)
  | checked address reachable _ _ => some (address, reachable)
  | _ => none

end Event

namespace Trace

/-- The verdict on an address that the trace tells. -/
def verdict? (t : Trace) (a : String) : Option Health.Verdict :=
  t.findSome? (Event.verdictOf? a)

/-- The answer and the moment of the last probe of an address. -/
def lastProbe? (t : Trace) (a : String) : Option (Bool × Moment) :=
  t.findSome? (Event.probeOf? a)

/-- Whether a session has lost the backend since the last probe of it. -/
def isLost (t : Trace) (a : String) : Bool :=
  (t.findSome? (Event.lossOf? a)).getD false

theorem verdict?_cons (e : Event) (t : Trace) (a : String) :
    verdict? (e :: t) a = (e.verdictOf? a).or (t.verdict? a) := by
  unfold verdict?
  rw [List.findSome?_cons]
  cases e.verdictOf? a <;> rfl

theorem lastProbe?_cons (e : Event) (t : Trace) (a : String) :
    lastProbe? (e :: t) a = (e.probeOf? a).or (t.lastProbe? a) := by
  unfold lastProbe?
  rw [List.findSome?_cons]
  cases e.probeOf? a <;> rfl

theorem isLost_cons (e : Event) (t : Trace) (a : String) :
    isLost (e :: t) a = (e.lossOf? a).getD (t.isLost a) := by
  unfold isLost
  rw [List.findSome?_cons]
  cases e.lossOf? a <;> rfl

/-- What a reading finds in the events of a trace, in the order in which they happened. -/
def collect {α : Type} (f : Event → Option α) (t : Trace) : List α := t.reverse.filterMap f

theorem collect_cons {α : Type} (f : Event → Option α) (e : Event) (t : Trace) :
    collect f (e :: t) = collect f t ++ (f e).toList := by
  unfold collect
  rw [List.reverse_cons, List.filterMap_append]
  cases he : f e with
  | none => rw [List.filterMap_cons_none he]; rfl
  | some x => rw [List.filterMap_cons_some he]; rfl

theorem collect_of_cons {α : Type} {f : Event → Option α} {e : Event} (he : f e = none) (t : Trace) :
    collect f (e :: t) = collect f t := by
  rw [collect_cons, he]
  exact List.append_nil _

/-- The answers of checks in the order in which they were given. -/
def answers (t : Trace) : List (String × Bool) := t.collect Event.answer?

theorem probes_eq_collect (t : Trace) : t.probes = t.collect Event.probedAddress? := rfl

/-- An event adds at most one probe. -/
theorem count_probes_cons (e : Event) (t : Trace) (b : String) :
    (probes (e :: t)).count b = (probes t).count b + if e.probedAddress? = some b then 1 else 0 := by
  rw [probes_eq_collect, collect_cons, List.count_append, probes_eq_collect]
  cases he : e.probedAddress? with
  | none => simp
  | some a =>
    by_cases hab : a = b
    · simp [hab]
    · simp [hab]

theorem count_probes_of_cons {e : Event} (he : e.probedAddress? = none) (t : Trace) (b : String) :
    (probes (e :: t)).count b = (probes t).count b := by
  rw [count_probes_cons, he]
  rfl

/-- The trace goes on from `t`, and each event that is added has the property `P` with the trace before it. -/
inductive Grows (P : Event → Trace → Prop) (t : Trace) : Trace → Prop
  | refl : Grows P t t
  | cons {t' : Trace} {e : Event} : Grows P t t' → P e t' → Grows P t (e :: t')

namespace Grows

variable {P Q : Event → Trace → Prop} {t t' t'' : Trace}

theorem trans (h1 : Grows P t t') (h2 : Grows P t' t'') : Grows P t t'' := by
  induction h2 with
  | refl => exact h1
  | cons _ hp ih => exact ih.cons hp

/-- Each added event has the property with the trace before it. -/
theorem apply {later earlier : Trace} {e : Event} (h : Grows P t (later ++ e :: (earlier ++ t))) :
    P e (earlier ++ t) := by
  generalize hu : later ++ e :: (earlier ++ t) = u at h
  -- the event is the newest one, or it was there when the newest one came
  induction h generalizing later with
  | refl =>
    have := congrArg List.length hu
    simp only [List.length_append, List.length_cons] at this
    omega
  | cons _ hp ih =>
    cases later with
    | nil =>
      simp only [List.nil_append, List.cons.injEq] at hu
      obtain ⟨rfl, rfl⟩ := hu
      exact hp
    | cons x later =>
      simp only [List.cons_append, List.cons.injEq] at hu
      exact ih hu.2

end Grows

end Trace

/-! ## Operations -/

namespace Health.Verdict

theorem ofReachable_ne_disabled (reachable : Bool) : ofReachable reachable ≠ .disabled := by
  cases reachable <;> simp [ofReachable]

theorem ofReachable_eq_up (reachable : Bool) : decide (ofReachable reachable = .up) = reachable := by
  cases reachable <;> rfl

end Health.Verdict

namespace Health.Watch

variable {σ : Type}

@[simp] theorem run_note (e : Event) (h : Watch σ) : (note e).run h = ((), { h with trace := e :: h.trace }) := rfl

@[simp] theorem run_ask {α : Type} (q : σ → α × σ) (h : Watch σ) :
    (ask q).run h = ((q h.world).1, { h with world := (q h.world).2 }) := rfl

/-- The watch after an update. -/
def updated (h : Watch σ) (a : String) (r : Record) : Watch σ where
  interval := h.interval
  records := h.records.insert a r
  world := h.world
  trace := .hostsTracked (h.records.insert a r).size ::
    if h.records[a]?.map Record.verdict = some r.verdict then h.trace
    else .verdictChanged a (h.records[a]?.map Record.verdict) r.verdict :: h.trace

theorem run_update (a : String) (r : Record) (h : Watch σ) : (update a r).run h = ((), h.updated a r) := by
  unfold update updated
  simp only [Program.run_bind, Program.run_get, Program.run_modify]
  by_cases hc : h.records[a]?.map Record.verdict = some r.verdict
  · simp only [hc, ne_eq, not_true_eq_false, ↓reduceIte]; rfl
  · simp only [hc, ne_eq, not_false_eq_true, ↓reduceIte]; rfl

/-- An update adds nothing but remarks on the records. -/
theorem grows_updated {P : Event → Trace → Prop} (h : Watch σ) (a : String) (r : Record)
    (hc : P (.verdictChanged a (h.records[a]?.map Record.verdict) r.verdict) h.trace)
    (ht : ∀ n t, P (.hostsTracked n) t) : Trace.Grows P h.trace (h.updated a r).trace := by
  unfold updated
  simp only
  split
  · exact .cons .refl (ht _ _)
  · exact .cons (.cons .refl hc) (ht _ _)

@[simp] theorem lastProbe?_updated (h : Watch σ) (a b : String) (r : Record) :
    (h.updated a r).trace.lastProbe? b = h.trace.lastProbe? b := by
  unfold updated
  simp only
  split <;> simp [Trace.lastProbe?_cons, Event.probeOf?]

@[simp] theorem isLost_updated (h : Watch σ) (a b : String) (r : Record) :
    (h.updated a r).trace.isLost b = h.trace.isLost b := by
  unfold updated
  simp only
  split <;> simp [Trace.isLost_cons, Event.lossOf?]

/-- A reading that does not care for remarks on the records finds nothing new in an update. -/
theorem collect_updated {α : Type} {f : Event → Option α} (h : Watch σ) (a : String) (r : Record)
    (hc : ∀ a old new, f (.verdictChanged a old new) = none) (ht : ∀ n, f (.hostsTracked n) = none) :
    (h.updated a r).trace.collect f = h.trace.collect f := by
  unfold updated
  simp only
  rw [Trace.collect_of_cons (ht _)]
  split
  · rfl
  · rw [Trace.collect_of_cons (hc ..)]

@[simp] theorem probes_updated (h : Watch σ) (a : String) (r : Record) :
    (h.updated a r).trace.probes = h.trace.probes := h.collect_updated a r (fun _ _ _ => rfl) fun _ => rfl

@[simp] theorem answers_updated (h : Watch σ) (a : String) (r : Record) :
    (h.updated a r).trace.answers = h.trace.answers := h.collect_updated a r (fun _ _ _ => rfl) fun _ => rfl

/-- An update tells the new verdict, if the trace told the old one. -/
theorem verdict?_updated {h : Watch σ} {a b : String} {r : Record}
    (hv : h.trace.verdict? a = h.records[a]?.map Record.verdict) :
    (h.updated a r).trace.verdict? b = if a = b then some r.verdict else h.trace.verdict? b := by
  unfold updated
  simp only [Trace.verdict?_cons, Event.verdictOf?, Option.none_or]
  split
  · rename_i hr
    split
    · rename_i hab
      rw [← hab, hv, hr]
    · rfl
  · rw [Trace.verdict?_cons, Event.verdictOf?]
    split
    · rw [Option.some_or]
    · rw [Option.none_or]

theorem getElem?_records_updated (h : Watch σ) (a b : String) (r : Record) :
    (h.updated a r).records[b]? = if a = b then some r else h.records[b]? := by
  unfold updated
  simp [Std.ExtTreeMap.getElem?_insert]

theorem isDisabled_updated (h : Watch σ) (a b : String) (r : Record) :
    (h.updated a r).isDisabled b = if a = b then decide (r.verdict = .disabled) else h.isDisabled b := by
  unfold isDisabled
  rw [getElem?_records_updated]
  by_cases hab : a = b
  · rw [if_pos hab, if_pos hab, Option.any_some]
  · rw [if_neg hab, if_neg hab]

theorem isDisabled_iff (h : Watch σ) (a : String) :
    h.isDisabled a = true ↔ ∃ r, h.records[a]? = some r ∧ r.verdict = .disabled := by
  simp [isDisabled, Option.any_eq_true]

/-- Where the answer to a question comes from when no probe is needed. -/
theorem known_eq_some {h : Watch σ} {a : String} {asked : Moment} {source : Event.Source} {reachable : Bool}
    (hk : h.known a asked = some (source, reachable)) :
    ∃ r, h.records[a]? = some r ∧
      ((r.verdict = .disabled ∧ source = .excluded ∧ reachable = false) ∨
        (r.verdict ≠ .disabled ∧ r.isFresh h.interval asked = true ∧ source = .recalled ∧
          reachable = decide (r.verdict = .up))) := by
  unfold known at hk
  split at hk
  · rename_i r hr
    refine ⟨r, hr, ?_⟩
    split at hk
    · rename_i hd
      cases hk
      exact .inl ⟨hd, rfl, rfl⟩
    · rename_i hd
      split at hk
      · rename_i hf
        cases hk
        exact .inr ⟨hd, hf, rfl, rfl⟩
      · cases hk
  · cases hk

/-- A probe is needed when there is no verdict, or one that is neither fresh nor `disabled`. -/
theorem known_eq_none {h : Watch σ} {a : String} {asked : Moment} (hk : h.known a asked = none) :
    ∀ r, h.records[a]? = some r → r.verdict ≠ .disabled ∧ r.isFresh h.interval asked = false := by
  intro r hr
  unfold known at hk
  rw [hr] at hk
  simp only at hk
  split at hk
  · cases hk
  · rename_i hd
    split at hk
    · cases hk
    · rename_i hf
      exact ⟨hd, by simpa using hf⟩

/-- What is asked about in need of a probe is not disabled. -/
theorem isDisabled_of_unknown {h : Watch σ} {a : String} {asked : Moment} (hk : h.known a asked = none) :
    h.isDisabled a = false := by
  rw [Bool.eq_false_iff]
  intro hd
  obtain ⟨r, hr, hv⟩ := (isDisabled_iff h a).1 hd
  exact (known_eq_none hk r hr).1 hv

variable [World σ]

/-- The watch after the clock was read. -/
def ticked (h : Watch σ) : Watch σ := { h with world := (World.now h.world).2 }

@[simp] theorem run_now (h : Watch σ) : now.run h = (World.time h.world, h.ticked) := rfl

@[simp] theorem known_ticked (h : Watch σ) : h.ticked.known = h.known := rfl

@[simp] theorem records_ticked (h : Watch σ) : h.ticked.records = h.records := rfl

@[simp] theorem trace_ticked (h : Watch σ) : h.ticked.trace = h.trace := rfl

/-- The answer that a probe of an address gets. -/
def probeAnswer (h : Watch σ) (a : String) : Bool := (World.probe a h.world).1

/-- The moment at which that answer is there. -/
def probeDone (h : Watch σ) (a : String) : Moment := World.time (World.probe a h.world).2

/-- The watch with the answer, before it is recorded. -/
def probing (h : Watch σ) (a : String) (cause : Event.Cause) : Watch σ :=
  { h with
    world := (World.now (World.probe a h.world).2).2
    trace := .probed a (h.probeAnswer a) cause (h.probeDone a) :: h.trace }

/-- The watch after a probe. -/
def probed (h : Watch σ) (a : String) (cause : Event.Cause) : Watch σ :=
  (h.probing a cause).updated a { verdict := .ofReachable (h.probeAnswer a), reached := h.probeDone a }

@[simp] theorem run_probe (a : String) (cause : Event.Cause) (h : Watch σ) :
    (probe a cause).run h = (h.probeAnswer a, h.probed a cause) := by
  unfold probe
  simp only [Program.run_bind, run_ask, run_now, run_note, run_update, Program.run_pure]
  rfl

theorem getElem?_records_probed (h : Watch σ) (a b : String) (cause : Event.Cause) :
    (h.probed a cause).records[b]? =
      if a = b then some { verdict := .ofReachable (h.probeAnswer a), reached := h.probeDone a }
      else h.records[b]? := by
  unfold probed
  rw [getElem?_records_updated]
  rfl

/-- No probe leaves its backend disabled. -/
theorem isDisabled_probed (h : Watch σ) (a b : String) (cause : Event.Cause) :
    (h.probed a cause).isDisabled b = if a = b then false else h.isDisabled b := by
  unfold probed
  rw [isDisabled_updated, decide_eq_false (Verdict.ofReachable_ne_disabled _)]
  rfl

theorem lastProbe?_probed (h : Watch σ) (a b : String) (cause : Event.Cause) :
    (h.probed a cause).trace.lastProbe? b =
      if a = b then some (h.probeAnswer a, h.probeDone a) else h.trace.lastProbe? b := by
  unfold probed probing
  rw [lastProbe?_updated, Trace.lastProbe?_cons, Event.probeOf?]
  split
  · rw [Option.some_or]
  · rw [Option.none_or]

theorem isLost_probed (h : Watch σ) (a b : String) (cause : Event.Cause) :
    (h.probed a cause).trace.isLost b = if a = b then false else h.trace.isLost b := by
  unfold probed probing
  rw [isLost_updated, Trace.isLost_cons, Event.lossOf?]
  split
  · rw [Option.getD_some]
  · rw [Option.getD_none]

theorem probes_probed (h : Watch σ) (a : String) (cause : Event.Cause) :
    (h.probed a cause).trace.probes = h.trace.probes ++ [a] := by
  unfold probed probing
  rw [probes_updated]
  exact Trace.collect_cons ..

@[simp] theorem answers_probed (h : Watch σ) (a : String) (cause : Event.Cause) :
    (h.probed a cause).trace.answers = h.trace.answers := by
  unfold probed probing
  rw [answers_updated]
  exact Trace.collect_of_cons rfl _

theorem count_probes_probed (h : Watch σ) (a b : String) (cause : Event.Cause) :
    (h.probed a cause).trace.probes.count b = h.trace.probes.count b + if a = b then 1 else 0 := by
  rw [probes_probed, List.count_append, List.count_singleton]
  simp

/-- The watch after a session has lost its backend: it is recorded as down unless it is disabled. -/
def lost (h : Watch σ) (key : Session.Key) (a : String) : Watch σ :=
  let h := { h with trace := .lost key a :: h.trace }
  if h.isDisabled a then h else h.ticked.updated a { verdict := .down, reached := World.time h.world }

theorem interval_lost (h : Watch σ) (key : Session.Key) (a : String) : (h.lost key a).interval = h.interval := by
  unfold lost
  simp only
  split <;> rfl

theorem getElem?_records_lost (h : Watch σ) (key : Session.Key) (a b : String) :
    (h.lost key a).records[b]? =
      if a = b ∧ h.isDisabled a = false then some { verdict := .down, reached := World.time h.world }
      else h.records[b]? := by
  have heq : ({ h with trace := .lost key a :: h.trace } : Watch σ).isDisabled a = h.isDisabled a := rfl
  unfold lost
  simp only [heq]
  cases h.isDisabled a with
  | true => simp
  | false => simp [getElem?_records_updated]

/-- A loss disables no backend, and brings none back. -/
theorem isDisabled_lost (h : Watch σ) (key : Session.Key) (a b : String) :
    (h.lost key a).isDisabled b = h.isDisabled b := by
  unfold isDisabled
  rw [getElem?_records_lost]
  split
  · rename_i hab
    obtain ⟨rfl, hd⟩ := hab
    exact hd.symm
  · rfl

theorem lastProbe?_lost (h : Watch σ) (key : Session.Key) (a b : String) :
    (h.lost key a).trace.lastProbe? b = h.trace.lastProbe? b := by
  unfold lost
  simp only
  split <;> simp [Trace.lastProbe?_cons, Event.probeOf?]

theorem isLost_lost (h : Watch σ) (key : Session.Key) (a b : String) :
    (h.lost key a).trace.isLost b = if a = b then true else h.trace.isLost b := by
  have hn : Trace.isLost (.lost key a :: h.trace) b = if a = b then true else h.trace.isLost b := by
    rw [Trace.isLost_cons, Event.lossOf?]
    split
    · rw [Option.getD_some]
    · rw [Option.getD_none]
  unfold lost
  simp only
  split
  · exact hn
  · rw [isLost_updated]
    exact hn

@[simp] theorem probes_lost (h : Watch σ) (key : Session.Key) (a : String) :
    (h.lost key a).trace.probes = h.trace.probes := by
  unfold lost
  simp only
  split
  · exact Trace.collect_of_cons rfl _
  · rw [probes_updated]
    exact Trace.collect_of_cons rfl _

@[simp] theorem answers_lost (h : Watch σ) (key : Session.Key) (a : String) :
    (h.lost key a).trace.answers = h.trace.answers := by
  unfold lost
  simp only
  split
  · exact Trace.collect_of_cons rfl _
  · rw [answers_updated]
    exact Trace.collect_of_cons rfl _

/-- A check that needs no probe. -/
theorem run_check_of_known {a : String} {h : Watch σ} {source : Event.Source} {reachable : Bool}
    (hk : h.known a (World.time h.world) = some (source, reachable)) :
    (check a).run h = (reachable,
      { h.ticked with trace := .checked a reachable source (World.time h.world) :: h.trace }) := by
  unfold check
  simp only [Program.run_bind, run_now, Program.run_get, known_ticked, hk, Program.run_pure, run_note]
  rfl

/-- A check that needs a probe. -/
theorem run_check_of_unknown {a : String} {h : Watch σ} (hk : h.known a (World.time h.world) = none) :
    let h' := h.ticked.probed a (.asked (World.time h.world))
    (check a).run h = (h.ticked.probeAnswer a,
      { h' with trace := .checked a (h.ticked.probeAnswer a) .probed (World.time h.world) :: h'.trace }) := by
  unfold check
  simp only [Program.run_bind, run_now, Program.run_get, known_ticked, hk, Program.run_pure, run_note,
    Program.run_map, run_probe]

/-- A disabled backend is not reachable, whatever a probe of it would say. -/
theorem check_of_isDisabled {h : Watch σ} {a : String} (hd : h.isDisabled a = true) :
    ((check a).run h).1 = false := by
  obtain ⟨r, hr, hv⟩ := (isDisabled_iff h a).1 hd
  have hk : h.known a (World.time h.world) = some (.excluded, false) := by
    simp [known, hr, hv]
  rw [run_check_of_known hk]

/-- A check gives one answer, which is its own. -/
theorem answers_check (h : Watch σ) (a : String) :
    ((check a).run h).2.trace.answers = h.trace.answers ++ [(a, ((check a).run h).1)] := by
  cases hk : h.known a (World.time h.world) with
  | some answer =>
    rw [run_check_of_known hk]
    exact Trace.collect_cons ..
  | none =>
    rw [run_check_of_unknown hk]
    refine (Trace.collect_cons ..).trans ?_
    exact congrArg (· ++ [(a, h.ticked.probeAnswer a)]) (h.ticked.answers_probed a _)

/-- A check probes its backend at most once, and no other. -/
theorem count_probes_check (h : Watch σ) (a b : String) :
    ((check a).run h).2.trace.probes.count b =
      h.trace.probes.count b + if a = b ∧ h.known a (World.time h.world) = none then 1 else 0 := by
  cases hk : h.known a (World.time h.world) with
  | some answer =>
    rw [run_check_of_known hk]
    simp only [reduceCtorEq, and_false, ↓reduceIte, Nat.add_zero]
    exact Trace.count_probes_of_cons rfl ..
  | none =>
    rw [run_check_of_unknown hk]
    simp only [and_true]
    rw [Trace.count_probes_of_cons rfl, count_probes_probed]
    rfl

end Health.Watch

end SessionRouting
