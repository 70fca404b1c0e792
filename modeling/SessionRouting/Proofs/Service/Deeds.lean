/-
What commands do, in terms of the few things that are ever done to the watch. A command is carried out in
deeds (`Deed`), each one of the operations of the watch under the condition under which the service calls
for it, and in asides that concern no backend (`Aside`). `Executed.deeds` says so for every command and
every state, so that what each deed keeps is kept by every run of commands.

`route_spec`, `resolve_spec`, `release_spec` and `execute_spec` say in addition which answer goes with which
deeds and what becomes of the sessions.
-/
import SessionRouting.Proofs.Health.Watch
import SessionRouting.Service.Execution

namespace SessionRouting

open Health Relation

variable {σ : Type}

/-! ## Deeds -/

/-- Whether an event says nothing about the verdict on any backend. -/
def Event.isRemark : Event → Bool
  | probed .. | checked .. | verdictChanged .. | hostsTracked _ | lost .. => false
  | _ => true

theorem Event.isRemark_readings {e : Event} (he : e.isRemark = true) (a : String) :
    e.probeOf? a = none ∧ e.verdictOf? a = none ∧ e.lossOf? a = none := by
  cases e <;> simp_all [isRemark, probeOf?, verdictOf?, lossOf?]

theorem Event.probedAddress?_of_isRemark {e : Event} (he : e.isRemark = true) : e.probedAddress? = none := by
  cases e with
  | probed => cases he
  | _ => rfl

variable [World σ]

/-- Something that concerns no backend. -/
inductive Aside : Watch σ → Watch σ → Prop
  | tick (h : Watch σ) : Aside h h.ticked
  | shuffle (l : List String) (h : Watch σ) : Aside h { h with world := (World.shuffle l h.world).2 }
  | remark {e : Event} (he : e.isRemark = true) (h : Watch σ) : Aside h { h with trace := e :: h.trace }

/-- What a command does to the watch in one go. A `connect` asks about the addresses in its scope. -/
inductive Deed (c : Command) (scope : List String) : Watch σ → Watch σ → Prop
  | aside {h h' : Watch σ} : Aside h h' → Deed c scope h h'
  | answer {h : Watch σ} {a : String} {source : Event.Source} {reachable : Bool} (hc : c.kind = .connect)
    (ha : a ∈ scope) (hk : h.known a (World.time h.world) = some (source, reachable)) :
    Deed c scope h { h.ticked with trace := .checked a reachable source (World.time h.world) :: h.trace }
  | ask {h : Watch σ} {a : String} (hc : c.kind = .connect) (ha : a ∈ scope)
    (hk : h.known a (World.time h.world) = none) :
    Deed c scope h { h.ticked.probed a (.asked (World.time h.world)) with
      trace := .checked a (h.ticked.probeAnswer a) .probed (World.time h.world) ::
        (h.ticked.probed a (.asked (World.time h.world))).trace }
  | lose {h : Watch σ} {a : String} {r : Record} (key : Session.Key) (hc : c.kind = .connect) (ha : a ∈ scope)
    (hr : h.records[a]? = some r) (hu : r.verdict ≠ .up) : Deed c scope h (h.lost key a)
  | exclude {a : String} (hc : c = .disable a) (ha : a ∈ scope) (h : Watch σ) :
    Deed c scope h (h.ticked.updated a { verdict := .disabled, reached := World.time h.world })
  | probe {h : Watch σ} {a : String}
    (hc : (c = .enable a ∧ h.isDisabled a = true) ∨ (c = .failure a ∧ h.isDisabled a = false)) (ha : a ∈ scope) :
    Deed c scope h (h.probed a .ordered)

/-- Asides one after the other. -/
abbrev Asides : Watch σ → Watch σ → Prop := ReflTransGen Aside

/-- Deeds one after the other. -/
abbrev Deeds (c : Command) (scope : List String) : Watch σ → Watch σ → Prop := ReflTransGen (Deed c scope)

theorem Asides.deeds {c : Command} {scope : List String} {h h' : Watch σ} (hs : Asides h h') :
    Deeds c scope h h' :=
  hs.lift id fun _ _ => .aside

/-- A check is a deed of a `connect`, whether it needs a probe or not. -/
theorem Deed.check {c : Command} {scope : List String} {a : String} {h h' : Watch σ} {reachable : Bool}
    (hc : c.kind = .connect) (ha : a ∈ scope) (hx : (Watch.check a).run h = (reachable, h')) :
    Deed c scope h h' := by
  obtain rfl : ((Watch.check a).run h).2 = h' := congrArg Prod.snd hx
  cases hk : h.known a (World.time h.world) with
  | some answer =>
    rw [Watch.run_check_of_known hk]
    exact .answer hc ha hk
  | none =>
    rw [Watch.run_check_of_unknown hk]
    exact .ask hc ha hk

/-- What every deed keeps is kept by deeds one after the other. -/
theorem Deeds.keep {c : Command} {scope : List String} {h h' : Watch σ} (hs : Deeds c scope h h')
    {P : Watch σ → Prop} (hP : ∀ h h', Deed c scope h h' → P h → P h') (h0 : P h) : P h' := by
  induction hs with
  | refl => exact h0
  | tail _ hd ih => exact hP _ _ hd ih

/-- Whether an event is the answer of a check. -/
def Event.isAnswer : Event → Bool
  | checked .. => true
  | _ => false

/-- Why a command probes a backend: a `connect` asks about it and there is no fresh verdict, or the command is one
that calls for a probe. -/
def Deed.Reason (c : Command) (h : Watch σ) (a : String) : Event.Cause → Prop
  | .asked asked => c.kind = .connect ∧ asked = World.time h.world ∧ h.known a asked = none
  | .ordered => (c = .enable a ∧ h.isDisabled a = true) ∨ (c = .failure a ∧ h.isDisabled a = false)

/-- A disabled backend is probed only to enable it. -/
theorem Deed.Reason.enable {c : Command} {h : Watch σ} {a : String} {cause : Event.Cause} (hr : Reason c h a cause)
    (hd : h.isDisabled a = true) : c = .enable a := by
  cases cause with
  | asked asked =>
    obtain ⟨-, -, hk⟩ := hr
    rw [Watch.isDisabled_of_unknown hk] at hd
    cases hd
  | ordered =>
    rcases hr with ⟨hc, -⟩ | ⟨-, hn⟩
    · exact hc
    · rw [hn] at hd
      cases hd

/-- The events that a deed adds to the trace: a probe, for which there is a reason, the answer of a check, and
others that are neither. -/
theorem Deed.grows {c : Command} {scope : List String} {h h' : Watch σ} (hd : Deed c scope h h')
    {P : Event → Trace → Prop} (hother : ∀ e t, e.probedAddress? = none → e.isAnswer = false → P e t)
    (hprobe : ∀ a reachable cause done, Reason c h a cause → P (.probed a reachable cause done) h.trace)
    (hknown : ∀ a source reachable, h.known a (World.time h.world) = some (source, reachable) →
      P (.checked a reachable source (World.time h.world)) h.trace)
    (hunknown : ∀ a, h.known a (World.time h.world) = none →
      P (.checked a (h.ticked.probeAnswer a) .probed (World.time h.world))
        (h.ticked.probed a (.asked (World.time h.world))).trace) :
    Trace.Grows P h.trace h'.trace := by
  have hupdated : ∀ (h : Watch σ) (a : String) (r : Record), Trace.Grows P h.trace (h.updated a r).trace :=
    fun h a r => Watch.grows_updated h a r (hother _ _ rfl rfl) fun n t => hother _ t rfl rfl
  have hprobed : ∀ (g : Watch σ) (a : String) (cause : Event.Cause),
      (∀ reachable done, P (.probed a reachable cause done) g.trace) →
        Trace.Grows P g.trace (g.probed a cause).trace := by
    intro g a cause hp
    exact (Trace.Grows.cons .refl (hp (g.probeAnswer a) (g.probeDone a))).trans (hupdated (g.probing a cause) a _)
  cases hd with
  | aside ha =>
    cases ha with
    | tick => exact .refl
    | shuffle => exact .refl
    | @remark e he _ =>
      refine .cons .refl (hother e _ ?_ ?_)
      -- the events that say something are not remarks, and all others are neither probes nor answers
      all_goals
        cases e with
        | probed => cases he
        | checked => cases he
        | _ => rfl
  | answer _ _ hk => exact .cons .refl (hknown _ _ _ hk)
  | @ask _ b hc _ hk =>
    exact .cons (hprobed h.ticked b _ fun reachable done => hprobe b reachable _ done ⟨hc, rfl, hk⟩) (hunknown b hk)
  | @lose _ b _ key _ _ _ _ =>
    have hl : Trace.Grows P h.trace (.lost key b :: h.trace) := .cons .refl (hother _ _ rfl rfl)
    unfold Watch.lost
    simp only
    split
    · exact hl
    · exact hl.trans (hupdated ({ h with trace := .lost key b :: h.trace } : Watch σ).ticked b _)
  | @exclude b _ _ => exact hupdated h.ticked b _
  | @probe _ b hc _ => exact hprobed h b .ordered fun reachable done => hprobe b reachable .ordered done hc

/-! ## Answers of checks -/

/-- After a check the answer is the one of the record: `up` exactly if it was yes. -/
theorem record_of_check (a : String) (h : Watch σ) :
    ∃ r, ((Watch.check a).run h).2.records[a]? = some r ∧ (r.verdict = .up ↔ ((Watch.check a).run h).1 = true) := by
  cases hk : h.known a (World.time h.world) with
  | some answer =>
    obtain ⟨source, reachable⟩ := answer
    rw [Watch.run_check_of_known hk]
    obtain ⟨r, hr, ⟨hd, -, rfl⟩ | ⟨-, -, -, rfl⟩⟩ := Watch.known_eq_some hk
    · exact ⟨r, hr, by simp [hd]⟩
    · exact ⟨r, hr, by simp⟩
  | none =>
    rw [Watch.run_check_of_unknown hk]
    refine ⟨_, Std.ExtTreeMap.getElem?_insert_self, ?_⟩
    cases h.ticked.probeAnswer a <;> simp [Verdict.ofReachable]

/-! ## The search for a reachable candidate -/

/-- The candidates that are asked about in vain, one after the other. -/
inductive Vain (strategy : Strategy) : List String → Watch σ → Watch σ → Prop
  | nil (h : Watch σ) : Vain strategy [] h h
  | cons {c : String} {cs : List String} {h h' h'' : Watch σ} :
    (Watch.check c).run h = (false, h') →
    Vain strategy cs { h' with trace := .skipped c strategy :: h'.trace } h'' → Vain strategy (c :: cs) h h''

/-- The search ends at the first candidate that is found reachable, or after all of them. -/
theorem firstReachable_cases (strategy : Strategy) : ∀ (order : List String) (h : Watch σ),
    let x := (Selection.firstReachable Watch.check (fun c => Watch.note (.skipped c strategy)) order).run h
    (∃ pre b post h₁, order = pre ++ b :: post ∧ Vain strategy pre h h₁ ∧
      ((Watch.check b).run h₁).1 = true ∧ x = (some b, ((Watch.check b).run h₁).2)) ∨
    ∃ h₁, Vain strategy order h h₁ ∧ x = (none, h₁)
  | [], h => .inr ⟨h, .nil h, rfl⟩
  | c :: cs, h => by
    intro x
    have hx : x = (if ((Watch.check c).run h).1 then (pure (some c) : StateM (Watch σ) (Option String)) else do
        Watch.note (.skipped c strategy)
        Selection.firstReachable Watch.check (fun c => Watch.note (.skipped c strategy)) cs).run
          ((Watch.check c).run h).2 := rfl
    cases hb : ((Watch.check c).run h).1 with
    | true =>
      rw [hb] at hx
      exact .inl ⟨[], c, cs, h, rfl, .nil h, hb, hx⟩
    | false =>
      rw [hb] at hx
      have hv : (Watch.check c).run h = (false, ((Watch.check c).run h).2) := Prod.ext hb rfl
      obtain ⟨pre, b, post, h₁, rfl, h1, h2, h3⟩ | ⟨h₁, h1, h2⟩ := firstReachable_cases strategy cs
          { ((Watch.check c).run h).2 with trace := .skipped c strategy :: ((Watch.check c).run h).2.trace }
      · exact .inl ⟨c :: pre, b, post, h₁, rfl, .cons hv h1, h2, hx.trans h3⟩
      · exact .inr ⟨h₁, .cons hv h1, hx.trans h2⟩

theorem Vain.deeds {c : Command} {scope : List String} (hc : c.kind = .connect) {strategy : Strategy}
    {order : List String} {h h' : Watch σ} (hv : Vain strategy order h h') (hs : ∀ a ∈ order, a ∈ scope) :
    Deeds c scope h h' := by
  induction hv with
  | nil => exact .refl
  | @cons a cs h h₁ h₂ hf _ ih =>
    have hcheck : Deed c scope h h₁ := .check hc (hs a (List.mem_cons_self ..)) hf
    exact (ReflTransGen.single hcheck).trans
      ((ReflTransGen.single (.aside (.remark rfl h₁))).trans (ih fun b hb => hs b (List.mem_cons_of_mem _ hb)))

/-! ## Routing -/

namespace Routing

/-- The backends that the policy names for a user and a target. -/
def candidates (r : Router) (user target : String) : List String :=
  match (r.directory.groupsOf user).groups with
  | .ok groups => (r.policy.plan user target groups).candidates
  | .error _ => []

theorem asides_unnamed (ids : List Nat) (h : Watch σ) :
    Asides h ((ids.forM fun id => Watch.note (.groupUnnamed id) : StateM (Watch σ) Unit).run h).2 := by
  induction ids generalizing h with
  | nil => exact .refl
  | cons id ids ih => exact (ReflTransGen.single (Aside.remark (e := .groupUnnamed id) rfl h)).trans (ih _)

/-- The order in which candidates are asked about is theirs, or some order of them. -/
theorem arrange_spec (strategy : Strategy) (l : List String) (h : Watch σ) :
    ((arrange strategy l).run h).1.Perm l ∧ (strategy = .ordered → ((arrange strategy l).run h).1 = l) ∧
      Asides h ((arrange strategy l).run h).2 := by
  cases strategy with
  | ordered => exact ⟨.refl _, fun _ => rfl, .refl⟩
  | random => exact ⟨World.shuffle_perm l h.world, (by intro hs; cases hs), ReflTransGen.single (.shuffle l h)⟩

/-- How a selection among candidates ends: `order` is the order in which they are asked about. -/
inductive Selected (strategy : Strategy) (candidates : List String) (h : Watch σ) :
    Option String → Watch σ → Prop
  | found {order pre post : List String} {b : String} {h₁ h₂ : Watch σ} (hp : order.Perm candidates)
    (ho : strategy = .ordered → order = candidates) (h1 : Asides h h₁) (hs : order = pre ++ b :: post)
    (hv : Vain strategy pre h₁ h₂) (hb : ((Watch.check b).run h₂).1 = true) :
    Selected strategy candidates h (some b) ((Watch.check b).run h₂).2
  | exhausted {order : List String} {h₁ h₂ : Watch σ} (hp : order.Perm candidates)
    (ho : strategy = .ordered → order = candidates) (h1 : Asides h h₁) (hv : Vain strategy order h₁ h₂) :
    Selected strategy candidates h none h₂

theorem select_spec (strategy : Strategy) (l : List String) (h : Watch σ) :
    Selected strategy l h ((select strategy l).run h).1 ((select strategy l).run h).2 := by
  obtain ⟨hp, ho, ha⟩ := arrange_spec strategy l h
  have hx : (select strategy l).run h = (Selection.firstReachable Watch.check
    (fun c => Watch.note (.skipped c strategy)) ((arrange strategy l).run h).1).run
      ((arrange strategy l).run h).2 := rfl
  obtain ⟨pre, b, post, h₁, hs, hv, hb, h3⟩ | ⟨h₁, hv, h3⟩ :=
    firstReachable_cases strategy ((arrange strategy l).run h).1 ((arrange strategy l).run h).2
  · rw [hx, h3]
    exact .found hp ho ha hs hv hb
  · rw [hx, h3]
    exact .exhausted hp ho ha hv

/-- A candidate is found by a check that answers yes, after deeds for the ones before it. -/
theorem Selected.found_cases {c : Command} {scope : List String} (hc : c.kind = .connect) {strategy : Strategy}
    {l : List String} {h h' : Watch σ} {b : String} (hs : Selected strategy l h (some b) h')
    (hl : ∀ a ∈ l, a ∈ scope) :
    ∃ h₁, Deeds c scope h h₁ ∧ b ∈ scope ∧ (Watch.check b).run h₁ = (true, h') := by
  cases hs with
  | @found order pre post _ h₁ h₂ hp _ h1 hs hv hb =>
    have hmem : ∀ a ∈ pre ++ b :: post, a ∈ scope := fun a ha => hl a (hp.mem_iff.1 (hs ▸ ha))
    have hpre : Deeds c scope h₁ h₂ := hv.deeds hc fun a ha => hmem a (List.mem_append_left _ ha)
    exact ⟨h₂, h1.deeds.trans hpre, hmem b (by simp), Prod.ext hb rfl⟩

theorem Selected.deeds {c : Command} {scope : List String} (hc : c.kind = .connect) {strategy : Strategy}
    {l : List String} {h h' : Watch σ} {chosen : Option String} (hs : Selected strategy l h chosen h')
    (hl : ∀ a ∈ l, a ∈ scope) : Deeds c scope h h' := by
  cases chosen with
  | some b =>
    obtain ⟨h₁, h1, hb, hx⟩ := hs.found_cases hc hl
    exact h1.tail (.check hc hb hx)
  | none =>
    cases hs with
    | exhausted hp _ h1 hv => exact h1.deeds.trans (hv.deeds hc fun a ha => hl a (hp.mem_iff.1 ha))

/-- How a route ends: for want of groups, or as the selection among the candidates of the plan does. -/
inductive Routed (r : Router) (user target : String) (h : Watch σ) : Except Fault String → Watch σ → Prop
  | ungrouped {f : Membership.Fault} {h₁ : Watch σ} (hg : (r.directory.groupsOf user).groups = .error f)
    (h1 : Asides h h₁) : Routed r user target h (.error (.groups f)) h₁
  | found {groups : Names} {h₁ h₂ : Watch σ} {b : String} (hg : (r.directory.groupsOf user).groups = .ok groups)
    (h1 : Asides h h₁) (hs : Selected (r.policy.plan user target groups).strategy
      (r.policy.plan user target groups).candidates h₁ (some b) h₂) : Routed r user target h (.ok b) h₂
  | exhausted {groups : Names} {h₁ h₂ : Watch σ} (hg : (r.directory.groupsOf user).groups = .ok groups)
    (h1 : Asides h h₁) (hs : Selected (r.policy.plan user target groups).strategy
      (r.policy.plan user target groups).candidates h₁ none h₂) : Routed r user target h (.error .noCandidate) h₂

theorem route_spec (r : Router) (user target : String) (h : Watch σ) :
    Routed r user target h ((route r user target).run h).1 ((route r user target).run h).2 := by
  have hn := asides_unnamed (r.directory.groupsOf user).unnamed h
  unfold route
  simp only [Program.run_bind]
  generalize (((r.directory.groupsOf user).unnamed.forM fun id =>
    Watch.note (.groupUnnamed id) : StateM (Watch σ) Unit).run h).2 = h₀ at hn
  cases hg : (r.directory.groupsOf user).groups with
  | error f => exact .ungrouped hg hn
  | ok groups =>
    simp only [Program.run_bind, Watch.run_note]
    let plan := r.policy.plan user target groups
    have ha : Aside h₀ { h₀ with trace := .planned user target plan :: h₀.trace } := .remark rfl h₀
    have hs := select_spec plan.strategy plan.candidates { h₀ with trace := .planned user target plan :: h₀.trace }
    cases hy : ((select plan.strategy plan.candidates).run
      { h₀ with trace := .planned user target plan :: h₀.trace }).1 with
    | some b =>
      rw [hy] at hs
      exact .found hg (hn.tail ha) hs
    | none =>
      rw [hy] at hs
      exact .exhausted hg (hn.tail ha) hs

theorem candidates_of_groups {r : Router} {user : String} {groups : Names}
    (hg : (r.directory.groupsOf user).groups = .ok groups) (target : String) :
    (r.policy.plan user target groups).candidates = candidates r user target := by
  simp only [candidates, hg]

/-- A route is found by a check that answers yes. -/
theorem Routed.found_cases {c : Command} {scope : List String} (hc : c.kind = .connect) {r : Router}
    {user target : String} {h h' : Watch σ} {b : String} (hr : Routed r user target h (.ok b) h')
    (hl : ∀ a ∈ candidates r user target, a ∈ scope) :
    ∃ h₁, Deeds c scope h h₁ ∧ (Watch.check b).run h₁ = (true, h') := by
  cases hr with
  | found hg h1 hs =>
    obtain ⟨h₁, h2, -, hx⟩ := hs.found_cases hc fun a ha => hl a (candidates_of_groups hg target ▸ ha)
    exact ⟨h₁, h1.deeds.trans h2, hx⟩

theorem Routed.deeds {c : Command} {scope : List String} (hc : c.kind = .connect) {r : Router}
    {user target : String} {h h' : Watch σ} {x : Except Fault String} (hr : Routed r user target h x h')
    (hl : ∀ a ∈ candidates r user target, a ∈ scope) : Deeds c scope h h' := by
  cases hr with
  | ungrouped _ h1 => exact h1.deeds
  | found hg h1 hs => exact h1.deeds.trans (hs.deeds hc fun a ha => hl a (candidates_of_groups hg _ ▸ ha))
  | exhausted hg h1 hs => exact h1.deeds.trans (hs.deeds hc fun a ha => hl a (candidates_of_groups hg _ ▸ ha))

end Routing

/-! ## Sessions -/

namespace Service

section

omit [World σ]

@[simp] theorem run_watching {α : Type} (x : StateM (Watch σ) α) (s : Service σ) :
    (watching x).run s = ((x.run s.watch).1, { s with watch := (x.run s.watch).2 }) := rfl

@[simp] theorem run_note (e : Event) (s : Service σ) :
    (note e).run s = ((), { s with watch := { s.watch with trace := e :: s.watch.trace } }) := rfl

@[simp] theorem run_put (key : Session.Key) (entry : Session) (s : Service σ) :
    (put key entry).run s = ((), { s with sessions := s.sessions.insert key entry }) := rfl

end

theorem reuse_of_none {key : Session.Key} {s : Service σ} (he : s.sessions[key]? = none) :
    (reuse key).run s = (none, s) := by
  unfold reuse
  simp only [Program.run_bind, Program.run_get, he, Program.run_pure]

/-- The backend of the key is found reachable: one more session goes to it. -/
theorem reuse_of_true {key : Session.Key} {s : Service σ} {e : Session} {h : Watch σ}
    (he : s.sessions[key]? = some e) (hb : (Watch.check e.backend).run s.watch = (true, h)) :
    (reuse key).run s = (some e.backend, {
      watch := { h.ticked with trace := .reused key e.backend (e.count + 1) :: h.trace }
      sessions := s.sessions.insert key { e with count := e.count + 1, lastActive := World.time h.world } }) := by
  unfold reuse
  simp only [Program.run_bind, Program.run_get, he, run_watching, hb, ↓reduceIte, Watch.run_now, run_put,
    run_note, Program.run_pure]
  rfl

/-- The backend of the key is not found reachable: the key has lost it, and its entry stays. -/
theorem reuse_of_false {key : Session.Key} {s : Service σ} {e : Session} {h : Watch σ}
    (he : s.sessions[key]? = some e) (hb : (Watch.check e.backend).run s.watch = (false, h)) :
    (reuse key).run s = (none, { s with watch := h.lost key e.backend }) := by
  unfold reuse Watch.lost
  simp only [Program.run_bind, Program.run_get, he, run_watching, hb, Bool.false_eq_true, ↓reduceIte, run_note]
  by_cases hd : ({ h with trace := .lost key e.backend :: h.trace } : Watch σ).isDisabled e.backend = true
  · simp only [hd, ↓reduceIte]
    rfl
  · simp only [hd, Bool.false_eq_true, ↓reduceIte, Program.run_bind, run_watching, Watch.run_now, Watch.run_update]
    rfl

/-- The key has no backend that is found reachable; `h` is the watch when that is known. -/
inductive Unheld (key : Session.Key) (s : Service σ) : Watch σ → Prop
  | absent (he : s.sessions[key]? = none) : Unheld key s s.watch
  | lost {e : Session} {h : Watch σ} (he : s.sessions[key]? = some e)
    (hb : (Watch.check e.backend).run s.watch = (false, h)) : Unheld key s (h.lost key e.backend)

/-- How a new session on a key gets its backend: from its entry, afresh, or not at all. -/
inductive Resolved (r : Router) (key : Session.Key) (s : Service σ) :
    Except Routing.Fault String → Service σ → Prop
  | held {e : Session} {h : Watch σ} (he : s.sessions[key]? = some e)
    (hb : (Watch.check e.backend).run s.watch = (true, h)) :
    Resolved r key s (.ok e.backend) {
      watch := { h.ticked with trace := .reused key e.backend (e.count + 1) :: h.trace }
      sessions := s.sessions.insert key { e with count := e.count + 1, lastActive := World.time h.world } }
  | routed {h₁ h₂ : Watch σ} {b : String} {sessions : Sessions} (hu : Unheld key s h₁)
    (hr : Routing.Routed r key.user key.target h₁ (.ok b) h₂)
    (hs : sessions = s.sessions.insert key { backend := b, count := 1, lastActive := World.time h₂.world }) :
    Resolved r key s (.ok b) {
      watch := { h₂.ticked with trace := .entriesOpen sessions.size :: .assigned key b :: h₂.trace }
      sessions }
  | failed {h₁ h₂ : Watch σ} {f : Routing.Fault} (hu : Unheld key s h₁)
    (hr : Routing.Routed r key.user key.target h₁ (.error f) h₂) :
    Resolved r key s (.error f) { s with watch := h₂ }

theorem resolved_of_unheld {r : Router} {key : Session.Key} {s : Service σ} {h : Watch σ}
    (hu : Unheld key s h) (hx : (reuse key).run s = (none, { s with watch := h })) :
    Resolved r key s ((resolve r key).run s).1 ((resolve r key).run s).2 := by
  have hr := Routing.route_spec r key.user key.target h
  unfold resolve
  simp only [Program.run_bind, hx, run_watching]
  cases hy : ((Routing.route r key.user key.target).run h).1 with
  | ok b =>
    rw [hy] at hr
    exact .routed hu hr rfl
  | error f =>
    rw [hy] at hr
    exact .failed hu hr

theorem resolve_spec (r : Router) (key : Session.Key) (s : Service σ) :
    Resolved r key s ((resolve r key).run s).1 ((resolve r key).run s).2 := by
  cases he : s.sessions[key]? with
  | none => exact resolved_of_unheld (.absent he) (reuse_of_none he)
  | some e =>
    cases hb : ((Watch.check e.backend).run s.watch).1 with
    | false =>
      have hb' : (Watch.check e.backend).run s.watch = (false, _) := Prod.ext hb rfl
      exact resolved_of_unheld (.lost he hb') (reuse_of_false he hb')
    | true =>
      have hb' : (Watch.check e.backend).run s.watch = (true, _) := Prod.ext hb rfl
      have hx : (resolve r key).run s = (.ok e.backend, ((reuse key).run s).2) := by
        unfold resolve
        simp only [Program.run_bind, reuse_of_true he hb', Program.run_pure]
      rw [hx, reuse_of_true he hb']
      exact .held he hb'

/-- How a session ends: there is none, it is the last one of its key, or others remain. -/
inductive Released (key : Session.Key) (s : Service σ) : Except Session.Fault Nat → Service σ → Prop
  | unknown (he : s.sessions[key]? = none) : Released key s (.error (.unknown key)) s
  | last {e : Session} (he : s.sessions[key]? = some e) (hn : e.count - 1 = 0) :
    Released key s (.ok 0) {
      watch := { s.watch with trace := .entriesOpen (s.sessions.erase key).size :: s.watch.trace }
      sessions := s.sessions.erase key }
  | remaining {e : Session} (he : s.sessions[key]? = some e) (hn : e.count - 1 ≠ 0) :
    Released key s (.ok (e.count - 1)) {
      watch := s.watch.ticked
      sessions := s.sessions.insert key
        { e with count := e.count - 1, lastActive := World.time s.watch.world } }

theorem release_spec (key : Session.Key) (s : Service σ) :
    Released key s ((release key).run s).1 ((release key).run s).2 := by
  unfold release
  simp only [Program.run_bind, Program.run_get]
  cases he : s.sessions[key]? with
  | none => exact .unknown he
  | some e =>
    by_cases hn : e.count - 1 = 0
    · simp only [hn, ↓reduceIte]
      exact .last he hn
    · simp only [hn, ↓reduceIte]
      exact .remaining he hn

/-! ## Commands -/

/-- The addresses that a command may ask about or change the verdict on. -/
def scope (r : Router) (s : Service σ) : Command → List String
  | .connect user target =>
    (s.sessions[(⟨user, target⟩ : Session.Key)]?.map Session.backend).toList ++ Routing.candidates r user target
  | .disable host | .enable host | .failure host => [host]
  | .disconnect .. | .info _ => []

theorem Unheld.deeds {c : Command} {scope : List String} (hc : c.kind = .connect) {key : Session.Key}
    {s : Service σ} {h : Watch σ} (hu : Unheld key s h) (hs : ∀ e, s.sessions[key]? = some e → e.backend ∈ scope) :
    Deeds c scope s.watch h := by
  cases hu with
  | absent => exact .refl
  | @lost e h he hb =>
    have hcheck : Deed c scope s.watch h := .check hc (hs e he) hb
    obtain ⟨v, hv, hiff⟩ := record_of_check e.backend s.watch
    rw [hb] at hv hiff
    -- the check has left a record, which is not `up` since the answer was no
    exact (ReflTransGen.single hcheck).tail (.lose key hc (hs e he) hv fun hup => by simpa using hiff.1 hup)

/-- A session that is opened on a backend concerns no verdict. -/
theorem asides_assigned (key : Session.Key) (b : String) (n : Nat) (h : Watch σ) :
    Asides h { h.ticked with trace := .entriesOpen n :: .assigned key b :: h.trace } :=
  ((ReflTransGen.single (.tick h)).tail (.remark (e := .assigned key b) rfl _)).tail (.remark rfl _)

/-- The backend of a new session was found reachable by a check. -/
theorem Resolved.ok_cases {c : Command} {scope : List String} (hc : c.kind = .connect) {r : Router}
    {key : Session.Key} {s s' : Service σ} {b : String} (hx : Resolved r key s (.ok b) s')
    (hs : ∀ e, s.sessions[key]? = some e → e.backend ∈ scope)
    (hl : ∀ a ∈ Routing.candidates r key.user key.target, a ∈ scope) :
    ∃ h, Deeds c scope s.watch h ∧ ((Watch.check b).run h).1 = true := by
  cases hx with
  | held he hb => exact ⟨s.watch, .refl, by rw [hb]⟩
  | routed hu hr =>
    obtain ⟨h, h1, hb⟩ := hr.found_cases hc hl
    exact ⟨h, (hu.deeds hc hs).trans h1, by rw [hb]⟩

theorem Resolved.deeds {c : Command} {scope : List String} (hc : c.kind = .connect) {r : Router}
    {key : Session.Key} {s s' : Service σ} {x : Except Routing.Fault String} (hx : Resolved r key s x s')
    (hs : ∀ e, s.sessions[key]? = some e → e.backend ∈ scope)
    (hl : ∀ a ∈ Routing.candidates r key.user key.target, a ∈ scope) : Deeds c scope s.watch s'.watch := by
  cases hx with
  | @held e h he hb =>
    have hcheck : Deed c scope s.watch h := .check hc (hs e he) hb
    exact ((ReflTransGen.single hcheck).tail (.aside (.tick h))).tail (.aside (.remark rfl _))
  | @routed h₁ h₂ b sessions hu hr =>
    have h12 : Deeds c scope s.watch h₂ := (hu.deeds hc hs).trans (hr.deeds hc hl)
    exact h12.trans (asides_assigned key b sessions.size h₂).deeds
  | failed hu hr => exact (hu.deeds hc hs).trans (hr.deeds hc hl)

theorem Released.asides {key : Session.Key} {s s' : Service σ} {x : Except Session.Fault Nat}
    (hx : Released key s x s') : Asides s.watch s'.watch := by
  cases hx with
  | unknown => exact .refl
  | last => exact .single (.remark rfl _)
  | remaining => exact .single (.tick _)

/-- How a command is carried out: its result, and the service after it. -/
inductive Executed (r : Router) (s : Service σ) : Command → Except Refusal Completion → Service σ → Prop
  | connected {user target b : String} {s' : Service σ} (hx : Resolved r ⟨user, target⟩ s (.ok b) s') :
    Executed r s (.connect user target) (.ok { reply := .simple b }) s'
  | refused {user target : String} {f : Routing.Fault} {s' : Service σ}
    (hx : Resolved r ⟨user, target⟩ s (.error f) s') :
    Executed r s (.connect user target) (.error (.routing f)) s'
  | disconnected {user target : String} {n : Nat} {s' : Service σ} (hx : Released ⟨user, target⟩ s (.ok n) s') :
    Executed r s (.disconnect user target) (.ok .quiet)
      { s' with watch := { s'.watch with trace := .released ⟨user, target⟩ n :: s'.watch.trace } }
  | unknownSession {user target : String} (he : s.sessions[(⟨user, target⟩ : Session.Key)]? = none) :
    Executed r s (.disconnect user target) (.ok (.quiet (some (.unknownSession ⟨user, target⟩)))) s
  | disabled {host : String} :
    Executed r s (.disable host) (.ok .quiet) { s with
      watch := s.watch.ticked.updated host { verdict := .disabled, reached := World.time s.watch.world } }
  | enabled {host : String} (hd : s.watch.isDisabled host = true) :
    Executed r s (.enable host) (.ok .quiet) { s with watch := s.watch.probed host .ordered }
  | notDisabled {host : String} (hd : s.watch.isDisabled host = false) :
    Executed r s (.enable host) (.ok (.quiet (some (.notDisabled host)))) s
  | alreadyDisabled {host : String} (hd : s.watch.isDisabled host = true) :
    Executed r s (.failure host) (.ok (.quiet (some (.alreadyDisabled host)))) s
  | failureDisputed {host : String} (hd : s.watch.isDisabled host = false)
    (hp : s.watch.probeAnswer host = true) :
    Executed r s (.failure host) (.ok (.quiet (some (.failureDisputed host))))
      { s with watch := s.watch.probed host .ordered }
  | failureConfirmed {host : String} (hd : s.watch.isDisabled host = false)
    (hp : s.watch.probeAnswer host = false) :
    Executed r s (.failure host) (.ok .quiet) { s with watch := s.watch.probed host .ordered }
  | listed {topic : Command.Topic} : Executed r s (.info topic) (.ok { reply := .bulk (s.listing topic) }) s

theorem execute_spec (r : Router) (s : Service σ) (c : Command) :
    Executed r s c ((execute r c).run s).1 ((execute r c).run s).2 := by
  cases c with
  | connect user target =>
    have hx := resolve_spec r ⟨user, target⟩ s
    unfold execute connect
    simp only [Program.run_bind]
    cases hy : ((resolve r ⟨user, target⟩).run s).1 with
    | ok b =>
      rw [hy] at hx
      exact .connected hx
    | error f =>
      rw [hy] at hx
      exact .refused hx
  | disconnect user target =>
    have hx := release_spec ⟨user, target⟩ s
    unfold execute disconnect
    simp only [Program.run_map, Program.run_bind]
    generalize (release ⟨user, target⟩).run s = y at hx
    obtain ⟨res, s'⟩ := y
    cases hx with
    | unknown he => exact .unknownSession he
    | last he hn => exact .disconnected (.last he hn)
    | remaining he hn => exact .disconnected (.remaining he hn)
  | disable host =>
    unfold execute disable
    simp only [Program.run_map, Program.run_bind, run_watching, Watch.run_now, Watch.run_update]
    exact .disabled
  | enable host =>
    unfold execute enable
    simp only [Program.run_map, Program.run_bind, Program.run_get]
    by_cases hd : s.watch.isDisabled host = true
    · simp only [hd, ↓reduceIte, Program.run_bind, run_watching, Watch.run_probe]
      exact .enabled hd
    · simp only [hd, Bool.false_eq_true, ↓reduceIte]
      exact .notDisabled (by simpa using hd)
  | failure host =>
    unfold execute failure
    simp only [Program.run_map, Program.run_bind, Program.run_get]
    by_cases hd : s.watch.isDisabled host = true
    · simp only [hd, ↓reduceIte]
      exact .alreadyDisabled hd
    · simp only [hd, Bool.false_eq_true, ↓reduceIte, Program.run_bind, run_watching, Watch.run_probe]
      by_cases hp : s.watch.probeAnswer host = true
      · simp only [hp, ↓reduceIte]
        exact .failureDisputed (by simpa using hd) hp
      · simp only [hp, Bool.false_eq_true, ↓reduceIte]
        exact .failureConfirmed (by simpa using hd) (by simpa using hp)
  | info topic => exact .listed

omit [World σ] in
/-- The backend of the key is in the scope of a `connect`. -/
theorem mem_scope_connect {r : Router} {s : Service σ} {user target : String} {e : Session}
    (he : s.sessions[(⟨user, target⟩ : Session.Key)]? = some e) : e.backend ∈ scope r s (.connect user target) := by
  simp [scope, he]

/-- Every command is carried out in deeds within its scope. -/
theorem Executed.deeds {r : Router} {s s' : Service σ} {c : Command} {x : Except Refusal Completion}
    (hx : Executed r s c x s') : Deeds c (scope r s c) s.watch s'.watch := by
  have hconn : ∀ {user target : String} {y : Except Routing.Fault String},
      Resolved r ⟨user, target⟩ s y s' →
        Deeds (.connect user target) (scope r s (.connect user target)) s.watch s'.watch :=
    fun hx => hx.deeds rfl (fun _ he => mem_scope_connect he) fun _ ha => List.mem_append_right _ ha
  cases hx with
  | connected hx => exact hconn hx
  | refused hx => exact hconn hx
  | disconnected hx => exact Asides.deeds (hx.asides.tail (.remark rfl _))
  | unknownSession => exact .refl
  | disabled => exact .single (.exclude rfl (List.mem_singleton_self _) _)
  | enabled hd => exact .single (.probe (.inl ⟨rfl, hd⟩) (List.mem_singleton_self _))
  | notDisabled => exact .refl
  | alreadyDisabled => exact .refl
  | failureDisputed hd => exact .single (.probe (.inr ⟨rfl, hd⟩) (List.mem_singleton_self _))
  | failureConfirmed hd => exact .single (.probe (.inr ⟨rfl, hd⟩) (List.mem_singleton_self _))
  | listed => exact .refl

/-! ## Runs -/

/-- Where a list that is put together splits: in its first part or in its second one. -/
theorem split_of_append {α : Type} {l l' pre post : List α} {a : α} (h : l ++ l' = pre ++ a :: post) :
    (∃ mid, l = pre ++ a :: mid ∧ post = mid ++ l') ∨ ∃ mid, pre = l ++ mid ∧ l' = mid ++ a :: post := by
  rcases List.append_eq_append_iff.1 h with ⟨mid, hpre, hl'⟩ | ⟨mid, hl, hmid⟩
  · exact .inr ⟨mid, hpre, hl'⟩
  · cases mid with
    | nil => exact .inr ⟨[], by rw [hl, List.append_nil, List.append_nil], hmid.symm⟩
    | cons b mid =>
      obtain ⟨rfl, hpost⟩ := List.cons.inj hmid
      exact .inl ⟨mid, hl, hpost⟩

/-- Where a list with one more member splits: at that member or before it. -/
theorem eq_or_split_of_concat {α : Type} {l pre post : List α} {a c : α} (h : l ++ [c] = pre ++ a :: post) :
    (l = pre ∧ c = a ∧ post = []) ∨ ∃ post', l = pre ++ a :: post' ∧ post = post' ++ [c] := by
  rcases split_of_append h with hsplit | ⟨mid, hpre, hc⟩
  · exact .inr hsplit
  · cases mid with
    | nil =>
      obtain ⟨rfl, hpost⟩ := List.cons.inj hc
      exact .inl ⟨by rw [hpre, List.append_nil], rfl, hpost.symm⟩
    | cons b mid => simp at hc

/-- The service before the first command, with a check interval in nanoseconds. -/
def fresh (interval : Nat) (world : σ) : Service σ where
  watch := { interval, world }

/-- The result of a command. -/
def result (r : Router) (s : Service σ) (c : Command) : Except Refusal Completion := ((execute r c).run s).1

/-- The service after a command. -/
def next (r : Router) (s : Service σ) (c : Command) : Service σ := ((execute r c).run s).2

/-- The service after commands, one after the other, each with the directory as it answers meanwhile. -/
def after (p : Policy) (s : Service σ) (cs : List (Command × Directory)) : Service σ :=
  cs.foldl (fun s c => next ⟨p, c.2⟩ s c.1) s

theorem executed (r : Router) (s : Service σ) (c : Command) : Executed r s c (result r s c) (next r s c) :=
  execute_spec r s c

@[simp] theorem after_nil (p : Policy) (s : Service σ) : after p s [] = s := rfl

theorem after_append (p : Policy) (s : Service σ) (cs ds : List (Command × Directory)) :
    after p s (cs ++ ds) = after p (after p s cs) ds := List.foldl_append

theorem after_concat (p : Policy) (s : Service σ) (cs : List (Command × Directory)) (c : Command) (d : Directory) :
    after p s (cs ++ [(c, d)]) = next ⟨p, d⟩ (after p s cs) c := by
  rw [after_append]; rfl

/-- What every deed of every command keeps is kept by a run. -/
theorem after_keep {p : Policy} {s : Service σ} {P : Watch σ → Prop}
    (hP : ∀ c scope h h', Deed c scope h h' → P h → P h') (h0 : P s.watch) (cs : List (Command × Directory)) :
    P (after p s cs).watch := by
  induction cs using List.reverseRecOn with
  | nil => exact h0
  | append_singleton cs c ih =>
    rw [after_concat]
    exact (executed ⟨p, c.2⟩ _ c.1).deeds.keep (hP c.1 _) ih

end Service

/-- The policy that names the same candidates to every user and for every target. -/
def Policy.flat (candidates : List String) : Policy where
  global := { strategy := none, routes := (∅ : Routes).insert defaultRoute candidates }
  groups := ∅
  users := ∅

/-- The directory that knows every user and no groups. -/
def Directory.groupless : Directory where
  groupsOf _ := { groups := .ok ∅ }

/-- The router with these two. -/
def Router.flat (candidates : List String) : Router where
  policy := .flat candidates
  directory := .groupless

end SessionRouting
