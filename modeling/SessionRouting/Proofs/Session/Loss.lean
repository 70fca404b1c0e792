/-
A `connect` whose backend turns out not to be reachable. The backend is recorded as down before any candidate
is asked about, or it is disabled. For as long as the interval lasts it is therefore neither probed again nor
found reachable, so that the `connect` does not come back to it, even when it is among the candidates.

`Watch.Shuns` is the invariant of the deeds of such a `connect`.
-/
import SessionRouting.Proofs.Health.Freshness

namespace SessionRouting

open Health

variable {σ : Type}

/-! ## The invariant -/

namespace Health.Watch

variable [World σ]

/-- A backend is disabled, or it is recorded as down since a moment that is not before `since`. -/
def Shuns (h : Watch σ) (b : String) (since : Moment) : Prop :=
  ∃ r, h.records[b]? = some r ∧
    (r.verdict = .disabled ∨ (r.verdict = .down ∧ since ≤ r.reached ∧ r.reached ≤ World.time h.world))

/-- Within the interval such a backend is not probed and not reachable. -/
theorem Shuns.known {h : Watch σ} {b : String} {since : Moment} (hs : h.Shuns b since)
    (ht : (World.time h.world).nanos - since.nanos ≤ h.interval) :
    ∃ source, h.known b (World.time h.world) = some (source, false) := by
  obtain ⟨r, hr, hv | ⟨hv, h1, h2⟩⟩ := hs
  · exact ⟨.excluded, by simp [Watch.known, hr, hv]⟩
  · refine ⟨.recalled, ?_⟩
    have hage : (World.time h.world).nanos - r.reached.nanos ≤ h.interval := by
      have h1' : since.nanos ≤ r.reached.nanos := h1
      omega
    rw [known_of_record hr (by simp [hv]) h2, if_pos hage, hv]
    rfl

theorem Shuns.frame {h h' : Watch σ} {b : String} {since : Moment} (hs : h.Shuns b since)
    (hr : h'.records[b]? = h.records[b]?) (hw : World.time h.world ≤ World.time h'.world) : h'.Shuns b since := by
  obtain ⟨r, hr', hv⟩ := hs
  refine ⟨r, hr.trans hr', hv.imp id fun hd => ⟨hd.1, hd.2.1, Moment.le_trans hd.2.2 hw⟩⟩

/-- A backend that is lost is shunned from then on. -/
theorem shuns_lost [World.Steady σ] (h : Watch σ) (key : Session.Key) (b : String) {since : Moment}
    (hsince : since ≤ World.time h.world) : (h.lost key b).Shuns b since := by
  have hrec := h.getElem?_records_lost key b b
  by_cases hd : h.isDisabled b = true
  · obtain ⟨r, hr, hv⟩ := (isDisabled_iff h b).1 hd
    rw [if_neg (by simp [hd])] at hrec
    exact ⟨r, hrec.trans hr, .inl hv⟩
  · rw [if_pos ⟨rfl, by simpa using hd⟩] at hrec
    exact ⟨_, hrec, .inr ⟨rfl, hsince, h.time_le_lost key b⟩⟩

end Health.Watch

variable [World σ] [World.Steady σ]

/-- In the deeds of a `connect` a shunned backend is not probed, and stays shunned, within the interval. -/
theorem Deed.shuns {c : Command} {scope : List String} {h h' : Watch σ} (hd : Deed c scope h h')
    (hc : c.kind = .connect) {b : String} {since : Moment} (hs : h.Shuns b since)
    (ht : (World.time h.world).nanos - since.nanos ≤ h.interval) :
    h'.Shuns b since ∧ h'.trace.probes.count b = h.trace.probes.count b := by
  have htime := hd.time_le
  cases hd with
  | aside ha =>
    cases ha with
    | tick => exact ⟨hs.frame rfl htime, rfl⟩
    | shuffle => exact ⟨hs.frame rfl htime, rfl⟩
    | remark he =>
      exact ⟨hs.frame rfl htime, Trace.count_probes_of_cons (Event.probedAddress?_of_isRemark he) ..⟩
  | answer => exact ⟨hs.frame rfl htime, Trace.count_probes_of_cons rfl ..⟩
  | @ask _ a _ _ hk =>
    -- what needs a probe is another backend, since this one is known not to be reachable
    have hab : a ≠ b := by
      rintro rfl
      obtain ⟨source, hk'⟩ := hs.known ht
      exact absurd (hk.symm.trans hk') (by simp)
    constructor
    · refine hs.frame ?_ htime
      show (h.ticked.probed a _).records[b]? = _
      rw [Watch.getElem?_records_probed, if_neg hab]
      rfl
    · rw [Trace.count_probes_of_cons rfl, Watch.count_probes_probed, if_neg hab]
      rfl
  | @lose _ a _ key _ _ _ _ =>
    refine ⟨?_, congrArg (List.count b) (h.probes_lost key a)⟩
    have hrec := h.getElem?_records_lost key a b
    by_cases hab : a = b ∧ h.isDisabled a = false
    · rw [if_pos hab] at hrec
      obtain ⟨r, hr, hv⟩ := hs
      have hsince : since ≤ World.time h.world := by
        rcases hv with hv | ⟨-, h1, h2⟩
        · have hdis := (Watch.isDisabled_iff h b).2 ⟨r, hr, hv⟩
          rw [← hab.1, hab.2] at hdis
          cases hdis
        · exact Moment.le_trans h1 h2
      exact ⟨_, hrec, .inr ⟨rfl, hsince, h.time_le_lost key a⟩⟩
    · rw [if_neg hab] at hrec
      exact hs.frame hrec htime
  | exclude hdis _ =>
    rw [hdis] at hc
    cases hc
  | probe hp _ =>
    rcases hp with ⟨hp, -⟩ | ⟨hp, -⟩
    · rw [hp] at hc
      cases hc
    · rw [hp] at hc
      cases hc

omit [World.Steady σ] in
theorem Deeds.interval_eq {c : Command} {scope : List String} {h h' : Watch σ} (hd : Deeds c scope h h') :
    h'.interval = h.interval := by
  induction hd with
  | refl => rfl
  | tail _ hd ih => exact hd.interval_eq.trans ih

/-- The clock at the end bounds the clock on the way. -/
theorem Deeds.shuns {c : Command} {scope : List String} {h h' : Watch σ} (hd : Deeds c scope h h')
    (hc : c.kind = .connect) {b : String} {since : Moment} (hs : h.Shuns b since)
    (ht : (World.time h'.world).nanos - since.nanos ≤ h.interval) :
    h'.Shuns b since ∧ h'.trace.probes.count b = h.trace.probes.count b := by
  induction hd with
  | refl => exact ⟨hs, rfl⟩
  | @tail h₁ h₂ hd₁ hd ih =>
    have ht₁ : (World.time h₁.world).nanos - since.nanos ≤ h.interval := by
      have htime : (World.time h₁.world).nanos ≤ (World.time h₂.world).nanos := hd.time_le
      omega
    obtain ⟨hs₁, hcount⟩ := ih ht₁
    have hint : h₁.interval = h.interval := Deeds.interval_eq hd₁
    obtain ⟨hs₂, hcount₂⟩ := hd.shuns hc hs₁ (hint ▸ ht₁)
    exact ⟨hs₂, hcount₂.trans hcount⟩

/-! ## The result of the connect -/

namespace Service

omit [World.Steady σ] in
/-- When the backend of a key is not found reachable, it is lost first, and then the candidates are asked. -/
theorem Resolved.lost_cases {r : Router} {k : Session.Key} {s s' : Service σ} {x : Except Routing.Fault String}
    (hx : Resolved r k s x s') {e : Session} {h : Watch σ} (he : s.sessions[k]? = some e)
    (hb : (Watch.check e.backend).run s.watch = (false, h)) :
    let c : Command := .connect k.user k.target
    Deeds c (scope r s c) (h.lost k e.backend) s'.watch ∧ ∀ b, x = .ok b → ∃ h₁ h₂,
      Deeds c (scope r s c) (h.lost k e.backend) h₁ ∧ (Watch.check b).run h₁ = (true, h₂) ∧
      Deeds c (scope r s c) h₂ s'.watch := by
  intro c
  have hlost : ∀ {h₁ : Watch σ}, Unheld k s h₁ → h₁ = h.lost k e.backend := by
    intro h₁ hu
    cases hu with
    | absent he' => exact absurd (he'.symm.trans he) (by simp)
    | lost he' hb' =>
      obtain rfl := Option.some.inj (he'.symm.trans he)
      rw [(Prod.mk.inj (hb'.symm.trans hb)).2]
  have hcand : ∀ a ∈ Routing.candidates r k.user k.target, a ∈ scope r s c :=
    fun a ha => List.mem_append_right _ ha
  cases hx with
  | held he' hb' =>
    obtain rfl := Option.some.inj (he'.symm.trans he)
    rw [hb] at hb'
    cases hb'
  | @routed h₁ h₂ b sessions hu hr hs =>
    obtain rfl := hlost hu
    have hend : Deeds c (scope r s c) h₂
        { h₂.ticked with trace := .entriesOpen sessions.size :: .assigned k b :: h₂.trace } :=
      (asides_assigned k b sessions.size h₂).deeds
    obtain ⟨h₃, h3, hb⟩ := hr.found_cases (c := c) rfl hcand
    refine ⟨(hr.deeds rfl hcand).trans hend, ?_⟩
    rintro _ ⟨⟩
    exact ⟨h₃, h₂, h3, hb, hend⟩
  | failed hu hr =>
    obtain rfl := hlost hu
    refine ⟨hr.deeds rfl hcand, ?_⟩
    rintro _ ⟨⟩

/-- A `connect` that does not find the backend of its key reachable, and that takes no longer than the interval,
does not come back to that backend: it does not answer with it, and probes it once at most. -/
theorem connect_of_not_holding {r : Router} {s : Service σ} {k : Session.Key} {e : Session}
    (he : s.sessions[k]? = some e) (hb : ((Watch.check e.backend).run s.watch).1 = false)
    (ht : (World.time (next r s (.connect k.user k.target)).watch.world).nanos - (World.time s.watch.world).nanos ≤
      s.watch.interval) :
    result r s (.connect k.user k.target) ≠ .ok { reply := .simple e.backend } ∧
    (next r s (.connect k.user k.target)).watch.trace.probes.count e.backend ≤
      s.watch.trace.probes.count e.backend + 1 := by
  obtain ⟨h, hcheck⟩ : ∃ h, (Watch.check e.backend).run s.watch = (false, h) := ⟨_, Prod.ext hb rfl⟩
  have hdeed : Deed (.connect k.user k.target) [e.backend] s.watch h :=
    .check rfl (List.mem_singleton_self _) hcheck
  have hint : (h.lost k e.backend).interval = s.watch.interval := (h.interval_lost ..).trans hdeed.interval_eq
  have hshun : (h.lost k e.backend).Shuns e.backend (World.time s.watch.world) :=
    h.shuns_lost k e.backend hdeed.time_le
  have hcount : (h.lost k e.backend).trace.probes.count e.backend ≤ s.watch.trace.probes.count e.backend + 1 := by
    have hone := s.watch.count_probes_check e.backend e.backend
    rw [hcheck] at hone
    rw [h.probes_lost, hone]
    split <;> omega
  have hx := executed r s (.connect k.user k.target)
  rw [← hint] at ht
  generalize result r s (.connect k.user k.target) = x, next r s (.connect k.user k.target) = s' at hx ht
  have hend : ∀ {y}, Resolved r k s y s' →
      s'.watch.trace.probes.count e.backend ≤ s.watch.trace.probes.count e.backend + 1 := by
    intro y hy
    rw [((hy.lost_cases he hcheck).1.shuns rfl hshun ht).2]
    exact hcount
  cases hx with
  | refused hy => exact ⟨by simp, hend hy⟩
  | @connected _ _ b _ hy =>
    refine ⟨?_, hend hy⟩
    rintro ⟨⟩
    obtain ⟨h₁, h₂, h1, hyes, h2⟩ := (hy.lost_cases he hcheck).2 _ rfl
    have hstep : Deed (.connect k.user k.target) [e.backend] h₁ h₂ := .check rfl (List.mem_singleton_self _) hyes
    have ht₁ : (World.time h₁.world).nanos - (World.time s.watch.world).nanos ≤ (h.lost k e.backend).interval := by
      have hle : (World.time h₁.world).nanos ≤ (World.time s'.watch.world).nanos :=
        Moment.le_trans hstep.time_le h2.time_le
      omega
    -- the check that found the backend reachable would have been answered from its record
    obtain ⟨hs₁, -⟩ := h1.shuns rfl hshun ht₁
    obtain ⟨source, hk⟩ := hs₁.known (by rw [h1.interval_eq]; exact ht₁)
    rw [Watch.run_check_of_known hk] at hyes
    cases hyes

end Service

end SessionRouting
