/-
How a `connect` ends. It stays with the backend of its key if a check says that this one is reachable. If not, the
groups of the user may be unknown; otherwise the candidates of the plan are asked about one after the other, up to
the first reachable one or all of them in vain. `connect_ends` says that exactly one of the four happens, in every
state and whatever the clock shows and probes say, and what is then on record.

The trace tells which checks were made: `Trace.answers` lists them with their answers.
-/
import SessionRouting.Proofs.Session.Tally

namespace SessionRouting

open Health

variable {σ : Type}

/-! ## Which checks are made -/

theorem Event.answer?_of_isRemark {e : Event} (he : e.isRemark = true) : e.answer? = none := by
  cases e with
  | checked => cases he
  | _ => rfl

variable [World σ]

theorem Asides.answers_eq {h h' : Watch σ} (hs : Asides h h') : h'.trace.answers = h.trace.answers := by
  induction hs with
  | refl => rfl
  | tail _ ha ih =>
    rw [← ih]
    cases ha with
    | tick => rfl
    | shuffle => rfl
    | remark he => exact Trace.collect_of_cons (Event.answer?_of_isRemark he) _

theorem Vain.answers_eq {strategy : Strategy} {order : List String} {h h' : Watch σ}
    (hv : Vain strategy order h h') : h'.trace.answers = h.trace.answers ++ order.map (·, false) := by
  induction hv with
  | nil => simp
  | @cons c cs h h₁ h₂ hx _ ih =>
    have hc := h.answers_check c
    rw [hx] at hc
    have hskip : Trace.answers (.skipped c strategy :: h₁.trace) = h₁.trace.answers :=
      Trace.collect_of_cons rfl _
    rw [ih, hskip, hc, List.append_assoc, List.map_cons]
    rfl

/-! ## What is on record afterwards -/

namespace Health.Watch

/-- A backend is on record as not reachable. -/
def Rejects (h : Watch σ) (a : String) : Prop :=
  ∃ v, h.records[a]? = some v ∧ (v.verdict = .down ∨ v.verdict = .disabled)

theorem getElem?_records_check {h : Watch σ} {a b : String} (hab : a ≠ b) :
    ((check a).run h).2.records[b]? = h.records[b]? := by
  cases hk : h.known a (World.time h.world) with
  | some answer =>
    rw [run_check_of_known hk]
    rfl
  | none =>
    rw [run_check_of_unknown hk]
    exact (getElem?_records_probed h.ticked a b _).trans (if_neg hab)

theorem rejects_of_check {h h' : Watch σ} {a : String} (hx : (check a).run h = (false, h')) : h'.Rejects a := by
  obtain ⟨v, hv, hup⟩ := record_of_check a h
  rw [hx] at hv hup
  refine ⟨v, hv, ?_⟩
  cases hverdict : v.verdict with
  | up => exact absurd (hup.1 hverdict) (by simp)
  | down => exact .inl rfl
  | disabled => exact .inr rfl

/-- A check that is answered with no leaves the other backends as they are. -/
theorem Rejects.check {h h' : Watch σ} {a c : String} (hr : h.Rejects a)
    (hx : (Watch.check c).run h = (false, h')) : h'.Rejects a := by
  by_cases hca : c = a
  · exact hca ▸ rejects_of_check hx
  · obtain ⟨v, hv, hverdict⟩ := hr
    have hrec := h.getElem?_records_check hca
    rw [hx] at hrec
    exact ⟨v, hrec.trans hv, hverdict⟩

end Health.Watch

/-- What is asked about in vain is rejected from then on, a candidate that is listed twice included. -/
theorem Vain.rejects {strategy : Strategy} {order : List String} {h h' : Watch σ} (hv : Vain strategy order h h') :
    ∀ a, h.Rejects a ∨ a ∈ order → h'.Rejects a := by
  induction hv with
  | nil =>
    rintro a (ha | ha)
    · exact ha
    · cases ha
  | @cons c cs h h₁ h₂ hx _ ih =>
    intro a ha
    apply ih
    have hskip : h₁.Rejects a → Watch.Rejects { h₁ with trace := .skipped c strategy :: h₁.trace } a := id
    rcases ha with ha | ha
    · exact .inl (hskip (ha.check hx))
    · rcases List.mem_cons.1 ha with rfl | ha
      · exact .inl (hskip (Watch.rejects_of_check hx))
      · exact .inr ha

/-! ## The four endings -/

/-- An order in which the candidates of a plan may be asked about. -/
def Policy.Plan.Arranged (p : Policy.Plan) (order : List String) : Prop :=
  order.Perm p.candidates ∧ (p.strategy = .ordered → order = p.candidates)

/-- The ways in which a `connect` can end. -/
inductive Ending
  /-- It stays with the backend of its key. -/
  | kept
  /-- The groups of the user are not known. -/
  | ungrouped
  /-- A candidate is found reachable. -/
  | found
  /-- No candidate is. -/
  | exhausted

namespace Service

/-- The key has no backend that a check finds reachable. -/
def Unkept (s : Service σ) (key : Session.Key) : Prop :=
  ∀ e, s.sessions[key]? = some e → s.holds e.backend = false

/-- The check of the backend that the key has, if it has one. -/
def ownAnswer (s : Service σ) (key : Session.Key) : List (String × Bool) :=
  (s.sessions[key]?.map fun e => (e.backend, s.holds e.backend)).toList

/-- When a `connect` on the key ends in a given way, with what result, and after which checks. -/
def Ends (r : Router) (key : Session.Key) (s : Service σ) (x : Except Refusal Completion) (s' : Service σ) :
    Ending → Prop
  | .kept => ∃ e, s.sessions[key]? = some e ∧ s.holds e.backend = true ∧
      x = .ok { reply := .simple e.backend } ∧
      s'.watch.trace.answers = s.watch.trace.answers ++ [(e.backend, true)]
  | .ungrouped => s.Unkept key ∧ ∃ f, (r.directory.groupsOf key.user).groups = .error f ∧
      x = .error (.routing (.groups f)) ∧
      s'.watch.trace.answers = s.watch.trace.answers ++ s.ownAnswer key
  | .found => s.Unkept key ∧ ∃ groups pre b post, (r.directory.groupsOf key.user).groups = .ok groups ∧
      (r.policy.plan key.user key.target groups).Arranged (pre ++ b :: post) ∧
      x = .ok { reply := .simple b } ∧
      s'.watch.trace.answers = s.watch.trace.answers ++ s.ownAnswer key ++ pre.map (·, false) ++ [(b, true)]
  | .exhausted => s.Unkept key ∧ ∃ groups order, (r.directory.groupsOf key.user).groups = .ok groups ∧
      (r.policy.plan key.user key.target groups).Arranged order ∧
      x = .error (.routing .noCandidate) ∧
      s'.watch.trace.answers = s.watch.trace.answers ++ s.ownAnswer key ++ order.map (·, false)

/-- The ending of a `connect` that does not stay with the backend of its key, by its result. -/
def endingOf : Except Refusal Completion → Ending
  | .ok _ => .found
  | .error (.routing .noCandidate) => .exhausted
  | .error _ => .ungrouped

theorem Ends.cases {r : Router} {key : Session.Key} {s s' : Service σ} {x : Except Refusal Completion} {e : Ending}
    (h : Ends r key s x s' e) : (¬ s.Unkept key ∧ e = .kept) ∨ (s.Unkept key ∧ e = endingOf x) := by
  cases e with
  | kept =>
    obtain ⟨own, hown, hb, -⟩ := h
    exact .inl ⟨fun hu => by simp [hu own hown] at hb, rfl⟩
  | ungrouped =>
    obtain ⟨hu, f, -, rfl, -⟩ := h
    exact .inr ⟨hu, rfl⟩
  | found =>
    obtain ⟨hu, _, _, _, _, -, -, rfl, -⟩ := h
    exact .inr ⟨hu, rfl⟩
  | exhausted =>
    obtain ⟨hu, _, _, -, -, rfl, -⟩ := h
    exact .inr ⟨hu, rfl⟩

theorem Ends.unique {r : Router} {key : Session.Key} {s s' : Service σ} {x : Except Refusal Completion}
    {e₁ e₂ : Ending} (h₁ : Ends r key s x s' e₁) (h₂ : Ends r key s x s' e₂) : e₁ = e₂ := by
  rcases h₁.cases with ⟨hk, rfl⟩ | ⟨hu, rfl⟩ <;> rcases h₂.cases with ⟨hk', rfl⟩ | ⟨hu', rfl⟩
  · rfl
  · exact absurd hu' hk
  · exact absurd hu hk'
  · rfl

/-- Before candidates are asked about, the only check is the one of the key's own backend. -/
theorem Unheld.answers_eq {key : Session.Key} {s : Service σ} {h : Watch σ} (hu : Unheld key s h) :
    h.trace.answers = s.watch.trace.answers ++ s.ownAnswer key := by
  have hholds := hu.not_holds
  cases hu with
  | absent he => simp [ownAnswer, he]
  | @lost e h he hb =>
    have hc := s.watch.answers_check e.backend
    rw [hb] at hc
    rw [Watch.answers_lost, hc]
    simp [ownAnswer, he, hholds e he]

theorem Resolved.ends_of_ok {r : Router} {key : Session.Key} {s s' : Service σ} {b : String}
    (hx : Resolved r key s (.ok b) s') :
    ∃ e, Ends r key s (.ok { reply := .simple b }) s' e := by
  cases hx with
  | @held e h he hb =>
    have hc := s.watch.answers_check e.backend
    rw [hb] at hc
    refine ⟨.kept, e, he, ?_, rfl, ?_⟩
    · unfold holds
      rw [hb]
    · exact (Trace.collect_of_cons rfl _).trans hc
  | @routed h₁ h₂ b sessions hu hr hs =>
    cases hr with
    | @found groups h₃ h₄ _ hg ha hsel =>
      cases hsel with
      | @found order pre post _ h₅ h₆ hp ho ha' hsplit hv hb =>
        subst hsplit
        refine ⟨.found, hu.not_holds, groups, pre, b, post, hg, ⟨hp, ho⟩, rfl, ?_⟩
        -- the two events that end it are no answers
        have hend : ∀ h : Watch σ, Trace.answers (.entriesOpen sessions.size :: .assigned key b :: h.trace) =
            h.trace.answers := fun h => (Trace.collect_of_cons rfl _).trans (Trace.collect_of_cons rfl _)
        rw [hend, Watch.answers_check, hb, hv.answers_eq, ha'.answers_eq, ha.answers_eq, hu.answers_eq]

theorem Resolved.ends_of_error {r : Router} {key : Session.Key} {s s' : Service σ} {f : Routing.Fault}
    (hx : Resolved r key s (.error f) s') : ∃ e, Ends r key s (.error (.routing f)) s' e := by
  cases hx with
  | @failed h₁ h₂ f hu hr =>
    cases hr with
    | @ungrouped f _ hg ha =>
      refine ⟨.ungrouped, hu.not_holds, f, hg, rfl, ?_⟩
      show h₂.trace.answers = _
      rw [ha.answers_eq, hu.answers_eq]
    | @exhausted groups h₃ h₄ hg ha hsel =>
      cases hsel with
      | @exhausted order h₅ h₆ hp ho ha' hv =>
        refine ⟨.exhausted, hu.not_holds, groups, order, hg, ⟨hp, ho⟩, rfl, ?_⟩
        show h₂.trace.answers = _
        rw [hv.answers_eq, ha'.answers_eq, ha.answers_eq, hu.answers_eq]

/-- The backend of a new session is `up`, and the entry of its key names it. -/
theorem Resolved.ok_record {r : Router} {key : Session.Key} {s s' : Service σ} {b : String}
    (hx : Resolved r key s (.ok b) s') :
    (∃ v, s'.watch.records[b]? = some v ∧ v.verdict = .up) ∧
    ∃ e, s'.sessions[key]? = some e ∧ e.backend = b ∧ 1 ≤ e.count := by
  constructor
  · have hup : ∀ {h h' : Watch σ}, (Watch.check b).run h = (true, h') →
        ∃ v, h'.records[b]? = some v ∧ v.verdict = .up := by
      intro h h' hb
      obtain ⟨v, hv, hiff⟩ := record_of_check b h
      rw [hb] at hv hiff
      exact ⟨v, hv, hiff.2 rfl⟩
    cases hx with
    | @held e h he hb =>
      show ∃ v, h.records[e.backend]? = some v ∧ v.verdict = .up
      exact hup hb
    | @routed h₁ h₂ b sessions hu hr hs =>
      have hc : (Command.connect key.user key.target).kind = .connect := rfl
      obtain ⟨_, -, hb⟩ := hr.found_cases hc fun _ ha => ha
      show ∃ v, h₂.records[b]? = some v ∧ v.verdict = .up
      exact hup hb
  · rcases hx.ok_sessions with ⟨e, m, -, -, hb, hs⟩ | ⟨-, m, hs⟩
    · rw [hs, getElem?_sessions_insert, if_pos rfl]
      exact ⟨_, rfl, hb, Nat.le_add_left 1 e.count⟩
    · rw [hs, getElem?_sessions_insert, if_pos rfl]
      exact ⟨_, rfl, rfl, Nat.le_refl 1⟩

theorem Resolved.rejects_of_exhausted {r : Router} {key : Session.Key} {s s' : Service σ}
    (hx : Resolved r key s (.error .noCandidate) s') :
    ∀ a ∈ Routing.candidates r key.user key.target, s'.watch.Rejects a := by
  intro a ha
  cases hx with
  | failed hu hr =>
    cases hr with
    | exhausted hg _ hsel =>
      rw [← Routing.candidates_of_groups hg] at ha
      cases hsel with
      | exhausted hp _ _ hv => exact hv.rejects a (.inr (hp.mem_iff.2 ha))

/-- Exactly one ending of every `connect`, in every state, with the checks that are made for it: the backend of the
key and no other; or that one in vain, if there is one, and then no candidate, the candidates up to the first
reachable one, or all of them. A backend that is answered is `up` on record afterwards, and the entry of the key
names it; when no candidate was reachable, each one is `down` or `disabled`. -/
theorem connect_ends (r : Router) (s : Service σ) (user target : String) :
    let key : Session.Key := ⟨user, target⟩
    let x := result r s (.connect user target)
    let s' := next r s (.connect user target)
    (∃! e, Ends r key s x s' e) ∧
    (Ends r key s x s' .kept ∨ Ends r key s x s' .found → ∃ b, x = .ok { reply := .simple b } ∧
      (∃ v, s'.watch.records[b]? = some v ∧ v.verdict = .up) ∧
      ∃ e, s'.sessions[key]? = some e ∧ e.backend = b ∧ 1 ≤ e.count) ∧
    (Ends r key s x s' .exhausted → ∀ a ∈ Routing.candidates r user target,
      ∃ v, s'.watch.records[a]? = some v ∧ (v.verdict = .down ∨ v.verdict = .disabled)) := by
  intro key x s'
  have hx : Executed r s (.connect user target) x s' := executed r s (.connect user target)
  generalize x = x, s' = s' at hx
  cases hx with
  | connected hx =>
    obtain ⟨e, he⟩ := hx.ends_of_ok
    refine ⟨⟨e, he, fun _ h => h.unique he⟩, fun _ => ⟨_, rfl, hx.ok_record⟩, ?_⟩
    rintro ⟨-, _, _, -, -, hno, -⟩
    cases hno
  | @refused _ _ f _ hx =>
    obtain ⟨e, he⟩ := hx.ends_of_error
    refine ⟨⟨e, he, fun _ h => h.unique he⟩, ?_, ?_⟩
    · rintro (⟨_, -, -, hno, -⟩ | ⟨-, _, _, _, _, -, -, hno, -⟩) <;> cases hno
    · rintro ⟨-, _, _, -, -, hno, -⟩
      obtain rfl : f = .noCandidate := by simpa using hno
      exact hx.rejects_of_exhausted

end Service

end SessionRouting
