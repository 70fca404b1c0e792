/-
The moves of the handoff one by one, and runs of them. `Step` has a rule for each way in which a move can go,
with the condition under which it is possible; `run?` makes moves one after the other, all of which must be
possible when their turn comes.
-/
import SessionRouting.Handoff
import SessionRouting.Proofs.Service.Blind

namespace SessionRouting

/-- Results can be compared, so that runs can be evaluated. -/
instance decidableEqExcept {ε α : Type} [DecidableEq ε] [DecidableEq α] : DecidableEq (Except ε α)
  | .ok a, .ok b => decidable_of_iff (a = b) (by simp)
  | .error e, .error f => decidable_of_iff (e = f) (by simp)
  | .ok _, .error _ => isFalse (by simp)
  | .error _, .ok _ => isFalse (by simp)

namespace Handoff

variable {σ : Type}

/-! ## Submissions -/

theorem isWaiting_iff (h : Handoff σ) (t : Nat) :
    h.isWaiting t = true ↔ ∃ s, h.submissions[t]? = some s ∧ s.stage = .waiting := by
  unfold isWaiting
  rw [Option.any_eq_true]
  refine exists_congr fun s => and_congr_right fun _ => ?_
  cases s.stage <;> simp

/-- A client gives up while it waits for the slot, or while its line is in the slot or with the worker. -/
theorem Submission.abandon?_eq_some {s s' : Submission} (h : s.abandon? = some s') :
    (s.stage = .waiting ∧ s' = { s with stage := .withdrawn, attended := false }) ∨
      (s.stage = .accepted ∧ s' = { s with attended := false }) := by
  unfold abandon? at h
  split at h
  · rename_i hs _
    exact .inl ⟨hs, (Option.some.inj h).symm⟩
  · rename_i hs _
    exact .inr ⟨hs, (Option.some.inj h).symm⟩
  · cases h

theorem getElem?_amend (h : Handoff σ) (t i : Nat) (f : Submission → Submission) :
    (h.amend t f).submissions[i]? = if t = i then h.submissions[i]?.map f else h.submissions[i]? := by
  unfold amend
  simp only [List.getElem?_modify]
  split
  · rfl
  · simp

/-- Lines stay as they are when submissions are amended. -/
theorem lines_amend {h : Handoff σ} {t : Nat} {f : Submission → Submission}
    (hf : ∀ s, h.submissions[t]? = some s → (f s).line = s.line) :
    (h.amend t f).submissions.map Submission.line = h.submissions.map Submission.line := by
  apply List.ext_getElem?
  intro i
  rw [List.getElem?_map, List.getElem?_map, getElem?_amend]
  split
  · rename_i hti
    subst hti
    cases hs : h.submissions[t]? with
    | none => rfl
    | some s => exact congrArg some (hf s hs)
  · rfl

theorem answer?_eq_some (h : Handoff σ) (t : Nat) (x : Except Refusal Reply) :
    h.answer? t = some x ↔ ∃ s, h.submissions[t]? = some s ∧ s.stage = .answered x := by
  unfold answer?
  cases hs : h.submissions[t]? with
  | none => simp
  | some s =>
    obtain ⟨line, stage, attended⟩ := s
    cases stage <;> simp

/-! ## The events of the handoff -/

theorem own_note {h : Handoff σ} {e : Event} (he : e.ofHandoff = true) : (h.note e).service.own = h.service.own := by
  show Service.own { h.service with watch := { h.service.watch with trace := e :: h.service.watch.trace } } = _
  unfold Service.own Health.Watch.own
  simp only [List.filter_cons, he, Bool.not_true, Bool.false_eq_true, ↓reduceIte]

/-! ## Steps -/

variable [World σ]

/-- The ways in which moves go. -/
inductive Step (p : Policy) (h : Handoff σ) : Move → Handoff σ → Prop
  | submit {line : String} (hd : h.deserted = false) :
    Step p h (.submit line) { h with submissions := h.submissions ++ [{ line }] }
  | accept {t : Nat} {s : Submission} (hp : h.phase = .serving) (hslot : h.slot = none)
    (hs : h.submissions[t]? = some s) (hw : s.stage = .waiting) :
    Step p h (.accept t) { h.amend t ({ · with stage := .accepted }) with slot := some t }
  | refuse {t : Nat} {s : Submission} (hp : h.phase ≠ .serving) (hs : h.submissions[t]? = some s)
    (hw : s.stage = .waiting) : Step p h (.refuse t) (h.amend t ({ · with stage := .answered (.error .stopping) }))
  | leave {t : Nat} {s s' : Submission} (hs : h.submissions[t]? = some s) (ha : s.abandon? = some s') :
    Step p h (.leave t) (h.amend t fun _ => s')
  | receive {d : Directory} {t : Nat} {s : Submission} (hh : h.hand = none) (hslot : h.slot = some t)
    (hs : h.submissions[t]? = some s) :
    Step p h (.receive d) { h with
      service := ((Service.process ⟨p, d⟩ s.line).run h.service).2
      slot := none
      hand := some (t, ((Service.process ⟨p, d⟩ s.line).run h.service).1)
      received := (t, d) :: h.received }
  | deliver {t : Nat} {x : Except Refusal Reply} {s : Submission} (hh : h.hand = some (t, x))
    (hs : h.submissions[t]? = some s) (ha : s.attended = true) :
    Step p h .reply ({ h with hand := none }.amend t ({ · with stage := .answered x }))
  | discard {t : Nat} {x : Except Refusal Reply} {s : Submission} (hh : h.hand = some (t, x))
    (hs : h.submissions[t]? = some s) (ha : s.attended = false) :
    Step p h .reply ({ h with hand := none }.note (.discarded s.line))
  | trigger : Step p h .trigger { h with triggered := true }
  | notice (hp : h.phase = .serving) (ht : h.triggered = true) (hh : h.hand = none) :
    Step p h .notice ({ h with phase := .draining }.note .draining)
  | desert (ho : h.submissions.any Submission.isOpen = false) : Step p h .desert { h with deserted := true }
  | finish (hp : h.phase = .draining ∨ h.phase = .serving ∧ h.deserted = true) (hslot : h.slot = none)
    (hh : h.hand = none) : Step p h .finish ({ h with phase := .stopped }.note .stopped)

theorem step_of_step? {p : Policy} {h h' : Handoff σ} {m : Move} (hm : step? p h m = some h') : Step p h m h' := by
  cases m with
  | submit line =>
    simp only [step?] at hm
    split at hm
    · cases hm
    · rename_i hd
      cases hm
      exact .submit (by simpa using hd)
  | accept t =>
    simp only [step?] at hm
    split at hm
    · rename_i hc
      obtain ⟨s, hs, hw⟩ := (isWaiting_iff h t).1 hc.2.2
      cases hm
      exact .accept hc.1 hc.2.1 hs hw
    · cases hm
  | refuse t =>
    simp only [step?] at hm
    split at hm
    · rename_i hc
      obtain ⟨s, hs, hw⟩ := (isWaiting_iff h t).1 hc.2
      cases hm
      exact .refuse hc.1 hs hw
    · cases hm
  | leave t =>
    simp only [step?, Option.bind_eq_bind, Option.pure_def, Option.bind_eq_some_iff] at hm
    obtain ⟨s, hs, s', ha, hm⟩ := hm
    cases hm
    exact .leave hs ha
  | receive d =>
    simp only [step?] at hm
    split at hm
    · rename_i t hh hslot
      simp only [Option.bind_eq_bind, Option.pure_def, Option.bind_eq_some_iff] at hm
      obtain ⟨s, hs, hm⟩ := hm
      cases hm
      exact .receive hh hslot hs
    · cases hm
  | reply =>
    simp only [step?] at hm
    split at hm
    · rename_i t x hh
      simp only [Option.bind_eq_bind, Option.pure_def, Option.bind_eq_some_iff, Option.some.injEq] at hm
      obtain ⟨s, hs, hm⟩ := hm
      cases ha : s.attended with
      | true =>
        rw [ha] at hm
        cases hm
        exact .deliver hh hs ha
      | false =>
        rw [ha] at hm
        cases hm
        exact .discard hh hs ha
    · cases hm
  | trigger =>
    cases hm
    exact .trigger
  | notice =>
    simp only [step?] at hm
    split at hm
    · rename_i hc
      cases hm
      exact .notice hc.1 hc.2.1 (by simpa using hc.2.2)
    · cases hm
  | desert =>
    simp only [step?] at hm
    split at hm
    · cases hm
    · rename_i ho
      cases hm
      exact .desert (by simpa using ho)
  | finish =>
    simp only [step?] at hm
    split at hm
    · rename_i hc
      cases hm
      exact .finish hc.1 hc.2.1 (by simpa using hc.2.2)
    · cases hm

/-! ## Runs -/

/-- The state after moves that are all possible when their turn comes. -/
def run? (p : Policy) (h : Handoff σ) (ms : List Move) : Option (Handoff σ) :=
  ms.foldlM (step? p) h

theorem run?_concat {p : Policy} {h h' : Handoff σ} {ms : List Move} {m : Move}
    (hr : run? p h (ms ++ [m]) = some h') : ∃ h₁, run? p h ms = some h₁ ∧ Step p h₁ m h' := by
  unfold run? at hr
  simp only [List.foldlM_append, List.foldlM_cons, List.foldlM_nil, Option.bind_eq_bind, Option.pure_def,
    Option.bind_eq_some_iff, Option.some.injEq] at hr
  obtain ⟨h₁, h1, _, h2, rfl⟩ := hr
  exact ⟨h₁, h1, step_of_step? h2⟩

end Handoff

end SessionRouting
