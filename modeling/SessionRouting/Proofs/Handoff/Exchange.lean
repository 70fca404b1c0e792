/-
An exchange with a worker that is free: the line of the client is carried out at once, whatever other clients wait for
the slot, and the client gets its answer. Afterwards the worker is free again. Whatever else the worker has been doing,
a client gets an answer to its own line or none at all: `exchange_of_play`.
-/
import SessionRouting.Proofs.Handoff.Order

namespace SessionRouting

namespace Handoff

variable {σ : Type}

/-- The worker serves and has no line, and none is in the slot. -/
structure Idle (h : Handoff σ) : Prop where
  phase : h.phase = .serving
  slot : h.slot = none
  hand : h.hand = none
  deserted : h.deserted = false

theorem modify_concat_length {α : Type} (l : List α) (a : α) (f : α → α) :
    (l ++ [a]).modify l.length f = l ++ [f a] := by
  induction l with
  | nil => rfl
  | cons b l ih => exact congrArg (b :: ·) ih

variable [World σ]

/-- The moves of one client, one after the other. -/
theorem play_exchange (r : Router) {h : Handoff σ} (hi : h.Idle) (line : String) :
    h.play r.policy (.submit line :: serve r.directory h.nextTicket) = { h with
      service := Service.answered r h.service line
      submissions := h.submissions ++ [{ line, stage := .answered (Service.answer r h.service line) }]
      received := (h.nextTicket, r.directory) :: h.received } := by
  obtain ⟨hphase, hslot, hhand, hdeserted⟩ := hi
  have hlast : ∀ s : Submission, (h.submissions ++ [s])[h.nextTicket]? = some s := fun s =>
    List.getElem?_concat_length ..
  have hmodify : ∀ (s : Submission) f, (h.submissions ++ [s]).modify h.nextTicket f = h.submissions ++ [f s] :=
    modify_concat_length h.submissions
  let h₁ : Handoff σ := { h with submissions := h.submissions ++ [{ line }] }
  let h₂ : Handoff σ := { h with
    submissions := h.submissions ++ [{ line, stage := .accepted }], slot := some h.nextTicket }
  let h₃ : Handoff σ := { h with
    service := Service.answered r h.service line
    submissions := h.submissions ++ [{ line, stage := .accepted }]
    hand := some (h.nextTicket, Service.answer r h.service line)
    received := (h.nextTicket, r.directory) :: h.received }
  -- move by move; the worker serves, so that `refuse` is passed over
  have hsubmit : step? r.policy h (.submit line) = some h₁ := by simp [step?, hdeserted, h₁]
  have haccept : step? r.policy h₁ (.accept h.nextTicket) = some h₂ := by
    have hwaiting : h₁.isWaiting h.nextTicket = true := (isWaiting_iff h₁ _).2 ⟨_, hlast _, rfl⟩
    simp only [step?]
    rw [if_pos ⟨hphase, hslot, hwaiting⟩]
    simp [h₁, h₂, amend, hmodify]
  have hrefuse : step? r.policy h₂ (.refuse h.nextTicket) = none := by simp [step?, h₂, hphase]
  have hreceive : step? r.policy h₂ (.receive r.directory) = some h₃ := by
    simp [step?, h₂, h₃, hhand, hslot, hlast]
    rfl
  have hreply : step? r.policy h₃ .reply = some { h with
      service := Service.answered r h.service line
      submissions := h.submissions ++ [{ line, stage := .answered (Service.answer r h.service line) }]
      received := (h.nextTicket, r.directory) :: h.received } := by
    simp [step?, h₃, hhand, hlast, amend, hmodify]
  simp only [play, serve, List.foldl_cons, List.foldl_nil, hsubmit, haccept, hrefuse, hreceive, hreply,
    Option.getD_some, Option.getD_none]

/-- A client whose line comes to a free worker gets the answer of the service to it. -/
theorem exchange_of_idle (r : Router) {h : Handoff σ} (hi : h.Idle) (line : String) :
    ((exchange r line).run h).1 = Service.answer r h.service line ∧
    ((exchange r line).run h).2.service = Service.answered r h.service line ∧ ((exchange r line).run h).2.Idle := by
  have hrun : (exchange r line).run h = (((h.play r.policy (.submit line :: serve r.directory h.nextTicket)).answer?
      h.nextTicket).getD (.error .stopping), h.play r.policy (.submit line :: serve r.directory h.nextTicket)) := rfl
  rw [hrun, play_exchange r hi]
  refine ⟨?_, rfl, ⟨hi.phase, hi.slot, hi.hand, hi.deserted⟩⟩
  rw [(answer?_eq_some _ _ (Service.answer r h.service line)).2 ⟨_, List.getElem?_concat_length .., rfl⟩]
  rfl

/-! ## An answer in any state -/

/-- Moves that are played keep the order, those of them that are possible. -/
theorem Ordered.play {p : Policy} {s₀ : Service σ} {ms : List Move} {h : Handoff σ} (ho : Ordered p s₀ ms h)
    (moves : List Move) : ∃ possible, possible.Sublist moves ∧ Ordered p s₀ (ms ++ possible) (h.play p moves) := by
  induction moves generalizing ms h with
  | nil => exact ⟨[], .refl _, (List.append_nil ms).symm ▸ ho⟩
  | cons m moves ih =>
    have hplay : h.play p (m :: moves) = ((step? p h m).getD h).play p moves := rfl
    rw [hplay]
    cases hm : step? p h m with
    | none =>
      obtain ⟨possible, hsub, hordered⟩ := ih ho
      exact ⟨possible, hsub.cons m, hordered⟩
    | some h' =>
      obtain ⟨possible, hsub, hordered⟩ := ih (ho.step (step_of_step? hm))
      exact ⟨m :: possible, hsub.cons_cons m, by simpa using hordered⟩

/-- A line that is accepted in the later moves has its directory from one of them. -/
theorem Ordered.directory_mem {p : Policy} {s₀ : Service σ} {before now : List Move} {h h' : Handoff σ}
    (ho : Ordered p s₀ before h) (ho' : Ordered p s₀ (before ++ now) h') {pre post : List (Nat × Directory)}
    {t : Nat} {d : Directory} (hrec : h'.received.reverse = pre ++ (t, d) :: post) (ht : t ∉ accepted before) :
    d ∈ directories now := by
  have haccepted : accepted before ++ accepted now =
      pre.map Prod.fst ++ t :: (post.map Prod.fst ++ h'.slot.toList) := by
    have horder := ho'.order
    rw [hrec] at horder
    simpa [accepted] using horder
  have hdirectories : directories before ++ directories now = pre.map Prod.snd ++ d :: post.map Prod.snd := by
    have hasked := ho'.asked
    rw [hrec] at hasked
    simpa [directories] using hasked
  -- all that was received before had been accepted before
  have hlen : (directories before).length ≤ (accepted before).length := by
    rw [ho.asked, ho.order]
    simp
  rcases Service.split_of_append haccepted with ⟨mid, hbefore, -⟩ | ⟨mid, hpre, -⟩
  · exact absurd (by simp [hbefore]) ht
  · rcases Service.split_of_append hdirectories with ⟨mid', hearlier, -⟩ | ⟨mid', -, hnow⟩
    · have hlong := congrArg List.length hpre
      have hshort := congrArg List.length hearlier
      simp only [List.length_append, List.length_cons, List.length_map] at hlong hshort
      omega
    · simp [hnow]

/-- Whatever has been going on, a client gets an answer of the service to its own line, with the directory as it is now,
or is told that no more lines are accepted. -/
theorem exchange_of_play (r : Router) (s₀ : Service σ) (ms : List Move) (line : String) :
    let x := ((exchange r line).run (({ service := s₀ } : Handoff σ).play r.policy ms)).1
    x = .error .stopping ∨ ∃ s : Service σ, x = Service.answer r s line := by
  obtain ⟨before, -, ho⟩ := (Ordered.start r.policy s₀).play ms
  rw [List.nil_append] at ho
  generalize ({ service := s₀ } : Handoff σ).play r.policy ms = h at ho
  intro x
  let moves : List Move := .submit line :: serve r.directory h.nextTicket
  obtain ⟨now, hsub, ho'⟩ := ho.play moves
  have hx : x = ((h.play r.policy moves).answer? h.nextTicket).getD (.error .stopping) := rfl
  cases hanswer : (h.play r.policy moves).answer? h.nextTicket with
  | none =>
    rw [hanswer] at hx
    exact .inl hx
  | some y =>
    rw [hanswer] at hx
    obtain rfl : x = y := hx
    obtain ⟨s, hs, hst⟩ := (answer?_eq_some _ _ _).1 hanswer
    have hplaced := ho'.placed _ s hs
    unfold Placed at hplaced
    rw [hst] at hplaced
    refine hplaced.symm.imp And.left ?_
    rintro ⟨pre, d, post, line', hrec, hline, howed⟩
    -- the lines before this one have the tickets before its own
    have hbefore : h.nextTicket = (submitted before).length := by
      rw [← ho.lines, List.length_map]
      rfl
    have hnow : (submitted now).Sublist [line] := hsub.filterMap Move.line?
    have hlines : submitted (before ++ now) = submitted before ++ submitted now := List.filterMap_append
    rw [hlines, List.getElem?_append_right hbefore.ge] at hline
    obtain rfl := List.mem_singleton.1 (hnow.subset (List.mem_of_getElem? hline))
    have hmem := ho.directory_mem ho' hrec fun hmem => (ho.known _ hmem).ne hbefore
    have hdirectories : (directories now).Sublist [r.directory] := hsub.filterMap Move.directory?
    obtain rfl := List.mem_singleton.1 (hdirectories.subset hmem)
    exact ⟨_, howed⟩

end Handoff

end SessionRouting
