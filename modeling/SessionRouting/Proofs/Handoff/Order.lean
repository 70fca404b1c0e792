/-
Exactly once, and in one order. Whatever the clients, the worker and the call to stop do, and in whatever
order they do it, the service is as if the received lines had been served one after the other in the order
in which they were accepted, and every client that gets a result gets the one of its own line at its own
place in that order.

`Ordered` is the invariant of runs. It tells for each submission what its stage means for the order.
-/
import SessionRouting.Proofs.Handoff.Steps
import SessionRouting.Proofs.Service.Frame

namespace SessionRouting

variable {σ : Type} [World σ]

/-! ## Serving lines one after the other -/

namespace Service

/-- The answer to a line. -/
def answer (r : Router) (s : Service σ) (line : String) : Except Refusal Reply := ((process r line).run s).1

/-- The service after a line. -/
def answered (r : Router) (s : Service σ) (line : String) : Service σ := ((process r line).run s).2

/-- The service after lines, one after the other, each with the directory as it answers meanwhile. -/
def served (p : Policy) (s : Service σ) (lines : List (String × Directory)) : Service σ :=
  lines.foldl (fun s line => answered ⟨p, line.2⟩ s line.1) s

theorem answer_congr {r : Router} {s s' : Service σ} (h : s.own = s'.own) (line : String) :
    answer r s line = answer r s' line := by
  have h1 := congrArg Prod.fst (blind_process_own r line s)
  have h2 := congrArg Prod.fst (blind_process_own r line s')
  rw [h] at h1
  exact h1.symm.trans h2

theorem answered_congr {r : Router} {s s' : Service σ} (h : s.own = s'.own) (line : String) :
    (answered r s line).own = (answered r s' line).own := by
  have h1 := congrArg Prod.snd (blind_process_own r line s)
  have h2 := congrArg Prod.snd (blind_process_own r line s')
  rw [h] at h1
  exact h1.symm.trans h2

theorem served_concat (p : Policy) (s : Service σ) (lines : List (String × Directory)) (line : String)
    (d : Directory) : served p s (lines ++ [(line, d)]) = answered ⟨p, d⟩ (served p s lines) line := by
  unfold served
  rw [List.foldl_append]
  rfl

end Service

namespace Handoff

/-! ## What the moves of a run say -/

/-- The line that comes with a move. -/
def Move.line? : Move → Option String
  | submit line => some line
  | _ => none

/-- The ticket that gets into the slot with a move. -/
def Move.accepted? : Move → Option Nat
  | accept t => some t
  | _ => none

/-- The directory that comes with a move. -/
def Move.directory? : Move → Option Directory
  | receive d => some d
  | _ => none

/-- The submitted lines. The ticket of a line is its place among them. -/
def submitted (ms : List Move) : List String := ms.filterMap Move.line?

/-- The tickets of the accepted lines, in the order in which they are accepted. -/
def accepted (ms : List Move) : List Nat := ms.filterMap Move.accepted?

/-- The directories for the lines that the worker takes. -/
def directories (ms : List Move) : List Directory := ms.filterMap Move.directory?

/-- The lines with these tickets, each with its directory. -/
def linesAt (lines : List String) (order : List (Nat × Directory)) : List (String × Directory) :=
  order.filterMap fun x => lines[x.1]?.map (·, x.2)

theorem filterMap_concat {α β : Type} (f : α → Option β) (l : List α) (a : α) :
    (l ++ [a]).filterMap f = l.filterMap f ++ (f a).toList := by
  rw [List.filterMap_append, List.filterMap_cons, List.filterMap_nil]
  cases f a <;> rfl

theorem submitted_concat (ms : List Move) (m : Move) : submitted (ms ++ [m]) = submitted ms ++ m.line?.toList :=
  filterMap_concat ..

theorem accepted_concat (ms : List Move) (m : Move) : accepted (ms ++ [m]) = accepted ms ++ m.accepted?.toList :=
  filterMap_concat ..

theorem directories_concat (ms : List Move) (m : Move) :
    directories (ms ++ [m]) = directories ms ++ m.directory?.toList :=
  filterMap_concat ..

theorem linesAt_concat {lines : List String} {t : Nat} {line : String} (ht : lines[t]? = some line)
    (order : List (Nat × Directory)) (d : Directory) :
    linesAt lines (order ++ [(t, d)]) = linesAt lines order ++ [(line, d)] := by
  unfold linesAt
  rw [filterMap_concat, ht]
  rfl

theorem linesAt_append_left {lines more : List String} {order : List (Nat × Directory)}
    (ht : ∀ t ∈ order.map Prod.fst, t < lines.length) : linesAt (lines ++ more) order = linesAt lines order := by
  unfold linesAt
  refine List.filterMap_congr fun t hmem => ?_
  rw [List.getElem?_append_left (ht t.1 (List.mem_map_of_mem hmem))]

/-! ## Own results -/

/-- The result that a ticket is owed: that of its line, carried out at its own place in the order. -/
def Owed (p : Policy) (s₀ : Service σ) (lines : List String) (order : List (Nat × Directory)) (t : Nat)
    (x : Except Refusal Reply) : Prop :=
  ∃ pre d post line, order = pre ++ (t, d) :: post ∧ lines[t]? = some line ∧
    x = Service.answer ⟨p, d⟩ (Service.served p s₀ (linesAt lines pre)) line

/-- What is owed does not change when more lines come and more of them are carried out. -/
theorem Owed.grow {p : Policy} {s₀ : Service σ} {lines : List String} {order : List (Nat × Directory)} {t : Nat}
    {x : Except Refusal Reply} (hx : Owed p s₀ lines order t x) (ht : ∀ t ∈ order.map Prod.fst, t < lines.length)
    (more : List String) (later : List (Nat × Directory)) : Owed p s₀ (lines ++ more) (order ++ later) t x := by
  obtain ⟨pre, d, post, line, rfl, hl, rfl⟩ := hx
  refine ⟨pre, d, post ++ later, line, by simp, ?_, ?_⟩
  · rw [List.getElem?_append_left (ht t (by simp))]
    exact hl
  · rw [List.map_append] at ht
    rw [linesAt_append_left fun u hu => ht u (List.mem_append_left _ hu)]

theorem Owed.mem {p : Policy} {s₀ : Service σ} {lines : List String} {order : List (Nat × Directory)} {t : Nat}
    {x : Except Refusal Reply} (hx : Owed p s₀ lines order t x) : t ∈ order.map Prod.fst := by
  obtain ⟨pre, d, post, line, rfl, -, -⟩ := hx
  simp

/-! ## The invariant -/

/-- What the stage of a submission means: one that waits or was withdrawn is not in the order, an accepted one
is, and keeps its stage after it was carried out only while the worker still has its result or if its client
has gone; an answer is the result that is owed, or tells that the line was not accepted. -/
def Placed (p : Policy) (s₀ : Service σ) (ms : List Move) (h : Handoff σ) (t : Nat) (s : Submission) : Prop :=
  match s.stage with
  | .waiting | .withdrawn => t ∉ accepted ms
  | .accepted => t ∈ accepted ms ∧
    (t ∈ h.received.reverse.map Prod.fst → (∃ x, h.hand = some (t, x)) ∨ s.attended = false)
  | .answered x => Owed p s₀ (submitted ms) h.received.reverse t x ∨ (x = .error .stopping ∧ t ∉ accepted ms)

/-- How a state fits with the moves that led to it. -/
structure Ordered (p : Policy) (s₀ : Service σ) (ms : List Move) (h : Handoff σ) : Prop where
  lines : h.submissions.map Submission.line = submitted ms
  order : accepted ms = h.received.reverse.map Prod.fst ++ h.slot.toList
  asked : directories ms = h.received.reverse.map Prod.snd
  nodup : (accepted ms).Nodup
  known : ∀ t ∈ accepted ms, t < (submitted ms).length
  service : h.service.own = (Service.served p s₀ (linesAt (submitted ms) h.received.reverse)).own
  hand : ∀ t x, h.hand = some (t, x) → Owed p s₀ (submitted ms) h.received.reverse t x ∧
    ∃ s, h.submissions[t]? = some s ∧ s.stage = .accepted
  placed : ∀ t s, h.submissions[t]? = some s → Placed p s₀ ms h t s
  stopped : h.phase = .stopped → h.slot = none ∧ h.hand = none

namespace Ordered

variable {p : Policy} {s₀ : Service σ} {ms : List Move} {h h' : Handoff σ}

theorem start (p : Policy) (s₀ : Service σ) : Ordered p s₀ [] { service := s₀ } where
  lines := rfl
  order := rfl
  asked := rfl
  nodup := .nil
  known := by simp [accepted]
  service := rfl
  hand := by simp
  placed := by simp
  stopped := by simp

theorem line_of_ticket (ho : Ordered p s₀ ms h) {t : Nat} {s : Submission} (hs : h.submissions[t]? = some s) :
    (submitted ms)[t]? = some s.line := by
  rw [← ho.lines, List.getElem?_map, hs, Option.map_some]

theorem ticket_lt (ho : Ordered p s₀ ms h) {t : Nat} {s : Submission} (hs : h.submissions[t]? = some s) :
    t < (submitted ms).length :=
  (List.getElem?_eq_some_iff.1 (ho.line_of_ticket hs)).1

theorem mem_of_received (ho : Ordered p s₀ ms h) {t : Nat} (ht : t ∈ h.received.reverse.map Prod.fst) :
    t ∈ accepted ms := by
  rw [ho.order]
  exact List.mem_append_left _ ht

theorem received_lt (ho : Ordered p s₀ ms h) :
    ∀ t ∈ h.received.reverse.map Prod.fst, t < (submitted ms).length :=
  fun t ht => ho.known t (ho.mem_of_received ht)

theorem of_waiting (ho : Ordered p s₀ ms h) {t : Nat} {s : Submission} (hs : h.submissions[t]? = some s)
    (hw : s.stage = .waiting) : t ∉ accepted ms := by
  have hp := ho.placed t s hs
  unfold Placed at hp
  rw [hw] at hp
  exact hp

/-- A ticket in the order has been accepted, and has not been answered but with the result that is owed. -/
theorem of_mem (ho : Ordered p s₀ ms h) {t : Nat} {s : Submission} (hs : h.submissions[t]? = some s)
    (ht : t ∈ accepted ms) :
    (s.stage = .accepted ∧
      (t ∈ h.received.reverse.map Prod.fst → (∃ x, h.hand = some (t, x)) ∨ s.attended = false)) ∨
      ∃ x, s.stage = .answered x ∧ Owed p s₀ (submitted ms) h.received.reverse t x := by
  have hp := ho.placed t s hs
  unfold Placed at hp
  cases hst : s.stage with
  | waiting => rw [hst] at hp; exact absurd ht hp
  | withdrawn => rw [hst] at hp; exact absurd ht hp
  | accepted => rw [hst] at hp; exact .inl ⟨rfl, hp.2⟩
  | answered x => rw [hst] at hp; exact .inr ⟨x, rfl, hp.resolve_right fun hn => hn.2 ht⟩

/-- A move that leaves the submissions, the order and the worker alone. -/
theorem idle (ho : Ordered p s₀ ms h) {m : Move} (hl : m.line? = none) (ha : m.accepted? = none)
    (hd : m.directory? = none) (hservice : h'.service.own = h.service.own)
    (hsub : h'.submissions = h.submissions) (hslot : h'.slot = h.slot) (hhand : h'.hand = h.hand)
    (hrec : h'.received = h.received)
    (hstop : h'.phase = .stopped → h'.slot = none ∧ h'.hand = none) : Ordered p s₀ (ms ++ [m]) h' where
  lines := by rw [hsub, submitted_concat, hl, ho.lines]; simp
  order := by rw [accepted_concat, ha, hrec, hslot, ho.order]; simp
  asked := by rw [directories_concat, hd, hrec, ho.asked]; simp
  nodup := by rw [accepted_concat, ha]; simpa using ho.nodup
  known := by rw [accepted_concat, submitted_concat, ha, hl]; simpa using ho.known
  service := by rw [hservice, submitted_concat, hl, hrec]; simpa using ho.service
  hand := by rw [hhand, submitted_concat, hl, hrec, hsub]; simpa using ho.hand
  placed t s hs := by
    have hp := ho.placed t s (hsub ▸ hs)
    unfold Placed at hp ⊢
    rw [accepted_concat, submitted_concat, ha, hl, hrec, hhand]
    simpa using hp
  stopped := hstop

theorem submit (ho : Ordered p s₀ ms h) (line : String) :
    Ordered p s₀ (ms ++ [.submit line]) { h with submissions := h.submissions ++ [{ line }] } := by
  have hsub : submitted (ms ++ [.submit line]) = submitted ms ++ [line] := submitted_concat ..
  have hacc : accepted (ms ++ [.submit line]) = accepted ms := by simp [accepted_concat, Move.accepted?]
  have hgrow : ∀ t x, Owed p s₀ (submitted ms) h.received.reverse t x →
      Owed p s₀ (submitted ms ++ [line]) h.received.reverse t x := by
    intro t x hx
    simpa using hx.grow ho.received_lt [line] []
  constructor
  · rw [hsub, List.map_append, ho.lines]
    rfl
  · rw [hacc, ho.order]
  · simp [directories_concat, Move.directory?, ho.asked]
  · rw [hacc]
    exact ho.nodup
  · intro t ht
    rw [hacc] at ht
    rw [hsub, List.length_append]
    exact Nat.lt_of_lt_of_le (ho.known t ht) (Nat.le_add_right _ _)
  · rw [hsub, linesAt_append_left ho.received_lt]
    exact ho.service
  · intro t x hx
    obtain ⟨howed, s, hs, hst⟩ := ho.hand t x hx
    rw [hsub]
    refine ⟨hgrow t x howed, s, ?_, hst⟩
    rw [List.getElem?_append_left (List.getElem?_eq_some_iff.1 hs).1]
    exact hs
  · intro t s hs
    unfold Placed
    rw [hacc, hsub]
    by_cases ht : t < h.submissions.length
    · rw [List.getElem?_append_left ht] at hs
      have hp := ho.placed t s hs
      unfold Placed at hp
      cases hst : s.stage with
      | waiting => rw [hst] at hp; exact hp
      | withdrawn => rw [hst] at hp; exact hp
      | accepted => rw [hst] at hp; exact hp
      | answered x =>
        rw [hst] at hp
        exact hp.imp (hgrow t x) id
    · -- the new submission waits, and its ticket is not yet known
      obtain rfl : s = { line } := by
        rw [List.getElem?_append_right (Nat.le_of_not_lt ht)] at hs
        exact (List.mem_singleton.1 (List.mem_of_getElem? hs))
      intro hmem
      have hlt := ho.known t hmem
      rw [← ho.lines, List.length_map] at hlt
      exact ht hlt
  · exact ho.stopped

theorem accept (ho : Ordered p s₀ ms h) {t : Nat} {s : Submission} (hp : h.phase = .serving)
    (hslot : h.slot = none) (hs : h.submissions[t]? = some s) (hw : s.stage = .waiting) :
    Ordered p s₀ (ms ++ [.accept t]) { h.amend t ({ · with stage := .accepted }) with slot := some t } := by
  have hsub : submitted (ms ++ [.accept t]) = submitted ms := by simp [submitted_concat, Move.line?]
  have hacc : accepted (ms ++ [.accept t]) = accepted ms ++ [t] := accepted_concat ..
  -- one that waits is not in the order, so that no ticket gets in twice
  have hnot : t ∉ accepted ms := ho.of_waiting hs hw
  have hget := h.getElem?_amend t (f := ({ · with stage := .accepted }))
  constructor
  · rw [hsub, ← ho.lines]
    exact lines_amend fun _ _ => rfl
  · rw [hacc, ho.order, hslot]
    simp [amend]
  · simp [directories_concat, Move.directory?, ho.asked, amend]
  · rw [hacc]
    refine List.nodup_append.2 ⟨ho.nodup, List.nodup_singleton t, ?_⟩
    rintro u hu v hv rfl
    exact hnot (List.mem_singleton.1 hv ▸ hu)
  · intro u hu
    rw [hsub]
    rw [hacc, List.mem_append, List.mem_singleton] at hu
    rcases hu with hu | rfl
    · exact ho.known u hu
    · exact ho.ticket_lt hs
  · rw [hsub]
    exact ho.service
  · intro u x hx
    obtain ⟨howed, s', hs', hst⟩ := ho.hand u x hx
    rw [hsub]
    refine ⟨howed, s', ?_, hst⟩
    have hne : t ≠ u := by
      rintro rfl
      exact hnot (ho.mem_of_received howed.mem)
    exact (hget u).trans ((if_neg hne).trans hs')
  · intro u s' hs'
    replace hs' := (hget u).symm.trans hs'
    unfold Placed
    rw [hacc, hsub]
    by_cases hut : t = u
    · subst hut
      rw [if_pos rfl, hs] at hs'
      obtain rfl := Option.some.inj hs'
      exact ⟨by simp, fun hrec => absurd (ho.mem_of_received hrec) hnot⟩
    · rw [if_neg hut] at hs'
      have hpl := ho.placed u s' hs'
      unfold Placed at hpl
      have hiff : u ∈ accepted ms ++ [t] ↔ u ∈ accepted ms := by simp [Ne.symm hut]
      rw [hiff]
      exact hpl
  · intro hstop
    exact absurd (hp.symm.trans hstop) (by simp)

/-- A move that changes one submission, which is in its place after it. The worker keeps what it has in hand,
or lets go of the result for that submission. -/
theorem amend (ho : Ordered p s₀ ms h) {m : Move} (hl : m.line? = none) (ha : m.accepted? = none)
    (hd : m.directory? = none) {t : Nat} {s : Submission} {f : Submission → Submission}
    {hand : Option (Nat × Except Refusal Reply)}
    (hs : h.submissions[t]? = some s) (hf : (f s).line = s.line)
    (hhand : (hand = h.hand ∧ (s.stage = .accepted → (f s).stage = .accepted)) ∨
      (hand = none ∧ ∃ x, h.hand = some (t, x)))
    (hp : Placed p s₀ ms { h with hand } t (f s)) : Ordered p s₀ (ms ++ [m]) { h.amend t f with hand } := by
  have hsub : submitted (ms ++ [m]) = submitted ms := by simp [submitted_concat, hl]
  have hacc : accepted (ms ++ [m]) = accepted ms := by simp [accepted_concat, ha]
  have hget := h.getElem?_amend t (f := f)
  constructor
  · rw [hsub, ← ho.lines]
    refine lines_amend fun s' hs' => ?_
    obtain rfl := Option.some.inj (hs.symm.trans hs')
    exact hf
  · rw [hacc]
    exact ho.order
  · rw [directories_concat, hd, ho.asked]
    exact List.append_nil _
  · rw [hacc]
    exact ho.nodup
  · rw [hacc, hsub]
    exact ho.known
  · rw [hsub]
    exact ho.service
  · intro u x hx
    rcases hhand with ⟨rfl, hst⟩ | ⟨rfl, -⟩
    · obtain ⟨howed, s', hs', hst'⟩ := ho.hand u x hx
      rw [hsub]
      refine ⟨howed, ?_⟩
      by_cases hut : t = u
      · subst hut
        obtain rfl := Option.some.inj (hs.symm.trans hs')
        exact ⟨f s, (hget t).trans (by rw [if_pos rfl, hs]; rfl), hst hst'⟩
      · exact ⟨s', (hget u).trans ((if_neg hut).trans hs'), hst'⟩
    · cases hx
  · intro u s' hs'
    replace hs' := (hget u).symm.trans hs'
    unfold Placed
    rw [hacc, hsub]
    by_cases hut : t = u
    · subst hut
      rw [if_pos rfl, hs] at hs'
      obtain rfl := Option.some.inj hs'
      exact hp
    · rw [if_neg hut] at hs'
      have hpl := ho.placed u s' hs'
      unfold Placed at hpl
      cases hst : s'.stage with
      | waiting => rw [hst] at hpl; exact hpl
      | withdrawn => rw [hst] at hpl; exact hpl
      | answered x => rw [hst] at hpl; exact hpl
      | accepted =>
        rw [hst] at hpl
        refine ⟨hpl.1, fun hrec => (hpl.2 hrec).imp ?_ id⟩
        rintro ⟨x, hx⟩
        -- the result that the worker lets go of is not the one of this other submission
        rcases hhand with ⟨rfl, -⟩ | ⟨-, y, hy⟩
        · exact ⟨x, hx⟩
        · exact absurd (Prod.mk.inj (Option.some.inj (hy.symm.trans hx))).1 hut
  · intro hstop
    obtain ⟨hslot, hnone⟩ := ho.stopped hstop
    exact ⟨hslot, hhand.elim (fun hc => hc.1.trans hnone) fun hc => hc.1⟩

theorem receive (ho : Ordered p s₀ ms h) (d : Directory) {t : Nat} {s : Submission} (hh : h.hand = none)
    (hslot : h.slot = some t) (hs : h.submissions[t]? = some s) :
    Ordered p s₀ (ms ++ [.receive d]) { h with
      service := ((Service.process ⟨p, d⟩ s.line).run h.service).2
      slot := none
      hand := some (t, ((Service.process ⟨p, d⟩ s.line).run h.service).1)
      received := (t, d) :: h.received } := by
  have hsub : submitted (ms ++ [.receive d]) = submitted ms := by simp [submitted_concat, Move.line?]
  have hacc : accepted (ms ++ [.receive d]) = accepted ms := by simp [accepted_concat, Move.accepted?]
  have hline := ho.line_of_ticket hs
  have horder : accepted ms = h.received.reverse.map Prod.fst ++ [t] := by
    rw [ho.order, hslot]
    rfl
  have hnot : t ∉ h.received.reverse.map Prod.fst := by
    have hn := ho.nodup
    rw [horder] at hn
    exact fun hmem => (List.nodup_append.1 hn).2.2 t hmem t (List.mem_singleton_self t) rfl
  have hmem : t ∈ accepted ms := by simp [horder]
  have hgrow : ∀ u x, Owed p s₀ (submitted ms) h.received.reverse u x →
      Owed p s₀ (submitted ms) ((t, d) :: h.received).reverse u x := by
    intro u x hx
    rw [List.reverse_cons]
    simpa using hx.grow ho.received_lt [] [(t, d)]
  have howed : Owed p s₀ (submitted ms) ((t, d) :: h.received).reverse t
      (Service.answer ⟨p, d⟩ h.service s.line) :=
    ⟨h.received.reverse, d, [], s.line, by simp, hline, Service.answer_congr ho.service s.line⟩
  constructor
  · rw [hsub]
    exact ho.lines
  · rw [hacc, horder]
    simp
  · simp [directories_concat, Move.directory?, ho.asked]
  · rw [hacc]
    exact ho.nodup
  · rw [hacc, hsub]
    exact ho.known
  · rw [hsub, List.reverse_cons, linesAt_concat hline, Service.served_concat]
    exact Service.answered_congr ho.service s.line
  · intro u x hx
    obtain ⟨rfl, rfl⟩ := Prod.mk.inj (Option.some.inj hx)
    rw [hsub]
    refine ⟨howed, s, hs, ?_⟩
    -- the ticket in the slot is in the order, and its line has not been carried out
    rcases ho.of_mem hs hmem with ⟨hst, -⟩ | ⟨x, -, hx⟩
    · exact hst
    · exact absurd hx.mem hnot
  · intro u s' hs'
    have hpl := ho.placed u s' hs'
    unfold Placed at hpl ⊢
    rw [hacc, hsub]
    cases hst : s'.stage with
    | waiting => rw [hst] at hpl; exact hpl
    | withdrawn => rw [hst] at hpl; exact hpl
    | accepted =>
      rw [hst] at hpl
      refine ⟨hpl.1, fun hrec => ?_⟩
      -- the hand was empty, so that the result of an earlier line has not been lost with it
      rw [List.reverse_cons, List.map_append, List.mem_append] at hrec
      rcases hrec with hrec | hrec
      · rcases hpl.2 hrec with ⟨x, hx⟩ | hgone
        · exact absurd (hh.symm.trans hx) (by simp)
        · exact .inr hgone
      · obtain rfl := List.mem_singleton.1 hrec
        exact .inl ⟨_, rfl⟩
    | answered x =>
      rw [hst] at hpl
      exact hpl.imp (hgrow u x) id
  · intro hstop
    exact absurd (hslot.symm.trans (ho.stopped hstop).1) (by simp)

/-- Events of the handoff do not matter. -/
theorem note (ho : Ordered p s₀ ms h) {e : Event} (he : e.ofHandoff = true) : Ordered p s₀ ms (h.note e) :=
  { ho with service := (own_note he).trans ho.service }

/-- Every move keeps the order. -/
theorem step {m : Move} (ho : Ordered p s₀ ms h) (hm : Step p h m h') : Ordered p s₀ (ms ++ [m]) h' := by
  cases hm with
  | submit => exact ho.submit _
  | accept hp hslot hs hw => exact ho.accept hp hslot hs hw
  | refuse hp hs hw =>
    exact ho.amend rfl rfl rfl hs rfl (.inl ⟨rfl, by simp [hw]⟩) (.inr ⟨rfl, ho.of_waiting hs hw⟩)
  | leave hs hgone =>
    rcases Submission.abandon?_eq_some hgone with ⟨hst, rfl⟩ | ⟨hst, rfl⟩
    · exact ho.amend rfl rfl rfl hs rfl (.inl ⟨rfl, by simp [hst]⟩) (ho.of_waiting hs hst)
    · have hpl := ho.placed _ _ hs
      unfold Placed at hpl
      rw [hst] at hpl
      refine ho.amend rfl rfl rfl hs rfl (.inl ⟨rfl, fun _ => hst⟩) ?_
      unfold Placed
      simp only [hst]
      exact ⟨hpl.1, fun _ => .inr trivial⟩
  | receive hh hslot hs => exact ho.receive _ hh hslot hs
  | deliver hh hs _ => exact ho.amend rfl rfl rfl hs rfl (.inr ⟨rfl, _, hh⟩) (.inl (ho.hand _ _ hh).1)
  | @discard t x s hh hs hgone =>
    -- nothing is written into the submission, since its client has gone
    obtain ⟨howed, s', hs', hst⟩ := ho.hand _ _ hh
    obtain rfl := Option.some.inj (hs.symm.trans hs')
    have hplaced : Placed p s₀ ms { h with hand := none } t s := by
      unfold Placed
      rw [hst]
      exact ⟨ho.mem_of_received howed.mem, fun _ => .inr hgone⟩
    have hid := ho.amend (m := .reply) (f := id) rfl rfl rfl hs rfl (.inr ⟨rfl, x, hh⟩) hplaced
    rw [show h.amend t id = h by simp [Handoff.amend]] at hid
    exact hid.note rfl
  | trigger => exact ho.idle rfl rfl rfl rfl rfl rfl rfl rfl ho.stopped
  | notice hp _ _ => exact ho.idle rfl rfl rfl (own_note rfl) rfl rfl rfl rfl (by simp [Handoff.note])
  | desert => exact ho.idle rfl rfl rfl rfl rfl rfl rfl rfl ho.stopped
  | finish _ hslot hh => exact ho.idle rfl rfl rfl (own_note rfl) rfl rfl rfl rfl fun _ => ⟨hslot, hh⟩

theorem of_run {ms : List Move} {h : Handoff σ} (hr : run? p { service := s₀ } ms = some h) : Ordered p s₀ ms h := by
  induction ms using List.reverseRecOn generalizing h with
  | nil =>
    obtain rfl := Option.some.inj hr
    exact start p s₀
  | append_singleton ms m ih =>
    obtain ⟨h₁, h1, hm⟩ := run?_concat hr
    exact (ih h1).step hm

end Ordered

/-! ## Answers -/

/-- An answer that a client has got does not change any more. -/
theorem Step.answer?_eq {p : Policy} {h h' : Handoff σ} {m : Move} (hm : Step p h m h') {t : Nat}
    {x : Except Refusal Reply} (hx : h.answer? t = some x)
    (hhand : ∀ u y, h.hand = some (u, y) → ∃ s, h.submissions[u]? = some s ∧ s.stage = .accepted) :
    h'.answer? t = some x := by
  rw [answer?_eq_some] at hx ⊢
  obtain ⟨s, hs, hst⟩ := hx
  -- a move that amends another submission, or none
  have hother : ∀ {u s' f}, h.submissions[u]? = some s' → s'.stage ≠ .answered x →
      ∃ s, (h.amend u f).submissions[t]? = some s ∧ s.stage = .answered x := by
    intro u s' f hs' hne
    refine ⟨s, ?_, hst⟩
    rw [getElem?_amend, if_neg, hs]
    rintro rfl
    obtain rfl := Option.some.inj (hs.symm.trans hs')
    exact hne hst
  cases hm with
  | submit =>
    refine ⟨s, ?_, hst⟩
    rw [List.getElem?_append_left (List.getElem?_eq_some_iff.1 hs).1]
    exact hs
  | accept _ _ hs' hw => exact hother hs' (by simp [hw])
  | refuse _ hs' hw => exact hother hs' (by simp [hw])
  | leave hs' hgone =>
    rcases Submission.abandon?_eq_some hgone with ⟨hst', -⟩ | ⟨hst', -⟩
    · exact hother hs' (by simp [hst'])
    · exact hother hs' (by simp [hst'])
  | deliver hh hs' _ =>
    obtain ⟨s', hs'', hst'⟩ := hhand _ _ hh
    exact hother hs'' (by simp [hst'])
  | receive => exact ⟨s, hs, hst⟩
  | discard => exact ⟨s, hs, hst⟩
  | trigger => exact ⟨s, hs, hst⟩
  | notice => exact ⟨s, hs, hst⟩
  | desert => exact ⟨s, hs, hst⟩
  | finish => exact ⟨s, hs, hst⟩

end Handoff

/-- No command line is read as a refusal to accept it. -/
theorem Command.parse_ne_stopping (line : String) : parse line ≠ .error .stopping := by
  have haddress : ∀ {f : String → Command} (word : String), (readAddress word).map f ≠ .error .stopping := by
    intro f word
    unfold readAddress
    cases Address.normalize word <;> simp [Except.map, Except.mapError]
  unfold parse ofWords
  split
  · simp
  · split
    · unfold ofArgs
      split
      · simp
      · split
        case h_6 => split <;> simp
        case h_7 => simp
        all_goals exact haddress _
    · simp

namespace Service

/-- A command that is refused is refused for want of a route. -/
theorem Executed.error_eq {r : Router} {s s' : Service σ} {c : Command} {e : Refusal}
    (hx : Executed r s c (.error e) s') : ∃ f, e = .routing f := by
  cases hx with
  | refused => exact ⟨_, rfl⟩

/-- No line that is carried out is answered as if it had not been accepted. -/
theorem answer_ne_stopping (r : Router) (s : Service σ) (line : String) : answer r s line ≠ .error .stopping := by
  cases hp : Command.parse line with
  | error e =>
    have hx : answer r s line = .error e := (process_of_error r hp s).1
    rw [hx]
    rintro ⟨⟩
    exact Command.parse_ne_stopping line hp
  | ok c =>
    obtain ⟨s₀, -, hx, -⟩ := process_of_ok r hp s
    have hx : answer r s line = (result r s₀ c).map Completion.reply := hx
    have he := executed r s₀ c
    rw [hx]
    cases hr : result r s₀ c with
    | ok completion => simp [Except.map]
    | error e =>
      rw [hr] at he
      obtain ⟨f, rfl⟩ := he.error_eq
      simp [Except.map]

end Service

namespace Handoff

/-- Exactly once and in one order, in every state that the moves of clients, the worker and the call to stop
can lead to. The accepted tickets are the received ones and then the one in the slot, and no ticket is among
them twice. The service is as if the lines received so far had been served one after the other, each with the
directory as it was when the worker took the line. An answer is the result of the client's own line at its
own place in that order, or it is a refusal, and then the line was not accepted; it does not change any more.
A received line has its result with the worker or with its client, unless the client has gone. Once the
worker has stopped, every accepted line has been received, and has its result with its client unless that has
gone. -/
theorem exactly_once {p : Policy} {s₀ : Service σ} {ms : List Move} {h : Handoff σ}
    (hr : run? p { service := s₀ } ms = some h) :
    let order := h.received.reverse
    let tickets := order.map Prod.fst
    let owed := Owed p s₀ (submitted ms) order
    (accepted ms = tickets ++ h.slot.toList ∧ (accepted ms).Nodup ∧ ∀ t ∈ accepted ms, t < (submitted ms).length) ∧
    (directories ms = order.map Prod.snd ∧
      h.service.own = (Service.served p s₀ (linesAt (submitted ms) order)).own) ∧
    (∀ t x, h.answer? t = some x →
      (owed t x ∧ x ≠ .error .stopping ∨ x = .error .stopping ∧ t ∉ accepted ms) ∧
      ∀ m h', step? p h m = some h' → h'.answer? t = some x) ∧
    (∀ t ∈ tickets, (∃ x, owed t x ∧ (h.hand = some (t, x) ∨ h.answer? t = some x)) ∨
      ∃ s, h.submissions[t]? = some s ∧ s.attended = false) ∧
    (h.phase = .stopped → accepted ms = tickets ∧ ∀ t ∈ accepted ms, (∃ x, owed t x ∧ h.answer? t = some x) ∨
      ∃ s, h.submissions[t]? = some s ∧ s.attended = false) := by
  intro order tickets owed
  have ho := Ordered.of_run hr
  have hlt : ∀ t ∈ tickets, ∃ s, h.submissions[t]? = some s := by
    intro t ht
    have hlen := ho.received_lt t ht
    rw [← ho.lines, List.length_map] at hlen
    exact ⟨_, List.getElem?_eq_getElem hlen⟩
  have hresult : ∀ t ∈ tickets, (∃ x, owed t x ∧ (h.hand = some (t, x) ∨ h.answer? t = some x)) ∨
      ∃ s, h.submissions[t]? = some s ∧ s.attended = false := by
    intro t ht
    obtain ⟨s, hs⟩ := hlt t ht
    rcases ho.of_mem hs (ho.mem_of_received ht) with ⟨-, hleft⟩ | ⟨x, hst, hx⟩
    · rcases hleft ht with ⟨x, hx⟩ | hgone
      · exact .inl ⟨x, (ho.hand t x hx).1, .inl hx⟩
      · exact .inr ⟨s, hs, hgone⟩
    · exact .inl ⟨x, hx, .inr ((answer?_eq_some h t x).2 ⟨s, hs, hst⟩)⟩
  refine ⟨⟨ho.order, ho.nodup, ho.known⟩, ⟨ho.asked, ho.service⟩, ?_, hresult, ?_⟩
  · intro t x hx
    refine ⟨?_, fun m h' hm => (step_of_step? hm).answer?_eq hx fun u y hy => (ho.hand u y hy).2⟩
    obtain ⟨s, hs, hst⟩ := (answer?_eq_some h t x).1 hx
    have hpl := ho.placed t s hs
    unfold Placed at hpl
    rw [hst] at hpl
    refine hpl.imp (fun howed => ⟨howed, ?_⟩) id
    obtain ⟨pre, d, post, line, -, -, rfl⟩ := howed
    exact Service.answer_ne_stopping ⟨p, d⟩ _ line
  · intro hstop
    obtain ⟨hslot, hhand⟩ := ho.stopped hstop
    have horder : accepted ms = tickets := by
      rw [ho.order, hslot]
      exact List.append_nil _
    refine ⟨horder, fun t ht => ?_⟩
    rcases hresult t (horder ▸ ht) with ⟨x, hx, hhand' | hans⟩ | hgone
    · exact absurd (hhand.symm.trans hhand') (by simp)
    · exact .inl ⟨x, hx, hans⟩
    · exact .inr hgone

/-- Three clients, and a call to stop while the line of the first one is carried out: the second line is
accepted in time but its client goes, and the third one is refused. -/
theorem exactly_once_at_stop :
    let ms := [.submit "connect alice svc:22", .submit "info checks", .submit "info checks", .accept 0, .trigger,
      .receive .groupless, .accept 1, .reply, .notice, .refuse 2, .leave 1, .receive (.ofMembers ∅), .reply, .finish]
    ∃ h, run? (.flat ["h1:22"]) { service := Service.fresh 5 (⟨0⟩ : Script fun _ => true) } ms = some h ∧
      accepted ms = h.received.reverse.map Prod.fst ∧ h.answer? 0 = some (.ok (.simple "h1:22")) ∧
      h.answer? 1 = none ∧ h.answer? 2 = some (.error .stopping) := by
  intro ms
  have hsome : (run? (.flat ["h1:22"]) { service := Service.fresh 5 (⟨0⟩ : Script fun _ => true) } ms).map
      (fun h => (h.phase, [h.answer? 0, h.answer? 1, h.answer? 2])) =
        some (.stopped, [some (.ok (.simple "h1:22")), none, some (.error .stopping)]) := by
    decide +kernel
  obtain ⟨h, hr, hh⟩ := Option.map_eq_some_iff.1 hsome
  simp only [Prod.mk.injEq, List.cons.injEq, and_true] at hh
  obtain ⟨hstop, h0, h1, h2⟩ := hh
  exact ⟨h, hr, ((exactly_once hr).2.2.2.2 hstop).1, h0, h1, h2⟩

end Handoff

end SessionRouting
