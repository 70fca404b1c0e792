/-
Open connections and their permits add up. In whatever order connections are accepted or fail to be, workers come to
their ends and the listener is shut, the tracker counts the connections that are open, no permit is lost, and
connections are numbered in the order in which they are accepted: `permits_balance`.

`Balanced` is the invariant of states, kept by every move. `Numbered` tells how a state fits with the moves that led
to it.
-/
import SessionRouting.Listener
import Mathlib.Tactic

namespace SessionRouting

namespace Listener

/-! ## What is held -/

/-- The worker has not dropped its connection, which is open. -/
def Stage.isOpen : Stage → Bool
  | reading | answering => true
  | closed | ended => false

/-- The worker has not given its permit back. -/
def Stage.hasPermit : Stage → Bool
  | reading | answering | closed => true
  | ended => false

/-- The number of connections that workers have not dropped. -/
def connections (l : Listener) : Nat := l.workers.countP (·.stage.isOpen)

/-- The number of permits that are held: by workers and by the listener while it waits. -/
def permits (l : Listener) : Nat := l.workers.countP (·.stage.hasPermit) + l.isWaiting.toNat

theorem Stage.hasPermit_of_isOpen {s : Stage} (h : s.isOpen = true) : s.hasPermit = true := by
  cases s with
  | reading | answering | closed => rfl
  | ended => cases h

theorem Ending.isOpen_stage (e : Ending) : e.stage.isOpen = true := by
  cases e <;> rfl

theorem Ending.hasPermit_stage (e : Ending) : e.stage.hasPermit = true :=
  Stage.hasPermit_of_isOpen e.isOpen_stage

/-- An open connection has a permit. -/
theorem connections_le_permits (l : Listener) : l.connections ≤ l.permits :=
  Nat.le_add_right_of_le (List.countP_mono_left fun _ _ => Stage.hasPermit_of_isOpen)

/-! ## Steps -/

/-- The ways in which moves go. -/
inductive Step (l : Listener) : Move → Listener → Prop
  | acquire (ha : 0 < l.available) (hw : l.isWaiting = false) (hs : l.isShut = false) :
    Step l .acquire { l with available := l.available - 1, isWaiting := true }
  | accept (hw : l.isWaiting = true) : Step l .accept { l with
      isWaiting := false
      tracker := l.tracker.enter
      workers := l.workers ++ [{ id := l.nextId }]
      nextId := l.nextId + 1 }
  | acceptFails (hw : l.isWaiting = true) :
    Step l .acceptFails { l with available := l.available + 1, isWaiting := false }
  | receive {id : Nat} {pre post : List Worker} (h : l.workers = pre ++ { id, stage := .reading } :: post) :
    Step l (.receive id) { l with workers := pre ++ { id, stage := .answering } :: post }
  | close {id : Nat} {e : Ending} {pre post : List Worker} (h : l.workers = pre ++ { id, stage := e.stage } :: post) :
    Step l (.close id e) { l with
      workers := pre ++ { id, stage := .closed } :: post
      tracker := l.tracker.leave }
  | depart {id : Nat} {pre post : List Worker} (h : l.workers = pre ++ { id, stage := .closed } :: post) :
    Step l (.depart id) { l with
      workers := pre ++ { id, stage := .ended } :: post
      available := l.available + 1 }
  | shutWaiting (hw : l.isWaiting = true) (hs : l.isShut = false) :
    Step l .shut { l with available := l.available + 1, isWaiting := false, isShut := true }
  | shutIdle (hw : l.isWaiting = false) (hs : l.isShut = false) : Step l .shut { l with isShut := true }

/-- A worker that is in the stage advances and keeps its place. -/
theorem advance?_of_mem {l : Listener} {id : Nat} {stage : Stage} (h : { id, stage } ∈ l.workers) (next : Stage) :
    ∃ pre post, l.workers = pre ++ { id, stage } :: post ∧
      l.advance? id stage next = some { l with workers := pre ++ { id, stage := next } :: post } := by
  obtain ⟨pre, post, hworkers, hpre⟩ := List.eq_append_cons_of_mem h
  refine ⟨pre, post, hworkers, ?_⟩
  unfold advance?
  rw [if_pos h, hworkers, List.replace_append_right hpre, List.replace_cons_self]

theorem advance?_eq_some {l l' : Listener} {id : Nat} {stage next : Stage} (h : l.advance? id stage next = some l') :
    ∃ pre post, l.workers = pre ++ { id, stage } :: post ∧
      l' = { l with workers := pre ++ { id, stage := next } :: post } := by
  by_cases hmem : { id, stage } ∈ l.workers
  · obtain ⟨pre, post, hworkers, hadvance⟩ := advance?_of_mem hmem next
    exact ⟨pre, post, hworkers, Option.some.inj (h.symm.trans hadvance)⟩
  · unfold advance? at h
    rw [if_neg hmem] at h
    cases h

theorem step_of_step? {l l' : Listener} {m : Move} (hm : l.step? m = some l') : Step l m l' := by
  cases m with
  | acquire =>
    simp only [step?] at hm
    split at hm
    · rename_i hc
      cases hm
      exact .acquire hc.1 (by simpa using hc.2.1) (by simpa using hc.2.2)
    · cases hm
  | accept =>
    simp only [step?] at hm
    split at hm
    · rename_i hw
      cases hm
      exact .accept hw
    · cases hm
  | acceptFails =>
    simp only [step?] at hm
    split at hm
    · rename_i hw
      cases hm
      exact .acceptFails hw
    · cases hm
  | receive id =>
    obtain ⟨pre, post, hworkers, rfl⟩ := advance?_eq_some hm
    exact .receive hworkers
  | close id e =>
    simp only [step?, Option.bind_eq_bind, Option.pure_def, Option.bind_eq_some_iff, Option.some.injEq] at hm
    obtain ⟨l₁, h1, rfl⟩ := hm
    obtain ⟨pre, post, hworkers, rfl⟩ := advance?_eq_some h1
    exact .close hworkers
  | depart id =>
    simp only [step?, Option.bind_eq_bind, Option.pure_def, Option.bind_eq_some_iff, Option.some.injEq] at hm
    obtain ⟨l₁, h1, rfl⟩ := hm
    obtain ⟨pre, post, hworkers, rfl⟩ := advance?_eq_some h1
    exact .depart hworkers
  | shut =>
    simp only [step?] at hm
    split at hm
    · cases hm
    · rename_i hs
      split at hm
      · rename_i hw
        cases hm
        exact .shutWaiting hw (Bool.eq_false_iff.2 hs)
      · rename_i hw
        cases hm
        exact .shutIdle (Bool.eq_false_iff.2 hw) (Bool.eq_false_iff.2 hs)

/-! ## Runs -/

/-- The state after moves that are all possible when their turn comes. -/
def run? (l : Listener) (ms : List Move) : Option Listener := ms.foldlM step? l

/-- The books are in order: every permit is free or held, and the tracker counts the open connections. -/
structure Balanced (maxConnections : Nat) (l : Listener) : Prop where
  permits : l.available + l.permits = maxConnections
  connections : l.tracker.active = l.connections
  shut : l.isShut = true → l.isWaiting = false

/-- The connections that the moves of a run have accepted are numbered in that order. -/
structure Numbered (ms : List Move) (l : Listener) : Prop where
  ids : l.workers.map Worker.id = List.range' 1 (ms.count .accept)
  nextId : l.nextId = 1 + ms.count .accept

/-- How a count of workers changes when one of them advances. -/
theorem countP_advance (p : Stage → Bool) (pre post : List Worker) (id : Nat) (stage next : Stage) :
    (pre ++ { id, stage := next } :: post).countP (fun w => p w.stage) + (p stage).toNat =
      (pre ++ { id, stage } :: post).countP (fun w => p w.stage) + (p next).toNat := by
  have hone (b : Bool) : (if b = true then 1 else 0) = b.toNat := by cases b <;> rfl
  simp only [List.countP_append, List.countP_cons, hone]
  omega

namespace Balanced

variable {maxConnections : Nat} {l l' : Listener} {id : Nat} {stage next : Stage} {pre post : List Worker}

theorem start (maxConnections : Nat) : Balanced maxConnections (start maxConnections) where
  permits := rfl
  connections := rfl
  shut := by simp [Listener.start]

/-- The tracker counts the connection of a worker that has not dropped it. -/
theorem active_pos (hb : Balanced maxConnections l) (h : l.workers = pre ++ { id, stage } :: post)
    (ho : stage.isOpen = true) : 0 < l.tracker.active := by
  rw [hb.connections]
  refine List.countP_pos_iff.2 ⟨{ id, stage }, ?_, ho⟩
  rw [h]
  simp

/-- A worker advances, and with it what becomes free of its permit and what the tracker counts of its connection. -/
theorem advance (hb : Balanced maxConnections l) (h : l.workers = pre ++ { id, stage } :: post)
    (h' : l'.workers = pre ++ { id, stage := next } :: post) (hw : l'.isWaiting = l.isWaiting)
    (hs : l'.isShut = l.isShut) (ha : l'.available + next.hasPermit.toNat = l.available + stage.hasPermit.toNat)
    (ht : l'.tracker.active + stage.isOpen.toNat = l.tracker.active + next.isOpen.toNat) :
    Balanced maxConnections l' := by
  have hpermits := countP_advance Stage.hasPermit pre post id stage next
  have hconn := countP_advance Stage.isOpen pre post id stage next
  rw [← h, ← h'] at hpermits hconn
  refine ⟨?_, ?_, ?_⟩
  · have hfull := hb.permits
    unfold Listener.permits at hfull ⊢
    rw [hw]
    omega
  · have hactive := hb.connections
    unfold Listener.connections at hactive ⊢
    omega
  · rw [hw, hs]
    exact hb.shut

/-- Every move keeps the balance. -/
theorem step {m : Move} (hb : Balanced maxConnections l) (hm : Step l m l') : Balanced maxConnections l' := by
  have hpermits := hb.permits
  unfold Listener.permits at hpermits
  cases hm with
  | acquire ha hw hs =>
    refine ⟨?_, hb.connections, by simp [hs]⟩
    simp only [hw, Bool.toNat_false] at hpermits
    simp only [Listener.permits, Bool.toNat_true]
    omega
  | accept hw =>
    refine ⟨?_, ?_, fun _ => rfl⟩
    · simp only [hw, Bool.toNat_true] at hpermits
      simpa [Listener.permits, List.countP_append, Stage.hasPermit] using hpermits
    · have hconn := hb.connections
      unfold Listener.connections at hconn
      simp [Listener.connections, Tracker.enter, List.countP_append, Stage.isOpen, hconn]
  | acceptFails hw =>
    refine ⟨?_, hb.connections, fun _ => rfl⟩
    simp only [hw, Bool.toNat_true] at hpermits
    simp only [Listener.permits, Bool.toNat_false]
    omega
  | receive h => exact hb.advance h rfl rfl rfl rfl rfl
  | @close id e pre post h =>
    -- the count is above zero, since it has this connection
    have hpos := hb.active_pos h e.isOpen_stage
    refine hb.advance h rfl rfl rfl ?_ ?_
    · rw [e.hasPermit_stage]
      rfl
    · rw [e.isOpen_stage]
      exact Nat.sub_add_cancel hpos
  | depart h => exact hb.advance h rfl rfl rfl rfl rfl
  | shutWaiting hw hs =>
    refine ⟨?_, hb.connections, fun _ => rfl⟩
    simp only [hw, Bool.toNat_true] at hpermits
    simp only [Listener.permits, Bool.toNat_false]
    omega
  | shutIdle hw hs => exact ⟨hb.permits, hb.connections, fun _ => hw⟩

end Balanced

namespace Numbered

variable {ms : List Move} {m : Move} {l l' : Listener}

theorem start (maxConnections : Nat) : Numbered [] (start maxConnections) where
  ids := rfl
  nextId := rfl

/-- A move other than an acceptance leaves the numbers alone. -/
theorem keep (hn : Numbered ms l) (hm : m ≠ .accept) (hids : l'.workers.map Worker.id = l.workers.map Worker.id)
    (hnext : l'.nextId = l.nextId) : Numbered (ms ++ [m]) l' := by
  have hcount : (ms ++ [m]).count .accept = ms.count .accept := by simp [List.count_append, hm]
  exact ⟨by rw [hids, hn.ids, hcount], by rw [hnext, hn.nextId, hcount]⟩

theorem step (hn : Numbered ms l) (hm : Step l m l') : Numbered (ms ++ [m]) l' := by
  cases hm with
  | accept hw =>
    have hcount : (ms ++ [Move.accept]).count .accept = ms.count .accept + 1 := by simp [List.count_append]
    refine ⟨?_, ?_⟩
    · rw [List.map_append, hn.ids, hcount, List.range'_1_concat]
      simp [hn.nextId]
    · rw [hcount, hn.nextId]
      rfl
  | acquire => exact hn.keep nofun rfl rfl
  | acceptFails => exact hn.keep nofun rfl rfl
  | receive h => exact hn.keep nofun (by simp [h]) rfl
  | close h => exact hn.keep nofun (by simp [h]) rfl
  | depart h => exact hn.keep nofun (by simp [h]) rfl
  | shutWaiting => exact hn.keep nofun rfl rfl
  | shutIdle => exact hn.keep nofun rfl rfl

end Numbered

variable {maxConnections : Nat} {l l' : Listener}

/-- A run keeps the balance and the numbers. -/
theorem Balanced.run (hb : Balanced maxConnections l) {past ms : List Move} (hn : Numbered past l)
    (hr : run? l ms = some l') : Balanced maxConnections l' ∧ Numbered (past ++ ms) l' := by
  induction ms generalizing past l with
  | nil =>
    obtain rfl := Option.some.inj hr
    rw [List.append_nil]
    exact ⟨hb, hn⟩
  | cons m ms ih =>
    unfold run? at hr
    rw [List.foldlM_cons] at hr
    obtain ⟨l₁, h1, hr⟩ := Option.bind_eq_some_iff.1 hr
    have hm := step_of_step? h1
    have hrest := ih (hb.step hm) (hn.step hm) hr
    rwa [List.append_assoc, List.singleton_append] at hrest

/-! ## Ends -/

/-- Dropping a connection takes it from the count, which is not zero before, and leaves the permits. -/
theorem Balanced.close (hb : Balanced maxConnections l) {id : Nat} {ending : Ending}
    (hm : l.step? (.close id ending) = some l') :
    l.tracker.active = l'.tracker.active + 1 ∧ l'.permits = l.permits := by
  have hb' := hb.step (step_of_step? hm)
  have hpermits := hb.permits.trans hb'.permits.symm
  cases step_of_step? hm with
  | close h =>
    have hpos := hb.active_pos h ending.isOpen_stage
    exact ⟨(Nat.sub_add_cancel hpos).symm, Nat.add_left_cancel hpermits.symm⟩

/-- What becomes free of a permit is held no more. -/
theorem Balanced.give_back (hb : Balanced maxConnections l) {m : Move} (hm : l.step? m = some l')
    (ha : l'.available = l.available + 1) : l.permits = l'.permits + 1 := by
  have hpermits := hb.permits
  have hpermits' := (hb.step (step_of_step? hm)).permits
  omega

/-- Whatever end a worker comes to in its stage, it drops its connection. -/
theorem exists_close {w : Worker} (hw : w ∈ l.workers) {ending : Ending} (h : ending.stage = w.stage) :
    ∃ l', l.step? (.close w.id ending) = some l' := by
  have hmem : { id := w.id, stage := ending.stage } ∈ l.workers := h ▸ hw
  obtain ⟨pre, post, -, hadvance⟩ := advance?_of_mem hmem .closed
  refine ⟨{ l with
    workers := pre ++ { id := w.id, stage := .closed } :: post
    tracker := l.tracker.leave }, ?_⟩
  simp only [step?, hadvance]
  rfl

/-- A worker that has dropped its connection gives its permit back. -/
theorem exists_depart {w : Worker} (hw : w ∈ l.workers) (h : w.stage = .closed) :
    ∃ l', l.step? (.depart w.id) = some l' ∧ l'.tracker = l.tracker ∧ l'.available = l.available + 1 := by
  have hmem : { id := w.id, stage := .closed } ∈ l.workers := h ▸ hw
  obtain ⟨pre, post, -, hadvance⟩ := advance?_of_mem hmem .ended
  refine ⟨{ l with
    workers := pre ++ { id := w.id, stage := .ended } :: post
    available := l.available + 1 }, ?_, rfl, rfl⟩
  simp only [step?, hadvance]
  rfl

/-- A wait that comes to nothing gives its permit back, whether it fails or the listener is shut meanwhile. -/
theorem Balanced.exists_stop_waiting (hb : Balanced maxConnections l) (hw : l.isWaiting = true) {m : Move}
    (hm : m ∈ [Move.acceptFails, .shut]) :
    ∃ l', l.step? m = some l' ∧ l'.tracker = l.tracker ∧ l'.available = l.available + 1 := by
  have hopen : l.isShut = false := by
    by_contra hs
    rw [hb.shut (Bool.eq_true_of_not_eq_false hs)] at hw
    cases hw
  rcases List.mem_pair.1 hm with rfl | rfl
  · exact ⟨{ l with available := l.available + 1, isWaiting := false }, if_pos hw, rfl, rfl⟩
  · refine ⟨{ l with available := l.available + 1, isWaiting := false, isShut := true }, ?_, rfl, rfl⟩
    simp only [step?, hopen, Bool.false_eq_true, ↓reduceIte]
    exact if_pos hw

/-- Connections and permits in every state that the moves of the listener and its workers can lead to. The tracker
counts the connections that are open, each of which has a permit, and all permits are free or held; the count is not
zero when a connection is dropped. Connections are numbered in the order in which they are accepted. Whatever end a
worker comes to, it drops its connection and then gives its permit back, and so does the listener with its own when
no connection comes of its wait. Once all workers have ended and the listener does not wait, no connection is counted
and all permits are free. -/
theorem permits_balance {ms : List Move} (hr : run? (start maxConnections) ms = some l) :
    (l.tracker.active = l.connections ∧ l.tracker.active ≤ l.permits ∧ l.permits ≤ maxConnections ∧
      l.available + l.permits = maxConnections) ∧
    (∀ id ending l', l.step? (.close id ending) = some l' → l.tracker.active = l'.tracker.active + 1) ∧
    (l.workers.map Worker.id = List.range' 1 (ms.count .accept) ∧ (l.workers.map Worker.id).Pairwise (· < ·)) ∧
    (∀ w ∈ l.workers,
      (∀ ending : Ending, ending.stage = w.stage →
        ∃ l', l.step? (.close w.id ending) = some l' ∧ l'.permits = l.permits) ∧
      (w.stage = .closed →
        ∃ l', l.step? (.depart w.id) = some l' ∧ l'.tracker = l.tracker ∧ l.permits = l'.permits + 1)) ∧
    (l.isWaiting = true → ∀ m ∈ [Move.acceptFails, .shut],
      ∃ l', l.step? m = some l' ∧ l'.tracker = l.tracker ∧ l.permits = l'.permits + 1) ∧
    ((∀ w ∈ l.workers, w.stage = .ended) → l.isWaiting = false →
      l.tracker.active = 0 ∧ l.available = maxConnections) := by
  obtain ⟨hb, hn⟩ := (Balanced.start maxConnections).run (Numbered.start maxConnections) hr
  rw [List.nil_append] at hn
  have hle : l.permits ≤ maxConnections := hb.permits ▸ Nat.le_add_left _ _
  refine ⟨⟨hb.connections, hb.connections ▸ l.connections_le_permits, hle, hb.permits⟩,
    fun id ending l' hm => (hb.close hm).1, ⟨hn.ids, hn.ids ▸ List.pairwise_lt_range'⟩,
    fun w hw => ⟨fun ending h => ?_, fun h => ?_⟩, fun hw m hm => ?_, fun hended hw => ?_⟩
  · obtain ⟨l', hm⟩ := exists_close hw h
    exact ⟨l', hm, (hb.close hm).2⟩
  · obtain ⟨l', hm, htracker, havailable⟩ := exists_depart hw h
    exact ⟨l', hm, htracker, hb.give_back hm havailable⟩
  · obtain ⟨l', hm, htracker, havailable⟩ := hb.exists_stop_waiting hw hm
    exact ⟨l', hm, htracker, hb.give_back hm havailable⟩
  · have hpermits : l.permits = 0 := by
      unfold Listener.permits
      rw [hw, Bool.toNat_false, Nat.add_zero, List.countP_eq_zero]
      intro w hmem
      rw [hended w hmem]
      exact Bool.false_ne_true
    have hactive : l.tracker.active ≤ l.permits := hb.connections ▸ l.connections_le_permits
    have hfull := hb.permits
    omega

/-- Two permits, and each way in which one comes back: a failed wait, all ends of workers, and the listener shut while
it waits. -/
theorem permits_balance_at_shut :
    let ms := [.acquire, .acceptFails, .acquire, .accept, .acquire, .accept, .receive 1, .close 2 .timedOut,
      .close 1 .answered, .depart 2, .acquire, .accept, .close 3 .silent, .depart 1, .acquire, .accept, .depart 3,
      .receive 4, .acquire, .accept, .close 4 .unsent, .close 5 .unreadable, .depart 5, .acquire, .shut, .depart 4]
    ∃ l, run? (start 2) ms = some l ∧ l.workers.map Worker.id = [1, 2, 3, 4, 5] ∧ l.tracker.active = 0 ∧
      l.available = 2 := by
  intro ms
  have hsome : (run? (start 2) ms).map (fun l => (l.workers.map Worker.stage, l.isWaiting)) =
      some (List.replicate 5 .ended, false) := by decide
  obtain ⟨l, hr, hl⟩ := Option.map_eq_some_iff.1 hsome
  obtain ⟨hstages, hw⟩ := Prod.mk.inj hl
  have hended : ∀ w ∈ l.workers, w.stage = .ended := fun w hmem =>
    List.eq_of_mem_replicate (hstages ▸ List.mem_map_of_mem hmem)
  obtain ⟨-, -, hids, -, -, hend⟩ := permits_balance hr
  exact ⟨l, hr, hids.1, hend hended hw⟩

end Listener

end SessionRouting
