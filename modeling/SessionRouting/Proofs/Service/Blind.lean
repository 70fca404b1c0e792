/-
What the service does not depend on. No operation of the service reads the trace, or anything of the world but its
answers, so that it gives the same result and makes the same changes whatever the trace is, and over another world that
answers alike: from the other state it does what it does from the first one (`Mirrors`).

The handoff adds events of its own to the trace of the service, and `Service.own` leaves them out, which is such a
change of the trace (`blind_process_own`). Another one is to have the trace begin with other events, so that the result
of a command depends on no event at all: `result_congr`.
-/
import SessionRouting.Proofs.Service.Deeds

namespace SessionRouting

open Health Program

/-! ## Programs that are blind to something -/

namespace Program

variable {S S' α β : Type} {f : S → S'}

/-- A program gives the same result from `f s` as another one from `s`, and it does not matter whether `f` is applied
before the one or after the other. -/
def Mirrors (f : S → S') (x : StateM S α) (y : StateM S' α) : Prop :=
  ∀ s, y.run (f s) = ((x.run s).1, f (x.run s).2)

/-- A program that gives the same result from `s` as from `f s`, and for which it does not matter whether `f`
is applied before or after it. -/
def Blind (f : S → S) (x : StateM S α) : Prop :=
  ∀ s, x.run (f s) = ((x.run s).1, f (x.run s).2)

namespace Mirrors

theorem pure (a : α) : Mirrors f (Pure.pure a) (Pure.pure a) := fun _ => rfl

theorem bind {x : StateM S α} {y : StateM S' α} {g : α → StateM S β} {g' : α → StateM S' β} (hx : Mirrors f x y)
    (hg : ∀ a, Mirrors f (g a) (g' a)) : Mirrors f (x >>= g) (y >>= g') := by
  intro s
  simp only [run_bind, hx s]
  exact hg _ _

theorem map {x : StateM S α} {y : StateM S' α} (hx : Mirrors f x y) (g : α → β) : Mirrors f (g <$> x) (g <$> y) := by
  intro s
  simp only [run_map, hx s]

/-- What is read of a state is to be met by what is read of its image. -/
theorem get_bind {g : S → StateM S β} {g' : S' → StateM S' β} (hg : ∀ s, Mirrors f (g s) (g' (f s))) :
    Mirrors f (get >>= g) (get >>= g') := fun s => hg s s

theorem forM {l : List α} {g : α → StateM S Unit} {g' : α → StateM S' Unit} (hg : ∀ a, Mirrors f (g a) (g' a)) :
    Mirrors f (l.forM g) (l.forM g') := by
  induction l with
  | nil => exact .pure _
  | cons a l ih => exact .bind (hg a) fun _ => ih

end Mirrors

end Program

/-! ## The events of the handoff -/

/-- Whether an event is one of the handoff. -/
def Event.ofHandoff : Event → Bool
  | discarded _ | draining | stopped => true
  | _ => false

variable {σ σ' : Type}

/-- A change of traces that can be made before or after an event of the service is added. -/
def Trace.Beneath (g : Trace → Trace) : Prop := ∀ e t, e.ofHandoff = false → g (e :: t) = e :: g t

/-- The watch with its trace changed. -/
def Health.Watch.retrace (g : Trace → Trace) (h : Watch σ) : Watch σ := { h with trace := g h.trace }

/-- The service with its trace changed. -/
def Service.retrace (g : Trace → Trace) (s : Service σ) : Service σ := { s with watch := s.watch.retrace g }

/-- The watch over another world, with its trace changed. -/
def Health.Watch.recast (φ : σ → σ') (g : Trace → Trace) (h : Watch σ) : Watch σ' where
  interval := h.interval
  records := h.records
  world := φ h.world
  trace := g h.trace

/-- The service over another world, with its trace changed. -/
def Service.recast (φ : σ → σ') (g : Trace → Trace) (s : Service σ) : Service σ' where
  watch := s.watch.recast φ g
  sessions := s.sessions

/-- The watch without the events of the handoff. -/
def Health.Watch.own (h : Watch σ) : Watch σ :=
  { h with trace := h.trace.filter (!·.ofHandoff) }

/-- The service without the events of the handoff. -/
def Service.own (s : Service σ) : Service σ :=
  { s with watch := s.watch.own }

/-! ## The watch -/

section

variable {φ : σ → σ'} {g : Trace → Trace} (hg : Trace.Beneath g)
include hg

namespace Health.Watch

theorem mirrors_note {e : Event} (he : e.ofHandoff = false) : Mirrors (recast φ g) (note e) (note e) := by
  intro h
  show _ = ((), recast φ g { h with trace := e :: h.trace })
  unfold recast
  rw [hg e h.trace he]
  rfl

theorem mirrors_update (a : String) (r : Record) : Mirrors (recast φ g) (update a r) (update a r) := by
  have hcount : Mirrors (recast φ g) (do note (.hostsTracked (← get).records.size))
      (do note (.hostsTracked (← get).records.size)) :=
    .get_bind fun _ => mirrors_note hg rfl
  refine .get_bind fun h => .bind (fun _ => rfl) fun _ => ?_
  have hold : (h.recast φ g).records = h.records := rfl
  rw [hold]
  split
  · exact .bind (mirrors_note hg rfl) fun _ => hcount
  · exact hcount

omit hg in
/-- A question that is answered alike. -/
theorem mirrors_ask {α : Type} {q : σ → α × σ} {q' : σ' → α × σ'} (hq : ∀ w, q' (φ w) = ((q w).1, φ (q w).2)) :
    Mirrors (recast φ g) (ask q) (ask q') := by
  intro h
  show ((q' (φ h.world)).1, { h.recast φ g with world := (q' (φ h.world)).2 }) = _
  rw [hq]
  rfl

variable [World σ] [World σ'] (hφ : World.Alike φ)
include hφ

omit hg in
theorem mirrors_now : Mirrors (recast φ g) now now := mirrors_ask hφ.now

theorem mirrors_probe (a : String) (cause : Event.Cause) : Mirrors (recast φ g) (probe a cause) (probe a cause) :=
  .bind (mirrors_ask (hφ.probe a)) fun _ => .bind (mirrors_now hφ) fun _ => .bind (mirrors_note hg rfl) fun _ =>
    .bind (mirrors_update hg _ _) fun _ => .pure _

theorem mirrors_check (a : String) : Mirrors (recast φ g) (check a) (check a) := by
  refine .bind (mirrors_now hφ) fun asked => .get_bind fun h => ?_
  have hknown : (h.recast φ g).known a asked = h.known a asked := rfl
  rw [hknown]
  cases h.known a asked with
  | some answer => exact .bind (.pure _) fun _ => .bind (mirrors_note hg rfl) fun _ => .pure _
  | none => exact .bind (.map (mirrors_probe hg hφ _ _) _) fun _ => .bind (mirrors_note hg rfl) fun _ => .pure _

end Health.Watch

variable [World σ] [World σ'] (hφ : World.Alike φ)
include hφ

/-! ## Routing -/

namespace Routing

theorem mirrors_firstReachable (strategy : Strategy) (order : List String) :
    Mirrors (Watch.recast φ g)
      (Selection.firstReachable Watch.check (fun c => Watch.note (.skipped c strategy)) order)
      (Selection.firstReachable Watch.check (fun c => Watch.note (.skipped c strategy)) order) := by
  induction order with
  | nil => exact .pure _
  | cons c cs ih =>
    refine .bind (Watch.mirrors_check hg hφ c) fun reachable => ?_
    cases reachable with
    | true => exact .pure _
    | false => exact .bind (Watch.mirrors_note hg rfl) fun _ => ih

theorem mirrors_select (strategy : Strategy) (candidates : List String) :
    Mirrors (Watch.recast φ g) (select strategy candidates) (select strategy candidates) := by
  refine .bind ?_ fun order => mirrors_firstReachable hg hφ strategy order
  cases strategy with
  | ordered => exact .pure _
  | random => exact Watch.mirrors_ask (hφ.shuffle candidates)

theorem mirrors_route (r : Router) (user target : String) :
    Mirrors (Watch.recast φ g) (route r user target) (route r user target) := by
  refine .bind (.forM fun _ => Watch.mirrors_note hg rfl) fun _ => ?_
  split
  · exact .pure _
  · refine .bind (Watch.mirrors_note hg rfl) fun _ => .bind (mirrors_select hg hφ _ _) fun chosen => ?_
    cases chosen <;> exact .pure _

end Routing

/-! ## The service -/

namespace Service

omit hg hφ [World σ] [World σ'] in
theorem mirrors_watching {α : Type} {x : StateM (Watch σ) α} {y : StateM (Watch σ') α}
    (hx : Mirrors (Watch.recast φ g) x y) : Mirrors (recast φ g) (watching x) (watching y) := by
  intro s
  show ((y.run (s.watch.recast φ g)).1,
    ({ s.recast φ g with watch := (y.run (s.watch.recast φ g)).2 } : Service σ')) = _
  rw [hx]
  rfl

omit hφ [World σ] [World σ'] in
theorem mirrors_note {e : Event} (he : e.ofHandoff = false) : Mirrors (recast φ g) (note e) (note e) :=
  mirrors_watching (Watch.mirrors_note hg he)

omit hg hφ [World σ] [World σ'] in
theorem mirrors_put (key : Session.Key) (entry : Session) : Mirrors (recast φ g) (put key entry) (put key entry) :=
  fun _ => rfl

omit hg hφ [World σ] [World σ'] in
theorem mirrors_remove (key : Session.Key) : Mirrors (recast φ g) (remove key) (remove key) := fun _ => rfl

omit hφ [World σ] [World σ'] in
theorem mirrors_noteEntries : Mirrors (recast φ g) noteEntries noteEntries :=
  .get_bind fun _ => mirrors_note hg rfl

theorem mirrors_reuse (key : Session.Key) : Mirrors (recast φ g) (reuse key) (reuse key) := by
  refine .get_bind fun s => ?_
  have hentry : (s.recast φ g).sessions[key]? = s.sessions[key]? := rfl
  rw [hentry]
  cases s.sessions[key]? with
  | none => exact .pure _
  | some e =>
    refine .bind (mirrors_watching (Watch.mirrors_check hg hφ _)) fun reachable => ?_
    cases reachable with
    | true =>
      exact .bind (mirrors_watching (Watch.mirrors_now hφ)) fun _ => .bind (mirrors_put _ _) fun _ =>
        .bind (mirrors_note hg rfl) fun _ => .pure _
    | false =>
      refine .bind (mirrors_note hg rfl) fun _ => .get_bind fun s => ?_
      have hdisabled : (s.recast φ g).watch.isDisabled e.backend = s.watch.isDisabled e.backend := rfl
      rw [hdisabled]
      cases s.watch.isDisabled e.backend with
      | true => exact .pure _
      | false =>
        exact .bind (mirrors_watching (Watch.mirrors_now hφ)) fun _ =>
          .bind (mirrors_watching (Watch.mirrors_update hg _ _)) fun _ => .pure _

theorem mirrors_resolve (r : Router) (key : Session.Key) :
    Mirrors (recast φ g) (resolve r key) (resolve r key) := by
  refine .bind (mirrors_reuse hg hφ key) fun held => ?_
  cases held with
  | some b => exact .pure _
  | none =>
    refine .bind (mirrors_watching (Routing.mirrors_route hg hφ r key.user key.target)) fun found => ?_
    cases found with
    | error f => exact .pure _
    | ok b =>
      exact .bind (mirrors_note hg rfl) fun _ => .bind (mirrors_watching (Watch.mirrors_now hφ)) fun _ =>
        .bind (mirrors_put _ _) fun _ => .bind (mirrors_noteEntries hg) fun _ => .pure _

theorem mirrors_release (key : Session.Key) : Mirrors (recast φ g) (release key) (release key) := by
  refine .get_bind fun s => ?_
  have hentry : (s.recast φ g).sessions[key]? = s.sessions[key]? := rfl
  rw [hentry]
  cases s.sessions[key]? with
  | none => exact .pure _
  | some e =>
    by_cases hn : e.count - 1 = 0
    · simp only [hn, ↓reduceIte]
      exact .bind (mirrors_remove _) fun _ => .bind (mirrors_noteEntries hg) fun _ => .pure _
    · simp only [hn, ↓reduceIte]
      exact .bind (mirrors_watching (Watch.mirrors_now hφ)) fun _ => .bind (mirrors_put _ _) fun _ => .pure _

theorem mirrors_enable (host : String) : Mirrors (recast φ g) (enable host) (enable host) := by
  refine .get_bind fun s => ?_
  have hdisabled : (s.recast φ g).watch.isDisabled host = s.watch.isDisabled host := rfl
  rw [hdisabled]
  cases s.watch.isDisabled host with
  | true => exact .bind (mirrors_watching (Watch.mirrors_probe hg hφ _ _)) fun _ => .pure _
  | false => exact .pure _

theorem mirrors_failure (host : String) : Mirrors (recast φ g) (failure host) (failure host) := by
  refine .get_bind fun s => ?_
  have hdisabled : (s.recast φ g).watch.isDisabled host = s.watch.isDisabled host := rfl
  rw [hdisabled]
  cases s.watch.isDisabled host with
  | true => exact .pure _
  | false =>
    refine .bind (mirrors_watching (Watch.mirrors_probe hg hφ _ _)) fun reachable => ?_
    cases reachable <;> exact .pure _

theorem mirrors_execute (r : Router) (c : Command) : Mirrors (recast φ g) (execute r c) (execute r c) := by
  cases c with
  | connect user target =>
    refine .bind (mirrors_resolve hg hφ r ⟨user, target⟩) fun found => ?_
    cases found <;> exact .pure _
  | disconnect user target =>
    refine .map (.bind (mirrors_release hg hφ ⟨user, target⟩) fun released => ?_) _
    rcases released with ⟨_⟩ | _
    · exact .pure _
    · exact .bind (mirrors_note hg rfl) fun _ => .pure _
  | disable host =>
    exact .map (.bind (mirrors_watching (Watch.mirrors_now hφ)) fun _ =>
      .bind (mirrors_watching (Watch.mirrors_update hg _ _)) fun _ => .pure _) _
  | enable host => exact .map (mirrors_enable hg hφ host) _
  | failure host => exact .map (mirrors_failure hg hφ host) _
  | info topic => exact .map (.get_bind fun _ => .pure _) _

theorem mirrors_perform (r : Router) (line : String) : Mirrors (recast φ g) (perform r line) (perform r line) := by
  unfold perform
  cases Command.parse line with
  | error e => exact .bind (mirrors_note hg rfl) fun _ => .pure _
  | ok c =>
    exact .bind (mirrors_note hg rfl) fun _ => .bind (mirrors_execute hg hφ r c) fun _ =>
      .bind (mirrors_note hg rfl) fun _ => .pure _

/-- A command line is answered in the same way whatever the trace is, and over any world that answers alike. -/
theorem mirrors_process (r : Router) (line : String) : Mirrors (recast φ g) (process r line) (process r line) := by
  refine .bind (mirrors_perform hg hφ r line) fun result => ?_
  cases result with
  | error e => exact .bind (mirrors_note hg rfl) fun _ => .pure _
  | ok completion =>
    refine .bind ?_ fun _ => .pure _
    cases completion.anomaly with
    | none => exact .pure _
    | some a => exact mirrors_note hg rfl

end Service

end

/-! ## Two changes of the trace -/

namespace Service

variable [World σ]

/-- It does not matter what the handoff has noted before. -/
theorem blind_process_own (r : Router) (line : String) :
    Blind own (process r line : StateM (Service σ) (Except Refusal Reply)) :=
  mirrors_process (g := List.filter (!·.ofHandoff)) (fun _ _ he => List.filter_cons_of_pos (by simp [he]))
    World.alike_id r line

/-- The service without a trace. -/
def bare (s : Service σ) : Service σ := s.retrace fun _ => []

omit [World σ] in
theorem bare_of_own {s s' : Service σ} (h : s.own = s'.own) : s.bare = s'.bare := by
  have hown := congrArg bare h
  exact hown

/-- The result of a command does not depend on the trace. -/
theorem result_congr {s s' : Service σ} (h : s.bare = s'.bare) (r : Router) (c : Command) :
    result r s c = result r s' c := by
  have hbare : ∀ s : Service σ, result r s c = result r s.bare c := by
    intro s
    have hself : s.bare.recast id (· ++ s.watch.trace) = s := rfl
    have hrun := mirrors_execute (g := (· ++ s.watch.trace)) (fun _ _ _ => rfl) World.alike_id r c s.bare
    rw [hself] at hrun
    exact (Prod.ext_iff.1 hrun).1
  rw [hbare, h, ← hbare]

end Service

end SessionRouting
