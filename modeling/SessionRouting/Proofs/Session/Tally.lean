/-
The sessions of one key over whole runs. The entry of a key is a tally: nothing, or a backend with a number of
sessions, which is never zero. `Tally.Step` is a machine that changes it, and every command makes one of its
steps, whatever else is going on.
-/
import SessionRouting.Proofs.Session.Loss

namespace SessionRouting

open Health

variable {σ : Type}

/-! ## The machine -/

/-- The entry of a key in short: its backend and the number of its sessions. -/
abbrev Tally := Option (String × Nat)

/-- The steps that commands make on the tally of a key, with their results. A backend holds if a check of it
says that it is reachable. -/
inductive Tally.Step (k : Session.Key) (holds : String → Bool) :
    Command → Except Refusal Completion → Tally → Tally → Prop
  | stay {b : String} {n : Nat} (hb : holds b = true) :
    Step k holds (.connect k.user k.target) (.ok { reply := .simple b }) (some (b, n)) (some (b, n + 1))
  | move {c : String} {t : Tally} (ht : ∀ b n, t = some (b, n) → holds b = false) :
    Step k holds (.connect k.user k.target) (.ok { reply := .simple c }) t (some (c, 1))
  | fail {f : Routing.Fault} {t : Tally} (ht : ∀ b n, t = some (b, n) → holds b = false) :
    Step k holds (.connect k.user k.target) (.error (.routing f)) t t
  | leave {b : String} {n : Nat} :
    Step k holds (.disconnect k.user k.target) (.ok .quiet) (some (b, n + 2)) (some (b, n + 1))
  | close {b : String} : Step k holds (.disconnect k.user k.target) (.ok .quiet) (some (b, 1)) none
  | absent : Step k holds (.disconnect k.user k.target) (.ok (.quiet (some (.unknownSession k)))) none none
  | other {c : Command} {x : Except Refusal Completion} {t : Tally} (h1 : c ≠ .connect k.user k.target)
    (h2 : c ≠ .disconnect k.user k.target) : Step k holds c x t t

/-- No step leaves a tally of zero. -/
theorem Tally.Step.pos {k : Session.Key} {holds : String → Bool} {c : Command} {x : Except Refusal Completion}
    {t t' : Tally} (hs : Step k holds c x t t') (ht : ∀ b n, t = some (b, n) → 1 ≤ n) :
    ∀ b n, t' = some (b, n) → 1 ≤ n := by
  cases hs with
  | stay | move | leave =>
    rintro b n ⟨⟩
    omega
  | fail => exact ht
  | close | absent =>
    rintro b n ⟨⟩
  | other => exact ht

/-- A step on a backend that holds counts sessions up and down, and a new one goes to that backend. -/
theorem Tally.Step.count_of_holding {k : Session.Key} {holds : String → Bool} {c : Command}
    {x : Except Refusal Completion} {b : String} {n : Nat} {t : Tally} (hs : Step k holds c x (some (b, n)) t)
    (hn : n ≠ 0) (hb : c = .connect k.user k.target → holds b = true) :
    (∃ m, m + [c].count (.disconnect k.user k.target) = n + [c].count (.connect k.user k.target) ∧
      t = if m = 0 then none else some (b, m)) ∧
    (c = .connect k.user k.target → x = .ok { reply := .simple b }) := by
  cases hs with
  | stay => exact ⟨⟨n + 1, by simp, (if_neg (by omega)).symm⟩, fun _ => rfl⟩
  | move ht => exact absurd (hb rfl) (by simp [ht b n rfl])
  | fail ht => exact absurd (hb rfl) (by simp [ht b n rfl])
  | @leave _ m => exact ⟨⟨m + 1, by simp, (if_neg (by omega)).symm⟩, nofun⟩
  | close => exact ⟨⟨0, by simp, rfl⟩, nofun⟩
  | other h1 h2 => exact ⟨⟨n, by simp [h1, h2], (if_neg hn).symm⟩, fun h => absurd h h1⟩

/-! ## Entries -/

namespace Service

/-- The tally of a key. -/
def tally (s : Service σ) (k : Session.Key) : Tally := s.sessions[k]?.map fun e => (e.backend, e.count)

theorem tally_eq_some {s : Service σ} {k : Session.Key} {b : String} {n : Nat} :
    s.tally k = some (b, n) ↔ ∃ e, s.sessions[k]? = some e ∧ e.backend = b ∧ e.count = n := by
  simp [tally, Option.map_eq_some_iff]

theorem getElem?_sessions_insert (sessions : Sessions) (k k' : Session.Key) (e : Session) :
    (sessions.insert k e)[k']? = if k = k' then some e else sessions[k']? := by
  simp [Std.ExtTreeMap.getElem?_insert]

theorem getElem?_sessions_erase (sessions : Sessions) (k k' : Session.Key) :
    (sessions.erase k)[k']? = if k = k' then none else sessions[k']? := by
  simp [Std.ExtTreeMap.getElem?_erase]

theorem tally_congr {s s' : Service σ} {k : Session.Key} (h : s'.sessions[k]? = s.sessions[k]?) :
    s'.tally k = s.tally k := by
  unfold tally
  rw [h]

theorem tally_of_insert {s : Service σ} {sessions : Sessions} {k : Session.Key} {e : Session}
    (h : s.sessions = sessions.insert k e) : s.tally k = some (e.backend, e.count) := by
  unfold tally
  rw [h, getElem?_sessions_insert, if_pos rfl]
  rfl

theorem tally_of_erase {s : Service σ} {sessions : Sessions} {k : Session.Key} (h : s.sessions = sessions.erase k) :
    s.tally k = none := by
  unfold tally
  rw [h, getElem?_sessions_erase, if_pos rfl]
  rfl

variable [World σ]

/-- Whether a check of the backend says now that it is reachable. -/
def holds (s : Service σ) (b : String) : Bool := ((Watch.check b).run s.watch).1

theorem Unheld.not_holds {k : Session.Key} {s : Service σ} {h : Watch σ} (hu : Unheld k s h) :
    ∀ e, s.sessions[k]? = some e → s.holds e.backend = false := by
  intro e he
  cases hu with
  | absent he' => exact absurd (he'.symm.trans he) (by simp)
  | lost he' hb =>
    obtain rfl := Option.some.inj (he'.symm.trans he)
    unfold holds
    rw [hb]

/-- A new session is one more on a backend that holds, or the first one on another choice. -/
theorem Resolved.ok_sessions {r : Router} {k : Session.Key} {s s' : Service σ} {b : String}
    (hx : Resolved r k s (.ok b) s') :
    (∃ e m, s.sessions[k]? = some e ∧ s.holds e.backend = true ∧ e.backend = b ∧
      s'.sessions = s.sessions.insert k { e with count := e.count + 1, lastActive := m }) ∨
    ((∀ e, s.sessions[k]? = some e → s.holds e.backend = false) ∧
      ∃ m, s'.sessions = s.sessions.insert k { backend := b, count := 1, lastActive := m }) := by
  cases hx with
  | @held e h he hb => exact .inl ⟨e, _, he, by unfold holds; rw [hb], rfl, rfl⟩
  | routed hu _ hs => exact .inr ⟨hu.not_holds, _, hs⟩

theorem Resolved.error_sessions {r : Router} {k : Session.Key} {s s' : Service σ} {f : Routing.Fault}
    (hx : Resolved r k s (.error f) s') :
    (∀ e, s.sessions[k]? = some e → s.holds e.backend = false) ∧ s'.sessions = s.sessions := by
  cases hx with
  | failed hu _ => exact ⟨hu.not_holds, rfl⟩

/-- The entry of a key stays as it is when a command fails or is not about the key. -/
theorem Executed.entry_eq {r : Router} {s s' : Service σ} {c : Command} {x : Except Refusal Completion}
    (hx : Executed r s c x s') {k : Session.Key} (hk : x.isOk = true → c ≠ .connect k.user k.target)
    (hk' : c ≠ .disconnect k.user k.target) : s'.sessions[k]? = s.sessions[k]? := by
  cases hx with
  | @connected user target b _ hr =>
    have hne : (⟨user, target⟩ : Session.Key) ≠ k := by
      rintro rfl
      exact hk rfl rfl
    rcases hr.ok_sessions with ⟨e, m, -, -, -, hs⟩ | ⟨-, m, hs⟩
    · rw [hs, getElem?_sessions_insert, if_neg hne]
    · rw [hs, getElem?_sessions_insert, if_neg hne]
  | refused hr => rw [hr.error_sessions.2]
  | @disconnected user target n _ hr =>
    have hne : (⟨user, target⟩ : Session.Key) ≠ k := by
      rintro rfl
      exact hk' rfl
    cases hr with
    | last => rw [getElem?_sessions_erase, if_neg hne]
    | remaining => rw [getElem?_sessions_insert, if_neg hne]
  | _ => rfl

/-- A `connect` that succeeds makes a step of the machine. -/
theorem Resolved.tally_step {r : Router} {s s' : Service σ} {k : Session.Key} {b : String}
    (hx : Resolved r k s (.ok b) s') :
    Tally.Step k s.holds (.connect k.user k.target) (.ok { reply := .simple b }) (s.tally k) (s'.tally k) := by
  rcases hx.ok_sessions with ⟨e, m, he, hb, rfl, hs⟩ | ⟨hn, m, hs⟩
  · rw [tally_eq_some.2 ⟨e, he, rfl, rfl⟩, tally_of_insert hs]
    exact .stay hb
  · rw [tally_of_insert hs]
    refine .move fun b' n ht => ?_
    obtain ⟨e, he, rfl, -⟩ := tally_eq_some.1 ht
    exact hn e he

/-- The end of a session makes a step of the machine. -/
theorem Released.tally_step {s s' : Service σ} {k : Session.Key} {n : Nat} (hx : Released k s (.ok n) s')
    (hpos : ∀ b n, s.tally k = some (b, n) → 1 ≤ n) :
    Tally.Step k s.holds (.disconnect k.user k.target) (.ok .quiet) (s.tally k) (s'.tally k) := by
  cases hx with
  | @last e he hn =>
    have ht : s.tally k = some (e.backend, e.count) := tally_eq_some.2 ⟨e, he, rfl, rfl⟩
    have hone : e.count = 1 := by
      have := hpos _ _ ht
      omega
    rw [ht, hone, tally_of_erase rfl]
    exact .close
  | @remaining e he hn =>
    obtain ⟨n, hcount⟩ : ∃ n, e.count = n + 2 := ⟨e.count - 2, by omega⟩
    rw [tally_eq_some.2 ⟨e, he, rfl, hcount⟩, tally_of_insert rfl, hcount]
    exact .leave

/-- Every command makes a step of the machine. -/
theorem Executed.tally_step {r : Router} {s s' : Service σ} {c : Command} {x : Except Refusal Completion}
    (hx : Executed r s c x s') {k : Session.Key} (hpos : ∀ b n, s.tally k = some (b, n) → 1 ≤ n) :
    Tally.Step k s.holds c x (s.tally k) (s'.tally k) := by
  by_cases hc : c = .connect k.user k.target
  · subst hc
    cases hx with
    | connected hr => exact hr.tally_step
    | refused hr =>
      rw [tally_congr (congrArg (·[k]?) hr.error_sessions.2)]
      refine .fail fun b n ht => ?_
      obtain ⟨e, he, rfl, -⟩ := tally_eq_some.1 ht
      exact hr.error_sessions.1 e he
  by_cases hd : c = .disconnect k.user k.target
  · subst hd
    cases hx with
    | disconnected hr => exact hr.tally_step hpos
    | unknownSession he =>
      rw [show s.tally k = none from by rw [tally, he]; rfl]
      exact .absent
  · rw [tally_congr (hx.entry_eq (fun _ => hc) hd)]
    exact .other hc hd

/-! ## Runs -/

/-- No tally in a run is zero. -/
theorem tally_pos (p : Policy) (interval : Nat) (w : σ) (cmds : List (Command × Directory)) (k : Session.Key) :
    ∀ b n, (after p (fresh interval w) cmds).tally k = some (b, n) → 1 ≤ n := by
  induction cmds using List.reverseRecOn with
  | nil => simp [tally, fresh]
  | append_singleton cmds cmd ih =>
    rw [after_concat]
    exact ((executed ⟨p, cmd.2⟩ _ cmd.1).tally_step ih).pos ih

/-- While the backend of an entry holds, every new session goes to it, and the tally counts sessions begun
and ended. -/
theorem tally_of_holding (p : Policy) {s : Service σ} {k : Session.Key} {b : String} {n₀ : Nat} (hn : 1 ≤ n₀)
    (hs : s.tally k = some (b, n₀)) (cmds : List (Command × Directory))
    (hc : ∀ pre c d post, cmds = pre ++ (c, d) :: post → (after p s pre).tally k ≠ none ∧
      (c = .connect k.user k.target → (after p s pre).holds b = true)) :
    (∃ n, n + (cmds.map Prod.fst).count (.disconnect k.user k.target) =
        n₀ + (cmds.map Prod.fst).count (.connect k.user k.target) ∧
      (after p s cmds).tally k = if n = 0 then none else some (b, n)) ∧
    ∀ pre d post, cmds = pre ++ (.connect k.user k.target, d) :: post →
      result ⟨p, d⟩ (after p s pre) (.connect k.user k.target) = .ok { reply := .simple b } := by
  -- the last command makes one step on the tally that the commands before it have left
  induction cmds using List.reverseRecOn with
  | nil =>
    refine ⟨⟨n₀, rfl, ?_⟩, by simp⟩
    rw [after_nil, hs, if_neg (by omega)]
  | append_singleton cmds cmd ih =>
    obtain ⟨c, d⟩ := cmd
    obtain ⟨⟨n, hcount, htally⟩, hreply⟩ := ih fun pre c' d' post hsplit =>
      hc pre c' d' (post ++ [(c, d)]) (by rw [hsplit, List.append_assoc, List.cons_append])
    obtain ⟨hopen, hholds⟩ := hc cmds c d [] rfl
    have hn0 : n ≠ 0 := by
      rintro rfl
      exact hopen (htally.trans (if_pos rfl))
    rw [if_neg hn0] at htally
    -- zero is not reached before the last command
    have hpos : ∀ b' m, (after p s cmds).tally k = some (b', m) → 1 ≤ m := by
      intro b' m hm
      obtain ⟨-, rfl⟩ := Prod.mk.inj (Option.some.inj (htally.symm.trans hm))
      omega
    have hstep := (executed ⟨p, d⟩ (after p s cmds) c).tally_step hpos
    rw [htally] at hstep
    obtain ⟨⟨m, hm, hnext⟩, hlast⟩ := hstep.count_of_holding hn0 hholds
    refine ⟨⟨m, ?_, (congrArg (tally · k) (after_concat ..)).trans hnext⟩, fun pre d' post hsplit => ?_⟩
    · simp only [List.map_append, List.map_cons, List.map_nil, List.count_append]
      omega
    · rcases eq_or_split_of_concat hsplit with ⟨rfl, ⟨⟩, -⟩ | ⟨post', hsplit', -⟩
      · exact hlast rfl
      · exact hreply pre d' post' hsplit'

/-- The tally of a key over a run, whatever the directory answers meanwhile. It is nothing at first and never zero,
and every command makes a step of the machine on it; a command that fails or is not about the key leaves the whole
entry as it is. While the backend of an entry holds and the entry lasts, every new session goes to that backend,
and the tally is the number of sessions begun less those ended. A `connect` that does not find the backend
reachable does not come back to it, under a clock that never goes back and moves on by no more than the interval
meanwhile: it neither answers with that backend nor probes it twice. -/
theorem tally_after (p : Policy) (interval : Nat) (w : σ) (cmds : List (Command × Directory)) (k : Session.Key) :
    let s := after p (fresh interval w) cmds
    let connect : Command := .connect k.user k.target
    let disconnect : Command := .disconnect k.user k.target
    (fresh interval w).tally k = none ∧
    (∀ b n, s.tally k = some (b, n) → 1 ≤ n) ∧
    (∀ r c, Tally.Step k s.holds c (result r s c) (s.tally k) ((next r s c).tally k) ∧
      (((result r s c).isOk = true → c ≠ connect) → c ≠ disconnect →
        (next r s c).sessions[k]? = s.sessions[k]?)) ∧
    (∀ b n₀ more, s.tally k = some (b, n₀) →
      (∀ pre c d post, more = pre ++ (c, d) :: post → (after p s pre).tally k ≠ none ∧
        (c = connect → (after p s pre).holds b = true)) →
      (∃ n, n + (more.map Prod.fst).count disconnect = n₀ + (more.map Prod.fst).count connect ∧
        (after p s more).tally k = if n = 0 then none else some (b, n)) ∧
      ∀ pre d post, more = pre ++ (connect, d) :: post →
        result ⟨p, d⟩ (after p s pre) connect = .ok { reply := .simple b }) ∧
    (World.Steady σ → ∀ r b n, s.tally k = some (b, n) → s.holds b = false →
      (World.time (next r s connect).watch.world).nanos - (World.time s.watch.world).nanos ≤ interval →
      result r s connect ≠ .ok { reply := .simple b } ∧
        (next r s connect).watch.trace.probes.count b ≤ s.watch.trace.probes.count b + 1) := by
  intro s connect disconnect
  have hpos : ∀ b n, s.tally k = some (b, n) → 1 ≤ n := tally_pos p interval w cmds k
  refine ⟨rfl, hpos, fun r c => ⟨(executed r s c).tally_step hpos, (executed r s c).entry_eq⟩, ?_, ?_⟩
  · intro b n₀ more hs hc
    exact tally_of_holding p (hpos b n₀ hs) hs more hc
  · intro _ r b n hs hb ht
    obtain ⟨e, he, rfl, -⟩ := tally_eq_some.1 hs
    refine connect_of_not_holding he hb ?_
    rw [show s.watch.interval = interval from interval_after p interval w cmds]
    exact ht

/-- A key moves to the second candidate when the first one is reported to fail after two sessions. The second session
is found without the directory, which does not know the user any more. -/
example : (after (.flat ["h1:22", "h2:22"]) (fresh 100 (⟨0⟩ : Script (· != 6))) [
    (.connect "alice" "svc:22", .groupless), (.connect "alice" "svc:22", .ofMembers ∅),
    (.failure "h1:22", .groupless), (.connect "alice" "svc:22", .groupless)]).tally ⟨"alice", "svc:22"⟩ =
      some ("h2:22", 1) := by
  decide +kernel

end Service

end SessionRouting
