/-
The limits that settings have to keep so that the daemon comes up and can be stopped in order. The check of settings
asks of the two numbers in question only that they are not zero, so that it admits all others. Of settings without
problems the daemon comes up exactly if so many connections can be counted, and it is stopped in order exactly if its
clock can show the time by which connections have to end: `limits_of_no_problems`.
-/
import SessionRouting.Daemon
import SessionRouting.Proofs.Settings.Constraint
import SessionRouting.Proofs.World

namespace SessionRouting

namespace Settings

/-- The settings with these numbers of connections and of seconds for a line. -/
def withLimits (s : Settings) (maxConnections readSecs : Nat) : Settings :=
  { s with listener := { s.listener with maxConnections }, timeouts := { readSecs } }

/-- The check of settings does not bound the two numbers from above. -/
theorem problems_withLimits {s : Settings} (hs : s.problems = []) {maxConnections readSecs : Nat}
    (hc : 0 < maxConnections) (hr : 0 < readSecs) : (s.withLimits maxConnections readSecs).problems = [] := by
  have hc' : (maxConnections == 0) = false := by simpa using Nat.ne_of_gt hc
  have hr' : (readSecs == 0) = false := by simpa using Nat.ne_of_gt hr
  simp only [problems, List.append_eq_nil_iff] at hs
  obtain ⟨⟨⟨⟨⟨⟨⟨⟨⟨haddress, -⟩, hmetrics⟩, hinterval⟩, hprobe⟩, -⟩, hroutes⟩, hpolicy⟩, hgroups⟩, husers⟩ := hs
  simp only [problems, withLimits, hc', hr', haddress, hmetrics, hinterval, hprobe, hroutes, hpolicy, hgroups, husers]
  rfl

end Settings

namespace Daemon

variable {σ : Type} {s : Settings} {p : Policy}

/-- The daemon as it comes up: nothing has been received, and all permits are free. -/
def fresh (s : Settings) (p : Policy) (directory : Directory) (world : σ) : Daemon σ where
  router := { policy := p, directory }
  handoff := { service := .start s.healthCheck.intervalSecs world }
  listener := .start s.listener.maxConnections

/-- With a policy and an address to bind to, the number of connections decides. -/
theorem start_eq (hp : s.compilePolicy = .ok p) {a : Net.SocketAddress}
    (ha : Net.SocketAddress.read? s.listener.bindAddress = some a) (directory : Directory) (world : σ) :
    start s directory world =
      if maxPermits < s.listener.maxConnections then .error .tooManyConnections
      else .ok (fresh s p directory world) := by
  have hrouter : Router.ofSettings s directory = .ok { policy := p, directory } := by
    unfold Router.ofSettings
    rw [hp]
    rfl
  unfold start
  rw [hrouter, ha]
  by_cases hc : maxPermits < s.listener.maxConnections
  · simp only [hc, ↓reduceIte]
    rfl
  · simp only [hc, ↓reduceIte]
    rfl

theorem exists_start_eq (hs : s.problems = []) (directory : Directory) (world : σ) :
    ∃ p, s.compilePolicy = .ok p ∧ start s directory world =
      if maxPermits < s.listener.maxConnections then .error .tooManyConnections
      else .ok (fresh s p directory world) := by
  obtain ⟨p, hp⟩ := faultOf?_eq_none.1 (s.faultOf?_compilePolicy_eq.trans (congrArg _ hs))
  have haddress : s.Imposes (.socketAddress "listener.bind_address" s.listener.bindAddress) := .inl ⟨rfl, rfl⟩
  obtain ⟨a, ha⟩ := Settings.kept_of_problems_eq_nil hs haddress
  exact ⟨p, hp, start_eq hp ha directory world⟩

variable [World σ]

/-- The clock decides whether the daemon can be stopped in order, whatever it has done. -/
theorem stop_eq (s : Settings) (uptime : Nat) (d : Daemon σ) :
    stop s uptime d =
      if uptime + s.timeouts.readSecs ≤ maxClock then
        .ok { d with handoff := ((Handoff.shutDown d.router).run d.handoff).2 }
      else .error .noDeadline := by
  unfold stop deadline?
  by_cases hc : uptime + s.timeouts.readSecs ≤ maxClock
  · simp only [hc, ↓reduceIte]
  · simp only [hc, ↓reduceIte]

/-- What becomes of settings without problems. The daemon comes up, with the policy of the settings, if no more
connections are allowed than can be counted, and for no other reason it does not. It is stopped in order if its clock
can show the time by which connections have to end, and otherwise it is not. The check of settings does not see to
either: it admits the same settings with any two numbers that are not zero. -/
theorem limits_of_no_problems (hs : s.problems = []) (directory : Directory) (world : σ) :
    (s.listener.maxConnections ≤ maxPermits →
      ∃ p, s.compilePolicy = .ok p ∧ start s directory world = .ok (fresh s p directory world)) ∧
    (maxPermits < s.listener.maxConnections → start s directory world = .error .tooManyConnections) ∧
    (∀ uptime (d : Daemon σ),
      (uptime + s.timeouts.readSecs ≤ maxClock → ∃ d', stop s uptime d = .ok d') ∧
      (maxClock < uptime + s.timeouts.readSecs → stop s uptime d = .error .noDeadline)) ∧
    ∀ maxConnections readSecs, 0 < maxConnections → 0 < readSecs →
      (s.withLimits maxConnections readSecs).problems = [] := by
  obtain ⟨p, hp, hstart⟩ := exists_start_eq hs directory world
  refine ⟨fun hc => ⟨p, hp, ?_⟩, fun hc => ?_, fun uptime d => ⟨fun hc => ?_, fun hc => ?_⟩, fun m n hm hn => ?_⟩
  · rw [hstart, if_neg (Nat.not_lt.2 hc)]
  · rw [hstart, if_pos hc]
  · exact ⟨_, (stop_eq s uptime d).trans (if_pos hc)⟩
  · exact (stop_eq s uptime d).trans (if_neg (Nat.not_le.2 hc))
  · exact Settings.problems_withLimits hs hm hn

theorem limits_of_default_route :
    let s : Settings := { policy := { routes := (∅ : Routes).insert Policy.defaultRoute ["h1"] } }
    let w : Script fun _ => true := ⟨0⟩
    s.problems = [] ∧ (∃ d, start s (.ofMembers ∅) w = .ok d ∧ ∃ d', stop s 1 d = .ok d') ∧
      (s.withLimits (maxPermits + 1) maxClock).problems = [] := by
  intro s w
  have hs : s.problems = [] := by decide +kernel
  obtain ⟨hup, -, hstop, hcheck⟩ := limits_of_no_problems hs (.ofMembers ∅) w
  obtain ⟨p, -, hstart⟩ := hup (by decide)
  exact ⟨hs, ⟨_, hstart, (hstop 1 _).1 (by decide)⟩, hcheck _ _ (by decide) (by decide)⟩

/-- The check finds nothing wrong with one connection more than can be counted, under which the daemon does not come
up, nor with the greatest number of seconds that the clock can show, under which it cannot be stopped in order after
its first second. -/
theorem limits_overrun :
    let s : Settings := { policy := { routes := (∅ : Routes).insert Policy.defaultRoute ["h1"] } }
    let crowded : Settings := { s with listener := { maxConnections := 0x2000000000000000 } }
    let patient : Settings := { s with timeouts := { readSecs := 0x7FFFFFFFFFFFFFFF } }
    let w : Script fun _ => true := ⟨0⟩
    crowded.problems = [] ∧ start crowded (.ofMembers ∅) w = .error .tooManyConnections ∧
      patient.problems = [] ∧ ∃ d, start patient (.ofMembers ∅) w = .ok d ∧ stop patient 1 d = .error .noDeadline := by
  intro s crowded patient w
  have hcrowded : crowded.problems = [] := by decide +kernel
  have hpatient : patient.problems = [] := by decide +kernel
  obtain ⟨_, -, hover⟩ := exists_start_eq hcrowded (.ofMembers ∅) w
  obtain ⟨_, -, hup⟩ := exists_start_eq hpatient (.ofMembers ∅) w
  refine ⟨hcrowded, hover.trans (if_pos (by decide)), hpatient, _, hup.trans (if_neg (by decide)), ?_⟩
  exact (stop_eq patient 1 _).trans (if_neg (by decide))

end Daemon

end SessionRouting
