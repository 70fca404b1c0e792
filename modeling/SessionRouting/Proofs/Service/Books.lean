/-
The metrics over whole runs of command lines. `Booked` is the invariant: the lines that are done with are counted by
kind and outcome, the probes by the answers that the world has given, and each gauge shows the number of rows of its
table. The operations of the watch keep the books whatever they do; the service opens and closes entries and gives
their new number in the same go, so that the books are right again when a command is done with.
-/
import SessionRouting.Proofs.Event.Metrics
import SessionRouting.Proofs.Handoff.Order
import SessionRouting.Proofs.Session.Tally

namespace SessionRouting

open Health Metrics Program

/-! ## Programs that keep something -/

namespace Program

variable {S α β : Type} {I : S → Prop}

/-- What holds of the state before the program holds of it afterwards. -/
def Keeps (I : S → Prop) (x : StateM S α) : Prop := ∀ s, I s → I (x.run s).2

namespace Keeps

theorem pure (a : α) : Keeps I (Pure.pure a : StateM S α) := fun _ hs => hs

theorem bind {x : StateM S α} {f : α → StateM S β} (hx : Keeps I x) (hf : ∀ a, Keeps I (f a)) : Keeps I (x >>= f) :=
  fun s hs => hf _ _ (hx s hs)

theorem forM {l : List α} {f : α → StateM S Unit} (hf : ∀ a, Keeps I (f a)) : Keeps I (l.forM f) := by
  induction l with
  | nil => exact .pure _
  | cons a l ih => exact .bind (hf a) fun _ => ih

end Keeps

end Program

variable {σ : Type} [World σ]

/-! ## The watch -/

namespace Health.Watch

/-- The books of a watch: `done` are the lines that are done with, and `entries` is the number of session entries that
was given last, zero if there was none. -/
structure Booked (done : List (Option Command.Kind × Bool)) (entries : Nat) (h : Watch (Ledger σ)) : Prop where
  commands : h.trace.collect Event.executed? = done
  probes : h.trace.collect Event.reachable? = h.world.answers
  sessions : (Gauge.activeSessions.value h.trace).getD 0 = entries
  hosts : (Gauge.trackedHosts.value h.trace).getD 0 = h.records.size

namespace Booked

variable {done : List (Option Command.Kind × Bool)} {entries : Nat} {h : Watch (Ledger σ)}

omit [World σ] in
theorem empty (interval : Nat) (w : σ) : Booked [] 0 { interval, world := ({ world := w } : Ledger σ) } :=
  ⟨rfl, rfl, rfl, rfl⟩

omit [World σ] in
/-- An event that touches no metric is not booked. -/
theorem cons (hb : Booked done entries h) {e : Event} (he : e.isUncounted = true) :
    Booked done entries { h with trace := e :: h.trace } := by
  have hreadings : e.executed? = none ∧ e.reachable? = none ∧ Gauge.of? e = none := by
    cases e <;> simp_all [Event.isUncounted, Event.executed?, Event.reachable?, Gauge.of?]
  obtain ⟨hexecuted, hreachable, hgauge⟩ := hreadings
  refine ⟨?_, ?_, ?_, ?_⟩
  · exact (Trace.collect_of_cons hexecuted _).trans hb.commands
  · exact (Trace.collect_of_cons hreachable _).trans hb.probes
  · simpa [Gauge.value_cons, hgauge] using hb.sessions
  · simpa [Gauge.value_cons, hgauge] using hb.hosts

omit [World σ] in
/-- An update gives the new number of records, whatever it was before. -/
theorem updated (hb : Booked done entries h) (a : String) (r : Record) : Booked done entries (h.updated a r) where
  commands := (h.collect_updated a r (fun _ _ _ => rfl) fun _ => rfl).trans hb.commands
  probes := (h.collect_updated a r (fun _ _ _ => rfl) fun _ => rfl).trans hb.probes
  sessions := by
    unfold Watch.updated
    simp only
    split <;> simpa [Gauge.value_cons, Gauge.of?, Option.filter] using hb.sessions
  hosts := by
    unfold Watch.updated
    simp [Gauge.value_cons, Gauge.of?, Option.filter]

theorem ticked (hb : Booked done entries h) : Booked done entries h.ticked :=
  ⟨hb.commands, hb.probes, hb.sessions, hb.hosts⟩

/-- A probe is booked with the answer that the world writes down. -/
theorem probed (hb : Booked done entries h) (a : String) (cause : Event.Cause) :
    Booked done entries (h.probed a cause) := by
  refine updated ⟨?_, ?_, ?_, ?_⟩ a _
  · exact (Trace.collect_of_cons rfl _).trans hb.commands
  · exact (Trace.collect_cons ..).trans (congrArg (· ++ [h.probeAnswer a]) hb.probes)
  · simpa [probing, Gauge.value_cons, Gauge.of?] using hb.sessions
  · simpa [probing, Gauge.value_cons, Gauge.of?] using hb.hosts

theorem lost (hb : Booked done entries h) (key : Session.Key) (a : String) : Booked done entries (h.lost key a) := by
  unfold Watch.lost
  simp only
  split
  · exact hb.cons rfl
  · exact ((hb.cons rfl).ticked).updated a _

omit [World σ] in
/-- The number of session entries is given anew. -/
theorem entriesOpen (hb : Booked done entries h) (n : Nat) :
    Booked done n { h with trace := .entriesOpen n :: h.trace } where
  commands := (Trace.collect_of_cons rfl _).trans hb.commands
  probes := (Trace.collect_of_cons rfl _).trans hb.probes
  sessions := by simp [Gauge.value_cons, Gauge.of?, Option.filter]
  hosts := by simpa [Gauge.value_cons, Gauge.of?, Option.filter] using hb.hosts

omit [World σ] in
/-- One more line is done with. -/
theorem executed (hb : Booked done entries h) (kind : Option Command.Kind) (ok : Bool) :
    Booked (done ++ [(kind, ok)]) entries { h with trace := .executed kind ok :: h.trace } where
  commands := (Trace.collect_cons ..).trans (congrArg (· ++ [(kind, ok)]) hb.commands)
  probes := (Trace.collect_of_cons rfl _).trans hb.probes
  sessions := by simpa [Gauge.value_cons, Gauge.of?] using hb.sessions
  hosts := by simpa [Gauge.value_cons, Gauge.of?] using hb.hosts

end Booked

variable (done : List (Option Command.Kind × Bool)) (entries : Nat)

omit [World σ] in
theorem keeps_note {e : Event} (he : e.isUncounted = true) :
    Keeps (Booked done entries) (note e : StateM (Watch (Ledger σ)) Unit) := fun _ hb => hb.cons he

theorem keeps_check (a : String) : Keeps (Booked done entries) (check a : StateM (Watch (Ledger σ)) Bool) := by
  intro h hb
  cases hk : h.known a (World.time h.world) with
  | some answer =>
    rw [run_check_of_known hk]
    exact hb.ticked.cons rfl
  | none =>
    rw [run_check_of_unknown hk]
    exact (hb.ticked.probed a _).cons rfl

end Health.Watch

namespace Routing

variable (done : List (Option Command.Kind × Bool)) (entries : Nat)

theorem keeps_firstReachable (strategy : Strategy) (order : List String) :
    Keeps (Watch.Booked done entries) (Selection.firstReachable Watch.check
      (fun c => Watch.note (.skipped c strategy)) order : StateM (Watch (Ledger σ)) (Option String)) := by
  induction order with
  | nil => exact .pure _
  | cons c cs ih =>
    refine .bind (Watch.keeps_check done entries c) fun reachable => ?_
    cases reachable with
    | true => exact .pure _
    | false => exact .bind (Watch.keeps_note done entries rfl) fun _ => ih

theorem keeps_select (strategy : Strategy) (candidates : List String) :
    Keeps (Watch.Booked done entries) (select strategy candidates : StateM (Watch (Ledger σ)) (Option String)) := by
  refine .bind ?_ fun order => keeps_firstReachable done entries strategy order
  cases strategy with
  | ordered => exact .pure _
  | random => exact fun _ hb => ⟨hb.commands, hb.probes, hb.sessions, hb.hosts⟩

theorem keeps_route (r : Router) (user target : String) :
    Keeps (Watch.Booked done entries) (route r user target : StateM (Watch (Ledger σ)) (Except Fault String)) := by
  refine .bind (.forM fun _ => Watch.keeps_note done entries rfl) fun _ => ?_
  split
  · exact .pure _
  · refine .bind (Watch.keeps_note done entries rfl) fun _ => .bind (keeps_select done entries _ _) fun chosen => ?_
    cases chosen <;> exact .pure _

end Routing

/-! ## Commands -/

namespace Service

/-- The books of the service: the number of session entries that was given last is right. -/
def Booked (done : List (Option Command.Kind × Bool)) (s : Service (Ledger σ)) : Prop :=
  s.watch.Booked done s.sessions.size

variable {done : List (Option Command.Kind × Bool)} {s : Service (Ledger σ)}

omit [World σ] in
/-- An entry that is written anew does not change their number. -/
theorem size_insert_of_getElem? {sessions : Sessions} {key : Session.Key} {e : Session}
    (he : sessions[key]? = some e) (e' : Session) : (sessions.insert key e').size = sessions.size := by
  have hmem : sessions.contains key = true := by
    rw [Std.ExtTreeMap.contains_eq_isSome_getElem?, he]
    rfl
  rw [Std.ExtTreeMap.size_insert, if_pos hmem]

/-- A new session without a backend that the key has: routing keeps the books, and the new entry is told. -/
theorem booked_resolve_of_unheld (r : Router) {key : Session.Key} {h : Watch (Ledger σ)}
    (hb : h.Booked done s.sessions.size) (hx : (reuse key).run s = (none, { s with watch := h })) :
    Booked done ((resolve r key).run s).2 := by
  have hr := Routing.keeps_route done s.sessions.size r key.user key.target h hb
  unfold resolve
  simp only [Program.run_bind, hx, run_watching]
  cases ((Routing.route r key.user key.target).run h).1 with
  | ok b => exact (hr.cons rfl).ticked.entriesOpen _
  | error f => exact hr

theorem booked_resolve (r : Router) (key : Session.Key) (hb : Booked done s) :
    Booked done ((resolve r key).run s).2 := by
  cases he : s.sessions[key]? with
  | none => exact booked_resolve_of_unheld r hb (reuse_of_none he)
  | some e =>
    have hcheck := Watch.keeps_check done s.sessions.size e.backend s.watch hb
    cases hanswer : ((Watch.check e.backend).run s.watch).1 with
    | false => exact booked_resolve_of_unheld r (hcheck.lost key _) (reuse_of_false he (Prod.ext hanswer rfl))
    | true =>
      unfold resolve
      simp only [Program.run_bind, reuse_of_true he (Prod.ext hanswer rfl), Program.run_pure]
      unfold Booked
      rw [size_insert_of_getElem? he]
      exact hcheck.ticked.cons rfl

theorem Released.booked {key : Session.Key} {x : Except Session.Fault Nat} {s' : Service (Ledger σ)}
    (hx : Released key s x s') (hb : Booked done s) : Booked done s' := by
  cases hx with
  | unknown => exact hb
  | last => exact Watch.Booked.entriesOpen hb _
  | remaining he =>
    unfold Booked
    rw [size_insert_of_getElem? he]
    exact Watch.Booked.ticked hb

/-- All commands but `connect` keep the books, whatever they come to. -/
theorem Executed.booked {r : Router} {c : Command} {x : Except Refusal Completion} {s' : Service (Ledger σ)}
    (hx : Executed r s c x s') (hc : c.kind ≠ .connect) (hb : Booked done s) : Booked done s' := by
  cases hx with
  | connected => exact absurd rfl hc
  | refused => exact absurd rfl hc
  | disconnected hr => exact Watch.Booked.cons (hr.booked hb) rfl
  | @disabled host => exact (Watch.Booked.ticked hb).updated host _
  | @enabled host => exact Watch.Booked.probed hb host _
  | @failureDisputed host => exact Watch.Booked.probed hb host _
  | @failureConfirmed host => exact Watch.Booked.probed hb host _
  | unknownSession | notDisabled | alreadyDisabled | listed => exact hb

/-- Every command keeps the books. -/
theorem booked_next (r : Router) (c : Command) (hb : Booked done s) : Booked done (next r s c) := by
  cases c with
  | connect user target =>
    have hx := booked_resolve r ⟨user, target⟩ hb
    unfold next execute connect
    simp only [Program.run_bind]
    cases ((resolve r ⟨user, target⟩).run s).1 <;> exact hx
  | _ => exact (executed r s _).booked (by simp [Command.kind]) hb

/-! ## Lines -/

section

variable {σ' : Type} [World σ']

/-- The command that a line gives, and what it comes to. -/
def execution? (r : Router) (s : Service σ) (line : String) : Option (Command × Except Refusal Completion) :=
  match Command.parse line with
  | .ok c => some (c, result r s c)
  | .error _ => none

/-- What lines give and come to, one after the other, each with the directory as it answers meanwhile. -/
def executions (p : Policy) (s : Service σ) :
    List (String × Directory) → List (Option (Command × Except Refusal Completion))
  | [] => []
  | (line, d) :: lines => execution? ⟨p, d⟩ s line :: executions p (answered ⟨p, d⟩ s line) lines

/-- A line is counted by the kind of its command and by whether that went well. -/
def label : Option (Command × Except Refusal Completion) → Option Command.Kind × Bool
  | some (c, x) => (some c.kind, x.isOk)
  | none => (none, false)

theorem length_executions (p : Policy) (s : Service σ) (lines : List (String × Directory)) :
    (executions p s lines).length = lines.length := by
  induction lines generalizing s with
  | nil => rfl
  | cons line lines ih => exact congrArg Nat.succ (ih _)

/-- Nothing comes of the lines that are no command, and of no others. -/
theorem count_none_executions (p : Policy) (s : Service σ) (lines : List (String × Directory)) :
    (executions p s lines).count none = lines.countP fun line => !(Command.parse line.1).isOk := by
  induction lines generalizing s with
  | nil => rfl
  | cons line lines ih =>
    rw [executions, List.count_cons, List.countP_cons, ih]
    unfold execution?
    cases Command.parse line.1 <;> rfl

theorem count_label_none (l : List (Option (Command × Except Refusal Completion))) :
    (l.map label).count (none, false) = l.count none := by
  unfold List.count
  rw [List.countP_map]
  refine List.countP_congr fun run _ => ?_
  cases run <;> simp [label]

theorem count_label_some (l : List (Option (Command × Except Refusal Completion))) (kind : Command.Kind) (ok : Bool) :
    (l.map label).count (some kind, ok) = l.countP (·.any fun run => run.1.kind = kind && run.2.isOk == ok) := by
  unfold List.count
  rw [List.countP_map]
  refine List.countP_congr fun run _ => ?_
  cases run <;> simp [label]

/-- No command but `connect` fails. -/
theorem Executed.kind_of_error {r : Router} {s s' : Service σ} {c : Command} {e : Refusal}
    (hx : Executed r s c (.error e) s') : c.kind = .connect := by
  cases hx with
  | refused => rfl

theorem kind_of_error_executions {p : Policy} {s : Service σ} {lines : List (String × Directory)} {c : Command}
    {e : Refusal} (hc : some (c, .error e) ∈ executions p s lines) : c.kind = .connect := by
  induction lines generalizing s with
  | nil => cases hc
  | cons line lines ih =>
    rcases List.mem_cons.1 hc with hc | hc
    · unfold execution? at hc
      split at hc
      · rename_i c' _
        obtain ⟨rfl, hx⟩ := Prod.mk.inj (Option.some.inj hc)
        have hexecuted := executed ⟨p, line.2⟩ s c
        rw [← hx] at hexecuted
        exact hexecuted.kind_of_error
      · cases hc
    · exact ih hc

/-! ## Over another world -/

variable {φ : σ → σ'} (hφ : World.Alike φ)
include hφ

theorem answered_recast (r : Router) (s : Service σ) (line : String) :
    answered r (s.recast φ id) line = (answered r s line).recast φ id :=
  congrArg Prod.snd (mirrors_process (fun _ _ _ => rfl) hφ r line s)

theorem served_recast (p : Policy) (s : Service σ) (lines : List (String × Directory)) :
    served p (s.recast φ id) lines = (served p s lines).recast φ id := by
  induction lines generalizing s with
  | nil => rfl
  | cons line lines ih =>
    show served p (answered ⟨p, line.2⟩ (s.recast φ id) line.1) lines =
      (served p (answered ⟨p, line.2⟩ s line.1) lines).recast φ id
    rw [answered_recast hφ, ih]

theorem execution?_recast (r : Router) (s : Service σ) (line : String) :
    execution? r (s.recast φ id) line = execution? r s line := by
  have hresult : ∀ c, result r (s.recast φ id) c = result r s c := fun c =>
    congrArg Prod.fst (mirrors_execute (fun _ _ _ => rfl) hφ r c s)
  unfold execution?
  simp only [hresult]

theorem executions_recast (p : Policy) (s : Service σ) (lines : List (String × Directory)) :
    executions p (s.recast φ id) lines = executions p s lines := by
  induction lines generalizing s with
  | nil => rfl
  | cons line lines ih => rw [executions, executions, execution?_recast hφ, answered_recast hφ, ih]

end

/-! ## Runs -/

/-- A line is booked by what it gives and comes to, after the remarks that go with it. -/
theorem booked_answered (r : Router) (line : String) (hb : Booked done s) :
    Booked (done ++ [label (execution? r s line)]) (answered r s line) := by
  unfold execution?
  cases hp : Command.parse line with
  | error e =>
    have hrun : answered r s line = ((note (.failed line e)).run ((note (.executed none false)).run s).2).2 := by
      unfold answered process perform
      simp only [hp, Program.run_bind, Program.run_pure]
    rw [hrun]
    exact (Watch.Booked.executed hb none false).cons rfl
  | ok c =>
    let s₀ := ((note (.executing c)).run s).2
    let s₁ := ((note (.executed (some c.kind) (result r s₀ c).isOk)).run (next r s₀ c)).2
    have hperform : (perform r line).run s = (result r s₀ c, s₁) := by
      unfold perform
      simp only [hp, Program.run_bind]
      rfl
    -- the remark before the command does not change what it comes to
    have hbare : s₀.bare = s.bare := rfl
    have hresult : result r s c = result r s₀ c := (result_congr hbare r c).symm
    have hnext : Booked done (next r s₀ c) := booked_next r c (Watch.Booked.cons hb rfl)
    have hexecuted : Booked (done ++ [label (some (c, result r s₀ c))]) s₁ := Watch.Booked.executed hnext _ _
    unfold answered process
    simp only [Program.run_bind, hperform, hresult]
    generalize result r s₀ c = x at hexecuted
    cases x with
    | error e => exact hexecuted.cons rfl
    | ok completion =>
      obtain ⟨reply, _ | anomaly⟩ := completion
      · exact hexecuted
      · exact hexecuted.cons rfl

theorem booked_served (p : Policy) (lines : List (String × Directory)) (hb : Booked done s) :
    Booked (done ++ (executions p s lines).map label) (served p s lines) := by
  induction lines generalizing s done with
  | nil =>
    rw [executions, List.map_nil, List.append_nil]
    exact hb
  | cons line lines ih =>
    have hrest := ih (booked_answered ⟨p, line.2⟩ line.1 hb)
    rw [List.append_assoc] at hrest
    exact hrest

/-- What the metrics show after any lines, whatever the directory answers at each of them. The counters of lines add up
to the number of lines; the one of invalid lines shows how many were no command, and those of a command show how often
it went well and how often it failed, which only `connect` does. The counters of probes show how many were answered with
yes and how many with no, as a ledger of the world tells in which the same happens. A gauge that was ever set shows the
number of rows of its table, and the table of one that was not is empty. -/
theorem metrics_after (p : Policy) (seconds : Nat) (w : σ) (lines : List (String × Directory)) :
    let s := served p (start seconds w) lines
    let recorded := served p (start seconds ({ world := w } : Ledger σ)) lines
    let runs := executions p (start seconds w) lines
    let shown (name : String) := s.watch.trace.metrics.lookup name
    s = recorded.recast Ledger.world id ∧
    (s.watch.trace.family "sshproxy_commands_total").sum = lines.length ∧
    (shown (Counter.commands none false).text).getD 0 = lines.countP (fun line => !(Command.parse line.1).isOk) ∧
    (∀ kind ok, (shown (Counter.commands (some kind) ok).text).getD 0 =
      runs.countP (·.any fun run => run.1.kind = kind && run.2.isOk == ok)) ∧
    (∀ c e, some (c, .error e) ∈ runs → c.kind = .connect) ∧
    (∀ reachable, (shown (Counter.probes reachable).text).getD 0 = recorded.watch.world.answers.count reachable) ∧
    (∀ n, shown Gauge.activeSessions.text = some n → n = s.sessions.size) ∧
    (shown Gauge.activeSessions.text = none → s.sessions = ∅) ∧
    (∀ n, shown Gauge.trackedHosts.text = some n → n = s.watch.records.size) ∧
    (shown Gauge.trackedHosts.text = none → s.watch.records = ∅) := by
  intro s recorded runs shown
  -- the books are kept over the ledger, and what they say is carried over to the world itself
  let s₀ : Service (Ledger σ) := start seconds { world := w }
  have hs : s = recorded.recast Ledger.world id := served_recast Ledger.alike_world p s₀ lines
  have hruns : runs = executions p s₀ lines := executions_recast Ledger.alike_world p s₀ lines
  obtain ⟨hcommands, hprobes, hsessions, hhosts⟩ : s.watch.trace.collect Event.executed? = runs.map label ∧
      s.watch.trace.collect Event.reachable? = recorded.watch.world.answers ∧
      (Gauge.activeSessions.value s.watch.trace).getD 0 = s.sessions.size ∧
      (Gauge.trackedHosts.value s.watch.trace).getD 0 = s.watch.records.size := by
    have hempty : Booked [] s₀ := Watch.Booked.empty (seconds * 1000000000) w
    have hb : Booked ([] ++ (executions p s₀ lines).map label) recorded := booked_served p lines hempty
    rw [hs, hruns]
    exact ⟨hb.commands, hb.probes, hb.sessions, hb.hosts⟩
  have hcounter : ∀ c : Counter, (shown c.text).getD 0 = c.value s.watch.trace := by
    intro c
    rw [show shown c.text = c.shown? s.watch.trace from s.watch.trace.lookup_counter c, c.getD_shown?]
  obtain ⟨hsessions, hnosessions⟩ := Trace.eq_of_lookup_gauge hsessions
  obtain ⟨hhosts, hnohosts⟩ := Trace.eq_of_lookup_gauge hhosts
  refine ⟨hs, ?_, ?_, ?_, fun c e => kind_of_error_executions, ?_, hsessions, fun hn => ?_, hhosts, fun hn => ?_⟩
  · rw [Trace.sum_commands, hcommands, List.length_map, length_executions]
  · rw [hcounter, Counter.value_commands, hcommands, count_label_none, count_none_executions]
  · intro kind ok
    rw [hcounter, Counter.value_commands, hcommands, count_label_some]
  · intro reachable
    rw [hcounter, Counter.value_probes, hprobes]
  · exact Std.ExtTreeMap.eq_empty_iff_size_eq_zero.2 (hnosessions hn)
  · exact Std.ExtTreeMap.eq_empty_iff_size_eq_zero.2 (hnohosts hn)

/-- One line that is a command, and one that is none. -/
example : (served (.flat ["h1:22"]) (start 100 (⟨0⟩ : Script fun _ => true))
    [("connect alice svc:22", .groupless), ("quit", .ofMembers ∅)]).watch.trace.metrics =
      [("sshproxy_commands_total\x7bcommand=invalid,result=error\x7d", 1),
        ("sshproxy_commands_total\x7bcommand=connect,result=ok\x7d", 1),
        ("sshproxy_probes_total\x7bresult=up\x7d", 1), ("sshproxy_active_sessions", 1),
        ("sshproxy_tracked_hosts", 1)] := by
  decide +kernel

end Service

end SessionRouting
