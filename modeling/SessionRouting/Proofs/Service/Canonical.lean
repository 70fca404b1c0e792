/-
Addresses and users in the state. Texts come into it from command lines, from routes and from answers of the policy,
and each of these ways leads through `Address.normalize`, so that all addresses in the state are canonical and no host
has two names. `Canonical` is the invariant; it tells as well where each address comes from. `canonical_after` says
that it holds after all lines.
-/
import SessionRouting.Proofs.Command.Parsed
import SessionRouting.Proofs.Handoff.Order
import SessionRouting.Proofs.Health.Standing
import SessionRouting.Proofs.Service.Connect
import SessionRouting.Proofs.Settings.Constraint

namespace SessionRouting

open Health Text

variable {σ : Type} [World σ]

/-! ## Where records come from -/

/-- A record was there before, or the command is one that may make it. -/
theorem Deed.origin {c : Command} {scope : List String} {h h' : Watch σ} (hd : Deed c scope h h') {a : String}
    (ha : a ∈ h'.records) :
    a ∈ h.records ∨ (c.kind = .connect ∧ a ∈ scope) ∨ c = .disable a ∨ c = .failure a := by
  have hinsert : ∀ {b : String} {r : Record}, a ∈ h.records.insert b r → b = a ∨ a ∈ h.records := by
    intro b r ha
    rcases Std.ExtTreeMap.mem_insert.1 ha with hb | ha
    · exact .inl (Std.LawfulEqOrd.eq_of_compare hb)
    · exact .inr ha
  have hmem : ∀ {b : String} {r : Record}, h.records[b]? = some r → b ∈ h.records := fun hr =>
    (Std.ExtTreeMap.getElem?_eq_some_iff.1 hr).1
  cases hd with
  | aside hs =>
    cases hs with
    | tick | shuffle | remark => exact .inl ha
  | answer => exact .inl ha
  | ask hc hb _ =>
    rcases hinsert ha with rfl | ha
    · exact .inr (.inl ⟨hc, hb⟩)
    · exact .inl ha
  | @lose _ b _ key _ _ hr _ =>
    refine .inl ?_
    unfold Watch.lost at ha
    simp only at ha
    split at ha
    · exact ha
    · rcases hinsert ha with rfl | ha
      · exact hmem hr
      · exact ha
  | exclude hc _ =>
    rcases hinsert ha with rfl | ha
    · exact .inr (.inr (.inl hc))
    · exact .inl ha
  | probe hc _ =>
    rcases hinsert ha with rfl | ha
    · rcases hc with ⟨-, hdis⟩ | ⟨hc, -⟩
      · obtain ⟨r, hr, -⟩ := (Watch.isDisabled_iff h _).1 hdis
        exact .inl (hmem hr)
      · exact .inr (.inr (.inr hc))
    · exact .inl ha

theorem Deeds.origin {c : Command} {scope : List String} {h h' : Watch σ} (hd : Deeds c scope h h') {a : String}
    (ha : a ∈ h'.records) :
    a ∈ h.records ∨ (c.kind = .connect ∧ a ∈ scope) ∨ c = .disable a ∨ c = .failure a := by
  induction hd with
  | refl => exact .inl ha
  | tail _ hd ih =>
    rcases hd.origin ha with ha | ha
    · exact ih ha
    · exact .inr ha

theorem Deeds.mem_records {c : Command} {scope : List String} {h h' : Watch σ} (hd : Deeds c scope h h') {a : String}
    (ha : a ∈ h.records) : a ∈ h'.records :=
  hd.keep (P := fun h => a ∈ h.records) (fun _ _ hd ha => hd.mem_records ha) ha

/-! ## Where entries come from -/

theorem Routing.Routed.mem_candidates {r : Router} {user target : String} {h h' : Watch σ} {b : String}
    (hr : Routed r user target h (.ok b) h') : b ∈ candidates r user target := by
  cases hr with
  | found hg _ hs =>
    obtain ⟨-, -, hb, -⟩ := hs.found_cases (c := .connect user target) rfl fun _ ha => ha
    rwa [candidates_of_groups hg] at hb

/-- The backend of an entry was in the entry before, or a `connect` has found it among the candidates. -/
theorem Service.Executed.entry_origin {r : Router} {s s' : Service σ} {c : Command} {x : Except Refusal Completion}
    (hx : Executed r s c x s') {k : Session.Key} {e : Session} (he : s'.sessions[k]? = some e) :
    (∃ e₀, s.sessions[k]? = some e₀ ∧ e₀.backend = e.backend) ∨
    (c = .connect k.user k.target ∧ e.backend ∈ Routing.candidates r k.user k.target ∧
      e.backend ∈ s'.watch.records) := by
  cases hx with
  | @connected user target b _ hr =>
    by_cases hk : (⟨user, target⟩ : Session.Key) = k
    · subst hk
      obtain ⟨⟨v, hv, -⟩, e', he', hb, -⟩ := hr.ok_record
      obtain rfl := Option.some.inj (he'.symm.trans he)
      rw [hb]
      cases hr with
      | held he₀ _ => exact .inl ⟨_, he₀, rfl⟩
      | routed _ hr _ =>
        exact .inr ⟨rfl, hr.mem_candidates, (Std.ExtTreeMap.getElem?_eq_some_iff.1 hv).1⟩
    · rcases hr.ok_sessions with ⟨e', m, -, -, -, hs⟩ | ⟨-, m, hs⟩
      all_goals
        rw [hs, getElem?_sessions_insert, if_neg hk] at he
        exact .inl ⟨e, he, rfl⟩
  | refused hr =>
    rw [hr.error_sessions.2] at he
    exact .inl ⟨e, he, rfl⟩
  | @disconnected user target n _ hr =>
    cases hr with
    | last =>
      rw [getElem?_sessions_erase] at he
      split at he
      · cases he
      · exact .inl ⟨e, he, rfl⟩
    | remaining he₀ =>
      rw [getElem?_sessions_insert] at he
      split at he
      · rename_i hk
        subst hk
        cases he
        exact .inl ⟨_, he₀, rfl⟩
      · exact .inl ⟨e, he, rfl⟩
  | _ => exact .inl ⟨e, he, rfl⟩

/-! ## The invariant -/

namespace Settings

/-- Whether the layer has a say about the user in some groups. -/
def LayerName.Concerns (user : String) : LayerName → Prop
  | policy | group _ => True
  | LayerName.user name => name = user

theorem LayerName.AppliesTo.concerns {user : String} {groups : Names} {name : LayerName}
    (h : name.AppliesTo user groups) : name.Concerns user := by
  cases name with
  | policy | group => trivial
  | user => exact h

/-- Candidates are canonical destinations of layers that have a say about the user, whatever the directory is. -/
theorem sends_of_mem_candidates {s : Settings} {r : Router} (h : s.compilePolicy = .ok r.policy)
    {user target a : String} (ha : a ∈ Routing.candidates r user target) :
    Address.normalize a = .ok a ∧ ∃ name : LayerName, name.Concerns user ∧ s.Sends name a := by
  unfold Routing.candidates at ha
  split at ha
  · rename_i groups _
    rcases candidates_of_compilePolicy h user target groups with
      ⟨hempty, -⟩ | ⟨name, key, texts, happlies, hdest, -, hall⟩
    · rw [hempty] at ha
      cases ha
    · obtain ⟨text, htext, hn⟩ := mem_of_forall₂_right hall ha
      exact ⟨Address.normalize_normalize hn, name, happlies.concerns, key, texts, text, hdest, htext, hn⟩
  · cases ha

end Settings

open Settings

/-- One of the lines is a `disable` or a `failure` of the address. -/
def Command.Marked (lines : List String) (a : String) : Prop :=
  ∃ line ∈ lines, parse line = .ok (.disable a) ∨ parse line = .ok (.failure a)

namespace Service

/-- The state after lines: every address that is tracked is canonical, and it is a destination of the settings or is
named by a line; every entry belongs to a word and a canonical target, counts at least one session, and has a backend
that is tracked and is a destination for its user. -/
structure Canonical (s : Settings) (lines : List String) (t : Service σ) : Prop where
  record : ∀ a ∈ t.watch.records,
    Address.normalize a = .ok a ∧ ((∃ name, s.Sends name a) ∨ Command.Marked lines a)
  key : ∀ k ∈ t.sessions, IsWord k.user ∧ Address.normalize k.target = .ok k.target
  entry : ∀ (k : Session.Key) (e : Session), t.sessions[k]? = some e → 1 ≤ e.count ∧ e.backend ∈ t.watch.records ∧
    ∃ name : LayerName, name.Concerns k.user ∧ s.Sends name e.backend

namespace Canonical

variable {s : Settings} {lines : List String} {t t' : Service σ}

omit [World σ] in
theorem start (s : Settings) (seconds : Nat) (w : σ) : Canonical s [] (start seconds w) where
  record a ha := absurd ha Std.ExtTreeMap.not_mem_empty
  key k hk := absurd hk Std.ExtTreeMap.not_mem_empty
  entry k e he := by simp [Service.start] at he

omit [World σ] in
theorem more (h : Canonical s lines t) (line : String) : Canonical s (lines ++ [line]) t where
  record a ha := by
    obtain ⟨hn, hs | ⟨l, hl, hp⟩⟩ := h.record a ha
    · exact ⟨hn, .inl hs⟩
    · exact ⟨hn, .inr ⟨l, List.mem_append_left _ hl, hp⟩⟩
  key := h.key
  entry := h.entry

omit [World σ] in
theorem untouched (h : Canonical s lines t) (hu : Untouched t t') : Canonical s lines t' where
  record := by rw [hu.records]; exact h.record
  key := by rw [hu.sessions]; exact h.key
  entry := by rw [hu.sessions, hu.records]; exact h.entry

variable {r : Router}

/-- A command that was read from a line keeps the invariant. -/
theorem next (h : Canonical s lines t) (hr : s.compilePolicy = .ok r.policy) {line : String} {c : Command}
    (hp : Command.parse line = .ok c) : Canonical s (lines ++ [line]) (next r t c) := by
  have hx := executed r t c
  have hparsed := Command.parsed_of_parse hp
  have hmarked : ∀ {a}, c = .disable a ∨ c = .failure a → Command.Marked (lines ++ [line]) a :=
    fun hc => ⟨line, by simp, by rw [hp]; simpa using hc⟩
  -- a new record or entry is one that the line names or that routing has found; the others were there before
  refine ⟨fun a ha => ?_, fun k hk => ?_, fun k e he => ?_⟩
  · rcases hx.deeds.origin ha with ha | ⟨hkind, hscope⟩ | hc
    · exact (h.more line).record a ha
    · cases c with
      | connect user target =>
        rcases List.mem_append.1 hscope with hb | hcand
        · -- the backend of the entry has a record already
          obtain ⟨e, he, rfl⟩ := by simpa using hb
          exact (h.more line).record _ (h.entry _ e he).2.1
        · obtain ⟨hn, name, -, hs⟩ := sends_of_mem_candidates hr hcand
          exact ⟨hn, .inl ⟨name, hs⟩⟩
      | _ => cases hkind
    · refine ⟨?_, .inr (hmarked hc)⟩
      rcases hc with rfl | rfl
      · cases hparsed with
        | disable hh => exact hh
      · cases hparsed with
        | failure hh => exact hh
  · rcases hx.entry_origin (Std.ExtTreeMap.getElem?_eq_some_getElem hk) with ⟨e₀, he₀, -⟩ | ⟨rfl, -, -⟩
    · exact h.key k (Std.ExtTreeMap.getElem?_eq_some_iff.1 he₀).1
    · cases hparsed with
      | connect hu ht => exact ⟨hu, ht⟩
  · have hpos : ∀ b n, t.tally k = some (b, n) → 1 ≤ n := by
      intro b n ht
      obtain ⟨e, he, -, rfl⟩ := tally_eq_some.1 ht
      exact (h.entry k e he).1
    refine ⟨(hx.tally_step hpos).pos hpos _ _ (tally_eq_some.2 ⟨e, he, rfl, rfl⟩), ?_⟩
    rcases hx.entry_origin he with ⟨e₀, he₀, hb⟩ | ⟨-, hcand, hrecord⟩
    · obtain ⟨-, hrecord, hsends⟩ := h.entry k e₀ he₀
      rw [hb] at hrecord hsends
      exact ⟨hx.deeds.mem_records hrecord, hsends⟩
    · exact ⟨hrecord, (sends_of_mem_candidates hr hcand).2⟩

/-- Every line keeps the invariant. -/
theorem answered (h : Canonical s lines t) (hr : s.compilePolicy = .ok r.policy) (line : String) :
    Canonical s (lines ++ [line]) (answered r t line) := by
  cases hp : Command.parse line with
  | error e => exact (h.more line).untouched (process_of_error r hp t).2
  | ok c =>
    obtain ⟨t₀, h0, -, h1⟩ := process_of_ok r hp t
    exact ((h.untouched h0).next hr hp).untouched h1

theorem served {p : Policy} (hp : s.compilePolicy = .ok p) (w : σ) (lines : List (String × Directory)) :
    Canonical s (lines.map Prod.fst) (served p (Service.start s.healthCheck.intervalSecs w) lines) := by
  induction lines using List.reverseRecOn with
  | nil => exact start s _ w
  | append_singleton lines line ih =>
    rw [served_concat, List.map_append]
    exact ih.answered hp line.1

end Canonical

/-- A line that is an `enable`, a `disconnect` or an `info` makes no record. -/
theorem mem_records_answered (r : Router) (t : Service σ) {line : String} {c : Command}
    (hp : Command.parse line = .ok c) (hc : c.kind = .enable ∨ c.kind = .disconnect ∨ c.kind = .info) {a : String}
    (ha : a ∈ (answered r t line).watch.records) : a ∈ t.watch.records := by
  obtain ⟨t₀, h0, -, h1⟩ := process_of_ok r hp t
  rw [show (answered r t line).watch.records = _ from h1.records] at ha
  rcases (executed r t₀ c).deeds.origin ha with ha | ⟨hkind, -⟩ | rfl | rfl
  · rwa [h0.records] at ha
  · rw [hkind] at hc
    simp at hc
  · simp [Command.kind] at hc
  · simp [Command.kind] at hc

/-- The state that any lines leave behind is canonical, whatever the directory answers at each of them. What is tracked
is a canonical address, and a destination of some layer or the host of a `disable` or a `failure` among the lines; an
`enable`, a `disconnect` and an `info` have nothing tracked that was not. Every entry belongs to a user who is one word
and to a canonical target and counts at least one session; its backend is canonical, is tracked, and is a destination
of the global layer, of a group or of the user. -/
theorem canonical_after {s : Settings} {p : Policy} (hp : s.compilePolicy = .ok p) (w : σ)
    (lines : List (String × Directory)) :
    let t := served p (Service.start s.healthCheck.intervalSecs w) lines
    (∀ a ∈ t.watch.records, Address.normalize a = .ok a ∧ ((∃ name, s.Sends name a) ∨ ∃ line ∈ lines.map Prod.fst,
      Command.parse line = .ok (.disable a) ∨ Command.parse line = .ok (.failure a))) ∧
    (∀ r line c, Command.parse line = .ok c → c.kind = .enable ∨ c.kind = .disconnect ∨ c.kind = .info →
      ∀ a ∈ (Service.answered r t line).watch.records, a ∈ t.watch.records) ∧
    ∀ (k : Session.Key) (e : Session), t.sessions[k]? = some e →
      (k.user ≠ "" ∧ ∀ c ∈ k.user.toList, isBlank c = false) ∧ Address.normalize k.target = .ok k.target ∧
      1 ≤ e.count ∧ Address.normalize e.backend = .ok e.backend ∧ e.backend ∈ t.watch.records ∧
      ∃ name : LayerName, (name = .policy ∨ (∃ group, name = .group group) ∨ name = .user k.user) ∧
        s.Sends name e.backend := by
  intro t
  have h : Canonical s (lines.map Prod.fst) t := .served hp w lines
  refine ⟨h.record, fun r line c hc hkind a ha => mem_records_answered r t hc hkind ha, fun k e he => ?_⟩
  obtain ⟨huser, htarget⟩ := h.key k (Std.ExtTreeMap.getElem?_eq_some_iff.1 he).1
  obtain ⟨hcount, hrecord, name, hname, hsends⟩ := h.entry k e he
  refine ⟨huser, htarget, hcount, (h.record _ hrecord).1, hrecord, name, ?_, hsends⟩
  cases name with
  | policy => exact .inl rfl
  | group group => exact .inr (.inl ⟨group, rfl⟩)
  | user name => exact .inr (.inr (congrArg _ hname))

/-- A `connect` and a `disable` in other letters than the settings lead to canonical addresses. The user is known when
the session begins and not any more at the next line. -/
theorem canonical_after_two_lines :
    let s : Settings := { policy := { routes := (∅ : Routes).insert Policy.defaultRoute ["H1"] } }
    let p : Policy :=
      { global := ⟨some .ordered, (∅ : Routes).insert Policy.defaultRoute ["h1:22"]⟩
        groups := ∅
        users := ∅ }
    let lines := [("connect alice Svc", Directory.ofMembers ((∅ : Membership.Members).insert "alice" ∅)),
      ("disable H2:022", .ofMembers ∅)]
    let t := served p (Service.start s.healthCheck.intervalSecs (⟨0⟩ : Script fun _ => true)) lines
    s.compilePolicy = .ok p ∧
    (∃ e : Session, t.sessions[(⟨"alice", "svc:22"⟩ : Session.Key)]? = some e ∧ e.backend = "h1:22" ∧
      Address.normalize e.backend = .ok e.backend ∧ ∃ name, s.Sends name e.backend) ∧
    "h2:22" ∈ t.watch.records ∧ Address.normalize "h2:22" = .ok "h2:22" := by
  intro s p lines t
  have hp : s.compilePolicy = .ok p := rfl
  obtain ⟨hrecord, -, hentry⟩ := canonical_after hp (⟨0⟩ : Script fun _ => true) lines
  have hbackend : t.sessions[(⟨"alice", "svc:22"⟩ : Session.Key)]?.map Session.backend = some "h1:22" := by
    decide +kernel
  have hmem : "h2:22" ∈ t.watch.records := by decide +kernel
  obtain ⟨e, he, hb⟩ := Option.map_eq_some_iff.1 hbackend
  obtain ⟨-, -, -, hcanonical, -, name, -, hsends⟩ := hentry _ e he
  exact ⟨hp, ⟨e, he, hb, hcanonical, name, hsends⟩, hmem, (hrecord "h2:22" (by decide +kernel)).1⟩

end Service

end SessionRouting
