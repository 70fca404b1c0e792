/-
Commands about sessions in a world that stands still, under a policy without chance. What such a command comes to is
then a function of the entry of its key and of what checks answer, its `Turn`: the result, the entry afterwards, and
the backends that it asks about and loses. Commands do not change what checks answer, so that those about different
keys can be carried out in any order: `after_perm`.
-/
import SessionRouting.Proofs.Health.Still
import SessionRouting.Proofs.Service.Frame
import Mathlib.Data.List.TakeWhile

namespace SessionRouting

open Health

variable {σ : Type} {moment : Moment} {up : String → Bool}

/-! ## Policies without chance -/

/-- No layer of the policy asks about candidates in a random order. -/
structure Policy.Ordered (p : Policy) : Prop where
  global : p.global.strategy ≠ some .random
  group : ∀ (name : String) l, p.groups[name]? = some l → l.strategy ≠ some .random
  user : ∀ (name : String) l, p.users[name]? = some l → l.strategy ≠ some .random

theorem Policy.Plan.strategy_foldl {target : String} {layers : List Layer} {q : Plan} (hq : q.strategy = .ordered)
    (hl : ∀ l ∈ layers, l.strategy ≠ some .random) :
    (layers.foldl (Plan.override target) q).strategy = .ordered := by
  induction layers generalizing q with
  | nil => exact hq
  | cons l layers ih =>
    refine ih ?_ fun l' hl' => hl l' (List.mem_cons_of_mem _ hl')
    have hne := hl l (List.mem_cons_self ..)
    show l.strategy.getD q.strategy = .ordered
    rcases hs : l.strategy with _ | strategy
    · exact hq
    · cases strategy with
      | ordered => rfl
      | random => exact absurd hs hne

theorem Policy.Ordered.strategy_plan {p : Policy} (hp : p.Ordered) (user target : String) (groups : Names) :
    (p.plan user target groups).strategy = .ordered := by
  refine Plan.strategy_foldl rfl fun l hl => ?_
  simp only [layersFor, List.cons_append, List.mem_cons, List.mem_append, List.mem_filterMap] at hl
  rcases hl with rfl | ⟨name, -, hname⟩ | hl
  · exact hp.global
  · exact hp.group name l hname
  · exact hp.user user l (Option.mem_toList.1 hl)

/-! ## Selection -/

namespace Selection

/-- The candidates up to the first one that answers yes, or all of them. -/
def upToFirst (p : String → Bool) (l : List String) : List String := l.takeWhile (!p ·) ++ (l.find? p).toList

variable {p : String → Bool} {l pre post : List String} {b : String}

theorem find?_split (hpre : ∀ a ∈ pre, p a = false) (hb : p b = true) : (pre ++ b :: post).find? p = some b := by
  have hnone : pre.find? p = none := List.find?_eq_none.2 fun a ha => by simp [hpre a ha]
  rw [List.find?_append, hnone, List.find?_cons_of_pos hb, Option.none_or]

theorem upToFirst_split (hpre : ∀ a ∈ pre, p a = false) (hb : p b = true) :
    upToFirst p (pre ++ b :: post) = pre ++ [b] := by
  unfold upToFirst
  rw [find?_split hpre hb, List.takeWhile_append_of_pos fun a ha => by simp [hpre a ha],
    List.takeWhile_cons_of_neg (by simp [hb]), List.append_nil]
  rfl

theorem find?_none (hl : ∀ a ∈ l, p a = false) : l.find? p = none :=
  List.find?_eq_none.2 fun a ha => by simp [hl a ha]

theorem upToFirst_none (hl : ∀ a ∈ l, p a = false) : upToFirst p l = l := by
  unfold upToFirst
  rw [find?_none hl, List.takeWhile_eq_self_iff.2 fun a ha => by simp [hl a ha]]
  exact List.append_nil l

end Selection

/-! ## Turns -/

/-- Who is chosen when `p` says which backends are reachable. -/
def Routing.choice (r : Router) (p : String → Bool) (user target : String) : Except Fault String :=
  match (r.directory.groupsOf user).groups with
  | .error f => .error (.groups f)
  | .ok groups =>
    match (r.policy.plan user target groups).candidates.find? p with
    | some b => .ok b
    | none => .error .noCandidate

/-- What a command about the sessions of a key comes to. -/
structure Turn where
  key : Session.Key
  result : Except Refusal Completion
  /-- The entry of the key afterwards. -/
  entry : Option Session
  /-- The backends that are asked about. -/
  asked : List String
  /-- The backend that the key has lost, if it has. -/
  lost : List String

namespace Turn

/-- One more session on the backend of the key. -/
def keep (moment : Moment) (key : Session.Key) (e : Session) : Turn where
  key
  result := .ok { reply := .simple e.backend }
  entry := some { e with count := e.count + 1, lastActive := moment }
  asked := [e.backend]
  lost := []

/-- A session on a key that has no backend, or has lost the one it had. -/
def seek (r : Router) (moment : Moment) (p : String → Bool) (key : Session.Key) (old : Option Session) : Turn :=
  let own := (old.map Session.backend).toList
  let asked := own ++ Selection.upToFirst p (Routing.candidates r key.user key.target)
  match Routing.choice r p key.user key.target with
  | .ok b => {
      key
      result := .ok { reply := .simple b }
      entry := some { backend := b, count := 1, lastActive := moment }
      asked
      lost := own }
  | .error f => { key, result := .error (.routing f), entry := old, asked, lost := own }

def connect (r : Router) (moment : Moment) (p : String → Bool) (key : Session.Key) (old : Option Session) : Turn :=
  match old with
  | some e => if p e.backend then keep moment key e else seek r moment p key old
  | none => seek r moment p key old

def disconnect (moment : Moment) (key : Session.Key) (old : Option Session) : Turn where
  key
  result := .ok (.quiet (if old.isSome then none else some (.unknownSession key)))
  entry := old.bind fun e =>
    if e.count - 1 = 0 then none else some { e with count := e.count - 1, lastActive := moment }
  asked := []
  lost := []

/-- The turn of a command, if it is about the sessions of a key. -/
def ofCommand? (r : Router) (moment : Moment) (p : String → Bool) (sessions : Sessions) : Command → Option Turn
  | .connect user target => some (connect r moment p ⟨user, target⟩ sessions[(⟨user, target⟩ : Session.Key)]?)
  | .disconnect user target => some (disconnect moment ⟨user, target⟩ sessions[(⟨user, target⟩ : Session.Key)]?)
  | .disable _ | .enable _ | .failure _ | .info _ => none

variable {r : Router} {p : String → Bool} {sessions sessions' : Sessions} {c : Command} {t : Turn}

theorem key_seek (key : Session.Key) (old : Option Session) : (seek r moment p key old).key = key := by
  unfold seek
  simp only
  split <;> rfl

theorem key_connect (key : Session.Key) (old : Option Session) : (connect r moment p key old).key = key := by
  unfold connect
  split
  · split
    · rfl
    · exact key_seek ..
  · exact key_seek ..

theorem connect_eq_seek {key : Session.Key} {old : Option Session} (ho : ∀ e, old = some e → p e.backend = false) :
    connect r moment p key old = seek r moment p key old := by
  unfold connect
  cases old with
  | none => rfl
  | some e => simp [ho e rfl]

theorem map_key_ofCommand? (r : Router) (moment : Moment) (p : String → Bool) (sessions : Sessions) (c : Command) :
    (ofCommand? r moment p sessions c).map Turn.key = c.key? := by
  cases c with
  | connect user target => exact congrArg some (key_connect ..)
  | disconnect => rfl
  | disable | enable | failure | info => rfl

/-- A turn goes by the entry of its own key. -/
theorem ofCommand?_congr (ht : ofCommand? r moment p sessions c = some t) (he : sessions'[t.key]? = sessions[t.key]?) :
    ofCommand? r moment p sessions' c = some t := by
  have hkey := map_key_ofCommand? r moment p sessions c
  rw [ht] at hkey
  cases c with
  | connect user target | disconnect user target =>
    rw [show t.key = ⟨user, target⟩ from Option.some.inj hkey] at he
    simp only [ofCommand?] at ht ⊢
    rw [he]
    exact ht
  | disable | enable | failure | info => cases ht

end Turn

/-! ## Carrying out a command -/

variable [World σ]

theorem Vain.settled {h₀ : Watch σ} {strategy : Strategy} {order : List String} {h h' : Watch σ}
    (hv : Vain strategy order h h') : ∀ {asked lost : List String}, Watch.Settled moment up h₀ asked lost h →
      (∀ a ∈ order, h₀.answerAt moment up a = false) ∧ Watch.Settled moment up h₀ (asked ++ order) lost h' := by
  induction hv with
  | nil =>
    intro asked lost hs
    refine ⟨fun _ ha => absurd ha List.not_mem_nil, ?_⟩
    rwa [List.append_nil]
  | @cons c cs h h₁ h₂ hx _ ih =>
    intro asked lost hs
    -- the answer is the one at `h₀`, however many candidates have been asked about before
    obtain ⟨hanswer, hs₁⟩ := hs.check c
    rw [hx] at hanswer hs₁
    obtain ⟨hno, hs₂⟩ := ih (hs₁.frame .refl rfl rfl (Trace.collect_of_cons rfl _))
    refine ⟨fun a ha => ?_, by simpa using hs₂⟩
    rcases List.mem_cons.1 ha with rfl | ha
    · exact hanswer.symm
    · exact hno a ha

section

variable {h₀ : Watch σ} {strategy : Strategy} {asked lost : List String}

/-- A search that ends at a candidate has asked up to the first one that answers yes. -/
theorem Vain.settled_found {pre : List String} {b : String} {h h' : Watch σ} (hv : Vain strategy pre h h')
    (hb : ((Watch.check b).run h').1 = true) (post : List String) (hs : Watch.Settled moment up h₀ asked lost h) :
    (pre ++ b :: post).find? (h₀.answerAt moment up) = some b ∧ Watch.Settled moment up h₀
      (asked ++ Selection.upToFirst (h₀.answerAt moment up) (pre ++ b :: post)) lost ((Watch.check b).run h').2 := by
  obtain ⟨hno, hs₁⟩ := hv.settled hs
  obtain ⟨hanswer, hs₂⟩ := hs₁.check b
  have hyes : h₀.answerAt moment up b = true := hanswer.symm.trans hb
  rw [Selection.find?_split hno hyes, Selection.upToFirst_split hno hyes, ← List.append_assoc]
  exact ⟨rfl, hs₂⟩

/-- A search that ends without a candidate has asked all of them. -/
theorem Vain.settled_exhausted {order : List String} {h h' : Watch σ} (hv : Vain strategy order h h')
    (hs : Watch.Settled moment up h₀ asked lost h) :
    order.find? (h₀.answerAt moment up) = none ∧ Watch.Settled moment up h₀
      (asked ++ Selection.upToFirst (h₀.answerAt moment up) order) lost h' := by
  obtain ⟨hno, hs₁⟩ := hv.settled hs
  rw [Selection.find?_none hno, Selection.upToFirst_none hno]
  exact ⟨rfl, hs₁⟩

end

namespace Routing

theorem Selected.settled {h₀ : Watch σ} {l : List String} {h h' : Watch σ} {chosen : Option String}
    (hsel : Selected .ordered l h chosen h') {asked lost : List String}
    (hs : Watch.Settled moment up h₀ asked lost h) :
    chosen = l.find? (h₀.answerAt moment up) ∧
      Watch.Settled moment up h₀ (asked ++ Selection.upToFirst (h₀.answerAt moment up) l) lost h' := by
  cases hsel with
  | found _ ho ha hsplit hv hb =>
    obtain rfl := (ho rfl).symm.trans hsplit
    obtain ⟨hfind, hs₂⟩ := hv.settled_found hb _ (hs.asides ha)
    exact ⟨hfind.symm, hs₂⟩
  | exhausted _ ho ha hv =>
    obtain rfl := ho rfl
    obtain ⟨hfind, hs₂⟩ := hv.settled_exhausted (hs.asides ha)
    exact ⟨hfind.symm, hs₂⟩

theorem Routed.settled {r : Router} (hr : r.policy.Ordered) {h₀ : Watch σ} {user target : String} {h h' : Watch σ}
    {x : Except Fault String} (hx : Routed r user target h x h') {asked lost : List String}
    (hs : Watch.Settled moment up h₀ asked lost h) :
    x = choice r (h₀.answerAt moment up) user target ∧
      Watch.Settled moment up h₀ (asked ++ Selection.upToFirst (h₀.answerAt moment up) (candidates r user target))
        lost h' := by
  cases hx with
  | @ungrouped f h₁ hg ha =>
    have hnone : candidates r user target = [] := by simp only [candidates, hg]
    refine ⟨by simp only [choice, hg], ?_⟩
    rw [hnone]
    simpa [Selection.upToFirst] using hs.asides ha
  | @found groups h₁ h₂ b hg ha hsel =>
    rw [hr.strategy_plan] at hsel
    obtain ⟨hfind, hs₂⟩ := hsel.settled (hs.asides ha)
    rw [← candidates_of_groups hg]
    refine ⟨?_, hs₂⟩
    simp only [choice, hg]
    rw [← hfind]
  | @exhausted groups h₁ h₂ hg ha hsel =>
    rw [hr.strategy_plan] at hsel
    obtain ⟨hfind, hs₂⟩ := hsel.settled (hs.asides ha)
    rw [← candidates_of_groups hg]
    refine ⟨?_, hs₂⟩
    simp only [choice, hg]
    rw [← hfind]

end Routing

namespace Service

/-- A command does what its turn says: `t` is its turn, `x` its result and `s'` the service after it. -/
structure Takes (moment : Moment) (up : String → Bool) (h₀ : Watch σ) (asked lost : List String) (t : Turn)
    (x : Except Refusal Completion) (s' : Service σ) : Prop where
  result : x = t.result
  settled : Watch.Settled moment up h₀ (asked ++ t.asked) (lost ++ t.lost) s'.watch
  entry : s'.sessions[t.key]? = t.entry

variable {r : Router} {h₀ : Watch σ} {asked lost : List String} {key : Session.Key} {s s' : Service σ}

theorem Unheld.settled {h : Watch σ} (hu : Unheld key s h) (hs : Watch.Settled moment up h₀ asked lost s.watch) :
    let own := (s.sessions[key]?.map Session.backend).toList
    (∀ e, s.sessions[key]? = some e → h₀.answerAt moment up e.backend = false) ∧
      Watch.Settled moment up h₀ (asked ++ own) (lost ++ own) h := by
  intro own
  cases hu with
  | absent he =>
    have hown : own = [] := by simp [own, he]
    rw [hown, List.append_nil, List.append_nil]
    exact ⟨fun e he' => by simp [he] at he', hs⟩
  | @lost e h he hb =>
    have hown : own = [e.backend] := by simp [own, he]
    obtain ⟨hanswer, hs₁⟩ := hs.check e.backend
    rw [hb] at hanswer hs₁
    rw [hown]
    refine ⟨fun e' he' => ?_, hs₁.lose key (by simp) hanswer.symm⟩
    obtain rfl := Option.some.inj (he.symm.trans he')
    exact hanswer.symm

theorem Resolved.takes (hr : r.policy.Ordered) (hs : Watch.Settled moment up h₀ asked lost s.watch)
    {y : Except Routing.Fault String} (hx : Resolved r key s y s') {x : Except Refusal Completion}
    (hok : ∀ b, y = .ok b → x = .ok { reply := .simple b }) (herror : ∀ f, y = .error f → x = .error (.routing f)) :
    Takes moment up h₀ asked lost (Turn.connect r moment (h₀.answerAt moment up) key s.sessions[key]?) x s' := by
  cases hx with
  | @held e h he hb =>
    obtain ⟨hanswer, hs₁⟩ := hs.check e.backend
    rw [hb] at hanswer hs₁
    have hturn : Turn.connect r moment (h₀.answerAt moment up) key s.sessions[key]? = Turn.keep moment key e := by
      rw [he]
      exact if_pos hanswer.symm
    rw [hturn]
    refine ⟨hok _ rfl, ?_, ?_⟩
    · show Watch.Settled moment up h₀ (asked ++ [e.backend]) (lost ++ []) _
      rw [List.append_nil]
      exact hs₁.frame (.now .refl) rfl rfl (Trace.collect_of_cons rfl _)
    · show (s.sessions.insert key _)[key]? = _
      rw [getElem?_sessions_insert, if_pos rfl, hs₁.still.time_eq]
      rfl
  | @routed h₁ h₂ b sessions hu hroute hsessions =>
    obtain ⟨ho, hs₁⟩ := hu.settled hs
    obtain ⟨hchoice, hs₂⟩ := hroute.settled hr hs₁
    rw [Turn.connect_eq_seek ho]
    unfold Turn.seek
    simp only [← hchoice]
    refine ⟨hok b rfl, ?_, ?_⟩
    · show Watch.Settled moment up h₀ (asked ++ (_ ++ _)) (lost ++ _) _
      rw [← List.append_assoc]
      exact hs₂.asides (asides_assigned key b sessions.size h₂)
    · show sessions[key]? = _
      rw [hsessions, getElem?_sessions_insert, if_pos rfl, hs₂.still.time_eq]
  | @failed h₁ h₂ f hu hroute =>
    obtain ⟨ho, hs₁⟩ := hu.settled hs
    obtain ⟨hchoice, hs₂⟩ := hroute.settled hr hs₁
    rw [Turn.connect_eq_seek ho]
    unfold Turn.seek
    simp only [← hchoice]
    refine ⟨herror f rfl, ?_, rfl⟩
    show Watch.Settled moment up h₀ (asked ++ (_ ++ _)) (lost ++ _) _
    rw [← List.append_assoc]
    exact hs₂

/-- Every command about sessions does what its turn says. -/
theorem Executed.takes (hr : r.policy.Ordered) (hs : Watch.Settled moment up h₀ asked lost s.watch) {c : Command}
    {x : Except Refusal Completion} (hx : Executed r s c x s') {t : Turn}
    (ht : Turn.ofCommand? r moment (h₀.answerAt moment up) s.sessions c = some t) :
    Takes moment up h₀ asked lost t x s' := by
  have hsame : Watch.Settled moment up h₀ (asked ++ []) (lost ++ []) s.watch := by
    rwa [List.append_nil, List.append_nil]
  cases hx with
  | connected hx =>
    obtain rfl := Option.some.inj ht
    exact hx.takes hr hs (by rintro _ ⟨⟩; rfl) (by rintro _ ⟨⟩)
  | refused hx =>
    obtain rfl := Option.some.inj ht
    exact hx.takes hr hs (by rintro _ ⟨⟩) (by rintro _ ⟨⟩; rfl)
  | @disconnected user target n s' hx =>
    obtain rfl := Option.some.inj ht
    have hs' := (hsame.asides hx.asides).asides (.single (.remark (e := .released ⟨user, target⟩ n) rfl _))
    cases hx with
    | @last e he hn =>
      refine ⟨by simp [Turn.disconnect, he], hs', ?_⟩
      show (s.sessions.erase _)[_]? = _
      rw [getElem?_sessions_erase]
      simp [Turn.disconnect, he, hn]
    | @remaining e he hn =>
      refine ⟨by simp [Turn.disconnect, he], hs', ?_⟩
      show (s.sessions.insert _ _)[_]? = _
      rw [getElem?_sessions_insert, hs.still.time_eq]
      simp [Turn.disconnect, he, hn]
  | unknownSession he =>
    obtain rfl := Option.some.inj ht
    refine ⟨by simp [Turn.disconnect, he], hsame, ?_⟩
    simp [Turn.disconnect, he]
  | disabled | enabled | notDisabled | alreadyDisabled | failureDisputed | failureConfirmed | listed => cases ht

/-! ## Runs -/

/-- What a service `s₀` has become after turns on different keys. -/
structure Served (moment : Moment) (up : String → Bool) (s₀ : Service σ) (ts : List Turn) (s : Service σ) : Prop where
  settled : Watch.Settled moment up s₀.watch (ts.flatMap Turn.asked) (ts.flatMap Turn.lost) s.watch
  entry : ∀ t ∈ ts, s.sessions[t.key]? = t.entry
  rest : ∀ k, k ∉ ts.map Turn.key → s.sessions[k]? = s₀.sessions[k]?

/-- The turn of a command about sessions that comes first, with the directory as it answers meanwhile. -/
def turn? (p : Policy) (moment : Moment) (up : String → Bool) (s : Service σ) (c : Command × Directory) : Option Turn :=
  Turn.ofCommand? ⟨p, c.2⟩ moment (s.watch.answerAt moment up) s.sessions c.1

omit [World σ] in
theorem map_key_turn? (p : Policy) (moment : Moment) (up : String → Bool) (s : Service σ) (c : Command × Directory) :
    (turn? p moment up s c).map Turn.key = c.1.key? :=
  Turn.map_key_ofCommand? ..

/-- The turns of commands about sessions, each taken as if it were the only one. -/
def turns (p : Policy) (moment : Moment) (up : String → Bool) (s : Service σ) (cs : List (Command × Directory)) :
    List Turn :=
  cs.filterMap (turn? p moment up s)

omit [World σ] in
theorem map_key_turns (p : Policy) (moment : Moment) (up : String → Bool) (s : Service σ)
    (cs : List (Command × Directory)) :
    (turns p moment up s cs).map Turn.key = cs.filterMap fun c => c.1.key? := by
  unfold turns
  rw [List.map_filterMap]
  exact congrArg (cs.filterMap ·) (funext fun c => map_key_turn? ..)

/-- A command whose key has not had its turn yet takes the turn that it would have taken first. -/
theorem Served.next {p : Policy} {s₀ : Service σ} (hr : p.Ordered) {ts : List Turn} (hs : Served moment up s₀ ts s)
    {c : Command × Directory} {t : Turn} (ht : turn? p moment up s₀ c = some t) (hkey : t.key ∉ ts.map Turn.key) :
    result ⟨p, c.2⟩ s c.1 = t.result ∧ Served moment up s₀ (ts ++ [t]) (next ⟨p, c.2⟩ s c.1) := by
  have ht' := Turn.ofCommand?_congr ht (hs.rest t.key hkey)
  have htakes := (executed ⟨p, c.2⟩ s c.1).takes hr hs.settled ht'
  have hc : c.1.key? = some t.key := by
    rw [← map_key_turn? p moment up s₀, ht, Option.map_some]
  have hother : ∀ k, k ≠ t.key → (Service.next ⟨p, c.2⟩ s c.1).sessions[k]? = s.sessions[k]? := fun k hk =>
    getElem?_sessions_next ⟨p, c.2⟩ s (by rw [hc]; simpa using hk.symm)
  refine ⟨htakes.result, ?_, fun t' ht' => ?_, fun k hk => ?_⟩
  · rw [List.flatMap_append, List.flatMap_append, List.flatMap_singleton, List.flatMap_singleton]
    exact htakes.settled
  · rcases List.mem_append.1 ht' with ht' | ht'
    · have hne : t'.key ≠ t.key := fun h => hkey (h ▸ List.mem_map_of_mem ht')
      rw [hother _ hne]
      exact hs.entry t' ht'
    · rw [List.mem_singleton.1 ht']
      exact htakes.entry
  · rw [List.map_append, List.mem_append, not_or] at hk
    have hne : k ≠ t.key := fun h => hk.2 (h ▸ List.mem_singleton_self _)
    rw [hother k hne]
    exact hs.rest k hk.1

/-- Commands on different keys all take the turns that they would have taken first. -/
theorem served_after {p : Policy} (hr : p.Ordered) {s₀ : Service σ} (hw : World.Still moment up s₀.watch.world)
    (cs : List (Command × Directory)) (hcs : ∀ c ∈ cs, c.1.key?.isSome)
    (hkeys : (cs.filterMap fun c => c.1.key?).Nodup) :
    Served moment up s₀ (turns p moment up s₀ cs) (after p s₀ cs) ∧
    ∀ pre c post, cs = pre ++ c :: post → ∃ t,
      turn? p moment up s₀ c = some t ∧ result ⟨p, c.2⟩ (after p s₀ pre) c.1 = t.result := by
  induction cs using List.reverseRecOn with
  | nil =>
    refine ⟨⟨Watch.settled_refl hw, fun _ ht => absurd ht List.not_mem_nil, fun _ _ => rfl⟩, ?_⟩
    intro pre c post hsplit
    simp at hsplit
  | append_singleton cs c ih =>
    -- the key of `c` has had no turn yet, so that `c` finds the entry that was there at first
    rw [List.filterMap_append] at hkeys
    obtain ⟨hserved, hresults⟩ := ih (fun c' hc' => hcs c' (List.mem_append_left _ hc')) (List.nodup_append.1 hkeys).1
    have hsome := hcs c (by simp)
    rw [← map_key_turn? p moment up s₀, Option.isSome_map] at hsome
    obtain ⟨t, ht⟩ := Option.isSome_iff_exists.1 hsome
    have hkey : t.key ∉ (turns p moment up s₀ cs).map Turn.key := by
      have hc := map_key_turn? p moment up s₀ c
      rw [ht, Option.map_some] at hc
      rw [map_key_turns]
      intro hmem
      exact (List.nodup_append.1 hkeys).2.2 _ hmem t.key (by simp [← hc]) rfl
    obtain ⟨hresult, hnext⟩ := hserved.next hr ht hkey
    constructor
    · have hturns : turns p moment up s₀ (cs ++ [c]) = turns p moment up s₀ cs ++ [t] := by
        unfold turns
        rw [List.filterMap_append, List.filterMap_cons_some ht, List.filterMap_nil]
      rw [after_concat, hturns]
      exact hnext
    · intro pre c' post hsplit
      rcases eq_or_split_of_concat hsplit with ⟨rfl, rfl, -⟩ | ⟨post', hsplit', -⟩
      · exact ⟨t, ht, hresult⟩
      · exact hresults pre c' post' hsplit'

/-- Turns in another order lead to the same sessions and the same records, by the same probes. -/
theorem Served.unordered {s₀ s₁ s₂ : Service σ} {ts₁ ts₂ : List Turn} (h₁ : Served moment up s₀ ts₁ s₁)
    (h₂ : Served moment up s₀ ts₂ s₂) (hp : ts₁.Perm ts₂) :
    s₁.sessions = s₂.sessions ∧ s₁.watch.records = s₂.watch.records ∧
    ∃ l₁ l₂, s₁.watch.trace.probes = s₀.watch.trace.probes ++ l₁ ∧
      s₂.watch.trace.probes = s₀.watch.trace.probes ++ l₂ ∧ l₁.Perm l₂ ∧ l₁.Nodup := by
  refine ⟨Std.ExtTreeMap.ext_getElem? fun k => ?_, h₁.settled.unordered h₂.settled ?_ ?_⟩
  · by_cases hk : k ∈ ts₁.map Turn.key
    · obtain ⟨t, ht, rfl⟩ := List.mem_map.1 hk
      rw [h₁.entry t ht, h₂.entry t (hp.mem_iff.1 ht)]
    · rw [h₁.rest k hk, h₂.rest k fun hk' => hk ((hp.map _).mem_iff.2 hk')]
  · exact fun a => (hp.flatMap_right _).mem_iff
  · exact fun a => (hp.flatMap_right _).mem_iff

/-- The order of commands about different sessions does not matter. In any state, while the clock stands still,
probes of an address are all answered alike, the directory answers each command the same wherever it stands, and no
layer of the policy leaves anything to chance, lists of `connect` and `disconnect` on pairwise different keys that are
permutations of each other give each command the same result, and lead to the same sessions and records. They probe
the same addresses, each one once at most. -/
theorem after_perm {p : Policy} (hr : p.Ordered) {s : Service σ} (hw : World.Still moment up s.watch.world)
    {cs ds : List (Command × Directory)} (hp : cs.Perm ds) (hcs : ∀ c ∈ cs, c.1.key?.isSome)
    (hkeys : (cs.filterMap fun c => c.1.key?).Nodup) :
    (∀ pre c post pre' post', cs = pre ++ c :: post → ds = pre' ++ c :: post' →
      result ⟨p, c.2⟩ (after p s pre) c.1 = result ⟨p, c.2⟩ (after p s pre') c.1) ∧
    (after p s cs).sessions = (after p s ds).sessions ∧
    (after p s cs).watch.records = (after p s ds).watch.records ∧
    ∃ l l', (after p s cs).watch.trace.probes = s.watch.trace.probes ++ l ∧
      (after p s ds).watch.trace.probes = s.watch.trace.probes ++ l' ∧ l.Perm l' ∧ l.Nodup := by
  have hds : ∀ c ∈ ds, c.1.key?.isSome := fun c hc => hcs c (hp.mem_iff.2 hc)
  have hkeys' : (ds.filterMap fun c => c.1.key?).Nodup := (hp.filterMap _).nodup_iff.1 hkeys
  obtain ⟨hserved, hresults⟩ := served_after hr hw cs hcs hkeys
  obtain ⟨hserved', hresults'⟩ := served_after hr hw ds hds hkeys'
  refine ⟨?_, hserved.unordered hserved' (hp.filterMap _)⟩
  intro pre c post pre' post' hsplit hsplit'
  obtain ⟨t, ht, hx⟩ := hresults pre c post hsplit
  obtain ⟨t', ht', hx'⟩ := hresults' pre' c post' hsplit'
  obtain rfl := Option.some.inj (ht.symm.trans ht')
  exact hx.trans hx'.symm

/-- Two keys lose the same backend once the clock has stopped, and a third one, of a user who is not known, has nothing
to end. -/
theorem after_perm_in_lull :
    let p : Policy := .flat ["h1:22", "h2:22"]
    let alice : Command × Directory := (.connect "alice" "svc:22", .groupless)
    let bob : Command × Directory := (.connect "bob" "svc:22", .groupless)
    let carol : Command × Directory := (.disconnect "carol" "svc:22", .ofMembers ∅)
    let s := after p (fresh 5 (⟨6, 0⟩ : Lull (· == "h2:22"))) [alice, bob]
    let cs := [alice, carol, bob]
    let ds := [bob, alice, carol]
    s.tally ⟨"bob", "svc:22"⟩ = some ("h1:22", 1) ∧ (after p s cs).tally ⟨"bob", "svc:22"⟩ = some ("h2:22", 1) ∧
    result ⟨p, bob.2⟩ (after p s [alice, carol]) bob.1 = result ⟨p, bob.2⟩ s bob.1 ∧
    (after p s cs).sessions = (after p s ds).sessions ∧ (after p s cs).watch.records = (after p s ds).watch.records ∧
    ∃ l l', (after p s cs).watch.trace.probes = s.watch.trace.probes ++ l ∧
      (after p s ds).watch.trace.probes = s.watch.trace.probes ++ l' ∧ l.Perm l' ∧ l.Nodup := by
  intro p alice bob carol s cs ds
  have hr : p.Ordered := ⟨by simp [p, Policy.flat], by simp [p, Policy.flat], by simp [p, Policy.flat]⟩
  have hw : World.Still ⟨s.watch.world.elapsed⟩ (· == "h2:22") s.watch.world := Lull.still (by decide +kernel)
  have hp : cs.Perm ds := @List.perm_append_comm _ [alice, carol] [bob]
  obtain ⟨hresult, hend⟩ := after_perm hr hw hp (by decide) (by decide)
  exact ⟨by decide +kernel, by decide +kernel, hresult [alice, carol] bob [] [] [alice, carol] rfl rfl, hend⟩

end Service

end SessionRouting
