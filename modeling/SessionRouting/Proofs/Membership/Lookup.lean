/-
Lookups in a user database, whatever it holds and however its calls are made. Each loop of a lookup asks with more and
more room; `Ends` is such a run from its first try to its result, with a bound on the tries and on the room. `Answers`
is what a lookup relies on of the calls. Under it the result is the answer to a call with room enough, and from there
`Outcome` tells what a lookup comes to, without a word about buffers: `groupsOf_exact`.
-/
import SessionRouting.Membership.Database
import Mathlib.Tactic

namespace SessionRouting

/-- No failure of a call is reported in these words, since what is said of a failure ends with its number. -/
theorem SystemError.message_ne_many (e : SystemError) : e.message ≠ "too many groups" := by
  intro h
  have hlast : e.message.toList.getLast? = some 's' := by rw [h]; rfl
  unfold message at hlast
  rw [String.toList_append, show ")".toList = [')'] from rfl, List.getLast?_concat] at hlast
  exact absurd hlast (by decide)

namespace Membership

/-! ## What is asked for -/

/-- What a database holds where an entry is asked for: none, one that cannot be read, or one that needs so much
room. -/
inductive Held (α : Type)
  | nothing
  | unreadable (error : SystemError)
  | entry (size : Nat) (value : α)

/-- The answer to a call with so much room. -/
def Held.answer {α : Type} (x : Held α) (room : Nat) : Answer α :=
  match x with
  | .nothing => .absent
  | .unreadable error => .failed error
  | .entry size value => if size > room then .failed .bufferTooSmall else .found value

/-- What a database holds: the primary groups of users, the lists of their groups, and the names of groups. A list is
that of a user together with the group that is taken to be the primary one. -/
structure Contents where
  user : String → Held Nat
  groups : String → Nat → List Nat
  group : Nat → Held (Option (List UInt8))

namespace Calls

/-- How calls answer about a list of groups: with all of it if there is room, and otherwise either with the room that
it needs or with no more than there was. -/
def Tells (groups : List Nat) (ask : Nat → ListAnswer) : Prop :=
  ∀ room, (groups.length ≤ room ∧ ask room = .all groups) ∨
    (room < groups.length ∧ ∃ count, ask room = .short count ∧ (count = groups.length ∨ count ≤ room))

/-- The calls answer from these contents, which do not change between them. -/
structure Answers (calls : Calls) (c : Contents) : Prop where
  user : ∀ user, calls.askUser user = (c.user user).answer
  groups : ∀ user primary, Tells (c.groups user primary) (calls.askGroups user primary)
  group : ∀ id, calls.askGroup id = (c.group id).answer

end Calls

namespace Database

/-- What a database in memory holds. -/
def contents (db : Database) : Contents where
  user user :=
    match db.user user with
    | none => .nothing
    | some e =>
      match e.error with
      | some error => .unreadable error
      | none => .entry e.size e.primary
  groups := db.groups
  group id :=
    match db.group id with
    | none => .nothing
    | some e =>
      match e.error with
      | some error => .unreadable error
      | none => .entry (max e.size (e.name.length + 1)) (some e.name)

/-- A database in memory answers from what it holds, whether it reports counts or not. -/
theorem answers (db : Database) : db.calls.Answers db.contents where
  user user := by
    funext room
    unfold calls contents
    simp only
    cases db.user user with
    | none => rfl
    | some e => cases h : e.error <;> simp [Held.answer, h]
  groups user primary room := by
    unfold calls contents
    simp only
    by_cases hfits : (db.groups user primary).length ≤ room
    · exact .inl ⟨hfits, if_pos hfits⟩
    · refine .inr ⟨Nat.not_le.1 hfits, _, if_neg hfits, ?_⟩
      cases db.reportsCount
      · exact .inr le_rfl
      · exact .inl rfl
  group id := by
    funext room
    unfold calls contents
    simp only
    cases db.group id with
    | none => rfl
    | some e => cases h : e.error <;> simp [Held.answer, h]

end Database

namespace Calls

/-! ## Loops that ask with more and more room -/

/-- A loop that asks with some room, and then either asks again with other room or comes to a result. It ends with the
result after so many tries at most, and no try has more room than the limit. -/
inductive Ends {β : Type} (step : Nat → Nat ⊕ β) (x : β) : Nat → Nat → Prop
  | last {room tries : Nat} (hroom : room ≤ maxRoom) (h : step room = .inr x) : Ends step x room (tries + 1)
  | more {room next tries : Nat} (hroom : room ≤ maxRoom) (h : step room = .inl next) (hrest : Ends step x next tries) :
    Ends step x room (tries + 1)

/-- Doubling room this often leads to the limit. -/
def Doubles (room times : Nat) : Prop := room * 2 ^ times = maxRoom

theorem Doubles.pos {room times : Nat} (h : Doubles room times) : 0 < room := by
  have hlimit : 0 < room * 2 ^ times := by
    rw [h]
    decide
  exact Nat.pos_of_mul_pos_right hlimit

theorem Doubles.le {room times : Nat} (h : Doubles room times) : room ≤ maxRoom := by
  rw [← h]
  exact Nat.le_mul_of_pos_right room (Nat.two_pow_pos times)

theorem Doubles.double {room times : Nat} (h : Doubles room (times + 1)) : Doubles (2 * room) times := by
  unfold Doubles at h ⊢
  rw [← h, Nat.pow_succ]
  ring

theorem doubles_zero {room : Nat} (h : Doubles room 0) : room = maxRoom := by
  rw [← h, Nat.pow_zero, Nat.mul_one]

section Entry

variable {α : Type} {ask : Nat → Answer α}

/-- One try for an entry: the next one has twice the room, if the buffer was too small and not of the largest size. -/
def entryStep (ask : Nat → Answer α) (room : Nat) : Nat ⊕ Answer α :=
  match ask room with
  | .failed error =>
    if error = .bufferTooSmall ∧ room < maxRoom then .inl (2 * room) else .inr (.failed error)
  | answer => .inr answer

theorem entryStep_cases (ask : Nat → Answer α) (room : Nat) :
    (entryStep ask room = .inl (2 * room) ∧ room < maxRoom) ∨
    (entryStep ask room = .inr (ask room) ∧ (ask room = .failed .bufferTooSmall → maxRoom ≤ room)) := by
  unfold entryStep
  cases hask : ask room with
  | failed error =>
    by_cases h : error = .bufferTooSmall ∧ room < maxRoom
    · exact .inl ⟨if_pos h, h.2⟩
    · refine .inr ⟨if_neg h, fun he => ?_⟩
      cases he
      simpa using h
  | found | absent => exact .inr ⟨rfl, nofun⟩

/-- The lookup is the loop. -/
theorem retry_step {room : Nat} (hroom : 0 < room) :
    retry ask room = match entryStep ask room with
      | .inl next => retry ask next
      | .inr x => x := by
  unfold entryStep
  rw [retry]
  cases ask room with
  | failed error =>
    simp only [hroom, true_and]
    split <;> rfl
  | found | absent => rfl

theorem ends_retry (ask : Nat → Answer α) {room times : Nat} (h : Doubles room times) :
    Ends (entryStep ask) (retry ask room) room (times + 1) := by
  -- on the doublings that are left before the limit
  induction times generalizing room with
  | zero =>
    rcases entryStep_cases ask room with ⟨-, hlt⟩ | ⟨hs, -⟩
    · rw [doubles_zero h] at hlt
      exact absurd hlt (lt_irrefl _)
    · rw [retry_step h.pos, hs]
      exact .last h.le hs
  | succ times ih =>
    rw [retry_step h.pos]
    rcases entryStep_cases ask room with ⟨hs, -⟩ | ⟨hs, -⟩
    · rw [hs]
      exact .more h.le hs (ih h.double)
    · rw [hs]
      exact .last h.le hs

/-- The loop ends with the answer of one of its tries, and that the buffer is too small is an answer only to the try
with the largest one. -/
theorem Ends.answer {x : Answer α} {room tries : Nat} (h : Ends (entryStep ask) x room tries) :
    ∃ r ≤ maxRoom, x = ask r ∧ (ask r = .failed .bufferTooSmall → maxRoom ≤ r) := by
  induction h with
  | @last room _ hroom h =>
    rcases entryStep_cases ask room with ⟨hs, -⟩ | ⟨hs, hlarge⟩
    · rw [h] at hs
      cases hs
    · rw [h] at hs
      exact ⟨room, hroom, Sum.inr.inj hs, hlarge⟩
  | more _ _ _ ih => exact ih

end Entry

section List

variable {ask : Nat → ListAnswer} {groups : List Nat}

/-- One try for a list: with the reported room, or with twice the room when no more was reported, unless that is over
the limit. -/
def listStep (ask : Nat → ListAnswer) (room : Nat) : Nat ⊕ Option (List Nat) :=
  match ask room with
  | .all groups => .inr (some groups)
  | .short count =>
    let next := if room < count then count else 2 * room
    if next ≤ maxRoom then .inl next else .inr none

theorem lt_grown {room : Nat} (hroom : 0 < room) (count : Nat) : room < if room < count then count else 2 * room := by
  split <;> omega

theorem lt_of_listStep {room next : Nat} (hroom : 0 < room) (h : listStep ask room = .inl next) : room < next := by
  unfold listStep at h
  cases hask : ask room with
  | all groups =>
    rw [hask] at h
    cases h
  | short count =>
    have hgrows := lt_grown hroom count
    simp only [hask] at h
    generalize (if room < count then count else 2 * room) = grown at h hgrows
    split at h
    · cases h
      exact hgrows
    · cases h

/-- The lookup is the loop. -/
theorem retryList_step {room : Nat} (hroom : 0 < room) :
    retryList ask room = match listStep ask room with
      | .inl next => retryList ask next
      | .inr x => x := by
  unfold listStep
  rw [retryList]
  cases ask room with
  | all => rfl
  | short count =>
    simp only [lt_grown hroom count, true_and]
    generalize (if room < count then count else 2 * room) = grown
    split <;> rfl

theorem Ends.retryList_eq {x : Option (List Nat)} {room tries : Nat} (h : Ends (listStep ask) x room tries)
    (hroom : 0 < room) : retryList ask room = x := by
  induction h with
  | last _ h => rw [retryList_step hroom, h]
  | more _ h _ ih =>
    rw [retryList_step hroom, h]
    exact ih (hroom.trans (lt_of_listStep hroom h))

theorem Tells.listStep_cases (h : Tells groups ask) (room : Nat) :
    (groups.length ≤ room ∧ listStep ask room = .inr (some groups)) ∨
    (room < groups.length ∧ ∃ next, (next = groups.length ∨ next = 2 * room) ∧
      listStep ask room = if next ≤ maxRoom then .inl next else .inr none) := by
  unfold listStep
  rcases h room with ⟨hfits, hask⟩ | ⟨hshort, count, hask, hcount⟩
  · rw [hask]
    exact .inl ⟨hfits, rfl⟩
  · rw [hask]
    refine .inr ⟨hshort, _, ?_, rfl⟩
    rcases hcount with rfl | hle
    · exact .inl (if_pos hshort)
    · exact .inr (if_neg (by omega))

/-- The list, unless it is longer than the limit. -/
def limited (groups : List Nat) : Option (List Nat) := if groups.length ≤ maxRoom then some groups else none

theorem Tells.ends_of_fits (h : Tells groups ask) {room tries : Nat} (hfits : groups.length ≤ room)
    (hroom : room ≤ maxRoom) : Ends (listStep ask) (limited groups) room (tries + 1) := by
  rcases h.listStep_cases room with ⟨-, hs⟩ | ⟨hshort, -⟩
  · rw [limited, if_pos (hfits.trans hroom)]
    exact .last hroom hs
  · omega

theorem ends_of_many {room tries : Nat} (hmany : maxRoom < groups.length) (hroom : room ≤ maxRoom)
    (hs : listStep ask room = .inr none) : Ends (listStep ask) (limited groups) room (tries + 1) := by
  rw [limited, if_neg (by omega)]
  exact .last hroom hs

theorem Tells.ends (h : Tells groups ask) {room times : Nat} (hroom : Doubles room times) :
    Ends (listStep ask) (limited groups) room (times + 1) := by
  -- on the doublings that are left, though a count that is reported may leave most of them out
  induction times generalizing room with
  | zero =>
    obtain rfl := doubles_zero hroom
    rcases h.listStep_cases maxRoom with ⟨hfits, -⟩ | ⟨hshort, next, hnext, hs⟩
    · exact h.ends_of_fits hfits le_rfl
    · have hpos := hroom.pos
      rw [if_neg (by omega)] at hs
      exact ends_of_many hshort le_rfl hs
  | succ times ih =>
    rcases h.listStep_cases room with ⟨hfits, -⟩ | ⟨hshort, next, rfl | rfl, hs⟩
    · exact h.ends_of_fits hfits hroom.le
    · -- what is reported is all the room that the list needs
      by_cases hmany : maxRoom < groups.length
      · rw [if_neg (by omega)] at hs
        exact ends_of_many hmany hroom.le hs
      · rw [if_pos (by omega)] at hs
        exact .more hroom.le hs (h.ends_of_fits le_rfl (by omega))
    · rw [if_pos hroom.double.le] at hs
      exact .more hroom.le hs (ih hroom.double)

end List

/-! ## The results of the loops -/

theorem doubles_firstRoom : Doubles firstRoom 10 := rfl

theorem doubles_firstListRoom : Doubles firstListRoom 15 := rfl

/-- The entry is found if it has room within the limit, whatever the room of the first try. -/
theorem retry_answer {α : Type} (x : Held α) : retry x.answer firstRoom = x.answer maxRoom := by
  obtain ⟨r, hr, hretry, hlarge⟩ := (ends_retry x.answer doubles_firstRoom).answer
  rw [hretry]
  cases x with
  | nothing | unreadable => rfl
  | entry size value =>
    unfold Held.answer at hlarge ⊢
    simp only at hlarge ⊢
    by_cases hsize : size > maxRoom
    · rw [if_pos hsize, if_pos (by omega)]
    · by_cases hshort : size > r
      · -- only the largest buffer is allowed to be too small, and that one has the room
        rw [if_pos hshort] at hlarge
        have := hlarge rfl
        omega
      · rw [if_neg hsize, if_neg hshort]

theorem Tells.retryList_eq {groups : List Nat} {ask : Nat → ListAnswer} (h : Tells groups ask) :
    retryList ask firstListRoom = limited groups :=
  (h.ends doubles_firstListRoom).retryList_eq doubles_firstListRoom.pos

/-! ## What a lookup comes to -/

variable {calls : Calls} {c : Contents} {user : String}

/-- A name of a group: it has an entry that can be read and has room in a buffer of the largest size, and this is its
name up to the first zero, with U+FFFD for what is not UTF-8. -/
def HasName (c : Contents) (id : Nat) (name : String) : Prop :=
  ∃ size bytes, c.group id = .entry size (some bytes) ∧ size ≤ maxRoom ∧
    name = String.ofList (Text.Utf8.decodeLossy (bytes.takeWhile (· ≠ 0)))

/-- What a lookup of a user comes to. The list of groups is the one for the primary group that the user's entry
tells. -/
inductive Outcome (c : Contents) (user : String) : Except Fault Names → Prop
  | unknown (h : Char.ofNat 0 ∈ user.toList ∨ c.user user = .nothing) : Outcome c user (.error (.unknownUser user))
  | failed {error : SystemError} (hname : Char.ofNat 0 ∉ user.toList) (he : c.user user = .unreadable error) :
    Outcome c user (.error (.lookup user error.message))
  | large {size primary : Nat} (hname : Char.ofNat 0 ∉ user.toList) (he : c.user user = .entry size primary)
    (hsize : maxRoom < size) : Outcome c user (.error (.lookup user SystemError.bufferTooSmall.message))
  | many {size primary : Nat} (hname : Char.ofNat 0 ∉ user.toList) (he : c.user user = .entry size primary)
    (hsize : size ≤ maxRoom) (hmany : maxRoom < (c.groups user primary).length) :
    Outcome c user (.error (.lookup user "too many groups"))
  | all {size primary : Nat} {names : Names} (hname : Char.ofNat 0 ∉ user.toList)
    (he : c.user user = .entry size primary) (hsize : size ≤ maxRoom)
    (hmany : (c.groups user primary).length ≤ maxRoom)
    (hnames : ∀ name, name ∈ names ↔ ∃ id ∈ c.groups user primary, HasName c id name) : Outcome c user (.ok names)

theorem Answers.groupName_eq_some_iff (hc : calls.Answers c) {id : Nat} {name : String} :
    calls.groupName id = some name ↔ HasName c id name := by
  unfold groupName HasName
  rw [hc.group, retry_answer]
  unfold Held.answer
  cases c.group id with
  | nothing | unreadable => simp
  | entry size bytes =>
    by_cases hsize : size > maxRoom
    · simp [hsize, Nat.not_le.2 hsize]
    · cases bytes with
      | none => simp [hsize]
      | some bytes => simp [hsize, Nat.not_lt.1 hsize, eq_comm]

theorem mem_foldl_insert {names : List String} {s : Names} {name : String} :
    name ∈ names.foldl (·.insert ·) s ↔ name ∈ s ∨ name ∈ names := by
  induction names generalizing s with
  | nil => simp
  | cons n names ih =>
    rw [List.foldl_cons, ih, Std.ExtTreeSet.mem_insert, Std.LawfulEqOrd.compare_eq_iff_eq, List.mem_cons]
    grind

theorem Answers.outcome_groupsOf (hc : calls.Answers c) (user : String) :
    Outcome c user (calls.groupsOf user).groups := by
  unfold groupsOf
  split
  · rename_i hname
    exact .unknown (.inl (by simpa using hname))
  · rename_i hname
    have hname : Char.ofNat 0 ∉ user.toList := by simpa using hname
    rw [hc.user, retry_answer]
    cases he : c.user user with
    | nothing => exact .unknown (.inr he)
    | unreadable error => exact .failed hname he
    | entry size primary =>
      unfold Held.answer
      by_cases hsize : size > maxRoom
      · simp only [hsize, ↓reduceIte]
        exact .large hname he hsize
      · simp only [hsize, ↓reduceIte, (hc.groups user primary).retryList_eq, limited]
        by_cases hmany : (c.groups user primary).length ≤ maxRoom
        · rw [if_pos hmany]
          refine .all hname he (Nat.not_lt.1 hsize) hmany fun name => ?_
          simp [mem_foldl_insert, hc.groupName_eq_some_iff]
        · rw [if_neg hmany]
          exact .many hname he (Nat.not_lt.1 hsize) (Nat.not_le.1 hmany)

/-- No two outcomes go together: each one is ruled out by what the others ask of the contents. -/
theorem Outcome.unique {x y : Except Fault Names} (hx : Outcome c user x) (hy : Outcome c user y) : x = y := by
  cases hx with
  | unknown h => cases hy <;> grind
  | failed hname he => cases hy <;> grind
  | large hname he hsize => cases hy <;> grind
  | many hname he hsize hmany => cases hy <;> grind
  | all hname he hsize hmany hnames =>
    cases hy with
    | all hname' he' _ _ hnames' =>
      obtain ⟨-, rfl⟩ := Held.entry.inj (he.symm.trans he')
      exact congrArg Except.ok (Std.ExtTreeSet.ext_mem fun name => (hnames name).trans (hnames' name).symm)
    | _ => grind

/-- Calls that answer from the same contents lead to the same groups, and leave out the same ones. -/
theorem Answers.groupsOf_congr {calls' : Calls} (hc : calls.Answers c) (hc' : calls'.Answers c) (user : String) :
    calls'.groupsOf user = calls.groupsOf user := by
  have hname : calls'.groupName = calls.groupName := funext fun id =>
    Option.ext fun name => hc'.groupName_eq_some_iff.trans hc.groupName_eq_some_iff.symm
  unfold groupsOf
  simp only [hc.user, hc'.user, (hc.groups user _).retryList_eq, (hc'.groups user _).retryList_eq, hname]

/-- A lookup in a user database is complete, however much room it takes. Of the calls it relies on this: they answer
from contents that do not change meanwhile, and say so when there is too little room. Each loop then ends after a few
tries, with room of which even the double is a 32-bit number. The lookup comes to what `Outcome` says and to nothing
else; there are too many groups exactly when the list for the user's primary group is longer than the limit and nothing
has failed before; and it makes no difference how the calls answer that have too little room for a list. -/
theorem groupsOf_exact (hc : calls.Answers c) (user : String) :
    (Ends (entryStep (calls.askUser user)) (retry (calls.askUser user) firstRoom) firstRoom 11 ∧
      (∀ id, Ends (entryStep (calls.askGroup id)) (retry (calls.askGroup id) firstRoom) firstRoom 11) ∧
      (∀ primary, Ends (listStep (calls.askGroups user primary))
        (retryList (calls.askGroups user primary) firstListRoom) firstListRoom 16) ∧
      2 * maxRoom < 2 ^ 31) ∧
    (∀ x, (calls.groupsOf user).groups = x ↔ Outcome c user x) ∧
    ((calls.groupsOf user).groups = .error (.lookup user "too many groups") ↔ Char.ofNat 0 ∉ user.toList ∧
      ∃ size primary, c.user user = .entry size primary ∧ size ≤ maxRoom ∧
        maxRoom < (c.groups user primary).length) ∧
    ∀ calls' : Calls, calls'.Answers c → calls'.groupsOf user = calls.groupsOf user := by
  refine ⟨⟨ends_retry _ doubles_firstRoom, fun id => ends_retry _ doubles_firstRoom, fun primary => ?_, by decide⟩,
    fun x => ⟨fun h => h ▸ hc.outcome_groupsOf user, (hc.outcome_groupsOf user).unique⟩, ?_,
    fun calls' hc' => hc.groupsOf_congr hc' user⟩
  · have hlist := hc.groups user primary
    rw [hlist.retryList_eq]
    exact hlist.ends doubles_firstListRoom
  · constructor
    · intro h
      have houtcome := hc.outcome_groupsOf user
      rw [h] at houtcome
      -- two other outcomes give a reason as well, but never this one
      generalize hreason : "too many groups" = reason at houtcome
      cases houtcome with
      | failed _ _ => exact absurd hreason.symm (SystemError.message_ne_many _)
      | large _ _ _ => exact absurd hreason.symm (SystemError.message_ne_many _)
      | many hname he hsize hmany => exact ⟨hname, _, _, he, hsize, hmany⟩
    · rintro ⟨hname, size, primary, he, hsize, hmany⟩
      exact (hc.outcome_groupsOf user).unique (.many hname he hsize hmany)

/-- Forty groups of which the first one, which is the primary one, and the last one have names, in a database that does
not report counts. The entries need more room than the first tries give. -/
theorem groupsOf_of_forty :
    let db : Database :=
      { user := fun name => if name = "alice" then some ⟨100, List.range' 100 40, 3000, none⟩ else none
        group := fun id =>
          if id = 100 then some ⟨[117, 115, 101, 114, 115], 0, none⟩
          else if id = 139 then some ⟨[111, 112, 115], 2000, none⟩ else none
        reportsCount := false }
    db.calls.Answers db.contents ∧ ∃ names, (db.calls.groupsOf "alice").groups = .ok names ∧
      ∀ name, name ∈ names ↔ name = "users" ∨ name = "ops" := by
  intro db
  have hgroups : db.contents.groups "alice" 100 = List.range' 100 40 := by decide
  have hname : ∀ id name, HasName db.contents id name ↔ id = 100 ∧ name = "users" ∨ id = 139 ∧ name = "ops" := by
    intro id name
    unfold HasName
    by_cases hfirst : id = 100
    · subst hfirst
      have hgroup : db.contents.group 100 = .entry 6 (some [117, 115, 101, 114, 115]) := rfl
      have htext : String.ofList (Text.Utf8.decodeLossy [117, 115, 101, 114, 115]) = "users" := by decide +kernel
      simp [hgroup, htext, maxRoom]
    · by_cases hlast : id = 139
      · subst hlast
        have hgroup : db.contents.group 139 = .entry 2000 (some [111, 112, 115]) := rfl
        have htext : String.ofList (Text.Utf8.decodeLossy [111, 112, 115]) = "ops" := by decide +kernel
        simp [hgroup, htext, maxRoom]
      · have hgroup : db.contents.group id = .nothing := by simp [db, Database.contents, hfirst, hlast]
        simp [hgroup, hfirst, hlast]
  have hnames : ∀ name, name ∈ ["users", "ops"].foldl (·.insert ·) (∅ : Names) ↔ name = "users" ∨ name = "ops" :=
    fun name => mem_foldl_insert.trans (by simp)
  have hentry : db.contents.user "alice" = .entry 3000 100 := rfl
  have houtcome := (groupsOf_exact db.answers "alice").2.1 (.ok (["users", "ops"].foldl (·.insert ·) ∅))
  refine ⟨db.answers, _, houtcome.2 (.all (by decide) hentry (by decide) (by decide) fun name => ?_), hnames⟩
  rw [hnames, hgroups]
  simp only [hname]
  constructor
  · rintro (hn | hn)
    · exact ⟨100, by decide, .inl ⟨rfl, hn⟩⟩
    · exact ⟨139, by decide, .inr ⟨rfl, hn⟩⟩
  · rintro ⟨id, -, ⟨-, hn⟩ | ⟨-, hn⟩⟩
    · exact .inl hn
    · exact .inr hn

end Calls

end Membership

end SessionRouting
