/-
Messages of refusals stay on one line. Those about a command line quote its words, and those about a user quote the
user and the reason of the directory, which stays on one line for the directories that there are
(`plain_ofMembers`, `plain_calls`).
-/
import SessionRouting.Membership.Lookup
import SessionRouting.Proofs.Command.Parsed
import SessionRouting.Proofs.Connection.Frame

namespace SessionRouting

open Text

/-! ## Command lines -/

theorem Text.IsWord.isLine {s : String} (hs : IsWord s) : IsLine s := isLine_of_not_isBlank hs.2

theorem Address.isLine_of_parse {word : String} (hw : IsLine word) {f : Fault} (h : parse word = .error f) :
    IsLine f.message := by
  have htrim : IsLine (String.ofList (trim word.toList)) := by
    intro c hc
    rw [String.toList_ofList] at hc
    exact hw c (mem_of_mem_trim hc)
  rcases fault_of_parse h with rfl | rfl | rfl
  · exact by decide
  · exact ((by decide : IsLine "invalid host '").append htrim).append (by decide)
  · exact ((by decide : IsLine "invalid port in '").append htrim).append (by decide)

/-- A line that is no command is refused on one line. -/
theorem Command.Misread.isLine {ws : List String} (hws : ∀ w ∈ ws, IsWord w) {e : Refusal} (h : Misread ws e) :
    IsLine e.message := by
  cases h with
  | emptyLine => exact by decide
  | unknownCommand hw =>
    exact ((by decide : IsLine "unknown command '").append (hws _ hw).isLine).append (by decide)
  | tooFewArguments k => cases k <;> decide +kernel
  | tooManyArguments k => cases k <;> decide +kernel
  | badAddress hw hf =>
    exact (by decide : IsLine "invalid host: ").append
      (Address.isLine_of_parse (hws _ hw).isLine (Address.normalize_eq_error.1 hf))
  | unknownTopic hw =>
    exact ((by decide : IsLine "unknown parameter '").append (hws _ hw).isLine).append (by decide)

/-! ## Directories -/

/-- A directory whose faults are about the user who was asked for, with reasons on one line. -/
def Directory.Plain (d : Directory) : Prop :=
  ∀ user f, (d.groupsOf user).groups = .error f →
    f = .unknownUser user ∨ ∃ reason, f = .lookup user reason ∧ IsLine reason

theorem Directory.Plain.isLine {d : Directory} (hd : d.Plain) {user : String} (hu : IsLine user) {f : Membership.Fault}
    (h : (d.groupsOf user).groups = .error f) : IsLine f.message := by
  rcases hd user f h with rfl | ⟨reason, rfl, hreason⟩
  · exact ((by decide : IsLine "unknown user '").append hu).append (by decide)
  · exact (((by decide : IsLine "group lookup failed for '").append hu).append (by decide)).append hreason

theorem Directory.plain_ofMembers (m : Membership.Members) : (Directory.ofMembers m).Plain := by
  intro user f h
  unfold ofMembers at h
  simp only at h
  split at h
  · cases h
  · cases h
    exact .inl rfl

theorem isLine_repr (n : Nat) : IsLine n.repr := by
  refine isLine_of_not_isBlank fun c hc => ?_
  rw [show n.repr.toList = decimal n from String.toList_ofList] at hc
  exact not_isBlank_of_isDigit (isDigit_of_mem_decimal hc)

theorem isLine_toString (n : Int) : IsLine (toString n) := by
  cases n with
  | ofNat n => exact isLine_repr n
  | negSucc n => exact (by decide : IsLine "-").append (isLine_repr (n + 1))

theorem SystemError.isLine_message (e : SystemError) : IsLine e.message := by
  have htexts : ∀ row ∈ texts, IsLine row.2 := by decide +kernel
  have htext : IsLine e.text := by
    unfold text
    cases h : texts.lookup e.number with
    | none => exact (by decide : IsLine "Unknown error ").append (isLine_toString _)
    | some t =>
      obtain ⟨pre, post, hrow, -⟩ := List.lookup_eq_some_iff.1 h
      exact htexts (e.number, t) (by simp [hrow])
  exact ((htext.append (by decide)).append (isLine_toString _)).append (by decide)

/-- The directory that asks a user database gives the reasons of the system, whatever its calls answer. -/
theorem Directory.plain_calls (calls : Membership.Calls) : calls.directory.Plain := by
  intro user f h
  unfold Membership.Calls.directory Membership.Calls.groupsOf at h
  simp only at h
  split at h
  · cases h
    exact .inl rfl
  · split at h
    · cases h
      exact .inr ⟨_, rfl, SystemError.isLine_message _⟩
    · cases h
      exact .inl rfl
    · split at h
      · cases h
        exact .inr ⟨_, rfl, by decide⟩
      · cases h

end SessionRouting
