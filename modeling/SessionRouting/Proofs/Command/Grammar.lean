/-
The grammar of command lines. A line means what the words between its blanks mean, and `Means` says for any words which
command that is, or why it is none. Reading a line comes to what it means and to nothing else, and the text of a command
that was read is read as the same command: `parse_grammar`.
-/
import SessionRouting.Proofs.Command.Parsed
import SessionRouting.Proofs.Text.Split

namespace SessionRouting

open Text

instance (s : String) : Decidable (IsWord s) :=
  decidable_of_iff (s ≠ "" ∧ (s.toList.all fun c => !isBlank c) = true) (by simp [IsWord])

namespace Command

/-- What stands between the blanks of a line, where anything does. -/
def wordsOf (line : String) : List String :=
  ((line.toList.splitOnP isBlank).filter fun w => !w.isEmpty).map String.ofList

/-- A word that is the name of the command, in letters of either case. -/
def Kind.Called (k : Kind) (word : String) : Prop := lower word.toList = k.name.toList

/-- The arguments of a command that names an address: which of them it is, and the command for each canonical
address. -/
inductive Takes : Kind → List String → String → (String → Command) → Prop
  | connect (user word : String) : Takes .connect [user, word] word (.connect user)
  | disconnect (user word : String) : Takes .disconnect [user, word] word (.disconnect user)
  | disable (word : String) : Takes .disable [word] word .disable
  | enable (word : String) : Takes .enable [word] word .enable
  | failure (word : String) : Takes .failure [word] word .failure

/-- What a command with these arguments means. Their number comes first. -/
inductive Gives : Kind → List String → Except Refusal Command → Prop
  | tooFew {k : Kind} {args : List String} (h : args.length < k.arity) : Gives k args (.error (.tooFewArguments k))
  | tooMany {k : Kind} {args : List String} (h : k.arity < args.length) : Gives k args (.error (.tooManyArguments k))
  | address {k : Kind} {args : List String} {word a : String} {make : String → Command}
    (ht : Takes k args word make) (ha : Address.normalize word = .ok a) : Gives k args (.ok (make a))
  | badAddress {k : Kind} {args : List String} {word : String} {f : Address.Fault} {make : String → Command}
    (ht : Takes k args word make) (hf : Address.normalize word = .error f) : Gives k args (.error (.badAddress f))
  | topic (t : Topic) : Gives .info [t.name] (.ok (.info t))
  | unknownTopic {word : String} (h : ∀ t : Topic, word ≠ t.name) : Gives .info [word] (.error (.unknownTopic word))

/-- What the words of a line mean. -/
inductive Means : List String → Except Refusal Command → Prop
  | nothing : Means [] (.error .emptyLine)
  | unknown {name : String} {args : List String} (h : ∀ k : Kind, ¬ k.Called name) :
    Means (name :: args) (.error (.unknownCommand name))
  | command {k : Kind} {name : String} {args : List String} {x : Except Refusal Command} (hk : k.Called name)
    (hx : Gives k args x) : Means (name :: args) x

/-! ## Names -/

theorem Kind.mem_all (k : Kind) : k ∈ all := by
  cases k <;> decide

/-- A command is called by its name. -/
theorem Kind.called_name (k : Kind) : k.Called k.name := by
  unfold Called
  cases k <;> decide

theorem Kind.isWord_name (k : Kind) : IsWord k.name := by
  cases k <;> decide

theorem Topic.isWord_name (t : Topic) : IsWord t.name := by
  cases t <;> decide

theorem Kind.name_injective {k k' : Kind} (h : k.name = k'.name) : k = k' := by
  cases k <;> cases k' <;> first | rfl | exact absurd h (by decide)

theorem Kind.ofName?_eq_some_iff {k : Kind} {w : List Char} : ofName? w = some k ↔ k.Called (String.ofList w) := by
  have hname : ∀ {k' : Kind}, ofName? w = some k' → k'.name.toList = lower w := by
    intro k' h
    unfold ofName? at h
    have hfound := List.find?_some h
    exact of_decide_eq_true hfound
  unfold Called
  rw [String.toList_ofList]
  constructor
  · intro h
    exact (hname h).symm
  · intro h
    cases hw : ofName? w with
    | none =>
      unfold ofName? at hw
      exact absurd (decide_eq_true h.symm) (List.find?_eq_none.1 hw k k.mem_all)
    | some k' => rw [name_injective (String.toList_inj.1 ((hname hw).trans h))]

theorem Kind.ofName?_eq_none_iff {w : List Char} : ofName? w = none ↔ ∀ k : Kind, ¬ k.Called (String.ofList w) := by
  constructor
  · intro h k hk
    rw [ofName?_eq_some_iff.2 hk] at h
    cases h
  · intro h
    cases hw : ofName? w with
    | none => rfl
    | some k => exact absurd (ofName?_eq_some_iff.1 hw) (h k)

theorem Topic.ofName?_eq_some_iff {word : String} {t : Topic} : ofName? word = some t ↔ word = t.name := by
  constructor
  · intro h
    unfold ofName? at h
    split at h
    · cases h
      assumption
    · split at h
      · cases h
        assumption
      · cases h
  · rintro rfl
    cases t <;> rfl

/-! ## Arguments -/

theorem Takes.length_eq {k : Kind} {args : List String} {word : String} {make : String → Command}
    (h : Takes k args word make) : args.length = k.arity := by
  cases h <;> rfl

/-- As many arguments as a command takes are an address and what goes with it, or a topic. -/
theorem exists_takes {k : Kind} {args : List String} (h : args.length = k.arity) :
    (∃ word make, Takes k args word make) ∨ ∃ word, k = .info ∧ args = [word] := by
  cases k with
  | connect =>
    obtain ⟨user, word, rfl⟩ := List.length_eq_two.1 h
    exact .inl ⟨word, _, .connect user word⟩
  | disconnect =>
    obtain ⟨user, word, rfl⟩ := List.length_eq_two.1 h
    exact .inl ⟨word, _, .disconnect user word⟩
  | disable =>
    obtain ⟨word, rfl⟩ := List.length_eq_one_iff.1 h
    exact .inl ⟨word, _, .disable word⟩
  | enable =>
    obtain ⟨word, rfl⟩ := List.length_eq_one_iff.1 h
    exact .inl ⟨word, _, .enable word⟩
  | failure =>
    obtain ⟨word, rfl⟩ := List.length_eq_one_iff.1 h
    exact .inl ⟨word, _, .failure word⟩
  | info =>
    obtain ⟨word, rfl⟩ := List.length_eq_one_iff.1 h
    exact .inr ⟨word, rfl, rfl⟩

theorem ofArgs_of_takes {k : Kind} {args : List String} {word : String} {make : String → Command}
    (h : Takes k args word make) : ofArgs k args = (readAddress word).map make := by
  cases h <;> rfl

theorem ofArgs_of_tooMany {k : Kind} {args : List String} (h : k.arity < args.length) :
    ofArgs k args = .error (.tooManyArguments k) := by
  unfold ofArgs
  rw [if_neg (by omega)]
  split
  case h_7 => rfl
  -- in every other case there are as many arguments as there should be
  all_goals exact absurd h (Nat.lt_irrefl _)

theorem ofArgs_info (word : String) : ofArgs .info [word] =
    match Topic.ofName? word with
    | some topic => .ok (.info topic)
    | none => .error (.unknownTopic word) := rfl

/-- The arguments of a command are read as what they mean. -/
theorem gives_ofArgs (k : Kind) (args : List String) : Gives k args (ofArgs k args) := by
  rcases Nat.lt_trichotomy args.length k.arity with h | h | h
  · unfold ofArgs
    rw [if_pos h]
    exact .tooFew h
  · rcases exists_takes h with ⟨word, make, ht⟩ | ⟨word, rfl, rfl⟩
    · rw [ofArgs_of_takes ht]
      unfold readAddress
      cases hn : Address.normalize word with
      | ok a => exact .address ht hn
      | error f => exact .badAddress ht hn
    · rw [ofArgs_info]
      cases hw : Topic.ofName? word with
      | some t =>
        rw [Topic.ofName?_eq_some_iff.1 hw]
        exact .topic t
      | none =>
        refine .unknownTopic fun t ht => ?_
        rw [Topic.ofName?_eq_some_iff.2 ht] at hw
        cases hw
  · rw [ofArgs_of_tooMany h]
    exact .tooMany h

theorem ofArgs_eq_iff {k : Kind} {args : List String} {x : Except Refusal Command} :
    ofArgs k args = x ↔ Gives k args x := by
  constructor
  · rintro rfl
    exact gives_ofArgs k args
  · intro h
    cases h with
    | tooFew h => exact if_pos h
    | tooMany h => exact ofArgs_of_tooMany h
    | address ht ha =>
      rw [ofArgs_of_takes ht, readAddress, ha]
      rfl
    | badAddress ht hf =>
      rw [ofArgs_of_takes ht, readAddress, hf]
      rfl
    | topic t => rw [ofArgs_info, Topic.ofName?_eq_some_iff.2 rfl]
    | unknownTopic h =>
      rename_i word
      rw [ofArgs_info]
      cases hw : Topic.ofName? word with
      | some t => exact absurd (Topic.ofName?_eq_some_iff.1 hw) (h t)
      | none => rfl

/-! ## Lines -/

theorem wordsOf_eq (line : String) : wordsOf line = (words line.toList).map String.ofList := by
  unfold wordsOf
  rw [words_eq_splitOnP]

theorem ofWords_eq_iff {ws : List (List Char)} {x : Except Refusal Command} :
    ofWords ws = x ↔ Means (ws.map String.ofList) x := by
  cases ws with
  | nil =>
    constructor
    · rintro rfl
      exact .nothing
    · rintro ⟨⟩
      rfl
  | cons name args =>
    unfold ofWords
    simp only [List.map_cons]
    cases hk : Kind.ofName? name with
    | none =>
      have hnone := Kind.ofName?_eq_none_iff.1 hk
      constructor
      · rintro rfl
        exact .unknown hnone
      · intro h
        cases h with
        | unknown => rfl
        | command hk' => exact absurd hk' (hnone _)
    | some k =>
      have hcalled := Kind.ofName?_eq_some_iff.1 hk
      constructor
      · intro h
        exact .command hcalled (ofArgs_eq_iff.1 h)
      · intro h
        cases h with
        | unknown h => exact absurd hcalled (h k)
        | command hk' hx =>
          obtain rfl := Option.some.inj (hk.symm.trans (Kind.ofName?_eq_some_iff.2 hk'))
          exact ofArgs_eq_iff.2 hx

/-- A line is read as what its words mean. -/
theorem parse_eq_iff {line : String} {x : Except Refusal Command} : parse line = x ↔ Means (wordsOf line) x := by
  rw [wordsOf_eq]
  exact ofWords_eq_iff

/-! ## The text of a command -/

theorem Parsed.isWord {c : Command} (h : c.Parsed) : ∀ w ∈ c.kind.name :: c.args, IsWord w := by
  have haddress : ∀ {a : String}, Address.normalize a = .ok a → IsWord a := fun {a} ha =>
    ⟨fun h => absurd (h ▸ ha) (by decide), Address.not_isBlank_of_normalize ha⟩
  rw [List.forall_mem_cons]
  refine ⟨c.kind.isWord_name, ?_⟩
  cases h with
  | connect hu ht | disconnect hu ht =>
    exact List.forall_mem_cons.2 ⟨hu, List.forall_mem_singleton.2 (haddress ht)⟩
  | disable hh | enable hh | failure hh => exact List.forall_mem_singleton.2 (haddress hh)
  | info t => exact List.forall_mem_singleton.2 t.isWord_name

/-- The arguments of a command that was read give it again. -/
theorem Parsed.gives {c : Command} (h : c.Parsed) : Gives c.kind c.args (.ok c) := by
  cases h with
  | connect hu ht => exact .address (.connect ..) ht
  | disconnect hu ht => exact .address (.disconnect ..) ht
  | disable hh => exact .address (.disable _) hh
  | enable hh => exact .address (.enable _) hh
  | failure hh => exact .address (.failure _) hh
  | info t => exact .topic t

theorem wordsOf_text {c : Command} (h : c.Parsed) : wordsOf c.text = c.kind.name :: c.args := by
  have hwords : words c.text.toList = (c.kind.name :: c.args).map String.toList := by
    unfold text
    rw [String.toList_intercalate]
    refine words_intercalate fun w hw => ?_
    obtain ⟨v, hv, rfl⟩ := List.mem_map.1 hw
    obtain ⟨hne, hblank⟩ := h.isWord v hv
    exact ⟨fun hnil => hne (String.toList_eq_nil_iff.1 hnil), hblank⟩
  rw [wordsOf_eq, hwords, List.map_map]
  simp

/-- Lines are read by their grammar, and commands are read as they are written. What a line is read as is what its
words mean: no word is no command, the first word is the name of one of the six commands in letters of either case, the
number of the others is right, and only then are they an address that is put in canonical form, with a user that is
taken as it is, or a topic. Blanks count for nothing but the words that they part. A command that was read from a line
is read from its own text. -/
theorem parse_grammar (line : String) :
    (∀ x, parse line = x ↔ Means (wordsOf line) x) ∧
    (∀ line', wordsOf line' = wordsOf line → parse line' = parse line) ∧
    ∀ c, parse line = .ok c → parse c.text = .ok c := by
  refine ⟨fun x => parse_eq_iff, fun line' hwords => ?_, fun c hc => ?_⟩
  · rw [parse_eq_iff, hwords, ← parse_eq_iff]
  · have hparsed := parsed_of_parse hc
    rw [parse_eq_iff, wordsOf_text hparsed]
    exact .command c.kind.called_name hparsed.gives

example : parse "\u00a0Connect Ümit [FE80::1]:+22\r" = .ok (.connect "Ümit" "[fe80::1]:22") := by decide +kernel

end Command

end SessionRouting
