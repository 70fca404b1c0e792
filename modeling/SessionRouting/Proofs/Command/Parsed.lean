/-
What comes of reading a command line. Whatever the line, the arguments of the command that is read are in order
(`Parsed`): its addresses are canonical and its user is a word. A line that is no command is refused for a reason that
names nothing but words of the line (`Misread`).
-/
import SessionRouting.Command.Parse
import SessionRouting.Proofs.Address.Canonical

namespace SessionRouting

open Text

/-- A text that is one word: it is not empty and holds no blanks. -/
def Text.IsWord (s : String) : Prop := s ≠ "" ∧ ∀ c ∈ s.toList, isBlank c = false

namespace Command

/-- Commands as they are read: users are words, and addresses are canonical. -/
inductive Parsed : Command → Prop
  | connect {user target : String} (hu : IsWord user) (ht : Address.normalize target = .ok target) :
    Parsed (.connect user target)
  | disconnect {user target : String} (hu : IsWord user) (ht : Address.normalize target = .ok target) :
    Parsed (.disconnect user target)
  | disable {host : String} (hh : Address.normalize host = .ok host) : Parsed (.disable host)
  | enable {host : String} (hh : Address.normalize host = .ok host) : Parsed (.enable host)
  | failure {host : String} (hh : Address.normalize host = .ok host) : Parsed (.failure host)
  | info (topic : Topic) : Parsed (.info topic)

/-- Why words are not read as a command. -/
inductive Misread (ws : List String) : Refusal → Prop
  | emptyLine : Misread ws .emptyLine
  | unknownCommand {word : String} (hw : word ∈ ws) : Misread ws (.unknownCommand word)
  | tooFewArguments (k : Kind) : Misread ws (.tooFewArguments k)
  | tooManyArguments (k : Kind) : Misread ws (.tooManyArguments k)
  | badAddress {word : String} {f : Address.Fault} (hw : word ∈ ws) (hf : Address.normalize word = .error f) :
    Misread ws (.badAddress f)
  | unknownTopic {word : String} (hw : word ∈ ws) : Misread ws (.unknownTopic word)

/-- What words are read as. -/
def Reading (ws : List String) : Except Refusal Command → Prop
  | .ok c => c.Parsed
  | .error e => Misread ws e

theorem reading_address {ws : List String} {word : String} (hw : word ∈ ws) {f : String → Command}
    (hf : ∀ a, Address.normalize a = .ok a → (f a).Parsed) : Reading ws ((readAddress word).map f) := by
  unfold readAddress
  cases hn : Address.normalize word with
  | ok a => exact hf a (Address.normalize_normalize hn)
  | error e => exact .badAddress hw hn

theorem reading_ofArgs (k : Kind) {args : List String} (hargs : ∀ w ∈ args, IsWord w) :
    Reading args (ofArgs k args) := by
  unfold ofArgs
  split
  · exact .tooFewArguments k
  · split
    case h_1 user _ _ => exact reading_address (by simp) fun a ha => .connect (hargs user (by simp)) ha
    case h_2 user _ _ => exact reading_address (by simp) fun a ha => .disconnect (hargs user (by simp)) ha
    case h_3 => exact reading_address (by simp) fun a ha => .disable ha
    case h_4 => exact reading_address (by simp) fun a ha => .enable ha
    case h_5 => exact reading_address (by simp) fun a ha => .failure ha
    case h_6 =>
      split
      · exact .info _
      · exact .unknownTopic (by simp)
    case h_7 => exact .tooManyArguments k

theorem Misread.mono {ws ws' : List String} (hs : ws ⊆ ws') {e : Refusal} (h : Misread ws e) : Misread ws' e := by
  cases h with
  | emptyLine => exact .emptyLine
  | unknownCommand hw => exact .unknownCommand (hs hw)
  | tooFewArguments k => exact .tooFewArguments k
  | tooManyArguments k => exact .tooManyArguments k
  | badAddress hw hf => exact .badAddress (hs hw) hf
  | unknownTopic hw => exact .unknownTopic (hs hw)

theorem isWord_of_mem_words {s : List Char} {w : List Char} (hw : w ∈ words s) : IsWord (String.ofList w) := by
  obtain ⟨hne, hblank⟩ := words_spec s w hw
  refine ⟨fun h => hne ?_, fun c hc => hblank c (by rwa [String.toList_ofList] at hc)⟩
  rw [← String.toList_ofList (l := w), h]
  rfl

/-- Every line is read as a command in order, or refused for a reason that its words give. -/
theorem reading_parse (line : String) : Reading ((words line.toList).map String.ofList) (parse line) := by
  have hwords : ∀ w ∈ (words line.toList).map String.ofList, IsWord w := by
    intro w hw
    obtain ⟨v, hv, rfl⟩ := List.mem_map.1 hw
    exact isWord_of_mem_words hv
  unfold parse ofWords
  cases hs : words line.toList with
  | nil => exact .emptyLine
  | cons name args =>
    rw [hs] at hwords
    simp only [List.map_cons]
    cases hk : Kind.ofName? name with
    | none => exact Misread.unknownCommand (List.mem_cons_self ..)
    | some k =>
      have hread := reading_ofArgs k fun w hw => hwords w (List.mem_cons_of_mem _ hw)
      simp only
      generalize ofArgs k (args.map String.ofList) = x at hread
      cases x with
      | ok c => exact hread
      | error e => exact Misread.mono (List.subset_cons_self ..) hread

theorem parsed_of_parse {line : String} {c : Command} (h : parse line = .ok c) : c.Parsed := by
  have := reading_parse line
  rwa [h] at this

end Command

end SessionRouting
