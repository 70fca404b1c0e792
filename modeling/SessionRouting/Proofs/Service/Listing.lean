/-
Listings read back. A listing has one line for each row, in the order of the keys, and `SessionRow.read?` and
`VerdictRow.read?` take a line apart again with nothing but the payload to go by. A user can be any word, so that `@`,
`=` and whole labels may stand in a line where nobody expects them; a reader still finds its way, since no field holds
a blank and no target holds an `@`.
-/
import SessionRouting.Proofs.Net.Grammar
import SessionRouting.Proofs.Service.Canonical
import SessionRouting.Proofs.Text.Split
import Mathlib.Data.String.Basic

namespace SessionRouting

open Health Text

/-! ## Lines and labelled fields -/

namespace Text

/-- The lines of a payload. The empty payload has none. -/
def linesOf (payload : String) : List (List Char) :=
  if payload = "" then [] else fields '\n' payload.toList

/-- The fields of a line, each without the label before it. -/
def valuesOf (labels : List String) (line : List Char) : List (List Char) :=
  List.zipWith (fun label field => field.drop label.toList.length) labels (fields ' ' line)

/-- A line of fields, each a value behind its label. -/
def labelled (parts : List (String × List Char)) : List Char :=
  [' '].intercalate (parts.map fun part => part.1.toList ++ part.2)

/-- No field holds a blank. -/
def Unbroken (parts : List (String × List Char)) : Prop :=
  ∀ part ∈ parts, ∀ c ∈ part.1.toList ++ part.2, isBlank c = false

theorem linesOf_intercalate {lines : List String} (h : ∀ line ∈ lines, line ≠ "" ∧ '\n' ∉ line.toList) :
    linesOf ("\n".intercalate lines) = lines.map String.toList := by
  cases lines with
  | nil => rfl
  | cons line lines =>
    have hfields : fields '\n' ("\n".intercalate (line :: lines)).toList = (line :: lines).map String.toList := by
      rw [String.toList_intercalate]
      refine fields_intercalate (by simp) fun f hf => ?_
      obtain ⟨l, hl, rfl⟩ := List.mem_map.1 hf
      exact (h l hl).2
    unfold linesOf
    split
    · -- an empty payload would be one empty line
      rename_i hempty
      rw [hempty] at hfields
      have hline : line.toList = [] := (List.cons.inj hfields).1.symm
      exact absurd (String.toList_eq_nil_iff.1 hline) (h line (by simp)).1
    · exact hfields

variable {parts : List (String × List Char)}

theorem unbroken_nil : Unbroken [] := nofun

theorem Unbroken.cons {label : String} {value : List Char} (hlabel : ∀ c ∈ label.toList, isBlank c = false)
    (hvalue : ∀ c ∈ value, isBlank c = false) (h : Unbroken parts) : Unbroken ((label, value) :: parts) :=
  List.forall_mem_cons.2 ⟨List.forall_mem_append.2 ⟨hlabel, hvalue⟩, h⟩

theorem fields_labelled (hne : parts ≠ []) (h : Unbroken parts) :
    fields ' ' (labelled parts) = parts.map fun part => part.1.toList ++ part.2 := by
  refine fields_intercalate (by simpa using hne) fun f hf hblank => ?_
  obtain ⟨part, hpart, rfl⟩ := List.mem_map.1 hf
  exact absurd (h part hpart _ hblank) (by decide)

/-- Values without blanks are read back. -/
theorem valuesOf_labelled (hne : parts ≠ []) (h : Unbroken parts) :
    valuesOf (parts.map Prod.fst) (labelled parts) = parts.map Prod.snd := by
  unfold valuesOf
  rw [fields_labelled hne h, List.zipWith_map, List.zipWith_self]
  simp only [List.drop_left]

theorem newline_notMem_labelled (hne : parts ≠ []) (h : Unbroken parts) : '\n' ∉ labelled parts := by
  intro hc
  rcases @mem_of_mem_fields ' ' _ _ hc with hsep | ⟨f, hf, hcf⟩
  · exact absurd hsep (by decide)
  · rw [fields_labelled hne h] at hf
    obtain ⟨part, hpart, rfl⟩ := List.mem_map.1 hf
    exact absurd (h part hpart _ hcf) (by decide)

end Text

/-! ## Values without blanks -/

/-- The text of a moment holds no blanks. -/
theorem Moment.not_isBlank_text (m : Moment) : ∀ c ∈ m.text.toList, isBlank c = false := by
  have hdigits : ∀ width n, ∀ c ∈ decimalPadded width n, isBlank c = false := fun _ _ _ hc =>
    not_isBlank_of_isDigit (isDigit_of_mem_decimalPadded hc)
  have hyear : ∀ year, ∀ c ∈ yearText year, isBlank c = false := by
    intro year c hc
    unfold yearText at hc
    split_ifs at hc
    · rcases List.mem_cons.1 hc with rfl | hc
      · decide
      · exact hdigits _ _ c hc
    · exact hdigits _ _ c hc
    · rcases List.mem_cons.1 hc with rfl | hc
      · decide
      · exact hdigits _ _ c hc
  intro c hc
  simp only [text, String.toList_ofList, List.mem_append, List.mem_cons, List.not_mem_nil, or_false, or_assoc] at hc
  rcases hc with hc | rfl | hc | rfl | hc | rfl | hc | rfl | hc | rfl | hc | rfl
  · exact hyear _ c hc
  all_goals first | decide | exact hdigits _ _ c hc

/-! ## Rows and their readers -/

/-- What a listing tells about a session entry. -/
structure SessionRow where
  user : String
  target : String
  backend : String
  count : Nat
  time : String
  deriving DecidableEq, Repr

/-- What a listing tells about a verdict. -/
structure VerdictRow where
  address : String
  verdict : Verdict
  time : String
  deriving DecidableEq, Repr

namespace SessionRow

/-- The row of an entry. -/
def of (entry : Session.Key × Session) : SessionRow where
  user := entry.1.user
  target := entry.1.target
  backend := entry.2.backend
  count := entry.2.count
  time := entry.2.lastActive.text

/-- Rows are in the order of their users and then of their targets. -/
def Before (a b : SessionRow) : Prop := a.user < b.user ∨ a.user = b.user ∧ a.target < b.target

theorem before_of_compare {a b : Session.Key × Session} (h : compare a.1 b.1 = .lt) : Before (of a) (of b) := by
  have h : (compare a.1.user b.1.user).then (compare a.1.target b.1.target) = .lt := h
  rcases Ordering.then_eq_lt.1 h with hlt | ⟨heq, hlt⟩
  · exact .inl (compare_lt_iff_lt.1 hlt)
  · exact .inr ⟨Std.LawfulEqOrd.eq_of_compare heq, compare_lt_iff_lt.1 hlt⟩

/-- Reads a row: the fields between blanks, the first of them cut at its last `@`. -/
def read? (line : List Char) : Option SessionRow :=
  match valuesOf ["id=", "dest=", "n=", "ts="] line with
  | [id, backend, count, time] =>
    (cutLast '@' id).map fun (user, target) =>
      { user := String.ofList user
        target := String.ofList target
        backend := String.ofList backend
        count := valueIn 10 count
        time := String.ofList time }
  | _ => none

end SessionRow

namespace VerdictRow

/-- The row of a verdict. -/
def of (entry : String × Record) : VerdictRow where
  address := entry.1
  verdict := entry.2.verdict
  time := entry.2.reached.text

/-- Rows are in the order of their addresses. -/
def Before (a b : VerdictRow) : Prop := a.address < b.address

/-- Reads a row: the fields between blanks, the second of them by name. -/
def read? (line : List Char) : Option VerdictRow :=
  match valuesOf ["host=", "state=", "ts="] line with
  | [address, name, time] =>
    ([.up, .down, .disabled].find? fun v : Verdict => v.name.toList = name).map fun verdict =>
      { address := String.ofList address, verdict, time := String.ofList time }
  | _ => none

end VerdictRow

theorem Health.Verdict.find?_name (v : Verdict) :
    [Verdict.up, .down, .disabled].find? (fun v' => v'.name.toList = v.name.toList) = some v := by
  cases v <;> decide

namespace Service

/-- The fields in the line of a session entry. -/
def sessionParts (entry : Session.Key × Session) : List (String × List Char) :=
  [("id=", entry.1.text.toList), ("dest=", entry.2.backend.toList), ("n=", decimal entry.2.count),
    ("ts=", entry.2.lastActive.text.toList)]

/-- The fields in the line of a verdict. -/
def verdictParts (entry : String × Record) : List (String × List Char) :=
  [("host=", entry.1.toList), ("state=", entry.2.verdict.name.toList), ("ts=", entry.2.reached.text.toList)]

theorem toList_sessionLine (entry : Session.Key × Session) :
    (sessionLine entry).toList = labelled (sessionParts entry) := by
  simp [sessionLine, sessionParts, labelled, decimal, List.intercalate]

theorem toList_verdictLine (entry : String × Record) :
    (verdictLine entry).toList = labelled (verdictParts entry) := by
  simp [verdictLine, verdictParts, labelled, List.intercalate]

/-! ## Reading a line -/

theorem unbroken_sessionParts {entry : Session.Key × Session}
    (huser : ∀ c ∈ entry.1.user.toList, isBlank c = false) (htarget : ∀ c ∈ entry.1.target.toList, isBlank c = false)
    (hbackend : ∀ c ∈ entry.2.backend.toList, isBlank c = false) : Unbroken (sessionParts entry) := by
  have hid : ∀ c ∈ entry.1.text.toList, isBlank c = false := by
    unfold Session.Key.text
    rw [String.toList_append, String.toList_append]
    exact List.forall_mem_append.2 ⟨List.forall_mem_append.2 ⟨huser, by simp [isBlank]⟩, htarget⟩
  have hcount : ∀ c ∈ decimal entry.2.count, isBlank c = false := fun _ hc =>
    not_isBlank_of_isDigit (isDigit_of_mem_decimal hc)
  unfold sessionParts
  refine .cons (by simp [isBlank]) hid (.cons (by simp [isBlank]) hbackend ?_)
  exact .cons (by simp [isBlank]) hcount (.cons (by simp [isBlank]) entry.2.lastActive.not_isBlank_text unbroken_nil)

theorem unbroken_verdictParts {entry : String × Record} (haddress : ∀ c ∈ entry.1.toList, isBlank c = false) :
    Unbroken (verdictParts entry) := by
  have hname : ∀ c ∈ entry.2.verdict.name.toList, isBlank c = false := by
    cases entry.2.verdict <;> simp [Verdict.name, isBlank]
  unfold verdictParts
  refine .cons (by simp [isBlank]) haddress (.cons (by simp [isBlank]) hname ?_)
  exact .cons (by simp [isBlank]) entry.2.reached.not_isBlank_text unbroken_nil

/-- The line of an entry is read as its row when its texts hold no blanks and its target no `@`. -/
theorem read?_sessionLine {entry : Session.Key × Session} (h : Unbroken (sessionParts entry))
    (hat : '@' ∉ entry.1.target.toList) : SessionRow.read? (sessionLine entry).toList = some (.of entry) := by
  have hvalues := valuesOf_labelled (List.cons_ne_nil _ _) h
  have hcut : cutLast '@' entry.1.text.toList = some (entry.1.user.toList, entry.1.target.toList) := by
    unfold Session.Key.text
    rw [String.toList_append, String.toList_append, List.append_assoc]
    exact cutLast_append _ hat
  rw [toList_sessionLine]
  unfold SessionRow.read?
  rw [show valuesOf ["id=", "dest=", "n=", "ts="] (labelled (sessionParts entry)) = _ from hvalues]
  simp [hcut, SessionRow.of, valueIn_decimal]

/-- The line of a verdict is read as its row when its address holds no blanks. -/
theorem read?_verdictLine {entry : String × Record} (h : Unbroken (verdictParts entry)) :
    VerdictRow.read? (verdictLine entry).toList = some (.of entry) := by
  have hvalues := valuesOf_labelled (List.cons_ne_nil _ _) h
  rw [toList_verdictLine]
  unfold VerdictRow.read?
  rw [show valuesOf ["host=", "state=", "ts="] (labelled (verdictParts entry)) = _ from hvalues]
  simp [Verdict.find?_name, VerdictRow.of]

/-! ## Reading a listing -/

/-- A payload lists rows: it is empty if there are none and has otherwise one line for each, they come in strictly
increasing order, and reading the lines one by one gives them back. -/
structure Lists {α : Type} (read? : List Char → Option α) (before : α → α → Prop) (payload : String) (rows : List α) :
    Prop where
  empty : payload = "" ↔ rows = []
  length : (linesOf payload).length = rows.length
  sorted : rows.Pairwise before
  read : (linesOf payload).mapM read? = some rows

/-- Nothing but the payload tells which rows it lists. -/
theorem Lists.unique {α : Type} {read? : List Char → Option α} {before : α → α → Prop} {payload : String}
    {rows rows' : List α} (h : Lists read? before payload rows) (h' : Lists read? before payload rows') :
    rows = rows' :=
  Option.some.inj (h.read.symm.trans h'.read)

/-- Lines that are read as rows, joined, are a list of the rows. -/
theorem lists_of_entries {α β : Type} {read? : List Char → Option α} {before : α → α → Prop} {line : β → String}
    {row : β → α} {entries : List β} (hline : ∀ e ∈ entries, line e ≠ "" ∧ '\n' ∉ (line e).toList)
    (hread : ∀ e ∈ entries, read? (line e).toList = some (row e))
    (hsorted : entries.Pairwise fun a b => before (row a) (row b)) :
    Lists read? before ("\n".intercalate (entries.map line)) (entries.map row) := by
  have hlines : linesOf ("\n".intercalate (entries.map line)) = entries.map fun e => (line e).toList := by
    rw [linesOf_intercalate (by simpa using hline), List.map_map]
    rfl
  refine ⟨⟨fun hempty => ?_, fun hnil => ?_⟩, by rw [hlines, List.length_map, List.length_map],
    List.pairwise_map.2 hsorted, ?_⟩
  · rw [hempty] at hlines
    exact List.map_eq_nil_iff.2 (List.map_eq_nil_iff.1 hlines.symm)
  · rw [List.map_eq_nil_iff.1 hnil]
    rfl
  · rw [hlines, mapM_eq_some_iff, List.forall₂_map_left_iff, List.forall₂_map_right_iff]
    exact List.forall₂_same.2 hread

variable {σ : Type}

/-- The rows of all session entries, in the order of their keys. -/
def sessionRows (t : Service σ) : List SessionRow := t.sessions.toList.map .of

/-- The rows of all verdicts, in the order of their addresses. -/
def verdictRows (t : Service σ) : List VerdictRow := t.watch.records.toList.map .of

theorem mem_sessionRows {t : Service σ} {row : SessionRow} :
    row ∈ t.sessionRows ↔ ∃ k e, t.sessions[k]? = some e ∧ SessionRow.of (k, e) = row := by
  simp only [sessionRows, List.mem_map, Prod.exists, Std.ExtTreeMap.mem_toList_iff_getElem?_eq_some]

theorem mem_verdictRows {t : Service σ} {row : VerdictRow} :
    row ∈ t.verdictRows ↔ ∃ a v, t.watch.records[a]? = some v ∧ VerdictRow.of (a, v) = row := by
  simp only [verdictRows, List.mem_map, Prod.exists, Std.ExtTreeMap.mem_toList_iff_getElem?_eq_some]

theorem length_sessionRows (t : Service σ) : t.sessionRows.length = t.sessions.size := by
  rw [sessionRows, List.length_map, Std.ExtTreeMap.length_toList]

theorem length_verdictRows (t : Service σ) : t.verdictRows.length = t.watch.records.size := by
  rw [verdictRows, List.length_map, Std.ExtTreeMap.length_toList]

variable {s : Settings} {lines : List String} {t : Service σ}

theorem Canonical.lists_sessions [World σ] (h : Canonical s lines t) :
    Lists SessionRow.read? SessionRow.Before (t.listing .connections) t.sessionRows := by
  have hentry : ∀ entry ∈ t.sessions.toList, Unbroken (sessionParts entry) ∧ '@' ∉ entry.1.target.toList := by
    rintro ⟨k, e⟩ hmem
    have he := Std.ExtTreeMap.mem_toList_iff_getElem?_eq_some.1 hmem
    obtain ⟨huser, htarget⟩ := h.key k (Std.ExtTreeMap.getElem?_eq_some_iff.1 he).1
    have hbackend := (h.record _ (h.entry k e he).2.1).1
    exact ⟨unbroken_sessionParts huser.2 (Address.not_isBlank_of_normalize htarget)
      (Address.not_isBlank_of_normalize hbackend), Address.at_notMem_of_normalize htarget⟩
  refine lists_of_entries (fun entry hmem => ⟨by simp [sessionLine], ?_⟩) (fun entry hmem => ?_) ?_
  · rw [toList_sessionLine]
    exact newline_notMem_labelled (List.cons_ne_nil _ _) (hentry entry hmem).1
  · exact read?_sessionLine (hentry entry hmem).1 (hentry entry hmem).2
  · exact Std.ExtTreeMap.ordered_keys_toList.imp SessionRow.before_of_compare

theorem Canonical.lists_verdicts [World σ] (h : Canonical s lines t) :
    Lists VerdictRow.read? VerdictRow.Before (t.listing .checks) t.verdictRows := by
  have hentry : ∀ entry ∈ t.watch.records.toList, Unbroken (verdictParts entry) := by
    rintro ⟨a, v⟩ hmem
    have hv := Std.ExtTreeMap.mem_toList_iff_getElem?_eq_some.1 hmem
    have ha := (h.record a (Std.ExtTreeMap.getElem?_eq_some_iff.1 hv).1).1
    exact unbroken_verdictParts (Address.not_isBlank_of_normalize ha)
  refine lists_of_entries (fun entry hmem => ⟨by simp [verdictLine], ?_⟩) (fun entry hmem => ?_) ?_
  · rw [toList_verdictLine]
    exact newline_notMem_labelled (List.cons_ne_nil _ _) (hentry entry hmem)
  · exact read?_verdictLine (hentry entry hmem)
  · exact Std.ExtTreeMap.ordered_keys_toList.imp fun {a b} hab => compare_lt_iff_lt.1 hab

/-! ## Reachable states -/

variable [World σ]

/-- The states that commands lead to under settings and their policy. Each command is read from a line, and is carried
out alone or together with the remarks on its line, with the directory as it answers meanwhile. -/
inductive Reached (s : Settings) (p : Policy) : Service σ → Prop
  | start (w : σ) : Reached s p (start s.healthCheck.intervalSecs w)
  | next {t : Service σ} {line : String} {c : Command} (ht : Reached s p t) (hc : Command.parse line = .ok c)
    (d : Directory) : Reached s p (next ⟨p, d⟩ t c)
  | answered {t : Service σ} (ht : Reached s p t) (line : String) (d : Directory) :
    Reached s p (answered ⟨p, d⟩ t line)

/-- A state that commands lead to under some settings. -/
def Reachable (t : Service σ) : Prop := ∃ s p, s.compilePolicy = .ok p ∧ Reached s p t

theorem Reached.canonical {s : Settings} {p : Policy} (hp : s.compilePolicy = .ok p) {t : Service σ}
    (ht : Reached s p t) : ∃ lines, Canonical s lines t := by
  induction ht with
  | start w => exact ⟨[], .start s _ w⟩
  | @next _ line _ _ hc d ih =>
    obtain ⟨lines, h⟩ := ih
    exact ⟨lines ++ [line], h.next (r := ⟨p, d⟩) hp hc⟩
  | answered _ line d ih =>
    obtain ⟨lines, h⟩ := ih
    exact ⟨lines ++ [line], h.answered (r := ⟨p, d⟩) hp line⟩

theorem Reachable.lists {t : Service σ} (ht : Reachable t) :
    Lists SessionRow.read? SessionRow.Before (t.listing .connections) t.sessionRows ∧
    Lists VerdictRow.read? VerdictRow.Before (t.listing .checks) t.verdictRows := by
  obtain ⟨s, p, hp, ht⟩ := ht
  obtain ⟨lines, h⟩ := ht.canonical hp
  exact ⟨h.lists_sessions, h.lists_verdicts⟩

/-- An `info` is answered with the listing. In each state that commands lead to, the listing of sessions has one line
for each entry, in strictly increasing order of users and then of targets, and its rows can be read off it; so has the
listing of verdicts, in strictly increasing order of addresses. Where rows differ, listings do. -/
theorem listing_lossless {t : Service σ} (ht : Reachable t) :
    (∀ r topic, (execute r (.info topic)).run t = (.ok { reply := .bulk (t.listing topic) }, t)) ∧
    (Lists SessionRow.read? SessionRow.Before (t.listing .connections) t.sessionRows ∧
      t.sessionRows.length = t.sessions.size ∧
      ∀ row, row ∈ t.sessionRows ↔ ∃ k e, t.sessions[k]? = some e ∧ SessionRow.of (k, e) = row) ∧
    (Lists VerdictRow.read? VerdictRow.Before (t.listing .checks) t.verdictRows ∧
      t.verdictRows.length = t.watch.records.size ∧
      ∀ row, row ∈ t.verdictRows ↔ ∃ a v, t.watch.records[a]? = some v ∧ VerdictRow.of (a, v) = row) ∧
    ∀ t' : Service σ, Reachable t' →
      (t'.listing .connections = t.listing .connections → t'.sessionRows = t.sessionRows) ∧
      (t'.listing .checks = t.listing .checks → t'.verdictRows = t.verdictRows) := by
  obtain ⟨hsessions, hverdicts⟩ := ht.lists
  refine ⟨fun _ _ => rfl, ⟨hsessions, length_sessionRows t, fun _ => mem_sessionRows⟩,
    ⟨hverdicts, length_verdictRows t, fun _ => mem_verdictRows⟩, fun t' ht' => ?_⟩
  obtain ⟨hsessions', hverdicts'⟩ := ht'.lists
  constructor
  · intro heq
    rw [heq] at hsessions'
    exact hsessions'.unique hsessions
  · intro heq
    rw [heq] at hverdicts'
    exact hverdicts'.unique hverdicts

/-- A user with an `@` and a label in the name, after a `connect` and a `disable`. -/
theorem listing_of_odd_user :
    let s : Settings := { policy := { routes := (∅ : Routes).insert Policy.defaultRoute ["H1"] } }
    let p : Policy :=
      { global := ⟨some .ordered, (∅ : Routes).insert Policy.defaultRoute ["h1:22"]⟩
        groups := ∅
        users := ∅ }
    let lines := [("connect u@dest=h Svc", Directory.ofMembers ((∅ : Membership.Members).insert "u@dest=h" ∅)),
      ("disable H2:022", .ofMembers ∅)]
    let t := served p (Service.start s.healthCheck.intervalSecs (⟨0⟩ : Script fun _ => true)) lines
    Reachable t ∧
    t.listing .connections = "id=u@dest=h@svc:22 dest=h1:22 n=1 ts=1970-01-01T00:00:00Z" ∧
    t.sessionRows = [⟨"u@dest=h", "svc:22", "h1:22", 1, "1970-01-01T00:00:00Z"⟩] ∧
    Lists SessionRow.read? SessionRow.Before (t.listing .connections) t.sessionRows ∧
    t.listing .checks =
      "host=h1:22 state=up ts=1970-01-01T00:00:00Z\nhost=h2:22 state=disabled ts=1970-01-01T00:00:00Z" ∧
    Lists VerdictRow.read? VerdictRow.Before (t.listing .checks) t.verdictRows := by
  intro s p lines t
  have ht : Reachable t := ⟨s, p, rfl, .answered (.answered (.start _) _ _) _ _⟩
  obtain ⟨-, ⟨hsessions, -⟩, ⟨hverdicts, -⟩, -⟩ := listing_lossless ht
  exact ⟨ht, by decide +kernel, by decide +kernel, hsessions, by decide +kernel, hverdicts⟩

end Service

end SessionRouting
