/-
The grammar of addresses. A host is a name or an IPv6 literal between brackets (`IsHost`), and after it comes a port or
nothing (`Port`). An address is read exactly if it is written by this grammar; otherwise its host is at fault, or, if
the host is none, its port. What is read is given in one normal form: `normalize_exact`.
-/
import SessionRouting.Proofs.Address.Canonical
import SessionRouting.Proofs.Net.Grammar

namespace SessionRouting.Address

open Text

/-! ## Texts of addresses -/

/-- The texts of hosts: names of ASCII letters, digits, hyphens, dots and underscores, and IPv6 literals. -/
inductive IsHost : List Char → Prop
  | name {s : List Char} (hne : s ≠ []) (hs : ∀ c ∈ s, c.isAlphanum = true ∨ c = '-' ∨ c = '.' ∨ c = '_') : IsHost s
  | literal {l : List Char} {groups : List Nat} (h : Net.Ipv6.Writes l groups) : IsHost ('[' :: l ++ [']'])

/-- What may come after a host, and the port that it gives: nothing, or a colon and a number from 1 to 65535, with or
without a plus sign. -/
inductive Port : List Char → Nat → Prop
  | absent : Port [] 22
  | number {sign digits : List Char} (hsign : sign = [] ∨ sign = ['+']) (hne : digits ≠ [])
    (hdigits : ∀ c ∈ digits, c.isDigit = true) (hbound : 1 ≤ valueIn 10 digits ∧ valueIn 10 digits ≤ 65535) :
    Port (':' :: (sign ++ digits)) (valueIn 10 digits)

/-- A text that writes a host, and a port after it or none. -/
def Writes (s host : List Char) (port : Nat) : Prop := ∃ after, s = host ++ after ∧ IsHost host ∧ Port after port

theorem Writes.isHost {s host : List Char} {port : Nat} (h : Writes s host port) : IsHost host := by
  obtain ⟨after, -, hhost, -⟩ := h
  exact hhost

/-- The host part of a text and what comes after it, whether they are in order or not. What an opening bracket begins
ends with the first closing one, and anything else before the last colon. -/
inductive Parts : List Char → List Char → Prop
  | bracketed {l after : List Char} (hl : ']' ∉ l) : Parts ('[' :: l ++ [']']) after
  | unclosed {l : List Char} (hl : ']' ∉ l) : Parts ('[' :: l) []
  | colon {host port : List Char} (hhost : host.head? ≠ some '[') (hport : ':' ∉ port) : Parts host (':' :: port)
  | plain {host : List Char} (hhost : host.head? ≠ some '[') (hcolon : ':' ∉ host) : Parts host []

/-- Every text has a host part. -/
theorem exists_parts (s : List Char) : ∃ host after, s = host ++ after ∧ Parts host after := by
  by_cases hopen : s.head? = some '['
  · obtain ⟨r, rfl⟩ : ∃ r, s = '[' :: r := List.head?_eq_some_iff.1 hopen
    by_cases hclose : ']' ∈ r
    · obtain ⟨l, after, rfl, hl⟩ := List.eq_append_cons_of_mem hclose
      exact ⟨'[' :: l ++ [']'], after, by simp, .bracketed hl⟩
    · exact ⟨'[' :: r, [], by simp, .unclosed hclose⟩
  · by_cases hcolon : ':' ∈ s
    · -- the last colon is the first one from the end
      obtain ⟨port, host, hs, hport⟩ := List.eq_append_cons_of_mem (List.mem_reverse.2 hcolon)
      obtain rfl : s = host.reverse ++ ':' :: port.reverse := by
        rw [← List.reverse_reverse s, hs]
        simp
      refine ⟨host.reverse, ':' :: port.reverse, rfl, .colon ?_ (mt List.mem_reverse.1 hport)⟩
      intro h
      exact hopen (by rw [List.head?_append, h]; rfl)
    · exact ⟨s, [], by simp, .plain hopen hcolon⟩

/-! ## Hosts -/

theorem not_isHostName_of_open {s : List Char} : ¬ isHostName ('[' :: s) = true := by
  simp [isHostName, isHostChar]

theorem isHostName_iff {s : List Char} :
    isHostName s = true ↔ s ≠ [] ∧ ∀ c ∈ s, c.isAlphanum = true ∨ c = '-' ∨ c = '.' ∨ c = '_' := by
  simp [isHostName, isHostChar, or_assoc]

theorem isHost_iff_isHostName {s : List Char} (hs : s.head? ≠ some '[') : IsHost s ↔ isHostName s = true := by
  constructor
  · intro h
    cases h with
    | name hne hs => exact isHostName_iff.2 ⟨hne, hs⟩
    | literal h => exact absurd rfl hs
  · intro h
    obtain ⟨hne, hs⟩ := isHostName_iff.1 h
    exact .name hne hs

theorem isHost_iff_read? {l : List Char} : IsHost ('[' :: l ++ [']']) ↔ (Net.Ipv6.read? l).isNone = false := by
  constructor
  · intro h
    generalize hs : '[' :: l ++ [']'] = s at h
    cases h with
    | name hne hname =>
      subst hs
      exact absurd (isHostName_iff.2 ⟨hne, hname⟩) not_isHostName_of_open
    | literal h =>
      obtain rfl : l = _ := List.append_cancel_right (List.cons.inj hs).2
      rw [Net.Ipv6.read?_eq_some_iff.2 h]
      rfl
  · intro h
    rw [Option.isNone_eq_false_iff, Option.isSome_iff_exists] at h
    obtain ⟨groups, h⟩ := h
    exact .literal (Net.Ipv6.read?_eq_some_iff.1 h)

theorem close_notMem {l : List Char} {groups : List Nat} (h : Net.Ipv6.Writes l groups) : ']' ∉ l := by
  intro hmem
  have hread : (Net.Ipv6.read? l).isSome = true := by
    rw [Net.Ipv6.read?_eq_some_iff.2 h]
    rfl
  exact absurd (Net.Ipv6.isLiteralChar_of_read? hread _ hmem) (by decide)

theorem not_isHost_of_unclosed {l : List Char} (hl : ']' ∉ l) : ¬ IsHost ('[' :: l) := by
  intro h
  generalize hs : '[' :: l = s at h
  cases h with
  | name hne hname =>
    subst hs
    exact not_isHostName_of_open (isHostName_iff.2 ⟨hne, hname⟩)
  | literal h =>
    obtain rfl := (List.cons.inj hs).2
    simp at hl

theorem IsHost.ne_nil {s : List Char} (h : IsHost s) : s ≠ [] := by
  cases h with
  | name hne => exact hne
  | literal => simp

/-! ## Ports -/

theorem readPort_eq_some_iff {s : List Char} {n : Nat} : readPort s = some n ↔ Port (':' :: s) n := by
  constructor
  · intro h
    have hbounds := readPort_bounds h
    have hcount : readCount 65535 s = some n := by
      unfold readPort at h
      split at h
      · cases h
      · exact h
    obtain ⟨sign, digits, rfl, hsign, hread⟩ := readCount_eq_some_iff.1 hcount
    obtain ⟨hne, hdigits, -, rfl⟩ := readDigits_eq_some_iff.1 hread
    exact .number hsign hne hdigits hbounds
  · intro h
    generalize hs : ':' :: s = after at h
    cases h with
    | absent => cases hs
    | number hsign hne hdigits hbound =>
      obtain rfl := (List.cons.inj hs).2
      have hcount := readCount_eq_some_iff.2
        ⟨_, _, rfl, hsign, readDigits_eq_some_iff.2 ⟨hne, hdigits, hbound.2, rfl⟩⟩
      unfold readPort
      rw [hcount]
      split
      · rename_i h
        rw [Option.some.inj h] at hbound
        exact absurd hbound.1 (by decide)
      · rfl

/-- The port that is read from what comes after a host. -/
def readAfter : List Char → Option Nat
  | [] => some defaultPort
  | ':' :: p => readPort p
  | _ => none

theorem readAfter_eq_some_iff {after : List Char} {n : Nat} : readAfter after = some n ↔ Port after n := by
  unfold readAfter
  split
  · constructor
    · intro h
      cases h
      exact .absent
    · intro h
      cases h
      rfl
  · exact readPort_eq_some_iff
  · rename_i hnil hcolon
    constructor
    · intro h
      cases h
    · intro h
      cases h with
      | absent => exact absurd rfl hnil
      | number => exact absurd rfl (hcolon _)

/-! ## Reading -/

theorem shape_of_bracketed {l after : List Char} (hl : ']' ∉ l) :
    Shape.of ('[' :: l ++ [']'] ++ after) = .bracketed l after := by
  have hcut := cutFirst_append hl after
  simp [Shape.of, hcut]

theorem shape_of_unclosed {l : List Char} (hl : ']' ∉ l) : Shape.of ('[' :: l) = .unclosed := by
  have hcut : cutFirst ']' l = none := by
    cases h : cutFirst ']' l with
    | none => rfl
    | some p => exact absurd (by rw [cutFirst_eq_some h]; simp) hl
  simp [Shape.of, hcut]

theorem shape_of_head_ne {s : List Char} (hs : s.head? ≠ some '[') : Shape.of s =
    match cutLast ':' s with
    | some (host, port) => .plain host (some port)
    | none => .plain s none := by
  unfold Shape.of
  split
  · exact absurd rfl hs
  · rfl

theorem shape_of_colon {host port : List Char} (hhost : host.head? ≠ some '[') (hport : ':' ∉ port) :
    Shape.of (host ++ ':' :: port) = .plain host (some port) := by
  rw [shape_of_head_ne, cutLast_append host hport]
  cases host with
  | nil => simp
  | cons c host => exact hhost

theorem shape_of_plain {host : List Char} (hhost : host.head? ≠ some '[') (hcolon : ':' ∉ host) :
    Shape.of host = .plain host none := by
  rw [shape_of_head_ne hhost, cutLast_eq_none hcolon]

/-- A text whose host part is no host. -/
theorem parseTrimmed_of_not_isHost {host after : List Char} (hs : host ++ after ≠ []) (hp : Parts host after)
    (hhost : ¬ IsHost host) : parseTrimmed (host ++ after) = .error (.host (String.ofList (host ++ after))) := by
  rw [parseTrimmed_eq hs]
  cases hp with
  | bracketed hl =>
    rw [isHost_iff_read?, Bool.not_eq_false] at hhost
    simp only [shape_of_bracketed hl, if_pos hhost]
  | unclosed hl => rw [List.append_nil, shape_of_unclosed hl]
  | colon hopen hport =>
    rw [isHost_iff_isHostName hopen] at hhost
    simp only [shape_of_colon hopen hport, if_neg hhost]
  | plain hopen hcolon =>
    rw [isHost_iff_isHostName hopen] at hhost
    rw [List.append_nil, shape_of_plain hopen hcolon]
    simp only [if_neg hhost]

/-- A text whose host part is a host: what comes after it decides. -/
theorem parseTrimmed_of_isHost {host after : List Char} (hp : Parts host after) (hhost : IsHost host) :
    parseTrimmed (host ++ after) = match readAfter after with
      | some n => .ok ⟨lower host, n⟩
      | none => .error (.port (String.ofList (host ++ after))) := by
  have hs : host ++ after ≠ [] := fun h => hhost.ne_nil (List.append_eq_nil_iff.1 h).1
  rw [parseTrimmed_eq hs]
  cases hp with
  | bracketed hl =>
    rename_i l
    rw [isHost_iff_read?] at hhost
    have hlower : lower ('[' :: l ++ [']']) = '[' :: lower l ++ [']'] := List.map_append
    simp only [shape_of_bracketed hl, hhost, hlower, Bool.false_eq_true, if_false]
    cases after with
    | nil => rfl
    | cons c p =>
      by_cases hc : c = ':'
      · rw [hc]
        rfl
      · simp [readAfter, hc]
  | unclosed hl => exact absurd hhost (not_isHost_of_unclosed hl)
  | colon hopen hport =>
    rw [isHost_iff_isHostName hopen] at hhost
    simp only [shape_of_colon hopen hport, if_pos hhost]
    rfl
  | plain hopen hcolon =>
    rw [isHost_iff_isHostName hopen] at hhost
    simp only [List.append_nil, shape_of_plain hopen hcolon, if_pos hhost]
    rfl

/-- The host part of an address is its host. -/
theorem parts_of_isHost {host after : List Char} {port : Nat} (hhost : IsHost host) (hport : Port after port) :
    Parts host after := by
  cases hhost with
  | literal h => exact .bracketed (close_notMem h)
  | name hne hs =>
    have hname : isHostName host = true := isHostName_iff.2 ⟨hne, hs⟩
    have hopen : host.head? ≠ some '[' := by
      intro h
      obtain ⟨r, rfl⟩ := List.head?_eq_some_iff.1 h
      exact not_isHostName_of_open hname
    cases hport with
    | absent => exact .plain hopen fun hmem => absurd (isHostChar_of_isHostName hname hmem) (by decide)
    | number hsign _ hdigits =>
      refine .colon hopen fun hmem => ?_
      rcases List.mem_append.1 hmem with hmem | hmem
      · rcases hsign with rfl | rfl <;> simp at hmem
      · exact absurd (hdigits _ hmem) (by decide)

theorem parse_of_writes {raw : String} {host : List Char} {port : Nat} (h : Writes (trim raw.toList) host port) :
    parse raw = .ok ⟨lower host, port⟩ := by
  obtain ⟨after, hs, hhost, hport⟩ := h
  unfold parse
  rw [hs, parseTrimmed_of_isHost (parts_of_isHost hhost hport) hhost, readAfter_eq_some_iff.2 hport]

theorem normalize_of_writes {raw : String} {host : List Char} {port : Nat} (h : Writes (trim raw.toList) host port) :
    normalize raw = .ok (text ⟨lower host, port⟩) :=
  normalize_eq_ok.2 ⟨_, parse_of_writes h, rfl⟩

/-- What becomes of a text without blanks around it. The first part that is not in order is at fault. -/
inductive Reads (s : List Char) : Except Fault Address → Prop
  | empty (hs : s = []) : Reads s (.error .empty)
  | host {host after : List Char} (hne : s ≠ []) (hs : s = host ++ after) (hp : Parts host after)
    (hhost : ¬ IsHost host) : Reads s (.error (.host (String.ofList s)))
  | port {host after : List Char} (hs : s = host ++ after) (hp : Parts host after) (hhost : IsHost host)
    (hport : ∀ n, ¬ Port after n) : Reads s (.error (.port (String.ofList s)))
  | address {host : List Char} {port : Nat} (hw : Writes s host port) : Reads s (.ok ⟨lower host, port⟩)

theorem reads_parse (raw : String) : Reads (trim raw.toList) (parse raw) := by
  obtain ⟨host, after, hs, hp⟩ := exists_parts (trim raw.toList)
  unfold parse
  by_cases hnil : trim raw.toList = []
  · rw [hnil]
    exact .empty rfl
  · by_cases hhost : IsHost host
    · have hread := parseTrimmed_of_isHost hp hhost
      rw [← hs] at hread
      rw [hread]
      cases hn : readAfter after with
      | none => exact .port hs hp hhost fun n h => by simp [readAfter_eq_some_iff.2 h] at hn
      | some n => exact .address ⟨after, hs, hhost, readAfter_eq_some_iff.1 hn⟩
    · have hread := parseTrimmed_of_not_isHost (hs ▸ hnil) hp hhost
      rw [← hs] at hread
      rw [hread]
      exact .host hnil hs hp hhost

theorem parse_eq_iff {raw : String} {x : Except Fault Address} : parse raw = x ↔ Reads (trim raw.toList) x := by
  constructor
  · rintro rfl
    exact reads_parse raw
  · intro h
    cases h with
    | empty hs =>
      unfold parse
      rw [hs]
      rfl
    | host hne hs hp hhost =>
      unfold parse
      rw [hs, parseTrimmed_of_not_isHost (hs ▸ hne) hp hhost]
    | port hs hp hhost hport =>
      have hnone : readAfter _ = none := Option.eq_none_iff_forall_not_mem.2 fun n hn =>
        hport n (readAfter_eq_some_iff.1 hn)
      unfold parse
      rw [hs, parseTrimmed_of_isHost hp hhost, hnone]
    | address hw => exact parse_of_writes hw

/-- An address is read if and only if the grammar gives it. -/
theorem parse_eq_ok {raw : String} {a : Address} :
    parse raw = .ok a ↔ ∃ host, Writes (trim raw.toList) host a.port ∧ a.host = lower host := by
  constructor
  · intro h
    cases parse_eq_iff.1 h with
    | address hw => exact ⟨_, hw, rfl⟩
  · rintro ⟨host, hw, hlower⟩
    rw [parse_of_writes hw, ← hlower]

/-! ## Faults -/

theorem parse_eq_empty {raw : String} : parse raw = .error .empty ↔ trim raw.toList = [] := by
  constructor
  · intro h
    cases parse_eq_iff.1 h with
    | empty hs => exact hs
  · exact fun hs => parse_eq_iff.2 (.empty hs)

theorem parse_eq_host {raw text : String} : parse raw = .error (.host text) ↔
    text = String.ofList (trim raw.toList) ∧ trim raw.toList ≠ [] ∧
      ∃ host after, trim raw.toList = host ++ after ∧ Parts host after ∧ ¬ IsHost host := by
  constructor
  · intro h
    cases parse_eq_iff.1 h with
    | host hne hs hp hhost => exact ⟨rfl, hne, _, _, hs, hp, hhost⟩
  · rintro ⟨rfl, hne, host, after, hs, hp, hhost⟩
    exact parse_eq_iff.2 (.host hne hs hp hhost)

theorem parse_eq_port {raw text : String} : parse raw = .error (.port text) ↔
    text = String.ofList (trim raw.toList) ∧
      ∃ host after, trim raw.toList = host ++ after ∧ Parts host after ∧ IsHost host ∧ ∀ n, ¬ Port after n := by
  constructor
  · intro h
    cases parse_eq_iff.1 h with
    | port hs hp hhost hport => exact ⟨rfl, _, _, hs, hp, hhost, hport⟩
  · rintro ⟨rfl, host, after, hs, hp, hhost, hport⟩
    exact parse_eq_iff.2 (.port hs hp hhost hport)

/-! ## The normal form -/

theorem decimal_injective {n m : Nat} (h : decimal n = decimal m) : n = m := by
  rw [← valueIn_decimal n, h, valueIn_decimal]

/-- The host and the port are what stands before and after the last colon. -/
theorem cutLast_text (a : Address) : cutLast ':' a.text.toList = some (a.host, decimal a.port) := by
  rw [toList_text, cutLast_append _ (colon_notMem_decimal _)]

theorem text_injective {a b : Address} (h : a.text = b.text) : a = b := by
  have hcut := cutLast_text a
  rw [h, cutLast_text b] at hcut
  obtain ⟨hhost, hport⟩ := Prod.mk.inj (Option.some.inj hcut)
  cases a
  cases b
  cases hhost
  cases decimal_injective hport
  rfl

/-- What stands around a text makes no difference to what it is read as. -/
theorem normalize_of_trim {raw raw' : String} (h : trim raw.toList = trim raw'.toList) :
    normalize raw = normalize raw' := by
  unfold normalize parse
  rw [h]

theorem Port.not_isBlank {after : List Char} {port : Nat} (h : Port after port) :
    ∀ c ∈ after, isBlank c = false := by
  cases h with
  | absent => exact fun c hc => absurd hc List.not_mem_nil
  | number hsign hne hdigits hbound =>
    rw [List.forall_mem_cons, List.forall_mem_append]
    refine ⟨by decide, fun c hc => ?_, fun c hc => ?_⟩
    · rcases hsign with rfl | rfl
      · exact absurd hc List.not_mem_nil
      · rw [List.mem_singleton.1 hc]
        decide
    · exact not_isBlank_of_isDigit (hdigits c hc)

/-- A text that is read as an address is one word, with or without blanks around it. -/
theorem words_of_normalize {raw text : String} (h : normalize raw = .ok text) :
    words raw.toList = [trim raw.toList] := by
  obtain ⟨a, ha, rfl⟩ := normalize_eq_ok.1 h
  obtain ⟨host, ⟨after, hs, hhost, hport⟩, hlower⟩ := parse_eq_ok.1 ha
  have hblank : ∀ c ∈ host, isBlank c = false := by
    intro c hc
    have hmem : c.toLower ∈ a.text.toList := by
      rw [toList_text, hlower]
      exact List.mem_append_left _ (List.mem_map_of_mem hc)
    have hsmall := not_isBlank_of_normalize h _ hmem
    cases hcase : c.isUpper with
    | false => rwa [toLower_eq_self hcase] at hsmall
    | true =>
      obtain ⟨hlow, hhigh⟩ := (isUpper_iff c).1 hcase
      exact not_isBlank_of_toNat (by omega)
  have hne : trim raw.toList ≠ [] := by
    rw [hs]
    exact fun hnil => hhost.ne_nil (List.append_eq_nil_iff.1 hnil).1
  rw [← words_trim]
  refine words_of_not_isBlank hne ?_
  rw [hs, List.forall_mem_append]
  exact ⟨hblank, hport.not_isBlank⟩

/-- Addresses are read by their grammar and given in one normal form. The blanks around a text do not count. Without
them it is read exactly if it writes a host and a port, and its canonical text is the host in small letters, a colon
and the port in decimal. Otherwise it is empty, or its host part is no host, whatever comes after it, or that is a host
but what comes after it is no port. A canonical text is its own canonical text, holds no blanks, and parts at its last
colon into the host and the port, so that two addresses have the same canonical text exactly if their hosts in small
letters and their ports are the same. -/
theorem normalize_exact (raw raw' : String) :
    (∀ text, normalize raw = .ok text ↔
      ∃ host port, Writes (trim raw.toList) host port ∧ text = String.ofList (lower host ++ ':' :: decimal port)) ∧
    (normalize raw = .error .empty ↔ trim raw.toList = []) ∧
    (∀ text, normalize raw = .error (.host text) ↔ text = String.ofList (trim raw.toList) ∧ trim raw.toList ≠ [] ∧
      ∃ host after, trim raw.toList = host ++ after ∧ Parts host after ∧ ¬ IsHost host) ∧
    (∀ text, normalize raw = .error (.port text) ↔ text = String.ofList (trim raw.toList) ∧
      ∃ host after, trim raw.toList = host ++ after ∧ Parts host after ∧ IsHost host ∧ ∀ port, ¬ Port after port) ∧
    (∀ text, normalize raw = .ok text → normalize text = .ok text ∧ (∀ c ∈ text.toList, isBlank c = false) ∧
      ∃ host port, Writes (trim raw.toList) host port ∧
        cutLast ':' text.toList = some (lower host, decimal port)) ∧
    ∀ host port host' port', Writes (trim raw.toList) host port → Writes (trim raw'.toList) host' port' →
      (normalize raw = normalize raw' ↔ lower host = lower host' ∧ port = port') := by
  refine ⟨fun t => ?_, ?_, fun t => ?_, fun t => ?_, fun t ht => ?_, fun host port host' port' hw hw' => ?_⟩
  · constructor
    · intro h
      obtain ⟨a, ha, rfl⟩ := normalize_eq_ok.1 h
      obtain ⟨host, hw, hlower⟩ := parse_eq_ok.1 ha
      exact ⟨host, a.port, hw, by rw [← hlower]; rfl⟩
    · rintro ⟨host, port, hw, rfl⟩
      exact normalize_of_writes hw
  · rw [normalize_eq_error, parse_eq_empty]
  · rw [normalize_eq_error, parse_eq_host]
  · rw [normalize_eq_error, parse_eq_port]
  · refine ⟨normalize_normalize ht, not_isBlank_of_normalize ht, ?_⟩
    obtain ⟨a, ha, rfl⟩ := normalize_eq_ok.1 ht
    obtain ⟨host, hw, hlower⟩ := parse_eq_ok.1 ha
    exact ⟨host, a.port, hw, by rw [cutLast_text, hlower]⟩
  · rw [normalize_of_writes hw, normalize_of_writes hw', Except.ok.injEq]
    constructor
    · intro h
      exact Address.mk.inj (text_injective h)
    · rintro ⟨h, rfl⟩
      rw [h]

example : normalize " [2001:DB8::1.2.3.4]:+022\u3000" = .ok "[2001:db8::1.2.3.4]:22" := by decide +kernel

end SessionRouting.Address
