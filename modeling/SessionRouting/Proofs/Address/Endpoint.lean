/-
Endpoints and the texts that denote them. A host is named by its name, in letters of either case, or by the number that
a literal writes. All spellings of a name and a port have one canonical text. A literal has one for each of its
spellings, letters of either case aside, so that `[::1]` and `[0:0:0:0:0:0:0:1]` are kept apart:
`same_text_iff_same_spelling` and `literal_spellings_apart`.
-/
import SessionRouting.Proofs.Address.Grammar
import SessionRouting.Proofs.Handoff.Order

namespace SessionRouting

open Text

namespace Address

/-- A host by its name in small letters, or by its number. -/
inductive Host
  | name (s : List Char)
  | number (n : Nat)
  deriving DecidableEq, Repr

/-- A host and a port on it. -/
structure Endpoint where
  host : Host
  port : Nat
  deriving DecidableEq, Repr

/-- The host that the text of a host names. -/
inductive Names : List Char → Host → Prop
  | name {s : List Char} (hs : isHostName s = true) : Names s (.name (lower s))
  | literal {l : List Char} {groups : List Nat} (h : Net.Ipv6.Writes l groups) :
    Names ('[' :: l ++ [']']) (.number (Net.Ipv6.value groups))

/-- A text, with or without blanks around it, that denotes an endpoint. -/
def Denotes (raw : String) (x : Endpoint) : Prop :=
  ∃ host, Writes (trim raw.toList) host x.port ∧ Names host x.host

theorem isHost_iff_names {s : List Char} : IsHost s ↔ ∃ x, Names s x := by
  constructor
  · intro h
    cases h with
    | name hne hs => exact ⟨_, .name (isHostName_iff.2 ⟨hne, hs⟩)⟩
    | literal h => exact ⟨_, .literal h⟩
  · rintro ⟨x, h⟩
    cases h with
    | name hs => exact .name (isHostName_iff.1 hs).1 (isHostName_iff.1 hs).2
    | literal h => exact .literal h

theorem lower_bracketed (l : List Char) : lower ('[' :: l ++ [']']) = '[' :: lower l ++ [']'] := List.map_append

/-- A host is named in letters of either case. -/
theorem Names.unique {s s' : List Char} {x x' : Host} (h : Names s x) (h' : Names s' x') (hl : lower s = lower s') :
    x = x' := by
  have hname : ∀ {s l : List Char}, isHostName s = true → lower s ≠ lower ('[' :: l ++ [']']) := by
    intro s l hs heq
    rw [← isHostName_lower, heq, lower_bracketed] at hs
    exact not_isHostName_of_open hs
  cases h with
  | name hs =>
    cases h' with
    | name hs' => rw [hl]
    | literal => exact absurd hl (hname hs)
  | literal h =>
    rename_i l groups
    cases h' with
    | name hs' => exact absurd hl.symm (hname hs')
    | literal h' =>
      rw [lower_bracketed, lower_bracketed] at hl
      have hliteral := List.append_cancel_right (List.cons.inj hl).2
      have hread : Net.Ipv6.read? (lower l) = some groups :=
        (Net.Ipv6.read?_lower l).trans (Net.Ipv6.read?_eq_some_iff.2 h)
      rw [hliteral, Net.Ipv6.read?_lower, Net.Ipv6.read?_eq_some_iff.2 h'] at hread
      rw [Option.some.inj hread]

/-- The name of a host is its text in small letters. -/
theorem Names.eq_name {s s' : List Char} (h : Names s (.name s')) : s' = lower s := by
  cases h
  rfl

/-- A text that is read denotes an endpoint, and no other one. -/
theorem exists_denotes {raw t : String} (ht : normalize raw = .ok t) :
    ∃ host x, Writes (trim raw.toList) host x.port ∧ Names host x.host ∧ ∀ y, Denotes raw y ↔ y = x := by
  obtain ⟨a, ha, rfl⟩ := normalize_eq_ok.1 ht
  obtain ⟨host, hw, -⟩ := parse_eq_ok.1 ha
  obtain ⟨x, hx⟩ := isHost_iff_names.1 hw.isHost
  refine ⟨host, ⟨x, a.port⟩, hw, hx, fun y => ?_⟩
  constructor
  · rintro ⟨host', hw', hy⟩
    have heq := (normalize_of_writes hw').symm.trans (normalize_of_writes hw)
    obtain ⟨hl, hport⟩ := Address.mk.inj (text_injective (Except.ok.inj heq))
    cases y
    cases hy.unique hx hl
    cases hport
    rfl
  · rintro rfl
    exact ⟨host, hw, hx⟩

/-- One canonical text is that of one endpoint only, and a name with a port has one canonical text, however it is
written. For two texts of the same endpoint it is the same exactly if the texts of their hosts differ in no more than
the case of letters, so that a host with a literal has as many canonical texts as there are ways to write its number. -/
theorem same_text_iff_same_spelling {raw raw' t t' : String} (ht : normalize raw = .ok t)
    (ht' : normalize raw' = .ok t') : ∃ x x', (∀ y, Denotes raw y ↔ y = x) ∧ (∀ y, Denotes raw' y ↔ y = x') ∧
      (t = t' → x = x') ∧ (x = x' → (∃ s, x.host = .name s) → t = t') ∧
      ∀ host host', Writes (trim raw.toList) host x.port → Writes (trim raw'.toList) host' x'.port → x = x' →
        (t = t' ↔ lower host = lower host') := by
  obtain ⟨host, x, hw, hx, hall⟩ := exists_denotes ht
  obtain ⟨host', x', hw', hx', hall'⟩ := exists_denotes ht'
  have hspelling : ∀ g g', Writes (trim raw.toList) g x.port → Writes (trim raw'.toList) g' x'.port →
      (t = t' ↔ lower g = lower g' ∧ x.port = x'.port) := by
    intro g g' hg hg'
    obtain rfl := Except.ok.inj (ht.symm.trans (normalize_of_writes hg))
    obtain rfl := Except.ok.inj (ht'.symm.trans (normalize_of_writes hg'))
    constructor
    · intro h
      exact Address.mk.inj (text_injective h)
    · rintro ⟨hl, hport⟩
      rw [hl, hport]
  refine ⟨x, x', hall, hall', fun h => ?_, ?_, fun g g' hg hg' heq => ?_⟩
  · obtain ⟨hl, hport⟩ := (hspelling host host' hw hw').1 h
    cases x
    cases x'
    cases hx.unique hx' hl
    cases hport
    rfl
  · rintro rfl ⟨s, hs⟩
    rw [hs] at hx hx'
    exact (hspelling host host' hw hw').2 ⟨hx.eq_name.symm.trans hx'.eq_name, rfl⟩
  · rw [hspelling g g' hg hg', heq]
    exact and_iff_left rfl

/-- Capital letters and leading zeros of a port make no difference, not even for a literal. -/
theorem same_text_of_capitals :
    normalize " [FE80::1.2.3.4] " = .ok "[fe80::1.2.3.4]:22" ∧
      normalize "[fe80::1.2.3.4]:+022" = .ok "[fe80::1.2.3.4]:22" ∧
      ∃ x, (∀ y, Denotes " [FE80::1.2.3.4] " y ↔ y = x) ∧ ∀ y, Denotes "[fe80::1.2.3.4]:+022" y ↔ y = x := by
  have h : normalize " [FE80::1.2.3.4] " = .ok "[fe80::1.2.3.4]:22" := by decide +kernel
  have h' : normalize "[fe80::1.2.3.4]:+022" = .ok "[fe80::1.2.3.4]:22" := by decide +kernel
  obtain ⟨x, x', hx, hx', heq, -⟩ := same_text_iff_same_spelling h h'
  exact ⟨h, h', x, hx, heq rfl ▸ hx'⟩

theorem denotes_of_read? {raw : String} {l : List Char} {groups : List Nat} (hraw : trim raw.toList = '[' :: l ++ [']'])
    (h : Net.Ipv6.read? l = some groups) : Denotes raw ⟨.number (Net.Ipv6.value groups), 22⟩ := by
  have hw := Net.Ipv6.read?_eq_some_iff.1 h
  exact ⟨_, ⟨[], by rw [hraw, List.append_nil], .literal hw, .absent⟩, .literal hw⟩

/-- Two spellings of one endpoint with different canonical texts. What is disabled in one spelling is still chosen in
the other one, and a session that begins in one of them goes on when it is ended in the other. -/
theorem literal_spellings_apart :
    let r : Router := .flat ["[::1]:22"]
    let s : Service (Script fun _ => true) := Service.start 60 ⟨0⟩
    let served := fun lines : List String => Service.served r.policy s (lines.map (·, r.directory))
    let s' := served ["connect alice [::1]", "disconnect alice [0:0:0:0:0:0:0:1]"]
    Denotes "[::1]" ⟨.number 1, 22⟩ ∧ Denotes "[0:0:0:0:0:0:0:1]" ⟨.number 1, 22⟩ ∧
      normalize "[::1]" = .ok "[::1]:22" ∧ normalize "[0:0:0:0:0:0:0:1]" = .ok "[0:0:0:0:0:0:0:1]:22" ∧
      Service.answer r (served ["disable [0:0:0:0:0:0:0:1]"]) "connect alice svc" = .ok (.simple "[::1]:22") ∧
      s'.sessions[(⟨"alice", "[::1]:22"⟩ : Session.Key)]?.map Session.count = some 1 := by
  have hshort : Net.Ipv6.read? "::1".toList = some [0, 0, 0, 0, 0, 0, 0, 1] := by decide +kernel
  have hlong : Net.Ipv6.read? "0:0:0:0:0:0:0:1".toList = some [0, 0, 0, 0, 0, 0, 0, 1] := by decide +kernel
  refine ⟨?_, ?_, by decide +kernel, by decide +kernel, by decide +kernel, by decide +kernel⟩
  · exact denotes_of_read? (by decide +kernel) hshort
  · exact denotes_of_read? (by decide +kernel) hlong

end Address

end SessionRouting
