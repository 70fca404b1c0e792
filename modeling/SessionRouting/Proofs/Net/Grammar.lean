/-
The grammar of IP address literals. `Ipv4.Writes` and `Ipv6.Writes` say which texts are literals and what they stand
for: four octets in decimal, without leading zeros, and eight groups of hexadecimal digits, of which the last two may be
written as an IPv4 address and one run of zero groups as `::`. Reading accepts exactly these literals and finds exactly
what they stand for: `Ipv4.read?_eq_some_iff` and `Ipv6.read?_eq_some_iff`.
-/
import SessionRouting.Proofs.Net.Literal
import SessionRouting.Proofs.Text.Split
import Mathlib.Data.List.Forall2

namespace SessionRouting

open Text

theorem mapM_eq_some_iff {α β : Type} {f : α → Option β} {l : List α} {ys : List β} :
    l.mapM f = some ys ↔ List.Forall₂ (fun x y => f x = some y) l ys := by
  induction l generalizing ys with
  | nil => simp [eq_comm]
  | cons x l ih =>
    simp only [List.mapM_cons, Option.bind_eq_bind, Option.bind_eq_some_iff, Option.pure_def, Option.some.injEq, ih,
      List.forall₂_cons_left_iff]
    constructor
    · rintro ⟨y, hy, ys, hys, rfl⟩
      exact ⟨y, ys, hy, hys, rfl⟩
    · rintro ⟨y, ys, hy, hys, rfl⟩
      exact ⟨y, hy, ys, hys, rfl⟩

namespace Net

/-! ## IPv4 -/

namespace Ipv4

/-- Four octets in decimal with dots between them. -/
structure Writes (s : List Char) (octets : List Nat) : Prop where
  count : octets.length = 4
  bound : ∀ n ∈ octets, n ≤ 255
  text : s = ['.'].intercalate (octets.map decimal)

theorem head?_decimal {n : Nat} (hn : 10 ≤ n) : (decimal n).head? ≠ some '0' := by
  induction n using Nat.strong_induction_on with
  | _ n ih =>
    have hsplit : decimal n = decimal (n / 10) ++ [Nat.digitChar (n % 10)] := Nat.toDigits_of_base_le (by decide) hn
    rw [hsplit, List.head?_append_of_ne_nil _ (decimal_ne_nil _)]
    by_cases hsmall : n / 10 < 10
    · have hdigits : ∀ d < 10, 0 < d → Nat.digitChar d ≠ '0' := by decide
      have hone : decimal (n / 10) = [Nat.digitChar (n / 10)] := Nat.toDigits_of_lt_base hsmall
      rw [hone]
      simpa using hdigits _ hsmall (by omega)
    · exact ih (n / 10) (by omega) (by omega)

theorem readOctet_eq_some_iff {s : List Char} {n : Nat} : readOctet s = some n ↔ n ≤ 255 ∧ s = decimal n := by
  constructor
  · intro h
    unfold readOctet at h
    split at h
    · rename_i hs
      have hne : s ≠ [] := by
        rintro rfl
        cases h
      have hdigits : ∀ c ∈ s, c.isDigit = true := fun c hc =>
        (isDigit_iff_digitValue c).2 (of_decide_eq_true (isDigitIn_of_readDigits h hc))
      obtain rfl := valueIn_of_readDigits h
      exact ⟨readDigits_le h, (decimal_valueIn hne hdigits hs.2).symm⟩
    · cases h
  · rintro ⟨hn, rfl⟩
    have hlen : (decimal n).length ≤ 3 := (Nat.length_toDigits_le_iff (by decide) (by decide)).2 (by omega)
    have hzero : (decimal n).length = 1 ∨ (decimal n).head? ≠ some '0' := by
      by_cases hsmall : n < 10
      · exact .inl (congrArg List.length (Nat.toDigits_of_lt_base hsmall))
      · exact .inr (head?_decimal (Nat.le_of_not_lt hsmall))
    unfold readOctet
    rw [if_pos ⟨hlen, hzero⟩, readDigits_decimal hn]

theorem forall₂_octets_iff {texts : List (List Char)} {octets : List Nat} :
    List.Forall₂ (fun s n => n ≤ 255 ∧ s = decimal n) texts octets ↔
      texts = octets.map decimal ∧ ∀ n ∈ octets, n ≤ 255 := by
  constructor
  · intro h
    induction h with
    | nil => exact ⟨rfl, by simp⟩
    | cons h _ ih =>
      obtain ⟨rfl, hbound⟩ := ih
      exact ⟨by rw [h.2, List.map_cons], List.forall_mem_cons.2 ⟨h.1, hbound⟩⟩
  · rintro ⟨rfl, hbound⟩
    rw [List.forall₂_map_left_iff, List.forall₂_same]
    exact fun n hn => ⟨hbound n hn, rfl⟩

/-- What is read as an IPv4 address. -/
theorem read?_eq_some_iff {s : List Char} {octets : List Nat} : read? s = some octets ↔ Writes s octets := by
  unfold read?
  simp only [Option.ite_none_right_eq_some, mapM_eq_some_iff, readOctet_eq_some_iff, forall₂_octets_iff]
  constructor
  · rintro ⟨hcount, htexts, hbound⟩
    refine ⟨?_, hbound, ?_⟩
    · rwa [htexts, List.length_map] at hcount
    · rw [← htexts, intercalate_fields]
  · rintro ⟨hcount, hbound, rfl⟩
    have hdot : ∀ f ∈ octets.map decimal, '.' ∉ f := by
      intro f hf hmem
      obtain ⟨n, -, rfl⟩ := List.mem_map.1 hf
      exact absurd (isDigit_of_mem_decimal hmem) (by decide)
    have hne : octets.map decimal ≠ [] := by
      intro h
      rw [List.map_eq_nil_iff.1 h] at hcount
      cases hcount
    rw [fields_intercalate hne hdot, List.length_map]
    exact ⟨hcount, rfl, hbound⟩

theorem Writes.mem {s : List Char} {octets : List Nat} (h : Writes s octets) : '.' ∈ s ∧ ':' ∉ s := by
  obtain ⟨hcount, -, rfl⟩ := h
  have hcolon : ∀ n, ':' ∉ decimal n := fun n hmem => absurd (isDigit_of_mem_decimal hmem) (by decide)
  obtain ⟨a, b, c, d, rfl⟩ := List.length_eq_four.1 hcount
  simp [hcolon]

end Ipv4

/-! ## IPv6 -/

namespace Ipv6

/-- A group is one to four hexadecimal digits. -/
structure Group (s : List Char) (g : Nat) : Prop where
  length : 1 ≤ s.length ∧ s.length ≤ 4
  digits : ∀ c ∈ s, isDigitIn 16 c = true
  value : valueIn 16 s = g

/-- Texts of groups. The last text may be that of an IPv4 address, for two groups. -/
inductive Groups : List (List Char) → List Nat → Prop
  | nil : Groups [] []
  | dotted {s : List Char} {a b c d : Nat} (h : Ipv4.Writes s [a, b, c, d]) : Groups [s] [256 * a + b, 256 * c + d]
  | cons {s : List Char} {g : Nat} {texts : List (List Char)} {gs : List Nat} (h : Group s g) (hs : Groups texts gs) :
    Groups (s :: texts) (g :: gs)

/-- Texts with a colon between each two of them. -/
def joined (texts : List (List Char)) : List Char := [':'].intercalate texts

/-- Literals and the eight groups that they stand for. -/
inductive Writes : List Char → List Nat → Prop
  | full {texts : List (List Char)} {gs : List Nat} (h : Groups texts gs) (hlen : gs.length = 8) :
    Writes (joined texts) gs
  /-- `::` stands for as many zero groups as are missing, and for one at least. -/
  | short {front back : List (List Char)} {hs ts : List Nat} (hf : List.Forall₂ Group front hs) (hb : Groups back ts)
    (hlen : hs.length + ts.length ≤ 7) : Writes (joined front ++ ':' :: ':' :: joined back)
      (hs ++ List.replicate (8 - hs.length - ts.length) 0 ++ ts)

theorem readGroup_eq_some_iff {s : List Char} {g : Nat} : readGroup s = some g ↔ Group s g := by
  constructor
  · intro h
    unfold readGroup at h
    split at h
    · rename_i hlen
      have hne : s ≠ [] := by
        rintro rfl
        cases h
      exact ⟨⟨List.length_pos_iff.2 hne, hlen⟩, fun c hc => isDigitIn_of_readDigits h hc, valueIn_of_readDigits h⟩
    · cases h
  · rintro ⟨⟨hpos, hlen⟩, hdigits, rfl⟩
    have hbound : valueIn 16 s ≤ 0xFFFF := by
      have hlt := valueIn_lt_pow hdigits
      have hle : 16 ^ s.length ≤ 16 ^ 4 := Nat.pow_le_pow_right (by decide) hlen
      omega
    unfold readGroup readDigits
    rw [if_pos hlen, if_pos ⟨List.length_pos_iff.1 hpos, List.all_eq_true.2 hdigits, hbound⟩]

/-- A group cannot be taken for an IPv4 address. -/
theorem readGroup_of_dotted {s : List Char} {octets : List Nat} (h : Ipv4.Writes s octets) : readGroup s = none := by
  refine Option.eq_none_iff_forall_not_mem.2 fun g hg => ?_
  exact absurd ((readGroup_eq_some_iff.1 hg).digits _ h.mem.1) (by decide)

theorem readTail_eq_some_iff {texts : List (List Char)} {gs : List Nat} :
    readTail texts = some gs ↔ Groups texts gs := by
  constructor
  · intro h
    induction texts generalizing gs with
    | nil =>
      cases h
      exact .nil
    | cons s texts ih =>
      cases texts with
      | nil =>
        unfold readTail at h
        split at h
        · rename_i g hg
          cases h
          exact .cons (readGroup_eq_some_iff.1 hg) .nil
        · split at h
          · rename_i hv4
            cases h
            exact .dotted (Ipv4.read?_eq_some_iff.1 hv4)
          · cases h
      | cons t texts =>
        unfold readTail at h
        split at h
        · rename_i hg hgs
          cases h
          exact .cons (readGroup_eq_some_iff.1 hg) (ih hgs)
        · cases h
  · intro h
    induction h with
    | nil => rfl
    | dotted h => simp [readTail, readGroup_of_dotted h, Ipv4.read?_eq_some_iff.2 h]
    | cons h hs ih =>
      rename_i texts gs
      cases texts with
      | nil =>
        cases hs
        simp [readTail, readGroup_eq_some_iff.2 h]
      | cons t texts => simp [readTail, readGroup_eq_some_iff.2 h, ih]

/-! ## Literals -/

/-- What stands between colons: it is not empty and holds no colon itself. -/
def IsPart (s : List Char) : Prop := s ≠ [] ∧ ':' ∉ s

theorem Group.isPart {s : List Char} {g : Nat} (h : Group s g) : IsPart s :=
  ⟨List.length_pos_iff.1 h.length.1, fun hmem => absurd (h.digits _ hmem) (by decide)⟩

theorem Groups.isPart {texts : List (List Char)} {gs : List Nat} (h : Groups texts gs) : ∀ s ∈ texts, IsPart s := by
  induction h with
  | nil => simp
  | dotted h =>
    rw [List.forall_mem_singleton]
    exact ⟨List.ne_nil_of_mem h.mem.1, h.mem.2⟩
  | cons h _ ih => exact List.forall_mem_cons.2 ⟨h.isPart, ih⟩

theorem isPart_of_forall₂ {texts : List (List Char)} {gs : List Nat} (h : List.Forall₂ Group texts gs) :
    ∀ s ∈ texts, IsPart s := by
  induction h with
  | nil => simp
  | cons h _ ih => exact List.forall_mem_cons.2 ⟨h.isPart, ih⟩

theorem joined_groupTexts (s : List Char) : joined (groupTexts s) = s := by
  unfold groupTexts
  split
  · rename_i hs
    rw [hs]
    rfl
  · exact intercalate_fields ':' s

theorem groupTexts_joined {texts : List (List Char)} (h : ∀ s ∈ texts, IsPart s) :
    groupTexts (joined texts) = texts := by
  cases texts with
  | nil => rfl
  | cons s texts =>
    have hne : joined (s :: texts) ≠ [] := by
      unfold joined
      cases texts <;> simp [(h s (by simp)).1]
    unfold groupTexts
    rw [if_neg hne]
    exact fields_intercalate (List.cons_ne_nil _ _) fun f hf => (h f hf).2

theorem joined_cons_cons (s t : List Char) (texts : List (List Char)) :
    joined (s :: t :: texts) = s ++ ':' :: joined (t :: texts) := by
  simp [joined]

/-- No colon stands at the beginning of texts that are joined. -/
theorem head?_joined {s : List Char} (hs : IsPart s) (texts : List (List Char)) (rest : List Char) :
    (joined (s :: texts) ++ rest).head? ≠ some ':' := by
  obtain ⟨c, r, rfl⟩ := List.exists_cons_of_ne_nil hs.1
  have hc : c ≠ ':' := fun h => hs.2 (h ▸ List.mem_cons_self ..)
  unfold joined
  rw [List.intercalate_cons_cons_left, List.cons_append, List.head?_cons]
  exact fun h => hc (Option.some.inj h)

/-- In texts that are joined no two colons follow each other. -/
theorem cutPair_joined {texts : List (List Char)} (h : ∀ s ∈ texts, IsPart s) :
    cutPair ':' ':' (joined texts) = none := by
  induction texts with
  | nil => rfl
  | cons s texts ih =>
    obtain ⟨hs, htexts⟩ := List.forall_mem_cons.1 h
    cases texts with
    | nil =>
      unfold joined
      rw [List.intercalate_singleton, cutPair_eq_none hs.2]
    | cons t texts =>
      have hhead := head?_joined (htexts t (by simp)) texts []
      rw [List.append_nil] at hhead
      rw [joined_cons_cons, cutPair_skip hs.2 hhead, ih htexts]
      rfl

/-- The first two colons that follow each other are those after the texts. -/
theorem cutPair_joined_append {texts : List (List Char)} (h : ∀ s ∈ texts, IsPart s) (back : List Char) :
    cutPair ':' ':' (joined texts ++ ':' :: ':' :: back) = some (joined texts, back) := by
  induction texts with
  | nil => exact cutPair_append List.not_mem_nil back
  | cons s texts ih =>
    obtain ⟨hs, htexts⟩ := List.forall_mem_cons.1 h
    cases texts with
    | nil =>
      unfold joined
      rw [List.intercalate_singleton, cutPair_append hs.2]
    | cons t texts =>
      rw [joined_cons_cons, List.append_assoc, List.cons_append,
        cutPair_skip hs.2 (head?_joined (htexts t (by simp)) texts _), ih htexts]
      rfl

/-- What is read as an IPv6 address. -/
theorem read?_eq_some_iff {s : List Char} {gs : List Nat} : read? s = some gs ↔ Writes s gs := by
  constructor
  · intro h
    unfold read? at h
    split at h
    · split at h
      · rename_i gs' hgs
        split at h
        · rename_i hlen
          cases h
          rw [← joined_groupTexts s]
          exact .full (readTail_eq_some_iff.1 hgs) hlen
        · cases h
      · cases h
    · rename_i front back hcut
      split at h
      · rename_i hs ts hfront hback
        split at h
        · rename_i hlen
          cases h
          rw [cutPair_eq_some hcut, ← joined_groupTexts front, ← joined_groupTexts back]
          refine .short ?_ (readTail_eq_some_iff.1 hback) hlen
          exact (mapM_eq_some_iff.1 hfront).imp fun _ _ => readGroup_eq_some_iff.1
        · cases h
      · cases h
  · intro h
    unfold read?
    cases h with
    | full h hlen =>
      rw [cutPair_joined h.isPart, groupTexts_joined h.isPart, readTail_eq_some_iff.2 h]
      exact if_pos hlen
    | short hf hb hlen =>
      have hfront := mapM_eq_some_iff.2 (hf.imp fun _ _ => readGroup_eq_some_iff.2)
      rw [cutPair_joined_append (isPart_of_forall₂ hf)]
      simp only [groupTexts_joined (isPart_of_forall₂ hf), groupTexts_joined hb.isPart, hfront,
        readTail_eq_some_iff.2 hb, if_pos hlen]

end Ipv6

end Net

end SessionRouting
