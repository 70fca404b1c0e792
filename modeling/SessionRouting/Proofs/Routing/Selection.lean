/-
The choice of a strategy. While the world stands still, checks answer as a function of the address, whatever has been
asked before (`Watch.answerAt`). So every order of the candidates finds one exactly when there is one to be found, and
orders that find none leave the same records behind; `select_alike` says so of the two strategies.
-/
import SessionRouting.Proofs.Service.Connect
import SessionRouting.Proofs.Service.Turn

namespace SessionRouting.Routing

open Health

variable {σ : Type} {moment : Moment} {up : String → Bool}

/-! ## Searches in some order -/

/-- How a search through candidates in some order comes out. Either it has asked up to one that is reachable, which is
`up` on record afterwards, and none behind it, or it has asked all of them and none is `up`. -/
inductive Searched (order : List String) (h : Watch σ) : Option String → Watch σ → Prop
  | found {pre post : List String} {b : String} {h' : Watch σ} (horder : order = pre ++ b :: post)
    (hanswers : h'.trace.answers = h.trace.answers ++ pre.map (·, false) ++ [(b, true)])
    (hup : ∃ v, h'.records[b]? = some v ∧ v.verdict = .up) : Searched order h (some b) h'
  | exhausted {h' : Watch σ} (hanswers : h'.trace.answers = h.trace.answers ++ order.map (·, false))
    (hdown : ∀ a ∈ order, ∃ v, h'.records[a]? = some v ∧ v.verdict ≠ .up) : Searched order h none h'

theorem Searched.mem {order : List String} {h h' : Watch σ} {b : String} (hx : Searched order h (some b) h') :
    b ∈ order := by
  cases hx with
  | found horder => simp [horder]

theorem Searched.congr {order : List String} {h h₁ h' : Watch σ} {chosen : Option String}
    (ht : h₁.trace.answers = h.trace.answers) (hx : Searched order h₁ chosen h') : Searched order h chosen h' := by
  cases hx with
  | found horder hanswers hup => exact .found horder (ht ▸ hanswers) hup
  | exhausted hanswers hdown => exact .exhausted (ht ▸ hanswers) hdown

variable [World σ] {h₀ h : Watch σ} {asked lost : List String}

/-- A search chooses by the answers at the moment at which the world stands still. -/
theorem search_spec (strategy : Strategy) (order : List String) (hs : Watch.Settled moment up h₀ asked lost h) :
    let x := (Selection.firstReachable Watch.check (fun c => Watch.note (.skipped c strategy)) order).run h
    Searched order h x.1 x.2 ∧ x.1 = order.find? (h₀.answerAt moment up) ∧
      Watch.Settled moment up h₀ (asked ++ Selection.upToFirst (h₀.answerAt moment up) order) lost x.2 := by
  intro x
  rcases firstReachable_cases strategy order h with ⟨pre, b, post, h₁, rfl, hv, hb, hx⟩ | ⟨h₁, hv, hx⟩
  · rw [show x = (some b, ((Watch.check b).run h₁).2) from hx]
    obtain ⟨hfind, hs₁⟩ := hv.settled_found hb post hs
    obtain ⟨v, hv', hup⟩ := record_of_check b h₁
    refine ⟨.found rfl ?_ ⟨v, hv', hup.2 hb⟩, hfind.symm, hs₁⟩
    rw [Watch.answers_check, hb, hv.answers_eq]
  · rw [show x = (none, h₁) from hx]
    obtain ⟨hfind, hs₁⟩ := hv.settled_exhausted hs
    refine ⟨.exhausted hv.answers_eq fun a ha => ?_, hfind.symm, hs₁⟩
    obtain ⟨v, hv', hdown | hdisabled⟩ := hv.rejects a (.inr ha)
    · exact ⟨v, hv', by simp [hdown]⟩
    · exact ⟨v, hv', by simp [hdisabled]⟩

/-- A selection is a search in the order of its strategy. -/
theorem select_settled (strategy : Strategy) (candidates : List String)
    (hs : Watch.Settled moment up h₀ asked lost h) :
    let order := ((arrange strategy candidates).run h).1
    let x := (select strategy candidates).run h
    Searched order h x.1 x.2 ∧ x.1 = order.find? (h₀.answerAt moment up) ∧
      Watch.Settled moment up h₀ (asked ++ Selection.upToFirst (h₀.answerAt moment up) order) lost x.2 := by
  intro order x
  obtain ⟨-, -, ha⟩ := arrange_spec strategy candidates h
  obtain ⟨hx, hfind, hs₁⟩ := search_spec strategy order (hs.asides ha)
  exact ⟨hx.congr ha.answers_eq, hfind, hs₁⟩

/-! ## Two strategies -/

/-- The choice of a strategy never decides whether a candidate is found. Two watches have the same records, and their
worlds stand still at the same moment and answer probes alike; chance may shuffle the candidates as it likes. Then the
random order finds a candidate exactly if the configured one does. Each asks in its order up to the candidate that it
finds, which is `up` on record afterwards; and if there is none, both have asked all of them, none is `up`, and they
leave the same records. -/
theorem select_alike {σ' : Type} [World σ'] {h : Watch σ} {h' : Watch σ'} (hrecords : h'.records = h.records)
    (hinterval : h'.interval = h.interval) (hw : World.Still moment up h.world)
    (hw' : World.Still moment up h'.world) (candidates : List String) :
    let x := (select .ordered candidates).run h
    let y := (select .random candidates).run h'
    let order := (World.shuffle candidates h'.world).1
    (y.1.isSome ↔ x.1.isSome) ∧ Searched candidates h x.1 x.2 ∧ order.Perm candidates ∧ Searched order h' y.1 y.2 ∧
    (∀ b, x.1 = some b ∨ y.1 = some b → b ∈ candidates) ∧ (x.1 = none → y.2.records = x.2.records) := by
  intro x y order
  have hanswers : h'.answerAt moment up = h.answerAt moment up :=
    funext (Watch.answerAt_congr hrecords hinterval)
  obtain ⟨hx, hfind, hs⟩ : Searched candidates h x.1 x.2 ∧ x.1 = candidates.find? (h.answerAt moment up) ∧
      Watch.Settled moment up h ([] ++ Selection.upToFirst (h.answerAt moment up) candidates) [] x.2 :=
    select_settled .ordered candidates (Watch.settled_refl hw)
  obtain ⟨hy, hfind', hs'⟩ : Searched order h' y.1 y.2 ∧ y.1 = order.find? (h.answerAt moment up) ∧
      Watch.Settled moment up h' ([] ++ Selection.upToFirst (h.answerAt moment up) order) [] y.2 :=
    hanswers ▸ select_settled .random candidates (Watch.settled_refl hw')
  have hperm : order.Perm candidates := World.shuffle_perm candidates h'.world
  refine ⟨?_, hx, hperm, hy, ?_, fun hnone => ?_⟩
  · -- whether some candidate answers yes does not depend on the order
    rw [hfind, hfind', List.find?_isSome, List.find?_isSome]
    simp only [hperm.mem_iff]
  · rintro b (hb | hb)
    · rw [hb] at hx
      exact hx.mem
    · rw [hb] at hy
      exact hperm.mem_iff.1 hy.mem
  · -- both have asked about all candidates, each in its order
    have hno : ∀ a ∈ candidates, h.answerAt moment up a = false := by
      simpa using List.find?_eq_none.1 (hfind.symm.trans hnone)
    rw [Selection.upToFirst_none hno, List.nil_append] at hs
    rw [Selection.upToFirst_none fun a ha => hno a (hperm.mem_iff.1 ha), List.nil_append] at hs'
    exact hs.records_eq hrecords hinterval hs' (fun a => hperm.mem_iff) fun a => Iff.rfl

/-- A disabled candidate and one that is listed twice, asked about from the front and from the back. -/
theorem select_alike_mirrored :
    let up : String → Bool := fun a => a == "h2:22" || a == "h3:22" || a == "h4:22"
    let h : Watch (Mirror up) := {
      interval := 5
      records := (∅ : Table Record).insert "h2:22" { verdict := .disabled, reached := ⟨0⟩ }
      world := ⟨⟩ }
    let candidates := ["h1:22", "h2:22", "h3:22", "h4:22", "h1:22"]
    let x := (select .ordered candidates).run h
    let y := (select .random candidates).run h
    World.Still ⟨0⟩ up h.world ∧ x.1 = some "h3:22" ∧ y.1 = some "h4:22" ∧ (y.1.isSome ↔ x.1.isSome) ∧
    Searched candidates h x.1 x.2 ∧ Searched candidates.reverse h y.1 y.2 := by
  intro up h candidates x y
  obtain ⟨hiff, hx, -, hy, -⟩ := select_alike rfl rfl (Mirror.still h.world) (Mirror.still h.world) candidates
  exact ⟨Mirror.still h.world, by decide +kernel, by decide +kernel, hiff, hx, hy⟩

end SessionRouting.Routing
