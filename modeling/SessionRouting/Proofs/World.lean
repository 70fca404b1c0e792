/-
Worlds whose clock never goes back, with one of them in which probes are answered from a script, and worlds that
have come to stand still, with one that does so after a while and one that always did. A `Ledger` makes a world
write down what probes answer.
-/
import SessionRouting.World
import Mathlib.Tactic

namespace SessionRouting

theorem Moment.le_trans {a b c : Moment} (h1 : a ≤ b) (h2 : b ≤ c) : a ≤ c := Int.le_trans h1 h2

theorem Moment.le_refl (a : Moment) : a ≤ a := Int.le_refl _

namespace World

variable {σ : Type} [World σ]

/-- What the clock shows in a state of the world. -/
def time (w : σ) : Moment := (now w).1

/-- The states that questions lead to. -/
inductive Leads (w : σ) : σ → Prop
  | refl : Leads w w
  | now {w' : σ} : Leads w w' → Leads w (World.now w').2
  | probe (a : String) {w' : σ} : Leads w w' → Leads w (World.probe a w').2
  | shuffle (l : List String) {w' : σ} : Leads w w' → Leads w (World.shuffle l w').2

/-- The images of states answer as the states do, and questions lead to images again. -/
structure Alike {σ' : Type} [World σ'] (φ : σ → σ') : Prop where
  now : ∀ w, World.now (φ w) = ((World.now w).1, φ (World.now w).2)
  probe : ∀ a w, World.probe a (φ w) = ((World.probe a w).1, φ (World.probe a w).2)
  shuffle : ∀ l w, World.shuffle l (φ w) = ((World.shuffle l w).1, φ (World.shuffle l w).2)

theorem alike_id : Alike (id : σ → σ) := ⟨fun _ => rfl, fun _ _ => rfl, fun _ _ => rfl⟩

/-- From this state on the clock stands still, and probes of an address are answered as `up` says. -/
def Still (moment : Moment) (up : String → Bool) (w : σ) : Prop :=
  ∀ w', Leads w w' → time w' = moment ∧ ∀ a, (World.probe a w').1 = up a

theorem Leads.trans {w w' w'' : σ} (h1 : Leads w w') (h2 : Leads w' w'') : Leads w w'' := by
  induction h2 with
  | refl => exact h1
  | now _ ih => exact .now ih
  | probe a _ ih => exact .probe a ih
  | shuffle l _ ih => exact .shuffle l ih

namespace Still

variable {moment : Moment} {up : String → Bool} {w w' : σ}

theorem time_eq (hs : Still moment up w) : time w = moment := (hs w .refl).1

theorem probe_eq (hs : Still moment up w) (a : String) : (World.probe a w).1 = up a := (hs w .refl).2 a

theorem leads (hs : Still moment up w) (hl : Leads w w') : Still moment up w' := fun w'' h => hs w'' (hl.trans h)

theorem now (hs : Still moment up w) : Still moment up (World.now w).2 := hs.leads (.now .refl)

theorem probe (hs : Still moment up w) (a : String) : Still moment up (World.probe a w).2 :=
  hs.leads (.probe a .refl)

end Still

end World

/-- A world whose clock never goes back, whatever is asked. -/
class World.Steady (σ : Type) [World σ] : Prop where
  now_le : ∀ w : σ, World.time w ≤ World.time (World.now w).2
  probe_le : ∀ (a : String) (w : σ), World.time w ≤ World.time (World.probe a w).2
  shuffle_le : ∀ (l : List String) (w : σ), World.time w ≤ World.time (World.shuffle l w).2

/-- A world in which each reading of the clock and each probe takes two nanoseconds. The probe that is made
as the `n`th of these questions is answered by `answers n`. -/
structure Script (answers : Nat → Bool) where
  asked : Nat := 0

namespace Script

variable {answers : Nat → Bool}

instance : World (Script answers) where
  now w := (⟨2 * w.asked⟩, ⟨w.asked + 1⟩)
  probe _ w := (answers w.asked, ⟨w.asked + 1⟩)
  shuffle l w := (l, w)
  shuffle_perm _ _ := .refl _

theorem time_le_succ (w : Script answers) : World.time w ≤ World.time (⟨w.asked + 1⟩ : Script answers) := by
  show 2 * (w.asked : Int) ≤ 2 * ((w.asked + 1 : Nat) : Int)
  omega

instance : World.Steady (Script answers) where
  now_le w := time_le_succ w
  probe_le _ w := time_le_succ w
  shuffle_le _ _ := Moment.le_refl _

end Script

/-- A world in which each question takes two nanoseconds and each probe is answered with yes, as long as questions
are left. Then it stands still, and probes are answered as `up` says. -/
structure Lull (up : String → Bool) where
  left : Nat
  elapsed : Nat := 0

namespace Lull

variable {up : String → Bool}

def step (w : Lull up) : Lull up :=
  if w.left = 0 then w else { left := w.left - 1, elapsed := w.elapsed + 2 }

instance : World (Lull up) where
  now w := (⟨w.elapsed⟩, w.step)
  probe a w := (w.left != 0 || up a, w.step)
  shuffle l w := (l, w)
  shuffle_perm _ _ := .refl _

theorem still {w : Lull up} (hw : w.left = 0) : World.Still ⟨w.elapsed⟩ up w := by
  have hstep : w.step = w := if_pos hw
  have hstay : ∀ w', World.Leads w w' → w' = w := by
    intro w' hl
    induction hl with
    | refl => rfl
    | now _ ih | probe _ _ ih =>
      show step _ = w
      rw [ih, hstep]
    | shuffle _ _ ih => exact ih
  intro w' hl
  obtain rfl := hstay w' hl
  refine ⟨rfl, fun a => ?_⟩
  show (w'.left != 0 || up a) = up a
  rw [hw]
  rfl

end Lull

/-- A world that stands still, in which a shuffle turns the texts around. -/
structure Mirror (up : String → Bool) where

namespace Mirror

variable {up : String → Bool}

instance : World (Mirror up) where
  now w := (⟨0⟩, w)
  probe a w := (up a, w)
  shuffle l w := (l.reverse, w)
  shuffle_perm l _ := l.reverse_perm

theorem still (w : Mirror up) : World.Still ⟨0⟩ up w := fun _ _ => ⟨rfl, fun _ => rfl⟩

end Mirror

/-- A world that answers as another one does, and writes down the answers of probes in the order in which they are
given. -/
structure Ledger (σ : Type) where
  world : σ
  answers : List Bool := []

namespace Ledger

variable {σ : Type} [World σ]

instance : World (Ledger σ) where
  now l := ((World.now l.world).1, { l with world := (World.now l.world).2 })
  probe a l :=
    let (reachable, world) := World.probe a l.world
    (reachable, { world, answers := l.answers ++ [reachable] })
  shuffle xs l := ((World.shuffle xs l.world).1, { l with world := (World.shuffle xs l.world).2 })
  shuffle_perm xs l := World.shuffle_perm xs l.world

theorem alike_world : World.Alike (world : Ledger σ → σ) := ⟨fun _ => rfl, fun _ _ => rfl, fun _ _ => rfl⟩

end Ledger

end SessionRouting
