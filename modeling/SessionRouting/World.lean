/-
The world around the daemon, as far as its answers depend on it: a clock, the reachability of
backends, and chance. Each question leaves the world in a new state, so that time may pass while a
backend is probed and two probes of one backend may differ.
-/
import SessionRouting.Moment

namespace SessionRouting

/-- A world with the states `σ`. -/
class World (σ : Type) where
  /-- What the clock shows. -/
  now : σ → Moment × σ
  /-- Whether a connection to the address can be opened. -/
  probe : String → σ → Bool × σ
  /-- The texts in some random order. -/
  shuffle : List String → σ → List String × σ
  shuffle_perm : ∀ l w, (shuffle l w).1.Perm l

end SessionRouting
