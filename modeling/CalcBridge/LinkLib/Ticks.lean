import Mathlib.Algebra.Order.Ring.Nat
/-!
# The millisecond counter (`time.ticks_*`)

The counter wraps at `2 ^ 30`. `ticksDiff` is right for times less than half of
that apart, and a clock that counts passes every deadline.
-/

namespace LinkLib.Ticks

/-- `time.ticks_diff`. The counter is kept unreduced here: this difference is
the only thing that reads it. -/
def ticksDiff (a b : Nat) : Int := ((a : Int) - b + 2 ^ 29) % 2 ^ 30 - 2 ^ 29

/-- `time.ticks_add`. -/
def ticksAdd (ticks delta : Nat) : Nat := (ticks + delta) % 2 ^ 30

theorem ticksDiff_eq {a b : Nat} (hle : b ≤ a) (h : a - b < 2 ^ 29) : ticksDiff a b = ↑(a - b) := by
  unfold ticksDiff
  omega

/-- However late it is, the deadline comes to lie behind. -/
theorem exists_ticksDiff_le (deadline N : Nat) : ∃ n, N ≤ n ∧ ticksDiff deadline n ≤ 0 := by
  refine ⟨deadline + 2 ^ 30 * N, by omega, ?_⟩
  rw [ticksDiff]
  omega

end LinkLib.Ticks
