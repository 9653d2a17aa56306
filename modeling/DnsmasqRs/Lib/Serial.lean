import Mathlib.Tactic.Ring
import Mathlib.Tactic.Linarith

/-!
# Serial numbers that wrap

A counter is sent modulo `4 * q`, and who receives it keeps the part above that by itself: a number
of the lowest quarter after one of the highest has wrapped, and one of the highest quarter after one
of the lowest is from before the last wrap (`nextHigh`).  As long as each number is at most `q` away
from the one before, in either direction, this is right (`nextHigh_eq`).
-/

namespace Serial

/-- The part above `4 * q` of a number that is `new` below it, after one that was `hi` above and
`prev` below. -/
def nextHigh (q hi prev new : ℕ) : ℕ :=
  if new ≤ q ∧ 3 * q ≤ prev then hi + 1
  else if 3 * q ≤ new ∧ prev ≤ q ∧ hi ≠ 0 then hi - 1
  else hi

variable {q hi prev r : ℕ}

theorem nextHigh_up (hr : r ≤ q) (hprev : 3 * q ≤ prev) : nextHigh q hi prev r = hi + 1 :=
    if_pos ⟨hr, hprev⟩

theorem nextHigh_down (hq : 0 < q) (hr : 3 * q ≤ r) (hprev : prev ≤ q) (hhi : hi ≠ 0) :
    nextHigh q hi prev r = hi - 1 := by
  unfold nextHigh
  rw [if_neg (by omega), if_pos ⟨hr, hprev, hhi⟩]

theorem nextHigh_same (hup : r ≤ q → prev < 3 * q) (hdown : 3 * q ≤ r → q < prev) :
    nextHigh q hi prev r = hi := by
  unfold nextHigh
  rw [if_neg (fun h => absurd (hup h.1) (by omega)),
    if_neg (fun h => absurd (hdown h.1) (by omega))]

/-- Of two counts of wraps that differ, and less than two wraps apart, one is the successor. -/
theorem eq_succ_of_close (hlt : a < b) (hclose : b * (4 * q) < (a + 2) * (4 * q)) : b = a + 1 := by
  have := Nat.lt_of_mul_lt_mul_right hclose
  omega

/-- **A number at most `q` away is widened right**. -/
theorem nextHigh_eq (hq : 0 < q) (hprev : prev < 4 * q) (hr : r < 4 * q)
    (hup : d * (4 * q) + r ≤ hi * (4 * q) + prev + q)
    (hdown : hi * (4 * q) + prev ≤ d * (4 * q) + r + q) :
    nextHigh q hi prev r = d := by
  obtain hlt | rfl | hgt := lt_trichotomy d hi
  · -- one wrap back
    obtain rfl :=
      eq_succ_of_close hlt (show hi * (4 * q) < (d + 2) * (4 * q) by rw [Nat.add_mul]; omega)
    rw [Nat.succ_mul] at hup hdown
    rw [nextHigh_down hq (by omega) (by omega) (by omega), Nat.add_sub_cancel]
  · exact nextHigh_same (by omega) (by omega)
  · -- one wrap on
    obtain rfl :=
      eq_succ_of_close hgt (show d * (4 * q) < (hi + 2) * (4 * q) by rw [Nat.add_mul]; omega)
    rw [Nat.succ_mul] at hup hdown
    exact nextHigh_up (by omega) (by omega)

end Serial
