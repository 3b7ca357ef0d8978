import Mathlib.Algebra.Order.Ring.Int

/-!
# One-shot timers with a 32-bit delay

A timer that is set with a delay runs at the first moment, at which timers run at all, that is not before
the delay has passed. A delay outside `1..2 ^ 31 - 1` counts as one millisecond.
-/

namespace Qubicl.Foundation.Timers

def timeoutMax : ℤ := 2147483647

def effective (delay : ℤ) : ℤ := if 1≤delay ∧ delay≤timeoutMax then delay else 1

def due (moment delay : ℤ) : ℤ := moment+effective delay

variable {delay moment : ℤ}

theorem due_eq (h : 1≤delay) (hmax : delay≤timeoutMax) : due moment delay=moment+delay := by
  rw [due,effective,if_pos ⟨h,hmax⟩]

theorem due_overflow (h : timeoutMax<delay) : due moment delay=moment+1 := by
  have hlon : ¬ (1≤delay ∧ delay≤timeoutMax) := by omega
  rw [due,effective,if_neg hlon]

theorem lt_due (moment delay : ℤ) : moment<due moment delay := by
  unfold due effective
  split_ifs <;> omega

theorem due_le (h : 1≤delay) : due moment delay ≤ moment+delay := by
  unfold due effective
  split_ifs <;> omega

end Qubicl.Foundation.Timers
