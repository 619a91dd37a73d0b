import Mathlib.Algebra.Order.Ring.Nat
import Mathlib.Data.Nat.Basic

/-!
# Stretching a span of whole numbers

The generic part for positions that are moved from a span of `a + 1` places to one of `b + 1`, in
proportion and rounded down: `rescale a b k = k * b / a`. The ends go to the ends
(`rescale_zero`, `rescale_last`), the order is kept (`rescale_mono`), nothing leaves the new span
(`rescale_le`), and where it is not the longer one no place of it is missed (`rescale_surjective`).
-/

namespace BgDesk

/-- The place of `k` of a span from 0 to `a` in the span from 0 to `b`. -/
def rescale (a b k : ℕ) : ℕ := k * b / a

theorem rescale_zero (a b : ℕ) : rescale a b 0 = 0 := by rw [rescale, Nat.zero_mul, Nat.zero_div]

variable {a b : ℕ}

/-- The end of the one range goes to the end of the other. -/
theorem rescale_last (ha : 0 < a) (b : ℕ) : rescale a b a = b := Nat.mul_div_cancel_left b ha

theorem rescale_self (ha : 0 < a) (k : ℕ) : rescale a a k = k := Nat.mul_div_cancel k ha

/-- The order is kept. -/
theorem rescale_mono {k k' : ℕ} (h : k ≤ k') : rescale a b k ≤ rescale a b k' :=
  Nat.div_le_div_right (Nat.mul_le_mul_right b h)

/-- What lies in the one range goes into the other. -/
theorem rescale_le {k : ℕ} (ha : 0 < a) (hk : k ≤ a) : rescale a b k ≤ b :=
  (rescale_mono hk).trans_eq (rescale_last ha b)

/-- **No place is missed** in a span that is not longer. -/
theorem rescale_surjective {j : ℕ} (hb : b ≤ a) (hj : j ≤ b) : ∃ k ≤ a, rescale a b k = j := by
  rcases Nat.eq_zero_or_pos b with rfl | hpos
  · exact ⟨0, Nat.zero_le _, by rw [rescale_zero, Nat.le_zero.mp hj]⟩
  -- the first place at or behind `j` in proportion
  refine ⟨(j * a + (b - 1)) / b, ?_, ?_⟩
  · have hja : j * a ≤ b * a := Nat.mul_le_mul_right a hj
    refine (Nat.div_le_div_right (Nat.add_le_add_right hja (b - 1))).trans_eq ?_
    rw [Nat.mul_add_div hpos, Nat.div_eq_of_lt (by omega), Nat.add_zero]
  · have hle : (j * a + (b - 1)) / b * b ≤ j * a + (b - 1) := Nat.div_mul_le_self _ _
    have hlt : j * a + (b - 1) < (j * a + (b - 1)) / b * b + b := Nat.lt_div_mul_add hpos
    exact Nat.div_eq_of_lt_le (by omega) (by rw [Nat.succ_mul]; omega)

end BgDesk
