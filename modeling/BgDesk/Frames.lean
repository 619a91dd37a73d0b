import Mathlib.Data.List.Basic
import Mathlib.Algebra.Order.Ring.Nat

/-!
# Samples in frames

The generic part for interleaved data: a list of samples, of which `n` in a row belong together.

* `frames` — the list cut into frames, without what is left over at its end;
* `frames_append` — where the first part ends with a frame, the frames of a list are those of its
  parts;
* `frames_take_eq` — the frames at the front of a longer list.
-/

namespace BgDesk

variable {α : Type*} {n : ℕ}

/-- The frames of `n` samples each. -/
def frames (n : ℕ) (l : List α) : List (List α) :=
  (List.range (l.length / n)).map fun i => (l.drop (i * n)).take n

@[simp] theorem frames_nil (n : ℕ) : frames n ([] : List α) = [] := by simp [frames]

/-- A frame that begins and ends in the first part of a list. -/
theorem take_drop_append_left {l m : List α} {i k : ℕ} (hl : l.length = n * k) (hi : i < k) :
    ((l ++ m).drop (i * n)).take n = (l.drop (i * n)).take n := by
  have hin : (i + 1) * n ≤ k * n := Nat.mul_le_mul_right n hi
  rw [Nat.add_mul, Nat.one_mul, Nat.mul_comm k n] at hin
  rw [List.drop_append_of_le_length (by omega),
    List.take_append_of_le_length (by rw [List.length_drop]; omega)]

theorem frames_append {l m : List α} (hn : 0 < n) (h : n ∣ l.length) :
    frames n (l ++ m) = frames n l ++ frames n m := by
  obtain ⟨k, hk⟩ := h
  have hfirst : l.length / n = k := by rw [hk, Nat.mul_div_cancel_left k hn]
  have hall : (l ++ m).length / n = k + m.length / n := by
    rw [List.length_append, hk, Nat.mul_add_div hn]
  rw [frames, frames, frames, hall, hfirst, List.range_add, List.map_append, List.map_map]
  congr 1
  · apply List.map_congr_left
    intro i hi
    exact take_drop_append_left hk (List.mem_range.mp hi)
  · apply List.map_congr_left
    intro j _
    have hskip : (k + j) * n = l.length + j * n := by rw [hk, Nat.add_mul, Nat.mul_comm k n]
    rw [Function.comp_apply, hskip, List.drop_length_add_append]

/-- A list of whole frames, of which the first are those of `l`. -/
theorem frames_take_eq {l : List α} {k : ℕ} (hn : 0 < n) (hk : k * n ≤ l.length) :
    (List.range k).map (fun i => (l.drop (i * n)).take n) = frames n (l.take (k * n)) := by
  have hlen : (l.take (k * n)).length = n * k := by
    rw [List.length_take, Nat.mul_comm n k]
    exact Nat.min_eq_left hk
  rw [frames, hlen, Nat.mul_div_cancel_left k hn]
  apply List.map_congr_left
  intro i hi
  have hback := take_drop_append_left (m := l.drop (k * n)) hlen (List.mem_range.mp hi)
  rwa [List.take_append_drop] at hback

end BgDesk
