import Mathlib.Data.List.TakeDrop
import Mathlib.Order.Nat

/-!
# Lists that are overwritten, and copies made in pieces

* `overwrite` — a piece is written at a position, and the list grows if it must;
* `PieceOf` — what was read from a list, at a position, and is still right where the list is stable;
* `CopyOf` — a beginning of a list, right where it is stable. A copy stays one when a piece is
  written to it;
* `Changes` — a list grows or is overwritten, and copies of it and pieces stay what they are.
-/

namespace BgDesk

universe u

variable {α : Type u}

/-- `data` is written at `pos`. -/
def overwrite (xs : List α) (pos : ℕ) (data : List α) : List α :=
  xs.take pos ++ data ++ xs.drop (pos + data.length)

/-- A list that is overwritten at a position within it, or at its end, does not become shorter. -/
theorem length_overwrite {xs : List α} {pos : ℕ} (h : pos ≤ xs.length) (data : List α) :
    (overwrite xs pos data).length = max xs.length (pos + data.length) := by
  rw [overwrite, List.length_append, List.length_append, List.length_take, List.length_drop]
  omega

/-- What is overwritten is the new data, the rest is as before. -/
theorem getElem?_overwrite {xs : List α} {pos : ℕ} (h : pos ≤ xs.length) (data : List α) (i : ℕ) :
    (overwrite xs pos data)[i]? = if pos ≤ i ∧
      i < pos + data.length then data[i - pos]? else xs[i]? := by
  have htake : (xs.take pos).length = pos := List.length_take_of_le h
  have hboth : (xs.take pos ++ data).length = pos + data.length := by rw [List.length_append, htake]
  rw [overwrite]
  by_cases hbefore : i < pos
  · rw [List.append_assoc, List.getElem?_append_left (by omega), List.getElem?_take_of_lt hbefore,
      if_neg (by omega)]
  · by_cases hin : i < pos + data.length
    · rw [List.getElem?_append_left (by omega), List.getElem?_append_right (by omega), htake,
        if_pos ⟨by omega, hin⟩]
    · rw [List.getElem?_append_right (by omega), hboth, List.getElem?_drop, if_neg (by omega)]
      congr 1
      omega

variable {stable stable' : ℕ → Prop} {xs copy data : List α} {pos : ℕ}

/-- What was read from a list at a position. -/
structure PieceOf (stable : ℕ → Prop) (xs : List α) (pos : ℕ) (data : List α) : Prop where
  length : pos + data.length ≤ xs.length
  same : ∀ i, pos ≤ i → i < pos + data.length → stable i → data[i - pos]? = xs[i]?

/-- A beginning of a list. -/
structure CopyOf (stable : ℕ → Prop) (xs copy : List α) : Prop where
  length : copy.length ≤ xs.length
  same : ∀ i < copy.length, stable i → copy[i]? = xs[i]?

/-- All from a position on is a piece. -/
theorem pieceOf_drop (stable : ℕ → Prop) (h : pos ≤ xs.length) :
    PieceOf stable xs pos (xs.drop pos) where
  length := by
    rw [List.length_drop]
    omega
  same i hpos _ _ := by
    rw [List.getElem?_drop]
    congr 1
    omega

theorem pieceOf_take (stable : ℕ → Prop) (xs : List α) (n : ℕ) :
    PieceOf stable xs 0 (xs.take n) where
  length := by
    rw [List.length_take]
    omega
  same i _ hlt _ := by
    rw [List.length_take] at hlt
    rw [Nat.sub_zero, List.getElem?_take_of_lt (by omega)]

/-- At first nothing is copied. -/
theorem copyOf_nil (stable : ℕ → Prop) (xs : List α) : CopyOf stable xs [] where
  length := Nat.zero_le _
  same := by rintro i ⟨⟩

/-- A piece is written to the copy. -/
theorem CopyOf.write (h : CopyOf stable xs copy) (hpiece : PieceOf stable xs pos data)
    (hpos : pos ≤ copy.length) : CopyOf stable xs (overwrite copy pos data) where
  length := by
    rw [length_overwrite hpos]
    exact Nat.max_le.mpr ⟨h.length, hpiece.length⟩
  same i hi hstable := by
    rw [length_overwrite hpos] at hi
    rw [getElem?_overwrite hpos]
    split
    · next hin => exact hpiece.same i hin.1 hin.2 hstable
    · exact h.same i (by omega) hstable

/-- A list changes: it does not become shorter, and where it is stable afterwards it was before and
is the same. -/
structure Changes (stable : ℕ → Prop) (xs : List α) (stable' : ℕ → Prop) (ys : List α) : Prop where
  length : xs.length ≤ ys.length
  same : ∀ i < xs.length, stable' i → stable i ∧ ys[i]? = xs[i]?

theorem changes_refl (stable : ℕ → Prop) (xs : List α) : Changes stable xs stable xs :=
  ⟨Nat.le_refl _, fun _ _ h => ⟨h, rfl⟩⟩

theorem changes_append (stable : ℕ → Prop) (xs ys : List α) :
    Changes stable xs stable (xs ++ ys) where
  length := by
    rw [List.length_append]
    exact Nat.le_add_right _ _
  same i hi h := ⟨h, List.getElem?_append_left hi⟩

/-- It is overwritten, and is not stable there. -/
theorem changes_overwrite {start : ℕ} {new : List α} (hin : start + new.length ≤ xs.length)
    (hstable : ∀ i, stable' i → stable i ∧ ¬(start ≤ i ∧ i < start + new.length)) :
    Changes stable xs stable' (overwrite xs start new) where
  length := by
    rw [length_overwrite (by omega)]
    exact Nat.le_max_left _ _
  same i _ hi' := by
    obtain ⟨hold, hout⟩ := hstable i hi'
    rw [getElem?_overwrite (by omega), if_neg hout]
    exact ⟨hold, rfl⟩

variable {ys : List α}

/-- What was copied from stable places stays a copy when the original is changed in others. -/
theorem CopyOf.changes (h : CopyOf stable xs copy) (hchanges : Changes stable xs stable' ys) :
    CopyOf stable' ys copy where
  length := h.length.trans hchanges.length
  same i hi hi' := by
    obtain ⟨hold, hsame⟩ := hchanges.same i (hi.trans_le h.length) hi'
    rw [hsame]
    exact h.same i hi hold

/-- And a piece that has been read stays one. -/
theorem PieceOf.changes (h : PieceOf stable xs pos data) (hchanges : Changes stable xs stable' ys) :
    PieceOf stable' ys pos data where
  length := h.length.trans hchanges.length
  same i hle hlt hi' := by
    obtain ⟨hold, hsame⟩ := hchanges.same i (hlt.trans_le h.length) hi'
    rw [hsame]
    exact h.same i hle hlt hold

end BgDesk
