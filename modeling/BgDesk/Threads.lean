import Mathlib.Algebra.GroupWithZero.Nat
import Mathlib.Data.List.Basic
import Mathlib.Data.List.Forall2
import Mathlib.Data.Bool.Basic

/-!
# Threads in a list

Threads that all run the same code are a list: the entry at an index is what the thread does next.
How many threads meet a condition is a count, and a thread that goes on changes it by its own entry
only.

* `countP_step`, `sum_step` — the count, or the sum of a measure, after a thread has gone on;
* `forall₂_set_set` — two lists of threads that go on alike;
* `countP_le_one_index` — of two threads with different indices, at most one meets a condition that
  is counted once.
-/

namespace BgDesk

universe u v

variable {α : Type u} {p : α → Bool}

/-- One thread has gone on. -/
theorem countP_step {l : List α} {i : ℕ} {a : α} (h : l[i]? = some a) (b : α) :
    (l.set i b).countP p + (p a).toNat = l.countP p + (p b).toNat := by
  induction l generalizing i with
  | nil => cases h
  | cons c l ih =>
    cases i with
    | zero =>
      obtain rfl : c = a := Option.some.inj h
      simp only [List.set_cons_zero, List.countP_cons]
      cases p c <;> cases p b <;> simp
    | succ i =>
      have hrest := ih h
      simp only [List.set_cons_succ, List.countP_cons]
      omega

variable {l : List α} {i : ℕ} {a b : α}

/-- The count after a thread has ended. -/
theorem countP_eraseIdx (h : l[i]? = some a) :
    (l.eraseIdx i).countP p + (p a).toNat = l.countP p := by
  induction l generalizing i with
  | nil => cases h
  | cons b l ih =>
    cases i with
    | zero =>
      obtain rfl : b = a := Option.some.inj h
      rw [List.eraseIdx_cons_zero, List.countP_cons]
      cases p b <;> rfl
    | succ i =>
      have hrest := ih h
      rw [List.eraseIdx_cons_succ, List.countP_cons, List.countP_cons]
      omega

/-- The sum of a measure of the threads after one has gone on. -/
theorem sum_step {f : α → ℕ} (h : l[i]? = some a) (b : α) :
    ((l.set i b).map f).sum + f a = (l.map f).sum + f b := by
  induction l generalizing i with
  | nil => cases h
  | cons c l ih =>
    cases i with
    | zero =>
      obtain rfl : c = a := Option.some.inj h
      simp only [List.set_cons_zero, List.map_cons, List.sum_cons]
      omega
    | succ i =>
      have hrest := ih h
      simp only [List.set_cons_succ, List.map_cons, List.sum_cons]
      omega

theorem countP_pos_index (h : l[i]? = some a) (ha : p a = true) : 0 < l.countP p :=
  List.countP_pos_iff.mpr ⟨a, List.mem_of_getElem? h, ha⟩

/-- After a thread has gone on, there are its new entry and the entries of the others. -/
theorem mem_step (h : b ∈ l.set i a) : b = a ∨ ∃ j, j ≠ i ∧ l[j]? = some b := by
  obtain ⟨j, hj⟩ := List.mem_iff_getElem?.mp h
  by_cases hij : i = j
  · subst hij
    have hlt : i < (l.set i a).length := (List.getElem?_eq_some_iff.mp hj).1
    rw [List.length_set] at hlt
    rw [List.getElem?_set_self hlt] at hj
    exact .inl (Option.some.inj hj).symm
  · rw [List.getElem?_set_ne hij] at hj
    exact .inr ⟨j, Ne.symm hij, hj⟩

/-- The entries of the other threads are as before. -/
theorem mem_set_of_ne (h : l[i]? = some a) (hb : b ∈ l) (hne : b ≠ a) (c : α) : b ∈ l.set i c := by
  obtain ⟨j, hj⟩ := List.mem_iff_getElem?.mp hb
  have hij : i ≠ j := by
    rintro rfl
    exact hne (Option.some.inj (hj.symm.trans h))
  exact List.mem_iff_getElem?.mpr ⟨j, by rw [List.getElem?_set_ne hij, hj]⟩

/-- A thread that has gone on is where it went. -/
theorem mem_set_self (h : l[i]? = some a) (b : α) : b ∈ l.set i b :=
  List.mem_set (List.getElem?_eq_some_iff.mp h).1 b

/-- What is not the entry of a thread that ends is still there. -/
theorem mem_eraseIdx_of_ne (h : l[i]? = some a) (hb : b ∈ l) (hne : b ≠ a) : b ∈ l.eraseIdx i := by
  obtain ⟨j, hj⟩ := List.mem_iff_getElem?.mp hb
  refine List.mem_eraseIdx_iff_getElem?.mpr ⟨j, ?_, hj⟩
  rintro rfl
  exact hne (Option.some.inj (hj.symm.trans h))

theorem countP_le_one_index (hone : l.countP p ≤ 1) {j : ℕ} (hi : l[i]? = some a) (ha : p a = true)
    (hj : l[j]? = some b) (hb : p b = true) : i = j := by
  induction l generalizing i j with
  | nil => cases hi
  | cons c l ih =>
    rw [List.countP_cons] at hone
    cases i with
    | zero =>
      cases j with
      | zero => rfl
      | succ j =>
        obtain rfl : c = a := Option.some.inj hi
        have hpos : 0 < l.countP p := countP_pos_index hj hb
        rw [if_pos ha] at hone
        omega
    | succ i =>
      cases j with
      | zero =>
        obtain rfl : c = b := Option.some.inj hj
        have hpos : 0 < l.countP p := countP_pos_index hi ha
        rw [if_pos hb] at hone
        omega
      | succ j => rw [ih (Nat.le_trans (Nat.le_add_right _ _) hone) hi hj]

section Related

variable {β : Type v}

variable {R : α → β → Prop} {l : List α} {m : List β}

/-- Two lists of threads that go on at one index. -/
theorem forall₂_set_set (h : List.Forall₂ R l m) {a : α} {b : β} (hab : R a b) (i : ℕ) :
    List.Forall₂ R (l.set i a) (m.set i b) := by
  induction h generalizing i with
  | nil => exact .nil
  | cons hhead hrest ih =>
    cases i with
    | zero => exact .cons hab hrest
    | succ i => exact .cons hhead (ih i)

theorem forall₂_getElem? (h : List.Forall₂ R l m) {i : ℕ} {a : α} (hi : l[i]? = some a) :
    ∃ b, m[i]? = some b ∧ R a b := by
  induction h generalizing i with
  | nil => cases hi
  | cons hhead hrest ih =>
    cases i with
    | zero =>
      obtain rfl := Option.some.inj hi
      exact ⟨_, rfl, hhead⟩
    | succ i => exact ih hi

/-- The same, from the other list. -/
theorem forall₂_getElem?_right (h : List.Forall₂ R l m) {i : ℕ} {b : β} (hi : m[i]? = some b) :
    ∃ a, l[i]? = some a ∧ R a b :=
  forall₂_getElem? h.flip hi

end Related

end BgDesk
