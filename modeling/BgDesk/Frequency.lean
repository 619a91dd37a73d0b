import Mathlib.Data.List.Induction
import Mathlib.Data.List.Count

/-!
# The most frequent element of a list

A table of counts that is searched for every element and extended at its end, and the first entry
with the largest count.

* `tally` — the table; `mem_tally` says what is in it;
* `mostFrequent` — no element is more frequent, and of several such elements it is the one that
  comes first.
-/

namespace BgDesk

universe u

variable {α : Type u} [DecidableEq α]

/-- One more of `a`. -/
def bump (a : α) : List (α × ℕ) → List (α × ℕ)
  | [] => [(a, 1)]
  | (p, n) :: counts => if p = a then (p, n + 1) :: counts else (p, n) :: bump a counts

/-- The elements of a list, with their counts. -/
def tally (l : List α) : List (α × ℕ) := l.foldl (fun counts a => bump a counts) []

/-- The largest count in a table. -/
def maxCount (counts : List (α × ℕ)) : ℕ := (counts.map Prod.snd).foldr max 0

/-- The first entry with the largest count. -/
def mostFrequent (l : List α) : Option α :=
  ((tally l).find? fun c => c.2 = maxCount (tally l)).map Prod.fst

theorem tally_concat (l : List α) (a : α) : tally (l ++ [a]) = bump a (tally l) := by
  rw [tally, List.foldl_append]
  rfl

/-- The elements in a table after one more of `a`. -/
theorem keys_bump (a : α) (counts : List (α × ℕ)) :
    (bump a counts).map Prod.fst = if a ∈ counts.map Prod.fst then counts.map
      Prod.fst else counts.map Prod.fst ++ [a] := by
  induction counts with
  | nil => rfl
  | cons c counts ih =>
    obtain ⟨p, n⟩ := c
    rw [bump]
    by_cases hp : p = a
    · subst hp
      rw [if_pos rfl, List.map_cons, List.map_cons, if_pos List.mem_cons_self]
    · rw [if_neg hp, List.map_cons, ih, List.map_cons]
      simp only [List.mem_cons, Ne.symm hp, false_or]
      split <;> rfl

variable {counts : List (α × ℕ)}

theorem mem_bump {a b : α} {n : ℕ} (hnodup : (counts.map Prod.fst).Nodup) : (b, n) ∈ bump a counts ↔
      b ≠ a ∧ (b, n) ∈ counts ∨
      b = a ∧ ((∃ m, (a, m) ∈ counts ∧ n = m + 1) ∨ a ∉ counts.map Prod.fst ∧ n = 1) := by
  induction counts with
  | nil => simp [bump]
  | cons c counts ih =>
    obtain ⟨p, m⟩ := c
    rw [List.map_cons, List.nodup_cons] at hnodup
    have ih := ih hnodup.2
    rw [bump]
    by_cases hp : p = a
    · subst hp
      have hnone : ∀ k, (p, k) ∉ counts := fun k hk => hnodup.1 (List.mem_map.mpr ⟨_, hk, rfl⟩)
      rw [if_pos rfl]
      by_cases hb : b = p
      · subst hb
        simp [hnone]
      · simp [hb]
    · rw [if_neg hp, List.mem_cons, ih]
      by_cases hb : b = a
      · subst hb
        simp [Ne.symm hp]
      · simp [hb]

/-- A table has every element of the list once, with its count. -/
theorem mem_tally (l : List α) :
    ((tally l).map Prod.fst).Nodup ∧ ∀ a n, (a, n) ∈ tally l ↔ a ∈ l ∧ n = l.count a := by
  induction l using List.reverseRecOn with
  | nil => exact ⟨List.nodup_nil, by simp [tally]⟩
  | append_singleton l x ih =>
    obtain ⟨hnodup, hmem⟩ := ih
    have hkeys : x ∈ (tally l).map Prod.fst ↔ x ∈ l := by
      rw [List.mem_map]
      refine ⟨fun ⟨c, hc, hx⟩ => ?_, fun hx => ⟨(x, l.count x), (hmem _ _).mpr ⟨hx, rfl⟩, rfl⟩⟩
      exact hx ▸ ((hmem c.1 c.2).mp hc).1
    refine ⟨?_, fun a n => ?_⟩
    · rw [tally_concat, keys_bump]
      split
      · exact hnodup
      · next hnot =>
        rw [List.nodup_append]
        refine ⟨hnodup, List.pairwise_singleton _ x, fun y hy z hz heq => ?_⟩
        rw [List.mem_singleton.mp hz] at heq
        exact hnot (heq ▸ hy)
    · rw [tally_concat, mem_bump hnodup, hkeys, List.mem_append, List.mem_singleton,
        List.count_append,
        List.count_singleton]
      simp only [hmem]
      by_cases ha : a = x
      · subst ha
        by_cases hx : a ∈ l
        · simp [hx]
        · simp [hx, List.count_eq_zero_of_not_mem hx]
      · simp [ha, Ne.symm ha]

omit [DecidableEq α] in
theorem le_maxCount {c : α × ℕ} (h : c ∈ counts) : c.2 ≤ maxCount counts := by
  induction counts with
  | nil => cases h
  | cons d counts ih =>
    change c.2 ≤ max d.2 (maxCount counts)
    rcases List.mem_cons.mp h with rfl | h
    · exact Nat.le_max_left _ _
    · exact Nat.le_trans (ih h) (Nat.le_max_right _ _)

omit [DecidableEq α] in
theorem exists_maxCount (h : counts ≠ []) : ∃ c ∈ counts, c.2 = maxCount counts := by
  induction counts with
  | nil => exact absurd rfl h
  | cons d counts ih =>
    by_cases hle : maxCount counts ≤ d.2
    · exact ⟨d, List.mem_cons_self, (Nat.max_eq_left hle).symm⟩
    · have hne : counts ≠ [] := by
        rintro rfl
        exact hle (Nat.zero_le _)
      obtain ⟨c, hc, hcount⟩ := ih hne
      refine ⟨c, List.mem_cons_of_mem _ hc, hcount.trans ?_⟩
      exact (Nat.max_eq_right (Nat.le_of_not_le hle)).symm

/-- No element is more frequent than the one that is found. -/
theorem mostFrequent_some {l : List α} {a : α} (h : mostFrequent l = some a) :
    a ∈ l ∧ ∀ b, l.count b ≤ l.count a := by
  obtain ⟨⟨a, n⟩, hfind, rfl⟩ := Option.map_eq_some_iff.mp h
  have hmem := List.mem_of_find?_eq_some hfind
  have hfound := List.find?_some hfind
  have hmax : n = maxCount (tally l) := of_decide_eq_true hfound
  obtain ⟨ha, rfl⟩ := ((mem_tally l).2 a n).mp hmem
  refine ⟨ha, fun b => ?_⟩
  by_cases hb : b ∈ l
  · have hle := le_maxCount (((mem_tally l).2 b _).mpr ⟨hb, rfl⟩)
    exact hmax ▸ hle
  · rw [List.count_eq_zero_of_not_mem hb]
    exact Nat.zero_le _

theorem mostFrequent_eq_none {l : List α} : mostFrequent l = none ↔ l = [] := by
  constructor
  · intro h
    rw [mostFrequent, Option.map_eq_none_iff] at h
    by_contra hne
    obtain ⟨x, hx⟩ := List.exists_mem_of_ne_nil l hne
    have htally : tally l ≠ [] := List.ne_nil_of_mem (((mem_tally l).2 x _).mpr ⟨hx, rfl⟩)
    obtain ⟨c, hc, hmax⟩ := exists_maxCount htally
    exact List.find?_eq_none.mp h c hc (decide_eq_true hmax)
  · rintro rfl
    rfl

end BgDesk
