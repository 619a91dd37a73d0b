import Mathlib.Data.Finset.Card
import Mathlib.Data.Finset.Range
import Mathlib.Logic.Function.Basic

/-!
# Matchings that are built by passes

The entries of one list are matched with the indices of another one by passes over the first list,
and each pass may pair the entry it looks at with an index that is still free.

* `pass` — a pass, for any way to choose an index; `pass_induction` is its induction;
* `Valid` — what is taken is what is matched, and nothing is matched twice;
* `length_matched` — a matching that leaves nothing on one of the sides is as large as it can be.
-/

namespace BgDesk

universe u

/-- The index each entry has been given, and the indices that are taken. -/
structure Matching where
  matched : ℕ → Option ℕ
  taken : ℕ → Bool

namespace Matching

variable {α : Type u}

/-- Nothing is matched. -/
def empty : Matching := ⟨fun _ => none, fun _ => false⟩

/-- Give `j` to the entry at `i`. -/
def pair (m : Matching) (i j : ℕ) : Matching :=
  ⟨Function.update m.matched i (some j), Function.update m.taken j true⟩

/-- One entry of a pass. -/
def turn (choose : Matching → ℕ → α → Option ℕ) (m : Matching) (i : ℕ) (a : α) : Matching :=
  match choose m i a with
  | some j => m.pair i j
  | none => m

/-- A pass over a list whose first entry has index `i`. -/
def passFrom (choose : Matching → ℕ → α → Option ℕ) : List α → ℕ → Matching → Matching
  | [], _, m => m
  | a :: l, i, m => passFrom choose l (i + 1) (turn choose m i a)

/-- A pass over a list. -/
def pass (choose : Matching → ℕ → α → Option ℕ) (l : List α) (m : Matching) : Matching :=
  passFrom choose l 0 m

/-- Indices are taken by the entries they were given to, each by one. -/
structure Valid (m : Matching) : Prop where
  taken_iff : ∀ j, m.taken j = true ↔ ∃ i, m.matched i = some j
  injective : ∀ i i' j, m.matched i = some j → m.matched i' = some j → i = i'

theorem valid_empty : Valid empty :=
  ⟨fun _ => ⟨nofun, nofun⟩, nofun⟩

/-! ## One pair -/

theorem pair_matched_self (m : Matching) (i j : ℕ) : (m.pair i j).matched i = some j :=
  Function.update_self ..

variable {m : Matching} {i j : ℕ}

theorem pair_matched_ne {i' : ℕ} (h : i' ≠ i) : (m.pair i j).matched i' = m.matched i' :=
  Function.update_of_ne h ..

theorem pair_taken_self (m : Matching) (i j : ℕ) : (m.pair i j).taken j = true :=
  Function.update_self ..

theorem pair_taken_ne {j' : ℕ} (h : j' ≠ j) : (m.pair i j).taken j' = m.taken j' :=
  Function.update_of_ne h ..

theorem Valid.free (hm : m.Valid) (hj : m.taken j = false) : m.matched i ≠ some j := by
  intro hi
  rw [(hm.taken_iff j).mpr ⟨i, hi⟩] at hj
  cases hj

theorem Valid.pair (hm : m.Valid) (hi : m.matched i = none) (hj : m.taken j = false) :
    (m.pair i j).Valid where
  taken_iff k := by
    by_cases hk : k = j
    · subst hk
      exact ⟨fun _ => ⟨i, pair_matched_self m i k⟩, fun _ => pair_taken_self m i k⟩
    rw [pair_taken_ne hk, hm.taken_iff]
    constructor
    · rintro ⟨i', hi'⟩
      have hne : i' ≠ i := by
        rintro rfl
        rw [hi] at hi'
        cases hi'
      exact ⟨i', (pair_matched_ne hne).trans hi'⟩
    · rintro ⟨i', hi'⟩
      by_cases hne : i' = i
      · subst hne
        rw [pair_matched_self] at hi'
        exact absurd (Option.some.inj hi').symm hk
      · exact ⟨i', (pair_matched_ne hne).symm.trans hi'⟩
  injective i₁ i₂ k h₁ h₂ := by
    by_cases he₁ : i₁ = i
    · by_cases he₂ : i₂ = i
      · rw [he₁, he₂]
      · rw [he₁, pair_matched_self] at h₁
        rw [pair_matched_ne he₂, ← Option.some.inj h₁] at h₂
        exact absurd h₂ (hm.free hj)
    · rw [pair_matched_ne he₁] at h₁
      by_cases he₂ : i₂ = i
      · rw [he₂, pair_matched_self] at h₂
        rw [← Option.some.inj h₂] at h₁
        exact absurd h₁ (hm.free hj)
      · rw [pair_matched_ne he₂] at h₂
        exact hm.injective i₁ i₂ k h₁ h₂

/-- One entry: nothing happens, or it is given the index that was chosen. -/
theorem turn_cases (choose : Matching → ℕ → α → Option ℕ) (m : Matching) (i : ℕ) (a : α) :
    (choose m i a = none ∧ turn choose m i a = m) ∨ ∃ j, choose m i a = some j ∧
      turn choose m i a = m.pair i j := by
  rw [turn]
  cases hchoose : choose m i a with
  | none => exact .inl ⟨rfl, rfl⟩
  | some j => exact .inr ⟨j, rfl, rfl⟩

/-! ## A pass -/

theorem passFrom_induction {choose : Matching → ℕ → α → Option ℕ} {P : ℕ → Matching → Prop}
    {l : List α} {i : ℕ} {m : Matching}
    (hturn : ∀ k a m, l[k]? = some a → P (i + k) m → P (i + k + 1) (turn choose m (i + k) a))
    (hm : P i m) : P (i + l.length) (passFrom choose l i m) := by
  induction l generalizing i m with
  | nil => exact hm
  | cons a l ih =>
    have hrest := @ih (i + 1) (turn choose m i a) ?_ (hturn 0 a m rfl hm)
    · rw [passFrom, List.length_cons, show i + (l.length + 1) = i + 1 + l.length by omega]
      exact hrest
    · intro k b m hb
      have h := hturn (k + 1) b m hb
      rwa [show i + (k + 1) = i + 1 + k by omega] at h

/-- What holds at first, and is kept when the next entry has its turn, holds after the pass. -/
theorem pass_induction {choose : Matching → ℕ → α → Option ℕ} {P : ℕ → Matching → Prop} {l : List α}
    (hturn : ∀ i a m, l[i]? = some a → P i m → P (i + 1) (turn choose m i a)) (hm : P 0 m) :
    P l.length (pass choose l m) := by
  have h := @passFrom_induction α choose P l 0 m (fun k a m ha hP => by
    rw [Nat.zero_add] at hP ⊢
    exact hturn k a m ha hP) hm
  rwa [Nat.zero_add] at h

/-! ## How large a matching is -/

theorem card_filter_range (p : ℕ → Bool) (n : ℕ) :
    ((Finset.range n).filter fun i => p i = true).card = ((List.range n).filter p).length := by
  have hdecide : (fun i => decide (p i = true)) = p := funext fun _ => Bool.decide_eq_true
  exact congrArg (fun q => (List.filter q (List.range n)).length) hdecide

/-- As many entries are matched as indices are taken. -/
theorem Valid.length_matched_eq (hm : m.Valid) {n k : ℕ}
    (hrange : ∀ i j, m.matched i = some j → i < n ∧ j < k) :
    ((List.range n).filter fun i => (m.matched i).isSome).length =
      ((List.range k).filter fun j => m.taken j).length := by
  have hcard : ((Finset.range n).filter fun i => (m.matched i).isSome = true).card =
      ((Finset.range k).filter fun j => m.taken j = true).card := by
    refine Finset.card_bij (fun i hi => (m.matched i).get (Finset.mem_filter.mp hi).2)
      (fun i hi => ?_) (fun i hi i' hi' heq => ?_)
      (fun j hj => ?_)
    · have hmatched := (Option.some_get (Finset.mem_filter.mp hi).2).symm
      exact Finset.mem_filter.mpr ⟨Finset.mem_range.mpr (hrange _ _ hmatched).2,
        (hm.taken_iff _).mpr ⟨i, hmatched⟩⟩
    · have hmatched := (Option.some_get (Finset.mem_filter.mp hi).2).symm
      have hmatched' := (Option.some_get (Finset.mem_filter.mp hi').2).symm
      rw [← heq] at hmatched'
      exact hm.injective i i' _ hmatched hmatched'
    · obtain ⟨i, hi⟩ := (hm.taken_iff j).mp (Finset.mem_filter.mp hj).2
      have hsome : (m.matched i).isSome = true := by rw [hi]; rfl
      exact ⟨i, Finset.mem_filter.mpr ⟨Finset.mem_range.mpr (hrange i j hi).1, hsome⟩, by
        simp only [hi, Option.get_some]⟩
  rw [← card_filter_range, ← card_filter_range]
  exact hcard

/-- When an entry stays without an index only if no index is left, as many are matched as possible.
-/
theorem Valid.length_matched (hm : m.Valid) {n k : ℕ}
    (hrange : ∀ i j, m.matched i = some j → i < n ∧ j < k)
    (hfull : ∀ i < n, m.matched i = none → ∀ j < k, m.taken j = true) :
    ((List.range n).filter fun i => (m.matched i).isSome).length = min n k := by
  have hlen := hm.length_matched_eq hrange
  have hn : ((List.range n).filter fun i => (m.matched i).isSome).length ≤ n :=
    (List.length_filter_le _ _).trans_eq List.length_range
  have hk : ((List.range k).filter fun j => m.taken j).length ≤ k :=
    (List.length_filter_le _ _).trans_eq List.length_range
  by_cases hall : ∀ i < n, (m.matched i).isSome = true
  · rw [List.filter_eq_self.mpr fun i hi => hall i (List.mem_range.mp hi),
      List.length_range] at hlen ⊢
    omega
  · rw [not_forall] at hall
    obtain ⟨i, hi⟩ := hall
    rw [Classical.not_imp, Bool.not_eq_true, Option.isSome_eq_false_iff,
      Option.isNone_iff_eq_none] at hi
    rw [List.filter_eq_self (l := List.range k) |>.mpr fun j hj =>
      hfull i hi.1 hi.2 j (List.mem_range.mp hj),
      List.length_range] at hlen
    omega

end Matching
end BgDesk
