import Mathlib.Data.List.Nodup
import Mathlib.Data.List.Perm.Basic
import Mathlib.Data.List.Induction
import Mathlib.Order.Lattice

/-!
# Maps that are sorted by their keys

A map is the list of its entries, in the order of their keys. Entries that are collected into a map
may repeat a key: the last one stays.

* `insert`, `collect` — the operations;
* `pairwise_collect`, `lookup_collect` — the order, and what is in the map;
* `collect_eq_collect` — it matters only in which order the entries of the same key came;
* `collect_perm` — without repeated keys nothing is lost.
-/

namespace BgDesk
namespace SortedMap

universe u v

variable {κ : Type u} [LinearOrder κ] {α : Type v}

/-- Set the value of a key. -/
def insert (k : κ) (a : α) : List (κ × α) → List (κ × α)
  | [] => [(k, a)]
  | e :: m =>
    if k < e.1 then (k, a) :: e :: m else if k = e.1 then (k, a) :: m else e :: insert k a m

/-- The map of some entries. -/
def collect (l : List (κ × α)) : List (κ × α) := l.foldl (fun m e => insert e.1 e.2 m) []

theorem collect_concat (l : List (κ × α)) (e : κ × α) :
    collect (l ++ [e]) = insert e.1 e.2 (collect l) := by
  rw [collect, List.foldl_append]
  rfl

/-! ## The order -/

variable {k : κ} {e : κ × α} {l l' m : List (κ × α)}

theorem mem_insert {a : α} (h : e ∈ insert k a m) : e = (k, a) ∨ e ∈ m := by
  induction m with
  | nil => exact .inl (List.mem_singleton.mp h)
  | cons d m ih =>
    rw [insert] at h
    split at h
    · exact List.mem_cons.mp h
    split at h
    · rcases List.mem_cons.mp h with h | h
      · exact .inl h
      · exact .inr (List.mem_cons_of_mem _ h)
    · rcases List.mem_cons.mp h with rfl | h
      · exact .inr List.mem_cons_self
      · exact (ih h).imp_right (List.mem_cons_of_mem _)

theorem mem_of_mem_collect (h : e ∈ collect l) : e ∈ l := by
  induction l using List.reverseRecOn with
  | nil => cases h
  | append_singleton l d ih =>
    rw [collect_concat] at h
    rcases mem_insert h with rfl | h
    · exact List.mem_append_right _ List.mem_cons_self
    · exact List.mem_append_left _ (ih h)

theorem pairwise_insert {a : α} (hm : m.Pairwise (·.1 < ·.1)) :
    (insert k a m).Pairwise (·.1 < ·.1) := by
  induction m with
  | nil => exact List.pairwise_singleton _ _
  | cons e m ih =>
    rw [List.pairwise_cons] at hm
    obtain ⟨hfirst, hm⟩ := hm
    rw [insert]
    split
    · next hlt =>
      refine List.pairwise_cons.mpr ⟨fun d hd => ?_, List.pairwise_cons.mpr ⟨hfirst, hm⟩⟩
      rcases List.mem_cons.mp hd with rfl | hd
      · exact hlt
      · exact lt_trans hlt (hfirst d hd)
    split
    · next heq => exact List.pairwise_cons.mpr ⟨fun d hd => heq ▸ hfirst d hd, hm⟩
    · next hnlt hne =>
      refine List.pairwise_cons.mpr ⟨fun d hd => ?_, ih hm⟩
      rcases mem_insert hd with rfl | hd
      · exact lt_of_le_of_ne (not_lt.mp hnlt) (Ne.symm hne)
      · exact hfirst d hd

theorem pairwise_collect (l : List (κ × α)) : (collect l).Pairwise (·.1 < ·.1) := by
  induction l using List.reverseRecOn with
  | nil => exact List.Pairwise.nil
  | append_singleton l e ih =>
    rw [collect_concat]
    exact pairwise_insert ih

/-- The keys of a map are different. -/
theorem nodup_keys (hm : m.Pairwise (·.1 < ·.1)) : (m.map Prod.fst).Nodup := by
  rw [List.Nodup, List.pairwise_map]
  exact hm.imp fun h => h.ne

theorem mem_insert_of_ne {a : α} (h : e ∈ m) (hne : e.1 ≠ k) : e ∈ insert k a m := by
  induction m with
  | nil => cases h
  | cons d m ih =>
    rw [insert]
    split
    · exact List.mem_cons_of_mem _ h
    split
    · next heq =>
      rcases List.mem_cons.mp h with rfl | h
      · exact absurd heq.symm hne
      · exact List.mem_cons_of_mem _ h
    · rcases List.mem_cons.mp h with rfl | h
      · exact List.mem_cons_self
      · exact List.mem_cons_of_mem _ (ih h)

theorem length_insert_le (k : κ) (a : α) (m : List (κ × α)) :
    (insert k a m).length ≤ m.length + 1 := by
  induction m with
  | nil => exact Nat.le_refl _
  | cons e m ih =>
    rw [insert]
    split
    · exact Nat.le_refl _
    split
    · exact Nat.le_succ _
    · exact Nat.succ_le_succ ih

/-! ## What is in a map -/

theorem lookup_cons_if (e : κ × α) (m : List (κ × α)) (k : κ) :
    (e :: m).lookup k = if k = e.1 then some e.2 else m.lookup k := by
  rw [List.lookup_cons]
  by_cases h : k = e.1
  · simp [h]
  · rw [beq_eq_false_iff_ne.mpr h, if_neg h]

theorem lookup_insert (k k' : κ) (a : α) (m : List (κ × α)) :
    (insert k a m).lookup k' = if k' = k then some a else m.lookup k' := by
  induction m with
  | nil => exact lookup_cons_if _ _ _
  | cons e m ih =>
    rw [insert]
    split
    · exact lookup_cons_if _ _ _
    split
    · next heq =>
      rw [lookup_cons_if, lookup_cons_if, ← heq]
      split <;> rfl
    · next hne =>
      rw [lookup_cons_if, lookup_cons_if, ih]
      by_cases h : k' = k
      · subst h
        rw [if_neg hne, if_pos rfl, if_pos rfl]
      · rw [if_neg h, if_neg h]

/-- Of the entries of a key the last one stays. -/
theorem lookup_collect (l : List (κ × α)) (k : κ) :
    (collect l).lookup k = (l.filter fun e => e.1 = k).getLast?.map Prod.snd := by
  induction l using List.reverseRecOn with
  | nil => rfl
  | append_singleton l e ih =>
    rw [collect_concat, lookup_insert, ih, List.filter_append]
    by_cases h : k = e.1
    · simp [h]
    · simp [h, Ne.symm h]

theorem mem_iff_lookup (hm : (m.map Prod.fst).Nodup) (k : κ) (a : α) :
    (k, a) ∈ m ↔ m.lookup k = some a := by
  induction m with
  | nil => simp
  | cons e m ih =>
    obtain ⟨k', a'⟩ := e
    rw [List.map_cons, List.nodup_cons] at hm
    rw [List.mem_cons, lookup_cons_if, ih hm.2]
    by_cases h : k = k'
    · subst h
      have hnone : m.lookup k ≠ some a := fun hsome =>
        hm.1 (List.mem_map.mpr ⟨(k, a), (ih hm.2).mpr hsome, rfl⟩)
      simp [hnone, eq_comm]
    · simp [h]

/-- An entry takes the place of one with its key. -/
theorem length_insert_of_lookup (a : α) {b : α} (hm : m.Pairwise (·.1 < ·.1))
    (h : m.lookup k = some b) : (insert k a m).length = m.length := by
  induction m with
  | nil => cases h
  | cons e m ih =>
    rw [List.pairwise_cons] at hm
    rw [lookup_cons_if] at h
    rw [insert]
    split
    · next hlt =>
      -- the key would come before all keys of the map
      rw [if_neg (ne_of_lt hlt)] at h
      have hmem : (k, b) ∈ m := (mem_iff_lookup (nodup_keys hm.2) k b).mpr h
      exact absurd (lt_trans hlt (hm.1 _ hmem)) (lt_irrefl k)
    split
    · rfl
    · next hne =>
      rw [if_neg hne] at h
      exact congrArg (· + 1) (ih hm.2 h)

theorem perm_of_lookup {n : List (κ × α)} (hm : (m.map Prod.fst).Nodup)
    (hn : (n.map Prod.fst).Nodup) (h : ∀ k, m.lookup k = n.lookup k) : m.Perm n := by
  refine (List.perm_ext_iff_of_nodup (List.Nodup.of_map _ hm) (List.Nodup.of_map _ hn)).mpr fun e =>
    ?_
  rw [mem_iff_lookup hm e.1 e.2, mem_iff_lookup hn e.1 e.2, h]

/-- Maps with the same contents are the same. -/
theorem eq_of_perm {n : List (κ × α)} (hm : m.Pairwise (·.1 < ·.1)) (hn : n.Pairwise (·.1 < ·.1))
    (h : m.Perm n) : m = n :=
  h.eq_of_pairwise (fun _ _ _ _ hab hba => absurd hab (lt_asymm hba)) hm hn

/-- It matters only in which order the entries of the same key come. -/
theorem collect_eq_collect (h : ∀ k, l.filter (·.1 = k) = l'.filter (·.1 = k)) :
    collect l = collect l' := by
  have hl := pairwise_collect l
  have hl' := pairwise_collect l'
  refine eq_of_perm hl hl' (perm_of_lookup (nodup_keys hl) (nodup_keys hl') fun k => ?_)
  rw [lookup_collect, lookup_collect, h]

/-! ## Without repeated keys -/

/-- There is at most one entry of a key. -/
theorem filter_eq_toList (hl : (l.map Prod.fst).Nodup) (k : κ) :
    l.filter (·.1 = k) = ((l.lookup k).map fun a => (k, a)).toList := by
  induction l with
  | nil => rfl
  | cons e l ih =>
    obtain ⟨k', a'⟩ := e
    rw [List.map_cons, List.nodup_cons] at hl
    have ih := ih hl.2
    rw [List.filter_cons, lookup_cons_if]
    by_cases h : k' = k
    · subst h
      have hnone : l.filter (·.1 = k') = [] := by
        refine List.filter_eq_nil_iff.mpr fun e he hk =>
          hl.1 (List.mem_map.mpr ⟨e, he, of_decide_eq_true hk⟩)
      simp [hnone]
    · simp [h, Ne.symm h, ih]

theorem lookup_eq_of_perm (hl : (l.map Prod.fst).Nodup) (h : l.Perm l') (k : κ) :
    l.lookup k = l'.lookup k := by
  have hl' : (l'.map Prod.fst).Nodup := (h.map _).nodup_iff.mp hl
  refine Option.ext fun a => ?_
  rw [← mem_iff_lookup hl, ← mem_iff_lookup hl', h.mem_iff]

theorem filter_eq_of_perm (hl : (l.map Prod.fst).Nodup) (h : l.Perm l') (k : κ) :
    l.filter (·.1 = k) = l'.filter (·.1 = k) := by
  have hl' : (l'.map Prod.fst).Nodup := (h.map _).nodup_iff.mp hl
  rw [filter_eq_toList hl, filter_eq_toList hl', lookup_eq_of_perm hl h]

/-- Nothing is lost. -/
theorem collect_perm (hl : (l.map Prod.fst).Nodup) : (collect l).Perm l := by
  refine perm_of_lookup (nodup_keys (pairwise_collect l)) hl fun k => ?_
  rw [lookup_collect, filter_eq_toList hl]
  cases l.lookup k <;> rfl

end SortedMap
end BgDesk
