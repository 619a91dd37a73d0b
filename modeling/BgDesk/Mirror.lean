import Mathlib.Data.List.Induction
import Mathlib.Data.List.Nodup
import Mathlib.Order.Bounds.Basic
import BgDesk.Checked

/-!
# Points of a grid, and how well a picture is its own mirror image

The generic part for loops over the cells of a rectangle. A picture is a test of points, a mirror is
a map of points, and `score` counts the points of a list at which the picture and its mirror image
are both set and those at which one of them is.

* `cells` — the points of a rectangle, row by row; `foldlM_cells` makes one loop of two;
* `score_map` — a score only depends on the picture up to a map that goes with the mirrors;
* `IsBox` — the smallest rectangle around the set points; there is at most one.
-/

namespace BgDesk.Mirror

/-! ## Cells -/

/-- The numbers from `lo` on, below `hi`. -/
def upTo (lo hi : ℤ) : List ℤ := (List.range (hi - lo).toNat).map fun n : ℕ => lo + n

theorem mem_upTo {lo hi z : ℤ} : z ∈ upTo lo hi ↔ lo ≤ z ∧ z < hi := by
  rw [upTo, List.mem_map]
  constructor
  · rintro ⟨n, hn, rfl⟩
    have := List.mem_range.mp hn
    omega
  · rintro ⟨hlo, hhi⟩
    exact ⟨(z - lo).toNat, List.mem_range.mpr (by omega), by omega⟩

theorem nodup_upTo (lo hi : ℤ) : (upTo lo hi).Nodup :=
  List.nodup_range.map fun a b (h : lo + (a : ℤ) = lo + b) => by omega

@[simp] theorem length_upTo (lo hi : ℤ) : (upTo lo hi).length = (hi - lo).toNat := by
  rw [upTo, List.length_map, List.length_range]

/-- The points of a rectangle, row by row. -/
def cells (xs ys : List ℤ) : List (ℤ × ℤ) := ys.flatMap fun y => xs.map fun x => (x, y)

@[simp] theorem mem_cells {xs ys : List ℤ} {p : ℤ × ℤ} : p ∈ cells xs ys ↔ p.1 ∈ xs ∧ p.2 ∈ ys := by
  obtain ⟨x, y⟩ := p
  simp only [cells, List.mem_flatMap, List.mem_map, Prod.mk.injEq]
  constructor
  · rintro ⟨y, hy, x, hx, rfl, rfl⟩
    exact ⟨hx, hy⟩
  · rintro ⟨hx, hy⟩
    exact ⟨y, hy, x, hx, rfl, rfl⟩

theorem nodup_cells {xs ys : List ℤ} (hxs : xs.Nodup) (hys : ys.Nodup) : (cells xs ys).Nodup := by
  refine List.nodup_flatMap.mpr ⟨fun y _ => hxs.map fun a b h => (Prod.mk.inj h).1, ?_⟩
  refine hys.imp fun {y y'} hne => ?_
  intro p hp hp'
  obtain ⟨x, -, rfl⟩ := List.mem_map.mp hp
  obtain ⟨x', -, heq⟩ := List.mem_map.mp hp'
  exact hne (Prod.mk.inj heq).2.symm

@[simp] theorem length_cells (xs ys : List ℤ) : (cells xs ys).length = ys.length * xs.length := by
  simp [cells, List.length_flatMap]

/-- Two lists of points without duplicates and with the same points. -/
theorem cells_perm {L L' : List (ℤ × ℤ)} (h : L.Nodup) (h' : L'.Nodup)
    (hmem : ∀ p, p ∈ L ↔ p ∈ L') : L.Perm L' :=
  (List.perm_ext_iff_of_nodup h h').mpr hmem

variable {β : Type}

/-- A loop over the rows with a loop over each row in it. -/
theorem foldlM_cells (f : β → ℤ → ℤ → Option β) (xs : List ℤ) : ∀ (ys : List ℤ) (b : β),
    ys.foldlM (fun b y => xs.foldlM (fun b x => f b x y) b)
      b = (cells xs ys).foldlM (fun b p => f b p.1 p.2) b := by
  intro ys
  induction ys with
  | nil => exact fun _ => rfl
  | cons y ys ih =>
    intro b
    rw [cells, List.flatMap_cons, List.foldlM_append, List.foldlM_cons, List.foldlM_map]
    exact congrArg _ (funext ih)

/-- **Loops with a record of what they did**: what holds of the elements that are done and of the
state after them. -/
theorem returns_foldlM_done {α : Type} {f : β → α → Option β} {I : List α → β → Prop} {l : List α}
    {b : β} (hb : I [] b)
    (h : ∀ done a rest b, l = done ++ a :: rest → I done b → Returns (f b a) (I (done ++ [a]))) :
    Returns (l.foldlM f b) (I l) := by
  have hall : ∀ done rest, l = done ++ rest → Returns (done.foldlM f b) (I done) := by
    intro done
    induction done using List.reverseRecOn with
    | nil => exact fun _ _ => returns_pure hb
    | append_singleton done a ih =>
      intro rest heq
      rw [List.append_assoc, List.singleton_append] at heq
      rw [List.foldlM_append]
      refine (ih _ heq).bind fun b' hb' => ?_
      rw [List.foldlM_cons]
      exact (h done a rest b' heq hb').bind fun _ h => returns_pure h
  exact hall l [] (List.append_nil l).symm

/-- The same for a loop whose state is a function of what is done. -/
theorem foldlM_eq_state {α : Type} {f : β → α → Option β} (state : List α → β) {l : List α}
    (h : ∀ done a rest, l = done ++ a :: rest → f (state done) a = some (state (done ++ [a]))) :
    l.foldlM f (state []) = some (state l) := by
  obtain ⟨b, hb, rfl⟩ := returns_foldlM_done (f := f) (I := fun done b => b = state done) rfl
    fun done a rest b heq hb => ⟨_, by rw [hb]; exact h done a rest heq, rfl⟩
  exact hb

/-! ## Scores -/

/-- At how many points both are set, and at how many one is. -/
structure Score where
  i : ℕ
  u : ℕ
  deriving DecidableEq

section Score

universe u v

variable {α : Type u} {γ : Type v}

def score (S : α → Bool) (mirror : α → α) (L : List α) : Score :=
  { i := L.countP fun p => S p && S (mirror p), u := L.countP fun p => S p || S (mirror p) }

@[simp] theorem score_nil (S : α → Bool) (mirror : α → α) :
    score S mirror [] = { i := 0, u := 0 } :=
  rfl

theorem countP_map_of_eq {e : α → γ} {L : List α} {L' : List γ} {P : α → Bool} {P' : γ → Bool}
    (hL : L'.Perm (L.map e)) (hP : ∀ p, P' (e p) = P p) : L'.countP P' = L.countP P := by
  rw [hL.countP_eq, List.countP_map]
  exact congrArg (List.countP · L) (funext hP)

/-- **Scores go with maps**: the same picture elsewhere, under the same mirror, has the same score.
-/
theorem score_map {e : α → γ} {L : List α} {L' : List γ} {S : α → Bool} {S' : γ → Bool}
    {mirror : α → α} {mirror' : γ → γ} (hL : L'.Perm (L.map e)) (hS : ∀ p, S' (e p) = S p)
    (hmirror : ∀ p, mirror' (e p) = e (mirror p)) : score S' mirror' L' = score S mirror L := by
  simp only [score]
  congr 1
  · exact countP_map_of_eq hL fun p => by rw [hmirror, hS, hS]
  · exact countP_map_of_eq hL fun p => by rw [hmirror, hS, hS]

end Score

/-! ## Boxes -/

structure Bounds where
  minx : ℤ
  miny : ℤ
  maxx : ℤ
  maxy : ℤ
  deriving DecidableEq

/-- The smallest rectangle around the points of a picture. -/
structure IsBox (S : ℤ × ℤ → Bool) (b : Bounds) : Prop where
  minx : IsLeast {x | ∃ y, S (x, y)} b.minx
  miny : IsLeast {y | ∃ x, S (x, y)} b.miny
  maxx : IsGreatest {x | ∃ y, S (x, y)} b.maxx
  maxy : IsGreatest {y | ∃ x, S (x, y)} b.maxy

variable {S : ℤ × ℤ → Bool} {b : Bounds}

theorem IsBox.unique {b' : Bounds} (h : IsBox S b) (h' : IsBox S b') : b = b' := by
  obtain ⟨minx, miny, maxx, maxy⟩ := b
  obtain ⟨minx', miny', maxx', maxy'⟩ := b'
  obtain rfl : minx = minx' := h.minx.unique h'.minx
  obtain rfl : miny = miny' := h.miny.unique h'.miny
  obtain rfl : maxx = maxx' := h.maxx.unique h'.maxx
  obtain rfl : maxy = maxy' := h.maxy.unique h'.maxy
  rfl

theorem IsBox.minx_le_maxx (h : IsBox S b) : b.minx ≤ b.maxx := h.minx.2 h.maxx.1

theorem IsBox.miny_le_maxy (h : IsBox S b) : b.miny ≤ b.maxy := h.miny.2 h.maxy.1

/-- A picture with a box is not empty. -/
theorem IsBox.not_none (h : IsBox S b) (hnone : ∀ p, S p = false) : False := by
  obtain ⟨y, hy⟩ := h.minx.1
  rw [hnone] at hy
  cases hy

theorem isBox_singleton (q : ℤ × ℤ) :
    IsBox (· == q) { minx := q.1, miny := q.2, maxx := q.1, maxy := q.2 } := by
  have hx : {x | ∃ y, ((x, y) == q) = true} = {q.1} := by
    ext x
    simp [Prod.ext_iff]
  have hy : {y | ∃ x, ((x, y) == q) = true} = {q.2} := by
    ext y
    simp [Prod.ext_iff]
  constructor
  · rw [hx]
    exact isLeast_singleton
  · rw [hy]
    exact isLeast_singleton
  · rw [hx]
    exact isGreatest_singleton
  · rw [hy]
    exact isGreatest_singleton

/-- The box with one more point. -/
theorem IsBox.insert (h : IsBox S b) (q : ℤ × ℤ) : IsBox (fun p => S p || p == q)
      { minx := min b.minx q.1, miny := min b.miny q.2, maxx := max b.maxx q.1,
        maxy := max b.maxy q.2 } := by
  have hq := isBox_singleton q
  have hx : {x | ∃ y, (S (x, y) || (x, y) == q) = true} = {x | ∃ y, S (x, y)}
      ∪ {x | ∃ y, ((x, y) == q) = true} := by
    ext x
    simp only [Bool.or_eq_true, exists_or, Set.mem_ofPred_eq, Set.mem_union]
  have hy : {y | ∃ x, (S (x, y) || (x, y) == q) = true} = {y | ∃ x, S (x, y)}
      ∪ {y | ∃ x, ((x, y) == q) = true} := by
    ext y
    simp only [Bool.or_eq_true, exists_or, Set.mem_ofPred_eq, Set.mem_union]
  constructor
  · rw [hx]
    exact h.minx.union hq.minx
  · rw [hy]
    exact h.miny.union hq.miny
  · rw [hx]
    exact h.maxx.union hq.maxx
  · rw [hy]
    exact h.maxy.union hq.maxy

end BgDesk.Mirror
