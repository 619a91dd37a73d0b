import BgDesk.CursorHotspot

/-!
# What the guessed hotspot goes with

`guess` is a decision over the shape of the opaque pixels in its box. This file shows that it goes
with the shape: the guess lies in the box, it moves with the shape (`guess_translate`), and both
axes are treated alike (`guess_transpose`). Each rests on the same fact for the scores, `score_map`,
at the map of points that moves or transposes them.

* `hotspot_of_shape` — the same for `infer_hotspot` on the bytes of two images.
-/

namespace BgDesk.CursorHotspot

open Mirror

variable {S S' : ℤ × ℤ → Bool} {b : Bounds}

/-! ## In the box -/

theorem choose_mem (own other : Score) (diagonal : Prop) [Decidable diagonal] (mass : ℕ × ℕ)
    {centre lo hi : ℤ} (hlo : lo ≤ centre) (hhi : centre ≤ hi) :
    lo ≤ choose own other diagonal mass centre lo hi ∧
      choose own other diagonal mass centre lo hi ≤ hi := by
  unfold choose
  split_ifs <;> omega

theorem centre_mem (h : IsBox S b) :
    b.minx ≤ (centre b).1 ∧ (centre b).1 ≤ b.maxx ∧ b.miny ≤ (centre b).2 ∧
      (centre b).2 ≤ b.maxy := by
  have hx := h.minx_le_maxx
  have hy := h.miny_le_maxy
  simp only [centre]
  omega

/-- The guess lies in the box. -/
theorem guess_mem (h : IsBox S b) :
    b.minx ≤ (guess S b).1 ∧ (guess S b).1 ≤ b.maxx ∧ b.miny ≤ (guess S b).2 ∧
      (guess S b).2 ≤ b.maxy := by
  obtain ⟨hx, hx', hy, hy'⟩ := centre_mem h
  unfold guess
  dsimp only
  split_ifs
  · exact ⟨hx, hx', hy, hy'⟩
  · exact ⟨hx, hx', hy, hy'⟩
  · obtain ⟨hleft, hright⟩ :=
      choose_mem (tally S b (inside b)).x (tally S b (inside b)).y (Diagonal S b)
      (tally S b (inside b)).across hx hx'
    obtain ⟨htop, hbottom⟩ :=
      choose_mem (tally S b (inside b)).y (tally S b (inside b)).x (Diagonal S b)
      (tally S b (inside b)).down hy hy'
    exact ⟨hleft, hright, htop, hbottom⟩

/-! ## Moving the shape -/

section Translate

variable {a c : ℤ}

/-- A point moved by `(a, c)`. -/
def move (a c : ℤ) (p : ℤ × ℤ) : ℤ × ℤ := (p.1 + a, p.2 + c)

def moveBox (a c : ℤ) (b : Bounds) : Bounds where
  minx := b.minx + a
  miny := b.miny + c
  maxx := b.maxx + a
  maxy := b.maxy + c

theorem move_injective (a c : ℤ) : Function.Injective (move a c) := by
  intro p q h
  obtain ⟨hx, hy⟩ := Prod.mk.inj h
  exact Prod.ext (by omega) (by omega)

/-- What is set in the moved picture was set before it was moved. -/
theorem set_of_moved (hS : ∀ p, S' (move a c p) = S p) (x y : ℤ) :
    S' (x, y) = S (x - a, y - c) := by
  rw [← hS]
  simp [move]

theorem isBox_move (hS : ∀ p, S' (move a c p) = S p) (h : IsBox S b) :
    IsBox S' (moveBox a c b) := by
  have hset := set_of_moved hS
  obtain ⟨⟨⟨y₁, hminx⟩, hminx'⟩, ⟨⟨x₁, hminy⟩, hminy'⟩, ⟨⟨y₂, hmaxx⟩, hmaxx'⟩,
      ⟨⟨x₂, hmaxy⟩, hmaxy'⟩⟩ := h
  refine ⟨⟨⟨y₁ + c, (hS _).trans hminx⟩, ?_⟩, ⟨⟨x₁ + a, (hS _).trans hminy⟩, ?_⟩,
    ⟨⟨y₂ + c, (hS _).trans hmaxx⟩, ?_⟩,
    ⟨⟨x₂ + a, (hS _).trans hmaxy⟩, ?_⟩⟩
  · rintro x ⟨y, hxy⟩
    have := hminx' ⟨y - c, (hset x y) ▸ hxy⟩
    exact Int.add_le_of_le_sub_right this
  · rintro y ⟨x, hxy⟩
    have := hminy' ⟨x - a, (hset x y) ▸ hxy⟩
    exact Int.add_le_of_le_sub_right this
  · rintro x ⟨y, hxy⟩
    have := hmaxx' ⟨y - c, (hset x y) ▸ hxy⟩
    exact Int.le_add_of_sub_right_le this
  · rintro y ⟨x, hxy⟩
    have := hmaxy' ⟨x - a, (hset x y) ▸ hxy⟩
    exact Int.le_add_of_sub_right_le this

theorem width_move : width (moveBox a c b) = width b := by
  simp only [width, moveBox]
  omega

theorem height_move : height (moveBox a c b) = height b := by
  simp only [height, moveBox]
  omega

/-- The points of the moved box are those of the box, moved. -/
theorem inside_move : (inside (moveBox a c b)).Perm ((inside b).map (move a c)) := by
  refine cells_perm (nodup_cells (nodup_upTo _ _) (nodup_upTo _ _))
    ((nodup_cells (nodup_upTo _ _) (nodup_upTo _ _)).map (move_injective a c)) fun p => ?_
  rw [List.mem_map, mem_inside]
  constructor
  · intro hp
    simp only [moveBox] at hp
    exact ⟨(p.1 - a, p.2 - c), mem_inside.mpr (by dsimp only; omega), by simp [move]⟩
  · rintro ⟨q, hq, rfl⟩
    have hq := mem_inside.mp hq
    simp only [moveBox, move]
    omega

theorem masses_map {e : ℤ × ℤ → ℤ × ℤ} {L L' : List (ℤ × ℤ)} {coord coord' : ℤ × ℤ → ℤ}
    {lo hi lo' hi' : ℤ} (half : ℤ) (hL : L'.Perm (L.map e)) (hS : ∀ p, S' (e p) = S p)
    (hlo : ∀ p, coord' (e p) - lo' = coord p - lo) (hhi : ∀ p, hi' - coord' (e p) = hi - coord p) :
    masses S' coord' lo' hi' half L' = masses S coord lo hi half L := by
  refine Prod.ext (countP_map_of_eq hL fun p => ?_) (countP_map_of_eq hL fun p => ?_)
  · rw [hS, hlo]
  · rw [hS, hlo, hhi]

/-- The moved shape counts the same. -/
theorem tally_move (hS : ∀ p, S' (move a c p) = S p) :
    tally S' (moveBox a c b) (inside (moveBox a c b)) = tally S b (inside b) := by
  unfold tally
  rw [width_move, height_move]
  congr 1
  · exact score_map inside_move hS fun p =>
      Prod.ext (by simp only [overX, moveBox, move]; omega) rfl
  · exact score_map inside_move hS fun p =>
      Prod.ext rfl (by simp only [overY, moveBox, move]; omega)
  · exact score_map inside_move hS fun p =>
      Prod.ext (by simp only [turned, moveBox, move]; omega)
        (by simp only [turned, moveBox, move]; omega)
  · exact masses_map _ inside_move hS (fun p => by simp only [move, moveBox]; omega)
      fun p => by simp only [move, moveBox]; omega
  · exact masses_map _ inside_move hS (fun p => by simp only [move, moveBox]; omega)
      fun p => by simp only [move, moveBox]; omega

theorem placed_move (hS : ∀ p, S' (move a c p) = S p) (dx dy : ℤ) :
    placed S' (moveBox a c b) dx dy = placed S b dx dy := by
  funext p
  have hpt : (b.minx + a + (p.1 - dx), b.miny + c + (p.2 - dy)) =
      move a c (b.minx + (p.1 - dx), b.miny + (p.2 - dy)) := by
    simp only [move, Prod.mk.injEq]
    omega
  unfold placed
  rw [width_move, height_move]
  simp only [moveBox]
  rw [hpt, hS]

theorem diagonal_move (hS : ∀ p, S' (move a c p) = S p) :
    Diagonal S' (moveBox a c b) ↔ Diagonal S b := by
  unfold Diagonal side
  rw [placed_move hS, placed_move hS, width_move, height_move]

theorem choose_congr (own other : Score) {d d' : Prop} [Decidable d] [Decidable d'] (h : d ↔ d')
    (mass : ℕ × ℕ) (centre lo hi : ℤ) :
    choose own other d mass centre lo hi = choose own other d' mass centre lo hi := by
  unfold choose
  simp only [h]

theorem choose_add (own other : Score) (d : Prop) [Decidable d] (mass : ℕ × ℕ)
    (centre lo hi a : ℤ) : choose own other d mass (centre + a) (lo + a)
      (hi + a) = choose own other d mass centre lo hi + a := by
  unfold choose
  split_ifs <;> rfl

theorem centre_move : centre (moveBox a c b) = move a c (centre b) := by
  simp only [centre, moveBox, move, Prod.mk.injEq]
  omega

/-- **Moving** the shape moves the guess with it. -/
theorem guess_move (hS : ∀ p, S' (move a c p) = S p) :
    guess S' (moveBox a c b) = move a c (guess S b) := by
  unfold guess
  rw [tally_move hS, width_move, height_move, centre_move]
  dsimp only
  split_ifs
  · rfl
  · rfl
  · refine Prod.ext ?_ ?_
    · exact (choose_congr _ _ (diagonal_move hS) _ _ _ _).trans (choose_add _ _ _ _ _ _ _ _)
    · exact (choose_congr _ _ (diagonal_move hS) _ _ _ _).trans (choose_add _ _ _ _ _ _ _ _)

end Translate

/-! ## Transposing the shape -/

section Transpose

def flip (b : Bounds) : Bounds where
  minx := b.miny
  miny := b.minx
  maxx := b.maxy
  maxy := b.maxx

theorem isBox_swap (hS : ∀ p : ℤ × ℤ, S' p.swap = S p) (h : IsBox S b) : IsBox S' (flip b) := by
  have hset : ∀ x y, S' (x, y) = S (y, x) := fun x y => hS (y, x)
  have hx : {x | ∃ y, S' (x, y) = true} = {y | ∃ x, S (x, y) = true} := by simp only [hset]
  have hy : {y | ∃ x, S' (x, y) = true} = {x | ∃ y, S (x, y) = true} := by simp only [hset]
  exact ⟨hx ▸ h.miny, hy ▸ h.minx, hx ▸ h.maxy, hy ▸ h.maxx⟩

theorem inside_flip : (inside (flip b)).Perm ((inside b).map Prod.swap) := by
  refine cells_perm (nodup_cells (nodup_upTo _ _) (nodup_upTo _ _))
    ((nodup_cells (nodup_upTo _ _) (nodup_upTo _ _)).map Prod.swap_injective) fun p => ?_
  rw [List.mem_map, mem_inside]
  constructor
  · rintro ⟨hx, hx', hy, hy'⟩
    exact ⟨p.swap, mem_inside.mpr ⟨hy, hy', hx, hx'⟩, Prod.swap_swap p⟩
  · rintro ⟨q, hq, rfl⟩
    obtain ⟨hx, hx', hy, hy'⟩ := mem_inside.mp hq
    exact ⟨hy, hy', hx, hx'⟩

theorem square_swap (k : ℤ) : (square k).Perm ((square k).map Prod.swap) := by
  refine cells_perm (nodup_cells (nodup_upTo _ _) (nodup_upTo _ _))
    ((nodup_cells (nodup_upTo _ _) (nodup_upTo _ _)).map Prod.swap_injective) fun p => ?_
  rw [List.mem_map]
  constructor
  · exact fun hp => ⟨p.swap, swap_mem hp, Prod.swap_swap p⟩
  · rintro ⟨q, hq, rfl⟩
    exact swap_mem hq

/-- The transposed shape counts the same, with the axes changed over. -/
theorem tally_swap (hS : ∀ p : ℤ × ℤ, S' p.swap = S p) : tally S' (flip b) (inside (flip b)) =
      { x := (tally S b (inside b)).y, y := (tally S b (inside b)).x, h := (tally S b (inside b)).h,
        across := (tally S b (inside b)).down, down := (tally S b (inside b)).across } := by
  unfold tally
  congr 1
  · exact score_map inside_flip hS fun p => rfl
  · exact score_map inside_flip hS fun p => rfl
  · exact score_map inside_flip hS fun p => rfl
  · exact masses_map _ inside_flip hS (fun p => rfl) fun p => rfl
  · exact masses_map _ inside_flip hS (fun p => rfl) fun p => rfl

theorem placed_swap (hS : ∀ p : ℤ × ℤ, S' p.swap = S p) (dx dy : ℤ) (p : ℤ × ℤ) :
    placed S' (flip b) dx dy p.swap = placed S b dy dx p := by
  have hpt : S' (b.miny + (p.2 - dx), b.minx + (p.1 - dy)) =
    S (b.minx + (p.1 - dy), b.miny + (p.2 - dx)) :=
    hS (b.minx + (p.1 - dy), b.miny + (p.2 - dx))
  have hin :
    (0 ≤ p.2 - dx ∧ p.2 - dx < width (flip b) ∧ 0 ≤ p.1 - dy ∧ p.1 - dy < height (flip b)) ↔
      0 ≤ p.1 - dy ∧ p.1 - dy < width b ∧ 0 ≤ p.2 - dx ∧ p.2 - dx < height b := by
    have hw : width (flip b) = height b := rfl
    have hh : height (flip b) = width b := rfl
    omega
  exact congrArg₂ (· && ·) (decide_eq_decide.mpr hin) hpt

/-- A square mirrors about its diagonals as its transposed one does. -/
theorem mirrorsAt_swap {T T' : ℤ × ℤ → Bool} (hT : ∀ p : ℤ × ℤ, T' p.swap = T p) (k : ℤ) :
    MirrorsAt T' k ↔ MirrorsAt T k := by
  have hdiag : score T' Prod.swap (square k) = score T Prod.swap (square k) :=
    score_map (square_swap k) hT fun _ => rfl
  have hanti : score T' (antiSwap k) (square k) = score T (antiSwap k) (square k) :=
    score_map (square_swap k) hT fun _ => rfl
  unfold MirrorsAt
  rw [hdiag, hanti]

theorem diagonal_swap (hS : ∀ p : ℤ × ℤ, S' p.swap = S p) :
    Diagonal S' (flip b) ↔ Diagonal S b := by
  have hside : side (flip b) = side b := max_comm _ _
  unfold Diagonal
  rw [hside, mirrorsAt_swap (placed_swap hS 0 0), mirrorsAt_swap (placed_swap hS _ _)]
  rfl

/-- **Transposing** the shape changes the coordinates of the guess over. -/
theorem guess_swap (hS : ∀ p : ℤ × ℤ, S' p.swap = S p) : guess S' (flip b) = (guess S b).swap := by
  have hw : width (flip b) = height b := rfl
  have hh : height (flip b) = width b := rfl
  have hcentre : centre (flip b) = (centre b).swap := rfl
  have helong : height b * 2 < width b ∨ width b * 2 < height b ↔ width b * 2 < height b ∨
      height b * 2 < width b := or_comm
  unfold guess
  rw [tally_swap hS, hw, hh, hcentre]
  simp only [helong]
  split_ifs
  · rfl
  · rfl
  · exact Prod.ext (choose_congr _ _ (diagonal_swap hS) _ _ _ _)
      (choose_congr _ _ (diagonal_swap hS) _ _ _ _)

end Transpose

/-! ## The code -/

section Images

variable {rgba : List UInt8} {w h : ℕ}

theorem none_or_isBox (rgba : List UInt8) (hsize : w * h ≤ 65536) :
    (∀ p, opaquePixels rgba w h p = false) ∨ ∃ b, IsBox (opaquePixels rgba w h) b :=
  (inferHotspot_eq rgba hsize).imp And.left fun ⟨b, hb, _⟩ => ⟨b, hb⟩

theorem inferHotspot_of_none (hsize : w * h ≤ 65536)
    (hnone : ∀ p, opaquePixels rgba w h p = false) : inferHotspot rgba w h = some (0, 0) := by
  rcases inferHotspot_eq rgba hsize with ⟨-, hr⟩ | ⟨b, hb, -, -⟩
  · exact hr
  · exact (hb.not_none hnone).elim

theorem inferHotspot_of_isBox (hsize : w * h ≤ 65536) (hb : IsBox (opaquePixels rgba w h) b) :
    inferHotspot rgba w h = some (guess (opaquePixels rgba w h) b) := by
  rcases inferHotspot_eq rgba hsize with ⟨hnone, -⟩ | ⟨b', hb', -, hr⟩
  · exact (hb.not_none hnone).elim
  · rw [hr, hb.unique hb']

end Images

/-- **The guessed hotspot goes with the shape.** For every image of at most 65536 pixels, its bytes
all there or not, `infer_hotspot` answers: the origin if nothing is opaque, otherwise a point in the
box of the opaque pixels. The answer is the same for images with the same opaque pixels, moves with
them, and has its coordinates changed over where the image is transposed. -/
theorem hotspot_of_shape : (∀ rgba w h, w * h ≤ 65536 → ∃ r, inferHotspot rgba w h = some r ∧
      ((∀ p, opaquePixels rgba w h p = false) → r = (0, 0)) ∧
      ((∃ p, opaquePixels rgba w h p = true) → ∃ b, IsBox (opaquePixels rgba w h) b ∧
        b.minx ≤ r.1 ∧ r.1 ≤ b.maxx ∧ b.miny ≤ r.2 ∧ r.2 ≤ b.maxy)) ∧
    (∀ rgba w h rgba' w' h', w * h ≤ 65536 → w' * h' ≤ 65536 →
      (∀ p, opaquePixels rgba' w' h' p = opaquePixels rgba w h p) →
        inferHotspot rgba' w' h' = inferHotspot rgba w h) ∧
    (∀ rgba w h rgba' w' h' a c, w * h ≤ 65536 → w' * h' ≤ 65536 →
      (∃ p, opaquePixels rgba w h p = true) →
      (∀ p : ℤ × ℤ, opaquePixels rgba' w' h' (p.1 + a, p.2 + c) = opaquePixels rgba w h p) →
      ∀ r, inferHotspot rgba w h = some r → inferHotspot rgba' w' h' = some (r.1 + a, r.2 + c)) ∧
    ∀ rgba w h rgba' w' h', w * h ≤ 65536 → w' * h' ≤ 65536 →
      (∀ p : ℤ × ℤ, opaquePixels rgba' w' h' p.swap = opaquePixels rgba w h p) →
      inferHotspot rgba' w' h' = (inferHotspot rgba w h).map Prod.swap := by
  refine ⟨?_, ?_, ?_, ?_⟩
  · intro rgba w h hsize
    rcases none_or_isBox rgba hsize with hnone | ⟨b, hb⟩
    · refine ⟨_, inferHotspot_of_none hsize hnone, fun _ => rfl, ?_⟩
      rintro ⟨p, hp⟩
      rw [hnone p] at hp
      cases hp
    · exact ⟨_, inferHotspot_of_isBox hsize hb, fun hnone => (hb.not_none hnone).elim,
        fun _ => ⟨b, hb, guess_mem hb⟩⟩
  · intro rgba w h rgba' w' h' hsize hsize' hS
    have hset : opaquePixels rgba' w' h' = opaquePixels rgba w h := funext hS
    rcases none_or_isBox rgba hsize with hnone | ⟨b, hb⟩
    · rw [inferHotspot_of_none hsize hnone, inferHotspot_of_none hsize' fun p =>
        (hS p).trans (hnone p)]
    · rw [inferHotspot_of_isBox hsize hb, inferHotspot_of_isBox hsize' (b := b) (by rwa [hset]),
        hset]
  · intro rgba w h rgba' w' h' a c hsize hsize' hsome hS r hr
    rcases none_or_isBox rgba hsize with hnone | ⟨b, hb⟩
    · obtain ⟨p, hp⟩ := hsome
      rw [hnone p] at hp
      cases hp
    · rw [inferHotspot_of_isBox hsize hb] at hr
      obtain rfl := Option.some.inj hr
      rw [inferHotspot_of_isBox hsize' (isBox_move hS hb), guess_move hS]
      rfl
  · intro rgba w h rgba' w' h' hsize hsize' hS
    rcases none_or_isBox rgba hsize with hnone | ⟨b, hb⟩
    · rw [inferHotspot_of_none hsize hnone, inferHotspot_of_none hsize' fun p =>
        (hS p.swap).trans (hnone p.swap)]
      rfl
    · rw [inferHotspot_of_isBox hsize hb, inferHotspot_of_isBox hsize' (isBox_swap hS hb),
        guess_swap hS]
      rfl

end BgDesk.CursorHotspot
