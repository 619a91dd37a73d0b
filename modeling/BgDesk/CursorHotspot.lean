import Mathlib.Algebra.Group.Int.Defs
import Mathlib.Logic.Equiv.Fin.Basic
import BgDesk.Mirror

/-!
# The guessed hotspot of a cursor

`infer_hotspot` guesses the click point of a cursor bitmap from the shape of its opaque pixels:
their box, how well the shape mirrors about the middles and the diagonals of the box, and which half
of it is the heavier one.

The code is written in the arithmetic of a checked build: an overflow, a division by zero or a read
out of range ends the computation with `none`. `inferHotspot_eq` says that none of it happens for an
image of at most 65536 pixels and that what comes out is `guess`, the same decision over the set of
opaque pixels.
-/

namespace BgDesk.CursorHotspot

open Mirror

/-! ## Arithmetic -/

/-- The result of an operation on `i32`. -/
def i32 (z : ℤ) : Option ℤ := if -2147483648 ≤ z ∧ z ≤ 2147483647 then some z else none

/-- `as i32`. -/
def asI32 (n : ℕ) : ℤ := (n + 2 ^ 31) % 2 ^ 32 - 2 ^ 31

/-- `as usize`. -/
def asUsize (z : ℤ) : ℕ := (z % 2 ^ 64).toNat

def checkedMod (a b : ℕ) : Option ℕ := if b = 0 then none else some (a % b)

/-! ## The code -/

def mirrorAgreementPercent : ℕ := 88

/-- `chunks_exact(4)`. -/
def chunksExact : List UInt8 → List (List UInt8)
  | a :: b :: c :: d :: rest => [a, b, c, d] :: chunksExact rest
  | _ => []

/-- A pixel of the pass that finds the box. -/
def widen (w : ℕ) (b : Bounds) (i : ℕ) (px : List UInt8) : Option Bounds := do
  let alpha ← px[3]?
  if 128 ≤ alpha then
    let x ← checkedMod i w
    let y ← checkedDiv i w
    some { minx := min b.minx (asI32 x), miny := min b.miny (asI32 y),
           maxx := max b.maxx (asI32 x), maxy := max b.maxy (asI32 y) }
  else some b

/-- The closure `opaque`: whether the pixel at a point is. -/
def isOpaque (rgba : List UInt8) (w : ℕ) (x y : ℤ) : Option Bool := do
  let row ← checkedMul 64 (asUsize y) w
  let pixel ← checkedAdd 64 row (asUsize x)
  let start ← checkedMul 64 pixel 4
  let place ← checkedAdd 64 start 3
  some (rgba[place]?.any (128 ≤ ·))

def agrees (s : Score) : Option Bool :=
  if s.u = 0 then some true
  else do
    let inter ← checkedMul 64 s.i 100
    let union ← checkedMul 64 s.u mirrorAgreementPercent
    some (union ≤ inter)

/-- `*i += u64::from(here && other); *u += u64::from(here || other)`. -/
def count (s : Score) (here other : Bool) : Option Score := do
  let i ← checkedAdd 64 s.i (here && other).toNat
  let u ← checkedAdd 64 s.u (here || other).toNat
  some { i, u }

/-- The mass of the two halves of an axis, with a pixel of the shape at `z`. -/
def weigh (lo hi z half : ℤ) (mass : ℕ × ℕ) : Option (ℕ × ℕ) := do
  if (← i32 (z - lo)) < half then
    let low ← checkedAdd 64 mass.1 1
    some (low, mass.2)
  else if (← i32 (hi - z)) < half then
    let high ← checkedAdd 64 mass.2 1
    some (mass.1, high)
  else some mass

/-- What the pass over the box counts: the scores of the three mirrors, as `(ix, ux)`, `(iy, uy)`
and `(ih, uh)`, and the masses `(left, right)` and `(top, bottom)`. -/
structure Tally where
  x : Score
  y : Score
  h : Score
  across : ℕ × ℕ
  down : ℕ × ℕ
  deriving DecidableEq

def Tally.zero : Tally :=
  { x := ⟨0, 0⟩, y := ⟨0, 0⟩, h := ⟨0, 0⟩, across := (0, 0), down := (0, 0) }

/-- A point of the pass over the box. -/
def Tally.visit (rgba : List UInt8) (w : ℕ) (b : Bounds) (halfW halfH : ℤ) (t : Tally) (x y : ℤ) :
    Option Tally := do
  let fx ← i32 (b.maxx - (← i32 (x - b.minx)))
  let fy ← i32 (b.maxy - (← i32 (y - b.miny)))
  let here ← isOpaque rgba w x y
  let overX ← isOpaque rgba w fx y
  let overY ← isOpaque rgba w x fy
  let turned ← isOpaque rgba w fx fy
  let sx ← count t.x here overX
  let sy ← count t.y here overY
  let sh ← count t.h here turned
  if here then
    let across ← weigh b.minx b.maxx x halfW t.across
    let down ← weigh b.miny b.maxy y halfH t.down
    some { x := sx, y := sy, h := sh, across, down }
  else some { x := sx, y := sy, h := sh, across := t.across, down := t.down }

/-- The closure `cell`: the box placed at `(dx, dy)` in the square. -/
def cell (rgba : List UInt8) (w : ℕ) (minx miny bw bh dx dy r c : ℤ) : Option Bool := do
  let x ← i32 (c - dx)
  let y ← i32 (r - dy)
  if 0 ≤ x ∧ x < bw ∧ 0 ≤ y ∧ y < bh then
    let px ← i32 (minx + x)
    let py ← i32 (miny + y)
    isOpaque rgba w px py
  else some false

/-- The scores about both diagonals of the square, as `(id, ud)` and `(ia, ua)`, at a point of it.
-/
def reflect (cell : ℤ → ℤ → Option Bool) (k : ℤ) (s : Score × Score) (r c : ℤ) :
    Option (Score × Score) := do
  let here ← cell r c
  let diag ← cell c r
  let last ← i32 (k - 1)
  let anti ← cell (← i32 (last - c)) (← i32 (last - r))
  let d ← count s.1 here diag
  let a ← count s.2 here anti
  some (d, a)

/-- One placement of the box in the square. -/
def mirrorsAt (cell : ℤ → ℤ → Option Bool) (k : ℤ) : Option Bool := do
  let s ← (upTo 0 k).foldlM (fun s r => (upTo 0 k).foldlM (fun s c => reflect cell k s r c) s)
    (⟨0, 0⟩, ⟨0, 0⟩)
  if ← agrees s.1 then some true else agrees s.2

def mirrorsAboutADiagonal (rgba : List UInt8) (w : ℕ) (minx miny bw bh : ℤ) : Option Bool := do
  let k := max bw bh
  let dx ← i32 (k - bw)
  let dy ← i32 (k - bh)
  if ← mirrorsAt (cell rgba w minx miny bw bh 0 0) k then some true
  else mirrorsAt (cell rgba w minx miny bw bh dx dy) k

/-- `bh > bw * 2 || bw > bh * 2`. -/
def elongated (bw bh : ℤ) : Option Bool := do
  if (← i32 (bw * 2)) < bh then some true
  else
    let doubled ← i32 (bh * 2)
    some (doubled < bw)

/-- One coordinate of the answer, with the scores of its own axis and of the other one. -/
def coordinate (own other : Score) (diagonal heavierIsMax : Bool) (centre lo hi : ℤ) :
    Option ℤ := do
  if ← agrees own then some centre
  else if (← agrees other) || diagonal then some (if heavierIsMax then hi else lo)
  else some lo

/-- The decision within the box. -/
def inferIn (rgba : List UInt8) (w : ℕ) (b : Bounds) : Option (ℤ × ℤ) := do
  let bw ← i32 ((← i32 (b.maxx - b.minx)) + 1)
  let bh ← i32 ((← i32 (b.maxy - b.miny)) + 1)
  let cx := (← i32 (b.minx + b.maxx)).tdiv 2
  let cy := (← i32 (b.miny + b.maxy)).tdiv 2
  if ← elongated bw bh then some (cx, cy)
  else
    let t ← (upTo b.miny (b.maxy + 1)).foldlM (fun t y =>
      (upTo b.minx (b.maxx + 1)).foldlM (fun t x => t.visit rgba w b (bw.tdiv 2) (bh.tdiv 2) x y) t)
        Tally.zero
    if ← agrees t.h then some (cx, cy)
    else
      let diagonal ← mirrorsAboutADiagonal rgba w b.minx b.miny bw bh
      let x ← coordinate t.x t.y diagonal (t.across.1 < t.across.2) cx b.minx b.maxx
      let y ← coordinate t.y t.x diagonal (t.down.1 < t.down.2) cy b.miny b.maxy
      some (x, y)

def inferHotspot (rgba : List UInt8) (w h : ℕ) : Option (ℤ × ℤ) := do
  let pixels ← checkedMul 64 w h
  let b ← ((chunksExact rgba).take pixels).zipIdx.foldlM (fun b px => widen w b px.2 px.1)
    { minx := asI32 w, miny := asI32 h, maxx := -1, maxy := -1 }
  if b.maxx < b.minx ∨ b.maxy < b.miny then some (0, 0) else inferIn rgba w b

/-! ## The decision over a shape -/

section Guess

variable (S : ℤ × ℤ → Bool) (b : Bounds)

def Agrees (s : Score) : Prop := s.u * mirrorAgreementPercent ≤ s.i * 100

instance (s : Score) : Decidable (Agrees s) := inferInstanceAs (Decidable (_ ≤ _))

def width : ℤ := b.maxx - b.minx + 1

def height : ℤ := b.maxy - b.miny + 1

def centre : ℤ × ℤ := ((b.minx + b.maxx) / 2, (b.miny + b.maxy) / 2)

/-- The points of the box. -/
def inside : List (ℤ × ℤ) := cells (upTo b.minx (b.maxx + 1)) (upTo b.miny (b.maxy + 1))

def overX (p : ℤ × ℤ) : ℤ × ℤ := (b.maxx - (p.1 - b.minx), p.2)

def overY (p : ℤ × ℤ) : ℤ × ℤ := (p.1, b.maxy - (p.2 - b.miny))

def turned (p : ℤ × ℤ) : ℤ × ℤ := (b.maxx - (p.1 - b.minx), b.maxy - (p.2 - b.miny))

/-- How many points of the shape are in the low and in the high half of an axis. -/
def masses (coord : ℤ × ℤ → ℤ) (lo hi half : ℤ) (L : List (ℤ × ℤ)) : ℕ × ℕ :=
  (L.countP fun p => S p && decide (coord p - lo < half),
    L.countP fun p => S p && (!decide (coord p - lo < half) && decide (hi - coord p < half)))

def tally (L : List (ℤ × ℤ)) : Tally where
  x := score S (overX b) L
  y := score S (overY b) L
  h := score S (turned b) L
  across := masses S Prod.fst b.minx b.maxx (width b / 2) L
  down := masses S Prod.snd b.miny b.maxy (height b / 2) L

/-- The box placed at `(dx, dy)` in the square; a point is `(c, r)`. -/
def placed (dx dy : ℤ) (p : ℤ × ℤ) : Bool :=
  decide (0 ≤ p.1 - dx ∧ p.1 - dx < width b ∧ 0 ≤ p.2 - dy ∧ p.2 - dy < height b) &&
    S (b.minx + (p.1 - dx), b.miny + (p.2 - dy))

def side : ℤ := max (width b) (height b)

def square (k : ℤ) : List (ℤ × ℤ) := cells (upTo 0 k) (upTo 0 k)

def antiSwap (k : ℤ) (p : ℤ × ℤ) : ℤ × ℤ := (k - 1 - p.2, k - 1 - p.1)

def MirrorsAt (T : ℤ × ℤ → Bool) (k : ℤ) : Prop :=
  Agrees (score T Prod.swap (square k)) ∨ Agrees (score T (antiSwap k) (square k))

instance (T : ℤ × ℤ → Bool) (k : ℤ) : Decidable (MirrorsAt T k) :=
  inferInstanceAs (Decidable (_ ∨ _))

def Diagonal : Prop :=
  MirrorsAt (placed S b 0 0) (side b) ∨ MirrorsAt
    (placed S b (side b - width b) (side b - height b)) (side b)

instance : Decidable (Diagonal S b) := inferInstanceAs (Decidable (_ ∨ _))

/-- One coordinate of the answer. -/
def choose (own other : Score) (diagonal : Prop) [Decidable diagonal] (mass : ℕ × ℕ)
    (centre lo hi : ℤ) : ℤ :=
  if Agrees own then centre
  else if Agrees other ∨ diagonal then (if mass.1 < mass.2 then hi else lo)
  else lo

/-- The guess for a shape with its box. -/
def guess : ℤ × ℤ :=
  if width b * 2 < height b ∨ height b * 2 < width b then centre b
  else
    let t := tally S b (inside b)
    if Agrees t.h then centre b
    else (choose t.x t.y (Diagonal S b) t.across (centre b).1 b.minx b.maxx,
      choose t.y t.x (Diagonal S b) t.down (centre b).2 b.miny b.maxy)

end Guess

/-! ## The opaque pixels -/

/-- The opaque pixels of an image. -/
def opaquePixels (rgba : List UInt8) (w h : ℕ) (p : ℤ × ℤ) : Bool :=
  decide (0 ≤ p.1 ∧ p.1 < w ∧ 0 ≤ p.2 ∧ p.2 < h) &&
    rgba[(p.2.toNat * w + p.1.toNat) * 4 + 3]?.any (128 ≤ ·)

/-! ## The counters -/

theorem i32_eq {z : ℤ} (h : -2147483648 ≤ z ∧ z ≤ 2147483647) : i32 z = some z := if_pos h

theorem checkedAdd_eq {w a b : ℕ} (h : a + b < 2 ^ w) : checkedAdd w a b = some (a + b) := if_pos h

theorem checkedMul_eq {w a b : ℕ} (h : a * b < 2 ^ w) : checkedMul w a b = some (a * b) := if_pos h

section Counters

variable {S : ℤ × ℤ → Bool} {L : List (ℤ × ℤ)} {mirror : ℤ × ℤ → ℤ × ℤ}

theorem score_u_le (S : ℤ × ℤ → Bool) (mirror : ℤ × ℤ → ℤ × ℤ) (L : List (ℤ × ℤ)) :
    (score S mirror L).u ≤ L.length :=
  List.countP_le_length

theorem score_i_le (S : ℤ × ℤ → Bool) (mirror : ℤ × ℤ → ℤ × ℤ) (L : List (ℤ × ℤ)) :
    (score S mirror L).i ≤ L.length :=
  List.countP_le_length

theorem agrees_eq (S : ℤ × ℤ → Bool) (mirror : ℤ × ℤ → ℤ × ℤ) (hL : L.length < 2 ^ 40) :
    agrees (score S mirror L) = some (decide (Agrees (score S mirror L))) := by
  have hu := score_u_le S mirror L
  have hi := score_i_le S mirror L
  unfold agrees Agrees mirrorAgreementPercent
  split
  · next h => simp [h]
  · rw [checkedMul_eq (by omega), checkedMul_eq (by omega)]
    rfl

/-- A point more is a count more. -/
theorem count_score (S : ℤ × ℤ → Bool) (mirror : ℤ × ℤ → ℤ × ℤ) (hL : L.length < 2 ^ 40)
    (p : ℤ × ℤ) :
    count (score S mirror L) (S p) (S (mirror p)) = some (score S mirror (L ++ [p])) := by
  have hu := score_u_le S mirror L
  have hi := score_i_le S mirror L
  have hand := Bool.toNat_le (S p && S (mirror p))
  have hor := Bool.toNat_le (S p || S (mirror p))
  unfold count
  rw [checkedAdd_eq (by omega), checkedAdd_eq (by omega)]
  simp only [Option.bind_eq_bind, Option.bind_some, score, List.countP_append,
    List.countP_singleton, Bool.toNat,
    Bool.cond_eq_ite]

theorem masses_le (S : ℤ × ℤ → Bool) (coord : ℤ × ℤ → ℤ) (lo hi half : ℤ) (L : List (ℤ × ℤ)) :
    (masses S coord lo hi half L).1 ≤ L.length ∧ (masses S coord lo hi half L).2 ≤ L.length :=
  ⟨List.countP_le_length, List.countP_le_length⟩

theorem masses_snoc_of_not (coord : ℤ × ℤ → ℤ) (lo hi half : ℤ) {p : ℤ × ℤ} (hp : S p = false) :
    masses S coord lo hi half (L ++ [p]) = masses S coord lo hi half L := by
  simp [masses, List.countP_append, hp]

theorem weigh_masses (coord : ℤ × ℤ → ℤ) {lo hi half : ℤ} {p : ℤ × ℤ} (hL : L.length < 2 ^ 40)
    (hp : S p = true) (hlo : lo ≤ coord p) (hhi : coord p ≤ hi) (hwidth : hi - lo ≤ 65536) :
    weigh lo hi (coord p) half (masses S coord lo hi half L) =
      some (masses S coord lo hi half (L ++ [p])) := by
  obtain ⟨hlow, hhigh⟩ := masses_le S coord lo hi half L
  unfold weigh
  rw [i32_eq (by omega), i32_eq (by omega), checkedAdd_eq (by omega), checkedAdd_eq (by omega)]
  simp only [Option.bind_eq_bind, Option.bind_some]
  by_cases hl : coord p - lo < half
  · simp [masses, List.countP_append, hp, hl]
  · by_cases hh : hi - coord p < half <;> simp [masses, List.countP_append, hp, hl, hh]

end Counters

/-! ## The pass over the box -/

section Pass

variable {rgba : List UInt8} {w h : ℕ}

/-- A read inside the image is a look at the set of opaque pixels. -/
theorem isOpaque_eq (hsize : w * h ≤ 65536) {x y : ℤ} (hx : 0 ≤ x) (hxw : x < w) (hy : 0 ≤ y)
    (hyh : y < h) : isOpaque rgba w x y = some (opaquePixels rgba w h (x, y)) := by
  obtain ⟨x, rfl⟩ := Int.eq_ofNat_of_zero_le hx
  obtain ⟨y, rfl⟩ := Int.eq_ofNat_of_zero_le hy
  have hrow : (y + 1) * w ≤ h * w := Nat.mul_le_mul_right w (by omega)
  rw [Nat.add_mul, Nat.one_mul, Nat.mul_comm h w] at hrow
  have hx' : asUsize x = x := by
    unfold asUsize
    omega
  have hy' : asUsize y = y := by
    have hyle : y ≤ h * w := Nat.le_trans (Nat.le_of_lt (by omega))
      (Nat.le_mul_of_pos_right h (by omega))
    rw [Nat.mul_comm] at hyle
    unfold asUsize
    omega
  unfold isOpaque
  rw [hx', hy', checkedMul_eq (by omega)]
  simp only [Option.bind_eq_bind, Option.bind_some]
  rw [checkedAdd_eq (by omega), Option.bind_some, checkedMul_eq (by omega), Option.bind_some,
    checkedAdd_eq (by omega), Option.bind_some]
  simp [opaquePixels, hxw, hyh]

/-- The box lies in an image of at most 65536 pixels. -/
structure Fits (b : Bounds) (w h : ℕ) : Prop where
  size : w * h ≤ 65536
  left : 0 ≤ b.minx
  right : b.maxx < w
  top : 0 ≤ b.miny
  bottom : b.maxy < h
  wide : b.minx ≤ b.maxx
  high : b.miny ≤ b.maxy

variable {b : Bounds}

theorem Fits.w_le (hb : Fits b w h) : w ≤ 65536 :=
  Nat.le_trans (Nat.le_mul_of_pos_right w (by
    have := hb.top; have := hb.high; have := hb.bottom; omega)) hb.size

theorem Fits.h_le (hb : Fits b w h) : h ≤ 65536 :=
  Nat.le_trans (Nat.le_mul_of_pos_left h (by
    have := hb.left; have := hb.wide; have := hb.right; omega)) hb.size

variable {p : ℤ × ℤ} {k : ℤ}

theorem mem_inside : p ∈ inside b ↔ b.minx ≤ p.1 ∧ p.1 ≤ b.maxx ∧ b.miny ≤ p.2 ∧ p.2 ≤ b.maxy := by
  rw [inside, mem_cells, mem_upTo, mem_upTo]
  omega

theorem Fits.length_inside (hb : Fits b w h) : (inside b).length < 2 ^ 40 := by
  have hw := hb.w_le
  have hh := hb.h_le
  obtain ⟨-, hl, hr, ht, hbot, -, -⟩ := hb
  rw [inside, length_cells, length_upTo, length_upTo]
  have hmul : (b.maxy + 1 - b.miny).toNat * (b.maxx + 1 - b.minx).toNat ≤ 65536 * 65536 :=
    Nat.mul_le_mul (by omega) (by omega)
  omega

theorem Fits.isOpaque (hb : Fits b w h) (rgba : List UInt8) (hp : p ∈ inside b) :
    isOpaque rgba w p.1 p.2 = some (opaquePixels rgba w h p) := by
  obtain ⟨hx, hx', hy, hy'⟩ := mem_inside.mp hp
  obtain ⟨hsize, hl, hr, ht, hbot, -, -⟩ := hb
  exact isOpaque_eq hsize (by omega) (by omega) (by omega) (by omega)

theorem overX_mem (hp : p ∈ inside b) : overX b p ∈ inside b := by
  rw [mem_inside] at hp ⊢
  simp only [overX]
  omega

theorem overY_mem (hp : p ∈ inside b) : overY b p ∈ inside b := by
  rw [mem_inside] at hp ⊢
  simp only [overY]
  omega

theorem turned_mem (hp : p ∈ inside b) : turned b p ∈ inside b := by
  rw [mem_inside] at hp ⊢
  simp only [turned]
  omega

/-- **A point of the pass** over the box counts what the tally of the points does. -/
theorem visit_tally (hb : Fits b w h) {L : List (ℤ × ℤ)} (hL : L.length < 2 ^ 40)
    (hp : p ∈ inside b) :
    (tally (opaquePixels rgba w h) b L).visit rgba w b (width b / 2) (height b / 2) p.1 p.2 =
      some (tally (opaquePixels rgba w h) b (L ++ [p])) := by
  have hw := hb.w_le
  have hh := hb.h_le
  obtain ⟨hx, hx', hy, hy'⟩ := mem_inside.mp hp
  have hl := hb.left
  have hr := hb.right
  have ht := hb.top
  have hbot := hb.bottom
  have hox := hb.isOpaque rgba (overX_mem hp)
  have hoy := hb.isOpaque rgba (overY_mem hp)
  have hot := hb.isOpaque rgba (turned_mem hp)
  simp only [overX, overY, turned] at hox hoy hot
  unfold Tally.visit
  rw [i32_eq (z := p.1 - b.minx) (by omega), i32_eq (z := p.2 - b.miny) (by omega)]
  simp only [Option.bind_eq_bind, Option.bind_some]
  rw [i32_eq (by omega), i32_eq (by omega)]
  simp only [Option.bind_some, hb.isOpaque rgba hp, hox, hoy, hot]
  -- the three scores
  have hcx := count_score (opaquePixels rgba w h) (overX b) hL p
  have hcy := count_score (opaquePixels rgba w h) (overY b) hL p
  have hch := count_score (opaquePixels rgba w h) (turned b) hL p
  simp only [overX] at hcx
  simp only [overY] at hcy
  simp only [turned] at hch
  simp only [tally, hcx, hcy, hch, Option.bind_some]
  -- and the masses, of a point of the shape
  by_cases hS : opaquePixels rgba w h p = true
  · rw [if_pos hS]
    rw [weigh_masses Prod.fst hL hS hx hx' (by omega), Option.bind_some,
      weigh_masses Prod.snd hL hS hy hy' (by omega), Option.bind_some]
  · rw [if_neg hS]
    rw [masses_snoc_of_not _ _ _ _ (Bool.not_eq_true _ ▸ hS),
      masses_snoc_of_not _ _ _ _ (Bool.not_eq_true _ ▸ hS)]

/-- **The pass over the box.** -/
theorem Fits.pass_tally (hb : Fits b w h) (rgba : List UInt8) :
    ((upTo b.miny (b.maxy + 1)).foldlM (fun t y => (upTo b.minx (b.maxx + 1)).foldlM (fun t x =>
      t.visit rgba w b (width b / 2) (height b / 2) x y) t) Tally.zero) =
        some (tally (opaquePixels rgba w h) b (inside b)) := by
  have hlen := hb.length_inside
  rw [foldlM_cells (fun t x y => Tally.visit rgba w b (width b / 2) (height b / 2) t x y)]
  refine foldlM_eq_state (tally (opaquePixels rgba w h) b) fun done p rest heq => ?_
  have heq : inside b = done ++ p :: rest := heq
  rw [heq, List.length_append] at hlen
  exact visit_tally hb (by omega) (by rw [heq]; simp)

/-! ## The diagonals -/

theorem Fits.width_le (hb : Fits b w h) : 1 ≤ width b ∧ width b ≤ 65536 := by
  have hw := hb.w_le
  obtain ⟨-, hl, hr, -, -, hle, -⟩ := hb
  unfold width
  omega

theorem Fits.height_le (hb : Fits b w h) : 1 ≤ height b ∧ height b ≤ 65536 := by
  have hh := hb.h_le
  obtain ⟨-, -, -, ht, hbot, -, hle⟩ := hb
  unfold height
  omega

theorem Fits.side_le (hb : Fits b w h) :
    1 ≤ side b ∧ side b ≤ 65536 ∧ width b ≤ side b ∧ height b ≤ side b := by
  have hw := hb.width_le
  have hh := hb.height_le
  unfold side
  omega

theorem mem_square : p ∈ square k ↔ 0 ≤ p.1 ∧ p.1 < k ∧ 0 ≤ p.2 ∧ p.2 < k := by
  rw [square, mem_cells, mem_upTo, mem_upTo]
  omega

theorem length_square (hk : k ≤ 65536) : (square k).length < 2 ^ 40 := by
  rw [square, length_cells, length_upTo]
  have hmul : (k - 0).toNat * (k - 0).toNat ≤ 65536 * 65536 := Nat.mul_le_mul (by omega) (by omega)
  omega

/-- A look into the square is a look at the placed shape. -/
theorem cell_eq (hb : Fits b w h) (rgba : List UInt8) (dx dy : ℤ) (hdx : 0 ≤ dx ∧ dx ≤ 65536)
    (hdy : 0 ≤ dy ∧ dy ≤ 65536) (hp : p ∈ square (side b)) :
    cell rgba w b.minx b.miny (width b) (height b) dx dy p.2 p.1 =
      some (placed (opaquePixels rgba w h) b dx dy p) := by
  obtain ⟨hx, hx', hy, hy'⟩ := mem_square.mp hp
  have hside := hb.side_le
  have hw := hb.w_le
  have hh := hb.h_le
  have hwid := hb.width_le
  have hhei := hb.height_le
  unfold cell
  rw [i32_eq (by omega), i32_eq (by omega)]
  simp only [Option.bind_eq_bind, Option.bind_some]
  have hl := hb.left
  have hr := hb.right
  have ht := hb.top
  have hbot := hb.bottom
  split
  · next hin =>
    have hp' : (b.minx + (p.1 - dx), b.miny + (p.2 - dy)) ∈ inside b := by
      rw [mem_inside]
      unfold width height at hin
      omega
    obtain ⟨hx, hx', hy, hy'⟩ := mem_inside.mp hp'
    rw [i32_eq (by omega), i32_eq (by omega), Option.bind_some, Option.bind_some,
      hb.isOpaque rgba hp', placed,
      decide_eq_true hin, Bool.true_and]
  · next hout => rw [placed, decide_eq_false hout, Bool.false_and]

theorem swap_mem (hp : p ∈ square k) : p.swap ∈ square k := by
  rw [mem_square] at hp ⊢
  simp only [Prod.fst_swap, Prod.snd_swap]
  omega

theorem antiSwap_mem (hp : p ∈ square k) : antiSwap k p ∈ square k := by
  rw [mem_square] at hp ⊢
  simp only [antiSwap]
  omega

/-- **A placement** mirrors about a diagonal iff the placed shape does. -/
theorem mirrorsAt_eq {T : ℤ × ℤ → Bool} {look : ℤ → ℤ → Option Bool} (hk : 0 ≤ k ∧ k ≤ 65536)
    (hlook : ∀ p ∈ square k, look p.2 p.1 = some (T p)) :
    mirrorsAt look k = some (decide (MirrorsAt T k)) := by
  have hlen := length_square hk.2
  have hloop : ((upTo 0 k).foldlM (fun s r => (upTo 0 k).foldlM (fun s c => reflect look k s r c) s)
      ((⟨0, 0⟩, ⟨0, 0⟩) : Score × Score)) = some (score T Prod.swap (square k),
        score T (antiSwap k) (square k)) := by
    rw [foldlM_cells (fun s c r => reflect look k s r c)]
    refine foldlM_eq_state (fun L => (score T Prod.swap L, score T (antiSwap k) L))
      fun done p rest heq => ?_
    have heq : square k = done ++ p :: rest := heq
    rw [heq, List.length_append] at hlen
    have hp : p ∈ square k := by
      rw [heq]
      simp
    obtain ⟨hx, hx', hy, hy'⟩ := mem_square.mp hp
    have hswap := hlook _ (swap_mem hp)
    have hanti := hlook _ (antiSwap_mem hp)
    simp only [Prod.fst_swap, Prod.snd_swap] at hswap
    simp only [antiSwap] at hanti
    unfold reflect
    simp only [hlook p hp, hswap]
    rw [i32_eq (z := k - 1) (by omega)]
    simp only [Option.bind_eq_bind, Option.bind_some]
    rw [i32_eq (by omega), i32_eq (by omega)]
    simp only [Option.bind_some, hanti]
    have hd := count_score T Prod.swap (L := done) (by omega) p
    have ha := count_score T (antiSwap k) (L := done) (by omega) p
    simp only [antiSwap] at ha
    rw [hd, Option.bind_some, ha, Option.bind_some]
  unfold mirrorsAt
  rw [hloop]
  simp only [Option.bind_eq_bind, Option.bind_some]
  rw [agrees_eq T _ hlen, agrees_eq T _ hlen, Option.bind_some]
  by_cases hd : Agrees (score T Prod.swap (square k)) <;> simp [hd, MirrorsAt]

theorem Fits.mirrorsAboutADiagonal_eq (hb : Fits b w h) (rgba : List UInt8) :
    mirrorsAboutADiagonal rgba w b.minx b.miny (width b) (height b) =
      some (decide (Diagonal (opaquePixels rgba w h) b)) := by
  have hwid := hb.width_le
  have hhei := hb.height_le
  have hside := hb.side_le
  have hfirst := mirrorsAt_eq (k := side b) (by omega)
    fun p hp => cell_eq hb rgba 0 0 (by omega) (by omega) hp
  have hsecond := mirrorsAt_eq (k := side b) (by omega)
    fun p hp => cell_eq hb rgba (side b - width b) (side b - height b) (by omega) (by omega) hp
  have hk : max (width b) (height b) = side b := rfl
  unfold mirrorsAboutADiagonal
  simp only [hk]
  rw [i32_eq (by omega), i32_eq (by omega)]
  simp only [Option.bind_eq_bind, Option.bind_some]
  rw [hfirst, hsecond, Option.bind_some]
  by_cases hd : MirrorsAt (placed (opaquePixels rgba w h) b 0 0) (side b) <;> simp [hd, Diagonal]

/-! ## The decision -/

theorem elongated_eq {bw bh : ℤ} (hw : 0 ≤ bw ∧ bw ≤ 65536) (hh : 0 ≤ bh ∧ bh ≤ 65536) :
    elongated bw bh = some (decide (bw * 2 < bh ∨ bh * 2 < bw)) := by
  unfold elongated
  rw [i32_eq (by omega), i32_eq (by omega)]
  simp only [Option.bind_eq_bind, Option.bind_some]
  by_cases h : bw * 2 < bh <;> simp [h]

theorem coordinate_eq {S : ℤ × ℤ → Bool} {own other : ℤ × ℤ → ℤ × ℤ} {L : List (ℤ × ℤ)}
    (hL : L.length < 2 ^ 40) (diagonal : Prop) [Decidable diagonal] (mass : ℕ × ℕ)
    (centre lo hi : ℤ) :
    coordinate (score S own L) (score S other L) (decide diagonal) (decide (mass.1 < mass.2))
      centre lo hi =
      some (choose (score S own L) (score S other L) diagonal mass centre lo hi) := by
  unfold coordinate choose
  rw [agrees_eq S own hL, agrees_eq S other hL]
  simp only [Option.bind_eq_bind, Option.bind_some]
  by_cases ho : Agrees (score S own L)
  · simp [ho]
  · by_cases ht : Agrees (score S other L) ∨ diagonal <;> simp [ho, ht]

/-- **Within the box** the code decides as `guess` does. -/
theorem inferIn_eq (hb : Fits b w h) (rgba : List UInt8) :
    inferIn rgba w b = some (guess (opaquePixels rgba w h) b) := by
  have hlen := hb.length_inside
  have hwid := hb.width_le
  have hhei := hb.height_le
  have hw := hb.w_le
  have hh := hb.h_le
  have hpass := hb.pass_tally rgba
  have hdiag := hb.mirrorsAboutADiagonal_eq rgba
  obtain ⟨-, hl, hr, ht, hbot, hle, hle'⟩ := hb
  have hwidth : b.maxx - b.minx + 1 = width b := rfl
  have hheight : b.maxy - b.miny + 1 = height b := rfl
  unfold inferIn
  rw [i32_eq (z := b.maxx - b.minx) (by omega), i32_eq (z := b.maxy - b.miny) (by omega),
    i32_eq (z := b.minx + b.maxx) (by omega), i32_eq (z := b.miny + b.maxy) (by omega)]
  simp only [Option.bind_eq_bind, Option.bind_some, hwidth, hheight]
  rw [i32_eq (by omega), i32_eq (by omega), Option.bind_some, Option.bind_some,
    elongated_eq (by omega) (by omega),
    Option.bind_some]
  -- the divisions are of numbers that are not negative
  rw [Int.tdiv_eq_ediv_of_nonneg (a := b.minx + b.maxx) (by omega),
    Int.tdiv_eq_ediv_of_nonneg (a := b.miny + b.maxy) (by omega),
    Int.tdiv_eq_ediv_of_nonneg (a := width b) (by omega),
      Int.tdiv_eq_ediv_of_nonneg (a := height b) (by omega), hpass, hdiag]
  unfold guess
  by_cases helong : width b * 2 < height b ∨ height b * 2 < width b
  · simp only [helong, decide_true, if_true]
    rfl
  · simp only [helong, decide_false, Bool.false_eq_true, if_false, Option.bind_some]
    have hh := agrees_eq (opaquePixels rgba w h) (turned b) hlen
    have htally : (tally (opaquePixels rgba w h) b (inside b)).h = score (opaquePixels rgba w h)
        (turned b) (inside b) := rfl
    rw [htally, hh, Option.bind_some]
    by_cases hturn : Agrees (score (opaquePixels rgba w h) (turned b) (inside b))
    · simp only [hturn, decide_true, if_true]
      rfl
    · simp only [hturn, decide_false, Bool.false_eq_true, if_false]
      set t := tally (opaquePixels rgba w h) b (inside b) with ht'
      have hx : coordinate t.x t.y (decide (Diagonal (opaquePixels rgba w h) b))
        (decide (t.across.1 < t.across.2))
          ((b.minx + b.maxx) / 2) b.minx b.maxx =
            some (choose t.x t.y (Diagonal (opaquePixels rgba w h) b) t.across
            (centre b).1 b.minx b.maxx) := coordinate_eq hlen _ _ _ _ _
      have hy : coordinate t.y t.x (decide (Diagonal (opaquePixels rgba w h) b))
        (decide (t.down.1 < t.down.2))
          ((b.miny + b.maxy) / 2) b.miny b.maxy =
            some (choose t.y t.x (Diagonal (opaquePixels rgba w h) b) t.down
            (centre b).2 b.miny b.maxy) := coordinate_eq hlen _ _ _ _ _
      rw [hx, hy, Option.bind_some, Option.bind_some]

end Pass

/-! ## The pass that finds the box -/

/-- The bytes of a pixel are where the image has them. -/
theorem chunksExact_getElem? : ∀ (rgba : List UInt8) (i : ℕ),
    (chunksExact rgba)[i]?.bind (fun px => px[3]?) = rgba[i * 4 + 3]? ∧
      ∀ px, (chunksExact rgba)[i]? = some px → px.length = 4
  | a :: b :: c :: d :: rest, 0 => by
    refine ⟨rfl, ?_⟩
    rintro px ⟨⟩
    rfl
  | a :: b :: c :: d :: rest, i + 1 => by
    have hrest := chunksExact_getElem? rest i
    have hplace : (i + 1) * 4 + 3 = (i * 4 + 3) + 1 + 1 + 1 + 1 := by omega
    rw [chunksExact, List.getElem?_cons_succ, hplace]
    exact hrest
  | [], i => ⟨by simp [chunksExact], by simp [chunksExact]⟩
  | [a], i => ⟨by simp [chunksExact], by simp [chunksExact]⟩
  | [a, b], i => ⟨by simp [chunksExact], by simp [chunksExact]⟩
  | [a, b, c], i => ⟨by simp [chunksExact], by simp [chunksExact]⟩

/-- The opaque pixels among some of them, each with its number. -/
def seen (w : ℕ) (done : List (List UInt8 × ℕ)) (p : ℤ × ℤ) : Bool :=
  done.any fun q => q.1[3]?.any (128 ≤ ·) && p == (((q.2 % w : ℕ) : ℤ), ((q.2 / w : ℕ) : ℤ))

theorem asI32_eq {n : ℕ} (h : n ≤ 65536) : asI32 n = n := by
  unfold asI32
  omega

section Box

variable {rgba : List UInt8} {w h : ℕ}

theorem seen_snoc (w : ℕ) (done : List (List UInt8 × ℕ)) (px : List UInt8) (i : ℕ) (p : ℤ × ℤ) :
    seen w (done ++ [(px, i)]) p =
      (seen w done p || (px[3]?.any (128 ≤ ·) && p == (((i % w : ℕ) : ℤ), ((i / w : ℕ) : ℤ)))) := by
  simp [seen, List.any_append]

/-- What the pass knows: nothing opaque yet, or the box of what was. -/
def BoxSoFar (w h : ℕ) (done : List (List UInt8 × ℕ)) (b : Bounds) : Prop :=
  (∀ p, seen w done p = false) ∧ b = { minx := w, miny := h, maxx := -1, maxy := -1 } ∨
    IsBox (seen w done) b

variable {b : Bounds}

/-- **A pixel** widens the box iff it is opaque. -/
theorem widen_returns (hw : w ≤ 65536) (hh : h ≤ 65536) {done : List (List UInt8 × ℕ)}
    (hb : BoxSoFar w h done b) {px : List UInt8} {i : ℕ} (hpx : px.length = 4) (hi : i < w * h) :
    Returns (widen w b i px) (BoxSoFar w h (done ++ [(px, i)])) := by
  obtain ⟨a, ha⟩ : ∃ a, px[3]? = some a := ⟨_, List.getElem?_eq_getElem (by omega)⟩
  have hwpos : 0 < w := Nat.pos_of_ne_zero fun h0 => by simp [h0] at hi
  have hx : i % w < w := Nat.mod_lt i hwpos
  have hy : i / w < h := Nat.div_lt_of_lt_mul hi
  have hseen : seen w (done ++ [(px, i)]) = fun p =>
      (seen w done p || (decide (128 ≤ a) && p == (((i % w : ℕ) : ℤ), ((i / w : ℕ) : ℤ)))) := by
    funext p
    rw [seen_snoc, ha]
    rfl
  unfold widen checkedMod checkedDiv
  rw [ha, if_neg (by omega), if_neg (by omega)]
  simp only [Option.bind_eq_bind, Option.bind_some]
  rw [asI32_eq (by omega), asI32_eq (by omega)]
  unfold BoxSoFar
  rw [hseen]
  split
  · next hset =>
    simp only [hset, decide_true, Bool.true_and]
    refine returns_pure (.inr ?_)
    rcases hb with ⟨hnone, rfl⟩ | hbox
    · simp only [hnone, Bool.false_or]
      have hq := isBox_singleton (((i % w : ℕ) : ℤ), ((i / w : ℕ) : ℤ))
      have hy0 : (0 : ℤ) ≤ ((i / w : ℕ) : ℤ) := Int.natCast_nonneg _
      rw [min_eq_right (by omega), min_eq_right (by omega), max_eq_right (by omega),
        max_eq_right (by omega)]
      exact hq
    · exact hbox.insert _
  · next hset =>
    simp only [hset, decide_false, Bool.false_and, Bool.or_false]
    exact returns_pure hb

/-- The pixels the pass goes over are those of the image. -/
theorem seen_all (rgba : List UInt8) (w h : ℕ) :
    seen w ((chunksExact rgba).take (w * h)).zipIdx = opaquePixels rgba w h := by
  funext p
  rw [Bool.eq_iff_iff]
  constructor
  · intro hp
    obtain ⟨⟨px, i⟩, hmem, hq⟩ := List.any_eq_true.mp hp
    obtain ⟨halpha, hpt⟩ := (Bool.and_eq_true _ _).mp hq
    obtain rfl := beq_iff_eq.mp hpt
    have hget := List.mem_zipIdx_iff_getElem?.mp hmem
    have hi : i < w * h := by
      have := (List.getElem?_eq_some_iff.mp hget).1
      rw [List.length_take] at this
      omega
    rw [List.getElem?_take_of_lt hi] at hget
    have hbyte := (chunksExact_getElem? rgba i).1
    rw [hget, Option.bind_some] at hbyte
    have hwpos : 0 < w := Nat.pos_of_ne_zero fun h0 => by simp [h0] at hi
    have hx : i % w < w := Nat.mod_lt i hwpos
    have hy : i / w < h := Nat.div_lt_of_lt_mul hi
    have hy0 : (0 : ℤ) ≤ ((i / w : ℕ) : ℤ) := Int.natCast_nonneg _
    have hplace : i / w * w + i % w = i := Nat.div_add_mod' i w
    simp only [opaquePixels, Int.toNat_natCast, hplace, ← hbyte, halpha, Bool.and_true,
      decide_eq_true_eq]
    omega
  · obtain ⟨x, y⟩ := p
    intro hp
    obtain ⟨hin, halpha⟩ := (Bool.and_eq_true _ _).mp hp
    obtain ⟨hx, hxw, hy, hyh⟩ := of_decide_eq_true hin
    obtain ⟨x, rfl⟩ := Int.eq_ofNat_of_zero_le hx
    obtain ⟨y, rfl⟩ := Int.eq_ofNat_of_zero_le hy
    have hrow : (y + 1) * w ≤ h * w := Nat.mul_le_mul_right w (by omega)
    rw [Nat.add_mul, Nat.one_mul, Nat.mul_comm h w] at hrow
    have hi : y * w + x < w * h := by omega
    simp only [Int.toNat_natCast] at halpha
    have hbyte := (chunksExact_getElem? rgba (y * w + x)).1
    rw [← hbyte] at halpha
    cases hget : (chunksExact rgba)[y * w + x]? with
    | none => simp [hget] at halpha
    | some px =>
      rw [hget, Option.bind_some] at halpha
      refine List.any_eq_true.mpr ⟨(px, y * w + x), ?_, ?_⟩
      · rw [List.mem_zipIdx_iff_getElem?, List.getElem?_take_of_lt hi]
        exact hget
      · have hmod : (y * w + x) % w = x := by rw [Nat.mul_add_mod', Nat.mod_eq_of_lt (by omega)]
        have hdiv : (y * w + x) / w = y := by
          rw [Nat.mul_comm y w, Nat.mul_add_div (by omega), Nat.div_eq_of_lt (by omega),
            Nat.add_zero]
        simp [halpha, hmod, hdiv]

/-- The box of the opaque pixels lies in the image. -/
theorem fits_of_isBox (hsize : w * h ≤ 65536) (hb : IsBox (opaquePixels rgba w h) b) :
    Fits b w h := by
  have hin : ∀ p, opaquePixels rgba w h p = true → 0 ≤ p.1 ∧ p.1 < w ∧ 0 ≤ p.2 ∧ p.2 < h :=
    fun p hp =>
    of_decide_eq_true ((Bool.and_eq_true _ _).mp hp).1
  obtain ⟨y, hleft⟩ := hb.minx.1
  obtain ⟨y', hright⟩ := hb.maxx.1
  obtain ⟨x, htop⟩ := hb.miny.1
  obtain ⟨x', hbottom⟩ := hb.maxy.1
  exact ⟨hsize, (hin _ hleft).1, (hin _ hright).2.1, (hin _ htop).2.2.1, (hin _ hbottom).2.2.2,
    hb.minx_le_maxx, hb.miny_le_maxy⟩

/-- Once the box is found. -/
theorem inferHotspot_of_loop (hmul : checkedMul 64 w h = some (w * h))
    (hloop : ((chunksExact rgba).take (w * h)).zipIdx.foldlM (fun b px => widen w b px.2 px.1)
      { minx := asI32 w, miny := asI32 h, maxx := -1, maxy := -1 } = some b) :
    inferHotspot rgba w h = if b.maxx < b.minx ∨
      b.maxy < b.miny then some (0, 0) else inferIn rgba w b := by
  unfold inferHotspot
  simp only [hmul, Option.bind_eq_bind, Option.bind_some, hloop]

/-- **The code decides as `guess` does**: without an opaque pixel the answer is the origin,
otherwise it is the guess for the set of opaque pixels in its box. -/
theorem inferHotspot_eq (rgba : List UInt8) {w h : ℕ} (hsize : w * h ≤ 65536) :
    (∀ p, opaquePixels rgba w h p = false) ∧ inferHotspot rgba w h = some (0, 0) ∨
      ∃ b, IsBox (opaquePixels rgba w h) b ∧ Fits b w h ∧
        inferHotspot rgba w h = some (guess (opaquePixels rgba w h) b) := by
  have hmul : checkedMul 64 w h = some (w * h) := checkedMul_eq (by omega)
  rcases Nat.eq_zero_or_pos (w * h) with hzero | hpos
  · -- an image without pixels, whatever its other side is
    refine .inl ⟨fun p => ?_, ?_⟩
    · rw [← seen_all rgba w h, hzero]
      rfl
    · have hside : (-1 : ℤ) < asI32 w ∨ (-1 : ℤ) < asI32 h := by
        have hone : (-1 : ℤ) < asI32 0 := by
          rw [asI32_eq (Nat.zero_le _)]
          decide
        rcases Nat.mul_eq_zero.mp hzero with rfl | rfl
        · exact .inl hone
        · exact .inr hone
      have hloop : ((chunksExact rgba).take (w * h)).zipIdx.foldlM (fun b px => widen w b px.2 px.1)
          { minx := asI32 w, miny := asI32 h, maxx := -1, maxy := -1 } =
            some { minx := asI32 w, miny := asI32 h, maxx := -1, maxy := -1 } := by
        rw [hzero]
        rfl
      rw [inferHotspot_of_loop hmul hloop, if_pos hside]
  · have hw : w ≤ 65536 :=
      Nat.le_trans (Nat.le_mul_of_pos_right w (Nat.pos_of_mul_pos_left hpos)) hsize
    have hh : h ≤ 65536 :=
      Nat.le_trans (Nat.le_mul_of_pos_left h (Nat.pos_of_mul_pos_right hpos)) hsize
    obtain ⟨b, hloop, hb⟩ := returns_foldlM_done (I := BoxSoFar w h)
      (f := fun b px => widen w b px.2 px.1)
      (l := ((chunksExact rgba).take (w * h)).zipIdx)
        (b := { minx := w, miny := h, maxx := -1, maxy := -1 })
      (.inl ⟨fun _ => rfl, rfl⟩) fun done px rest b heq hb => by
        have hmem : px ∈ ((chunksExact rgba).take (w * h)).zipIdx := by
          rw [heq]
          simp
        have hget := List.mem_zipIdx_iff_getElem?.mp hmem
        have hi : px.2 < w * h := by
          have := (List.getElem?_eq_some_iff.mp hget).1
          rw [List.length_take] at this
          omega
        rw [List.getElem?_take_of_lt hi] at hget
        exact widen_returns hw hh hb ((chunksExact_getElem? rgba px.2).2 _ hget) hi
    rw [← asI32_eq hw, ← asI32_eq hh] at hloop
    have hinfer := inferHotspot_of_loop hmul hloop
    unfold BoxSoFar at hb
    rw [seen_all rgba w h] at hb
    rcases hb with ⟨hnone, rfl⟩ | hbox
    · refine .inl ⟨hnone, ?_⟩
      rw [hinfer, if_pos (.inl (by dsimp only; omega))]
    · have hfits := fits_of_isBox hsize hbox
      refine .inr ⟨b, hbox, hfits, ?_⟩
      have := hfits.wide
      have := hfits.high
      rw [hinfer, if_neg (by omega), inferIn_eq hfits]

end Box

end BgDesk.CursorHotspot
