import BgDesk.CursorHotspot
import BgDesk.Mirror
import BgDesk.Rescale
import BgDesk.WaylandLayout

/-!
# The pointer after a change of the layout

A client keeps sending coordinates in the layout it knows. `remap_to_live_layout` finds the display
of that layout a point is in and moves the point to the same place of the same display in the layout
there is now. The rectangles come from `logical_rects_of`, and `desktop_rect_of` is the range of the
device the point is sent to.

Coordinates are the integers they stand for; an operation whose result does not fit its type ends
with `none`.

* `mapAxis_eq` — one axis is `rescale` from one extent to the other;
* `pointer_remap` — the desktop rectangle, and where points go.
-/

namespace BgDesk.Wayland

open CursorHotspot (i32 i32_eq)

/-! ## The code -/

/-- The result of an operation on `i64`. -/
def i64 (z : ℤ) : Option ℤ :=
  if -9223372036854775808 ≤ z ∧ z ≤ 9223372036854775807 then some z else none

/-- `as i32` of an `i64`. -/
def i64AsI32 (z : ℤ) : ℤ := (z + 2 ^ 31) % 2 ^ 32 - 2 ^ 31

/-- The size of a display among several, as `desktop_rect_of` takes it. -/
def desktopSize (d : WaylandDisplayInfo) : Int32 × Int32 :=
  match d.logicalSize with
  | some logicalSize => logicalSize
  | none => if d.transform = 90 ∨ d.transform = 270 then orientedPhysical d else (d.width, d.height)

/-- A desktop rectangle: `(min_x, max_x, min_y, max_y)`. -/
abbrev DesktopRect := ℤ × ℤ × ℤ × ℤ

/-- A display in the loop of `desktop_rect_of`. -/
def growDesktop (rect : DesktopRect) (d : WaylandDisplayInfo) : Option DesktopRect := do
  let (minX, maxX, minY, maxY) := rect
  let size := desktopSize d
  let right ← i32 (d.x.toInt + size.1.toInt)
  let bottom ← i32 (d.y.toInt + size.2.toInt)
  some (min minX d.x.toInt, max maxX right, min minY d.y.toInt, max maxY bottom)

def desktopRectOf (displays : List WaylandDisplayInfo) : Option (Option DesktopRect) :=
  match displays with
  | [] => some none
  | [d] => do
    let (w, h) := orientedPhysical d
    let right ← i32 (d.x.toInt + w.toInt)
    let bottom ← i32 (d.y.toInt + h.toInt)
    some (some (d.x.toInt, right, d.y.toInt, bottom))
  | displays => do
    let rect ← displays.foldlM growDesktop (2147483647, -2147483648, 2147483647, -2147483648)
    some (some rect)

/-- `x >= r.x && x < r.x + r.w && y >= r.y && y < r.y + r.h`. -/
def contains (r : DisplayRect) (x y : ℤ) : Option Bool :=
  if r.x.toInt ≤ x then do
    let right ← i32 (r.x.toInt + r.w.toInt)
    if x < right ∧ r.y.toInt ≤ y then do
      let bottom ← i32 (r.y.toInt + r.h.toInt)
      some (y < bottom)
    else some false
  else some false

/-- The first display the point is in, with its number. -/
def findDisplay (x y : ℤ) : List DisplayRect → ℕ → Option (Option (ℕ × DisplayRect))
  | [], _ => some none
  | r :: rs, i => do
    if ← contains r x y then some (some (i, r)) else findDisplay x y rs (i + 1)

def mapAxis (v baseOrigin baseExtent liveOrigin liveExtent : ℤ) : Option ℤ :=
  if baseExtent ≤ 1 ∨ liveExtent ≤ 1 then some liveOrigin
  else do
    let offset ← i32 (v - baseOrigin)
    let liveSpan ← i32 (liveExtent - 1)
    let baseSpan ← i32 (baseExtent - 1)
    let product ← i64 (offset * liveSpan)
    let quotient ← if baseSpan = 0 then none else i64 (product.tdiv baseSpan)
    i32 (liveOrigin + i64AsI32 quotient)

/-- The live display of a baseline display: by name, or by number where there are no names. -/
def partner (baseline live : List DisplayRect) (bi : ℕ) (b : DisplayRect) : Option DisplayRect :=
  if b.name = "" then if baseline.length = live.length then live[bi]? else none
  else live.find? fun r => r.name = b.name

def remapToLiveLayout (x y : ℤ) (baseline live : List DisplayRect) : Option (ℤ × ℤ) := do
  match ← findDisplay x y baseline 0 with
  | none => some (x, y)
  | some (bi, b) =>
    match partner baseline live bi b with
    | none => some (x, y)
    | some l => do
      let nx ← mapAxis x b.x.toInt b.w.toInt l.x.toInt l.w.toInt
      let ny ← mapAxis y b.y.toInt b.h.toInt l.y.toInt l.h.toInt
      some (nx, ny)

/-! ## Rectangles -/

/-- Below `2 ^ 30` in magnitude. -/
def Small (z : ℤ) : Prop := -1073741824 < z ∧ z < 1073741824

instance (z : ℤ) : Decidable (Small z) := inferInstanceAs (Decidable (_ ∧ _))

/-- A rectangle with a positive size. -/
structure Proper (r : DisplayRect) : Prop where
  x : Small r.x.toInt
  y : Small r.y.toInt
  w : 0 < r.w.toInt ∧ Small r.w.toInt
  h : 0 < r.h.toInt ∧ Small r.h.toInt

/-- The point is in the rectangle. -/
def Within (r : DisplayRect) (x y : ℤ) : Prop :=
  (r.x.toInt ≤ x ∧ x < r.x.toInt + r.w.toInt) ∧ r.y.toInt ≤ y ∧ y < r.y.toInt + r.h.toInt

instance (r : DisplayRect) (x y : ℤ) : Decidable (Within r x y) :=
  inferInstanceAs (Decidable ((_ ∧ _) ∧ _ ∧ _))

/-- The display of a point: the first one it is in. -/
def DisplayOf (rects : List DisplayRect) (x y : ℤ) (i : ℕ) (b : DisplayRect) : Prop :=
  rects[i]? = some b ∧ Within b x y ∧ ∀ j < i, ∀ r, rects[j]? = some r → ¬ Within r x y

/-- The smallest rectangle around all of them. -/
structure IsDesktop (rects : List DisplayRect) (rect : DesktopRect) : Prop where
  minX : IsLeast {z | ∃ r ∈ rects, z = r.x.toInt} rect.1
  maxX : IsGreatest {z | ∃ r ∈ rects, z = r.x.toInt + r.w.toInt} rect.2.1
  minY : IsLeast {z | ∃ r ∈ rects, z = r.y.toInt} rect.2.2.1
  maxY : IsGreatest {z | ∃ r ∈ rects, z = r.y.toInt + r.h.toInt} rect.2.2.2

/-! ## The display of a point -/

theorem contains_eq {r : DisplayRect} (hr : Proper r) (x y : ℤ) :
    ∃ b, contains r x y = some b ∧ (b = true ↔ Within r x y) := by
  obtain ⟨hx, hy, hw, hh⟩ := hr
  unfold Small at hx hy hw hh
  unfold contains Within
  rw [i32_eq (by omega), i32_eq (by omega)]
  simp only [Option.bind_eq_bind, Option.bind_some]
  split
  · next hleft =>
    split
    · next hin => exact ⟨_, rfl, by rw [decide_eq_true_eq]; omega⟩
    · next hout => exact ⟨false, rfl, by simp only [Bool.false_eq_true, false_iff]; omega⟩
  · next hleft => exact ⟨false, rfl, by simp only [Bool.false_eq_true, false_iff]; omega⟩

/-- The search finds the display of the point, if it has one. -/
theorem findDisplay_eq (x y : ℤ) : ∀ (rects : List DisplayRect) (i : ℕ), (∀ r ∈ rects, Proper r) →
    ((∀ r ∈ rects, ¬ Within r x y) ∧ findDisplay x y rects i = some none) ∨
      ∃ j b, DisplayOf rects x y j b ∧ findDisplay x y rects i = some (some (i + j, b)) := by
  intro rects
  induction rects with
  | nil => exact fun _ _ => .inl ⟨nofun, rfl⟩
  | cons r rs ih =>
    intro i hrects
    obtain ⟨hr, hrs⟩ := List.forall_mem_cons.mp hrects
    obtain ⟨b, hb, hwithin⟩ := contains_eq hr x y
    rw [findDisplay, hb, Option.bind_eq_bind, Option.bind_some]
    by_cases hin : Within r x y
    · rw [if_pos (hwithin.mpr hin)]
      exact .inr ⟨0, r, ⟨rfl, hin, fun j hj => absurd hj (Nat.not_lt_zero j)⟩, rfl⟩
    · rw [if_neg fun h => hin (hwithin.mp h)]
      rcases ih (i + 1) hrs with ⟨hnone, hfind⟩ | ⟨j, b, ⟨hget, hb, hfirst⟩, hfind⟩
      · exact .inl ⟨List.forall_mem_cons.mpr ⟨hin, hnone⟩, hfind⟩
      · refine .inr ⟨j + 1, b, ⟨hget, hb, fun k hk q hq => ?_⟩, ?_⟩
        · cases k with
          | zero =>
            obtain rfl := Option.some.inj hq
            exact hin
          | succ k => exact hfirst k (by omega) q hq
        · rw [hfind, Nat.add_assoc, Nat.add_comm 1 j]

variable {rects : List DisplayRect} {d : WaylandDisplayInfo}

theorem DisplayOf.unique {x y : ℤ} {i j : ℕ} {b c : DisplayRect} (h : DisplayOf rects x y i b)
    (h' : DisplayOf rects x y j c) : i = j ∧ b = c := by
  have hij : i = j := by
    rcases Nat.lt_trichotomy i j with hlt | heq | hlt
    · exact absurd h.2.1 (h'.2.2 i hlt b h.1)
    · exact heq
    · exact absurd h'.2.1 (h.2.2 j hlt c h'.1)
  subst hij
  exact ⟨rfl, Option.some.inj (h.1.symm.trans h'.1)⟩

/-! ## One axis -/

/-- The map of one axis. -/
def stretch (baseOrigin baseExtent liveOrigin liveExtent v : ℤ) : ℤ :=
  liveOrigin + rescale (baseExtent - 1).toNat (liveExtent - 1).toNat (v - baseOrigin).toNat

/-- **An axis** is stretched from one extent to the other, without an overflow. -/
theorem mapAxis_eq {v baseOrigin baseExtent liveOrigin liveExtent : ℤ}
    (hbw : 0 < baseExtent ∧ Small baseExtent) (hl : Small liveOrigin)
    (hlw : 0 < liveExtent ∧ Small liveExtent) (hv : baseOrigin ≤ v ∧ v < baseOrigin + baseExtent) :
    mapAxis v baseOrigin baseExtent liveOrigin liveExtent =
      some (stretch baseOrigin baseExtent liveOrigin liveExtent v) := by
  unfold stretch
  unfold Small at hbw hl hlw
  unfold mapAxis
  split
  · next hone =>
    rcases hone with hone | hone
    · have hk : (v - baseOrigin).toNat = 0 := by omega
      rw [hk, rescale_zero]
      simp
    · have hn : (liveExtent - 1).toNat = 0 := by omega
      rw [hn, rescale, Nat.mul_zero, Nat.zero_div]
      simp
  · next hlarge =>
    obtain ⟨k, hk⟩ := Int.eq_ofNat_of_zero_le (a := v - baseOrigin) (by omega)
    obtain ⟨m, hm⟩ := Int.eq_ofNat_of_zero_le (a := baseExtent - 1) (by omega)
    obtain ⟨n, hn⟩ := Int.eq_ofNat_of_zero_le (a := liveExtent - 1) (by omega)
    have hprod : k * n ≤ 1073741824 * 1073741824 := Nat.mul_le_mul (by omega) (by omega)
    have hle : k * n / m ≤ n := rescale_le (by omega) (by omega)
    rw [hk, hm, hn, i32_eq (by omega), i32_eq (by omega), i32_eq (by omega)]
    simp only [Option.bind_eq_bind, Option.bind_some, Int.toNat_natCast]
    have hcast : (k : ℤ) * n = ((k * n : ℕ) : ℤ) := (Int.natCast_mul k n).symm
    have hdiv : ((k * n : ℕ) : ℤ).tdiv m = ((k * n / m : ℕ) : ℤ) := by
      rw [Int.tdiv_eq_ediv_of_nonneg (Int.natCast_nonneg _), Int.natCast_ediv]
    have hprod64 : i64 ((k * n : ℕ) : ℤ) = some ((k * n : ℕ) : ℤ) := if_pos (by omega)
    have hquot64 : i64 ((k * n / m : ℕ) : ℤ) = some ((k * n / m : ℕ) : ℤ) := if_pos (by
      generalize k * n / m = q at hle ⊢
      omega)
    have hwrap : i64AsI32 ((k * n / m : ℕ) : ℤ) = ((k * n / m : ℕ) : ℤ) := by
      generalize k * n / m = q at hle ⊢
      unfold i64AsI32
      omega
    rw [hcast, hprod64, Option.bind_some, if_neg (by omega), hdiv, hquot64, Option.bind_some, hwrap]
    refine i32_eq ?_
    generalize k * n / m = q at hle ⊢
    omega

/-- What the map of one axis does to the columns, or the rows, of a display. -/
structure AxisMap (f : ℤ → ℤ) (baseOrigin baseExtent liveOrigin liveExtent : ℤ) : Prop where
  within : ∀ v, baseOrigin ≤ v → v < baseOrigin + baseExtent → liveOrigin ≤ f v ∧
    f v < liveOrigin + liveExtent
  mono : ∀ v v', baseOrigin ≤ v → v ≤ v' → v' < baseOrigin + baseExtent → f v ≤ f v'
  first : f baseOrigin = liveOrigin
  last : 2 ≤ baseExtent → f (baseOrigin + baseExtent - 1) = liveOrigin + liveExtent - 1
  shift : liveExtent = baseExtent → ∀ v, baseOrigin ≤ v → v < baseOrigin + baseExtent →
    f v = v + (liveOrigin - baseOrigin)
  onto : liveExtent ≤ baseExtent → ∀ c, liveOrigin ≤ c → c < liveOrigin + liveExtent →
    ∃ v, (baseOrigin ≤ v ∧ v < baseOrigin + baseExtent) ∧ f v = c

theorem stretch_axisMap {baseOrigin baseExtent liveOrigin liveExtent : ℤ} (hb : 0 < baseExtent)
    (hl : 0 < liveExtent) : AxisMap (stretch baseOrigin baseExtent liveOrigin liveExtent)
      baseOrigin baseExtent liveOrigin liveExtent where
  within := by
    intro v hv hv'
    have hle : rescale (baseExtent - 1).toNat (liveExtent - 1).toNat (v - baseOrigin).toNat ≤
        (liveExtent - 1).toNat := by
      rcases Nat.eq_zero_or_pos (baseExtent - 1).toNat with hzero | hpos
      · rw [hzero, rescale, Nat.div_zero]
        exact Nat.zero_le _
      · exact rescale_le hpos (by omega)
    unfold stretch
    omega
  mono := by
    intro v v' hv hvv' hv'
    have hle : rescale (baseExtent - 1).toNat (liveExtent - 1).toNat (v - baseOrigin).toNat ≤
        rescale (baseExtent - 1).toNat (liveExtent - 1).toNat (v' - baseOrigin).toNat :=
          rescale_mono (by omega)
    unfold stretch
    omega
  first := by
    rw [stretch, Int.sub_self, Int.toNat_zero, rescale_zero, Int.natCast_zero, Int.add_zero]
  last := by
    intro htwo
    have hk : (baseOrigin + baseExtent - 1 - baseOrigin).toNat = (baseExtent - 1).toNat := by omega
    rw [stretch, hk, rescale_last (by omega)]
    omega
  shift := by
    intro heq v hv hv'
    have hself : rescale (baseExtent - 1).toNat (baseExtent - 1).toNat (v - baseOrigin).toNat =
        (v - baseOrigin).toNat := by
      rcases Nat.eq_zero_or_pos (baseExtent - 1).toNat with hzero | hpos
      · rw [hzero, rescale, Nat.div_zero]
        omega
      · exact rescale_self hpos _
    rw [stretch, heq, hself]
    omega
  onto := by
    intro hle c hc hc'
    obtain ⟨k, hk, hkc⟩ := rescale_surjective (a := (baseExtent - 1).toNat)
      (b := (liveExtent - 1).toNat)
      (j := (c - liveOrigin).toNat) (by omega) (by omega)
    refine ⟨baseOrigin + k, ⟨by omega, by omega⟩, ?_⟩
    have hoff : (baseOrigin + (k : ℤ) - baseOrigin).toNat = k := by omega
    rw [stretch, hoff, hkc]
    omega

/-! ## Points -/

section Remap

variable {baseline live : List DisplayRect} {x y : ℤ} {i : ℕ} {b l : DisplayRect}

theorem mem_of_partner (h : partner baseline live i b = some l) : l ∈ live := by
  unfold partner at h
  split at h
  · split at h
    · exact List.mem_of_getElem? h
    · cases h
  · exact List.mem_of_find?_eq_some h

theorem remap_of_none (hbaseline : ∀ r ∈ baseline, Proper r)
    (hnone : ∀ r ∈ baseline, ¬ Within r x y) :
    remapToLiveLayout x y baseline live = some (x, y) := by
  rcases findDisplay_eq x y baseline 0 hbaseline with ⟨-, hfind⟩ | ⟨j, b, hb, -⟩
  · rw [remapToLiveLayout, hfind]
    rfl
  · exact absurd hb.2.1 (hnone b (List.mem_of_getElem? hb.1))

theorem findDisplay_of_displayOf (hbaseline : ∀ r ∈ baseline, Proper r)
    (hb : DisplayOf baseline x y i b) : findDisplay x y baseline 0 = some (some (i, b)) := by
  rcases findDisplay_eq x y baseline 0 hbaseline with ⟨hnone, -⟩ | ⟨j, c, hc, hfind⟩
  · exact absurd hb.2.1 (hnone b (List.mem_of_getElem? hb.1))
  · obtain ⟨rfl, rfl⟩ := hb.unique hc
    rw [hfind, Nat.zero_add]

theorem remap_of_lost (hbaseline : ∀ r ∈ baseline, Proper r) (hb : DisplayOf baseline x y i b)
    (hlost : partner baseline live i b = none) :
    remapToLiveLayout x y baseline live = some (x, y) := by
  rw [remapToLiveLayout, findDisplay_of_displayOf hbaseline hb]
  simp only [Option.bind_eq_bind, Option.bind_some, hlost]

/-- A point of a display with a partner goes to its place in the partner. -/
theorem remap_of_partner (hbaseline : ∀ r ∈ baseline, Proper r) (hlive : ∀ r ∈ live, Proper r)
    (hb : DisplayOf baseline x y i b) (hl : partner baseline live i b = some l) :
    remapToLiveLayout x y baseline live = some (stretch b.x.toInt b.w.toInt l.x.toInt l.w.toInt x,
      stretch b.y.toInt b.h.toInt l.y.toInt l.h.toInt y) := by
  have hbp := hbaseline b (List.mem_of_getElem? hb.1)
  have hlp := hlive l (mem_of_partner hl)
  rw [remapToLiveLayout, findDisplay_of_displayOf hbaseline hb]
  simp only [Option.bind_eq_bind, Option.bind_some, hl]
  rw [mapAxis_eq hbp.w hlp.x hlp.w hb.2.1.1, mapAxis_eq hbp.h hlp.y hlp.h hb.2.1.2]
  rfl

/-- With names of their own, displays are their own partners in the same layout. -/
theorem partner_self {L : List DisplayRect} (hnames : (L.map DisplayRect.name).Nodup)
    (hne : ∀ r ∈ L, r.name ≠ "") (hb : L[i]? = some b) : partner L L i b = some b := by
  have hmem := List.mem_of_getElem? hb
  rw [partner, if_neg (hne b hmem)]
  cases hfind : L.find? (fun r => r.name = b.name) with
  | none => exact absurd (decide_eq_true rfl) (List.find?_eq_none.mp hfind b hmem)
  | some r =>
    have hname : r.name = b.name := by simpa using List.find?_some hfind
    rw [List.inj_on_of_nodup_map hnames (List.mem_of_find?_eq_some hfind) hmem hname]

theorem stretch_self {origin extent v : ℤ} (hext : 0 < extent)
    (hv : origin ≤ v ∧ v < origin + extent) : stretch origin extent origin extent v = v := by
  rw [(stretch_axisMap hext hext).shift rfl v hv.1 hv.2]
  omega

end Remap

/-! ## The desktop -/

/-- A display with small coordinates and positive small sizes. -/
structure ProperDisplay (d : WaylandDisplayInfo) : Prop where
  x : Small d.x.toInt
  y : Small d.y.toInt
  width : 0 < d.width.toInt ∧ Small d.width.toInt
  height : 0 < d.height.toInt ∧ Small d.height.toInt
  logicalSize : ∀ size, d.logicalSize = some size →
    (0 < size.1.toInt ∧ Small size.1.toInt) ∧ 0 < size.2.toInt ∧ Small size.2.toInt

theorem desktopSize_eq (d : WaylandDisplayInfo) :
    desktopSize d = d.logicalSize.getD (orientedPhysical d) := by
  unfold desktopSize
  split
  · next h => rw [h, Option.getD_some]
  · next h =>
    rw [h, Option.getD_none]
    split
    · rfl
    · next hupright => rw [orientedPhysical, if_neg hupright]

theorem orientedPhysical_small (hd : ProperDisplay d) :
    (0 < (orientedPhysical d).1.toInt ∧ Small (orientedPhysical d).1.toInt) ∧
      0 < (orientedPhysical d).2.toInt ∧ Small (orientedPhysical d).2.toInt := by
  unfold orientedPhysical
  split
  · exact ⟨hd.height, hd.width⟩
  · exact ⟨hd.width, hd.height⟩

theorem desktopSize_small (hd : ProperDisplay d) :
    (0 < (desktopSize d).1.toInt ∧ Small (desktopSize d).1.toInt) ∧
      0 < (desktopSize d).2.toInt ∧ Small (desktopSize d).2.toInt := by
  rw [desktopSize_eq]
  cases h : d.logicalSize with
  | none => exact orientedPhysical_small hd
  | some size => exact hd.logicalSize size h

/-- The rectangle of a display among several. -/
def rectOf (d : WaylandDisplayInfo) : DisplayRect :=
  ⟨d.name, d.x, d.y, (desktopSize d).1, (desktopSize d).2, d.transform⟩

theorem isDesktop_singleton (r : DisplayRect) :
    IsDesktop [r] (r.x.toInt, r.x.toInt + r.w.toInt, r.y.toInt, r.y.toInt + r.h.toInt) := by
  have hset : ∀ f : DisplayRect → ℤ, {z | ∃ q ∈ [r], z = f q} = {f r} := fun f => by
    ext z
    simp
  exact ⟨hset (fun q => q.x.toInt) ▸ isLeast_singleton,
    hset (fun q => q.x.toInt + q.w.toInt) ▸ isGreatest_singleton,
    hset (fun q => q.y.toInt) ▸ isLeast_singleton,
      hset (fun q => q.y.toInt + q.h.toInt) ▸ isGreatest_singleton⟩

/-- The rectangle with one more display. -/
theorem IsDesktop.append {minX maxX minY maxY : ℤ} (h : IsDesktop rects (minX, maxX, minY, maxY))
    (r : DisplayRect) :
    IsDesktop (rects ++ [r]) (min minX r.x.toInt, max maxX (r.x.toInt + r.w.toInt),
      min minY r.y.toInt, max maxY (r.y.toInt + r.h.toInt)) := by
  have hset : ∀ f : DisplayRect → ℤ, {z | ∃ q ∈ rects ++ [r], z = f q} = {z | ∃ q ∈ rects, z = f q}
    ∪ {z | ∃ q ∈ [r], z = f q} :=
    fun f => by
      ext z
      simp [or_and_right, exists_or, or_comm]
  have hr := isDesktop_singleton r
  constructor
  · rw [hset fun q => q.x.toInt]
    exact h.minX.union hr.minX
  · rw [hset fun q => q.x.toInt + q.w.toInt]
    exact h.maxX.union hr.maxX
  · rw [hset fun q => q.y.toInt]
    exact h.minY.union hr.minY
  · rw [hset fun q => q.y.toInt + q.h.toInt]
    exact h.maxY.union hr.maxY

/-- What the loop of `desktop_rect_of` has after some displays. -/
def DesktopSoFar (done : List WaylandDisplayInfo) (rect : DesktopRect) : Prop :=
  done = [] ∧ rect = (2147483647, -2147483648, 2147483647, -2147483648) ∨
    IsDesktop (done.map rectOf) rect

theorem growDesktop_returns {done : List WaylandDisplayInfo} {rect : DesktopRect}
    (h : DesktopSoFar done rect) (hd : ProperDisplay d) :
    Returns (growDesktop rect d) (DesktopSoFar (done ++ [d])) := by
  obtain ⟨minX, maxX, minY, maxY⟩ := rect
  obtain ⟨⟨hw, hw'⟩, hh, hh'⟩ := desktopSize_small hd
  have hx := hd.x
  have hy := hd.y
  unfold Small at hw' hh' hx hy
  unfold growDesktop
  dsimp only
  rw [i32_eq (by omega), i32_eq (by omega)]
  refine returns_pure (.inr ?_)
  rw [List.map_append, List.map_singleton]
  rcases h with ⟨rfl, hrect⟩ | h
  · cases hrect
    have hone := isDesktop_singleton (rectOf d)
    rw [min_eq_right (by omega), max_eq_right (by omega), min_eq_right (by omega),
      max_eq_right (by omega)]
    exact hone
  · exact h.append (rectOf d)

/-- **The desktop** is the smallest rectangle around the rectangles of the displays. -/
theorem desktopRectOf_eq {displays : List WaylandDisplayInfo} (hd : ∀ d ∈ displays, ProperDisplay d)
    (hne : displays ≠ []) : ∃ rect, desktopRectOf displays = some (some rect) ∧
      IsDesktop (logicalRectsOf displays) rect := by
  match displays, hne with
  | [d], _ =>
    have hd := hd d (List.mem_singleton_self d)
    obtain ⟨⟨hw, hw'⟩, hh, hh'⟩ := orientedPhysical_small hd
    have hx := hd.x
    have hy := hd.y
    unfold Small at hw' hh' hx hy
    refine ⟨_, ?_, isDesktop_singleton ⟨d.name, d.x, d.y, (orientedPhysical d).1,
      (orientedPhysical d).2, d.transform⟩⟩
    unfold desktopRectOf
    dsimp only
    rw [i32_eq (by omega), i32_eq (by omega)]
    rfl
  | d₁ :: d₂ :: ds, _ =>
    obtain ⟨rect, hrect, hdesktop⟩ :=
      Mirror.returns_foldlM_done (I := DesktopSoFar) (f := growDesktop) (l := d₁ :: d₂ :: ds)
      (b := (2147483647, -2147483648, 2147483647, -2147483648)) (.inl ⟨rfl, rfl⟩)
      fun done d rest rect heq hdone => growDesktop_returns hdone (hd d (by rw [heq]; simp))
    have hrects : logicalRectsOf (d₁ :: d₂ :: ds) = (d₁ :: d₂ :: ds).map rectOf := by
      have hlen : ¬ (d₁ :: d₂ :: ds).length = 1 := by simp
      unfold logicalRectsOf
      refine List.map_congr_left fun d _ => ?_
      dsimp only
      rw [if_neg hlen, rectOf, desktopSize_eq]
    refine ⟨rect, ?_, hrects ▸ hdesktop.resolve_left fun h => by cases h.1⟩
    unfold desktopRectOf
    dsimp only
    rw [hrect]
    rfl

/-! ## The device's range and the points in it -/

/-- The point is in the desktop. -/
def InDesktop (rect : DesktopRect) (x y : ℤ) : Prop :=
  (rect.1 ≤ x ∧ x < rect.2.1) ∧ rect.2.2.1 ≤ y ∧ y < rect.2.2.2

theorem IsDesktop.mem {rect : DesktopRect} (h : IsDesktop rects rect) {r : DisplayRect}
    (hr : r ∈ rects) {x y : ℤ} (hin : Within r x y) : InDesktop rect x y := by
  obtain ⟨⟨hx, hx'⟩, hy, hy'⟩ := hin
  have hleft := h.minX.2 ⟨r, hr, rfl⟩
  have hright := h.maxX.2 ⟨r, hr, rfl⟩
  have htop := h.minY.2 ⟨r, hr, rfl⟩
  have hbottom := h.maxY.2 ⟨r, hr, rfl⟩
  exact ⟨⟨by omega, by omega⟩, by omega, by omega⟩

/-- **The pointer after a change of the layout.** The desktop rectangle of a list of displays is the
smallest one around their logical rectangles. For any two layouts of proper rectangles and any
point, `remap_to_live_layout` returns: a point outside all baseline displays, or of a display
without a live partner, as it is; a point of a display with a partner in the partner's rectangle,
and so in the live desktop, each coordinate by the map of its axis. With names of their own the
displays of one layout leave every point where it is. -/
theorem pointer_remap : (∀ displays : List WaylandDisplayInfo, (∀ d ∈ displays, ProperDisplay d) →
      (displays = [] ∧ desktopRectOf displays = some none ∨
        ∃ rect, desktopRectOf displays = some (some rect) ∧
          IsDesktop (logicalRectsOf displays) rect)) ∧
    (∀ baseline live : List DisplayRect, (∀ r ∈ baseline, Proper r) → (∀ r ∈ live, Proper r) →
      (∀ x y, (∀ r ∈ baseline, ¬ Within r x y) →
        remapToLiveLayout x y baseline live = some (x, y)) ∧
      (∀ x y i b, DisplayOf baseline x y i b → partner baseline live i b = none →
        remapToLiveLayout x y baseline live = some (x, y)) ∧
      ∀ i b l, baseline[i]? = some b → partner baseline live i b = some l → ∃ f g : ℤ → ℤ,
        (∀ x y, DisplayOf baseline x y i b → remapToLiveLayout x y baseline live = some (f x, g y) ∧
          Within l (f x) (g y) ∧ ∀ rect, IsDesktop live rect → InDesktop rect (f x) (g y)) ∧
        (∀ x y, Within b x y → mapAxis x b.x.toInt b.w.toInt l.x.toInt l.w.toInt = some (f x) ∧
          mapAxis y b.y.toInt b.h.toInt l.y.toInt l.h.toInt = some (g y)) ∧
        AxisMap f b.x.toInt b.w.toInt l.x.toInt l.w.toInt ∧
          AxisMap g b.y.toInt b.h.toInt l.y.toInt l.h.toInt) ∧
    ∀ L : List DisplayRect, (∀ r ∈ L, Proper r) → (L.map DisplayRect.name).Nodup →
      (∀ r ∈ L, r.name ≠ "") →
      ∀ x y, remapToLiveLayout x y L L = some (x, y) := by
  refine ⟨fun displays hd => ?_, fun baseline live hbaseline hlive =>
    ⟨fun x y => remap_of_none hbaseline,
    fun x y i b => remap_of_lost hbaseline, fun i b l hb hl => ?_⟩, fun L hL hnames hne x y => ?_⟩
  · rcases eq_or_ne displays [] with rfl | hne
    · exact .inl ⟨rfl, rfl⟩
    · exact .inr (desktopRectOf_eq hd hne)
  · have hbp := hbaseline b (List.mem_of_getElem? hb)
    have hlp := hlive l (mem_of_partner hl)
    have hf : AxisMap (stretch b.x.toInt b.w.toInt l.x.toInt l.w.toInt)
      b.x.toInt b.w.toInt l.x.toInt l.w.toInt :=
      stretch_axisMap hbp.w.1 hlp.w.1
    have hg : AxisMap (stretch b.y.toInt b.h.toInt l.y.toInt l.h.toInt)
      b.y.toInt b.h.toInt l.y.toInt l.h.toInt :=
      stretch_axisMap hbp.h.1 hlp.h.1
    refine ⟨_, _, fun x y hxy => ?_, fun x y hxy => ?_, hf, hg⟩
    · have hin := hxy.2.1
      have hwithin : Within l (stretch b.x.toInt b.w.toInt l.x.toInt l.w.toInt x)
          (stretch b.y.toInt b.h.toInt l.y.toInt l.h.toInt y) :=
        ⟨hf.within x hin.1.1 hin.1.2, hg.within y hin.2.1 hin.2.2⟩
      exact ⟨remap_of_partner hbaseline hlive hxy hl, hwithin,
        fun rect hrect => hrect.mem (mem_of_partner hl) hwithin⟩
    · exact ⟨mapAxis_eq hbp.w hlp.x hlp.w hxy.1, mapAxis_eq hbp.h hlp.y hlp.h hxy.2⟩
  · rcases findDisplay_eq x y L 0 hL with ⟨hnone, -⟩ | ⟨i, b, hb, -⟩
    · exact remap_of_none hL hnone
    · have hbp := hL b (List.mem_of_getElem? hb.1)
      rw [remap_of_partner hL hL hb (partner_self hnames hne hb.1), stretch_self hbp.w.1 hb.2.1.1,
        stretch_self hbp.h.1 hb.2.1.2]

/-- The display on the left was taken away: the other one is now at the origin. -/
theorem pointer_remap_moved : ∃ x y,
    remapToLiveLayout 2000 10 [⟨"DP-1", 0, 0, 1920, 1080, 0⟩, ⟨"DP-2", 1920, 0, 1280, 720, 0⟩]
      [⟨"DP-2", 0, 0, 2560, 1440, 0⟩] = some (x, y) ∧ Within ⟨"DP-2", 0, 0, 2560, 1440, 0⟩ x y := by
  have hproper : ∀ r ∈ [⟨"DP-1", 0, 0, 1920, 1080, 0⟩,
      (⟨"DP-2", 1920, 0, 1280, 720, 0⟩ : DisplayRect)], Proper r := by
    intro r hr
    rcases List.mem_cons.mp hr with rfl | hr
    · exact ⟨by decide, by decide, by decide, by decide⟩
    · obtain rfl := List.mem_singleton.mp hr
      exact ⟨by decide, by decide, by decide, by decide⟩
  have hproper' : ∀ r ∈ [(⟨"DP-2", 0, 0, 2560, 1440, 0⟩ : DisplayRect)], Proper r := by
    intro r hr
    obtain rfl := List.mem_singleton.mp hr
    exact ⟨by decide, by decide, by decide, by decide⟩
  obtain ⟨f, g, hmap, -⟩ := (pointer_remap.2.1 _ _ hproper hproper').2.2 1 _ _ rfl rfl
  have hdisplay := hmap 2000 10 ⟨rfl, by decide, by
    intro j hj r hr
    obtain rfl : j = 0 := by omega
    obtain rfl := Option.some.inj hr
    decide⟩
  exact ⟨f 2000, g 10, hdisplay.1, hdisplay.2.1⟩

end BgDesk.Wayland
