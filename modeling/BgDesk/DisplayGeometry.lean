import Mathlib.Data.List.Nodup
import Mathlib.Data.List.Perm.Basic
import BgDesk.DrmConn
import BgDesk.Matching

/-!
# What is advertised of a DRM display, and what its capturer delivers

The geometry of `drm_capturer.rs`. DRM knows the modes of the connectors and not where the
compositor put them, so they are matched with the outputs of a Wayland snapshot: by name, by a
resolution that leaves no choice, and at last in layout order. The list of displays takes position
and size from this, and so does each capturer, on another path.

* `identityMatches`, `assignWaylandOutputs` — the matching, as three passes;
* `augmentWithWaylandGeometryFrom` — the displays that are advertised;
* `transformAndOrigin`, `IpcDrmCapturer.new`, `getCapturerInfo` — the capturer;
* `geometry_agrees` — both say the same, and the matching is what it is meant to be.
-/

namespace BgDesk

namespace Wayland

/-- An output of the compositor. -/
structure WaylandDisplayInfo where
  name : String
  x : Int32
  y : Int32
  width : Int32
  height : Int32
  logicalSize : Option (Int32 × Int32)
  transform : Int32
  deriving DecidableEq

/-- A Wayland snapshot. -/
structure Displays where
  primary : ℕ
  displays : List WaylandDisplayInfo

end Wayland

namespace Drm

open Wayland (WaylandDisplayInfo)

/-- The factor from logical to physical size: 1, or a quotient that is left as it is. -/
inductive Scale where
  | one : Scale
  | quotient : Int32 → Int32 → Scale
  deriving DecidableEq

/-- A display that is advertised. -/
structure DisplayInfo where
  x : Int32
  y : Int32
  width : Int32
  height : Int32
  name : String
  online : Bool
  cursorEmbedded : Bool
  originalResolution : Int32 × Int32
  scale : Scale
  deriving DecidableEq

/-! ## The matching -/

/-- `HDMI-A-1` is `HDMI-1` for the compositor; a digit in the middle is a port and stays. -/
def normalizeConnector (name : String) : String :=
  match name.toList.splitOn '-' with
  | [kind, [c], index] => if c.isAlpha then String.ofList (kind ++ '-' :: index) else name
  | _ => name

/-- The first free output with the connector's name. -/
def chooseName (wl : List WaylandDisplayInfo) (m : Matching) (_ : ℕ) (d : DrmDisplayInfo) :
    Option ℕ :=
  (wl.zipIdx.find? fun p => !m.taken p.2 && normalizeConnector p.1.name =
    normalizeConnector d.name).map Prod.snd

/-- The free outputs with the connector's resolution. -/
def freeSame (m : Matching) (wl : List WaylandDisplayInfo) (d : DrmDisplayInfo) : List ℕ :=
  (wl.zipIdx.filter fun p =>
    !m.taken p.2 && (p.1.width = d.width.toInt32 && p.1.height = d.height.toInt32)).map Prod.snd

/-- How many unmatched connectors have the connector's resolution. -/
def unmatchedSame (m : Matching) (drm : List DrmDisplayInfo) (d : DrmDisplayInfo) : ℕ :=
  (drm.zipIdx.filter fun p => (m.matched p.2).isNone &&
    (p.1.width = d.width && p.1.height = d.height)).length

/-- The only free output with the connector's resolution, when the connector is the only one it can
be for. -/
def chooseResolution (drm : List DrmDisplayInfo) (wl : List WaylandDisplayInfo) (m : Matching)
    (i : ℕ) (d : DrmDisplayInfo) : Option ℕ :=
  if (m.matched i).isSome then none
  else if (freeSame m wl d).length = 1 ∧ unmatchedSame m drm d =
    1 then (freeSame m wl d)[0]? else none

/-- The first loop of `identity_matches`. -/
def nameMatching (drm : List DrmDisplayInfo) (wl : List WaylandDisplayInfo) : Matching :=
  Matching.pass (chooseName wl) drm .empty

/-- Both loops of `identity_matches`. -/
def identityMatching (drm : List DrmDisplayInfo) (wl : List WaylandDisplayInfo) : Matching :=
  Matching.pass (chooseResolution drm wl) drm (nameMatching drm wl)

/-- The output of each connector of a list. -/
def vector (n : ℕ) (m : Matching) : List (Option ℕ) := (List.range n).map m.matched

/-- `identity_matches`. -/
def identityMatches (drm : List DrmDisplayInfo) (wl : List WaylandDisplayInfo) : List (Option ℕ) :=
  vector drm.length (identityMatching drm wl)

/-- Where `assign_wayland_outputs` starts: what is matched by identity is taken. -/
def reserved (matched : List (Option ℕ)) : Matching :=
  ⟨fun i => matched[i]?.join, fun j => matched.contains (some j)⟩

/-- The first free output with the connector's resolution, or else the first free one. -/
def chooseLayout (wl : List WaylandDisplayInfo) (m : Matching) (i : ℕ) (d : DrmDisplayInfo) :
    Option ℕ :=
  if (m.matched i).isSome then none
  else (freeSame m wl d)[0]?.or ((List.range wl.length).find? fun j => !m.taken j)

/-- The loop of `assign_wayland_outputs`. -/
def layoutMatching (drm : List DrmDisplayInfo) (wl : List WaylandDisplayInfo) : Matching :=
  Matching.pass (chooseLayout wl) drm (reserved (identityMatches drm wl))

/-- `assign_wayland_outputs`. -/
def assignWaylandOutputs (drm : List DrmDisplayInfo) (wl : List WaylandDisplayInfo) :
    List (Option ℕ) :=
  vector drm.length (layoutMatching drm wl)

/-! ## What is advertised -/

/-- `usize as i32`. -/
def asI32 (n : UInt64) : Int32 := n.toUInt32.toInt32

/-- `i32 as usize`. -/
def asUsize (n : Int32) : UInt64 := n.toInt64.toUInt64

/-- The transform the delivered frames are turned by; a plane may have done it already. -/
def deliveredTransform (d : DrmDisplayInfo) (wlTransform : Int32) : Int32 :=
  if d.planeTransposed then 90 else wlTransform

/-- The size of a frame that is turned. -/
def rotatedDims (transform : Int32) (w h : UInt64) : UInt64 × UInt64 :=
  if transform = 90 ∨ transform = 270 then (h, w) else (w, h)

section Advertised

/- The resolutions displays had before they were changed (`CHANGED_RESOLUTIONS`). -/
variable (changed : String → Option (Int32 × Int32))

/-- `get_original_resolution`. -/
def getOriginalResolution (displayName : String) (w h : UInt64) : Int32 × Int32 :=
  (changed displayName).getD (asI32 w, asI32 h)

/-- `display_info_from_drm`. -/
def displayInfoFromDrm (d : DrmDisplayInfo) : DisplayInfo :=
  let size := rotatedDims (deliveredTransform d 0) d.width.toUInt64 d.height.toUInt64
  { x := d.x, y := d.y, width := asI32 size.1, height := asI32 size.2, name := d.name,
    online := d.active,
    cursorEmbedded := false, originalResolution :=
      getOriginalResolution changed d.name size.1 size.2, scale := .one }

/-- The size of a display whose output is rotated, unless its plane has been. -/
def DisplayInfo.swapped (info : DisplayInfo) : DisplayInfo :=
  { info with
    width := info.height, height := info.width
    originalResolution := getOriginalResolution changed info.name (asUsize info.height)
      (asUsize info.width) }

/-- One turn of the loop of `augment_with_wayland_geometry_from`, with the output the connector is
matched with. -/
def augment (originOnly isIdentity : Bool) (d : DrmDisplayInfo) (w : WaylandDisplayInfo) :
    DisplayInfo :=
  let moved := { displayInfoFromDrm changed d with x := w.x, y := w.y }
  let info := if isIdentity ∧ ¬d.planeTransposed ∧
    (w.transform = 90 ∨ w.transform = 270) then moved.swapped changed else moved
  if originOnly then info
  else match w.logicalSize with
    | some (lw, lh) =>
      if 0 < lw ∧ 0 < lh then
        { info with
          scale := .quotient info.width lw
          originalResolution := getOriginalResolution changed d.name (asUsize lw) (asUsize lh) }
      else info
    | none => info

/-- `augment_with_wayland_geometry_from`. -/
def augmentWithWaylandGeometryFrom (drm : List DrmDisplayInfo) (wl : Wayland.Displays)
    (matched : List (Option ℕ)) : List DisplayInfo :=
  if drm = [] then drm.map (displayInfoFromDrm changed)
  else if wl.displays = [] then drm.map (displayInfoFromDrm changed)
  else if wl.displays.length = 1 ∧ 1 < drm.length then drm.map (displayInfoFromDrm changed)
  else
    let identity := identityMatches drm wl.displays
    drm.mapIdx fun i d =>
      match matched[i]?.join.bind fun j => wl.displays[j]? with
      | none => displayInfoFromDrm changed d
      | some w =>
        augment changed (wl.displays.length = 1)
          (identity[i]?.join.isSome && identity[i]? = matched[i]?) d w

/-! ## The capturer -/

/-- `transform_and_origin`, and whether it sets `UNROTATED_SNAPSHOT_PENDING`. -/
def transformAndOrigin (drm : List DrmDisplayInfo) (wireIdx : ℕ) (wl : Wayland.Displays) :
    Int32 × Option (Int32 × Int32) × Bool :=
  if wl.displays = [] ∨ wl.displays.length = 1 ∧
    1 < drm.length then (0, none, wl.displays = [] ∧ drm ≠ [])
  else
    let assignment := assignWaylandOutputs drm wl.displays
    let output := (identityMatches drm wl.displays)[wireIdx]?.join.bind fun j => wl.displays[j]?
    let transform := (output.map WaylandDisplayInfo.transform).getD 0
    let origin := (augmentWithWaylandGeometryFrom changed drm wl assignment)[wireIdx]?.map fun di =>
      (di.x, di.y)
    (transform, origin, false)

/-- What `IpcDrmCapturer` keeps of its display. -/
structure IpcDrmCapturer where
  sessionSize : Option (UInt64 × UInt64)
  transform : Int32
  deriving DecidableEq

/-- `IpcDrmCapturer::new`, from the list of the handshake on, with the origin it returns. -/
def IpcDrmCapturer.new (displays : List DrmDisplayInfo) (wireIdx : ℕ) (wl : Wayland.Displays) :
    IpcDrmCapturer × Option (Int32 × Int32) :=
  let (wlTransform, origin, _) := transformAndOrigin changed displays wireIdx wl
  let sessionSize := displays[wireIdx]?.map fun d =>
    rotatedDims (deliveredTransform d wlTransform) d.width.toUInt64 d.height.toUInt64
  (⟨sessionSize, wlTransform⟩, origin)

/-- The geometry in `CapturerInfo`. -/
structure CapturerInfo where
  origin : Int32 × Int32
  width : UInt64
  height : UInt64
  ndisplay : ℕ
  deriving DecidableEq

/-- `get_capturer_info`, for a display whose health allows it. -/
def getCapturerInfo (displays : List DrmDisplayInfo) (wireIdx : ℕ) (wl : Wayland.Displays) :
    Option CapturerInfo :=
  let (capturer, origin) := IpcDrmCapturer.new changed displays wireIdx wl
  displays[wireIdx]?.map fun d =>
    let size := rotatedDims (deliveredTransform d capturer.transform)
      d.width.toUInt64 d.height.toUInt64
    ⟨origin.getD (d.x, d.y), size.1, size.2, displays.length⟩

end Advertised

/-! ## The names -/

variable {wl wl' : List WaylandDisplayInfo} {m : Matching} {i j k : ℕ} {d : DrmDisplayInfo}
  {w : WaylandDisplayInfo} {drm drm' : List DrmDisplayInfo}

/-- A connector is given an output that is free and has its name. -/
theorem chooseName_some (h : chooseName wl m i d = some j) :
    m.taken j = false ∧ ∃ w, wl[j]? = some w ∧
      normalizeConnector w.name = normalizeConnector d.name := by
  obtain ⟨⟨w, j'⟩, hfind, rfl⟩ := Option.map_eq_some_iff.mp h
  have hmem := List.mem_zipIdx_iff_getElem?.mp (List.mem_of_find?_eq_some hfind)
  have hsome := List.find?_some hfind
  simp only [Bool.and_eq_true, Bool.not_eq_true', decide_eq_true_eq] at hsome
  exact ⟨hsome.1, w, hmem, hsome.2⟩

/-- And none only if all of its name are taken. -/
theorem chooseName_none (h : chooseName wl m i d = none) (hj : wl[j]? = some w)
    (hname : normalizeConnector w.name = normalizeConnector d.name) : m.taken j = true := by
  have hfind := List.find?_eq_none.mp (Option.map_eq_none_iff.mp h) (w, j)
    (List.mem_zipIdx_iff_getElem?.mpr hj)
  simpa [hname] using hfind

/-- The first loop, when the connectors before `k` have had their turn. -/
structure Named (drm : List DrmDisplayInfo) (wl : List WaylandDisplayInfo) (k : ℕ) (m : Matching) :
  Prop where
  valid : m.Valid
  later : ∀ i, k ≤ i → m.matched i = none
  name : ∀ i j, m.matched i = some j →
    ∃ d w, drm[i]? = some d ∧ wl[j]? = some w ∧
      normalizeConnector w.name = normalizeConnector d.name
  complete : ∀ i d, i < k → drm[i]? = some d → m.matched i = none →
    ∀ j w, wl[j]? = some w → normalizeConnector w.name = normalizeConnector d.name →
      ∃ i' < i, m.matched i' = some j

/-- One more connector has had its turn. -/
theorem Named.turn (hd : drm[k]? = some d) (hm : Named drm wl k m) :
    Named drm wl (k + 1) (.turn (chooseName wl) m k d) := by
  obtain ⟨hnone, hturn⟩ | ⟨j, hsome, hturn⟩ := Matching.turn_cases (chooseName wl) m k d
  · rw [hturn]
    refine ⟨hm.valid, fun i hi => hm.later i (by omega), hm.name,
      fun i e hi he hnot j w hj hname => ?_⟩
    by_cases hlt : i < k
    · exact hm.complete i e hlt he hnot j w hj hname
    -- the connector itself: every output with its name has been taken before
    obtain rfl : i = k := by omega
    rw [hd] at he
    cases he
    obtain ⟨i', hi'⟩ := (hm.valid.taken_iff j).mp (chooseName_none hnone hj hname)
    have hlt' : i' < i := by
      by_contra hge
      rw [hm.later i' (by omega)] at hi'
      cases hi'
    exact ⟨i', hlt', hi'⟩
  · rw [hturn]
    obtain ⟨hfree, w, hw, hname⟩ := chooseName_some hsome
    have hkeep : ∀ i, i ≠ k → (m.pair k j).matched i = m.matched i := fun i hi =>
      Matching.pair_matched_ne hi
    refine ⟨hm.valid.pair (hm.later k (le_refl k)) hfree, fun i hi => ?_, fun i j' hi => ?_,
      fun i e hi he hnot j' w' hj' hname' => ?_⟩
    · rw [hkeep i (by omega)]
      exact hm.later i (by omega)
    · by_cases hik : i = k
      · subst hik
        rw [Matching.pair_matched_self] at hi
        cases hi
        exact ⟨d, w, hd, hw, hname⟩
      · rw [hkeep i hik] at hi
        exact hm.name i j' hi
    · have hik : i ≠ k := by
        rintro rfl
        rw [Matching.pair_matched_self] at hnot
        cases hnot
      rw [hkeep i hik] at hnot
      obtain ⟨i', hlt', hi'⟩ := hm.complete i e (by omega) he hnot j' w' hj' hname'
      exact ⟨i', hlt', by rw [hkeep i' (by omega), hi']⟩

theorem nameMatching_named (drm : List DrmDisplayInfo) (wl : List WaylandDisplayInfo) :
    Named drm wl drm.length (nameMatching drm wl) :=
  Matching.pass_induction (fun _ _ _ hd hm => hm.turn hd)
    ⟨Matching.valid_empty, fun _ _ => rfl, nofun, fun _ _ hi => absurd hi (Nat.not_lt_zero _)⟩

/-! ## The resolutions -/

/-- Two connectors have one resolution. -/
def SameMode (d e : DrmDisplayInfo) : Prop := d.width = e.width ∧ d.height = e.height

/-- An output has the resolution of a connector. -/
def HasMode (w : WaylandDisplayInfo) (d : DrmDisplayInfo) : Prop :=
  w.width = d.width.toInt32 ∧ w.height = d.height.toInt32

/-- Connectors that one output has the resolution of have the same. -/
theorem HasMode.sameMode {e : DrmDisplayInfo} (hd : HasMode w d) (he : HasMode w e) :
    SameMode d e :=
  ⟨by simpa using congrArg Int32.toUInt32 (hd.1.symm.trans he.1), by
    simpa using congrArg Int32.toUInt32 (hd.2.symm.trans he.2)⟩

theorem mem_freeSame :
    j ∈ freeSame m wl d ↔ m.taken j = false ∧ ∃ w, wl[j]? = some w ∧ HasMode w d := by
  rw [freeSame, List.mem_map]
  constructor
  · rintro ⟨⟨w, j'⟩, hmem, rfl⟩
    obtain ⟨hw, hp⟩ := List.mem_filter.mp hmem
    simp only [Bool.and_eq_true, Bool.not_eq_true', decide_eq_true_eq] at hp
    exact ⟨hp.1, w, List.mem_zipIdx_iff_getElem?.mp hw, hp.2⟩
  · rintro ⟨hfree, w, hw, hmode⟩
    refine ⟨(w, j), List.mem_filter.mpr ⟨List.mem_zipIdx_iff_getElem?.mpr hw, ?_⟩, rfl⟩
    simpa [hfree, HasMode] using hmode

/-- The only unmatched connector with its resolution. -/
theorem eq_of_unmatchedSame {e : DrmDisplayInfo} (hone : unmatchedSame m drm d = 1)
    (hd : drm[i]? = some d) (hi : m.matched i = none) (he : drm[k]? = some e)
    (hk : m.matched k = none) (hmode : SameMode e d) : i = k := by
  obtain ⟨p, hp⟩ := List.length_eq_one_iff.mp hone
  have hmem : ∀ k e, drm[k]? = some e → m.matched k = none → SameMode e d → (e, k) = p := by
    intro k e he hk hmode
    rw [← List.mem_singleton, ← hp]
    refine List.mem_filter.mpr ⟨List.mem_zipIdx_iff_getElem?.mpr he, ?_⟩
    simpa [hk, SameMode] using hmode
  have heq := (hmem i d hd hi ⟨rfl, rfl⟩).trans (hmem k e he hk hmode).symm
  exact congrArg Prod.snd heq

/-- A match by resolution leaves no choice: of those the names have left over, one output and one
connector have it. -/
def Forced (drm : List DrmDisplayInfo) (wl : List WaylandDisplayInfo) (m : Matching) (i j : ℕ) :
    Prop :=
  m.matched i = none ∧ ∃ d, drm[i]? = some d ∧ freeSame m wl d = [j] ∧ unmatchedSame m drm d = 1

/-- The second loop, when the connectors before `k` have had their turn. -/
structure Resolved (drm : List DrmDisplayInfo) (wl : List WaylandDisplayInfo) (k : ℕ)
  (m : Matching) : Prop where
  valid : m.Valid
  named : ∀ i j, (nameMatching drm wl).matched i = some j → m.matched i = some j
  forced : ∀ i j, m.matched i = some j →
    (nameMatching drm wl).matched i = some j ∨ i < k ∧ Forced drm wl (nameMatching drm wl) i j
  complete : ∀ i j, i < k → Forced drm wl (nameMatching drm wl) i j → m.matched i = some j

/-- Earlier turns do not touch the resolution of a connector that is still unmatched. -/
theorem Resolved.untouched (hm : Resolved drm wl k m) (hd : drm[k]? = some d)
    (hk : (nameMatching drm wl).matched k = none) (hi : m.matched i = some j)
    (hnot : (nameMatching drm wl).matched i ≠ some j)
    (hmode : (∃ e, drm[i]? = some e ∧ SameMode e d) ∨ ∃ w, wl[j]? = some w ∧ HasMode w d) :
    False := by
  obtain hname | ⟨hlt, hnone, e, he, hfree, hone⟩ := hm.forced i j hi
  · exact hnot hname
  have hsame : SameMode e d := by
    obtain ⟨e', he', hsame⟩ | ⟨w, hw, hw'⟩ := hmode
    · rw [he] at he'
      cases he'
      exact hsame
    · obtain ⟨-, w', hw'', hmode'⟩ := mem_freeSame.mp (hfree ▸ List.mem_singleton_self j)
      rw [hw] at hw''
      cases hw''
      exact hmode'.sameMode hw'
  have heq := eq_of_unmatchedSame hone he hnone hd hk ⟨hsame.1.symm, hsame.2.symm⟩
  omega

/-- The turns before have left alone which outputs are free for a connector without a name. -/
theorem Resolved.freeSame_eq (hm : Resolved drm wl k m) (hd : drm[k]? = some d)
    (hk : (nameMatching drm wl).matched k = none) :
    freeSame m wl d = freeSame (nameMatching drm wl) wl d := by
  have hnamed := (nameMatching_named drm wl).valid
  refine congrArg (List.map Prod.snd) (List.filter_congr fun ⟨w, j⟩ hmem => ?_)
  have hw := List.mem_zipIdx_iff_getElem?.mp hmem
  by_cases hmode : HasMode w d
  · have htaken : m.taken j = (nameMatching drm wl).taken j := by
      rw [Bool.eq_iff_iff, hm.valid.taken_iff, hnamed.taken_iff]
      constructor
      · rintro ⟨i, hi⟩
        by_contra hnot
        exact hm.untouched hd hk hi (fun h => hnot ⟨i, h⟩) (.inr ⟨w, hw, hmode⟩)
      · rintro ⟨i, hi⟩
        exact ⟨i, hm.named i j hi⟩
    simp only [htaken]
  · have hfalse : (decide (w.width = d.width.toInt32) && decide (w.height = d.height.toInt32)) =
        false := by
      simpa [HasMode] using hmode
    simp only [hfalse, Bool.and_false]

/-- And how many connectors compete for them. -/
theorem Resolved.unmatchedSame_eq (hm : Resolved drm wl k m) (hd : drm[k]? = some d)
    (hk : (nameMatching drm wl).matched k = none) :
    unmatchedSame m drm d = unmatchedSame (nameMatching drm wl) drm d := by
  refine congrArg List.length (List.filter_congr fun ⟨e, i⟩ hmem => ?_)
  have he := List.mem_zipIdx_iff_getElem?.mp hmem
  by_cases hmode : SameMode e d
  · have hmatched : m.matched i = (nameMatching drm wl).matched i := by
      cases hi : m.matched i with
      | none =>
        cases hi' : (nameMatching drm wl).matched i with
        | none => rfl
        | some j =>
          rw [hm.named i j hi'] at hi
          cases hi
      | some j =>
        by_contra hnot
        exact hm.untouched hd hk hi (Ne.symm hnot) (.inl ⟨e, he, hmode⟩)
    simp only [hmatched]
  · have hfalse : (decide (e.width = d.width) && decide (e.height = d.height)) = false := by
      simpa [SameMode] using hmode
    simp only [hfalse, Bool.and_false]

/-- So a turn chooses what the names alone would force. -/
theorem Resolved.choose (hm : Resolved drm wl k m) (hd : drm[k]? = some d) (j : ℕ) :
    chooseResolution drm wl m k d = some j ↔ Forced drm wl (nameMatching drm wl) k j := by
  rw [chooseResolution]
  cases hk : (nameMatching drm wl).matched k with
  | some j' =>
    rw [hm.named k j' hk]
    refine ⟨nofun, fun hforced => ?_⟩
    rw [hforced.1] at hk
    cases hk
  | none =>
    have hmk : m.matched k = none := by
      cases hmk : m.matched k with
      | none => rfl
      | some j' =>
        obtain h | ⟨h, -⟩ := hm.forced k j' hmk
        · rw [hk] at h
          cases h
        · omega
    rw [hmk, Option.isSome_none, if_neg Bool.false_ne_true, hm.freeSame_eq hd hk,
      hm.unmatchedSame_eq hd hk]
    constructor
    · intro h
      split at h
      case isTrue hone =>
        obtain ⟨j', hj'⟩ := List.length_eq_one_iff.mp hone.1
        rw [hj'] at h
        cases h
        exact ⟨hk, d, hd, hj', hone.2⟩
      case isFalse => cases h
    · rintro ⟨-, e, he, hfree, hone⟩
      rw [hd] at he
      cases he
      rw [hfree, hone, if_pos ⟨rfl, rfl⟩]
      rfl

theorem Resolved.turn (hd : drm[k]? = some d) (hm : Resolved drm wl k m) :
    Resolved drm wl (k + 1) (.turn (chooseResolution drm wl) m k d) := by
  obtain ⟨hnone, hturn⟩ | ⟨j, hsome, hturn⟩ := Matching.turn_cases (chooseResolution drm wl) m k d
  · rw [hturn]
    refine ⟨hm.valid, hm.named, fun i j hi => (hm.forced i j hi).imp_right fun h => ⟨by omega, h.2⟩,
      fun i j hi hforced => ?_⟩
    by_cases hik : i = k
    · subst hik
      rw [(hm.choose hd j).mpr hforced] at hnone
      cases hnone
    · exact hm.complete i j (by omega) hforced
  · rw [hturn]
    have hforced := (hm.choose hd j).mp hsome
    obtain ⟨hnone, e, he, hfree, hone⟩ := id hforced
    rw [hd] at he
    cases he
    have hmk : m.matched k = none := by
      cases hmk : m.matched k with
      | none => rfl
      | some j' =>
        rw [chooseResolution, hmk] at hsome
        cases hsome
    have hj : m.taken j = false := by
      have hmem : j ∈ freeSame m wl d := by
        rw [hm.freeSame_eq hd hnone, hfree]
        exact List.mem_singleton_self j
      exact (mem_freeSame.mp hmem).1
    have hkeep : ∀ i, i ≠ k → (m.pair k j).matched i = m.matched i := fun i hi =>
      Matching.pair_matched_ne hi
    refine ⟨hm.valid.pair hmk hj, fun i j' hi => ?_, fun i j' hi => ?_, fun i j' hi hforced' => ?_⟩
    · have hik : i ≠ k := by
        rintro rfl
        rw [hnone] at hi
        cases hi
      rw [hkeep i hik]
      exact hm.named i j' hi
    · by_cases hik : i = k
      · subst hik
        rw [Matching.pair_matched_self] at hi
        cases hi
        exact .inr ⟨by omega, hforced⟩
      · rw [hkeep i hik] at hi
        exact (hm.forced i j' hi).imp_right fun h => ⟨by omega, h.2⟩
    · by_cases hik : i = k
      · subst hik
        rw [(hm.choose hd j').mpr hforced'] at hsome
        cases hsome
        exact Matching.pair_matched_self m i _
      · rw [hkeep i hik]
        exact hm.complete i j' (by omega) hforced'

/-- The matching after all turns. -/
theorem identityMatching_resolved (drm : List DrmDisplayInfo) (wl : List WaylandDisplayInfo) :
    Resolved drm wl drm.length (identityMatching drm wl) :=
  Matching.pass_induction (fun _ _ _ hd hm => hm.turn hd)
    ⟨(nameMatching_named drm wl).valid, fun _ _ hi => hi, fun _ _ hi => .inl hi,
      fun _ _ hi => absurd hi (Nat.not_lt_zero _)⟩

/-- An identity is a match by name, or one by resolution that leaves no choice. -/
theorem identityMatching_iff (drm : List DrmDisplayInfo) (wl : List WaylandDisplayInfo) (i j : ℕ) :
    (identityMatching drm wl).matched i = some j ↔
      (nameMatching drm wl).matched i = some j ∨ Forced drm wl (nameMatching drm wl) i j := by
  have hresolved := identityMatching_resolved drm wl
  constructor
  · exact fun h => (hresolved.forced i j h).imp_right And.right
  · rintro (h | h)
    · exact hresolved.named i j h
    · obtain ⟨-, d, hd, -⟩ := id h
      exact hresolved.complete i j (List.getElem?_eq_some_iff.mp hd).1 h

/-! ## The layout order -/

theorem nameMatching_range (h : (nameMatching drm wl).matched i = some j) :
    i < drm.length ∧ j < wl.length := by
  obtain ⟨d, w, hd, hw, -⟩ := (nameMatching_named drm wl).name i j h
  exact ⟨(List.getElem?_eq_some_iff.mp hd).1, (List.getElem?_eq_some_iff.mp hw).1⟩

theorem identityMatching_range (h : (identityMatching drm wl).matched i = some j) :
    i < drm.length ∧ j < wl.length := by
  obtain h | ⟨-, d, hd, hfree, -⟩ := (identityMatching_iff drm wl i j).mp h
  · exact nameMatching_range h
  · obtain ⟨-, w, hw, -⟩ := mem_freeSame.mp (hfree ▸ List.mem_singleton_self j)
    exact ⟨(List.getElem?_eq_some_iff.mp hd).1, (List.getElem?_eq_some_iff.mp hw).1⟩

theorem vector_getElem? (n : ℕ) (m : Matching) (i : ℕ) :
    (vector n m)[i]? = if i < n then some (m.matched i) else none := by
  rw [vector, List.getElem?_map]
  by_cases hi : i < n
  · rw [List.getElem?_range hi, if_pos hi]
    rfl
  · rw [List.getElem?_eq_none (by rw [List.length_range]; omega), if_neg hi]
    rfl

/-- What a vector says of its entries. -/
theorem vector_join {n : ℕ} (hrange : ∀ i j, m.matched i = some j → i < n) (i : ℕ) :
    (vector n m)[i]?.join = m.matched i := by
  rw [vector_getElem?]
  split
  case isTrue => rfl
  case isFalse hi =>
    cases hmatched : m.matched i with
    | none => rfl
    | some j => exact absurd (hrange i j hmatched) hi

theorem identityMatches_join (drm : List DrmDisplayInfo) (wl : List WaylandDisplayInfo) (i : ℕ) :
    (identityMatches drm wl)[i]?.join = (identityMatching drm wl).matched i :=
  vector_join (fun _ _ h => (identityMatching_range h).1) i

/-- What the identities reserve is a matching. -/
theorem reserved_valid (drm : List DrmDisplayInfo) (wl : List WaylandDisplayInfo) :
    (reserved (identityMatches drm wl)).Valid where
  taken_iff j := by
    simp only [reserved, identityMatches_join, List.contains_iff_mem]
    rw [identityMatches, vector, List.mem_map]
    exact ⟨fun ⟨i, _, hi⟩ => ⟨i, hi⟩, fun ⟨i, hi⟩ =>
      ⟨i, List.mem_range.mpr (identityMatching_range hi).1, hi⟩⟩
  injective i i' j hi hi' := by
    simp only [reserved, identityMatches_join] at hi hi'
    exact (identityMatching_resolved drm wl).valid.injective i i' j hi hi'

/-- The loop of `assign_wayland_outputs`, when the connectors before `k` have had their turn. -/
structure Assigned (drm : List DrmDisplayInfo) (wl : List WaylandDisplayInfo) (k : ℕ)
  (m : Matching) : Prop where
  valid : m.Valid
  identity : ∀ i j, (identityMatching drm wl).matched i = some j → m.matched i = some j
  range : ∀ i j, m.matched i = some j → i < drm.length ∧ j < wl.length
  full : ∀ i < k, m.matched i = none → ∀ j < wl.length, m.taken j = true

theorem chooseLayout_some (h : chooseLayout wl m i d = some j) :
    m.matched i = none ∧ m.taken j = false ∧ j < wl.length := by
  rw [chooseLayout] at h
  split at h
  case isTrue => cases h
  case isFalse hi =>
    rw [Bool.not_eq_true, Option.isSome_eq_false_iff, Option.isNone_iff_eq_none] at hi
    refine ⟨hi, ?_⟩
    obtain h | ⟨-, h⟩ := Option.or_eq_some_iff.mp h
    · obtain ⟨hfree, w, hw, -⟩ := mem_freeSame.mp (List.mem_of_getElem? h)
      exact ⟨hfree, (List.getElem?_eq_some_iff.mp hw).1⟩
    · have hfree := List.find?_some h
      rw [Bool.not_eq_true'] at hfree
      exact ⟨hfree, List.mem_range.mp (List.mem_of_find?_eq_some h)⟩

theorem chooseLayout_none (h : chooseLayout wl m i d = none) (hi : m.matched i = none)
    (hj : j < wl.length) : m.taken j = true := by
  rw [chooseLayout, hi, Option.isSome_none, if_neg Bool.false_ne_true] at h
  have hfind := List.find?_eq_none.mp (Option.or_eq_none_iff.mp h).2 j (List.mem_range.mpr hj)
  simpa using hfind

/-- One more connector is given an output, if one is left. -/
theorem Assigned.turn (hd : drm[k]? = some d) (hm : Assigned drm wl k m) :
    Assigned drm wl (k + 1) (.turn (chooseLayout wl) m k d) := by
  obtain ⟨hnone, hturn⟩ | ⟨j, hsome, hturn⟩ := Matching.turn_cases (chooseLayout wl) m k d
  · rw [hturn]
    refine ⟨hm.valid, hm.identity, hm.range, fun i hi hnot j hj => ?_⟩
    by_cases hik : i = k
    · subst hik
      exact chooseLayout_none hnone hnot hj
    · exact hm.full i (by omega) hnot j hj
  · rw [hturn]
    obtain ⟨hmk, hfree, hj⟩ := chooseLayout_some hsome
    have hkeep : ∀ i, i ≠ k → (m.pair k j).matched i = m.matched i := fun i hi =>
      Matching.pair_matched_ne hi
    refine ⟨hm.valid.pair hmk hfree, fun i j' hi => ?_, fun i j' hi => ?_,
      fun i hi hnot j' hj' => ?_⟩
    · have hik : i ≠ k := by
        rintro rfl
        rw [hm.identity i j' hi] at hmk
        cases hmk
      rw [hkeep i hik]
      exact hm.identity i j' hi
    · by_cases hik : i = k
      · subst hik
        rw [Matching.pair_matched_self] at hi
        cases hi
        exact ⟨(List.getElem?_eq_some_iff.mp hd).1, hj⟩
      · rw [hkeep i hik] at hi
        exact hm.range i j' hi
    · have hik : i ≠ k := by
        rintro rfl
        rw [Matching.pair_matched_self] at hnot
        cases hnot
      rw [hkeep i hik] at hnot
      by_cases hjj : j' = j
      · rw [hjj, Matching.pair_taken_self]
      · rw [Matching.pair_taken_ne hjj]
        exact hm.full i (by omega) hnot j' hj'

theorem layoutMatching_assigned (drm : List DrmDisplayInfo) (wl : List WaylandDisplayInfo) :
    Assigned drm wl drm.length (layoutMatching drm wl) :=
  Matching.pass_induction (fun _ _ _ hd hm => hm.turn hd)
    ⟨reserved_valid drm wl, fun i _ hi => (identityMatches_join drm wl i).trans hi,
      fun i _ hi => identityMatching_range ((identityMatches_join drm wl i).symm.trans hi),
      fun _ hi => absurd hi (Nat.not_lt_zero _)⟩

theorem assignWaylandOutputs_join (drm : List DrmDisplayInfo) (wl : List WaylandDisplayInfo)
    (i : ℕ) : (assignWaylandOutputs drm wl)[i]?.join = (layoutMatching drm wl).matched i :=
  vector_join (fun _ _ h => ((layoutMatching_assigned drm wl).range _ _ h).1) i

/-- As many connectors are matched as there can be. -/
theorem length_assignWaylandOutputs (drm : List DrmDisplayInfo) (wl : List WaylandDisplayInfo) :
    ((assignWaylandOutputs drm wl).filter Option.isSome).length = min drm.length wl.length := by
  have hassigned := layoutMatching_assigned drm wl
  rw [assignWaylandOutputs, vector, List.filter_map, List.length_map]
  exact hassigned.valid.length_matched hassigned.range hassigned.full

/-! ## The order of the lists -/

/-- A connector and an output that are matched by identity. -/
def Identified (drm : List DrmDisplayInfo) (wl : List WaylandDisplayInfo) (d : DrmDisplayInfo)
    (w : WaylandDisplayInfo) : Prop :=
  ∃ i j : ℕ, drm[i]? = some d ∧ wl[j]? = some w ∧ (identityMatches drm wl)[i]? = some (some j)

/-- The names of two lists, each pairwise different as they are compared. -/
def DistinctNames (drm : List DrmDisplayInfo) (wl : List WaylandDisplayInfo) : Prop :=
  (drm.map fun d => normalizeConnector d.name).Nodup ∧
    (wl.map fun w => normalizeConnector w.name).Nodup

/-- No output has the name of the connector. -/
def Nameless (wl : List WaylandDisplayInfo) (d : DrmDisplayInfo) : Prop :=
  ∀ w ∈ wl, normalizeConnector w.name ≠ normalizeConnector d.name

/-- No connector has the name of the output. -/
def Unnamed (drm : List DrmDisplayInfo) (w : WaylandDisplayInfo) : Prop :=
  ∀ d ∈ drm, normalizeConnector w.name ≠ normalizeConnector d.name

instance (wl : List WaylandDisplayInfo) (d : DrmDisplayInfo) : Decidable (Nameless wl d) :=
  inferInstanceAs (Decidable (∀ w ∈ wl, _))

instance (drm : List DrmDisplayInfo) (w : WaylandDisplayInfo) : Decidable (Unnamed drm w) :=
  inferInstanceAs (Decidable (∀ d ∈ drm, _))

instance (d e : DrmDisplayInfo) : Decidable (SameMode d e) := inferInstanceAs (Decidable (_ ∧ _))

instance (w : WaylandDisplayInfo) (d : DrmDisplayInfo) : Decidable (HasMode w d) :=
  inferInstanceAs (Decidable (_ ∧ _))

/-- What is left over by the names has one output and one connector with a resolution. -/
def Leftover (drm : List DrmDisplayInfo) (wl : List WaylandDisplayInfo) (d : DrmDisplayInfo)
    (w : WaylandDisplayInfo) : Prop :=
  Nameless wl d ∧ Unnamed drm w ∧ HasMode w d ∧
    (wl.filter fun w' => Unnamed drm w' ∧ HasMode w' d).length = 1 ∧
    (drm.filter fun e => Nameless wl e ∧ SameMode e d).length = 1

theorem eq_of_name {α : Type} {f : α → String} {l : List α} (hnodup : (l.map f).Nodup) {a b : α}
    (ha : l[i]? = some a) (hb : l[j]? = some b) (h : f a = f b) : i = j := by
  have hlt : i < (l.map f).length := by
    rw [List.length_map]
    exact (List.getElem?_eq_some_iff.mp ha).1
  have heq : (l.map f)[i]? = (l.map f)[j]? := by
    rw [List.getElem?_map, List.getElem?_map, ha, hb, Option.map_some, Option.map_some, h]
  exact (List.getElem?_inj hlt hnodup).mp heq

theorem length_filter_zipIdx {α : Type} {p : α × ℕ → Bool} {q : α → Bool} {l : List α}
    (h : ∀ (i : ℕ) a, l[i]? = some a → p (a, i) = q a) :
    (l.zipIdx.filter p).length = (l.filter q).length := by
  have hcongr : l.zipIdx.filter p = l.zipIdx.filter (q ∘ Prod.fst) :=
    List.filter_congr fun ⟨a, i⟩ hmem => h i a (List.mem_zipIdx_iff_getElem?.mp hmem)
  calc (l.zipIdx.filter p).length = ((l.zipIdx.map Prod.fst).filter q).length := by
        rw [hcongr, List.filter_map, List.length_map]
    _ = (l.filter q).length := by rw [List.zipIdx_map_fst]

section Distinct

variable {drm : List DrmDisplayInfo} {wl : List WaylandDisplayInfo} (hnames : DistinctNames drm wl)

include hnames

/-- With distinct names, the matching by name is the equality of the normalized names. -/
theorem nameMatching_iff (i j : ℕ) : (nameMatching drm wl).matched i = some j ↔
      ∃ d w, drm[i]? = some d ∧ wl[j]? = some w ∧
        normalizeConnector w.name = normalizeConnector d.name := by
  have hnamed := nameMatching_named drm wl
  refine ⟨hnamed.name i j, ?_⟩
  rintro ⟨d, w, hd, hw, hname⟩
  cases hi : (nameMatching drm wl).matched i with
  | some j' =>
    obtain ⟨d', w', hd', hw', hname'⟩ := hnamed.name i j' hi
    rw [hd] at hd'
    cases hd'
    rw [eq_of_name hnames.2 hw' hw (hname'.trans hname.symm)]
  | none =>
    obtain ⟨i', hlt, hi'⟩ :=
      hnamed.complete i d (List.getElem?_eq_some_iff.mp hd).1 hd hi j w hw hname
    obtain ⟨d', w', hd', hw', hname'⟩ := hnamed.name i' j hi'
    rw [hw] at hw'
    cases hw'
    have heq := eq_of_name hnames.1 hd' hd (hname'.symm.trans hname)
    omega

/-- An output is left over if no display has its name. -/
theorem taken_iff_unnamed {j : ℕ} {w : WaylandDisplayInfo} (hw : wl[j]? = some w) :
    (nameMatching drm wl).taken j = false ↔ Unnamed drm w := by
  rw [← Bool.not_eq_true, (nameMatching_named drm wl).valid.taken_iff, not_exists]
  constructor
  · intro h d hd hname
    obtain ⟨i, hi⟩ := List.mem_iff_getElem?.mp hd
    exact h i ((nameMatching_iff hnames i j).mpr ⟨d, w, hi, hw, hname⟩)
  · intro h i hi
    obtain ⟨d, w', hd, hw', hname⟩ := (nameMatching_iff hnames i j).mp hi
    rw [hw] at hw'
    cases hw'
    exact h d (List.mem_of_getElem? hd) hname

theorem matched_iff_nameless {i : ℕ} {d : DrmDisplayInfo} (hd : drm[i]? = some d) :
    (nameMatching drm wl).matched i = none ↔ Nameless wl d := by
  rw [Option.eq_none_iff_forall_not_mem]
  constructor
  · intro h w hw hname
    obtain ⟨j, hj⟩ := List.mem_iff_getElem?.mp hw
    exact h j ((nameMatching_iff hnames i j).mpr ⟨d, w, hd, hj, hname⟩)
  · intro h j hi
    obtain ⟨d', w, hd', hw, hname⟩ := (nameMatching_iff hnames i j).mp hi
    rw [hd] at hd'
    cases hd'
    exact h w (List.mem_of_getElem? hw) hname

theorem length_freeSame (d : DrmDisplayInfo) : (freeSame (nameMatching drm wl) wl d).length =
      (wl.filter fun w => Unnamed drm w ∧ HasMode w d).length := by
  rw [freeSame, List.length_map]
  refine length_filter_zipIdx fun j w hw => ?_
  rw [Bool.eq_iff_iff, decide_eq_true_iff, ← taken_iff_unnamed hnames hw]
  simp [HasMode]

theorem unmatchedSame_eq (d : DrmDisplayInfo) : unmatchedSame (nameMatching drm wl) drm d =
      (drm.filter fun e => Nameless wl e ∧ SameMode e d).length := by
  refine length_filter_zipIdx fun i e he => ?_
  rw [Bool.eq_iff_iff, decide_eq_true_iff, ← matched_iff_nameless hnames he]
  simp [SameMode]

/-- With distinct names, who is identified does not depend on indices. -/
theorem identified_iff (d : DrmDisplayInfo) (w : WaylandDisplayInfo) : Identified drm wl d w ↔
      d ∈ drm ∧ w ∈ wl ∧ (normalizeConnector w.name = normalizeConnector d.name ∨
        Leftover drm wl d w) := by
  constructor
  · rintro ⟨i, j, hd, hw, hij⟩
    refine ⟨List.mem_of_getElem? hd, List.mem_of_getElem? hw, ?_⟩
    have hmatched : (identityMatching drm wl).matched i = some j := by
      rw [← identityMatches_join, hij]
      rfl
    obtain hname | ⟨hi, e, he, hfree, hone⟩ := (identityMatching_iff drm wl i j).mp hmatched
    · obtain ⟨d', w', hd', hw', hname'⟩ := (nameMatching_iff hnames i j).mp hname
      rw [hd] at hd'
      rw [hw] at hw'
      cases hd'
      cases hw'
      exact .inl hname'
    · rw [hd] at he
      cases he
      obtain ⟨hj, w', hw', hmode⟩ := mem_freeSame.mp (hfree ▸ List.mem_singleton_self j)
      rw [hw] at hw'
      cases hw'
      refine .inr ⟨(matched_iff_nameless hnames hd).mp hi, (taken_iff_unnamed hnames hw).mp hj,
        hmode, ?_, ?_⟩
      · rw [← length_freeSame hnames, hfree]
        rfl
      · rw [← unmatchedSame_eq hnames, hone]
  · rintro ⟨hd, hw, h⟩
    obtain ⟨i, hi⟩ := List.mem_iff_getElem?.mp hd
    obtain ⟨j, hj⟩ := List.mem_iff_getElem?.mp hw
    have hmatched : (identityMatching drm wl).matched i = some j := by
      rw [identityMatching_iff]
      obtain hname | ⟨hless, hun, hmode, hlen, hone⟩ := h
      · exact .inl ((nameMatching_iff hnames i j).mpr ⟨d, w, hi, hj, hname⟩)
      · refine .inr ⟨(matched_iff_nameless hnames hi).mpr hless, d, hi, ?_, ?_⟩
        · rw [← length_freeSame hnames, List.length_eq_one_iff] at hlen
          obtain ⟨j', hj'⟩ := hlen
          have hmem : j ∈ freeSame (nameMatching drm wl) wl d :=
            mem_freeSame.mpr ⟨(taken_iff_unnamed hnames hj).mpr hun, w, hj, hmode⟩
          rw [hj', List.mem_singleton] at hmem
          rw [hj', hmem]
        · rw [unmatchedSame_eq hnames, hone]
    refine ⟨i, j, hi, hj, ?_⟩
    rw [identityMatches, vector_getElem?, if_pos (List.getElem?_eq_some_iff.mp hi).1, hmatched]

end Distinct

/-- What the names leave over does not depend on the order of the lists. -/
theorem leftover_perm (hdrm : drm.Perm drm') (hwl : wl.Perm wl') (h : Leftover drm wl d w) :
    Leftover drm' wl' d w := by
  have hless : ∀ e, Nameless wl e ↔ Nameless wl' e := fun e => forall_congr' fun w => by
    rw [hwl.mem_iff]
  have hun : ∀ w', Unnamed drm w' ↔ Unnamed drm' w' := fun w' => forall_congr' fun e => by
    rw [hdrm.mem_iff]
  obtain ⟨h₁, h₂, h₃, h₄, h₅⟩ := h
  refine ⟨(hless d).mp h₁, (hun w).mp h₂, h₃, ?_, ?_⟩
  · simp only [hun] at h₄
    rw [← (hwl.filter _).length_eq, h₄]
  · simp only [hless] at h₅
    rw [← (hdrm.filter _).length_eq, h₅]

theorem DistinctNames.perm (hdrm : drm.Perm drm') (hwl : wl.Perm wl') (h : DistinctNames drm wl) :
    DistinctNames drm' wl' :=
  ⟨(hdrm.map _).nodup_iff.mp h.1, (hwl.map _).nodup_iff.mp h.2⟩

theorem identified_perm (hdrm : drm.Perm drm') (hwl : wl.Perm wl') (hnames : DistinctNames drm wl)
    (d : DrmDisplayInfo) (w : WaylandDisplayInfo) :
    Identified drm wl d w ↔ Identified drm' wl' d w := by
  rw [identified_iff hnames, identified_iff (hnames.perm hdrm hwl), hdrm.mem_iff, hwl.mem_iff]
  have hleftover : Leftover drm wl d w ↔ Leftover drm' wl' d w :=
    ⟨leftover_perm hdrm hwl, leftover_perm hdrm.symm hwl.symm⟩
  rw [hleftover]

/-! ## Sizes and origins -/

section Sizes

variable (changed : String → Option (Int32 × Int32))

/-- The output a connector is identified with turns its display. -/
def identityTransform (drm : List DrmDisplayInfo) (wl : List WaylandDisplayInfo) (i : ℕ) : Int32 :=
  ((((identityMatching drm wl).matched i).bind fun j => wl[j]?).map
    WaylandDisplayInfo.transform).getD 0

/-- What an advertised display says, for a transform of its output. -/
structure Advertises (info : DisplayInfo) (d : DrmDisplayInfo) (transform : Int32)
  (origin : Int32 × Int32) : Prop where
  width :
    info.width = asI32 (rotatedDims (deliveredTransform d transform)
      d.width.toUInt64 d.height.toUInt64).1
  height :
    info.height = asI32 (rotatedDims (deliveredTransform d transform)
      d.width.toUInt64 d.height.toUInt64).2
  origin : (info.x, info.y) = origin

/-- Without an output, a display is advertised as it is. -/
theorem displayInfoFromDrm_advertises (d : DrmDisplayInfo) :
    Advertises (displayInfoFromDrm changed d) d 0 (d.x, d.y) :=
  ⟨rfl, rfl, rfl⟩

variable {d : DrmDisplayInfo} {drm : List DrmDisplayInfo} {wl : Wayland.Displays} {i : ℕ}

theorem Advertises.scaled {info : DisplayInfo} {transform : Int32} {origin : Int32 × Int32}
    (h : Advertises info d transform origin) (scale : Scale) (original : Int32 × Int32) :
    Advertises { info with scale := scale, originalResolution := original } d transform origin :=
  ⟨h.width, h.height, h.origin⟩

/-- The swap does what the capturer's transform does. -/
theorem augment_advertises (originOnly isIdentity : Bool) (d : DrmDisplayInfo)
    (w : WaylandDisplayInfo) :
    Advertises (augment changed originOnly isIdentity d w) d (if isIdentity then w.transform else 0)
      (w.x, w.y) := by
  have hmoved : Advertises { displayInfoFromDrm changed d with x := w.x, y := w.y }
      d 0 (w.x, w.y) := ⟨rfl, rfl, rfl⟩
  have hswap : Advertises
      (if isIdentity ∧ ¬d.planeTransposed ∧ (w.transform = 90 ∨ w.transform = 270) then
        DisplayInfo.swapped changed { displayInfoFromDrm changed d with x := w.x, y := w.y }
      else { displayInfoFromDrm changed d with x := w.x, y := w.y })
        d (if isIdentity then w.transform else 0) (w.x, w.y) := by
    cases isIdentity with
    | false => exact hmoved
    | true =>
      cases hplane : d.planeTransposed with
      | true =>
        exact ⟨by simp [displayInfoFromDrm, deliveredTransform, hplane], by
          simp [displayInfoFromDrm, deliveredTransform, hplane], rfl⟩
      | false =>
        by_cases hturn : w.transform = 90 ∨ w.transform = 270
        · refine ⟨?_, ?_, ?_⟩ <;>
            simp [hturn, DisplayInfo.swapped, displayInfoFromDrm, deliveredTransform, hplane,
              rotatedDims]
        · refine ⟨?_, ?_, ?_⟩ <;>
            simp [hturn, displayInfoFromDrm, deliveredTransform, hplane, rotatedDims]
  rw [augment]
  split
  · exact hswap
  split
  · split
    · exact hswap.scaled _ _
    · exact hswap
  · exact hswap

/-- The snapshots nothing is taken from. -/
def Degenerate (drm : List DrmDisplayInfo) (wl : Wayland.Displays) : Prop :=
  wl.displays = [] ∨ wl.displays.length = 1 ∧ 1 < drm.length

/-- Without outputs, or with one for several connectors, every display is advertised as it is. -/
theorem augment_degenerate (h : Degenerate drm wl) (matched : List (Option ℕ)) :
    augmentWithWaylandGeometryFrom changed drm wl matched =
      drm.map (displayInfoFromDrm changed) := by
  rw [augmentWithWaylandGeometryFrom]
  split
  · rfl
  split
  · rfl
  · rw [if_pos (h.resolve_left ‹_›)]

theorem transform_degenerate (h : Degenerate drm wl) (i : ℕ) :
    transformAndOrigin changed drm i wl = (0, none, decide (wl.displays = [] ∧ drm ≠ [])) :=
  if_pos h

/-- An output a connector is identified with is the one it is assigned. -/
theorem isIdentity_eq (wl : List WaylandDisplayInfo) (hi : i < drm.length) :
    ((identityMatches drm wl)[i]?.join.isSome && (identityMatches drm wl)[i]? =
      (assignWaylandOutputs drm wl)[i]?) =
      ((identityMatching drm wl).matched i).isSome := by
  rw [identityMatches_join, identityMatches, assignWaylandOutputs, vector_getElem?, vector_getElem?,
    if_pos hi, if_pos hi]
  cases hmatched : (identityMatching drm wl).matched i with
  | none => rfl
  | some j => simp [(layoutMatching_assigned drm wl).identity i j hmatched]

/-- One display and its capturer, from a snapshot that is used. -/
theorem augment_getElem? (h : ¬Degenerate drm wl) (hd : drm[i]? = some d) :
    ∃ info, (augmentWithWaylandGeometryFrom changed drm wl
      (assignWaylandOutputs drm wl.displays))[i]? = some info ∧
      Advertises info d (identityTransform drm wl.displays i) (info.x, info.y) := by
  have hi := (List.getElem?_eq_some_iff.mp hd).1
  have hdrm : drm ≠ [] := by
    rintro rfl
    cases hi
  rw [augmentWithWaylandGeometryFrom, if_neg hdrm, if_neg fun hwl => h (.inl hwl),
    if_neg fun hone => h (.inr hone),
    List.getElem?_mapIdx, hd, Option.map_some, isIdentity_eq _ hi, assignWaylandOutputs_join,
      identityTransform]
  refine ⟨_, rfl, ?_⟩
  have hassigned := layoutMatching_assigned drm wl.displays
  cases hlayout : (layoutMatching drm wl.displays).matched i with
  | none =>
    have hidentity : (identityMatching drm wl.displays).matched i = none := by
      cases hidentity : (identityMatching drm wl.displays).matched i with
      | none => rfl
      | some j =>
        rw [hassigned.identity i j hidentity] at hlayout
        cases hlayout
    rw [hidentity]
    exact displayInfoFromDrm_advertises changed d
  | some j =>
    have hj := (hassigned.range i j hlayout).2
    rw [Option.bind_some, List.getElem?_eq_getElem hj]
    have hadvertises := augment_advertises changed (wl.displays.length = 1)
      ((identityMatching drm wl.displays).matched i).isSome d wl.displays[j]
    cases hidentity : (identityMatching drm wl.displays).matched i with
    | none =>
      rw [hidentity] at hadvertises
      exact ⟨hadvertises.width, hadvertises.height, rfl⟩
    | some j' =>
      have heq := hassigned.identity i j' hidentity
      rw [hlayout] at heq
      cases heq
      rw [hidentity] at hadvertises
      rw [Option.bind_some, List.getElem?_eq_getElem hj]
      exact ⟨hadvertises.width, hadvertises.height, rfl⟩

/-- What is advertised of a display is the size and the origin its capturer has. -/
def Agrees (drm : List DrmDisplayInfo) (wl : Wayland.Displays) (i : ℕ) (d : DrmDisplayInfo)
    (info : DisplayInfo) : Prop :=
  let capturer := IpcDrmCapturer.new changed drm i wl
  ∃ size, capturer.1.sessionSize = some size ∧
    (info.width, info.height) = (asI32 size.1, asI32 size.2) ∧
      (info.x, info.y) = capturer.2.getD (d.x, d.y) ∧
    getCapturerInfo changed drm i wl = some ⟨(info.x, info.y), size.1, size.2, drm.length⟩

/-- The size and the origin are those of the capturer if both take them from the same output. -/
theorem Advertises.agrees {info : DisplayInfo} {transform : Int32} {origin : Option (Int32 × Int32)}
    {blind : Bool} (hd : drm[i]? = some d)
    (hcapturer : transformAndOrigin changed drm i wl = (transform, origin, blind))
    (h : Advertises info d transform (origin.getD (d.x, d.y))) :
    Agrees changed drm wl i d info := by
  have hnew : IpcDrmCapturer.new changed drm i wl =
      (⟨some (rotatedDims (deliveredTransform d transform) d.width.toUInt64 d.height.toUInt64),
        transform⟩, origin) := by
    rw [IpcDrmCapturer.new, hcapturer, hd]
    rfl
  refine ⟨rotatedDims (deliveredTransform d transform) d.width.toUInt64 d.height.toUInt64, by
    rw [hnew], ?_, ?_, ?_⟩
  · rw [h.width, h.height]
  · rw [hnew, h.origin]
  · rw [getCapturerInfo, hnew, hd, h.origin]
    rfl

theorem augment_agrees (wl : Wayland.Displays) (hd : drm[i]? = some d) :
    ∃ info, (augmentWithWaylandGeometryFrom changed drm wl
      (assignWaylandOutputs drm wl.displays))[i]? = some info ∧
      Agrees changed drm wl i d info := by
  by_cases hdegenerate : Degenerate drm wl
  · refine ⟨displayInfoFromDrm changed d, ?_, ?_⟩
    · rw [augment_degenerate changed hdegenerate, List.getElem?_map, hd]
      rfl
    · exact (displayInfoFromDrm_advertises changed d).agrees changed hd
        (transform_degenerate changed hdegenerate i)
  · obtain ⟨info, hinfo, hadvertises⟩ := augment_getElem? changed hdegenerate hd
    have hcapturer : transformAndOrigin changed drm i wl =
        (identityTransform drm wl.displays i, some (info.x, info.y), false) := by
      have hused : ¬(wl.displays = [] ∨ wl.displays.length = 1 ∧ 1 < drm.length) := hdegenerate
      simp only [transformAndOrigin, if_neg hused, hinfo, identityMatches_join]
      rfl
    exact ⟨info, hinfo, Advertises.agrees changed hd hcapturer hadvertises⟩

/-- For every list of connectors and every snapshot: what is advertised of a display is what its
capturer delivers; no output is matched twice, what is identified stays, and no output is left over
while a connector is; a connector loses the output with its name only to an earlier one of that
name, and is given one by its resolution only when nothing else is left with it; and with distinct
names the order of the lists does not matter. -/
theorem geometry_agrees (drm : List DrmDisplayInfo) (wl : Wayland.Displays) :
    (∀ i d, drm[i]? = some d →
      ∃ info, (augmentWithWaylandGeometryFrom changed drm wl
        (assignWaylandOutputs drm wl.displays))[i]? = some info ∧
        Agrees changed drm wl i d info) ∧
    (∀ i i' j : ℕ, (identityMatches drm wl.displays)[i]? = some (some j) →
      (identityMatches drm wl.displays)[i']? = some (some j) → i = i') ∧
    (∀ i i' j : ℕ, (assignWaylandOutputs drm wl.displays)[i]? = some (some j) →
      (assignWaylandOutputs drm wl.displays)[i']? = some (some j) → i = i') ∧
    (∀ i j : ℕ, (identityMatches drm wl.displays)[i]? = some (some j) →
      (assignWaylandOutputs drm wl.displays)[i]? = some (some j)) ∧
    ((assignWaylandOutputs drm wl.displays).filter Option.isSome).length =
      min drm.length wl.displays.length ∧
    (∀ i j, (nameMatching drm wl.displays).matched i = some j →
      ∃ d w, drm[i]? = some d ∧ wl.displays[j]? = some w ∧
        normalizeConnector w.name = normalizeConnector d.name) ∧
    (∀ i d, drm[i]? = some d → (nameMatching drm wl.displays).matched i = none →
      ∀ j w, wl.displays[j]? = some w → normalizeConnector w.name = normalizeConnector d.name →
        ∃ i' < i, (nameMatching drm wl.displays).matched i' = some j) ∧
    (∀ i j : ℕ, (identityMatches drm wl.displays)[i]? = some (some j) ↔
      (nameMatching drm wl.displays).matched i = some j ∨
        Forced drm wl.displays (nameMatching drm wl.displays) i j) ∧
    (DistinctNames drm wl.displays →
      (∀ d ∈ drm, ∀ w ∈ wl.displays, normalizeConnector w.name = normalizeConnector d.name →
        Identified drm wl.displays d w) ∧
      ∀ drm' wl', drm.Perm drm' → wl.displays.Perm wl' →
        ∀ d w, Identified drm wl.displays d w ↔ Identified drm' wl' d w) := by
  have hidentity : ∀ i j : ℕ, (identityMatches drm wl.displays)[i]? = some (some j) ↔
      (identityMatching drm wl.displays).matched i = some j := fun i j => by
    constructor
    · intro h
      rw [← identityMatches_join, h]
      rfl
    · intro h
      rw [identityMatches, vector_getElem?, if_pos (identityMatching_range h).1, h]
  have hassigned : ∀ i j : ℕ, (assignWaylandOutputs drm wl.displays)[i]? = some (some j) →
      (layoutMatching drm wl.displays).matched i = some j := fun i j h => by
    rw [← assignWaylandOutputs_join, h]
    rfl
  have hlayout := layoutMatching_assigned drm wl.displays
  have hnamed := nameMatching_named drm wl.displays
  refine ⟨fun i d hd => augment_agrees changed wl hd, fun i i' j h h' => ?_, fun i i' j h h' => ?_,
    fun i j h => ?_,
    length_assignWaylandOutputs drm wl.displays, hnamed.name, fun i d hd => ?_, fun i j =>
      ?_, fun hnames => ⟨?_, ?_⟩⟩
  · exact (identityMatching_resolved drm wl.displays).valid.injective i i' j ((hidentity i j).mp h)
      ((hidentity i' j).mp h')
  · exact hlayout.valid.injective i i' j (hassigned i j h) (hassigned i' j h')
  · have hmatched := (hidentity i j).mp h
    rw [assignWaylandOutputs, vector_getElem?, if_pos (identityMatching_range hmatched).1,
      hlayout.identity i j hmatched]
  · exact hnamed.complete i d (List.getElem?_eq_some_iff.mp hd).1 hd
  · rw [hidentity, identityMatching_iff]
  · intro d hd w hw hname
    exact (identified_iff hnames d w).mpr ⟨hd, hw, .inl hname⟩
  · intro drm' wl' hdrm hwl
    exact identified_perm hdrm hwl hnames

end Sizes

/-- Two connectors, the second one with an output that is turned. -/
def twoConnectors : List DrmDisplayInfo :=
  [⟨"HDMI-A-1", 41, 0, 0, 1920, 1080, true, "", "card0", false⟩,
    ⟨"DP-1", 52, 0, 0, 2560, 1440, true, "", "card0", false⟩]

def twoOutputs : Wayland.Displays :=
  ⟨0, [⟨"DP-1", 1920, 0, 2560, 1440, none, 270⟩, ⟨"HDMI-1", 0, 0, 1920, 1080, none, 0⟩]⟩

theorem geometry_agrees_two :
    (∃ info, (augmentWithWaylandGeometryFrom (fun _ => none) twoConnectors twoOutputs
        (assignWaylandOutputs twoConnectors twoOutputs.displays))[1]? = some info ∧
      Agrees (fun _ => none) twoConnectors twoOutputs 1
        ⟨"DP-1", 52, 0, 0, 2560, 1440, true, "", "card0", false⟩ info) ∧
    Identified twoConnectors twoOutputs.displays
      ⟨"HDMI-A-1", 41, 0, 0, 1920, 1080, true, "", "card0", false⟩
      ⟨"HDMI-1", 0, 0, 1920, 1080, none, 0⟩ :=
  have h := geometry_agrees (fun _ => none) twoConnectors twoOutputs
  ⟨h.1 1 _ rfl, (h.2.2.2.2.2.2.2.2 ⟨by decide +kernel, by decide +kernel⟩).1 _ List.mem_cons_self _
    (List.mem_cons_of_mem _ List.mem_cons_self) (by decide +kernel)⟩

example : (IpcDrmCapturer.new (fun _ => none) twoConnectors 1 twoOutputs) =
    (⟨some (1440, 2560), 270⟩, some (1920, 0)) := by
  decide +kernel

end Drm
end BgDesk
