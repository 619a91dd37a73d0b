import Mathlib.Logic.Function.Basic
import BgDesk.CursorHotspot
import BgDesk.Machine
import BgDesk.SortedMap

/-!
# Measured hotspots of cursors

Where the driver publishes no hotspot, a stream measures it: the injected pointer minus the origin
of the cursor plane, once both sit still. Two measurements that agree, against two samples of the
pointer under one input mapping, confirm a hotspot. Confirmed hotspots are kept in a cache that all
streams share, under the cursor id and the layout generation.

Each lock of the cache is one step; what a stream does between two of them is part of the step
before. `measure_hotspot` is a parameter. The rest of a stream's state says what it is about to do
with the cache (`Pending`), and the `measured` list is what all streams measured, in order.
-/

namespace BgDesk.CursorCalibration

abbrev Pos := ℤ × ℤ

abbrev Hotspot := ℤ × ℤ

def cursorCalStableTicks : ℕ := 3

def cursorCalWindowTicks : ℕ := 33

def cursorCalTolerance : ℤ := 2

def cursorCalMinInputAgeMs : ℕ := 150

def cursorCalMaxInputAgeMs : ℕ := 10000

def cursorCalCacheCap : ℕ := 64

/-- `drm_reader::HIDDEN_CURSOR_ID`. -/
def hiddenCursorId : ℕ := 2 ^ 64 - 1

/-! ## The code -/

/-- A debug build panics where `i32` overflows and checks `debug_assert`; a release build wraps. -/
inductive Build
  | debug
  | release
  deriving DecidableEq

structure CalContext where
  rect : ℤ × ℤ × ℤ × ℤ
  physicalSize : ℤ × ℤ
  builtGen : ℕ
  deriving DecidableEq

/-- `input_service::PeerAbsSample`. -/
structure PeerAbsSample where
  pos : Pos
  ageMs : ℕ
  seq : ℕ
  gen : ℕ
  mapEpoch : ℕ
  deriving DecidableEq

/-- What a stream knows about the shape it shows. The candidate is a measurement with the sample and
the mapping epoch it was taken under. -/
structure CursorCal where
  id : ℕ
  width : ℕ
  height : ℕ
  ctx : CalContext
  wireHot : Hotspot
  currentHot : Hotspot
  candidate : Option (Hotspot × ℕ × ℕ)
  plane : Option Pos
  stableTicks : ℕ
  measuredThisPosition : Bool
  deriving DecidableEq

def calibratable (id : ℕ) (hotMeasured : Bool) : Bool := id ≠ hiddenCursorId && !hotMeasured

def updatePlaneStability (c : CursorCal) (p : Pos) : CursorCal :=
  if c.plane ≠
    some p then { c with plane := some p, stableTicks := 0, measuredThisPosition := false }
  else { c with stableTicks := min (c.stableTicks + 1) (2 ^ 32 - 1) }

def settledUnmeasured (c : CursorCal) : Bool :=
  !c.measuredThisPosition && (cursorCalStableTicks ≤ c.stableTicks && c.stableTicks ≤
    cursorCalWindowTicks)

def usableSample (ctx : CalContext) (s : Option PeerAbsSample) (drifted : Bool)
    (currentGen mapGen mapEpoch : ℕ) : Option (Pos × ℕ × ℕ) :=
  if drifted ∨ currentGen ≠ ctx.builtGen ∨ mapGen ≠ ctx.builtGen then none
  else
    match s with
    | none => none
    | some s =>
      if s.gen ≠ ctx.builtGen ∨ s.mapEpoch ≠ mapEpoch then none
      else if ¬ (cursorCalMinInputAgeMs ≤ s.ageMs ∧ s.ageMs ≤ cursorCalMaxInputAgeMs) then none
      else some (s.pos, s.seq, s.mapEpoch)

/-- `(a - b).abs()` on `i32`. -/
def distance (build : Build) (a b : ℤ) : Option ℤ :=
  match build with
  | .debug => if -2147483648 < a - b ∧ a - b < 2147483648 then some (a - b).natAbs else none
  | .release =>
    let d := (a - b).bmod 4294967296
    some (if d = -2147483648 then d else d.natAbs)

def near (build : Build) (a b : Hotspot) : Option Bool := do
  let dx ← distance build a.1 b.1
  if dx ≤ cursorCalTolerance then
    let dy ← distance build a.2 b.2
    some (dy ≤ cursorCalTolerance)
  else some false

def observeMeasurement (build : Build) (c : CursorCal) (m : Hotspot) (seq mapEpoch : ℕ) :
    Option (CursorCal × Option Hotspot) :=
  let replaced : CursorCal × Option Hotspot :=
    ({ c with candidate := some (m, seq, mapEpoch) }, none)
  match c.candidate with
  | none => some replaced
  | some (k, kseq, kepoch) =>
    if kseq = seq then some (c, none)
    else if kepoch = mapEpoch then do
      if ← near build k m then some ({ c with candidate := none }, some k) else some replaced
    else some replaced

/-- What `apply_confirmed_hotspot` goes on with, from its next lock of the cache. -/
inductive Pending
  | forgetServed
  | check
  | restore
  | forgetAndServeWire
  | storeAndServe (accepted : Hotspot)
  deriving DecidableEq

/-- `apply_confirmed_hotspot` up to its first lock of the cache. -/
def applyConfirmedHotspot (build : Build) (c : CursorCal) (accepted : Hotspot) :
    Option Pending := do
  if ← near build accepted c.currentHot then
    some (if c.currentHot = c.wireHot then .forgetServed else .check)
  else if ← near build accepted c.wireHot then some .forgetAndServeWire
  else some (.storeAndServe accepted)

/-- `CURSOR_CAL_CACHE`, a `BTreeMap`. -/
abbrev Cache := List (ℕ × Hotspot × ℕ)

def storeCursorCal (cache : Cache) (wireId : ℕ) (h : Hotspot) (gen : ℕ) : Cache :=
  if (cache.lookup wireId).any (gen < ·.2) then cache
  else if cursorCalCacheCap ≤ cache.length ∧ (cache.lookup wireId).isNone then
    let cache := cache.filter (gen < ·.2.2)
    if cursorCalCacheCap ≤ cache.length then cache else SortedMap.insert wireId (h, gen) cache
  else SortedMap.insert wireId (h, gen) cache

def forgetCursorCal (cache : Cache) (wireId gen : ℕ) : Cache :=
  if (cache.lookup wireId).any (·.2 ≤ gen) then cache.filter (·.1 ≠ wireId) else cache

def cachedCursorCal (cache : Cache) (wireId gen : ℕ) : Option Hotspot :=
  ((cache.lookup wireId).filter (·.2 = gen)).map Prod.fst

/-- `on_cursor_shape`, without the delivery. `none` is a panic of its `debug_assert_eq`. -/
def onCursorShape (build : Build) (cache : Cache) (ctx : Option CalContext) (id width height : ℕ)
    (hotx hoty : ℤ) (hotMeasured : Bool) (t : ℤ) : Option (Option CursorCal) :=
  match ctx.filter fun _ => calibratable id hotMeasured with
  | none => some none
  | some ctx =>
    if build = .debug ∧ t ≠ 0 then none
    else some (some {
      id, width, height, ctx, wireHot := (hotx, hoty),
      currentHot := (cachedCursorCal cache id ctx.builtGen).getD (hotx, hoty),
      candidate := none, plane := none, stableTicks := 0, measuredThisPosition := false })

/-- What a frame's plane position leads to: the shape's state (`none` after a panic), what is next
to do with the cache, and the measurement, if one was taken, with its sample and mapping epoch. -/
structure Outcome where
  cal : Option CursorCal
  pending : Option Pending
  measured : Option (Option Hotspot × ℕ × ℕ)

/-- `on_cursor_plane` from a measured value on. -/
def confirm (build : Build) (c : CursorCal) (m : Hotspot) (seq epoch : ℕ) :
    Option (CursorCal × Option Pending) :=
  match observeMeasurement build c m seq epoch with
  | none => none
  | some (c, none) => some (c, none)
  | some (c, some accepted) =>
    match applyConfirmedHotspot build c accepted with
    | none => none
    | some pending => some (c, some pending)

section Code

-- `measure_hotspot`: context, injected point, plane, size of the cursor
variable (build : Build) (measure : CalContext → Pos → Pos → ℤ × ℤ → Option Hotspot)

/-- `on_cursor_plane` with a shape and a position, up to its first lock of the cache. -/
def onCursorPlane (c : CursorCal) (p : Pos) (sample : Option PeerAbsSample) (drifted : Bool)
    (currentGen mapGen mapEpoch : ℕ) : Outcome :=
  let c := updatePlaneStability c p
  if settledUnmeasured c then
    match usableSample c.ctx sample drifted currentGen mapGen mapEpoch with
    | none => { cal := some c, pending := none, measured := none }
    | some (injected, seq, epoch) =>
      let c := { c with measuredThisPosition := true }
      let value :=
        measure c.ctx injected p (CursorHotspot.asI32 c.width, CursorHotspot.asI32 c.height)
      match value with
      | none => { cal := some c, pending := none, measured := some (none, seq, epoch) }
      | some m =>
        match confirm build c m seq epoch with
        | none => { cal := none, pending := none, measured := some (some m, seq, epoch) }
        | some (c, pending) => { cal := some c, pending, measured := some (some m, seq, epoch) }
  else { cal := some c, pending := none, measured := none }

/-! ## The streams -/

/-- A measurement, with the shape and the stop of the plane it was taken at. -/
structure Measurement where
  stream : ℕ
  shape : ℕ
  stop : ℕ
  id : ℕ
  builtGen : ℕ
  value : Option Hotspot
  seq : ℕ
  mapEpoch : ℕ
  deriving DecidableEq

/-- A stream. The last three fields are what happened to it: how many shapes came, where the plane
was seen last and how many times it was seen somewhere else than before. -/
structure Stream where
  cal : Option CursorCal
  pending : Option Pending
  ended : Bool
  shapes : ℕ
  lastPos : Option Pos
  stops : ℕ
  deriving DecidableEq

def Stream.idle : Stream :=
  { cal := none, pending := none, ended := false, shapes := 0, lastPos := none, stops := 0 }

/-- The plane was seen at `p`. -/
def Stream.seenAt (st : Stream) (p : Pos) : Stream :=
  if st.lastPos = some p then st else { st with lastPos := some p, stops := st.stops + 1 }

structure State where
  cache : Cache
  streams : ℕ → Stream
  assertFailed : Bool
  measured : List Measurement

def State.init : State :=
  { cache := [], streams := fun _ => .idle, assertFailed := false, measured := [] }

def State.setStream (s : State) (i : ℕ) (st : Stream) : State :=
  { s with streams := Function.update s.streams i st }

theorem setStream_self (s : State) (i : ℕ) (st : Stream) : (s.setStream i st).streams i = st :=
  Function.update_self ..

theorem setStream_ne (s : State) {i j : ℕ} (st : Stream) (h : j ≠ i) :
    (s.setStream i st).streams j = s.streams j :=
  Function.update_of_ne h ..

inductive Act
  | shape (i : ℕ) (ctx : Option CalContext) (id width height : ℕ) (hotx hoty : ℤ)
    (hotMeasured : Bool) (t : ℤ)
  | plane (i : ℕ) (pos : Option Pos) (sample : Option PeerAbsSample) (drifted : Bool)
    (currentGen mapGen mapEpoch : ℕ)
  | cache (i : ℕ)
  deriving DecidableEq

/-- The target is served; the flag is a failed `debug_assert_ne`. -/
def serve (c : CursorCal) (target : Hotspot) : CursorCal × Bool :=
  ({ c with currentHot := target }, target = c.currentHot)

/-- `apply_confirmed_hotspot` from a lock of the cache to the next one: the cache, the shape's
state, a failed assertion and what is next. -/
def Pending.run (cache : Cache) (c : CursorCal) :
    Pending → Cache × CursorCal × Bool × Option Pending
  | .forgetServed => (forgetCursorCal cache c.id c.ctx.builtGen, c, false, none)
  | .check =>
    (cache, c, false, if cachedCursorCal cache c.id c.ctx.builtGen ≠
      some c.currentHot then some .restore else none)
  | .restore => (storeCursorCal cache c.id c.currentHot c.ctx.builtGen, c, false, none)
  | .forgetAndServeWire =>
    (forgetCursorCal cache c.id c.ctx.builtGen, (serve c c.wireHot).1, (serve c c.wireHot).2, none)
  | .storeAndServe accepted =>
    (storeCursorCal cache c.id accepted c.ctx.builtGen, (serve c accepted).1,
      (serve c accepted).2, none)

/-- The record of a measurement. -/
def Stream.record (st : Stream) (i : ℕ) (c : CursorCal) (m : Option Hotspot × ℕ × ℕ) :
    Measurement where
  stream := i
  shape := st.shapes
  stop := st.stops
  id := c.id
  builtGen := c.ctx.builtGen
  value := m.1
  seq := m.2.1
  mapEpoch := m.2.2

/-- One step of a stream: an event where it waits for one, or its next lock of the cache. -/
def step (s : State) : Act → Option State
  | .shape i ctx id width height hotx hoty hotMeasured t =>
    let st := s.streams i
    if st.ended ∨ st.pending.isSome then none
    else
      match onCursorShape build s.cache ctx id width height hotx hoty hotMeasured t with
      | none => some (s.setStream i { st with cal := none, ended := true })
      | some cal => some (s.setStream i { st with cal, shapes := st.shapes + 1 })
  | .plane i pos sample drifted currentGen mapGen mapEpoch =>
    let st := s.streams i
    if st.ended ∨ st.pending.isSome then none
    else
      match pos with
      | none => some s
      | some p =>
        let st := st.seenAt p
        match st.cal with
        | none => some (s.setStream i st)
        | some c =>
          let r := onCursorPlane build measure c p sample drifted currentGen mapGen mapEpoch
          let s := { s with measured := s.measured ++ (r.measured.map (st.record i c)).toList }
          some (s.setStream i { st with cal := r.cal, pending := r.pending, ended := r.cal.isNone })
  | .cache i =>
    let st := s.streams i
    match st.cal, st.pending with
    | some c, some pending =>
      let (cache, c, failed, next) := pending.run s.cache c
      some ({ s with cache, assertFailed := s.assertFailed || failed }.setStream i
        { st with cal := some c, pending := next })
    | _, _ => none

end Code

end BgDesk.CursorCalibration
