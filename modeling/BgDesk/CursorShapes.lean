import BgDesk.ServiceSnapshot

/-!
# The shapes of the pointer

`run_cursor` of `server/input_service.rs`, with what it keeps: the messages by the handles of the
platform, the messages by the shapes that they show, and the one that is shown. A controller that is
sent only the id of a shape can ask for it.

* `Platform` — what depends on the build, and the functions that are not the subject here;
* `runCursor`, `Watch.step` — one call, in the pieces between which subscribers may come and go;
* `Consistent`, `Watch.Inv` — the two maps belong together, and every subscriber knows what is
  shown;
* `Watch.Served`, `shapes_can_be_fetched` — what follows after every call.

A message is known by the place of its `Arc`; a place is not used twice.
-/

namespace BgDesk
namespace Cursor

open Services (Message MouseCursorSub ServiceInner Subscribers)

/-! ## Shapes and their messages -/

/-- `CursorData`. -/
structure CursorData where
  id : UInt64
  hotx : Int32
  hoty : Int32
  width : Int32
  height : Int32
  colors : Bytes
  deriving DecidableEq

/-- What a shape looks like, whatever it is called. -/
def CursorData.look (cd : CursorData) : Int32 × Int32 × Int32 × Int32 × Bytes :=
  (cd.width, cd.height, cd.hotx, cd.hoty, cd.colors)

/-- The build, `cursor_content_id`, `compress`, and the protobuf encoding of a shape. -/
structure Platform where
  /-- `target_os = "linux"` with the feature `drm` -/
  drm : Bool
  macos : Bool
  contentId : Int32 × Int32 × Int32 × Int32 × Bytes → UInt64
  compress : Bytes → Bytes
  encode : CursorData → Bytes

/-- The shape that is sent: named by content, and compressed. -/
def Platform.shape (p : Platform) (raw : CursorData) : CursorData :=
  { raw with id := p.contentId raw.look, colors := p.compress raw.colors }

/-- An `Arc<Message>` that holds a shape, or the default message. -/
structure Shared where
  place : ℕ
  data : Option CursorData
  deriving DecidableEq

/-- What a subscriber is sent. -/
def Shared.message (p : Platform) (m : Shared) : Message :=
  match m.data with
  | some cd => .cursorData cd.id (p.encode cd)
  | none => .other []

/-- The bytes of a message in `CURSOR_SHAPES`. -/
def Shared.size (m : Shared) : ℕ := m.data.elim 0 fun cd => cd.colors.length

/-- A `HashMap` from a number to a message. -/
abbrev Messages : Type := AList (fun _ : UInt64 => Shared)

/-- `CursorShapes`. -/
structure CursorShapes where
  shapes : Messages
  bytes : ℕ

namespace CursorShapes

def clear (_ : CursorShapes) : CursorShapes := ⟨∅, 0⟩

/-- `keep`: the message kept for this shape, `msg` if there was none. -/
def keep (c : CursorShapes) (cd : CursorData) (msg : Shared) : CursorShapes × Shared :=
  match c.shapes.lookup cd.id with
  | some kept => (c, kept)
  | none => (⟨c.shapes.insert cd.id msg, c.bytes + cd.colors.length⟩, msg)

/-- `shared_cursor_shape`. -/
def sharedCursorShape (c : CursorShapes) (msg : Shared) : CursorShapes × Shared :=
  match msg.data with
  | none => (c, msg)
  | some cd => c.keep cd msg

end CursorShapes

/-- `StateCursor`. -/
structure StateCursor where
  hcursor : UInt64
  cursorData : Shared
  cachedCursorData : Messages

/-- The caches of the service, and the number of messages that have been made. -/
structure Caches where
  state : StateCursor
  shapes : CursorShapes
  made : ℕ

namespace Caches

/-- `StateCursor::default()`, with no shapes. -/
def new (made : ℕ) : Caches := ⟨⟨0, ⟨made, none⟩, ∅⟩, ⟨∅, 0⟩, made + 1⟩

/-- `cursor_data_message`. -/
def cursorDataMessage (c : Caches) (id : UInt64) : Option Shared := c.shapes.shapes.lookup id

/-- `cursor_shape_message`. -/
def cursorShapeMessage (p : Platform) (c : Caches) (raw : CursorData) : Caches × Shared :=
  match c.cursorDataMessage (p.shape raw).id with
  | some msg => (c, msg)
  | none =>
    let (shapes, msg) := c.shapes.sharedCursorShape ⟨c.made, some (p.shape raw)⟩
    ({ c with shapes, made := c.made + 1 }, msg)

/-- The handles and the shapes start over together. -/
def startOver (c : Caches) (sending : Shared) : Caches :=
  { c with
    state := { c.state with cachedCursorData := ∅ }
    shapes := (c.shapes.clear.sharedCursorShape sending).1 }

def CURSOR_CACHE_MAX : ℕ := 64
def CURSOR_HANDLES_MAX : ℕ := 4096
def CURSOR_SHAPES_BYTES_MAX : ℕ := 32 * 2 ^ 20

/-- The ceiling of the DRM build. -/
def limitDrm (p : Platform) (c : Caches) (sending : Shared) : Caches :=
  if p.drm ∧ CURSOR_CACHE_MAX ≤ c.state.cachedCursorData.entries.length then c.startOver
    sending else c

/-- `limit_cursor_handles`. -/
def limitCursorHandles (c : Caches) (sending : Shared) : Caches :=
  if CURSOR_HANDLES_MAX ≤ c.state.cachedCursorData.entries.length ∨
    CURSOR_SHAPES_BYTES_MAX ≤ c.shapes.bytes then
    c.startOver sending
  else c

/-- A message is filed under a handle, except on macOS. -/
def file (p : Platform) (c : Caches) (key : UInt64) (msg : Shared) : Caches :=
  if p.macos then c
  else { c with
    state := { c.state with cachedCursorData := c.state.cachedCursorData.insert key msg } }

/-- What `run_cursor` does for a handle that is not filed, with a shape of the platform. -/
def capture (p : Platform) (c : Caches) (hcursor : UInt64) (raw : CursorData) : Caches × Shared :=
  let (c, msg) := c.cursorShapeMessage p raw
  let c := (c.limitDrm p msg).limitCursorHandles msg
  (c.file p (if p.drm then raw.id else hcursor) msg, msg)

/-- A message is shown. -/
def showing (c : Caches) (hcursor : UInt64) (msg : Shared) : Caches :=
  { c with state := { c.state with hcursor, cursorData := if msg.place ≠
    c.state.cursorData.place then msg else c.state.cursorData } }

end Caches

/-! ## The service -/

/-- Where a call of `run_cursor` stands. -/
inductive Phase where
  | idle
  /-- before `snapshot` looks for new subscribers -/
  | snapshot
  /-- before the callback of `snapshot` sends -/
  | sending
  /-- before the `ServiceSwap` of `snapshot` is dropped -/
  | dropping
  deriving DecidableEq

/-- The service of the pointer. The code does not keep what the platform gave. -/
structure Watch where
  inner : ServiceInner MouseCursorSub
  caches : Caches
  phase : Phase
  captured : List CursorData

inductive Act where
  | onSubscribe : (id : Int32) → Act
  | onUnsubscribe : (id : Int32) → Act
  /-- `run_cursor` up to its first message, with what `get_cursor` and `get_cursor_data` return -/
  | runCursor : Except String (Option UInt64) → Except String CursorData → Act
  | snapshot : Act
  | swapSend : Act
  | swapDrop : Act
  | reset : Act

namespace Watch

/-- `new_cursor`. -/
def new : Watch := ⟨⟨∅, ∅, true⟩, Caches.new 0, .idle, []⟩

/-- The message is sent, unless it is the one that is shown already. -/
def showMessage (p : Platform) (w : Watch) (hcursor : UInt64) (msg : Shared) : Watch :=
  { w with
    inner := if msg.place ≠ w.caches.state.cursorData.place then w.inner.sendWhere (fun _ _ => true)
      (msg.message p) else w.inner
    caches := w.caches.showing hcursor msg
    phase := .snapshot }

/-- `run_cursor` up to the snapshot. With an error it is over at once. -/
def runCursor (p : Platform) (w : Watch) (cursor : Except String (Option UInt64))
    (data : Except String CursorData) : Watch :=
  match cursor with
  | .error _ => w
  | .ok none => { w with phase := .snapshot }
  | .ok (some hcursor) =>
    if hcursor ≠ w.caches.state.hcursor then
      match w.caches.state.cachedCursorData.lookup hcursor with
      | some cached => w.showMessage p hcursor cached
      | none =>
        match data with
        | .error _ => w
        | .ok raw =>
          let (caches, msg) := w.caches.capture p hcursor raw
          { w with caches, captured := w.captured ++ [raw] }.showMessage p
            (if p.drm then raw.id else hcursor) msg
    else { w with phase := .snapshot }

def step (p : Platform) (w : Watch) : Act → Option Watch
  | .onSubscribe id => some { w with inner := w.inner.onSubscribe (Services.viewer id) }
  | .onUnsubscribe id => some { w with inner := w.inner.onUnsubscribe id }
  | .runCursor cursor data => if w.phase = .idle then some (w.runCursor p cursor data) else none
  | .snapshot =>
    if w.phase = .snapshot then
      some { w with phase := if w.inner.newSubscribes.entries.length > 0 then .sending else .idle }
    else none
  | .swapSend =>
    if w.phase = .sending then
      some { w with
        inner := w.inner.sendNewSubscribes (w.caches.state.cursorData.message p), phase :=
          .dropping }
    else none
  | .swapDrop =>
    if w.phase = .dropping then some { w with
      inner := w.inner.swapNewSubscribes, phase := .idle } else none
  | .reset => if w.phase = .idle then some { w with caches := Caches.new w.caches.made } else none

end Watch

/-! ## The caches -/

namespace Caches

variable {p : Platform} {captured : List CursorData} {c : Caches} {msg : Shared} {raw : CursorData}

/-- The message is the one that is kept for its shape. -/
def Holds (c : Caches) (msg : Shared) : Prop :=
  ∃ cd, msg.data = some cd ∧ c.cursorDataMessage cd.id = some msg

/-- What is kept under an id is a shape of the platform with this id; what is filed under a handle
is kept; and the bytes are counted. -/
structure Consistent (p : Platform) (captured : List CursorData) (c : Caches) : Prop where
  kept : ∀ id m, c.cursorDataMessage id = some m →
    m.place < c.made ∧ ∃ raw ∈ captured, m.data = some (p.shape raw) ∧ (p.shape raw).id = id
  unique : ∀ id m id' m', c.cursorDataMessage id = some m → c.cursorDataMessage id' = some m' →
    m.place = m'.place → m = m'
  filed : ∀ handle m, c.state.cachedCursorData.lookup handle = some m → c.Holds m
  bytes : c.shapes.bytes = (c.shapes.shapes.entries.map fun e => e.2.size).sum

/-- What is shown is kept, and nothing else is in its place. -/
structure Shown (c : Caches) : Prop where
  holds : ∀ cd, c.state.cursorData.data = some cd →
    c.cursorDataMessage cd.id = some c.state.cursorData
  place : c.state.cursorData.place < c.made
  apart : ∀ id m, c.cursorDataMessage id = some m → m.place = c.state.cursorData.place →
    m = c.state.cursorData

theorem consistent_new (made : ℕ) : (new made).Consistent p captured :=
  ⟨nofun, nofun, nofun, rfl⟩

theorem shown_new (made : ℕ) : (new made).Shown := ⟨nofun, Nat.lt_succ_self made, nofun⟩

/-- The number of bytes after a shape has been put in. -/
theorem sum_size_insert {shapes : Messages} {id : UInt64} {m : Shared}
    (h : shapes.lookup id = none) :
    ((shapes.insert id m).entries.map fun e => e.2.size).sum = m.size +
      (shapes.entries.map fun e => e.2.size).sum := by
  rw [AList.entries_insert_of_notMem (AList.lookup_eq_none.mp h), List.map_cons, List.sum_cons]

/-- A message that has just been made is kept for its shape. -/
theorem consistent_insert (hc : c.Consistent p captured) (hraw : raw ∈ captured)
    (hnone : c.cursorDataMessage (p.shape raw).id = none) : Consistent p captured { c with
      shapes := ⟨c.shapes.shapes.insert (p.shape raw).id ⟨c.made, some (p.shape raw)⟩,
        c.shapes.bytes + (p.shape raw).colors.length⟩
      made := c.made + 1 } := by
  have hlookup :
    ∀ id m, (c.shapes.shapes.insert (p.shape raw).id ⟨c.made, some (p.shape raw)⟩).lookup id =
      some m →
      (id = (p.shape raw).id ∧ m = ⟨c.made, some (p.shape raw)⟩) ∨
        c.cursorDataMessage id = some m := by
    intro id m hm
    by_cases hid : id = (p.shape raw).id
    · rw [hid, AList.lookup_insert] at hm
      exact .inl ⟨hid, (Option.some.inj hm).symm⟩
    · rw [AList.lookup_insert_ne hid] at hm
      exact .inr hm
  refine ⟨?_, ?_, ?_, ?_⟩
  · intro id m hm
    obtain ⟨rfl, rfl⟩ | hold := hlookup id m hm
    · exact ⟨Nat.lt_succ_self _, raw, hraw, rfl, rfl⟩
    · obtain ⟨hplace, hshape⟩ := hc.kept id m hold
      exact ⟨Nat.lt_succ_of_lt hplace, hshape⟩
  · intro id m id' m' hm hm' hplace
    obtain ⟨rfl, rfl⟩ | hold := hlookup id m hm
    · obtain ⟨-, rfl⟩ | hold' := hlookup id' m' hm'
      · rfl
      · exact absurd hplace (Nat.ne_of_gt (hc.kept id' m' hold').1)
    · obtain ⟨rfl, rfl⟩ | hold' := hlookup id' m' hm'
      · exact absurd hplace (Nat.ne_of_lt (hc.kept id m hold).1)
      · exact hc.unique id m id' m' hold hold' hplace
  · intro handle m hm
    obtain ⟨cd, hcd, hheld⟩ := hc.filed handle m hm
    refine ⟨cd, hcd, ?_⟩
    have hne : cd.id ≠ (p.shape raw).id := by
      intro heq
      rw [heq, hnone] at hheld
      cases hheld
    exact (AList.lookup_insert_ne hne).trans hheld
  · simp only
    rw [sum_size_insert hnone, hc.bytes, Nat.add_comm]
    rfl

/-- What `cursor_shape_message` returns is kept. It is an old message or one that has just been
made. -/
structure Named (p : Platform) (captured : List CursorData) (c c' : Caches) (msg : Shared) :
  Prop where
  consistent : c'.Consistent p captured
  holds : c'.Holds msg
  cursorData : c'.state.cursorData = c.state.cursorData
  made : c.made ≤ c'.made
  old : c.Holds msg ∨ msg.place = c.made

theorem cursorShapeMessage_named (hc : c.Consistent p captured) (hraw : raw ∈ captured) :
    Named p captured c (c.cursorShapeMessage p raw).1 (c.cursorShapeMessage p raw).2 := by
  rw [cursorShapeMessage]
  cases hlookup : c.cursorDataMessage (p.shape raw).id with
  | some m =>
    obtain ⟨-, raw', -, hdata, hid⟩ := hc.kept _ m hlookup
    have hholds : c.Holds m := ⟨_, hdata, hid ▸ hlookup⟩
    exact ⟨hc, hholds, rfl, le_rfl, .inl hholds⟩
  | none =>
    have hkeep : c.shapes.sharedCursorShape ⟨c.made, some (p.shape raw)⟩ =
        (⟨c.shapes.shapes.insert (p.shape raw).id ⟨c.made, some (p.shape raw)⟩,
          c.shapes.bytes + (p.shape raw).colors.length⟩, ⟨c.made, some (p.shape raw)⟩) := by
      have hnone : c.shapes.shapes.lookup (p.shape raw).id = none := hlookup
      simp only [CursorShapes.sharedCursorShape, CursorShapes.keep, hnone]
    simp only [hkeep]
    refine ⟨consistent_insert hc hraw hlookup, ⟨p.shape raw, rfl, ?_⟩, rfl, Nat.le_succ _, .inr rfl⟩
    exact AList.lookup_insert _

/-- Starting over keeps the message that is sent. -/
theorem consistent_startOver (hc : c.Consistent p captured) (hmsg : c.Holds msg) :
    (c.startOver msg).Consistent p captured ∧ (c.startOver msg).Holds msg := by
  obtain ⟨cd, hcd, hheld⟩ := hmsg
  obtain ⟨hplace, raw, hraw, hdata, hid⟩ := hc.kept _ msg hheld
  have hshapes :
      (c.startOver msg).shapes = ⟨(∅ : Messages).insert cd.id msg, 0 + cd.colors.length⟩ := by
    simp only [startOver, CursorShapes.clear, CursorShapes.sharedCursorShape, hcd,
      CursorShapes.keep, AList.lookup_empty]
  have hlookup : ∀ id m, (c.startOver msg).cursorDataMessage id = some m → id = cd.id ∧
      m = msg := by
    intro id m hm
    rw [cursorDataMessage, hshapes] at hm
    by_cases hne : id = cd.id
    · rw [hne, AList.lookup_insert] at hm
      exact ⟨hne, (Option.some.inj hm).symm⟩
    · rw [AList.lookup_insert_ne hne] at hm
      cases hm
  refine ⟨⟨?_, ?_, nofun, ?_⟩, cd, hcd, ?_⟩
  · intro id m hm
    obtain ⟨rfl, rfl⟩ := hlookup id m hm
    exact ⟨hplace, raw, hraw, hdata, hid⟩
  · intro id m id' m' hm hm' _
    rw [(hlookup id m hm).2, (hlookup id' m' hm').2]
  · rw [hshapes, sum_size_insert (AList.lookup_empty _), Shared.size, hcd, Nat.add_comm]
    rfl
  · rw [cursorDataMessage, hshapes]
    exact AList.lookup_insert _

variable {c' : Caches}

theorem Named.startOver (h : Named p captured c c' msg) :
    Named p captured c (c'.startOver msg) msg := by
  obtain ⟨hconsistent, hholds⟩ := consistent_startOver h.consistent h.holds
  exact ⟨hconsistent, hholds, h.cursorData, h.made, h.old⟩

theorem Named.limitDrm (h : Named p captured c c' msg) :
    Named p captured c (c'.limitDrm p msg) msg := by
  rw [Caches.limitDrm]
  split
  · exact h.startOver
  · exact h

theorem Named.limitCursorHandles (h : Named p captured c c' msg) :
    Named p captured c (c'.limitCursorHandles msg) msg := by
  rw [Caches.limitCursorHandles]
  split
  · exact h.startOver
  · exact h

theorem Named.file (h : Named p captured c c' msg) (key : UInt64) :
    Named p captured c (c'.file p key msg) msg := by
  rw [Caches.file]
  split
  · exact h
  · refine ⟨⟨h.consistent.kept, h.consistent.unique, ?_, h.consistent.bytes⟩, h.holds, h.cursorData,
      h.made, h.old⟩
    intro handle m hm
    by_cases hkey : handle = key
    · rw [hkey, AList.lookup_insert] at hm
      obtain rfl := Option.some.inj hm
      exact h.holds
    · rw [AList.lookup_insert_ne hkey] at hm
      exact h.consistent.filed handle m hm

/-- **Under every ceiling**, the message that is sent stays the one that is kept for its shape. -/
theorem capture_named (hc : c.Consistent p captured) (hraw : raw ∈ captured) (hcursor : UInt64) :
    Named p captured c (c.capture p hcursor raw).1 (c.capture p hcursor raw).2 :=
  (cursorShapeMessage_named hc hraw).limitDrm.limitCursorHandles.file _

/-- What is shown next is the message, even if it stays what it was. -/
theorem showing_eq (hshown : c.Shown) (hmsg : c.Holds msg ∨ msg.place = c.made)
    (hcursor : UInt64) (hsame : c'.state.cursorData = c.state.cursorData) :
    (c'.showing hcursor msg).state.cursorData = msg := by
  rw [showing, hsame]
  split
  · rfl
  · rename_i hplace
    obtain ⟨cd, -, hheld⟩ | hfresh := hmsg
    · exact (hshown.apart _ _ hheld (not_not.mp hplace)).symm
    · exact absurd (hfresh ▸ not_not.mp hplace) (Nat.ne_of_gt hshown.place)

theorem Named.showing (h : Named p captured c c' msg) (hshown : c.Shown) (hcursor : UInt64) :
    (c'.showing hcursor msg).Consistent p captured ∧ (c'.showing hcursor msg).Shown ∧
      (c'.showing hcursor msg).state.cursorData = msg := by
  have hdata := showing_eq hshown h.old hcursor h.cursorData
  obtain ⟨cd, hcd, hheld⟩ := h.holds
  refine ⟨⟨h.consistent.kept, h.consistent.unique, h.consistent.filed, h.consistent.bytes⟩,
    ⟨?_, ?_, ?_⟩, hdata⟩
  · rw [hdata]
    intro cd' hcd'
    obtain rfl := Option.some.inj (hcd'.symm.trans hcd)
    exact hheld
  · rw [hdata]
    exact (h.consistent.kept _ msg hheld).1
  · rw [hdata]
    exact fun id m hm hplace => h.consistent.unique id m _ msg hm hheld hplace

end Caches

/-! ## The subscribers -/

/-- The shape that a message names. -/
def named : Message → Option UInt64
  | .cursorData id _ => some id
  | .cursorId id => some id
  | _ => none

/-- What a subscriber has been sent since it subscribed. -/
def received (sub : MouseCursorSub) : List Message := sub.inner.tx.getD []

/-- The shape that the last message about the pointer names. -/
def lastCursor (sub : MouseCursorSub) : Option UInt64 := ((received sub).filterMap named).getLast?

/-- The full data of the shape that has this id, as the platform gave it. -/
def FullData (p : Platform) (captured : List CursorData) (id : UInt64) (m : Message) : Prop :=
  ∃ raw ∈ captured, (p.shape raw).id = id ∧ m = .cursorData id (p.encode (p.shape raw))

/-- The subscriber has had the full data of every shape that it was sent the id of, or may be sent
it of next time. -/
structure Faithful (p : Platform) (captured : List CursorData) (sub : MouseCursorSub) : Prop where
  opened : sub.inner.tx.isSome
  full : Each (fun before m => ∀ id, m = .cursorId id → ∃ d ∈ before, FullData p captured id d)
    (received sub)
  cached : ∀ id m, sub.cached.lookup id = some m → m = .cursorId id ∧
    ∃ d ∈ received sub, FullData p captured id d

section

variable {p : Platform} {captured : List CursorData} {sub : MouseCursorSub}

variable {m : Message}

theorem FullData.mono {more : List CursorData} {id : UInt64} (h : FullData p captured id m) :
    FullData p (captured ++ more) id m := by
  obtain ⟨raw, hraw, h⟩ := h
  exact ⟨raw, List.mem_append_left _ hraw, h⟩

theorem Faithful.mono (h : Faithful p captured sub) (more : List CursorData) :
    Faithful p (captured ++ more) sub := by
  refine ⟨h.opened, ?_, ?_⟩
  · intro before m after heq id hm
    obtain ⟨d, hd, hfull⟩ := h.full before m after heq id hm
    exact ⟨d, hd, hfull.mono⟩
  · intro id m hm
    obtain ⟨hid, d, hd, hfull⟩ := h.cached id m hm
    exact ⟨hid, d, hd, hfull.mono⟩

/-- One more message, which is not the id of a shape that the subscriber has not had. -/
theorem Faithful.put {inner : Services.ConnInner} (h : Faithful p captured sub)
    (hinner : inner.tx = sub.inner.tx.map (· ++ [m]))
    (hm : ∀ id, m = .cursorId id → ∃ d ∈ received sub, FullData p captured id d) :
    Faithful p captured { sub with inner } ∧ received { sub with inner } = received sub ++ [m] := by
  obtain ⟨l, hl⟩ := Option.isSome_iff_exists.mp h.opened
  have hold : received sub = l := by rw [received, hl]; rfl
  have hnew : received { sub with inner } = received sub ++ [m] := by
    rw [received, hinner, hl, hold]; rfl
  refine ⟨⟨?_, ?_, ?_⟩, hnew⟩
  · rw [hinner, hl]
    rfl
  · rw [hnew]
    refine h.full.append (each_singleton ?_)
    rw [List.append_nil]
    exact hm
  · rw [hnew]
    intro id m' hm'
    obtain ⟨hid, d, hd, hfull⟩ := h.cached id m' hm'
    exact ⟨hid, d, List.mem_append_left _ hd, hfull⟩

theorem lastCursor_put {before : List Message} {sub : MouseCursorSub}
    (h : received sub = before ++ [m]) :
    lastCursor sub = (named m).or ((before.filterMap named).getLast?) := by
  rw [lastCursor, h, List.filterMap_append]
  cases hm : named m with
  | none => simp [hm]
  | some id => simp [hm]

/-- A shape is sent, in full or by its id. -/
theorem Faithful.send_shape {msg : Shared} {raw : CursorData} (h : Faithful p captured sub)
    (hraw : raw ∈ captured) (hmsg : msg.data = some (p.shape raw)) :
    Faithful p captured (sub.send (msg.message p)) ∧
      lastCursor (sub.send (msg.message p)) = some (p.shape raw).id := by
  rw [Shared.message, hmsg]
  have hfull :
    FullData p captured (p.shape raw).id (.cursorData (p.shape raw).id (p.encode (p.shape raw))) :=
    ⟨raw, hraw, rfl, rfl⟩
  cases hlookup : sub.cached.lookup (p.shape raw).id with
  | some m =>
    obtain ⟨rfl, hhad⟩ := h.cached _ m hlookup
    have hsend : sub.send (.cursorData (p.shape raw).id (p.encode (p.shape raw))) =
        { sub with inner := sub.inner.send (.cursorId (p.shape raw).id) } := by
      rw [MouseCursorSub.send, hlookup]
    have hput :
      Faithful p captured { sub with inner := sub.inner.send (.cursorId (p.shape raw).id) } ∧ _ :=
      h.put rfl (by rintro id ⟨⟩; exact hhad)
    obtain ⟨hfaithful, hreceived⟩ := hput
    rw [hsend]
    exact ⟨hfaithful, by rw [lastCursor_put hreceived]; rfl⟩
  | none =>
    have hsend : sub.send (.cursorData (p.shape raw).id (p.encode (p.shape raw))) =
        { inner := sub.inner.send (.cursorData (p.shape raw).id (p.encode (p.shape raw)))
          cached := sub.cached.insert (p.shape raw).id (.cursorId (p.shape raw).id) } := by
      rw [MouseCursorSub.send, hlookup]
    have hput : Faithful p captured
        { sub with inner := sub.inner.send (.cursorData (p.shape raw).id (p.encode (p.shape raw)))
          } ∧ _ := h.put rfl (fun _ heq => by cases heq)
    obtain ⟨hfaithful, hreceived⟩ := hput
    rw [hsend]
    refine ⟨⟨hfaithful.opened, hfaithful.full, ?_⟩, ?_⟩
    · intro id m hm
      by_cases hid : id = (p.shape raw).id
      · subst hid
        rw [AList.lookup_insert] at hm
        refine ⟨(Option.some.inj hm).symm, _, ?_, hfull⟩
        change _ ∈ received { sub with inner := _ }
        rw [hreceived]
        exact List.mem_append_right _ (List.mem_singleton_self _)
      · rw [AList.lookup_insert_ne hid] at hm
        exact hfaithful.cached id m hm
    · have hlast := lastCursor_put hreceived
      exact hlast

/-- The default message names no shape. -/
theorem Faithful.send_default {msg : Shared} (h : Faithful p captured sub)
    (hmsg : msg.data = none) : Faithful p captured (sub.send (msg.message p)) ∧
      lastCursor (sub.send (msg.message p)) = lastCursor sub := by
  rw [Shared.message, hmsg]
  have hput : Faithful p captured { sub with inner := sub.inner.send (.other []) } ∧ _ :=
    h.put rfl nofun
  obtain ⟨hfaithful, hreceived⟩ := hput
  exact ⟨hfaithful, lastCursor_put hreceived⟩

end

/-! ### Everybody -/

/-- Every subscriber of a map. -/
def All (P : MouseCursorSub → Prop) (m : Subscribers MouseCursorSub) : Prop :=
  ∀ e ∈ m.entries, P e.2

section

variable {P Q : MouseCursorSub → Prop} {m : Subscribers MouseCursorSub}

theorem All.mono (h : All P m) (hPQ : ∀ sub, P sub → Q sub) :
    All Q m := fun e he => hPQ e.2 (h e he)

theorem All.lookup (h : All P m) {id : Int32} {sub : MouseCursorSub}
    (hsub : m.lookup id = some sub) : P sub :=
  h ⟨id, sub⟩ (AList.mem_lookup_iff.mp hsub)

theorem All.mapValues {f : Int32 → MouseCursorSub → MouseCursorSub} (h : All P m)
    (hf : ∀ id sub, P sub → Q (f id sub)) : All Q (Services.mapValues f m) := by
  intro e he
  obtain ⟨old, hold, rfl⟩ := List.mem_map.mp he
  exact hf old.1 old.2 (h old hold)

theorem All.insert (h : All P m) {id : Int32} {sub : MouseCursorSub} (hsub : P sub) :
    All P (m.insert id sub) := by
  intro e he
  rw [AList.entries_insert] at he
  rcases List.mem_cons.mp he with rfl | he
  · exact hsub
  · exact h e ((List.kerase_sublist _ _).subset he)

theorem All.erase (h : All P m) (id : Int32) : All P (m.erase id) :=
  fun e he => h e ((List.kerase_sublist _ _).subset he)

/-- The loop of `swap_new_subscribes`. -/
theorem All.foldl {l : List (Sigma fun _ : Int32 => MouseCursorSub)} (h : All P m)
    (hl : ∀ e ∈ l, P e.2) :
    All P (l.foldl (fun m e => m.insert (Services.Subscriber.id e.2) e.2) m) := by
  induction l generalizing m with
  | nil => exact h
  | cons e l ih =>
    rw [List.foldl_cons]
    exact ih (h.insert (hl e List.mem_cons_self)) fun e he => hl e (List.mem_cons_of_mem _ he)

end

namespace Watch

/-- Somebody who knows what is shown, or who came so late that nothing was sent yet. -/
def Knows (late : Prop) (c : Caches) (sub : MouseCursorSub) : Prop :=
  ∀ cd, c.state.cursorData.data = some cd → lastCursor sub = some cd.id ∨
    lastCursor sub = none ∧ late

/-- What holds between two pieces of `run_cursor`. In some runs nobody comes late. -/
structure Inv (p : Platform) (late : Prop) (w : Watch) : Prop where
  needSnapshot : w.inner.needSnapshot = true
  consistent : w.caches.Consistent p w.captured
  shown : w.caches.Shown
  faithful : All (Faithful p w.captured) w.inner.subscribes
  waiting : All (Faithful p w.captured) w.inner.newSubscribes
  knows : All (Knows late w.caches) w.inner.subscribes
  fresh : w.phase ≠ .dropping → All (fun sub => lastCursor sub = none) w.inner.newSubscribes
  told : w.phase = .dropping → All (Knows late w.caches) w.inner.newSubscribes

section

variable {p : Platform} {late : Prop} {w w' : Watch}

theorem new_inv : new.Inv p late :=
  ⟨rfl, Caches.consistent_new 0, Caches.shown_new 0, nofun, nofun, nofun, nofun, nofun⟩

theorem viewer_faithful (captured : List CursorData) (id : Int32) :
    Faithful p captured (Services.Subscriber.ofConn (Services.viewer id)) :=
  ⟨rfl, each_nil _, nofun⟩

/-- A viewer subscribes. -/
theorem Inv.onSubscribe (h : w.Inv p late) {id : Int32} (hlate : w.phase = .dropping → late) :
    Inv p late { w with inner := w.inner.onSubscribe (Services.viewer id) } := by
  by_cases hsub : (Services.viewer id).id ∈ w.inner.subscribes
  · have hinner : w.inner.onSubscribe (Services.viewer id) = w.inner := if_pos hsub
    rw [hinner]
    exact h
  · have hinner : w.inner.onSubscribe (Services.viewer id) = { w.inner with
        newSubscribes := w.inner.newSubscribes.insert (Services.viewer id).id
          (Services.Subscriber.ofConn (Services.viewer id)) } := by
      rw [ServiceInner.onSubscribe, if_neg hsub, if_pos h.needSnapshot]
    rw [hinner]
    refine ⟨h.needSnapshot, h.consistent, h.shown, h.faithful,
      h.waiting.insert (viewer_faithful _ id), h.knows, ?_, ?_⟩
    · exact fun hphase => (h.fresh hphase).insert rfl
    · exact fun hphase => (h.told hphase).insert fun cd _ => .inr ⟨rfl, hlate hphase⟩

/-- A viewer leaves. -/
theorem Inv.onUnsubscribe (h : w.Inv p late) (id : Int32) :
    Inv p late { w with inner := w.inner.onUnsubscribe id } := by
  rw [ServiceInner.onUnsubscribe]
  split
  · exact ⟨h.needSnapshot, h.consistent, h.shown, h.faithful.erase id, h.waiting, h.knows.erase id,
      h.fresh, h.told⟩
  · exact ⟨h.needSnapshot, h.consistent, h.shown, h.faithful, h.waiting.erase id, h.knows,
      fun hphase => (h.fresh hphase).erase id, fun hphase => (h.told hphase).erase id⟩

/-- What is sent to those who may not know it yet. -/
theorem knows_send {captured : List CursorData} {c : Caches} {sub : MouseCursorSub}
    (hc : c.Consistent p captured) (hshown : c.Shown) (hsub : Faithful p captured sub) :
    Faithful p captured (sub.send (c.state.cursorData.message p)) ∧
      ∀ cd, c.state.cursorData.data = some cd →
        lastCursor (sub.send (c.state.cursorData.message p)) = some cd.id := by
  cases hdata : c.state.cursorData.data with
  | none => exact ⟨(hsub.send_default hdata).1, nofun⟩
  | some cd =>
    obtain ⟨-, raw, hraw, hshape, -⟩ := hc.kept _ _ (hshown.holds cd hdata)
    obtain ⟨hfaithful, hlast⟩ := hsub.send_shape hraw hshape
    refine ⟨hfaithful, ?_⟩
    intro cd' hcd'
    rw [hlast, ← Option.some.inj hcd', Option.some.inj (hdata.symm.trans hshape)]

/-- A message goes to all viewers. -/
theorem Inv.showMessage {caches : Caches} {captured : List CursorData} {msg : Shared}
    (h : w.Inv p late) (hcaptured : ∃ more, captured = w.captured ++ more)
    (hnamed : Caches.Named p captured w.caches caches msg) (hphase : w.phase = .idle)
    (hcursor : UInt64) : Inv p late ({ w with caches, captured }.showMessage p hcursor msg) := by
  obtain ⟨more, rfl⟩ := hcaptured
  obtain ⟨hconsistent, hshown, hdata⟩ := hnamed.showing h.shown hcursor
  have hfresh := h.fresh (by rw [hphase]; nofun)
  have hsubs := h.faithful.mono fun sub hsub => hsub.mono more
  have hnews := h.waiting.mono fun sub hsub => hsub.mono more
  have hphase' :
      (Watch.showMessage p { w with caches, captured := w.captured ++ more } hcursor msg).phase ≠
        .dropping := nofun
  rw [Watch.showMessage]
  simp only [hnamed.cursorData]
  split
  · have hknows : ∀ sub, Faithful p (w.captured ++ more) sub →
        Faithful p (w.captured ++ more) (sub.send (msg.message p)) ∧
          Knows late (caches.showing hcursor msg) (sub.send (msg.message p)) := by
      intro sub hsub
      obtain ⟨hfaithful, hlast⟩ := knows_send hconsistent hshown hsub
      rw [hdata] at hfaithful hlast
      refine ⟨hfaithful, fun cd hcd => .inl (hlast cd ?_)⟩
      rwa [hdata] at hcd
    refine ⟨h.needSnapshot, hconsistent, hshown, ?_, hnews, ?_, fun _ => hfresh, nofun⟩
    · exact hsubs.mapValues fun id sub hsub => (hknows sub hsub).1
    · exact hsubs.mapValues fun id sub hsub => (hknows sub hsub).2
  · rename_i hplace
    -- the message is the one that is shown already
    have hsame : (caches.showing hcursor msg).state.cursorData = w.caches.state.cursorData := by
      simp only [Caches.showing, hnamed.cursorData]
      rw [if_neg hplace]
    refine ⟨h.needSnapshot, hconsistent, hshown, hsubs, hnews, ?_, fun _ => hfresh, nofun⟩
    intro e he cd hcd
    rw [hsame] at hcd
    exact h.knows e he cd hcd

/-- The service looks at the cursor. -/
theorem Inv.runCursor (h : w.Inv p late) (hphase : w.phase = .idle)
    (cursor : Except String (Option UInt64)) (data : Except String CursorData) :
    Inv p late (w.runCursor p cursor data) := by
  have hskip : Inv p late { w with phase := .snapshot } :=
    ⟨h.needSnapshot, h.consistent, h.shown, h.faithful, h.waiting, h.knows,
      fun _ => h.fresh (by rw [hphase]; nofun), nofun⟩
  unfold Watch.runCursor
  split
  · exact h
  · exact hskip
  · rename_i hcursor
    split
    · split
      · rename_i cached hcached
        have hholds := h.consistent.filed hcursor cached hcached
        have hnamed : Caches.Named p w.captured w.caches w.caches cached :=
          ⟨h.consistent, hholds, rfl, le_rfl, .inl hholds⟩
        exact h.showMessage ⟨[], (List.append_nil _).symm⟩ hnamed hphase hcursor
      · split
        · exact h
        · rename_i raw
          have hconsistent : w.caches.Consistent p (w.captured ++ [raw]) := by
            refine ⟨?_, h.consistent.unique, h.consistent.filed, h.consistent.bytes⟩
            intro id m hm
            obtain ⟨hplace, raw', hraw', hshape⟩ := h.consistent.kept id m hm
            exact ⟨hplace, raw', List.mem_append_left _ hraw', hshape⟩
          have hnamed := Caches.capture_named hconsistent
            (List.mem_append_right _ (List.mem_singleton_self raw)) hcursor
          exact h.showMessage ⟨[raw], rfl⟩ hnamed hphase _
    · exact hskip

/-- Nobody subscribes between the last message of a snapshot and the end of the call. -/
def Punctual (w : Watch) : Act → Prop
  | .onSubscribe _ => w.phase ≠ .dropping
  | _ => True

instance (w : Watch) (a : Act) : Decidable (w.Punctual a) :=
  match a with
  | .onSubscribe _ => inferInstanceAs (Decidable (_ ≠ _))
  | .onUnsubscribe _ | .runCursor _ _ | .snapshot | .swapSend | .swapDrop | .reset =>
    inferInstanceAs (Decidable True)

/-- **Every step keeps the invariant.** -/
theorem step_inv {a : Act} (h : w.Inv p late) (hlate : ¬ w.Punctual a → late)
    (hstep : w.step p a = some w') : w'.Inv p late := by
  cases a with
  | onSubscribe id =>
    obtain rfl := Option.some.inj hstep
    exact h.onSubscribe fun hphase => hlate fun hpunctual => hpunctual hphase
  | onUnsubscribe id =>
    obtain rfl := Option.some.inj hstep
    exact h.onUnsubscribe id
  | runCursor cursor data =>
    obtain ⟨hphase, hrun⟩ := Option.ite_none_right_eq_some.mp hstep
    obtain rfl := Option.some.inj hrun
    exact h.runCursor hphase cursor data
  | snapshot =>
    obtain ⟨hphase, hrun⟩ := Option.ite_none_right_eq_some.mp hstep
    obtain rfl := Option.some.inj hrun
    refine ⟨h.needSnapshot, h.consistent, h.shown, h.faithful, h.waiting, h.knows,
      fun _ => h.fresh (by rw [hphase]; nofun), ?_⟩
    intro hdropping
    simp only at hdropping
    split at hdropping <;> cases hdropping
  | swapSend =>
    obtain ⟨hphase, hrun⟩ := Option.ite_none_right_eq_some.mp hstep
    obtain rfl := Option.some.inj hrun
    have hsend : ∀ sub, Faithful p w.captured sub → _ := fun sub hsub =>
      knows_send h.consistent h.shown hsub
    refine ⟨h.needSnapshot, h.consistent, h.shown, h.faithful, ?_, h.knows,
      fun hne => absurd rfl hne, fun _ => ?_⟩
    · exact h.waiting.mapValues fun id sub hsub => (hsend sub hsub).1
    · exact h.waiting.mapValues fun id sub hsub cd hcd => .inl ((hsend sub hsub).2 cd hcd)
  | swapDrop =>
    obtain ⟨hphase, hrun⟩ := Option.ite_none_right_eq_some.mp hstep
    obtain rfl := Option.some.inj hrun
    exact ⟨h.needSnapshot, h.consistent, h.shown, h.faithful.foldl h.waiting, nofun,
      h.knows.foldl (h.told hphase),
      fun _ => nofun, nofun⟩
  | reset =>
    obtain ⟨hphase, hrun⟩ := Option.ite_none_right_eq_some.mp hstep
    obtain rfl := Option.some.inj hrun
    exact ⟨h.needSnapshot, Caches.consistent_new _, Caches.shown_new _, h.faithful, h.waiting,
      fun _ _ => nofun,
      fun _ => h.fresh (by rw [hphase]; nofun), fun hdropping =>
        absurd (hphase.symm.trans hdropping) nofun⟩

/-- The platform gave no two shapes that look different and have one id. -/
def CollisionFree (p : Platform) (w : Watch) : Prop :=
  ∀ a ∈ w.captured, ∀ b ∈ w.captured, p.contentId a.look = p.contentId b.look → a.look = b.look

/-- What a controller can rely on. -/
structure Served (p : Platform) (w : Watch) : Prop where
  /-- the shape that is shown can be asked for -/
  fetched : ∀ cd, w.caches.state.cursorData.data = some cd →
    w.caches.cursorDataMessage cd.id = some w.caches.state.cursorData
  /-- what is filed under a handle is the message that is kept for its shape -/
  filed : ∀ handle m, w.caches.state.cachedCursorData.lookup handle = some m →
    ∃ cd, m.data = some cd ∧ w.caches.cursorDataMessage cd.id = some m
  bytes : w.caches.shapes.bytes = (w.caches.shapes.shapes.entries.map fun e => e.2.size).sum
  /-- the last message about the pointer names the shape that is shown -/
  told : ∀ id sub, w.inner.subscribes.lookup id = some sub ∨
    w.inner.newSubscribes.lookup id = some sub →
    ∀ cd, w.caches.state.cursorData.data = some cd → ∀ last, lastCursor sub = some last →
      last = cd.id
  /-- the full data of a shape comes before its id alone -/
  full : ∀ id sub, w.inner.subscribes.lookup id = some sub ∨
    w.inner.newSubscribes.lookup id = some sub →
    ∀ before after shape, received sub = before ++ Message.cursorId shape :: after →
      ∀ raw ∈ w.captured, p.contentId raw.look = shape →
      Message.cursorData shape (p.encode (p.shape raw)) ∈ before

/-- Shapes that look the same are the same when they are sent. -/
theorem shape_eq_of_look {a b : CursorData} (h : a.look = b.look) : p.shape a = p.shape b := by
  obtain ⟨ida, hotxa, hotya, wa, ha, ca⟩ := a
  obtain ⟨idb, hotxb, hotyb, wb, hb, cb⟩ := b
  simp only [CursorData.look, Prod.mk.injEq] at h
  obtain ⟨rfl, rfl, rfl, rfl, rfl⟩ := h
  rfl

theorem Inv.served (h : w.Inv p late) (hidle : w.phase = .idle) (hfree : w.CollisionFree p) :
    w.Served p := by
  refine ⟨h.shown.holds, h.consistent.filed, h.consistent.bytes, ?_, ?_⟩
  · rintro id sub (hsub | hsub) cd hcd last hlast
    · obtain hknows | ⟨hnone, -⟩ := h.knows.lookup hsub cd hcd
      · exact Option.some.inj (hlast.symm.trans hknows)
      · rw [hnone] at hlast
        cases hlast
    · have hnone := (h.fresh (by rw [hidle]; nofun)).lookup hsub
      rw [hnone] at hlast
      cases hlast
  · intro id sub hsub before after shape heq raw hraw hshape
    have hfaithful : Faithful p w.captured sub := hsub.elim h.faithful.lookup h.waiting.lookup
    obtain ⟨d, hd, raw', hraw', hid, rfl⟩ := hfaithful.full before _ after heq shape rfl
    have hlook := hfree raw' hraw' raw hraw (hid.trans hshape.symm)
    rwa [shape_eq_of_look hlook] at hd

end

end Watch

/-- **Shapes can be fetched**: after every call of `run_cursor`, in every order of calls, resets,
and subscribers who come and go. If nobody comes in the last moment of a snapshot, then everybody
who has joined the others knows what is shown. -/
theorem shapes_can_be_fetched {p : Platform} {acts : List Act} {w : Watch}
    (hrun : exec (Watch.step p) Watch.new acts = some w) (hidle : w.phase = .idle)
    (hfree : w.CollisionFree p) : w.Served p ∧
      (Along (Watch.step p) Watch.Punctual Watch.new acts →
        ∀ id sub, w.inner.subscribes.lookup id = some sub →
        ∀ cd, w.caches.state.cursorData.data = some cd → lastCursor sub = some cd.id) := by
  refine ⟨?_, ?_⟩
  · have hinv : w.Inv p True :=
      exec_invariant (fun _ _ _ h hstep => Watch.step_inv h (fun _ => trivial) hstep)
        Watch.new_inv hrun
    exact hinv.served hidle hfree
  · intro hpunctual id sub hsub cd hcd
    have hinv : w.Inv p False :=
      exec_invariant_along (fun _ _ _ h hc hstep => Watch.step_inv h (fun hnot => hnot hc) hstep)
        Watch.new_inv hpunctual hrun
    obtain hknows | ⟨-, hlate⟩ := hinv.knows.lookup hsub cd hcd
    · exact hknows
    · exact hlate.elim

/-- A build in which a shape is named by its width. -/
def byWidth : Platform := ⟨false, false, fun look => look.1.toUInt32.toUInt64, id, fun _ => []⟩

/-- Two handles for one shape, another shape, and the first shape again, with a viewer from the
beginning and a late one. -/
def twoShapes : List Act :=
  let shape := fun handle width =>
    Act.runCursor (.ok (some handle)) (.ok ⟨handle, 0, 0, width, 8, [1, 2, 3, 4]⟩)
  [.onSubscribe 1, shape 7 8, .snapshot, .swapSend, .swapDrop, shape 9 8, .snapshot, shape 5 16,
    .snapshot, .onSubscribe 2,
    shape 7 8, .snapshot, .swapSend, .swapDrop, .runCursor (.ok (some 7)) (.error "lost"),
      .snapshot]

theorem shapes_can_be_fetched_two :
    ∃ w, exec (Watch.step byWidth) Watch.new twoShapes = some w ∧ w.Served byWidth ∧
    w.caches.state.cachedCursorData.entries.length = 3 ∧ w.caches.shapes.bytes = 8 := by
  have hrun : ((exec (Watch.step byWidth) Watch.new twoShapes).any fun w =>
      w.phase = .idle ∧ w.caches.state.cachedCursorData.entries.length = 3 ∧
        w.caches.shapes.bytes = 8 ∧
        w.captured.all fun a => w.captured.all fun b =>
          byWidth.contentId a.look ≠ byWidth.contentId b.look ∨ a.look = b.look) =
      true := by decide +kernel
  obtain ⟨w, hw, hp⟩ := (Option.any_eq_true _ _).mp hrun
  obtain ⟨hidle, hhandles, hbytes, hcollision⟩ := of_decide_eq_true hp
  have hfree : w.CollisionFree byWidth := by
    intro a ha b hb hid
    obtain hne | hlook :=
      of_decide_eq_true (List.all_eq_true.mp (List.all_eq_true.mp hcollision a ha) b hb)
    · exact absurd hid hne
    · exact hlook
  exact ⟨w, hw, (shapes_can_be_fetched hw hidle hfree).1, hhandles, hbytes⟩

end Cursor
end BgDesk
