import Mathlib.Logic.Function.Basic
import BgDesk.Machine
import BgDesk.BytesCodec

/-!
# A capture connection

`src/ipc/drm.rs`: the service that reads the screen for a consumer on another socket. Four parties
meet in `handle_drm_conn`: the task of the connection, the thread that captures for it, the
consumer, and the threads that keep the cache of displays up to date for all connections.

* `Refresh` — `DRM_DISPLAY_CACHE`, `DRM_DISPLAY_GENERATION`, and `schedule_drm_cache_refresh`;
* `Conn` — a connection: `Conn.worker` is `drm_capture_worker`, `Conn.task` is `handle_drm_conn`
  from the message `DrmHello` on, statement by statement, and `Conn.consumer` is a consumer that
  acknowledges every frame it has received with one byte;
* `Sys.step` — one step of one of them.

The capture thread may put any frame or cursor shape into its channel at any time: when it grabs is
left open. What a `Conn` keeps of the past is in `produced`, `taken` and `log`; no step looks at it.
-/

namespace BgDesk
namespace Drm

/-! ## Displays -/

/-- `DrmDisplayInfo`. -/
structure DrmDisplayInfo where
  name : String
  crtcId : UInt32
  x : Int32
  y : Int32
  width : UInt32
  height : UInt32
  active : Bool
  renderNode : String
  device : String
  planeTransposed : Bool
  deriving DecidableEq

abbrev Displays : Type := List DrmDisplayInfo

/-- Where the thread of `schedule_drm_cache_refresh` stands. -/
inductive RefreshPc where
  /-- before `PENDING.store(false)` -/
  | clearing : RefreshPc
  /-- before the enumeration -/
  | enumerating : RefreshPc
  /-- before the cache is compared, with what was enumerated -/
  | writing : Displays → RefreshPc
  /-- before `DRM_DISPLAY_GENERATION` is bumped, if the cache was changed -/
  | bumping : (changed : Bool) → RefreshPc
  /-- before the first look at `PENDING` -/
  | checking : RefreshPc
  /-- before the slot is released -/
  | releasing : RefreshPc
  /-- before the second look at `PENDING` -/
  | rechecking : RefreshPc
  /-- before the slot is taken again -/
  | retaking : RefreshPc
  | done : RefreshPc
  deriving DecidableEq

/-- The displays that are there, what is known about them, and the threads that find out. -/
structure Refresh where
  topology : Displays
  cache : Displays
  /-- `DRM_DISPLAY_GENERATION`, which wraps around after `2 ^ 64` changes of the cache; a run is
  taken to have fewer -/
  generation : ℕ
  running : Bool
  pending : Bool
  /-- callers between the two lines that announce and that try to run -/
  callers : ℕ
  threads : List RefreshPc
  deriving DecidableEq

inductive RefreshAct where
  /-- the displays change -/
  | hotplug : Displays → RefreshAct
  /-- a caller: `PENDING.store(true)` -/
  | request : RefreshAct
  /-- a caller: `RUNNING.swap(true)`, and the thread if it can be spawned -/
  | swap : (spawned : Bool) → RefreshAct
  /-- a thread goes on -/
  | thread : (i : ℕ) → RefreshAct
  deriving DecidableEq

namespace Refresh

/-- A request is announced. -/
def request (r : Refresh) : Refresh := { r with pending := true, callers := r.callers + 1 }

/-- The loop of the thread, one step. -/
def thread (r : Refresh) (i : ℕ) : RefreshPc → Option Refresh
  | .clearing => some { r with pending := false, threads := r.threads.set i .enumerating }
  | .enumerating => some { r with threads := r.threads.set i (.writing r.topology) }
  | .writing fresh =>
    some { r with cache := fresh, threads := r.threads.set i (.bumping (r.cache ≠ fresh)) }
  | .bumping changed =>
    some { r with
      generation := if changed then r.generation + 1 else r.generation
      threads := r.threads.set i .checking }
  | .checking =>
    some { r with threads := r.threads.set i (if r.pending then .clearing else .releasing) }
  | .releasing => some { r with running := false, threads := r.threads.set i .rechecking }
  | .rechecking =>
    some { r with threads := r.threads.set i (if r.pending then .retaking else .done) }
  | .retaking =>
    some { r with
      running := true, threads := r.threads.set i (if r.running then .done else .clearing) }
  | .done => none

def step (r : Refresh) : RefreshAct → Option Refresh
  | .hotplug topology => some { r with topology }
  | .request => some r.request
  | .swap spawned =>
    if r.callers = 0 then none
    else if r.running then some { r with callers := r.callers - 1 }
    -- a thread that cannot be spawned drops the slot it was given
    else if spawned then
      some { r with callers := r.callers - 1, running := true, threads := r.threads ++ [.clearing] }
    else some { r with callers := r.callers - 1 }
  | .thread i => r.threads[i]?.bind (r.thread i)

end Refresh

/-! ## Messages -/

/-- `DmabufDesc`. -/
structure DmabufDesc where
  bufferId : UInt64
  width : UInt32
  height : UInt32
  format : UInt32
  modifier : UInt64
  fbId : UInt32
  numPlanes : UInt32
  offsets : List UInt32
  pitches : List UInt32
  hdrEotf : UInt32
  hdrMaxNits : UInt32
  hasFd : Bool
  planeRotation : Option UInt32
  cursorPos : Option (Int32 × Int32)
  deriving DecidableEq

/-- `DrmProducerMsg`. Of the descriptor of a buffer only matters whether there is one. -/
inductive DrmProducerMsg where
  | displays : Displays → DrmProducerMsg
  | frame : (desc : DmabufDesc) → (fd : Bool) → DrmProducerMsg
  | frameCpu : (width height : UInt32) → (data : Bytes) → (planeRotation : Option UInt32) →
      (cursorPos : Option (Int32 × Int32)) → DrmProducerMsg
  | cursor : (id : UInt64) → (width height : UInt32) → (hotx hoty : Int32) → (hotMeasured : Bool) →
      (colors : Bytes) → DrmProducerMsg
  deriving DecidableEq

def DrmProducerMsg.isFrame : DrmProducerMsg → Bool
  | .frame _ _ => true
  | .frameCpu _ _ _ _ _ => true
  | _ => false

def DrmProducerMsg.isCursor : DrmProducerMsg → Bool
  | .cursor _ _ _ _ _ _ _ => true
  | _ => false

/-- `Data`, those of its variants the task sends. -/
inductive Data where
  | drmDisplayList : Displays → Data
  | drmDisplaysChanged : Displays → Data
  | drmFrame : (width height : UInt32) → (planeRotation : Option UInt32) →
    (cursorPos : Option (Int32 × Int32)) → Data
  | drmFrameDmabuf : (desc : DmabufDesc) → (fd : Bool) → Data
  | drmCursor : (id : UInt64) → (width height : UInt32) → (hotx hoty : Int32) →
    (hotMeasured : Bool) → Data
  deriving DecidableEq

/-- What goes over the socket: a message of `send_msg`, or the bytes of `send_raw`. -/
inductive Item where
  | msg : Data → Item
  | raw : Bytes → Item
  deriving DecidableEq

/-- The calls of `send_msg` and `send_raw` for a message of the capture thread. -/
def DrmProducerMsg.items : DrmProducerMsg → List Item
  | .frame desc fd => [.msg (.drmFrameDmabuf { desc with hasFd := fd } fd)]
  | .frameCpu width height data planeRotation cursorPos =>
    [.msg (.drmFrame width height planeRotation cursorPos), .raw data]
  | .cursor id width height hotx hoty hotMeasured colors =>
    [.msg (.drmCursor id width height hotx hoty hotMeasured), .raw colors]
  | .displays _ => []

/-- Something that was sent as a whole. A message of the capture thread comes with its number, and
with how many messages had been taken from the channel by then. -/
inductive Sent where
  | list : Displays → Sent
  | changed : Displays → Sent
  | message : (serial taken : ℕ) → DrmProducerMsg → Sent
  deriving DecidableEq

namespace Sent

def items : Sent → List Item
  | .list displays => [.msg (.drmDisplayList displays)]
  | .changed displays => [.msg (.drmDisplaysChanged displays)]
  | .message _ _ m => m.items

def isFrame : Sent → Bool
  | .message _ _ m => m.isFrame
  | _ => false

end Sent

/-- `drm_ack_demand`. -/
def drmAckDemand (b : UInt8) : Option UInt8 :=
  let fps := b &&& 0x7f
  if b &&& 0x80 ≠ 0 ∧ 1 ≤ fps ∧ fps ≤ 120 then some fps else none

/-! ## The connection -/

/-- A message in hand, with its number. -/
abbrev Taken : Type := ℕ × DrmProducerMsg

/-- Where the task stands. -/
inductive TaskPc where
  /-- at `frame_rx.recv()` for the displays -/
  | awaitingDisplays : TaskPc
  | sendingList : Displays → TaskPc
  /-- at `recv_msg_timeout2` for `DrmStart` -/
  | awaitingStart : Displays → TaskPc
  /-- before `seen_gen` is loaded -/
  | starting : TaskPc
  /-- in the `drain_frame_acks` at the top of the loop, after so many reads -/
  | top : (reads : ℕ) → TaskPc
  /-- before `first` is chosen -/
  | gated : TaskPc
  /-- before the peer is authorized again -/
  | chosen : (first : Option Taken) → TaskPc
  /-- before `gen` is loaded -/
  | loading : (first : Option Taken) → TaskPc
  /-- before the cache is cloned -/
  | cloning : (first : Option Taken) → TaskPc
  /-- before the list is sent -/
  | sending : (first : Option Taken) → (fresh : Displays) → TaskPc
  /-- before `held_frame.take()` -/
  | taking : (first : Option Taken) → TaskPc
  /-- before `try_recv` -/
  | fetching : TaskPc
  /-- in the body of `while let Some(m)` -/
  | handling : Taken → TaskPc
  /-- in the second `drain_frame_acks` -/
  | settling : (reads : ℕ) → TaskPc
  /-- before the frame is sent or held -/
  | deciding : TaskPc
  | closed : TaskPc
  deriving DecidableEq

/-- Where `drm_capture_worker` stands. -/
inductive WorkerPc where
  | enumerating : WorkerPc
  | listing : Displays → WorkerPc
  | waiting : WorkerPc
  | refreshing : (opened : Bool) → WorkerPc
  | capturing : WorkerPc
  | gone : WorkerPc
  deriving DecidableEq

structure Conn where
  pc : TaskPc
  workerPc : WorkerPc
  /-- the channel `frame_tx` to `frame_rx` -/
  queue : List DrmProducerMsg
  /-- the channel `crtc_tx` to `crtc_rx` -/
  crtc : Option (String × UInt32 × Bool)
  seenGen : ℕ
  credit : ℤ
  demand : UInt8
  heldFrame : Option Taken
  latestFrame : Option Taken
  /-- all that was written to the socket -/
  wire : List Item
  /-- the bytes of the consumer that are not read yet -/
  acks : List UInt8
  /-- all messages that were put into the channel -/
  produced : List DrmProducerMsg
  /-- how many were taken from it -/
  taken : ℕ
  /-- all that was sent as a whole -/
  log : List Sent
  /-- how much of that the consumer has received -/
  received : ℕ
  /-- how many frames it has acknowledged -/
  acked : ℕ
  deriving DecidableEq

/-- `DRM_FRAME_CREDIT`. -/
def drmFrameCredit : ℤ := 2

/-- `MAX_ACK_READS`. -/
def maxAckReads : ℕ := 64

inductive WorkerAct where
  | enumerate : WorkerAct
  | list : WorkerAct
  | openReader : (ok : Bool) → WorkerAct
  | refresh : WorkerAct
  | produce : DrmProducerMsg → WorkerAct
  | stop : WorkerAct
  deriving DecidableEq

/-- What the task does next, with what its socket and its timers have to say. -/
inductive TaskAct where
  | go
  /-- `DrmStart` -/
  | start (display : ℤ) (needCpu : Bool)
  /-- `try_read` returns so many bytes -/
  | read (n : ℕ)
  /-- the wait for credit ends without a message -/
  | noMessage
  /-- of what is sent now, so many calls succeed -/
  | send (out : ℕ)
  /-- the connection ends: the peer is gone, has stalled or is not authorized any more, or an error
  -/
  | close
  deriving DecidableEq

inductive ConsumerAct where
  | receive : ConsumerAct
  | ack : UInt8 → ConsumerAct
  deriving DecidableEq

namespace Conn

/-- A connection whose peer has said `DrmHello`. -/
def accepted : Conn :=
  ⟨.awaitingDisplays, .enumerating, [], none, 0, drmFrameCredit, 0, none, none, [], [], [], 0,
    [], 0, 0⟩

/-- The channel holds two messages. -/
def produce (c : Conn) (m : DrmProducerMsg) : Option Conn :=
  if c.queue.length <
    2 then some { c with queue := c.queue ++ [m], produced := c.produced ++ [m] } else none

/-- `drm_capture_worker`; the flag says that it asks for a refresh. -/
def worker (c : Conn) (topology : Displays) : WorkerAct → Option (Conn × Bool)
  | .enumerate =>
    if c.workerPc = .enumerating then some ({ c with workerPc := .listing topology },
      false) else none
  | .list =>
    match c.workerPc with
    | .listing displays =>
      (c.produce (.displays displays)).map fun c => ({ c with workerPc := .waiting }, false)
    | _ => none
  | .openReader ok =>
    if c.workerPc = .waiting ∧ c.crtc ≠ none then some ({ c with workerPc := .refreshing ok },
      false) else none
  | .refresh =>
    match c.workerPc with
    | .refreshing opened => some ({ c with workerPc := if opened then .capturing else .gone }, true)
    | _ => none
  | .produce m =>
    if c.workerPc = .capturing ∧ (m.isFrame ∨ m.isCursor) then (c.produce m).map
      (·, false) else none
  | .stop => some ({ c with workerPc := .gone }, false)

def consumer (c : Conn) : ConsumerAct → Option Conn
  | .receive =>
    if c.received < c.log.length then some { c with received := c.received + 1 } else none
  | .ack b =>
    if c.acked < (c.log.take c.received).countP Sent.isFrame then
      some { c with acked := c.acked + 1, acks := c.acks ++ [b] }
    else none

/-- The next message from the channel. -/
def recv (c : Conn) : Option (Taken × Conn) :=
  match c.queue with
  | [] => none
  | m :: queue => some ((c.taken, m), { c with queue, taken := c.taken + 1 })

/-- `send_msg` and `send_raw`, of which so many calls succeed. -/
def send (c : Conn) (sent : Sent) (out : ℕ) (next : Conn → Conn) : Conn :=
  if sent.items.length ≤ out then next { c with
    wire := c.wire ++ sent.items, log := c.log ++ [sent] }
  else { c with wire := c.wire ++ sent.items.take out, pc := .closed }

/-- One `try_read` of `drain_frame_acks`. -/
def readAcks (c : Conn) (n : ℕ) : Option Conn :=
  if 1 ≤ n ∧ n ≤ 64 ∧ n ≤ c.acks.length then
    some { c with
      credit := min (c.credit + n) drmFrameCredit
      demand := ((c.acks.take n).reverse.findSome? drmAckDemand).getD c.demand
      acks := c.acks.drop n }
  else none

/-- `drain_frame_acks`, a read of it or its end; it goes on at `again`, or behind it at `next`.
`try_read` may say that there is nothing to read when there is. -/
def drainFrameAcks (c : Conn) (reads : ℕ) (again : ℕ → TaskPc) (next : TaskPc) :
    TaskAct → Option Conn
  | .read n =>
    if reads < maxAckReads then
      (c.readAcks n).map fun c =>
        { c with pc := if drmFrameCredit ≤ c.credit then next else again (reads + 1) }
    else none
  | .go => some { c with pc := next }
  | .close => some { c with pc := .closed }
  | _ => none

/-- The display the consumer has chosen. -/
def selected (displays : Displays) (display : ℤ) : Option DrmDisplayInfo :=
  if 0 ≤ display then displays[display.toNat]? else none

/-- `handle_drm_conn`, one statement. -/
def task (c : Conn) (generation : ℕ) (cache : Displays) (act : TaskAct) : Option Conn :=
  match c.pc, act with
  | .awaitingDisplays, .go =>
    match c.recv with
    | some ((_, .displays d), c) => some { c with pc := .sendingList d }
    | some (_, c) => some { c with pc := .closed }
    | none => none
  | .awaitingDisplays, .close => some { c with pc := .closed }
  | .sendingList d, .send out =>
    some (c.send (.list d) out fun c => { c with pc := .awaitingStart d })
  | .awaitingStart d, .start display needCpu =>
    match selected d display with
    | some info =>
      if info.crtcId = 0 then some { c with pc := .closed }
      else some { c with crtc := some (info.device, info.crtcId, needCpu), pc := .starting }
    | none => some { c with pc := .closed }
  | .awaitingStart _, .close => some { c with pc := .closed }
  | .starting, .go =>
    some { c with
      seenGen := generation, credit := drmFrameCredit, demand := 0, heldFrame := none, pc :=
        .top 0 }
  | .top reads, act => c.drainFrameAcks reads .top .gated act
  | .gated, .go =>
    if c.heldFrame.isSome ∧ 0 < c.credit then
      match c.recv with
      | some (m, c) => some { c with pc := .chosen (some m) }
      | none => some { c with pc := .chosen none }
    else
      match c.recv with
      | some (m, c) => some { c with pc := .chosen (some m) }
      | none => none
  | .gated, .noMessage => if c.credit ≤ 0 then some { c with pc := .chosen none } else none
  | .gated, .close => some { c with pc := .closed }
  | .chosen first, .go => some { c with pc := .loading first }
  | .chosen _, .close => some { c with pc := .closed }
  | .loading first, .go =>
    if generation ≠ c.seenGen then some { c with seenGen := generation, pc := .cloning first }
    else some { c with pc := .taking first }
  | .cloning first, .go => some { c with pc := .sending first cache }
  | .sending first fresh, .send out =>
    some (c.send (.changed fresh) out fun c => { c with pc := .taking first })
  | .taking first, .go =>
    let c := { c with latestFrame := c.heldFrame, heldFrame := none }
    match first with
    | some m => some { c with pc := .handling m }
    | none => some { c with pc := .fetching }
  | .fetching, .go =>
    match c.recv with
    | some (m, c) => some { c with pc := .handling m }
    | none => some { c with pc := .settling 0 }
  | .handling (i, m), .send out =>
    match m with
    | .frame _ _ | .frameCpu _ _ _ _ _ =>
      some { c with latestFrame := some (i, m), pc := .fetching }
    | .cursor _ _ _ _ _ _ _ =>
      some (c.send (.message i c.taken m) out fun c => { c with pc := .fetching })
    | .displays _ => some { c with pc := .fetching }
  | .settling reads, act => c.drainFrameAcks reads .settling .deciding act
  | .deciding, .send out =>
    if c.credit ≤
      0 then some { c with heldFrame := c.latestFrame, latestFrame := none, pc := .top 0 }
    else
      match c.latestFrame with
      | some (i, m) =>
        some ({ c with latestFrame := none }.send (.message i c.taken m) out fun c =>
          { c with credit := c.credit - 1, pc := .top 0 })
      | none => some { c with pc := .top 0 }
  | _, _ => none

end Conn

/-! ## All together -/

structure Sys where
  refresh : Refresh
  conn : Conn
  deriving DecidableEq

inductive Act where
  | refresh : RefreshAct → Act
  | worker : WorkerAct → Act
  | task : TaskAct → Act
  | consumer : ConsumerAct → Act
  deriving DecidableEq

namespace Sys

/-- The cache is up to date and nobody is at work on it. The connection does nothing before its
first step, so that it may as well be accepted later, when somebody is. -/
def start (displays : Displays) (generation : ℕ) : Sys :=
  ⟨⟨displays, displays, generation, false, false, 0, []⟩, .accepted⟩

def step (s : Sys) : Act → Option Sys
  | .refresh a => (s.refresh.step a).map fun refresh => { s with refresh }
  | .worker a => (s.conn.worker s.refresh.topology a).map fun (conn, asks) =>
    { conn, refresh := if asks then s.refresh.request else s.refresh }
  | .task a => (s.conn.task s.refresh.generation s.refresh.cache a).map fun conn => { s with conn }
  | .consumer a => (s.conn.consumer a).map fun conn => { s with conn }

end Sys

/-! ## A display and its consumer -/

def monitor : DrmDisplayInfo := ⟨"DP-1", 41, 0, 0, 640, 480, true, "", "card0", false⟩

def picture (n : UInt8) : DrmProducerMsg := .frameCpu 1 1 [n, n, n, n] none none

def arrow : DrmProducerMsg := .cursor 7 1 1 0 0 true [255, 255, 255, 255]

/-- The handshake, up to the loop. -/
def handshake : List Act :=
  [.worker .enumerate, .worker .list, .task .go, .task (.send 1), .task (.start 0 true),
    .worker (.openReader true),
    .worker .refresh, .task .go]

/-- A message is captured and goes through the loop; of the calls that send something all succeed.
-/
def iteration (m : DrmProducerMsg) : List Act :=
  [.worker (.produce m), .task .go, .task .go, .task .go, .task .go, .task .go, .task (.send 2),
    .task .go, .task .go,
    .task (.send 2)]

end Drm
end BgDesk
