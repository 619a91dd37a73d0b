import BgDesk.MuxLink
import Mathlib.Data.List.Nodup

/-!
# A whole tunnel

`TunnelHandle` and `tunnel_loop` of `src/port_forward_mux.rs` at one end, `PortForwardMux` and
its connection at the other, and a transport between them that keeps the order and loses
nothing. Any number of channels are opened; every task, both loops and both demultiplexers take
their steps in any order.

The controller's tasks hand `open`, `data` and `close` to a bounded queue and `window_update`
to another one; which of the two the loop takes from next is the action's to say.

* `Tunnel.step` — one step of anything in the tunnel;
* `Tunnel.link` — the tunnel seen from one channel;
* `Tunnel.Whole` — what holds at all times: channels do not share numbers, and every channel
  is sound (`Link.Sound`).
-/

namespace BgDesk

/-- Frames the controller's data queue holds. -/
def dataQueueFrames : ℕ := 128

/-- `fetch_add` on an `AtomicI32` wraps. -/
def wrapI32 (n : ℤ) : ℤ := (n + 2 ^ 31) % 2 ^ 32 - 2 ^ 31

/-- The frames a channel has sent or is to be sent, as opposed to its updates. -/
def ofChan (id : ℤ) (fs : List Frame) : List Frame := fs.filter fun f => f.ordered && f.id = id

/-- The updates for a channel. -/
def addsOf (id : ℤ) (fs : List Frame) : List ℕ := adds (fs.filter fun f => f.id = id)

section Filters

variable {id : ℤ} {fs : List Frame}

@[simp] theorem ofChan_nil : ofChan id [] = [] := rfl

@[simp] theorem addsOf_nil : addsOf id [] = [] := rfl

@[simp] theorem ofChan_append (fs gs : List Frame) :
    ofChan id (fs ++ gs) = ofChan id fs ++ ofChan id gs := List.filter_append fs gs

@[simp] theorem addsOf_append (fs gs : List Frame) :
    addsOf id (fs ++ gs) = addsOf id fs ++ addsOf id gs := by
  simp [addsOf, adds]

theorem ofChan_cons (id : ℤ) (f : Frame) (fs : List Frame) :
    ofChan id (f :: fs) = ofChan id [f] ++ ofChan id fs := ofChan_append [f] fs

theorem addsOf_cons (id : ℤ) (f : Frame) (fs : List Frame) :
    addsOf id (f :: fs) = addsOf id [f] ++ addsOf id fs := addsOf_append [f] fs

theorem ofChan_of_ne (h : ∀ f ∈ fs, f.id ≠ id) : ofChan id fs = [] := by
  apply List.filter_eq_nil_iff.mpr
  intro f hf
  simp [h f hf]

theorem addsOf_of_ne (h : ∀ f ∈ fs, f.id ≠ id) : addsOf id fs = [] := by
  rw [addsOf, List.filter_eq_nil_iff.mpr (by simpa using h)]
  rfl

theorem ofChan_of_eq (h : ∀ f ∈ fs, f.id = id) : ofChan id fs = fs.filter Frame.ordered := by
  apply List.filter_congr
  intro f hf
  simp [h f hf]

theorem addsOf_of_eq (h : ∀ f ∈ fs, f.id = id) : addsOf id fs = adds fs := by
  rw [addsOf, List.filter_eq_self.mpr (by simpa using h)]

theorem ofChan_unordered (h : ∀ f ∈ fs, f.ordered = false) : ofChan id fs = [] := by
  apply List.filter_eq_nil_iff.mpr
  intro f hf
  simp [h f hf]

/-- Only updates are not ordered. -/
theorem add?_of_ordered {f : Frame} (h : f.ordered = true) : f.add? = none := by
  cases f with
  | windowUpdate => cases h
  | openChannel | opened | data | close => rfl

theorem adds_ordered (h : ∀ f ∈ fs, f.ordered = true) : adds fs = [] := by
  apply List.filterMap_eq_nil_iff.mpr
  intro f hf
  exact add?_of_ordered (h f hf)

theorem addsOf_ordered (h : ∀ f ∈ fs, f.ordered = true) : addsOf id fs = [] := by
  apply adds_ordered
  intro f hf
  exact h f (List.mem_of_mem_filter hf)

theorem mem_ofChan {f : Frame} : f ∈ ofChan id fs ↔ f ∈ fs ∧ f.ordered = true ∧ f.id = id := by
  simp [ofChan]

end Filters

/-- Both ends of a tunnel, the transport between them, and what has passed. Channels never
leave the lists: one whose task has returned stays as a record. -/
structure Tunnel where
  /-- the channels of `TunnelHandle`, with their tasks -/
  ctl : List Chan
  /-- `next_id` -/
  nextId : ℤ
  /-- the ordered queue of `tunnel_loop` -/
  dataQ : List Frame
  /-- its control queue -/
  controlQ : List Frame
  teardown : Bool
  /-- `tunnel_loop` has returned, and dropped its ends of the queues -/
  gone : Bool
  /-- under way to the controlled side -/
  up : List Frame
  mux : Mux
  /-- under way to the controller -/
  down : List Frame
  /-- the `prebuf` each channel was opened with -/
  prebufs : List Bytes
  /-- everything the controller's tasks handed to their sink -/
  sentUp : List Frame
  /-- everything the controlled side has handled -/
  handledUp : List Frame
  /-- everything the controlled side handed to its connection -/
  sentDown : List Frame
  handledDown : List Frame
  /-- what was still in the queues when their receivers were dropped -/
  lostUp : List Frame
  lostDown : List Frame
  /-- the channels whose task has taken a `Close` off its queue -/
  took : List (Side × ℤ)
  deriving DecidableEq

namespace Tunnel

/-- A tunnel as `set_muxed` and `PortForwardMux::new` start it. -/
def new (loginTarget : String) : Tunnel :=
  { ctl := [], nextId := 1, dataQ := [], controlQ := [], teardown := false, gone := false, up := []
    mux := .new loginTarget, down := [], prebufs := [], sentUp := [], handledUp :=
      [], sentDown := []
    handledDown := [], lostUp := [], lostDown := [], took := [] }

/-- The search loop of `open`: the first number from `next` on that the map does not hold,
and the counter after it. -/
def freeId (cs : List Chan) : ℕ → ℤ → Option (ℤ × ℤ)
  | 0, _ => none
  | fuel + 1, next =>
    if hasEntry next cs then freeId cs fuel (wrapI32 (next + 1)) else some (next,
      wrapI32 (next + 1))

/-- `TunnelHandle::open`. -/
def openChannel (s : Tunnel) (host : String) (port : ℤ) (prebuf : Bytes) : Option Tunnel :=
  if s.gone then some s
  else if maxChannels ≤ entries s.ctl then some s
  else
    (freeId s.ctl (entries s.ctl + 1) s.nextId).map fun (id, next) =>
      { s with
        ctl := s.ctl ++ [localChan id host port prebuf]
        nextId := next
        prebufs := s.prebufs ++ [prebuf] }

/-- `on_frame`. -/
def onFrame (cs : List Chan) (f : Frame) : List Chan := onEntry f.id (fun c => c.hear f) cs

/-- The ordered queue has room for what a task is about to send. -/
def room (s : Tunnel) (out : Option Frame) : Bool :=
  out.all fun f => !f.ordered || decide (s.dataQ.length < dataQueueFrames)

/-- What can happen next. -/
inductive Act where
  /-- a listener opens a channel -/
  | openChannel (host : String) (port : ℤ) (prebuf : Bytes)
  /-- the controller's task `k` takes a step -/
  | ctlTask (k : ℕ) (a : ChanAct)
  /-- the controller's task `k` removes its entry and returns -/
  | reap (k : ℕ)
  /-- `tunnel_loop` sends the head of the data queue -/
  | pickData
  /-- `tunnel_loop` sends the head of the control queue -/
  | pickControl
  /-- `tunnel_loop` reads the next frame -/
  | ctlFrame
  /-- `tunnel_loop` ends with `close_all` -/
  | ctlCloseAll
  /-- and returns -/
  | ctlHangUp
  /-- the controlled side's main loop reads the next frame -/
  | muxFrame (permitted : Bool)
  /-- the controlled side's task `k` takes a step -/
  | muxTask (k : ℕ) (a : ChanAct)
  /-- the controlled side's connection writes the head of its queue -/
  | muxWrite
  | muxCloseAll
  | muxHangUp
  deriving DecidableEq

/-- What the controller's task `k` has done, and what it has handed to its sink. -/
def handOver (s : Tunnel) (k : ℕ) (c c' : Chan) (out : Option Frame) : Tunnel :=
  { s with
    ctl := s.ctl.set k c'
    dataQ := s.dataQ ++ out.toList.filter Frame.ordered
    controlQ := s.controlQ ++ out.toList.filter fun f => !f.ordered
    sentUp := s.sentUp ++ out.toList
    took := if c.tookClose c' then (.controller, c.id) :: s.took else s.took }

/-- The controller's task `k` takes a step; a full queue makes it wait. -/
def ctlTask (s : Tunnel) (k : ℕ) (a : ChanAct) : Option Tunnel :=
  match s.ctl[k]? with
  | none => none
  | some c =>
    match c.step .controller s.gone s.teardown a with
    | none => none
    | some (c', out) => if s.room out then some (s.handOver k c c' out) else none

/-- `channels.remove(&id)`, whichever entry the map holds under the number. -/
def reap (s : Tunnel) (k : ℕ) : Option Tunnel :=
  match s.ctl[k]? with
  | none => none
  | some c =>
    if c.phase = .reaping then
      some { s with ctl := onEntry c.id Chan.drop (s.ctl.set k { c with phase := .ended }) }
    else none

/-- The frames a step of the controlled side added to its queue. -/
def added (m m' : Mux) : List Frame := (m'.tx.drop m.tx.length).map Prod.snd

/-- The number of the task, if it has taken a `Close` in this step. -/
def tookClose (m m' : Mux) (k : ℕ) : List (Side × ℤ) :=
  match m.chans[k]?, m'.chans[k]? with
  | some c, some c' => if c.tookClose c' then [(.controlled, c.id)] else []
  | _, _ => []

/-- One step. -/
def step (s : Tunnel) : Act → Option Tunnel
  | .openChannel host port prebuf => s.openChannel host port prebuf
  | .ctlTask k a => s.ctlTask k a
  | .reap k => s.reap k
  | .pickData =>
    match s.teardown, s.dataQ with
    | false, f :: rest => some { s with dataQ := rest, up := s.up ++ [f] }
    | _, _ => none
  | .pickControl =>
    match s.teardown, s.controlQ with
    | false, f :: rest => some { s with controlQ := rest, up := s.up ++ [f] }
    | _, _ => none
  | .ctlFrame =>
    match s.teardown, s.down with
    | false, f :: rest =>
      some { s with down := rest, ctl := onFrame s.ctl f, handledDown := s.handledDown ++ [f] }
    | _, _ => none
  | .ctlCloseAll => some { s with ctl := s.ctl.map Chan.drop, teardown := true }
  | .ctlHangUp =>
    if s.teardown then
      some { s with
        dataQ := [], controlQ := [], gone := true, lostUp := s.dataQ ++ s.controlQ ++ s.lostUp }
    else none
  | .muxFrame permitted =>
    match s.up with
    | [] => none
    | f :: rest =>
      (s.mux.step (.frame permitted f)).map fun m =>
        { s with
          up := rest, mux := m
          handledUp := s.handledUp ++ [f], sentDown := s.sentDown ++ added s.mux m }
  | .muxTask k a =>
    (s.mux.step (.task k a)).map fun m =>
      { s with
        mux := m, sentDown := s.sentDown ++ added s.mux m, took := tookClose s.mux m k ++ s.took }
  | .muxWrite =>
    match s.mux.tx with
    | [] => none
    | e :: rest => some { s with mux := { s.mux with tx := rest }, down := s.down ++ [e.2] }
  | .muxCloseAll => (s.mux.step .closeAll).map fun m => { s with mux := m }
  | .muxHangUp =>
    (s.mux.step .hangUp).map fun m =>
      { s with mux := m, lostDown := s.mux.tx.map Prod.snd ++ s.lostDown }

/-! ## The tunnel seen from one channel -/

/-- Everything under way to the controlled side, or lost on the way. -/
def upward (s : Tunnel) : List Frame := s.up ++ s.dataQ ++ s.controlQ ++ s.lostUp

/-- Everything under way to the controller, or lost on the way. -/
def downward (s : Tunnel) : List Frame := s.down ++ s.mux.tx.map Prod.snd ++ s.lostDown

/-- The controlled side's channel under a number: as `on_open` will start it as long as it has
not handled the `open`, and as good as over if it refused it. -/
def peerChan (s : Tunnel) (id : ℤ) : Chan :=
  match s.mux.chans.find? fun d => d.id = id with
  | some d => d
  | none =>
    if ofChan id s.handledUp = [] then Mux.newChan id "" false channelWindow
    else { Mux.newChan id "" false channelWindow with phase := .ended, entry := false }

/-- The tunnel seen from one of the controller's channels. -/
def link (s : Tunnel) (c : Chan) (prebuf : Bytes) : Link :=
  { ctl :=
      { chan := c, gone := s.gone, teardown := s.teardown
        sent := ofChan c.id s.sentUp, handled := ofChan c.id s.handledUp
        wire := ofChan c.id s.upward, updates := addsOf c.id s.upward
        took := decide ((.controller, c.id) ∈ s.took) }
    peer :=
      { chan := s.peerChan c.id, gone := s.mux.gone, teardown := s.mux.teardown
        sent := ofChan c.id s.sentDown, handled := ofChan c.id s.handledDown
        wire := ofChan c.id s.downward, updates := addsOf c.id s.downward
        took := decide ((.controlled, c.id) ∈ s.took) }
    prebuf := prebuf }

/-! ## What holds at all times -/

/-- The number the `k`-th channel gets, until the counter has come round. -/
def idOf (k : ℕ) : ℤ := wrapI32 (1 + k)

variable {k w : ℕ} {cs : List Chan} {c c' d d' : Chan} {s s' : Tunnel} {out : Option Frame}
  {id port : ℤ} {f : Frame} {rest : List Frame} {p : Bytes} {host : String} {a : Act}

/-- The first 2³² channels of a tunnel get different numbers. -/
theorem idOf_inj {j : ℕ} (hj : j < 2 ^ 32) (hk : k < 2 ^ 32) (h : idOf j = idOf k) : j = k := by
  unfold idOf wrapI32 at h
  omega

/-- Channels are numbered in the order they are opened. -/
structure Numbered (s : Tunnel) : Prop where
  ids : s.ctl.map Chan.id = (List.range s.ctl.length).map idOf
  next : s.nextId = idOf s.ctl.length

/-- Two channels with one number are one channel. -/
theorem index_eq (h : (cs.map Chan.id).Nodup) {j : ℕ} (hj : cs[j]? = some c) (hk : cs[k]? = some d)
    (hid : c.id = d.id) : j = k := by
  have hlt : j < (cs.map Chan.id).length := by
    rw [List.length_map]
    exact (List.getElem?_eq_some_iff.mp hj).1
  apply (List.getElem?_inj hlt h).mp
  simp [hj, hk, hid]

/-- Every frame there is or has been. -/
def frames (s : Tunnel) : List Frame :=
  s.sentUp ++ s.handledUp ++ s.upward ++ s.sentDown ++ s.handledDown ++ s.downward

/-- The books of a tunnel: who has which number, and which frames are where. -/
structure Books (s : Tunnel) : Prop where
  ids : (s.ctl.map Chan.id).Nodup
  peers : (s.mux.chans.map Chan.id).Nodup
  /-- the controlled side only has channels it was asked for -/
  born : ∀ d ∈ s.mux.chans, ofChan d.id s.handledUp ≠ []
  known : ∀ f ∈ s.frames, f.id ∈ s.ctl.map Chan.id
  takers : ∀ x ∈ s.took, x.2 ∈ s.ctl.map Chan.id
  data : ∀ f ∈ s.dataQ, f.ordered = true
  control : ∀ f ∈ s.controlQ, f.ordered = false
  lostUp : s.gone = false → s.lostUp = []
  lostDown : s.mux.gone = false → s.lostDown = []
  length : s.prebufs.length = s.ctl.length

/-- What holds of a tunnel at all times. -/
structure Whole (s : Tunnel) : Prop where
  books : s.Books
  sound : ∀ (k : ℕ) (c : Chan) (p : Bytes), s.ctl[k]? = some c → s.prebufs[k]? = some p →
    (s.link c p).Sound

/-- A step under which every channel of the controller stays or moves as a channel can. -/
theorem Whole.moved (h : s.Whole) (hbooks : s'.Books) (hprebufs : s'.prebufs = s.prebufs)
    (hlink : ∀ (k : ℕ) (c' : Chan) (p : Bytes), s'.ctl[k]? = some c' → s.prebufs[k]? = some p →
      ∃ c, s.ctl[k]? = some c ∧
        (s'.link c' p = s.link c p ∨ (s.link c p).Stepped (s'.link c' p))) : s'.Whole := by
  refine ⟨hbooks, ?_⟩
  intro k c' p hk hp
  rw [hprebufs] at hp
  obtain ⟨c, hc, heq | hs⟩ := hlink k c' p hk hp
  · rw [heq]
    exact h.sound k c p hc hp
  · exact (h.sound k c p hc hp).step hs

section Views

variable {s : Tunnel} {id : ℤ}

theorem ofChan_upward (h : s.Books) :
    ofChan id s.upward = ofChan id s.up ++ ofChan id s.dataQ ++ ofChan id s.lostUp := by
  simp [upward, ofChan_unordered h.control]

theorem addsOf_upward (h : s.Books) :
    addsOf id s.upward = addsOf id s.up ++ addsOf id s.controlQ ++ addsOf id s.lostUp := by
  simp [upward, addsOf_ordered h.data]

theorem ofChan_downward : ofChan id s.downward =
    ofChan id s.down ++ ofChan id (s.mux.tx.map Prod.snd) ++ ofChan id s.lostDown := by
  simp [downward]

end Views

/-! ### The controller's steps -/

/-- What a channel sends is its own, whatever else is under way. -/
theorem ofChan_out (hid : ∀ f ∈ out.toList, f.id = c.id) (id : ℤ) :
    ofChan id out.toList = if c.id = id then out.toList.filter Frame.ordered else [] := by
  split_ifs with heq
  · exact ofChan_of_eq (by simpa [heq] using hid)
  · exact ofChan_of_ne fun f hf hfid => heq ((hid f hf).symm.trans hfid)

theorem addsOf_out (hid : ∀ f ∈ out.toList, f.id = c.id) (id : ℤ) :
    addsOf id out.toList = if c.id = id then adds out.toList else [] := by
  split_ifs with heq
  · exact addsOf_of_eq (by simpa [heq] using hid)
  · exact addsOf_of_ne fun f hf hfid => heq ((hid f hf).symm.trans hfid)

theorem ofChan_filter (id : ℤ) (fs : List Frame) :
    ofChan id (fs.filter Frame.ordered) = ofChan id fs := by
  rw [ofChan, ofChan, List.filter_filter]
  apply List.filter_congr
  intro f _
  cases f.ordered <;> simp

theorem addsOf_filter (id : ℤ) (fs : List Frame) :
    addsOf id (fs.filter fun f => !f.ordered) = addsOf id fs := by
  rw [addsOf, addsOf, adds, adds, List.filterMap_filter, List.filterMap_filter,
    List.filterMap_filter]
  apply List.filterMap_congr
  intro f _
  cases f with
  | windowUpdate => rfl
  | openChannel | opened | data | close => simp [Frame.ordered, Frame.add?]

/-- The controller's task and what it sends, in one equation. -/
theorem ctlTask_cases {a : ChanAct} (hs : s.step (.ctlTask k a) = some s') :
    ∃ c c' out, s.ctl[k]? = some c ∧ Chan.Stepped .controller s.gone s.teardown c c' out ∧
      s' = s.handOver k c c' out := by
  simp only [step, ctlTask] at hs
  split at hs
  · cases hs
  · rename_i c hc
    split at hs
    · cases hs
    · rename_i c' out hstep
      split_ifs at hs
      obtain rfl := Option.some.inj hs
      exact ⟨c, c', out, hc, Chan.step_stepped hstep, rfl⟩

/-- A channel that takes another's place under its number changes no number. -/
theorem map_id_set (hk : cs[k]? = some c) (hid : c'.id = c.id) :
    (cs.set k c').map Chan.id = cs.map Chan.id := by
  obtain ⟨hlt, rfl⟩ := List.getElem?_eq_some_iff.mp hk
  have hlt' : k < (cs.map Chan.id).length := by simpa using hlt
  have hself : (cs.map Chan.id).set k (cs.map Chan.id)[k] = cs.map Chan.id :=
    List.set_getElem_self hlt'
  rwa [List.getElem_map, ← hid, ← List.map_set] at hself

theorem Books.ctlTask (h : s.Books) (hk : s.ctl[k]? = some c)
    (hs : Chan.Stepped .controller s.gone s.teardown c c' out) : (s.handOver k c c' out).Books := by
  have hids : (s.ctl.set k c').map Chan.id = s.ctl.map Chan.id := map_id_set hk hs.id_eq
  have hmem : c.id ∈ s.ctl.map Chan.id := List.mem_map_of_mem (List.mem_of_getElem? hk)
  refine ⟨?_, h.peers, h.born, ?_, ?_, ?_, ?_, h.lostUp, h.lostDown, ?_⟩
  · rw [handOver, hids]
    exact h.ids
  · intro f hf
    rw [handOver, hids]
    have hold : f ∈ s.frames ∨ f ∈ out.toList := by
      simp only [handOver, frames, upward, downward, List.mem_append, List.mem_filter] at hf ⊢
      tauto
    rcases hold with hf | hf
    · exact h.known f hf
    · rw [hs.out_id hf]
      exact hmem
  · intro x hx
    simp only [handOver, hids] at hx ⊢
    split_ifs at hx
    · rcases List.mem_cons.mp hx with rfl | hx
      · exact hmem
      · exact h.takers x hx
    · exact h.takers x hx
  · intro f hf
    rcases List.mem_append.mp hf with hf | hf
    · exact h.data f hf
    · exact (List.mem_filter.mp hf).2
  · intro f hf
    rcases List.mem_append.mp hf with hf | hf
    · exact h.control f hf
    · simpa using (List.mem_filter.mp hf).2
  · rw [handOver, List.length_set]
    exact h.length

/-- What is under way once a task has handed over a frame. -/
theorem handOver_views (h : s.Books) (hk : s.ctl[k]? = some c)
    (hs : Chan.Stepped .controller s.gone s.teardown c c' out) (id : ℤ) :
    ofChan id (s.handOver k c c' out).upward = ofChan id s.upward ++ ofChan id out.toList ∧
      addsOf id (s.handOver k c c' out).upward = addsOf id s.upward ++ addsOf id out.toList := by
  have hbooks := h.ctlTask hk hs
  rw [ofChan_upward hbooks, addsOf_upward hbooks, ofChan_upward h, addsOf_upward h]
  cases hg : s.gone with
  | true =>
    rw [hg] at hs
    obtain rfl := hs.gone_silent
    simp [handOver]
  | false =>
    have hlost : s.lostUp = [] := h.lostUp hg
    simp [handOver, hlost, ofChan_filter, addsOf_filter]

/-- **A step of a controller's task moves its own channel, and no other.** -/
theorem Whole.ctlTask (h : s.Whole) (hk : s.ctl[k]? = some c)
    (hs : Chan.Stepped .controller s.gone s.teardown c c' out) : (s.handOver k c c' out).Whole := by
  refine h.moved (h.books.ctlTask hk hs) rfl ?_
  intro j d p hj hp
  have hview := handOver_views h.books hk hs
  by_cases hjk : k = j
  · subst hjk
    have hd : d = c' := by
      have hlt := (List.getElem?_eq_some_iff.mp hk).1
      rw [handOver, List.getElem?_set_self hlt] at hj
      exact (Option.some.inj hj).symm
    subst hd
    refine ⟨c, hk, .inr ?_⟩
    have heq : (s.handOver k c d out).link d p =
        { s.link c p with ctl := (s.link c p).ctl.emit d out, peer := (s.link c p).peer } := by
      have hsent : ofChan c.id (s.handOver k c d out).sentUp =
          ofChan c.id s.sentUp ++ out.toList.filter Frame.ordered := by
        rw [handOver, ofChan_append, ofChan_out (fun f => hs.out_id), if_pos rfl]
      have htook : decide ((Side.controller, c.id) ∈ (s.handOver k c d out).took) =
          (decide ((Side.controller, c.id) ∈ s.took) || c.tookClose d) := by
        rw [handOver]
        cases c.tookClose d <;> simp
      have hpeer : decide ((Side.controlled, c.id) ∈ (s.handOver k c d out).took) =
          decide ((Side.controlled, c.id) ∈ s.took) := by
        rw [handOver]
        cases c.tookClose d <;> simp
      rw [link, link, hs.id_eq, hsent, (hview c.id).1, (hview c.id).2, htook, hpeer,
        ofChan_out (fun f => hs.out_id), addsOf_out (fun f => hs.out_id), if_pos rfl, if_pos rfl]
      rfl
    rw [heq]
    exact .ctl (.task hs)
  · rw [handOver, List.getElem?_set_ne hjk] at hj
    refine ⟨d, hj, .inl ?_⟩
    have hne : c.id ≠ d.id := fun hid => hjk (index_eq h.books.ids hk hj hid)
    have hsent : ofChan d.id (s.handOver k c c' out).sentUp = ofChan d.id s.sentUp := by
      rw [handOver, ofChan_append, ofChan_out (fun f => hs.out_id), if_neg hne, List.append_nil]
    have htook : ∀ side, decide ((side, d.id) ∈ (s.handOver k c c' out).took) =
        decide ((side, d.id) ∈ s.took) := by
      intro side
      rw [handOver]
      cases c.tookClose c' <;> simp [Ne.symm hne]
    rw [link, link, hsent, (hview d.id).1, (hview d.id).2, htook, htook,
      ofChan_out (fun f => hs.out_id), addsOf_out (fun f => hs.out_id), if_neg hne, if_neg hne,
      List.append_nil, List.append_nil]
    rfl

/-- The books of a step that opens no channel. -/
theorem Books.keep (h : s.Books) (hids : s'.ctl.map Chan.id = s.ctl.map Chan.id)
    (hpeers : s'.mux.chans.map Chan.id = s.mux.chans.map Chan.id)
    (hhandled : s.handledUp <+: s'.handledUp)
    (hframes : ∀ f ∈ s'.frames, f ∈ s.frames ∨ f.id ∈ s.ctl.map Chan.id)
    (htook : ∀ x ∈ s'.took, x ∈ s.took ∨ x.2 ∈ s.ctl.map Chan.id)
    (hdata : ∀ f ∈ s'.dataQ, f ∈ s.dataQ) (hcontrol : ∀ f ∈ s'.controlQ, f ∈ s.controlQ)
    (hup : s'.gone = false → s'.lostUp = []) (hdown : s'.mux.gone = false → s'.lostDown = [])
    (hlen : s'.prebufs = s.prebufs) : s'.Books := by
  refine ⟨?_, ?_, ?_, ?_, ?_, fun f hf => h.data f (hdata f hf),
    fun f hf => h.control f (hcontrol f hf), hup, hdown, ?_⟩
  · rw [hids]
    exact h.ids
  · rw [hpeers]
    exact h.peers
  · intro d hd
    have hmem : d.id ∈ s.mux.chans.map Chan.id := by
      rw [← hpeers]
      exact List.mem_map_of_mem hd
    obtain ⟨d₀, hd₀, hid⟩ := List.mem_map.mp hmem
    obtain ⟨more, hmore⟩ := hhandled
    have := h.born d₀ hd₀
    rw [hid] at this
    rw [← hmore, ofChan_append]
    exact fun heq => this (List.append_eq_nil_iff.mp heq).1
  · intro f hf
    rw [hids]
    rcases hframes f hf with hf | hf
    · exact h.known f hf
    · exact hf
  · intro x hx
    rw [hids]
    rcases htook x hx with hx | hx
    · exact h.takers x hx
    · exact hx
  · rw [hlen, h.length]
    simpa using (congrArg List.length hids).symm

theorem map_id_onEntry {f : Chan → Chan} (hf : ∀ c, (f c).id = c.id) (cs : List Chan) :
    (onEntry id f cs).map Chan.id = cs.map Chan.id := by
  rw [onEntry, List.map_map]
  apply List.map_congr_left
  intro c _
  simp only [Function.comp_apply]
  split_ifs
  · exact hf c
  · rfl

/-- **A task that returns takes its own entry, and no other.** -/
theorem Whole.reap (h : s.Whole) (hk : s.ctl[k]? = some c) (hp : c.phase = .reaping) :
    ({ s with ctl := onEntry c.id Chan.drop (s.ctl.set k { c with phase := .ended }) } :
      Tunnel).Whole := by
  have hids : (onEntry c.id Chan.drop (s.ctl.set k { c with phase := .ended })).map Chan.id =
      s.ctl.map Chan.id := by
    rw [map_id_onEntry (f := Chan.drop) (fun _ => rfl)]
    exact map_id_set hk rfl
  refine h.moved ?_ rfl ?_
  · exact h.books.keep hids rfl List.prefix_rfl (fun f hf => .inl hf) (fun x hx => .inl hx)
      (fun f hf => hf) (fun f hf => hf) h.books.lostUp h.books.lostDown rfl
  · intro j d q hj hq
    rw [onEntry, List.getElem?_map] at hj
    by_cases hjk : k = j
    · subst hjk
      rw [List.getElem?_set_self (List.getElem?_eq_some_iff.mp hk).1] at hj
      obtain rfl := Option.some.inj hj
      refine ⟨c, hk, .inr ?_⟩
      have hd : (if (c.entry && decide (c.id = c.id)) = true then
          ({ c with phase := .ended } : Chan).drop else { c with phase := .ended }) =
          { c with phase := .ended, entry := false } := by
        cases c.entry <;> simp [Chan.drop]
      dsimp only
      rw [hd]
      exact .reaped hp
    · rw [List.getElem?_set_ne hjk] at hj
      obtain ⟨d₀, hd₀, rfl⟩ := Option.map_eq_some_iff.mp hj
      have hne : d₀.id ≠ c.id := fun hid => hjk (index_eq h.books.ids hk hd₀ hid.symm)
      refine ⟨d₀, hd₀, .inl ?_⟩
      rw [if_neg (by simp [hne])]
      rfl

/-- **Which queue `tunnel_loop` takes from next makes no difference to any channel.** -/
theorem Whole.picked (h : s.Whole) {dataQ controlQ : List Frame}
    (hpick : (f.ordered = true ∧ s.dataQ = f :: dataQ ∧ s.controlQ = controlQ) ∨
      (f.ordered = false ∧ s.dataQ = dataQ ∧ s.controlQ = f :: controlQ)) :
    ({ s with dataQ := dataQ, controlQ := controlQ, up := s.up ++ [f] } : Tunnel).Whole := by
  have hbooks :
      ({ s with dataQ := dataQ, controlQ := controlQ, up := s.up ++ [f] } : Tunnel).Books := by
    refine h.books.keep rfl rfl List.prefix_rfl ?_ (fun x hx => .inl hx) ?_ ?_ h.books.lostUp
      h.books.lostDown rfl
    · intro g hg
      refine .inl ?_
      rcases hpick with ⟨-, hd, hc⟩ | ⟨-, hd, hc⟩ <;>
        simp only [frames, upward, downward, List.mem_append, hd, hc, List.mem_cons] at hg ⊢ <;>
        tauto
    · rcases hpick with ⟨-, hd, -⟩ | ⟨-, hd, -⟩ <;> simp +contextual [hd]
    · rcases hpick with ⟨-, -, hc⟩ | ⟨-, -, hc⟩ <;> simp +contextual [hc]
  refine h.moved hbooks rfl ?_
  intro k c p hk hp
  refine ⟨c, hk, .inl ?_⟩
  have hwire : ofChan c.id ({ s with
      dataQ := dataQ, controlQ := controlQ, up := s.up ++ [f] } : Tunnel).upward =
      ofChan c.id s.upward := by
    rw [ofChan_upward hbooks, ofChan_upward h.books]
    rcases hpick with ⟨-, hd, -⟩ | ⟨ho, hd, -⟩
    · rw [hd, ofChan_cons c.id f dataQ, ofChan_append]
      simp only [List.append_assoc]
    · have hnil : ofChan c.id [f] = [] := ofChan_unordered (by simpa using ho)
      rw [hd, ofChan_append, hnil, List.append_nil]
  have hadds : addsOf c.id ({ s with
      dataQ := dataQ, controlQ := controlQ, up := s.up ++ [f] } : Tunnel).upward =
      addsOf c.id s.upward := by
    rw [addsOf_upward hbooks, addsOf_upward h.books]
    rcases hpick with ⟨ho, -, hc⟩ | ⟨-, -, hc⟩
    · have hnil : addsOf c.id [f] = [] := addsOf_ordered (by simpa using ho)
      rw [hc, addsOf_append, hnil, List.append_nil]
    · rw [hc, addsOf_cons c.id f controlQ, addsOf_append]
      simp only [List.append_assoc]
  rw [link, link, hwire, hadds]
  rfl

/-- A frame for one channel, as the others see it. -/
theorem ofChan_cons_ne (h : f.id ≠ id) (fs : List Frame) :
    ofChan id (f :: fs) = ofChan id fs ∧ addsOf id (f :: fs) = addsOf id fs := by
  constructor <;> simp [ofChan, addsOf, h]

/-- An ordered frame, as its own channel sees it. -/
theorem ofChan_cons_ordered (h : f.ordered = true) (fs : List Frame) :
    ofChan f.id (f :: fs) = f :: ofChan f.id fs ∧ addsOf f.id (f :: fs) = addsOf f.id fs := by
  constructor
  · simp [ofChan, h]
  · simp [addsOf, adds, add?_of_ordered h]

/-- **A frame the controller handles is for its own channel, and no other.** -/
theorem Whole.ctlFrame (h : s.Whole) (hw : s.down = f :: rest) :
    ({ s with down := rest, ctl := onFrame s.ctl f, handledDown := s.handledDown ++ [f] } :
      Tunnel).Whole := by
  have hids : (onFrame s.ctl f).map Chan.id = s.ctl.map Chan.id :=
    map_id_onEntry (fun c => (c.hear_task f).1) _
  refine h.moved ?_ rfl ?_
  · refine h.books.keep hids rfl List.prefix_rfl ?_ (fun x hx => .inl hx) (fun f hf => hf)
      (fun f hf => hf) h.books.lostUp h.books.lostDown rfl
    intro g hg
    refine .inl ?_
    simp only [frames, upward, downward, List.mem_append, hw, List.mem_cons] at hg ⊢
    tauto
  · intro k d p hk hp
    rw [onFrame, onEntry, List.getElem?_map] at hk
    obtain ⟨c, hc, rfl⟩ := Option.map_eq_some_iff.mp hk
    refine ⟨c, hc, ?_⟩
    have hdown : s.downward = f :: (rest ++ s.mux.tx.map Prod.snd ++ s.lostDown) := by
      rw [downward, hw]
      rfl
    generalize hs' : ({ s with
      down := rest, ctl := onFrame s.ctl f, handledDown := s.handledDown ++ [f] } : Tunnel) = s'
    have hdown' : s'.downward = rest ++ s.mux.tx.map Prod.snd ++ s.lostDown := by
      rw [← hs']
      rfl
    by_cases hid : f.id = c.id
    · refine .inr ?_
      simp only [hid, decide_true, Bool.and_true]
      have hid' : (if c.entry = true then c.hear f else c).id = c.id := by
        split_ifs
        · exact (c.hear_task f).1
        · rfl
      rw [← hdown'] at hdown
      cases hord : f.ordered with
      | true =>
        obtain ⟨hwire, hadds⟩ := ofChan_cons_ordered hord s'.downward
        rw [hid, ← hdown] at hwire hadds
        have hhandled : ofChan c.id s'.handledDown = ofChan c.id s.handledDown ++ [f] := by
          rw [← hs', ofChan_append, ← hid, (ofChan_cons_ordered hord []).1]
          rfl
        have hlink := Link.Stepped.ctl (l := s.link c p) (.hear hwire)
        convert hlink using 1
        rw [link, hid', hhandled, ← hadds, ← hs']
        rfl
      | false =>
        obtain ⟨n, rfl⟩ : ∃ n, f = .windowUpdate c.id n := by
          cases f with
          | windowUpdate i n =>
            obtain rfl : i = c.id := hid
            exact ⟨n, rfl⟩
          | openChannel | opened | data | close => cases hord
        have hwire : ofChan c.id s.downward = ofChan c.id s'.downward := by
          rw [hdown]
          rfl
        have hadds : addsOf c.id s.downward = n :: addsOf c.id s'.downward := by
          rw [hdown]
          simp [addsOf, adds, Frame.id, Frame.add?]
        have hhandled : ofChan c.id s'.handledDown = ofChan c.id s.handledDown := by
          rw [← hs', ofChan_append]
          exact List.append_nil _
        have hlink := Link.Stepped.ctl (l := s.link c p) (.update hadds)
        convert hlink using 1
        rw [link, hid', hhandled, ← hwire, ← hs']
        rfl
    · refine .inl ?_
      obtain ⟨hwire, hadds⟩ := ofChan_cons_ne hid s'.downward
      have hhandled : ofChan c.id s'.handledDown = ofChan c.id s.handledDown := by
        rw [← hs', ofChan_append, (ofChan_cons_ne hid []).1]
        exact List.append_nil _
      rw [if_neg (by simpa using fun _ => Ne.symm hid), link, link, hdown, ← hdown', hwire, hadds,
        hhandled]
      rw [← hs']
      rfl

/-- `close_all` of the controller. -/
theorem Whole.ctlCloseAll (h : s.Whole) :
    ({ s with ctl := s.ctl.map Chan.drop, teardown := true } : Tunnel).Whole := by
  have hids : (s.ctl.map Chan.drop).map Chan.id = s.ctl.map Chan.id := by
    rw [List.map_map]
    rfl
  refine h.moved ?_ rfl ?_
  · exact h.books.keep hids rfl List.prefix_rfl (fun f hf => .inl hf) (fun x hx => .inl hx)
      (fun f hf => hf) (fun f hf => hf) h.books.lostUp h.books.lostDown rfl
  · intro k d p hk hp
    rw [List.getElem?_map] at hk
    obtain ⟨c, hc, rfl⟩ := Option.map_eq_some_iff.mp hk
    exact ⟨c, hc, .inr (.ctl (.drop (fun hg => hg) (fun _ => rfl) (.inr rfl)))⟩

/-- The controller's loop returns: what its queues still hold is lost. -/
theorem Whole.ctlHangUp (h : s.Whole) : ({ s with
      dataQ := [], controlQ := [], gone := true,
      lostUp := s.dataQ ++ s.controlQ ++ s.lostUp } : Tunnel).Whole := by
  have hup : ({ s with
      dataQ := [], controlQ := [], gone := true,
      lostUp := s.dataQ ++ s.controlQ ++ s.lostUp } : Tunnel).upward = s.upward := by
    simp [upward]
  refine h.moved ?_ rfl ?_
  · refine h.books.keep rfl rfl List.prefix_rfl ?_ (fun x hx => .inl hx) (by simp) (by simp) nofun
      h.books.lostDown rfl
    intro f hf
    rw [frames, hup] at hf
    exact .inl hf
  · intro k c p hk hp
    refine ⟨c, hk, .inr ?_⟩
    have hflag := Link.Stepped.ctl (l := s.link c p) (.flag (fun _ => rfl) (fun ht => ht))
    convert hflag using 1
    rw [link, hup]
    rfl

/-! ### The controlled side's steps -/

/-- The channel the controlled side holds under a number. -/
theorem find_eq (h : (cs.map Chan.id).Nodup) (hd : d ∈ cs) :
    (cs.find? fun x => x.id = d.id) = some d := by
  cases hf : cs.find? fun x => x.id = d.id with
  | none =>
    have := List.find?_eq_none.mp hf d hd
    simp at this
  | some x =>
    have hx := List.mem_of_find?_eq_some hf
    have hid : x.id = d.id := by simpa using List.find?_some hf
    rw [List.inj_on_of_nodup_map h hx hd hid]

theorem find_map (cs : List Chan) {f : Chan → Chan} (hf : ∀ c, (f c).id = c.id) (id : ℤ) :
    ((cs.map f).find? fun x => x.id = id) = (cs.find? fun x => x.id = id).map f := by
  rw [List.find?_map]
  congr 2
  funext c
  simp [hf c]

theorem find_set_ne (hd : d.id ≠ id) (hd' : d'.id ≠ id) :
    ∀ {cs : List Chan} {k : ℕ}, cs[k]? = some d →
      ((cs.set k d').find? fun x => x.id = id) = cs.find? fun x => x.id = id := by
  intro cs
  induction cs with
  | nil =>
    intro k hk
    simp at hk
  | cons c cs ih =>
    intro k hk
    cases k with
    | zero =>
      obtain rfl : c = d := by simpa using hk
      simp [hd, hd']
    | succ k =>
      rw [List.set_cons_succ, List.find?_cons, List.find?_cons, ih (by simpa using hk)]

/-- What a step of the controlled side leaves of its channel under a number. -/
theorem peerChan_eq
    (hfind : (s'.mux.chans.find? fun d => d.id = id) = s.mux.chans.find? fun d => d.id = id)
    (hhandled : ofChan id s'.handledUp = ofChan id s.handledUp) :
    s'.peerChan id = s.peerChan id := by
  rw [peerChan, peerChan, hfind, hhandled]

theorem peerChan_of_mem (h : s.Books) (hd : d ∈ s.mux.chans) : s.peerChan d.id = d := by
  rw [peerChan, find_eq h.peers hd]

/-- What the controlled side's task `k` has done, and what it has handed to the connection. -/
def handDown (s : Tunnel) (k : ℕ) (d d' : Chan) (out : Option Frame) : Tunnel :=
  { s with
    mux := { s.mux with
      chans := s.mux.chans.set k d', tx := s.mux.tx ++ out.toList.map (some k, ·) }
    sentDown := s.sentDown ++ out.toList
    took := (if d.tookClose d' then [(.controlled, d.id)] else []) ++ s.took }

theorem muxTask_cases {a : ChanAct} (hs : s.step (.muxTask k a) = some s') :
    ∃ d d' out, s.mux.chans[k]? = some d ∧
      Chan.Stepped .controlled s.mux.gone s.mux.teardown d d' out ∧ s' = s.handDown k d d' out := by
  obtain ⟨m, hm, rfl⟩ := Option.map_eq_some_iff.mp hs
  simp only [Mux.step] at hm
  split at hm
  · cases hm
  · rename_i d hd
    obtain ⟨⟨d', out⟩, hstep, rfl⟩ := Option.map_eq_some_iff.mp hm
    refine ⟨d, d', out, hd, Chan.step_stepped hstep, ?_⟩
    have hlt := (List.getElem?_eq_some_iff.mp hd).1
    have hout : (List.map (some k, ·) out.toList).map Prod.snd = out.toList := by
      cases out <;> rfl
    simp only [added, tookClose, hd, List.getElem?_set_self hlt, List.drop_left, hout, handDown]

/-- The controlled side's channels are known to the controller. -/
theorem Books.peer_known (h : s.Books) (hd : d ∈ s.mux.chans) : d.id ∈ s.ctl.map Chan.id := by
  obtain ⟨f, hf⟩ := List.exists_mem_of_ne_nil _ (h.born d hd)
  obtain ⟨hf, -, hid⟩ := mem_ofChan.mp hf
  rw [← hid]
  apply h.known
  simp [frames, hf]

theorem handDown_views (h : s.Books)
    (hs : Chan.Stepped .controlled s.mux.gone s.mux.teardown d d' out) (id : ℤ) :
    ofChan id (s.handDown k d d' out).downward = ofChan id s.downward ++ ofChan id out.toList ∧
      addsOf id (s.handDown k d d' out).downward = addsOf id s.downward ++
        addsOf id out.toList := by
  have hout : (List.map (some k, ·) out.toList).map Prod.snd = out.toList := by
    cases out <;> rfl
  cases hg : s.mux.gone with
  | true =>
    rw [hg] at hs
    obtain rfl := hs.gone_silent
    simp [handDown, downward]
  | false =>
    have hlost : s.lostDown = [] := h.lostDown hg
    simp only [handDown, downward, hlost, List.map_append, hout, ofChan_append, addsOf_append,
      List.append_nil, List.append_assoc, and_self]

theorem Books.muxTask (h : s.Books) (hk : s.mux.chans[k]? = some d)
    (hs : Chan.Stepped .controlled s.mux.gone s.mux.teardown d d' out) :
    (s.handDown k d d' out).Books := by
  have hknown := h.peer_known (List.mem_of_getElem? hk)
  have hout : (List.map (some k, ·) out.toList).map Prod.snd = out.toList := by
    cases out <;> rfl
  refine h.keep rfl (map_id_set hk hs.id_eq) List.prefix_rfl ?_ ?_ (fun f hf => hf) (fun f hf => hf)
    h.lostUp h.lostDown rfl
  · intro f hf
    have hold : f ∈ s.frames ∨ f ∈ out.toList := by
      simp only [handDown, frames, upward, downward, List.map_append, hout, List.mem_append] at hf ⊢
      tauto
    rcases hold with hf | hf
    · exact .inl hf
    · rw [hs.out_id hf]
      exact .inr hknown
  · intro x hx
    rcases List.mem_append.mp hx with hx | hx
    · split_ifs at hx
      · rw [List.mem_singleton.mp hx]
        exact .inr hknown
      · cases hx
    · exact .inl hx

/-- **A step of a controlled task moves its own channel, and no other.** -/
theorem Whole.muxTask (h : s.Whole) (hk : s.mux.chans[k]? = some d)
    (hs : Chan.Stepped .controlled s.mux.gone s.mux.teardown d d' out) :
    (s.handDown k d d' out).Whole := by
  have hbooks := h.books.muxTask hk hs
  refine h.moved hbooks rfl ?_
  intro j c p hj hp
  refine ⟨c, hj, ?_⟩
  have hview := handDown_views (k := k) h.books hs c.id
  have hctl : decide ((Side.controller, c.id) ∈ (s.handDown k d d' out).took) =
      decide ((Side.controller, c.id) ∈ s.took) := by
    rw [handDown]
    cases d.tookClose d' <;> simp
  by_cases hid : d.id = c.id
  · refine .inr ?_
    have hpeer : s.peerChan c.id = d := by
      rw [← hid]
      exact peerChan_of_mem h.books (List.mem_of_getElem? hk)
    have hpeer' : (s.handDown k d d' out).peerChan c.id = d' := by
      rw [← hid, ← hs.id_eq]
      apply peerChan_of_mem hbooks
      exact List.mem_of_getElem? (List.getElem?_set_self (List.getElem?_eq_some_iff.mp hk).1)
    have hsent : ofChan c.id (s.handDown k d d' out).sentDown =
        ofChan c.id s.sentDown ++ out.toList.filter Frame.ordered := by
      rw [handDown, ofChan_append, ofChan_out (fun f => hs.out_id), if_pos hid]
    have htook : decide ((Side.controlled, c.id) ∈ (s.handDown k d d' out).took) =
        (decide ((Side.controlled, c.id) ∈ s.took) || d.tookClose d') := by
      rw [handDown]
      cases d.tookClose d' <;> simp [hid]
    have hstep : Chan.Stepped .controlled (s.link c p).peer.gone (s.link c p).peer.teardown
        (s.link c p).peer.chan d' out := by
      rw [← hpeer] at hs
      exact hs
    have hlink := Link.Stepped.peer (l := s.link c p) (.task hstep)
    convert hlink using 1
    rw [link, hpeer', hsent, hctl, htook, hview.1, hview.2, ofChan_out (fun f => hs.out_id),
      addsOf_out (fun f => hs.out_id), if_pos hid, if_pos hid, ← hpeer]
    rfl
  · refine .inl ?_
    have hid' : d'.id ≠ c.id := by rw [hs.id_eq]; exact hid
    have hpeer : (s.handDown k d d' out).peerChan c.id = s.peerChan c.id :=
      peerChan_eq (find_set_ne hid hid' hk) rfl
    have hsent : ofChan c.id (s.handDown k d d' out).sentDown = ofChan c.id s.sentDown := by
      rw [handDown, ofChan_append, ofChan_out (fun f => hs.out_id), if_neg hid, List.append_nil]
    have htook : decide ((Side.controlled, c.id) ∈ (s.handDown k d d' out).took) =
        decide ((Side.controlled, c.id) ∈ s.took) := by
      rw [handDown]
      cases d.tookClose d' <;> simp [Ne.symm hid]
    rw [link, link, hpeer, hsent, hctl, htook, hview.1, hview.2, ofChan_out (fun f => hs.out_id),
      addsOf_out (fun f => hs.out_id), if_neg hid, if_neg hid, List.append_nil, List.append_nil]
    rfl

/-- The connection's writes make no difference to any channel. -/
theorem Whole.muxWrite (h : s.Whole) {e : Option ℕ × Frame} {rest : List (Option ℕ × Frame)}
    (ht : s.mux.tx = e :: rest) :
    ({ s with mux := { s.mux with tx := rest }, down := s.down ++ [e.2] } : Tunnel).Whole := by
  have hdown : ({ s with mux := { s.mux with tx := rest }, down := s.down ++ [e.2] } :
      Tunnel).downward = s.downward := by
    simp [downward, ht]
  refine h.moved ?_ rfl ?_
  · refine h.books.keep rfl rfl List.prefix_rfl ?_ (fun x hx => .inl hx) (fun f hf => hf)
      (fun f hf => hf) h.books.lostUp h.books.lostDown rfl
    intro f hf
    rw [frames, hdown] at hf
    exact .inl hf
  · intro k c p hk hp
    refine ⟨c, hk, .inl ?_⟩
    rw [link, hdown]
    rfl

/-- `close_all` of the controlled side: an end that has no channel yet only sees the flag. -/
theorem Whole.muxCloseAll (h : s.Whole) :
    ({ s with mux := { s.mux with chans := s.mux.chans.map Chan.drop, teardown := true } } :
      Tunnel).Whole := by
  have hids : (s.mux.chans.map Chan.drop).map Chan.id = s.mux.chans.map Chan.id := by
    rw [List.map_map]
    rfl
  refine h.moved ?_ rfl ?_
  · exact h.books.keep rfl hids List.prefix_rfl (fun f hf => .inl hf) (fun x hx => .inl hx)
      (fun f hf => hf) (fun f hf => hf) h.books.lostUp h.books.lostDown rfl
  · intro k c p hk hp
    refine ⟨c, hk, .inr ?_⟩
    have hfind := find_map s.mux.chans (f := Chan.drop) (fun _ => rfl) c.id
    cases hf : s.mux.chans.find? fun d => d.id = c.id with
    | some d =>
      have hdrop := Link.Stepped.peer (l := s.link c p)
        (.drop (g := s.mux.gone) (t := true) (fun hg => hg) (fun _ => rfl) (.inr rfl))
      convert hdrop using 1
      rw [link, link, peerChan, peerChan, hfind, hf]
      rfl
    | none =>
      have hflag := Link.Stepped.peer (l := s.link c p)
        (.flag (g := s.mux.gone) (t := true) (fun hg => hg) (fun _ => rfl))
      convert hflag using 1
      rw [link, link, peerChan, peerChan, hfind, hf]
      rfl

/-- The connection drops its queue: what it still holds is lost. -/
theorem Whole.muxHangUp (h : s.Whole) : ({ s with
      mux := { s.mux with tx := [], gone := true }
      lostDown := s.mux.tx.map Prod.snd ++ s.lostDown } : Tunnel).Whole := by
  have hdown : ({ s with
      mux := { s.mux with tx := [], gone := true }
      lostDown := s.mux.tx.map Prod.snd ++ s.lostDown } : Tunnel).downward = s.downward := by
    simp [downward]
  refine h.moved ?_ rfl ?_
  · refine h.books.keep rfl rfl List.prefix_rfl ?_ (fun x hx => .inl hx) (fun f hf => hf)
      (fun f hf => hf) h.books.lostUp nofun rfl
    intro f hf
    rw [frames, hdown] at hf
    exact .inl hf
  · intro k c p hk hp
    refine ⟨c, hk, .inr ?_⟩
    have hflag := Link.Stepped.peer (l := s.link c p)
      (.flag (g := true) (t := s.mux.teardown) (fun _ => rfl) (fun ht => ht))
    convert hflag using 1
    rw [link, hdown]
    rfl

/-! ### A frame at the controlled side -/

/-- Every frame has its channel. -/
theorem Whole.owner (h : s.Whole) (hf : f ∈ s.frames) :
    ∃ (k : ℕ) (c : Chan) (p : Bytes), s.ctl[k]? = some c ∧ s.prebufs[k]? = some p ∧ c.id = f.id ∧
      (s.link c p).Sound := by
  obtain ⟨c, hc, hid⟩ := List.mem_map.mp (h.books.known f hf)
  obtain ⟨k, hk⟩ := List.mem_iff_getElem?.mp hc
  have hlt : k < s.prebufs.length := by
    rw [h.books.length]
    exact (List.getElem?_eq_some_iff.mp hk).1
  have hp := List.getElem?_eq_getElem hlt
  exact ⟨k, c, _, hk, hp, hid, h.sound k c _ hk hp⟩

/-- What the controller has said about a channel up to the next frame. -/
theorem Sound.said (h : (s.link c p).Sound) (hw : ofChan c.id s.upward = f :: rest) :
    ofChan c.id s.sentUp = ofChan c.id s.handledUp ++ f :: rest := by
  have := h.ctl.fifo
  rw [← hw]
  exact this

/-- The next ordered frame of a channel is its `open`, with nothing handled before it, or it is
data or `close` and its `open` has been handled. -/
theorem Sound.next (h : (s.link c p).Sound) (hw : ofChan c.id s.upward = f :: rest) :
    (ofChan c.id s.handledUp = [] ∧ ∃ host port, f = .openChannel c.id host port channelWindow) ∨
    (ofChan c.id s.handledUp ≠ [] ∧ ((∃ b, f = .data c.id b) ∨ f = .close c.id)) := by
  have hsaid := Sound.said h hw
  have hspoke : Spoke .controller c.id (ofChan c.id s.sentUp) := h.ctl.script.spoke
  cases hh : ofChan c.id s.handledUp with
  | nil =>
    rw [hh, List.nil_append] at hsaid
    rcases hspoke.first hsaid with hf | ⟨hside, -⟩
    · exact .inl ⟨rfl, hf⟩
    · cases hside
  | cons g gs =>
    rw [hh, List.cons_append] at hsaid
    exact .inr ⟨List.cons_ne_nil _ _, hspoke.tail hsaid (by simp)⟩

/-- `handle` for a frame that is neither `open` nor `opened`. -/
theorem handle_hear (m : Mux) (permitted : Bool)
    (hopen : ∀ i host port w, f ≠ .openChannel i host port w)
    (hopened : ∀ i ok msg w, f ≠ .opened i ok msg w) :
    m.handle permitted f = { m with chans := onEntry f.id (fun c => c.hear f) m.chans } := by
  cases f with
  | openChannel i host port w => exact absurd rfl (hopen i host port w)
  | opened i ok msg w => exact absurd rfl (hopened i ok msg w)
  | data | close | windowUpdate => rfl

/-- The controlled side's channel under a number, once a frame has been handled. -/
theorem find_onEntry (cs : List Chan) (f : Frame) (id : ℤ) :
    ((onEntry f.id (fun c => c.hear f) cs).find? fun x => x.id = id) =
      (cs.find? fun x => x.id = id).map fun d =>
        if d.entry && decide (d.id = f.id) then d.hear f else d := by
  apply find_map
  intro c
  split_ifs
  · exact (c.hear_task f).1
  · rfl

/-- An update cannot overtake the `open` of its channel by much: there is nothing to give back
yet. -/
theorem Sound.early_update (h : (s.link c p).Sound)
    {n : ℕ} {rest : List ℕ} (hadds : addsOf c.id s.upward = n :: rest)
    (hpeer : s.peerChan c.id = Mux.newChan c.id "" false channelWindow) : n = 0 := by
  have hle := h.peer.flow.within
  have hupd : (End.flow .controlled (s.link c p).peer (s.link c p).ctl).updates = n :: rest := hadds
  have hcredit : (End.flow .controlled (s.link c p).peer (s.link c p).ctl).credit.credit =
      channelWindow := by
    show (s.peerChan c.id).credit.credit = channelWindow
    rw [hpeer]
    rfl
  rw [Flow.outstanding, hupd, hcredit, List.sum_cons] at hle
  omega

/-- A frame reaches the channel it is for, unless that has been refused. -/
theorem peerChan_hear (hid : f.id = id)
    (hmux : s'.mux.chans = onEntry f.id (fun c => c.hear f) s.mux.chans)
    (hhandled : ofChan id s'.handledUp = ofChan id s.handledUp ++ [f])
    (hborn : ofChan id s.handledUp ≠ []) :
    s'.peerChan id =
      if (s.peerChan id).entry then (s.peerChan id).hear f else s.peerChan id := by
  rw [peerChan, peerChan, hmux, find_onEntry, hhandled]
  cases hf : s.mux.chans.find? fun d => d.id = id with
  | some d =>
    have hdid : d.id = id := by simpa using List.find?_some hf
    simp [hdid, hid]
  | none => simp [hborn]

/-- Nobody has heard of the channel. -/
theorem peerChan_fresh (hfound : (s.mux.chans.find? fun x => x.id = id) = none)
    (hnil : ofChan id s.handledUp = []) :
    s.peerChan id = Mux.newChan id "" false channelWindow := by
  simp [peerChan, hfound, hnil]

/-- **A frame the controlled side handles is for its own channel, and no other.** -/
theorem Whole.muxHeard (h : s.Whole) (hw : s.up = f :: rest)
    (hopen : ∀ i host port w, f ≠ .openChannel i host port w) : ({ s with
      up := rest
      mux := { s.mux with chans := onEntry f.id (fun c => c.hear f) s.mux.chans }
      handledUp := s.handledUp ++ [f] } : Tunnel).Whole := by
  have hids : (onEntry f.id (fun c => c.hear f) s.mux.chans).map Chan.id =
    s.mux.chans.map Chan.id :=
    map_id_onEntry (fun c => (c.hear_task f).1) _
  refine h.moved ?_ rfl ?_
  · refine h.books.keep rfl hids (List.prefix_append _ _) ?_ (fun x hx => .inl hx) (fun f hf => hf)
      (fun f hf => hf) h.books.lostUp h.books.lostDown rfl
    intro g hg
    refine .inl ?_
    simp only [frames, upward, downward, List.mem_append, hw, List.mem_cons] at hg ⊢
    tauto
  · intro k c p hk hp
    refine ⟨c, hk, ?_⟩
    have hsound := h.sound k c p hk hp
    have hfind := find_onEntry s.mux.chans f c.id
    have hup : s.upward = f :: (rest ++ s.dataQ ++ s.controlQ ++ s.lostUp) := by
      rw [upward, hw]
      rfl
    generalize hs' : ({ s with
      up := rest
      mux := { s.mux with chans := onEntry f.id (fun c => c.hear f) s.mux.chans }
      handledUp := s.handledUp ++ [f] } : Tunnel) = s'
    have hup' : s'.upward = rest ++ s.dataQ ++ s.controlQ ++ s.lostUp := by
      rw [← hs']
      rfl
    have hmux : s'.mux.chans = onEntry f.id (fun c => c.hear f) s.mux.chans := by rw [← hs']
    have hall : s'.handledUp = s.handledUp ++ [f] := by rw [← hs']
    rw [← hup'] at hup
    by_cases hid : f.id = c.id
    · refine .inr ?_
      cases hord : f.ordered with
      | true =>
        obtain ⟨hwire, hadds⟩ := ofChan_cons_ordered hord s'.upward
        rw [hid, ← hup] at hwire hadds
        have hhandled : ofChan c.id s'.handledUp = ofChan c.id s.handledUp ++ [f] := by
          rw [hall, ofChan_append, ← hid, (ofChan_cons_ordered hord []).1]
          rfl
        -- data and `close` come after their `open`
        have hborn : ofChan c.id s.handledUp ≠ [] := by
          rcases Sound.next hsound hwire with ⟨-, host, port, rfl⟩ | ⟨hne, -⟩
          · exact absurd rfl (hopen _ _ _ _)
          · exact hne
        have hpeer := peerChan_hear hid hmux hhandled hborn
        have hlink := Link.Stepped.peer (l := s.link c p) (.hear hwire)
        convert hlink using 1
        rw [link, hpeer, hhandled, ← hadds, ← hs']
        rfl
      | false =>
        obtain ⟨n, rfl⟩ : ∃ n, f = .windowUpdate c.id n := by
          cases f with
          | windowUpdate i n =>
            obtain rfl : i = c.id := hid
            exact ⟨n, rfl⟩
          | openChannel | opened | data | close => cases hord
        have hwire : ofChan c.id s.upward = ofChan c.id s'.upward := by
          rw [hup]
          rfl
        have hadds : addsOf c.id s.upward = n :: addsOf c.id s'.upward := by
          rw [hup]
          simp [addsOf, adds, Frame.id, Frame.add?]
        have hhandled : ofChan c.id s'.handledUp = ofChan c.id s.handledUp := by
          rw [hall, ofChan_append]
          exact List.append_nil _
        have hpeer : s'.peerChan c.id =
            if (s.peerChan c.id).entry then (s.peerChan c.id).windowUpdate n else s.peerChan
              c.id := by
          cases hf : s.mux.chans.find? fun d => d.id = c.id with
          | some d =>
            have hdid : d.id = c.id := by simpa using List.find?_some hf
            rw [peerChan, peerChan, hmux, hfind, hf]
            simp [hdid, Frame.id, Chan.hear]
          | none =>
            by_cases hne : ofChan c.id s.handledUp = []
            · have hnew := peerChan_fresh hf hne
              obtain rfl := Sound.early_update hsound hadds hnew
              have hsame : s'.peerChan c.id = s.peerChan c.id :=
                peerChan_eq (by rw [hmux, hfind, hf]; rfl) hhandled
              rw [hsame, hnew]
              rfl
            · rw [peerChan, peerChan, hmux, hfind, hf, hhandled]
              simp [hne]
        have hlink := Link.Stepped.peer (l := s.link c p) (.update hadds)
        convert hlink using 1
        rw [link, hpeer, hhandled, ← hwire, ← hs']
        rfl
    · refine .inl ?_
      obtain ⟨hwire, hadds⟩ := ofChan_cons_ne hid s'.upward
      have hhandled : ofChan c.id s'.handledUp = ofChan c.id s.handledUp := by
        rw [hall, ofChan_append, (ofChan_cons_ne hid []).1]
        exact List.append_nil _
      have hpeer : s'.peerChan c.id = s.peerChan c.id := by
        apply peerChan_eq _ hhandled
        rw [hmux, hfind]
        cases hf : s.mux.chans.find? fun d => d.id = c.id with
        | some d =>
          have hdid : d.id = c.id := by simpa using List.find?_some hf
          simp [hdid, Ne.symm hid]
        | none => rfl
      rw [link, link, hup, hwire, hadds, hhandled, hpeer]
      rw [← hs']
      rfl

/-- `on_open` answers with a refusal or not at all, or starts one channel. -/
theorem onOpen_shape (m : Mux) (permitted : Bool) (id : ℤ) (host : String) (port : ℤ) (w : ℕ) :
    (∃ replies : List Frame, m.onOpen permitted id host port w =
        { m with chans := Mux.retain m.chans, tx := m.tx ++ replies.map (none, ·) } ∧
      (replies = [] ∨ (m.gone = false ∧ ∃ msg, replies = [.opened id false msg 0]))) ∨
    ∃ addr isRdp, m.onOpen permitted id host port w =
      { m with chans := Mux.retain m.chans ++ [Mux.newChan id addr isRdp w] } := by
  have hreply : ∀ (m : Mux) (msg : String), ∃ replies : List Frame,
      m.reply (.opened id false msg 0) = { m with tx := m.tx ++ replies.map (none, ·) } ∧
        (replies = [] ∨ (m.gone = false ∧ ∃ msg, replies = [.opened id false msg 0])) := by
    intro m msg
    rw [Mux.reply]
    split_ifs with hg
    · exact ⟨[], by simp, .inl rfl⟩
    · exact ⟨[.opened id false msg 0], rfl, .inr ⟨by simpa using hg, msg, rfl⟩⟩
  unfold Mux.onOpen
  dsimp only
  split_ifs with hperm hcap hdup haddr
  · exact .inl (hreply { m with chans := Mux.retain m.chans } _)
  · exact .inl (hreply { m with chans := Mux.retain m.chans } _)
  · exact .inl ⟨[], by simp, .inl rfl⟩
  · exact .inl (hreply { m with chans := Mux.retain m.chans } _)
  · exact .inr ⟨_, _, rfl⟩

theorem find_retain (cs : List Chan) (id : ℤ) : ((Mux.retain cs).find? fun x => x.id = id) =
      (cs.find? fun x => x.id = id).map fun c => if c.inboundClosed then c.drop else c := by
  apply find_map
  intro c
  split_ifs <;> rfl

theorem map_id_retain (cs : List Chan) : (Mux.retain cs).map Chan.id = cs.map Chan.id := by
  rw [Mux.retain, List.map_map]
  apply List.map_congr_left
  intro c _
  simp only [Function.comp_apply]
  split_ifs <;> rfl

/-- An `open` for one channel, as the others see it: their entries go if nobody reads their
queue any more. -/
theorem link_other_open
    (hpeer : s'.peerChan c.id = s.peerChan c.id ∨
      ((s.peerChan c.id).inboundClosed = true ∧ s'.peerChan c.id = (s.peerChan c.id).drop))
    (hlink : s'.link c p = { s.link c p with
      peer := { (s.link c p).peer with chan := s'.peerChan c.id } }) :
    s'.link c p = s.link c p ∨ (s.link c p).Stepped (s'.link c p) := by
  rcases hpeer with hpeer | ⟨hclosed, hpeer⟩
  · refine .inl ?_
    rw [hlink, hpeer]
    rfl
  · refine .inr ?_
    rw [hlink, hpeer]
    exact .peer (.drop (fun hg => hg) (fun ht => ht) (.inl hclosed))

theorem peerChan_retain (hfind : (s'.mux.chans.find? fun x => x.id = id) =
      (Mux.retain s.mux.chans).find? fun x => x.id = id)
    (hhandled : ofChan id s'.handledUp = ofChan id s.handledUp) : s'.peerChan id = s.peerChan id ∨
      ((s.peerChan id).inboundClosed = true ∧ s'.peerChan id = (s.peerChan id).drop) := by
  rw [find_retain] at hfind
  rw [peerChan, peerChan, hfind, hhandled]
  cases s.mux.chans.find? fun x => x.id = id with
  | none => exact .inl rfl
  | some d =>
    simp only [Option.map_some]
    split_ifs with hclosed
    · exact .inr ⟨hclosed, rfl⟩
    · exact .inl rfl

/-- An `open` that is handled, as one channel sees it. -/
theorem open_handled (hup : s.upward = .openChannel id host port w :: s'.upward)
    (hall : s'.handledUp = s.handledUp ++ [Frame.openChannel id host port w]) (i : ℤ) :
    addsOf i s.upward = addsOf i s'.upward ∧
    ofChan i s.upward =
      (if id = i then [.openChannel id host port w] else []) ++ ofChan i s'.upward ∧
    ofChan i s'.handledUp =
      ofChan i s.handledUp ++ if id = i then [.openChannel id host port w] else [] := by
  rw [hup, hall, ofChan_append]
  split_ifs with hid
  · subst hid
    have hone := ofChan_cons_ordered (f := .openChannel id host port w) rfl
    exact ⟨(hone _).2, (hone _).1, congrArg _ (hone []).1⟩
  · have hnone := ofChan_cons_ne (f := .openChannel id host port w) hid
    exact ⟨(hnone _).2, (hnone _).1, congrArg _ (hnone []).1⟩

/-- A refusal is for the channel that was to be opened, and no update. -/
theorem refusal_frames {replies : List Frame}
    (hr : replies = [] ∨ ∃ msg, replies = [.opened id false msg 0]) :
    (∀ f ∈ replies, f.id = id) ∧ (∀ i, addsOf i replies = []) ∧ ofChan id replies = replies := by
  rcases hr with rfl | ⟨msg, rfl⟩
  · simp
  · refine ⟨by simp [Frame.id], fun i => addsOf_ordered (by simp [Frame.ordered]), ?_⟩
    exact (ofChan_cons_ordered (f := .opened id false msg 0) rfl []).1

/-- An `open` is the first the controlled side hears of a channel. -/
theorem Whole.fresh_open (h : s.Whole) (hw : s.up = .openChannel id host port w :: rest) :
    w = channelWindow ∧ ofChan id s.handledUp = [] ∧ (∀ d ∈ s.mux.chans, d.id ≠ id) ∧
      id ∈ s.ctl.map Chan.id := by
  have hmem : Frame.openChannel id host port w ∈ s.frames := by simp [frames, upward, hw]
  have hknown : id ∈ s.ctl.map Chan.id := h.books.known _ hmem
  obtain ⟨k, c, p, -, -, hid, hsound⟩ := h.owner hmem
  obtain rfl : c.id = id := hid
  have hup : ofChan c.id s.upward = .openChannel c.id host port w ::
      ofChan c.id (rest ++ s.dataQ ++ s.controlQ ++ s.lostUp) := by
    rw [upward, hw]
    exact (ofChan_cons_ordered (f := .openChannel c.id host port w) rfl _).1
  rcases Sound.next hsound hup with ⟨hnil, host', port', heq⟩ | ⟨-, ⟨b, heq⟩ | heq⟩
  · cases heq
    refine ⟨rfl, hnil, ?_, hknown⟩
    intro d hd hdid
    apply h.books.born d hd
    rw [hdid]
    exact hnil
  · cases heq
  · cases heq

/-- **An `open` the controlled side refuses.** -/
theorem Whole.muxRefused (h : s.Whole) (hw : s.up = .openChannel id host port w :: rest)
    {replies : List Frame}
    (hr : replies = [] ∨ (s.mux.gone = false ∧ ∃ msg, replies = [.opened id false msg 0])) :
    ({ s with
      up := rest
      mux := { s.mux with
        chans := Mux.retain s.mux.chans, tx := s.mux.tx ++ replies.map (none, ·) }
      handledUp := s.handledUp ++ [Frame.openChannel id host port w]
      sentDown := s.sentDown ++ replies } : Tunnel).Whole := by
  obtain ⟨-, hnil, hnone, hknown⟩ := h.fresh_open hw
  have hsnd : (replies.map ((none : Option ℕ), ·)).map Prod.snd = replies := by
    rw [List.map_map]
    exact List.map_id _
  obtain ⟨hreply, hadds, hmine⟩ := refusal_frames (hr.imp_right And.right)
  have hlost : ∀ i, ofChan i (replies ++ s.lostDown) = ofChan i (s.lostDown ++ replies) ∧
      addsOf i (replies ++ s.lostDown) = addsOf i (s.lostDown ++ replies) := by
    intro i
    rcases hr with rfl | ⟨hg, -⟩
    · simp
    · simp [h.books.lostDown hg]
  refine h.moved ?_ rfl ?_
  · refine h.books.keep rfl (map_id_retain _) (List.prefix_append _ _) ?_ (fun x hx => .inl hx)
      (fun f hf => hf) (fun f hf => hf) h.books.lostUp h.books.lostDown rfl
    intro f hf
    have hold : f ∈ s.frames ∨ f ∈ replies := by
      simp only [frames, upward, downward, List.map_append, hsnd, List.mem_append, hw,
        List.mem_cons] at hf ⊢
      tauto
    rcases hold with hf | hf
    · exact .inl hf
    · rw [hreply f hf]
      exact .inr hknown
  · intro k c p hk hp
    refine ⟨c, hk, ?_⟩
    generalize hs' : ({ s with
      up := rest
      mux := { s.mux with
        chans := Mux.retain s.mux.chans, tx := s.mux.tx ++ replies.map (none, ·) }
      handledUp := s.handledUp ++ [Frame.openChannel id host port w]
      sentDown := s.sentDown ++ replies } : Tunnel) = s'
    have hup : s.upward = .openChannel id host port w :: s'.upward := by
      rw [upward, hw, ← hs']
      rfl
    have hdown : ofChan c.id s'.downward = ofChan c.id s.downward ++ ofChan c.id replies ∧
        addsOf c.id s'.downward = addsOf c.id s.downward := by
      obtain ⟨h₁, h₂⟩ := hlost c.id
      rw [← hs', downward, downward]
      simp only [List.map_append, hsnd, ofChan_append, addsOf_append, List.append_assoc] at h₁ h₂ ⊢
      rw [h₁, hadds, List.nil_append]
      exact ⟨rfl, rfl⟩
    have hall : s'.handledUp = s.handledUp ++ [Frame.openChannel id host port w] := by rw [← hs']
    have hsent : ofChan c.id s'.sentDown = ofChan c.id s.sentDown ++ ofChan c.id replies := by
      rw [← hs', ofChan_append]
    have hfind : (s'.mux.chans.find? fun x => x.id = c.id) =
        (Mux.retain s.mux.chans).find? fun x => x.id = c.id := by rw [← hs']
    obtain ⟨haddsUp, hwire, hhandled⟩ := open_handled hup hall c.id
    by_cases hid : id = c.id
    · subst hid
      refine .inr ?_
      rw [if_pos rfl] at hwire hhandled
      rw [hnil] at hhandled
      have hfound : (s.mux.chans.find? fun x => x.id = c.id) = none := by
        apply List.find?_eq_none.mpr
        simpa using hnone
      rw [find_retain, hfound] at hfind
      have hpeer := peerChan_fresh hfound hnil
      have hpeer' : s'.peerChan c.id =
          { s.peerChan c.id with phase := .ended, entry := false } := by
        rw [hpeer, peerChan, hfind, hhandled]
        rfl
      have hphase : (s.link c p).peer.chan.phase = .connecting 0 := by
        show (s.peerChan c.id).phase = _
        rw [hpeer]
        rfl
      have hname : (s.link c p).peer.chan.id = c.id := by
        show (s.peerChan c.id).id = _
        rw [hpeer]
        rfl
      have hanswer : replies = [] ∨ ∃ m w, replies =
          [.opened (s.link c p).peer.chan.id false m w] := by
        rw [hname]
        rcases hr with rfl | ⟨-, msg, rfl⟩
        · exact .inl rfl
        · exact .inr ⟨msg, 0, rfl⟩
      have hlink := Link.Stepped.refused (l := s.link c p) hwire hphase hanswer
      rw [hmine] at hdown hsent
      convert hlink using 1
      have hprev : (s.link c p).ctl.handled = [] := hnil
      rw [link, hpeer', hhandled, hsent, hdown.1, hdown.2, ← haddsUp, hprev, ← hs']
      rfl
    · rw [if_neg hid] at hwire hhandled
      rw [List.append_nil] at hhandled
      have hother : ofChan c.id replies = [] :=
        ofChan_of_ne fun f hf hfid => hid ((hreply f hf).symm.trans hfid)
      rw [hother, List.append_nil] at hdown hsent
      refine link_other_open (peerChan_retain hfind hhandled) ?_
      rw [link, link, hwire, haddsUp, hhandled, hsent, hdown.1, hdown.2, ← hs']
      rfl

/-- **An `open` the controlled side starts a channel for.** -/
theorem Whole.muxSpawned (h : s.Whole) (hw : s.up = .openChannel id host port w :: rest)
    (addr : String) (isRdp : Bool) : ({ s with
      up := rest
      mux := { s.mux with
        chans := Mux.retain s.mux.chans ++ [Mux.newChan id addr isRdp w] }
      handledUp := s.handledUp ++ [Frame.openChannel id host port w] } : Tunnel).Whole := by
  obtain ⟨rfl, hnil, hnone, hknown⟩ := h.fresh_open hw
  have hids : (Mux.retain s.mux.chans ++ [Mux.newChan id addr isRdp channelWindow]).map Chan.id =
      s.mux.chans.map Chan.id ++ [id] := by
    rw [List.map_append, map_id_retain]
    rfl
  refine h.moved ?_ rfl ?_
  · refine ⟨h.books.ids, ?_, ?_, ?_, h.books.takers, h.books.data, h.books.control, h.books.lostUp,
      h.books.lostDown, h.books.length⟩
    · dsimp only
      rw [hids, List.nodup_append]
      refine ⟨h.books.peers, List.nodup_singleton _, ?_⟩
      intro a ha b hb
      rw [List.mem_singleton.mp hb]
      obtain ⟨d, hd, rfl⟩ := List.mem_map.mp ha
      exact hnone d hd
    · intro d hd
      have hmem : d.id ∈ s.mux.chans.map Chan.id ++ [id] := by
        rw [← hids]
        exact List.mem_map_of_mem hd
      dsimp only
      rw [ofChan_append]
      rcases List.mem_append.mp hmem with hmem | hmem
      · obtain ⟨d₀, hd₀, hdid⟩ := List.mem_map.mp hmem
        have := h.books.born d₀ hd₀
        rw [hdid] at this
        exact fun heq => this (List.append_eq_nil_iff.mp heq).1
      · rw [List.mem_singleton.mp hmem]
        simp [ofChan, Frame.ordered, Frame.id]
    · intro f hf
      apply h.books.known
      simp only [frames, upward, downward, List.mem_append, hw, List.mem_cons] at hf ⊢
      tauto
  · intro k c p hk hp
    refine ⟨c, hk, ?_⟩
    generalize hs' : ({ s with
      up := rest
      mux := { s.mux with
        chans := Mux.retain s.mux.chans ++ [Mux.newChan id addr isRdp channelWindow] }
      handledUp := s.handledUp ++ [Frame.openChannel id host port channelWindow] } : Tunnel) = s'
    have hup : s.upward = Frame.openChannel id host port channelWindow :: s'.upward := by
      rw [upward, hw, ← hs']
      rfl
    have hall : s'.handledUp = s.handledUp ++ [Frame.openChannel id host port channelWindow] := by
      rw [← hs']
    have hfind : (s'.mux.chans.find? fun x => x.id = c.id) =
        ((Mux.retain s.mux.chans).find? fun x => x.id = c.id).or
          ([Mux.newChan id addr isRdp channelWindow].find? fun x => x.id = c.id) := by
      rw [← hs']
      exact List.find?_append
    obtain ⟨haddsUp, hwire, hhandled⟩ := open_handled hup hall c.id
    by_cases hid : id = c.id
    · subst hid
      refine .inr ?_
      rw [if_pos rfl] at hwire hhandled
      rw [hnil] at hhandled
      have hfound : (s.mux.chans.find? fun x => x.id = c.id) = none := by
        apply List.find?_eq_none.mpr
        simpa using hnone
      have hpeer := peerChan_fresh hfound hnil
      have hpeer' : s'.peerChan c.id = { s.peerChan c.id with addr := addr, isRdp := isRdp } := by
        rw [hpeer, peerChan, hfind, find_retain, hfound]
        simp [Mux.newChan]
      have hlink := Link.Stepped.spawned (l := s.link c p) hwire addr isRdp
      convert hlink using 1
      have hprev : (s.link c p).ctl.handled = [] := hnil
      rw [link, hpeer', hhandled, ← haddsUp, hprev, ← hs']
      rfl
    · rw [if_neg hid] at hwire hhandled
      rw [List.append_nil] at hhandled
      have hnot : ([Mux.newChan id addr isRdp channelWindow].find? fun x => x.id = c.id) =
          none := by
        simp [Mux.newChan, hid]
      rw [hnot, Option.or_none] at hfind
      refine link_other_open (peerChan_retain hfind hhandled) ?_
      rw [link, link, hwire, haddsUp, hhandled, ← hs']
      rfl

/-- The controller sends no `opened`. -/
theorem Whole.no_opened (h : s.Whole) {ok : Bool} {msg : String}
    (hw : s.up = .opened id ok msg w :: rest) : False := by
  obtain ⟨k, c, p, -, -, hid, hsound⟩ :=
    h.owner (f := .opened id ok msg w) (by simp [frames, upward, hw])
  have hid : c.id = id := hid
  have hnext : ofChan c.id s.upward = .opened id ok msg w :: ofChan c.id
      (rest ++ s.dataQ ++ s.controlQ ++ s.lostUp) := by
    rw [upward, hw, hid]
    exact (ofChan_cons_ordered (f := .opened id ok msg w) rfl _).1
  rcases Sound.next hsound hnext with ⟨-, host, port, heq⟩ | ⟨-, ⟨b, heq⟩ | heq⟩
  · cases heq
  · cases heq
  · cases heq

/-- **The controlled side's next frame.** -/
theorem Whole.muxFrame (h : s.Whole) (hw : s.up = f :: rest) (permitted : Bool) : ({ s with
      up := rest
      mux := s.mux.handle permitted f
      handledUp := s.handledUp ++ [f]
      sentDown := s.sentDown ++ added s.mux (s.mux.handle permitted f) } : Tunnel).Whole := by
  have hnone : ∀ chans, added s.mux { s.mux with chans := chans } = [] := by
    intro chans
    simp [added]
  cases f with
  | openChannel id host port w =>
    rw [Mux.handle]
    rcases onOpen_shape s.mux permitted id host port w with ⟨replies, heq, hr⟩ | ⟨addr, isRdp, heq⟩
    · have hadded : added s.mux { s.mux with
          chans := Mux.retain s.mux.chans, tx := s.mux.tx ++ replies.map (none, ·) } = replies := by
        simp [added, Function.comp_def]
      rw [heq, hadded]
      exact h.muxRefused hw hr
    · rw [heq, hnone, List.append_nil]
      exact h.muxSpawned hw addr isRdp
  | opened id ok msg w => exact (h.no_opened hw).elim
  | data | close | windowUpdate =>
    rw [handle_hear s.mux permitted (by simp) (by simp), hnone, List.append_nil]
    exact h.muxHeard hw (by simp)

/-! ### A channel is opened -/

/-- **A channel under a number of its own starts as a channel does.** -/
theorem Whole.opened (h : s.Whole) (hid : id ∉ s.ctl.map Chan.id) (host : String) (port : ℤ)
    (prebuf : Bytes) (next : ℤ) : ({ s with
      ctl := s.ctl ++ [localChan id host port prebuf]
      nextId := next
      prebufs := s.prebufs ++ [prebuf] } : Tunnel).Whole := by
  have hids : (s.ctl ++ [localChan id host port prebuf]).map Chan.id = s.ctl.map Chan.id ++
      [id] := by
    rw [List.map_append]
    rfl
  constructor
  · refine ⟨?_, h.books.peers, h.books.born, ?_, ?_, h.books.data, h.books.control, h.books.lostUp,
      h.books.lostDown, ?_⟩
    · dsimp only
      rw [hids, List.nodup_append]
      refine ⟨h.books.ids, List.nodup_singleton _, ?_⟩
      intro a ha b hb
      rw [List.mem_singleton.mp hb]
      rintro rfl
      exact hid ha
    · intro f hf
      dsimp only
      rw [hids]
      exact List.mem_append_left _ (h.books.known f hf)
    · intro x hx
      dsimp only
      rw [hids]
      exact List.mem_append_left _ (h.books.takers x hx)
    · simp [h.books.length]
  · intro k c p hk hp
    have hlen := h.books.length
    rcases Nat.lt_trichotomy k s.ctl.length with hlt | heq | hgt
    · rw [List.getElem?_append_left hlt] at hk
      rw [List.getElem?_append_left (by omega)] at hp
      exact h.sound k c p hk hp
    · subst heq
      obtain rfl : localChan id host port prebuf = c := by simpa using hk
      obtain rfl : prebuf = p := by
        rw [← hlen] at hp
        simpa using hp
      have hne : ∀ f ∈ s.frames, f.id ≠ id := by
        intro f hf hfid
        apply hid
        rw [← hfid]
        exact h.books.known f hf
      have hnone : ∀ fs : List Frame, (∀ f ∈ fs, f ∈ s.frames) →
          ofChan id fs = [] ∧ addsOf id fs = [] := by
        intro fs hsub
        exact ⟨ofChan_of_ne fun f hf => hne f (hsub f hf),
          addsOf_of_ne fun f hf => hne f (hsub f hf)⟩
      have htook : ∀ side : Side, decide ((side, id) ∈ s.took) = false := by
        intro side
        rw [decide_eq_false_iff_not]
        exact fun hmem => hid (h.books.takers _ hmem)
      have hpeer : s.peerChan id = Mux.newChan id "" false channelWindow := by
        have hfound : (s.mux.chans.find? fun x => x.id = id) = none := by
          apply List.find?_eq_none.mpr
          intro d hd
          simp only [decide_eq_true_eq]
          rintro rfl
          exact hid (h.books.peer_known hd)
        simp [peerChan, hfound, (hnone s.handledUp (by simp +contextual [frames])).1]
      have hinit : s.link (localChan id host port prebuf) prebuf =
          Link.init id host port prebuf s.gone s.teardown s.mux.gone s.mux.teardown := by
        have hname : (localChan id host port prebuf).id = id := rfl
        rw [link, hname, htook, htook, hpeer, (hnone s.sentUp (by simp +contextual [frames])).1,
          (hnone s.handledUp (by simp +contextual [frames])).1,
            (hnone s.upward (by simp +contextual [frames])).1,
          (hnone s.upward (by simp +contextual [frames])).2,
            (hnone s.sentDown (by simp +contextual [frames])).1,
          (hnone s.handledDown (by simp +contextual [frames])).1,
            (hnone s.downward (by simp +contextual [frames])).1,
          (hnone s.downward (by simp +contextual [frames])).2]
        rfl
      have hsound := Link.init_sound id host port prebuf s.gone s.teardown s.mux.gone s.mux.teardown
      rw [← hinit] at hsound
      exact hsound
    · rw [List.getElem?_append_right (by omega)] at hk
      rw [List.getElem?_eq_none (by simp; omega)] at hk
      cases hk

/-! ### Whole runs -/

/-- What a step makes of the controller's channels, as far as their numbers go. -/
theorem step_ids (hs : s.step a = some s') :
    (s'.ctl.map Chan.id = s.ctl.map Chan.id ∧ s'.nextId = s.nextId) ∨
    ∃ host port prebuf id next, freeId s.ctl (entries s.ctl + 1) s.nextId = some (id, next) ∧
      s' = { s with
        ctl := s.ctl ++ [localChan id host port prebuf]
        nextId := next
        prebufs := s.prebufs ++ [prebuf] } := by
  cases a with
  | openChannel host port prebuf =>
    simp only [step, openChannel] at hs
    split_ifs at hs
    · cases hs
      exact .inl ⟨rfl, rfl⟩
    · cases hs
      exact .inl ⟨rfl, rfl⟩
    · obtain ⟨⟨id, next⟩, hid, rfl⟩ := Option.map_eq_some_iff.mp hs
      exact .inr ⟨host, port, prebuf, id, next, hid, rfl⟩
  | ctlTask k a =>
    obtain ⟨c, c', out, hk, hst, rfl⟩ := ctlTask_cases hs
    exact .inl ⟨map_id_set hk hst.id_eq, rfl⟩
  | reap k =>
    simp only [step, reap] at hs
    split at hs
    · cases hs
    · rename_i c hk
      split_ifs at hs
      cases hs
      refine .inl ⟨?_, rfl⟩
      dsimp only
      rw [map_id_onEntry (f := Chan.drop) (fun _ => rfl)]
      exact map_id_set hk rfl
  | pickData | pickControl =>
    simp only [step] at hs
    split at hs
    · cases hs
      exact .inl ⟨rfl, rfl⟩
    · cases hs
  | ctlFrame =>
    simp only [step] at hs
    split at hs
    · cases hs
      exact .inl ⟨map_id_onEntry (fun c => (c.hear_task _).1) _, rfl⟩
    · cases hs
  | ctlCloseAll =>
    cases hs
    refine .inl ⟨?_, rfl⟩
    dsimp only
    rw [List.map_map]
    rfl
  | ctlHangUp =>
    simp only [step] at hs
    split_ifs at hs
    cases hs
    exact .inl ⟨rfl, rfl⟩
  | muxFrame permitted =>
    simp only [step] at hs
    split at hs
    · cases hs
    · obtain ⟨m, -, rfl⟩ := Option.map_eq_some_iff.mp hs
      exact .inl ⟨rfl, rfl⟩
  | muxWrite =>
    simp only [step] at hs
    split at hs
    · cases hs
    · cases hs
      exact .inl ⟨rfl, rfl⟩
  | muxTask k a =>
    obtain ⟨m, -, rfl⟩ := Option.map_eq_some_iff.mp hs
    exact .inl ⟨rfl, rfl⟩
  | muxCloseAll | muxHangUp =>
    cases hs
    exact .inl ⟨rfl, rfl⟩

theorem length_step (hs : s.step a = some s') : s.ctl.length ≤ s'.ctl.length := by
  rcases step_ids hs with ⟨hids, -⟩ | ⟨host, port, prebuf, id, next, -, rfl⟩
  · have := congrArg List.length hids
    simp only [List.length_map] at this
    omega
  · simp

/-- Until the counter has come round, `open` takes the next number, which no channel has. -/
theorem Numbered.free (h : s.Numbered) (hlen : s.ctl.length < 2 ^ 32) {n : ℕ} :
    s.nextId ∉ s.ctl.map Chan.id ∧
      freeId s.ctl (n + 1) s.nextId = some (s.nextId, wrapI32 (s.nextId + 1)) := by
  have hnot : s.nextId ∉ s.ctl.map Chan.id := by
    rw [h.ids, h.next]
    intro hmem
    obtain ⟨k, hk, heq⟩ := List.mem_map.mp hmem
    rw [List.mem_range] at hk
    have := idOf_inj (by omega) hlen heq
    omega
  refine ⟨hnot, ?_⟩
  have hentry : hasEntry s.nextId s.ctl = false := by
    rw [hasEntry, List.any_eq_false]
    intro c hc
    simp only [Bool.and_eq_true, decide_eq_true_eq, not_and]
    intro _ hid
    apply hnot
    rw [← hid]
    exact List.mem_map_of_mem hc
  rw [freeId, hentry]
  rfl

/-- Numbers are given out in turn. -/
theorem Numbered.step (h : s.Numbered) (hs : s.step a = some s') (hlen : s'.ctl.length ≤ 2 ^ 32) :
    s'.Numbered := by
  rcases step_ids hs with ⟨hids, hnext⟩ | ⟨host, port, prebuf, id, next, hfree, rfl⟩
  · have hlength : s'.ctl.length = s.ctl.length := by simpa using congrArg List.length hids
    constructor
    · rw [hids, hlength]
      exact h.ids
    · rw [hnext, hlength]
      exact h.next
  · simp only [List.length_append, List.length_singleton] at hlen
    rw [(h.free (by omega)).2] at hfree
    obtain ⟨rfl, rfl⟩ := Prod.mk.inj (Option.some.inj hfree)
    constructor
    · have hlast : (localChan s.nextId host port prebuf).id = idOf s.ctl.length := h.next
      rw [List.map_append, List.length_append, List.length_singleton, List.range_succ,
        List.map_append,
        h.ids, List.map_singleton, List.map_singleton, hlast]
    · simp only [List.length_append, List.length_singleton, h.next, idOf, wrapI32]
      push_cast
      omega

/-- **Every step keeps the tunnel whole.** -/
theorem Whole.step (h : s.Whole) (hn : s.Numbered) (hs : s.step a = some s')
    (hlen : s'.ctl.length ≤ 2 ^ 32) : s'.Whole := by
  cases a with
  | openChannel host port prebuf =>
    simp only [Tunnel.step, openChannel] at hs
    split_ifs at hs
    · cases hs
      exact h
    · cases hs
      exact h
    · obtain ⟨⟨id, next⟩, hid, rfl⟩ := Option.map_eq_some_iff.mp hs
      simp only [List.length_append, List.length_singleton] at hlen
      obtain ⟨hnot, hfree⟩ := hn.free (n := entries s.ctl) (by omega)
      rw [hfree] at hid
      obtain ⟨rfl, rfl⟩ := Prod.mk.inj (Option.some.inj hid)
      exact h.opened hnot host port prebuf _
  | ctlTask k a =>
    obtain ⟨c, c', out, hk, hst, rfl⟩ := ctlTask_cases hs
    exact h.ctlTask hk hst
  | reap k =>
    simp only [Tunnel.step, Tunnel.reap] at hs
    split at hs
    · cases hs
    · rename_i c hk
      split_ifs at hs with hp
      cases hs
      exact h.reap hk hp
  | pickData =>
    simp only [Tunnel.step] at hs
    split at hs
    · rename_i f rest ht hq
      cases hs
      exact h.picked (.inl ⟨h.books.data f (by simp [hq]), hq, rfl⟩)
    · cases hs
  | pickControl =>
    simp only [Tunnel.step] at hs
    split at hs
    · rename_i f rest ht hq
      cases hs
      exact h.picked (.inr ⟨h.books.control f (by simp [hq]), rfl, hq⟩)
    · cases hs
  | ctlFrame =>
    simp only [Tunnel.step] at hs
    split at hs
    · rename_i f rest ht hw
      cases hs
      exact h.ctlFrame hw
    · cases hs
  | ctlCloseAll =>
    cases hs
    exact h.ctlCloseAll
  | ctlHangUp =>
    simp only [Tunnel.step] at hs
    split_ifs at hs
    cases hs
    exact h.ctlHangUp
  | muxFrame permitted =>
    simp only [Tunnel.step] at hs
    split at hs
    · cases hs
    · rename_i f rest hw
      obtain ⟨m, hm, rfl⟩ := Option.map_eq_some_iff.mp hs
      simp only [Mux.step] at hm
      split_ifs at hm
      obtain rfl := Option.some.inj hm
      exact h.muxFrame hw permitted
  | muxTask k a =>
    obtain ⟨d, d', out, hk, hst, rfl⟩ := muxTask_cases hs
    exact h.muxTask hk hst
  | muxWrite =>
    simp only [Tunnel.step] at hs
    split at hs
    · cases hs
    · rename_i e rest ht
      cases hs
      exact h.muxWrite ht
  | muxCloseAll =>
    cases hs
    exact h.muxCloseAll
  | muxHangUp =>
    cases hs
    exact h.muxHangUp

end Tunnel
end BgDesk
