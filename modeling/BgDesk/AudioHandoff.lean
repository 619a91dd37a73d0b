import Mathlib.Algebra.GroupWithZero.Nat
import Mathlib.Data.List.Perm.Basic
import BgDesk.Machine

/-!
# The hand-off of captured sound

`server/audio_service/audio_capture_queue.rs` and `smooth_packet` of `audio_capture_encoder.rs`. The
callback of the sound card must not wait and must not allocate: it copies a packet into a buffer of
a fixed pool and puts it into a queue, from which the thread of the encoder takes it. When the pool
is empty the oldest packet in the queue gives up its buffer.

* `Capture.step` — the two threads, with every access to the lock and to the counters a step of its
  own;
* `Capture.Pool`, `Capture.Stream`, `Capture.Tally` — the buffers, the packets, and the statistics;
* `Capture.Accounted`, `handoff_accounted` — what follows for every run.

A packet is known by its place among all packets that were submitted; the code knows it by this
number modulo `2 ^ 64`.
-/

namespace BgDesk
namespace AudioCapture

/-! ## Buffers -/

/-- A `usize` after an addition that wraps. -/
def wrapping (n : ℕ) : ℕ := n % 2 ^ 64

/-- A `Vec<f32>`: what it holds, and for how much it has room. -/
structure Buffer (F : Type) where
  samples : List F
  capacity : ℕ
  deriving DecidableEq

namespace Buffer

variable {F : Type}

def clear (b : Buffer F) : Buffer F := { b with samples := [] }

/-- `extend_from_slice`; the flag says that it had to allocate. -/
def extendFromSlice (b : Buffer F) (input : List F) : Buffer F × Bool :=
  let needed := b.samples.length + input.length
  if needed ≤ b.capacity then (⟨b.samples ++ input, b.capacity⟩, false)
  else (⟨b.samples ++ input, max (2 * b.capacity) needed⟩, true)

end Buffer

/-- A packet in the queue. The code does not have its place. -/
structure Packet (F : Type) where
  place : ℕ
  sequence : ℕ
  buffer : Buffer F
  deriving DecidableEq

/-- `CapturePcmLoss`. -/
structure CapturePcmLoss where
  dropped : ℕ
  contentionDropped : ℕ
  oversized : ℕ
  recycleFailures : ℕ
  deriving DecidableEq

/-- `CapturePcmStats`. -/
structure CapturePcmStats where
  loss : CapturePcmLoss
  maxQueuedPackets : ℕ
  deriving DecidableEq

/-! ## The encoder -/

/-- `CaptureEncoderState`, without its reporter. -/
structure CaptureEncoderState (F : Type) where
  channels : ℕ
  expectedSequence : ℕ
  fadeFrames : ℕ
  lastFrame : List F
  deriving DecidableEq

namespace CaptureEncoderState

variable {F : Type}

/-- The loop of `smooth_packet`. The arithmetic on the samples is a parameter: it is given the two
parts of the weight. -/
def fade (mix : ℕ → ℕ → F → F → F) (e : CaptureEncoderState F) (packet : List F) : List F :=
  packet.zipIdx.map fun (sample, i) =>
    let frame := i / e.channels
    if frame < packet.length / e.channels ∧ frame < e.fadeFrames then
      match e.lastFrame[i % e.channels]? with
      | some last => mix (frame + 1) e.fadeFrames last sample
      | none => sample
    else sample

/-- `smooth_packet`. -/
def smoothPacket (mix : ℕ → ℕ → F → F → F) (e : CaptureEncoderState F) (sequence : ℕ)
    (packet : List F) : CaptureEncoderState F × List F :=
  let packet := if sequence ≠ e.expectedSequence then e.fade mix packet else packet
  let frames := packet.length / e.channels
  let last := (packet.drop ((frames - 1) * e.channels)).take e.channels
  ({ e with
    expectedSequence := wrapping (sequence + 1)
    lastFrame := if 0 < frames then last ++ e.lastFrame.drop e.channels else e.lastFrame }, packet)

end CaptureEncoderState

/-! ## The two threads -/

/-- Where `submit` stands. -/
inductive SenderPc (F : Type) where
  | idle : SenderPc F
  /-- before `try_lock` -/
  | trying : (sequence : ℕ) → (input : List F) → SenderPc F
  /-- with the lock, and with a buffer -/
  | holding : (sequence : ℕ) → (input : List F) → Buffer F → SenderPc F
  deriving DecidableEq

/-- Where `take_stats` stands, with what it has taken. -/
inductive StatsPc where
  | idle : StatsPc
  | contention : (contentionDropped : ℕ) → StatsPc
  | other : (contentionDropped dropped : ℕ) → StatsPc
  | oversize : (contentionDropped dropped oversized : ℕ) → StatsPc
  | loss : CapturePcmLoss → StatsPc
  deriving DecidableEq

/-- What has become of a packet that is lost. -/
inductive Cause where
  | oversized
  | contention
  | poisoned
  | displaced
  | noBuffer
  deriving DecidableEq

/-- A packet that was taken from the queue, and what the encoder expected. -/
structure Delivery (F : Type) where
  place : ℕ
  sequence : ℕ
  expected : ℕ
  samples : List F
  deriving DecidableEq

/-- `CapturePcmHandoff` with its sender and its receiver, and what has happened. -/
structure Capture (F : Type) where
  available : List (Buffer F)
  availableCapacity : ℕ
  ready : List (Packet F)
  readyCapacity : ℕ
  otherDropped : ℕ
  contentionDropped : ℕ
  oversized : ℕ
  recycleFailures : ℕ
  maxQueuedPackets : ℕ
  maxSamples : ℕ
  sequence : ℕ
  sender : SenderPc F
  /-- buffers the receiver has taken and not given back -/
  held : List (Buffer F)
  stats : StatsPc
  encoder : CaptureEncoderState F
  /-- all that was submitted -/
  inputs : List (List F)
  delivered : List (Delivery F)
  lost : List (ℕ × Cause)
  /-- all statistics that were taken -/
  taken : List CapturePcmStats
  /-- how often a submit has allocated -/
  allocations : ℕ
  deriving DecidableEq

/-- What `try_lock` returns. -/
inductive TryLock where
  | ok
  | wouldBlock
  | poisoned
  deriving DecidableEq

inductive Act (F : Type) where
  /-- `submit`, up to the check of the size -/
  | submit : (input : List F) → Act F
  /-- `try_lock`, and `take_buffer` if it has the lock -/
  | tryLock : TryLock → Act F
  /-- the rest of `submit` -/
  | push : Act F
  /-- `pop_packet` and `smooth_packet` -/
  | popPacket : Act F
  /-- `recycle` of one of the buffers that are held -/
  | recycle : (i : ℕ) → Act F
  /-- the next of the five `swap`s of `take_stats` -/
  | swap : Act F
  deriving DecidableEq

/-- What `with_capacity` gives beyond what it is asked for: a `Vec` has room for at least that much.
-/
structure Slack where
  available : ℕ
  ready : ℕ
  buffer : ℕ → ℕ

namespace Capture

variable {F : Type}

/-- `new_pcm_handoff`, and the encoder it is for. -/
def newPcmHandoff (capacity maxSamples : ℕ) (slack : Slack) (channels fadeFrames : ℕ)
    (silence : List F) : Option (Capture F) :=
  if capacity = 0 ∨ maxSamples = 0 then none
  else
    some {
      available := (List.range capacity).map fun i => ⟨[], maxSamples + slack.buffer i⟩
      availableCapacity := capacity + slack.available
      ready := []
      readyCapacity := capacity + slack.ready
      otherDropped := 0
      contentionDropped := 0
      oversized := 0
      recycleFailures := 0
      maxQueuedPackets := 0
      maxSamples
      sequence := 0
      sender := .idle
      held := []
      stats := .idle
      encoder := ⟨channels, 0, fadeFrames, silence⟩
      inputs := []
      delivered := []
      lost := []
      taken := []
      allocations := 0 }

/-- The place of the packet that is being submitted. -/
def current (s : Capture F) : ℕ := s.inputs.length - 1

def submit (s : Capture F) (input : List F) : Option (Capture F) :=
  match s.sender with
  | .idle =>
    let place := s.inputs.length
    let sequence := s.sequence
    let s := { s with sequence := wrapping (s.sequence + 1), inputs := s.inputs ++ [input] }
    if s.maxSamples < input.length then
      some { s with
        oversized := wrapping (s.oversized + 1), lost := s.lost ++ [(place, .oversized)] }
    else some { s with sender := .trying sequence input }
  | _ => none

/-- `try_lock`, with `take_buffer`. -/
def tryLock (s : Capture F) (outcome : TryLock) : Option (Capture F) :=
  match s.sender with
  | .trying sequence input =>
    match outcome with
    | .wouldBlock =>
      some { s with
        contentionDropped := wrapping (s.contentionDropped + 1)
        lost := s.lost ++ [(s.current, .contention)]
        sender := .idle }
    | .poisoned =>
      some { s with
        otherDropped := wrapping (s.otherDropped + 1), lost :=
          s.lost ++ [(s.current, .poisoned)], sender := .idle }
    | .ok =>
      match s.available, s.ready with
      | buffer :: available, _ =>
        some { s with available, sender := .holding sequence input buffer }
      | [], packet :: ready =>
        some { s with
          ready
          otherDropped := wrapping (s.otherDropped + 1)
          lost := s.lost ++ [(packet.place, .displaced)]
          sender := .holding sequence input packet.buffer }
      | [], [] =>
        some { s with
          otherDropped := wrapping (s.otherDropped + 1), lost :=
            s.lost ++ [(s.current, .noBuffer)], sender := .idle }
  | _ => none

def push (s : Capture F) : Option (Capture F) :=
  match s.sender with
  | .holding sequence input buffer =>
    let (buffer, allocated) := buffer.clear.extendFromSlice input
    let ready := s.ready ++ [⟨s.current, sequence, buffer⟩]
    some { s with
      ready
      maxQueuedPackets := max s.maxQueuedPackets ready.length
      allocations := s.allocations + (if allocated then 1 else 0) +
        (if s.readyCapacity ≤ s.ready.length then 1 else 0)
      sender := .idle }
  | _ => none

/-- The lock is held by `submit`. -/
def locked (s : Capture F) : Bool :=
  match s.sender with
  | .holding _ _ _ => true
  | _ => false

/-- `next_packet`, without the statistics. -/
def popPacket (mix : ℕ → ℕ → F → F → F) (s : Capture F) : Option (Capture F) :=
  if s.locked then none
  else
    match s.ready with
    | [] => some s
    | packet :: ready =>
      let (encoder, samples) := s.encoder.smoothPacket mix packet.sequence packet.buffer.samples
      some { s with
        ready
        encoder
        held := s.held ++ [{ packet.buffer with samples }]
        delivered := s.delivered ++
          [⟨packet.place, packet.sequence, s.encoder.expectedSequence, packet.buffer.samples⟩] }

def recycle (s : Capture F) (i : ℕ) : Option (Capture F) :=
  if s.locked then none
  else
    match s.held[i]? with
    | none => none
    | some buffer =>
      let s := { s with held := s.held.eraseIdx i }
      if s.available.length = s.availableCapacity then
        some { s with recycleFailures := wrapping (s.recycleFailures + 1) }
      else some { s with available := buffer.clear :: s.available }

/-- `take_stats`, one `swap`. -/
def swap (s : Capture F) : Capture F :=
  match s.stats with
  | .idle => { s with contentionDropped := 0, stats := .contention s.contentionDropped }
  | .contention c => { s with otherDropped := 0, stats := .other c (wrapping (s.otherDropped + c)) }
  | .other c d => { s with oversized := 0, stats := .oversize c d s.oversized }
  | .oversize c d o => { s with recycleFailures := 0, stats := .loss ⟨d, c, o, s.recycleFailures⟩ }
  | .loss loss =>
    { s with
      maxQueuedPackets := 0, taken := s.taken ++ [⟨loss, s.maxQueuedPackets⟩], stats := .idle }

def step (mix : ℕ → ℕ → F → F → F) (s : Capture F) : Act F → Option (Capture F)
  | .submit input => s.submit input
  | .tryLock outcome => s.tryLock outcome
  | .push => s.push
  | .popPacket => s.popPacket mix
  | .recycle i => s.recycle i
  | .swap => some s.swap

/-- What a step can do. -/
inductive Moves (mix : ℕ → ℕ → F → F → F) (s : Capture F) : Capture F → Prop where
  | oversized (input : List F) (hpc : s.sender = .idle) (hlen : s.maxSamples < input.length) :
    Moves mix s { s with
      sequence := wrapping (s.sequence + 1)
      inputs := s.inputs ++ [input]
      oversized := wrapping (s.oversized + 1)
      lost := s.lost ++ [(s.inputs.length, .oversized)] }
  | enter (input : List F) (hpc : s.sender = .idle) (hlen : input.length ≤ s.maxSamples) :
    Moves mix s { s with
      sequence := wrapping (s.sequence + 1)
      inputs := s.inputs ++ [input]
      sender := .trying s.sequence input }
  | contention (sequence : ℕ) (input : List F) (hpc : s.sender = .trying sequence input) :
    Moves mix s { s with
      contentionDropped := wrapping (s.contentionDropped + 1)
      lost := s.lost ++ [(s.current, .contention)]
      sender := .idle }
  | refused (sequence : ℕ) (input : List F) (cause : Cause)
    (hpc : s.sender = .trying sequence input)
      (hcause : cause = .poisoned ∨ cause = .noBuffer) :
    Moves mix s { s with
      otherDropped := wrapping (s.otherDropped + 1)
      lost := s.lost ++ [(s.current, cause)]
      sender := .idle }
  | takeAvailable (sequence : ℕ) (input : List F) (buffer : Buffer F) (available : List (Buffer F))
      (hpc : s.sender = .trying sequence input) (hav : s.available = buffer :: available) :
    Moves mix s { s with available, sender := .holding sequence input buffer }
  | displace (sequence : ℕ) (input : List F) (packet : Packet F) (ready : List (Packet F))
      (hpc : s.sender = .trying sequence input) (hready : s.ready = packet :: ready) :
    Moves mix s { s with
      ready
      otherDropped := wrapping (s.otherDropped + 1)
      lost := s.lost ++ [(packet.place, .displaced)]
      sender := .holding sequence input packet.buffer }
  | push (sequence : ℕ) (input : List F) (buffer : Buffer F)
    (hpc : s.sender = .holding sequence input buffer) :
    Moves mix s { s with
      ready := s.ready ++ [⟨s.current, sequence, (buffer.clear.extendFromSlice input).1⟩]
      maxQueuedPackets := max s.maxQueuedPackets (s.ready.length + 1)
      allocations := s.allocations + (if (buffer.clear.extendFromSlice input).2 then 1 else 0) +
        (if s.readyCapacity ≤ s.ready.length then 1 else 0)
      sender := .idle }
  | popNone : Moves mix s s
  | pop (packet : Packet F) (ready : List (Packet F)) (hready : s.ready = packet :: ready) :
    Moves mix s { s with
      ready
      encoder := (s.encoder.smoothPacket mix packet.sequence packet.buffer.samples).1
      held := s.held ++
        [{ packet.buffer with
          samples := (s.encoder.smoothPacket mix packet.sequence packet.buffer.samples).2 }]
      delivered := s.delivered ++
        [⟨packet.place, packet.sequence, s.encoder.expectedSequence, packet.buffer.samples⟩] }
  | recycleFull (i : ℕ) (buffer : Buffer F) (hheld : s.held[i]? = some buffer)
      (hfull : s.available.length = s.availableCapacity) :
    Moves mix s
      { s with held := s.held.eraseIdx i, recycleFailures := wrapping (s.recycleFailures + 1) }
  | recycle (i : ℕ) (buffer : Buffer F) (hheld : s.held[i]? = some buffer) :
    Moves mix s { s with held := s.held.eraseIdx i, available := buffer.clear :: s.available }
  | swap : Moves mix s s.swap

variable {mix : ℕ → ℕ → F → F → F} {s s' : Capture F} {a : Act F}

theorem submit_moves {input : List F} (h : s.submit input = some s') : Moves mix s s' := by
  rw [submit] at h
  split at h
  · next hpc =>
    simp only at h
    split at h
    · next hlen =>
      obtain rfl := Option.some.inj h
      exact .oversized input hpc hlen
    · next hlen =>
      obtain rfl := Option.some.inj h
      exact .enter input hpc (Nat.le_of_not_lt hlen)
  · cases h

theorem tryLock_moves {outcome : TryLock} (h : s.tryLock outcome = some s') : Moves mix s s' := by
  rw [tryLock] at h
  split at h
  · next sequence input hpc =>
    split at h
    · obtain rfl := Option.some.inj h
      exact .contention sequence input hpc
    · obtain rfl := Option.some.inj h
      exact .refused sequence input .poisoned hpc (.inl rfl)
    · split at h
      · next buffer available hav =>
        obtain rfl := Option.some.inj h
        exact .takeAvailable sequence input buffer available hpc hav
      · next packet ready _ hready =>
        obtain rfl := Option.some.inj h
        exact .displace sequence input packet ready hpc hready
      · obtain rfl := Option.some.inj h
        exact .refused sequence input .noBuffer hpc (.inr rfl)
  · cases h

theorem push_moves (h : s.push = some s') : Moves mix s s' := by
  rw [Capture.push] at h
  split at h
  · next sequence input buffer hpc =>
    obtain rfl := Option.some.inj h
    have hpush : Moves mix s _ := .push sequence input buffer hpc
    simp only [List.length_append, List.length_singleton]
    exact hpush
  · cases h

theorem popPacket_moves (h : s.popPacket mix = some s') : Moves mix s s' := by
  rw [popPacket] at h
  split at h
  · cases h
  · split at h
    · obtain rfl := Option.some.inj h
      exact .popNone
    · next packet ready hready =>
      obtain rfl := Option.some.inj h
      exact .pop packet ready hready

theorem recycle_moves {i : ℕ} (h : s.recycle i = some s') : Moves mix s s' := by
  rw [Capture.recycle] at h
  split at h
  · cases h
  · split at h
    · cases h
    · next buffer hheld =>
      simp only at h
      split at h
      · next hfull =>
        obtain rfl := Option.some.inj h
        exact .recycleFull i buffer hheld hfull
      · obtain rfl := Option.some.inj h
        exact .recycle i buffer hheld

theorem step_moves (h : s.step mix a = some s') : Moves mix s s' := by
  cases a with
  | submit input => exact submit_moves h
  | tryLock outcome => exact tryLock_moves h
  | push => exact push_moves h
  | popPacket => exact popPacket_moves h
  | recycle i => exact recycle_moves h
  | swap =>
    obtain rfl := Option.some.inj h
    exact .swap

end Capture

/-! ## The buffers -/

namespace SenderPc

variable {F : Type}

/-- The room of the buffer in hand. -/
def caps : SenderPc F → List ℕ
  | .holding _ _ buffer => [buffer.capacity]
  | _ => []

/-- The packet in hand. -/
def input : SenderPc F → Option (ℕ × List F)
  | .idle => none
  | .trying sequence input => some (sequence, input)
  | .holding sequence input _ => some (sequence, input)

end SenderPc

/-- The failures `take_stats` has in hand. -/
def StatsPc.recycleFailures : StatsPc → ℕ
  | .loss l => l.recycleFailures
  | _ => 0

namespace Capture

variable {F : Type}

/-- The rooms of all buffers, wherever they are. -/
def caps (s : Capture F) : List ℕ :=
  s.available.map Buffer.capacity ++ s.ready.map (fun p => p.buffer.capacity) ++
    s.held.map Buffer.capacity ++ s.sender.caps

/-- The buffers are those of the pool, none of them has grown, and each has room for a packet. -/
structure Pool (pool : List ℕ) (s : Capture F) : Prop where
  caps : s.caps.Perm pool
  room : ∀ c ∈ pool, s.maxSamples ≤ c
  spaceAvailable : pool.length ≤ s.availableCapacity
  spaceReady : pool.length ≤ s.readyCapacity
  fits : ∀ p, s.sender.input = some p → p.2.length ≤ s.maxSamples
  allocations : s.allocations = 0
  recycled : s.recycleFailures = 0 ∧ s.stats.recycleFailures = 0 ∧
    ∀ t ∈ s.taken, t.loss.recycleFailures = 0

variable {mix : ℕ → ℕ → F → F → F} {s s' : Capture F} {pool : List ℕ}

theorem Pool.length (h : s.Pool pool) :
    s.available.length + s.ready.length + s.held.length + s.sender.caps.length = pool.length := by
  rw [← h.caps.length_eq, Capture.caps]
  simp only [List.length_append, List.length_map]

/-- The buffer in hand has room for the packet in hand. -/
theorem Pool.extend (h : s.Pool pool) {sequence : ℕ} {input : List F} {buffer : Buffer F}
    (hpc : s.sender = .holding sequence input buffer) :
    buffer.clear.extendFromSlice input = (⟨input, buffer.capacity⟩, false) := by
  have hfits : input.length ≤ s.maxSamples := h.fits (sequence, input) (by rw [hpc]; rfl)
  have hmem : buffer.capacity ∈ s.caps := by
    rw [Capture.caps, hpc]
    exact List.mem_append_right _ List.mem_cons_self
  have hroom : s.maxSamples ≤ buffer.capacity := h.room _ (h.caps.subset hmem)
  have hlen : buffer.clear.samples.length + input.length ≤ buffer.clear.capacity := by
    change 0 + input.length ≤ buffer.capacity
    omega
  rw [Buffer.extendFromSlice, if_pos hlen]
  rfl

theorem Pool.moves (h : s.Pool pool) (hmoves : Moves mix s s') : s'.Pool pool := by
  have hcaps := h.caps
  have hlength := h.length
  rw [Capture.caps] at hcaps
  cases hmoves with
  | oversized input hpc hlen =>
    exact ⟨h.caps, h.room, h.spaceAvailable, h.spaceReady, h.fits, h.allocations, h.recycled⟩
  | enter input hpc hlen =>
    rw [hpc] at hcaps
    refine ⟨hcaps, h.room, h.spaceAvailable, h.spaceReady, ?_, h.allocations, h.recycled⟩
    intro p hp
    obtain rfl := Option.some.inj hp
    exact hlen
  | contention sequence input hpc | refused sequence input cause hpc hcause =>
    rw [hpc] at hcaps
    exact ⟨hcaps, h.room, h.spaceAvailable, h.spaceReady, nofun, h.allocations, h.recycled⟩
  | takeAvailable sequence input buffer available hpc hav =>
    have hfits := h.fits (sequence, input) (by rw [hpc]; rfl)
    refine ⟨?_, h.room, h.spaceAvailable, h.spaceReady, ?_, h.allocations, h.recycled⟩
    · refine List.Perm.trans (List.perm_iff_count.mpr fun c => ?_) hcaps
      simp only [Capture.caps, hav, hpc, SenderPc.caps, List.count_append, List.map_cons,
        List.count_cons, List.count_nil]
      omega
    · intro p hp
      obtain rfl := Option.some.inj hp
      exact hfits
  | displace sequence input packet ready hpc hready =>
    have hfits := h.fits (sequence, input) (by rw [hpc]; rfl)
    refine ⟨?_, h.room, h.spaceAvailable, h.spaceReady, ?_, h.allocations, h.recycled⟩
    · refine List.Perm.trans (List.perm_iff_count.mpr fun c => ?_) hcaps
      simp only [Capture.caps, hready, hpc, SenderPc.caps, List.count_append, List.map_cons,
        List.count_cons,
        List.count_nil]
      omega
    · intro p hp
      obtain rfl := Option.some.inj hp
      exact hfits
  | push sequence input buffer hpc =>
    have hroom : ¬s.readyCapacity ≤ s.ready.length := by
      have hspace := h.spaceReady
      rw [hpc] at hlength
      simp only [SenderPc.caps, List.length_singleton] at hlength
      omega
    rw [h.extend hpc, if_neg hroom]
    refine ⟨?_, h.room, h.spaceAvailable, h.spaceReady, nofun, h.allocations, h.recycled⟩
    refine List.Perm.trans (List.perm_iff_count.mpr fun c => ?_) hcaps
    simp only [Capture.caps, hpc, SenderPc.caps, List.count_append, List.map_append, List.map_cons,
      List.map_nil,
      List.count_nil]
    omega
  | popNone => exact h
  | pop packet ready hready =>
    refine ⟨?_, h.room, h.spaceAvailable, h.spaceReady, h.fits, h.allocations, h.recycled⟩
    refine List.Perm.trans (List.perm_iff_count.mpr fun c => ?_) hcaps
    simp only [Capture.caps, hready, List.count_append, List.map_append, List.map_cons,
      List.map_nil, List.count_cons,
      List.count_nil]
    omega
  | recycleFull i buffer hheld hfull =>
    -- the pool is not complete while the receiver holds one of its buffers
    have hpos : 0 < s.held.length :=
      Nat.lt_of_le_of_lt (Nat.zero_le i) (List.getElem?_eq_some_iff.mp hheld).1
    have hspace := h.spaceAvailable
    omega
  | recycle i buffer hheld =>
    obtain ⟨hi, rfl⟩ := List.getElem?_eq_some_iff.mp hheld
    refine ⟨?_, h.room, h.spaceAvailable, h.spaceReady, h.fits, h.allocations, h.recycled⟩
    have herase := (List.getElem_cons_eraseIdx_perm hi).map Buffer.capacity
    refine List.Perm.trans (List.perm_iff_count.mpr fun c => ?_) hcaps
    have hcount := herase.count_eq c
    rw [List.map_cons, List.count_cons] at hcount
    simp only [Capture.caps, Buffer.clear, List.count_append, List.map_cons, List.count_cons]
    omega
  | swap =>
    rw [Capture.swap]
    obtain ⟨hfail, hhand, htaken⟩ := h.recycled
    split
    · exact ⟨h.caps, h.room, h.spaceAvailable, h.spaceReady, h.fits, h.allocations, hfail,
        rfl, htaken⟩
    · exact ⟨h.caps, h.room, h.spaceAvailable, h.spaceReady, h.fits, h.allocations, hfail,
        rfl, htaken⟩
    · exact ⟨h.caps, h.room, h.spaceAvailable, h.spaceReady, h.fits, h.allocations, hfail,
        rfl, htaken⟩
    · exact ⟨h.caps, h.room, h.spaceAvailable, h.spaceReady, h.fits, h.allocations, rfl,
        hfail, htaken⟩
    · next loss hpc =>
      rw [hpc] at hhand
      refine ⟨h.caps, h.room, h.spaceAvailable, h.spaceReady, h.fits, h.allocations, hfail, rfl,
        fun t ht => ?_⟩
      rcases List.mem_append.mp ht with ht | ht
      · exact htaken t ht
      · obtain rfl := List.mem_singleton.mp ht
        exact hhand

end Capture

/-! ## The packets -/

/-- The place behind the packet that was delivered last. -/
def resume {F : Type} (delivered : List (Delivery F)) : ℕ :=
  match delivered.getLast? with
  | some d => d.place + 1
  | none => 0

/-- A delivery after others: the code knows its place, and where it should be, modulo `2 ^ 64`. -/
structure Heard {F : Type} (before : List (Delivery F)) (d : Delivery F) : Prop where
  sequence : d.sequence = wrapping d.place
  expected : d.expected = wrapping (resume before)

namespace Capture

variable {F : Type}

/-- The packet that is being submitted. -/
def hand (s : Capture F) : List ℕ :=
  match s.sender with
  | .idle => []
  | _ => [s.current]

/-- The packets that were not lost, in the order in which they leave. -/
def order (s : Capture F) : List ℕ :=
  s.delivered.map Delivery.place ++ s.ready.map Packet.place ++ s.hand

/-- Every packet that was submitted is at one place. -/
structure Stream (s : Capture F) : Prop where
  number : s.sequence = wrapping s.inputs.length
  input : ∀ p, s.sender.input = some p → s.inputs ≠ [] ∧ p.1 = wrapping s.current ∧
    s.inputs[s.current]? = some p.2
  ready : ∀ p ∈ s.ready, p.sequence = wrapping p.place ∧ s.inputs[p.place]? = some p.buffer.samples
  sorted : s.order.Pairwise (· < ·)
  fate : ∀ i, s.order.count i + (s.lost.map Prod.fst).count i = if i < s.inputs.length then 1 else 0
  delivered : ∀ d ∈ s.delivered, s.inputs[d.place]? = some d.samples
  heard : Each Heard s.delivered
  expected : s.encoder.expectedSequence = wrapping (resume s.delivered)

variable {mix : ℕ → ℕ → F → F → F} {s s' : Capture F}

theorem wrapping_succ (n : ℕ) : wrapping (wrapping n + 1) = wrapping (n + 1) :=
  Nat.mod_add_mod _ _ _

theorem getElem?_concat_of_some {α : Type} {l : List α} {i : ℕ} {x : α} (y : α)
    (h : l[i]? = some x) : (l ++ [y])[i]? = some x := by
  rw [List.getElem?_append_left (List.getElem?_eq_some_iff.mp h).1]
  exact h

theorem Stream.lt (h : s.Stream) {i : ℕ} (hi : i ∈ s.order) : i < s.inputs.length := by
  have hfate := h.fate i
  have hpos : 0 < s.order.count i := List.count_pos_iff.mpr hi
  split at hfate
  · assumption
  · omega

theorem extendFromSlice_samples (b : Buffer F) (input : List F) :
    (b.clear.extendFromSlice input).1.samples = input := by
  rw [Buffer.extendFromSlice]
  split
  · rfl
  · rfl

theorem order_idle (hpc : s.sender = .idle) :
    s.order = s.delivered.map Delivery.place ++ s.ready.map Packet.place := by
  rw [order, hand, hpc, List.append_nil]

/-- There is one more packet. -/
theorem Stream.submitted (h : s.Stream) (input : List F) :
    (∀ p ∈ s.ready, p.sequence = wrapping p.place ∧
      (s.inputs ++ [input])[p.place]? = some p.buffer.samples) ∧
    ∀ d ∈ s.delivered, (s.inputs ++ [input])[d.place]? = some d.samples := by
  refine ⟨fun p hp => ?_, fun d hd => getElem?_concat_of_some _ (h.delivered d hd)⟩
  obtain ⟨hsequence, hsamples⟩ := h.ready p hp
  exact ⟨hsequence, getElem?_concat_of_some _ hsamples⟩

/-- The packet in hand is lost. -/
theorem Stream.drop (h : s.Stream) {sequence : ℕ} {input : List F}
    (hpc : s.sender = .trying sequence input) (cause : Cause) :
    Stream { s with lost := s.lost ++ [(s.current, cause)], sender := .idle } := by
  have horder : s.order = s.delivered.map Delivery.place ++ s.ready.map Packet.place ++
      [s.current] := by
    rw [order, hand, hpc]
  have horder' : order { s with lost := s.lost ++ [(s.current, cause)], sender := .idle } =
      s.delivered.map Delivery.place ++ s.ready.map Packet.place := List.append_nil _
  refine ⟨h.number, nofun, h.ready, ?_, fun i => ?_, h.delivered, h.heard, h.expected⟩
  · rw [horder']
    have hsorted := h.sorted
    rw [horder] at hsorted
    exact hsorted.sublist (List.sublist_append_left _ _)
  · have hfate := h.fate i
    rw [horder, List.count_append] at hfate
    rw [horder', ← hfate]
    simp only [List.map_append, List.count_append, List.map_cons, List.map_nil]
    omega

/-- A packet that is too large is lost at once. -/
theorem Stream.tooLarge (h : s.Stream) (input : List F) (hpc : s.sender = .idle) :
    Stream { s with
      sequence := wrapping (s.sequence + 1)
      inputs := s.inputs ++ [input]
      oversized := wrapping (s.oversized + 1)
      lost := s.lost ++ [(s.inputs.length, .oversized)] } := by
  obtain ⟨hready, hdelivered⟩ := h.submitted input
  have horder := order_idle hpc
  refine ⟨?_, ?_, hready, ?_, fun i => ?_, hdelivered, h.heard, h.expected⟩
  · simp only [h.number, wrapping_succ, List.length_append, List.length_singleton]
  · simp only [hpc]
    exact nofun
  · rw [order_idle (by exact hpc), ← horder]
    exact h.sorted
  · have hfate := h.fate i
    rw [order_idle (by exact hpc), ← horder]
    simp only [List.map_append, List.map_cons, List.map_nil, List.count_append,
      List.length_append,
      List.length_singleton, List.count_singleton, beq_iff_eq]
    split at hfate <;> split <;> split <;> omega

/-- Any other packet is in hand, behind all that are on their way. -/
theorem Stream.enter (h : s.Stream) (input : List F) (hpc : s.sender = .idle) :
    Stream { s with
      sequence := wrapping (s.sequence + 1)
      inputs := s.inputs ++ [input]
      sender := .trying s.sequence input } := by
  obtain ⟨hready, hdelivered⟩ := h.submitted input
  have horder := order_idle hpc
  have hcurrent : current { s with
      sequence := wrapping (s.sequence + 1)
      inputs := s.inputs ++ [input]
      sender := SenderPc.trying s.sequence input } = s.inputs.length := by
    rw [current, List.length_append]
    rfl
  have horder' : order { s with
      sequence := wrapping (s.sequence + 1)
      inputs := s.inputs ++ [input]
      sender := SenderPc.trying s.sequence input } = s.order ++ [s.inputs.length] := by
    rw [horder, order, hand, hcurrent]
  refine ⟨?_, ?_, hready, ?_, fun i => ?_, hdelivered, h.heard, h.expected⟩
  · simp only [h.number, wrapping_succ, List.length_append, List.length_singleton]
  · intro p hp
    obtain rfl := Option.some.inj hp
    rw [hcurrent]
    exact ⟨List.append_ne_nil_of_right_ne_nil _ (List.cons_ne_nil _ _), h.number,
      List.getElem?_concat_length⟩
  · rw [horder', List.pairwise_append]
    refine ⟨h.sorted, List.pairwise_singleton _ _, fun i hi j hj => ?_⟩
    rw [List.mem_singleton.mp hj]
    exact h.lt hi
  · have hfate := h.fate i
    rw [horder']
    simp only [List.count_append, List.length_append, List.length_singleton, List.count_singleton,
      beq_iff_eq]
    split at hfate <;> split <;> split <;> omega

/-- The oldest packet of the queue is lost for the one in hand. -/
theorem Stream.displace (h : s.Stream) {sequence : ℕ} {input : List F} {packet : Packet F}
    {ready : List (Packet F)} (hpc : s.sender = .trying sequence input)
    (hready : s.ready = packet :: ready) :
    Stream { s with
      ready
      otherDropped := wrapping (s.otherDropped + 1)
      lost := s.lost ++ [(packet.place, .displaced)]
      sender := .holding sequence input packet.buffer } := by
  have hinput := h.input (sequence, input) (by rw [hpc]; rfl)
  have horder : s.order = s.delivered.map Delivery.place ++
      (packet.place :: ready.map Packet.place) ++ [s.current] := by
    rw [order, hand, hpc, hready]
    rfl
  refine ⟨h.number, ?_, ?_, ?_, fun i => ?_, h.delivered, h.heard, h.expected⟩
  · intro p hp
    obtain rfl := Option.some.inj hp
    exact hinput
  · intro p hp
    exact h.ready p (hready ▸ List.mem_cons_of_mem _ hp)
  · have hsorted := h.sorted
    rw [horder] at hsorted
    refine hsorted.sublist (List.Sublist.append_right (List.Sublist.append_left ?_ _) _)
    exact List.sublist_cons_self _ _
  · have hfate := h.fate i
    rw [horder] at hfate
    change (s.delivered.map Delivery.place ++ ready.map Packet.place ++ [s.current]).count
      i + _ = _
    rw [← hfate]
    simp only [List.map_append, List.map_cons, List.map_nil, List.count_append, List.count_cons,
      List.count_nil]
    omega

/-- The packet in hand joins the queue, with its own samples. -/
theorem Stream.push (h : s.Stream) {sequence : ℕ} {input : List F} {buffer : Buffer F}
    (hpc : s.sender = .holding sequence input buffer) (maxQueuedPackets allocations : ℕ) :
    Stream { s with
      ready := s.ready ++ [⟨s.current, sequence, (buffer.clear.extendFromSlice input).1⟩]
      maxQueuedPackets, allocations, sender := .idle } := by
  obtain ⟨-, hsequence, hinput⟩ := h.input (sequence, input) (by rw [hpc]; rfl)
  have horder : s.order = s.delivered.map Delivery.place ++
      (s.ready.map Packet.place ++ [s.current]) ++ [] := by
    rw [order, hand, hpc, List.append_nil, List.append_assoc]
  refine ⟨h.number, nofun, ?_, ?_, fun i => ?_, h.delivered, h.heard, h.expected⟩
  · intro p hp
    rcases List.mem_append.mp hp with hp | hp
    · exact h.ready p hp
    · obtain rfl := List.mem_singleton.mp hp
      refine ⟨hsequence, ?_⟩
      rw [extendFromSlice_samples]
      exact hinput
  · have hsorted := h.sorted
    rw [horder] at hsorted
    rw [order, List.map_append]
    exact hsorted
  · have hfate := h.fate i
    rw [horder] at hfate
    rw [order, List.map_append]
    exact hfate

/-- The encoder gets the oldest packet, and expects the one after it. -/
theorem Stream.pop (h : s.Stream) {packet : Packet F} {ready : List (Packet F)}
    (hready : s.ready = packet :: ready) :
    Stream { s with
      ready
      encoder := (s.encoder.smoothPacket mix packet.sequence packet.buffer.samples).1
      held := s.held ++
        [{ packet.buffer with
          samples := (s.encoder.smoothPacket mix packet.sequence packet.buffer.samples).2 }]
      delivered := s.delivered ++
        [⟨packet.place, packet.sequence, s.encoder.expectedSequence, packet.buffer.samples⟩] } := by
  obtain ⟨hsequence, hsamples⟩ := h.ready packet (hready ▸ List.mem_cons_self)
  have horder : s.order = s.delivered.map Delivery.place ++ [packet.place] ++
      ready.map Packet.place ++ s.hand := by
    rw [order, hready, List.map_cons, List.append_assoc, List.append_assoc, List.append_assoc]
    rfl
  refine ⟨h.number, h.input, ?_, ?_, fun i => ?_, ?_, ?_, ?_⟩
  · intro p hp
    exact h.ready p (hready ▸ List.mem_cons_of_mem _ hp)
  · have hsorted := h.sorted
    rw [horder] at hsorted
    rw [order, List.map_append]
    exact hsorted
  · have hfate := h.fate i
    rw [horder] at hfate
    rw [order, List.map_append]
    exact hfate
  · intro d hd
    rcases List.mem_append.mp hd with hd | hd
    · exact h.delivered d hd
    · obtain rfl := List.mem_singleton.mp hd
      exact hsamples
  · refine h.heard.append (each_singleton ?_)
    rw [List.append_nil]
    exact ⟨hsequence, h.expected⟩
  · rw [resume, List.getLast?_concat]
    change wrapping (packet.sequence + 1) = wrapping (packet.place + 1)
    rw [hsequence, wrapping_succ]

theorem Stream.moves (h : s.Stream) (hmoves : Moves mix s s') : s'.Stream := by
  cases hmoves with
  | oversized input hpc hlen => exact h.tooLarge input hpc
  | enter input hpc hlen => exact h.enter input hpc
  | contention sequence input hpc =>
    have hdrop := h.drop hpc .contention
    exact ⟨hdrop.number, hdrop.input, hdrop.ready, hdrop.sorted, hdrop.fate, hdrop.delivered,
      hdrop.heard, hdrop.expected⟩
  | refused sequence input cause hpc hcause =>
    have hdrop := h.drop hpc cause
    exact ⟨hdrop.number, hdrop.input, hdrop.ready, hdrop.sorted, hdrop.fate, hdrop.delivered,
      hdrop.heard, hdrop.expected⟩
  | takeAvailable sequence input buffer available hpc hav =>
    have hinput := h.input (sequence, input) (by rw [hpc]; rfl)
    have horder : order { s with available, sender := SenderPc.holding sequence input buffer } =
        s.order := by
      rw [order, order, hand, hand, hpc]
      rfl
    refine ⟨h.number, ?_, h.ready, ?_, ?_, h.delivered, h.heard, h.expected⟩
    · intro p hp
      obtain rfl := Option.some.inj hp
      exact hinput
    · rw [horder]
      exact h.sorted
    · rw [horder]
      exact h.fate
  | displace sequence input packet ready hpc hready => exact h.displace hpc hready
  | push sequence input buffer hpc => exact h.push hpc _ _
  | popNone => exact h
  | pop packet ready hready => exact h.pop hready
  | recycleFull i buffer hheld hfull | recycle i buffer hheld =>
    exact ⟨h.number, h.input, h.ready, h.sorted, h.fate, h.delivered, h.heard, h.expected⟩
  | swap =>
    rw [Capture.swap]
    split
    all_goals exact ⟨h.number, h.input, h.ready, h.sorted, h.fate, h.delivered, h.heard, h.expected⟩

end Capture

/-! ## The statistics -/

namespace StatsPc

/-- The drops `take_stats` has in hand. -/
def dropped : StatsPc → ℕ
  | .idle => 0
  | .contention c => c
  | .other _ d => d
  | .oversize _ d _ => d
  | .loss l => l.dropped

/-- The oversized packets it has in hand. -/
def oversized : StatsPc → ℕ
  | .oversize _ _ o => o
  | .loss l => l.oversized
  | _ => 0

end StatsPc

namespace Capture

variable {F : Type}

/-- The drops that were counted: in the statistics that were taken, in those that are being taken,
and since then. -/
def droppedTotal (s : Capture F) : ℕ :=
  (s.taken.map fun t => t.loss.dropped).sum + s.stats.dropped + s.otherDropped + s.contentionDropped

def oversizedTotal (s : Capture F) : ℕ :=
  (s.taken.map fun t => t.loss.oversized).sum + s.stats.oversized + s.oversized

/-- Every loss is counted. -/
structure Tally (s : Capture F) : Prop where
  size : s.delivered.length + s.ready.length + s.hand.length + s.lost.length = s.inputs.length
  dropped : s.inputs.length < 2 ^ 64 → s.droppedTotal = s.lost.countP (·.2 ≠ .oversized)
  oversized : s.inputs.length < 2 ^ 64 → s.oversizedTotal = s.lost.countP (·.2 = .oversized)

variable {mix : ℕ → ℕ → F → F → F} {s s' : Capture F}

theorem wrapping_of_lt {n : ℕ} (h : n < 2 ^ 64) : wrapping n = n := Nat.mod_eq_of_lt h

/-- As long as the packets can be numbered, the counters do not wrap. -/
theorem Tally.bound (h : s.Tally) (hlt : s.inputs.length < 2 ^ 64) :
    s.droppedTotal + s.hand.length ≤ s.inputs.length ∧
      s.oversizedTotal + s.hand.length ≤ s.inputs.length := by
  have hsize := h.size
  have hdropped := h.dropped hlt
  have hoversized := h.oversized hlt
  have hle : s.lost.countP (·.2 ≠ .oversized) ≤ s.lost.length := List.countP_le_length
  have hle' : s.lost.countP (·.2 = .oversized) ≤ s.lost.length := List.countP_le_length
  omega

/-- There is room for the loss of the packet in hand, or of another one before it. -/
theorem Tally.room (h : s.Tally) (hhand : s.hand = [s.current]) (hlt : s.inputs.length < 2 ^ 64) :
    s.droppedTotal + 1 < 2 ^ 64 := by
  have hbound := (h.bound hlt).1
  rw [hhand, List.length_singleton] at hbound
  omega

/-- A packet is lost, and one of the two counters for such a loss says so. -/
theorem Tally.drop (h : s.Tally) (hlt : s.inputs.length < 2 ^ 64)
    (hroom : s.droppedTotal + 1 < 2 ^ 64) (place : ℕ) (cause : Cause)
    (hcause : cause ≠ .oversized) :
    (s.taken.map fun t => t.loss.dropped).sum + s.stats.dropped + wrapping (s.otherDropped + 1) +
      s.contentionDropped =
      (s.lost ++ [(place, cause)]).countP (·.2 ≠ .oversized) ∧
    (s.taken.map fun t => t.loss.dropped).sum + s.stats.dropped + s.otherDropped +
      wrapping (s.contentionDropped + 1) =
      (s.lost ++ [(place, cause)]).countP (·.2 ≠ .oversized) ∧
    s.oversizedTotal = (s.lost ++ [(place, cause)]).countP (·.2 = .oversized) := by
  have hdropped := h.dropped hlt
  have hoversized := h.oversized hlt
  rw [droppedTotal] at hdropped hroom
  rw [List.countP_append, List.countP_append, ← hdropped, ← hoversized, List.countP_singleton,
    List.countP_singleton,
    if_pos (decide_eq_true hcause), if_neg (by simpa using hcause)]
  refine ⟨?_, ?_, rfl⟩
  · rw [wrapping_of_lt (by omega)]
    omega
  · rw [wrapping_of_lt (by omega)]
    omega

/-- What `take_stats` swaps out of a counter it has in hand. -/
theorem Tally.swap (h : s.Tally) : Tally s.swap := by
  rw [Capture.swap]
  split
  · next hpc =>
    refine ⟨h.size, fun hlt => ?_, fun hlt => ?_⟩
    · rw [← h.dropped hlt, droppedTotal, droppedTotal, hpc]
      simp only [StatsPc.dropped]
      omega
    · rw [← h.oversized hlt, oversizedTotal, oversizedTotal, hpc]
      rfl
  · next c hpc =>
    refine ⟨h.size, fun hlt => ?_, fun hlt => ?_⟩
    · have hlt' : s.inputs.length < 2 ^ 64 := hlt
      have hbound := (h.bound hlt').1
      rw [droppedTotal, hpc] at hbound
      simp only [StatsPc.dropped] at hbound
      rw [← h.dropped hlt, droppedTotal, droppedTotal, hpc]
      simp only [StatsPc.dropped]
      rw [wrapping_of_lt (by omega)]
      omega
    · rw [← h.oversized hlt, oversizedTotal, oversizedTotal, hpc]
      rfl
  · next c d hpc =>
    refine ⟨h.size, fun hlt => ?_, fun hlt => ?_⟩
    · rw [← h.dropped hlt, droppedTotal, droppedTotal, hpc]
      rfl
    · rw [← h.oversized hlt, oversizedTotal, oversizedTotal, hpc]
      simp only [StatsPc.oversized]
      omega
  · next c d o hpc =>
    refine ⟨h.size, fun hlt => ?_, fun hlt => ?_⟩
    · rw [← h.dropped hlt, droppedTotal, droppedTotal, hpc]
      rfl
    · rw [← h.oversized hlt, oversizedTotal, oversizedTotal, hpc]
      rfl
  · next loss hpc =>
    refine ⟨h.size, fun hlt => ?_, fun hlt => ?_⟩
    · rw [← h.dropped hlt, droppedTotal, droppedTotal, hpc]
      simp only [StatsPc.dropped, List.map_append, List.map_cons, List.map_nil, List.sum_append,
        List.sum_singleton]
      omega
    · rw [← h.oversized hlt, oversizedTotal, oversizedTotal, hpc]
      simp only [StatsPc.oversized, List.map_append, List.map_cons, List.map_nil, List.sum_append,
        List.sum_singleton]
      omega

theorem Tally.tooLarge (h : s.Tally) (input : List F) (hpc : s.sender = .idle) :
    Tally { s with
      sequence := wrapping (s.sequence + 1)
      inputs := s.inputs ++ [input]
      oversized := wrapping (s.oversized + 1)
      lost := s.lost ++ [(s.inputs.length, .oversized)] } := by
  have hsize := h.size
  have hhand : s.hand = [] := by rw [hand, hpc]
  rw [hhand] at hsize
  refine ⟨?_, fun hlt => ?_, fun hlt => ?_⟩
  · rw [hand, hpc]
    simp only [List.length_append, List.length_singleton, List.length_nil] at hsize ⊢
    omega
  · have hlt' : s.inputs.length < 2 ^ 64 := by
      rw [List.length_append] at hlt
      omega
    rw [List.countP_append, ← h.dropped hlt']
    rfl
  · rw [List.length_append, List.length_singleton] at hlt
    obtain ⟨-, hbound⟩ := h.bound (by omega)
    have hcounted := h.oversized (by omega)
    rw [oversizedTotal] at hbound hcounted
    rw [List.countP_append, ← hcounted, oversizedTotal]
    simp only
    rw [wrapping_of_lt (by omega)]
    rfl

theorem Tally.moves (h : s.Tally) (hmoves : Moves mix s s') : s'.Tally := by
  have hsize := h.size
  cases hmoves with
  | oversized input hpc hlen => exact h.tooLarge input hpc
  | enter input hpc hlen =>
    have hhand : s.hand = [] := by rw [hand, hpc]
    rw [hhand] at hsize
    refine ⟨?_, fun hlt => ?_, fun hlt => ?_⟩
    · rw [hand]
      simp only [List.length_append, List.length_singleton, List.length_nil] at hsize ⊢
      omega
    · rw [List.length_append, List.length_singleton] at hlt
      exact h.dropped (by omega)
    · rw [List.length_append, List.length_singleton] at hlt
      exact h.oversized (by omega)
  | contention sequence input hpc =>
    have hhand : s.hand = [s.current] := by rw [hand, hpc]
    have hroom := h.room hhand
    rw [hhand] at hsize
    refine ⟨?_, fun hlt => ?_, fun hlt => ?_⟩
    · simp only [hand, List.length_append, List.length_singleton, List.length_nil] at hsize ⊢
      omega
    · exact (h.drop hlt (hroom hlt) s.current .contention nofun).2.1
    · exact (h.drop hlt (hroom hlt) s.current .contention nofun).2.2
  | refused sequence input cause hpc hcause =>
    have hhand : s.hand = [s.current] := by rw [hand, hpc]
    have hroom := h.room hhand
    have hne : cause ≠ .oversized := by
      rcases hcause with rfl | rfl
      · exact nofun
      · exact nofun
    rw [hhand] at hsize
    refine ⟨?_, fun hlt => ?_, fun hlt => ?_⟩
    · simp only [hand, List.length_append, List.length_singleton, List.length_nil] at hsize ⊢
      omega
    · exact (h.drop hlt (hroom hlt) s.current cause hne).1
    · exact (h.drop hlt (hroom hlt) s.current cause hne).2.2
  | takeAvailable sequence input buffer available hpc hav =>
    refine ⟨?_, h.dropped, h.oversized⟩
    rw [hand, hpc] at hsize
    exact hsize
  | displace sequence input packet ready hpc hready =>
    have hhand : s.hand = [s.current] := by rw [hand, hpc]
    have hroom := h.room hhand
    rw [hhand, hready] at hsize
    refine ⟨?_, fun hlt => ?_, fun hlt => ?_⟩
    · simp only [hand, List.length_append, List.length_cons, List.length_nil] at hsize ⊢
      omega
    · exact (h.drop hlt (hroom hlt) packet.place .displaced nofun).1
    · exact (h.drop hlt (hroom hlt) packet.place .displaced nofun).2.2
  | push sequence input buffer hpc =>
    refine ⟨?_, h.dropped, h.oversized⟩
    rw [hand, hpc] at hsize
    simp only [hand, List.length_append, List.length_singleton, List.length_nil] at hsize ⊢
    omega
  | popNone => exact h
  | pop packet ready hready =>
    refine ⟨?_, h.dropped, h.oversized⟩
    rw [hready] at hsize
    change (s.delivered ++ [_]).length + ready.length + s.hand.length + s.lost.length =
      s.inputs.length
    simp only [List.length_append, List.length_cons, List.length_nil] at hsize ⊢
    omega
  | recycleFull i buffer hheld hfull => exact ⟨h.size, h.dropped, h.oversized⟩
  | recycle i buffer hheld => exact ⟨h.size, h.dropped, h.oversized⟩
  | swap => exact h.swap

/-! ## Every run -/

/-- What can be said of the hand-off at any time. What depends on the numbers holds as long as the
counter has not wrapped. -/
structure Accounted (capacity : ℕ) (s : Capture F) : Prop where
  /-- no buffer is lost, but for the one `submit` may have in hand -/
  conserved : s.available.length + s.ready.length + s.held.length + (if s.locked then 1 else 0) =
    capacity
  noAllocation : s.allocations = 0
  noFailure : s.recycleFailures = 0 ∧ ∀ t ∈ s.taken, t.loss.recycleFailures = 0
  /-- packets are delivered in the order in which they were submitted, and once -/
  ordered : s.order.Pairwise (· < ·)
  unmodified : ∀ d ∈ s.delivered, s.inputs[d.place]? = some d.samples
  /-- a packet is delivered, or queued, or being submitted, or else lost, and only one of these -/
  fate : ∀ i, s.order.count i + (s.lost.map Prod.fst).count i = if i < s.inputs.length then 1 else 0
  increasing : s.inputs.length < 2 ^ 64 → (s.ready.map Packet.sequence).Pairwise (· < ·)
  dropped : s.inputs.length < 2 ^ 64 → s.droppedTotal = s.lost.countP (·.2 ≠ .oversized)
  oversized : s.inputs.length < 2 ^ 64 → s.oversizedTotal = s.lost.countP (·.2 = .oversized)
  /-- the encoder finds what it expects if and only if nothing was lost between the packet before
  and this one -/
  gaps : s.inputs.length < 2 ^ 64 → ∀ before (d : Delivery F) after,
    s.delivered = before ++ d :: after →
    (d.sequence = d.expected ↔ ∀ i, resume before ≤ i → i < d.place → i ∉ s.lost.map Prod.fst)

theorem Pool.conserved (h : s.Pool pool) :
    s.available.length + s.ready.length + s.held.length + (if s.locked then 1 else 0) =
      pool.length := by
  rw [← h.length, locked]
  cases s.sender <;> rfl

theorem Stream.increasing (h : s.Stream) (hlt : s.inputs.length < 2 ^ 64) :
    (s.ready.map Packet.sequence).Pairwise (· < ·) := by
  have hplace : ∀ p ∈ s.ready, p.sequence = p.place := by
    intro p hp
    obtain ⟨hsequence, hsamples⟩ := h.ready p hp
    have hbound := (List.getElem?_eq_some_iff.mp hsamples).1
    rw [hsequence, wrapping_of_lt (by omega)]
  have hsorted : (s.ready.map Packet.place).Pairwise (· < ·) :=
    h.sorted.sublist ((List.sublist_append_right _ _).trans (List.sublist_append_left _ _))
  rw [List.map_congr_left hplace]
  exact hsorted

variable {d : Delivery F}

/-- In a sorted list everything is before the place behind its end. -/
theorem lt_resume {l : List (Delivery F)} (hsorted : (l.map Delivery.place).Pairwise (· < ·))
    (hd : d ∈ l) : d.place < resume l := by
  obtain rfl | ⟨init, last, rfl⟩ := List.eq_nil_or_concat' l
  · cases hd
  · rw [resume, List.getLast?_concat]
    rw [List.map_append, List.pairwise_append] at hsorted
    rcases List.mem_append.mp hd with hd | hd
    · exact Nat.lt_succ_of_lt (hsorted.2.2 _ (List.mem_map_of_mem hd) _ (List.mem_singleton_self _))
    · rw [List.mem_singleton.mp hd]
      exact Nat.lt_succ_self _

theorem resume_le {l : List (Delivery F)} {n : ℕ} (h : ∀ d ∈ l, d.place < n) : resume l ≤ n := by
  rw [resume]
  split
  · next d hd => exact h d (List.mem_of_getLast? hd)
  · exact Nat.zero_le n

/-- Where the packet before was, and what was between. -/
theorem Stream.between (h : s.Stream) {before after : List (Delivery F)}
    (hsplit : s.delivered = before ++ d :: after) :
    resume before ≤ d.place ∧ ∀ i, resume before ≤ i → i < d.place → i ∈ s.lost.map Prod.fst := by
  have horder : s.order = before.map Delivery.place ++
      (d.place :: (after.map Delivery.place ++ s.ready.map Packet.place ++ s.hand)) := by
    rw [order, hsplit, List.map_append, List.map_cons, List.append_assoc, List.append_assoc,
      List.append_assoc]
    rfl
  have hsorted := h.sorted
  rw [horder, List.pairwise_append] at hsorted
  obtain ⟨hbefore, hafter, hlt⟩ := hsorted
  refine ⟨resume_le fun b hb => hlt _ (List.mem_map_of_mem hb) _ List.mem_cons_self,
    fun i hi hid => ?_⟩
  have hplace : d.place < s.inputs.length := by
    refine h.lt ?_
    rw [horder]
    exact List.mem_append_right _ List.mem_cons_self
  have hnot : i ∉ s.order := by
    rw [horder]
    intro hmem
    rcases List.mem_append.mp hmem with hmem | hmem
    · obtain ⟨b, hb, rfl⟩ := List.mem_map.mp hmem
      have hresume := lt_resume hbefore hb
      omega
    · rcases List.mem_cons.mp hmem with rfl | hmem
      · omega
      · have hdi := (List.pairwise_cons.mp hafter).1 i hmem
        omega
  have hfate := h.fate i
  rw [List.count_eq_zero_of_not_mem hnot, if_pos (Nat.lt_trans hid hplace)] at hfate
  exact List.count_pos_iff.mp (by omega)

theorem Stream.gaps (h : s.Stream) (hlt : s.inputs.length < 2 ^ 64)
    {before after : List (Delivery F)} (hsplit : s.delivered = before ++ d :: after) :
    d.sequence = d.expected ↔ ∀ i, resume before ≤ i → i < d.place → i ∉ s.lost.map Prod.fst := by
  obtain ⟨hle, hbetween⟩ := h.between hsplit
  obtain ⟨hsequence, hexpected⟩ := h.heard before d after hsplit
  have hplace : d.place < s.inputs.length :=
    (List.getElem?_eq_some_iff.mp (h.delivered d
      (hsplit ▸ List.mem_append_right _ List.mem_cons_self))).1
  rw [hsequence, hexpected, wrapping_of_lt (by omega), wrapping_of_lt (by omega)]
  constructor
  · intro heq i hi hid
    omega
  · intro hnone
    by_contra hne
    have hless : resume before < d.place := Nat.lt_of_le_of_ne hle (Ne.symm hne)
    exact hnone _ (Nat.le_refl _) hless (hbetween _ (Nat.le_refl _) hless)

/-- The hand-off when it is made. -/
theorem new_inv {capacity maxSamples channels fadeFrames : ℕ} {slack : Slack} {silence : List F}
    {s : Capture F}
    (h : newPcmHandoff capacity maxSamples slack channels fadeFrames silence = some s) :
    s.Pool ((List.range capacity).map fun i => maxSamples + slack.buffer i) ∧ s.Stream ∧
      s.Tally := by
  rw [newPcmHandoff] at h
  split at h
  · cases h
  · obtain rfl := Option.some.inj h
    refine ⟨⟨?_, ?_, ?_, ?_, nofun, rfl, rfl, rfl, nofun⟩, ?_, ?_⟩
    · simp only [caps, SenderPc.caps, List.map_map, List.map_nil, List.append_nil]
      exact List.Perm.refl _
    · intro c hc
      obtain ⟨i, -, rfl⟩ := List.mem_map.mp hc
      exact Nat.le_add_right _ _
    · rw [List.length_map, List.length_range]
      exact Nat.le_add_right _ _
    · rw [List.length_map, List.length_range]
      exact Nat.le_add_right _ _
    · exact ⟨rfl, nofun, nofun, .nil, fun _ => rfl, nofun, each_nil _, rfl⟩
    · exact ⟨rfl, fun _ => rfl, fun _ => rfl⟩

/-- **Every buffer and every packet is accounted for**, in every run. -/
theorem handoff_accounted {capacity maxSamples channels fadeFrames : ℕ} {slack : Slack}
    {silence : List F} {start : Capture F} {acts : List (Act F)}
    (hnew : newPcmHandoff capacity maxSamples slack channels fadeFrames silence = some start)
    (hrun : exec (step mix) start acts = some s) : s.Accounted capacity := by
  obtain ⟨hpool, hstream, htally⟩ := exec_invariant
    (I := fun s => s.Pool ((List.range capacity).map fun i => maxSamples + slack.buffer i) ∧
      s.Stream ∧ s.Tally)
    (fun _ _ _ h hstep => ⟨h.1.moves (step_moves hstep), h.2.1.moves (step_moves hstep),
      h.2.2.moves (step_moves hstep)⟩)
    (new_inv hnew) hrun
  refine ⟨?_, hpool.allocations, ⟨hpool.recycled.1, hpool.recycled.2.2⟩, hstream.sorted,
    hstream.delivered, hstream.fate,
    hstream.increasing, htally.dropped, htally.oversized, fun hlt _ _ _ hsplit =>
      hstream.gaps hlt hsplit⟩
  rw [hpool.conserved, List.length_map, List.length_range]

/-- A pool of two buffers: the third packet displaces the first, the fourth meets a lock that is
held, the fifth is too long, and the sixth, after the second was delivered, finds the encoder
expecting another one. -/
theorem handoff_accounted_displaced : ∃ start s : Capture ℕ,
    newPcmHandoff 2 2 ⟨0, 0, fun _ => 0⟩ 1 1 [0, 0] = some start ∧
    exec (step fun _ _ _ sample => sample) start
      [.submit [1], .tryLock .ok, .push, .submit [2, 2], .tryLock .ok, .push, .submit [3],
        .tryLock .ok, .push,
        .submit [4], .tryLock .wouldBlock, .submit [5, 5, 5], .popPacket, .swap, .popPacket,
          .recycle 0, .submit [6],
        .tryLock .ok, .push, .popPacket, .swap, .swap, .swap, .swap] = some s ∧ s.Accounted 2 ∧
    s.delivered = [⟨1, 1, 0, [2, 2]⟩, ⟨2, 2, 2, [3]⟩, ⟨5, 5, 3, [6]⟩] ∧
      s.taken = [⟨⟨2, 1, 1, 0⟩, 2⟩] := by
  have hrun : ((newPcmHandoff 2 2 ⟨0, 0, fun _ => 0⟩ 1 1 [0, 0]).any fun start =>
      (exec (step fun _ _ _ sample => sample) start
        [.submit [1], .tryLock .ok, .push, .submit [2, 2], .tryLock .ok, .push, .submit [3],
          .tryLock .ok, .push,
          .submit [4], .tryLock .wouldBlock, .submit [5, 5, 5], .popPacket, .swap, .popPacket,
            .recycle 0, .submit [6],
          .tryLock .ok, .push, .popPacket, .swap, .swap, .swap, .swap]).any fun s : Capture ℕ =>
        s.delivered = [⟨1, 1, 0, [2, 2]⟩, ⟨2, 2, 2, [3]⟩, ⟨5, 5, 3, [6]⟩] ∧
          s.taken = [⟨⟨2, 1, 1, 0⟩, 2⟩]) = true := by
    decide +kernel
  obtain ⟨start, hstart, hany⟩ := (Option.any_eq_true _ _).mp hrun
  obtain ⟨s, hs, hp⟩ := (Option.any_eq_true _ _).mp hany
  exact ⟨start, s, hstart, hs, handoff_accounted hstart hs, of_decide_eq_true hp⟩

end Capture

end AudioCapture
end BgDesk
