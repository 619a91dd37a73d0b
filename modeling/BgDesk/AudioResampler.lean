import Mathlib.Algebra.BigOperators.Ring.List
import Mathlib.Algebra.Ring.Nat
import BgDesk.Machine
import BgDesk.Checked

/-!
# Resampling a stream of audio

`audio_resampler.rs` with its linear backend. Audio comes in pieces of any length; the resampler
keeps the frames it still needs, and its position is relative to the first of them. A sample is of
any type, and interpolation any function of two samples and a fraction.

* `processInto`, `processWith` — one call, which may also panic or never return;
* `resample` — the whole input at once, by the formula;
* `Represents` — what the resampler keeps of the input so far;
* `streaming_resampling` — in whatever pieces the input comes, the output is the same.
-/

namespace BgDesk
namespace Audio

variable {α : Type}

structure AudioResamplerConfig where
  inputRate : UInt32
  outputRate : UInt32
  channels : UInt16
  deriving DecidableEq

inductive AudioResamplerError where
  | invalidConfig (config : AudioResamplerConfig)
  | invalidOutputFrameSize (outputFrames : ℕ)
  | incompleteFrame (samples channels : ℕ)
  | capacityOverflow
  deriving DecidableEq

def interpolationMarginFrames : ℕ := 2
def pendingPacketCapacity : ℕ := 2

/-- As many samples of four bytes as `isize::MAX` bytes hold. -/
def maxSamples : ℕ := (2 ^ 63 - 1) / 4

/-- `Vec::reserve`, also where a vector is made or extended: a panic where the vector would be
longer than `isize::MAX` bytes. -/
def reserve (buffer : List α) (additional : ℕ) : Option Unit :=
  if buffer.length + additional ≤ maxSamples then some () else none

/-- `ok_or(CapacityOverflow)`. -/
def orOverflow {β : Type} : Option β → Except AudioResamplerError β
  | none => .error .capacityOverflow
  | some b => .ok b

def validateConfig (config : AudioResamplerConfig) : Except AudioResamplerError ℕ :=
  if config.inputRate = 0 ∨ config.outputRate = 0 ∨
    config.channels = 0 then .error (.invalidConfig config)
  else .ok config.channels.toNat

def validateInput (input : List α) (channels : ℕ) : Except AudioResamplerError Unit :=
  if input.length % channels ≠ 0 then .error (.incompleteFrame input.length channels) else .ok ()

/-- `next_position` counts in parts of a frame, `output_rate` of them, from the first buffered
frame. -/
structure StreamingLinearAudioResampler (α : Type) where
  config : AudioResamplerConfig
  channels : ℕ
  bufferedSamples : List α
  nextPosition : ℕ
  deriving DecidableEq

namespace StreamingLinearAudioResampler

def new (config : AudioResamplerConfig) :
    Except AudioResamplerError (StreamingLinearAudioResampler α) := do
  let channels ← validateConfig config
  return ⟨config, channels, [], 0⟩

def outputCapacity (r : StreamingLinearAudioResampler α) (inputSamples : ℕ) :
    Except AudioResamplerError ℕ := do
  let inputFrames := inputSamples / r.channels
  let product ← orOverflow (checkedMul 64 inputFrames r.config.outputRate.toNat)
  let scaledFrames := product / r.config.inputRate.toNat
  orOverflow (do
    let frames ← checkedAdd 64 scaledFrames interpolationMarginFrames
    checkedMul 64 frames r.channels)

/-- `write_next_frame`: whether there was a frame to write, and the output with it. No result is a
panic. -/
def writeNextFrame (lerp : α → α → ℕ → α) (r : StreamingLinearAudioResampler α) (output : List α) :
    Option (Bool × List α) :=
  let outputRate := r.config.outputRate.toNat
  let frameCount := r.bufferedSamples.length / r.channels
  let frame := r.nextPosition / outputRate
  let fraction := r.nextPosition % outputRate
  if frame ≥ frameCount ∨ (fraction ≠ 0 ∧ frame + 1 ≥ frameCount) then some (false, output)
  else do
    let written ← (List.range r.channels).mapM fun channel => do
      let current ← r.bufferedSamples[frame * r.channels + channel]?
      let nextFrame := frame + if fraction ≠ 0 then 1 else 0
      let next ← r.bufferedSamples[nextFrame * r.channels + channel]?
      return lerp current next fraction
    return (true, output ++ written)

/-- The loop of `process_into`. The position wraps around at 64 bits; whether the loop goes on
depends on the position only, so if it goes on for `2 ^ 64` rounds it goes on for ever. -/
def writeFrames (lerp : α → α → ℕ → α) :
    ℕ → StreamingLinearAudioResampler α → List α → Option (StreamingLinearAudioResampler α × List α)
  | 0, _, _ => none
  | rounds + 1, r, output => do
    let (more, output) ← r.writeNextFrame lerp output
    if more then
      writeFrames lerp rounds
        { r with nextPosition := (r.nextPosition + r.config.inputRate.toNat) % 2 ^ 64 } output
    else return (r, output)

/-- `discard_consumed_frames`. The range is drained, and the position moved back, unless that
panics. -/
def discardConsumedFrames (r : StreamingLinearAudioResampler α) :
    Option (StreamingLinearAudioResampler α) := do
  let outputRate := r.config.outputRate.toNat
  let availableFrames := r.bufferedSamples.length / r.channels
  let consumedFrames := min (r.nextPosition / outputRate) availableFrames
  let nextPosition ← checkedSub r.nextPosition (consumedFrames * outputRate)
  if consumedFrames * r.channels ≤ r.bufferedSamples.length then
    return { r with
      bufferedSamples := r.bufferedSamples.drop (consumedFrames * r.channels), nextPosition :=
        nextPosition }
  else none

/-- `process_into`: its result, and the resampler and the output after it. -/
def processInto (lerp : α → α → ℕ → α) (r : StreamingLinearAudioResampler α)
    (input output : List α) :
    Option (Except AudioResamplerError Unit × StreamingLinearAudioResampler α × List α) :=
  match validateInput input r.channels with
  | .error e => some (.error e, r, output)
  | .ok () =>
    match r.outputCapacity input.length with
    | .error e => some (.error e, r, output)
    | .ok capacity => do
      reserve output capacity
      reserve r.bufferedSamples input.length
      let (r, output) ← writeFrames lerp (2 ^ 64)
        { r with bufferedSamples := r.bufferedSamples ++ input } output
      let r ← r.discardConsumedFrames
      return (.ok (), r, output)

/-- `reserve_input`: what it reserves. -/
def reserveInput (r : StreamingLinearAudioResampler α) (frames : ℕ) :
    Except AudioResamplerError ℕ :=
  orOverflow (do
    let frames ← checkedAdd 64 frames interpolationMarginFrames
    checkedMul 64 frames r.channels)

end StreamingLinearAudioResampler

structure FixedFrameAudioResampler (α : Type) where
  resampler : StreamingLinearAudioResampler α
  outputSamples : ℕ
  pendingSamples : List α
  deriving DecidableEq

/-- `div_ceil`. -/
def divCeil (a b : ℕ) : ℕ := if a % b ≠ 0 then a / b + 1 else a / b

/-- `chunks_exact`. -/
def chunksExact (size : ℕ) (l : List α) : List (List α) :=
  (List.range (l.length / size)).map fun i => (l.drop (i * size)).take size

namespace FixedFrameAudioResampler

/-- The checks of `new`: the resampler, what it reserves, and the capacity for what is pending. -/
def sizes (config : AudioResamplerConfig) (outputFrames : ℕ) :
    Except AudioResamplerError (FixedFrameAudioResampler α × ℕ × ℕ) := do
  if outputFrames = 0 then throw (.invalidOutputFrameSize outputFrames)
  let channels ← validateConfig config
  let outputSamples ← orOverflow (checkedMul 64 outputFrames channels)
  let product ← orOverflow (checkedMul 64 outputFrames config.inputRate.toNat)
  let inputFrames := divCeil product config.outputRate.toNat
  let capacity ← orOverflow (do
    let samples ← checkedMul 64 outputSamples pendingPacketCapacity
    checkedAdd 64 samples (channels * interpolationMarginFrames))
  let resampler ← StreamingLinearAudioResampler.new config
  let buffered ← resampler.reserveInput inputFrames
  return (⟨resampler, outputSamples, []⟩, buffered, capacity)

/-- `new`. No result is a panic. -/
def new (config : AudioResamplerConfig) (outputFrames : ℕ) :
    Option (Except AudioResamplerError (FixedFrameAudioResampler α)) :=
  match sizes config outputFrames with
  | .error e => some (.error e)
  | .ok (f, buffered, capacity) => do
    reserve f.resampler.bufferedSamples buffered
    reserve f.pendingSamples capacity
    return .ok f

/-- `process_with`: its result, the packets it passes on, and the resampler after it. -/
def processWith (lerp : α → α → ℕ → α) (f : FixedFrameAudioResampler α) (input : List α) :
    Option (Except AudioResamplerError Unit × List (List α) × FixedFrameAudioResampler α) := do
  let (result, resampler, pendingSamples) ← f.resampler.processInto lerp input f.pendingSamples
  match result with
  | .error e =>
    return (.error e, [], { f with resampler := resampler, pendingSamples := pendingSamples })
  | .ok () =>
    let completeSamples := pendingSamples.length / f.outputSamples * f.outputSamples
    let packets := chunksExact f.outputSamples (pendingSamples.take completeSamples)
    return (.ok (), packets,
      { f with resampler := resampler, pendingSamples := pendingSamples.drop completeSamples })

end FixedFrameAudioResampler

/-! ## The whole input at once -/

/-- How many frames come out of `frames`. -/
def AudioResamplerConfig.outputFrames (config : AudioResamplerConfig) (frames : ℕ) : ℕ :=
  if frames = 0 then 0 else (frames - 1) * config.outputRate.toNat / config.inputRate.toNat + 1

/-- The samples of a frame. -/
def frameOf (channels : ℕ) (whole : List α) (frame : ℕ) : List α :=
  (whole.drop (frame * channels)).take channels

/-- The interpolation of the input at a position, which counts in parts of a frame. -/
def interpolateAt (lerp : α → α → ℕ → α) (config : AudioResamplerConfig) (whole : List α)
    (position : ℕ) : List α :=
  let frame := position / config.outputRate.toNat
  let fraction := position % config.outputRate.toNat
  let channels := config.channels.toNat
  List.zipWith (fun current next => lerp current next fraction) (frameOf channels whole frame)
    (frameOf channels whole (frame + if fraction ≠ 0 then 1 else 0))

/-- Every frame that comes out of the whole input, the `k`-th at `k * input_rate / output_rate`. -/
def resample (lerp : α → α → ℕ → α) (config : AudioResamplerConfig) (whole : List α) : List α :=
  (List.range (config.outputFrames (whole.length / config.channels.toNat))).flatMap fun k =>
    interpolateAt lerp config whole (k * config.inputRate.toNat)

/-- A call is taken, not refused. -/
def AudioResamplerConfig.accepts (config : AudioResamplerConfig) (input : List α) : Bool :=
  let frames := input.length / config.channels.toNat
  input.length % config.channels.toNat = 0 ∧ frames * config.outputRate.toNat < 2 ^ 64 ∧
    frames * config.outputRate.toNat / config.inputRate.toNat + 2 < 2 ^ 64 ∧
    (frames * config.outputRate.toNat / config.inputRate.toNat + 2) * config.channels.toNat < 2 ^ 64

/-- What `output_capacity` says for a call that is taken. -/
def AudioResamplerConfig.capacity (config : AudioResamplerConfig) (input : List α) : ℕ :=
  (input.length / config.channels.toNat * config.outputRate.toNat / config.inputRate.toNat + 2) *
    config.channels.toNat

/-- The first position past the last frame there will be, in steps of `input_rate` from where the
resampler is. -/
def StreamingLinearAudioResampler.firstPast (r : StreamingLinearAudioResampler α) (input : List α) :
    ℕ :=
  let frames := (r.bufferedSamples.length + input.length) / r.channels
  let last := (frames - 1) * r.config.outputRate.toNat
  if frames = 0 ∨ last < r.nextPosition then r.nextPosition
  else r.nextPosition + ((last - r.nextPosition) / r.config.inputRate.toNat + 1) *
    r.config.inputRate.toNat

/-- A call that is taken gets past the last frame within 64 bits, and neither the output nor the
buffer grows beyond what a vector can hold. -/
def StreamingLinearAudioResampler.fits (r : StreamingLinearAudioResampler α)
    (input output : List α) : Bool :=
  !r.config.accepts input ||
    (r.firstPast input < 2 ^ 64 ∧ output.length + r.config.capacity input ≤ maxSamples ∧
      r.bufferedSamples.length + input.length ≤ maxSamples)

/-! ## Runs -/

/-- The backend and its output so far; one call. -/
def linearStep (lerp : α → α → ℕ → α) (s : StreamingLinearAudioResampler α × List α)
    (input : List α) : Option (StreamingLinearAudioResampler α × List α) :=
  (s.1.processInto lerp input s.2).map Prod.snd

/-- The resampler for packets, and the packets so far; one call. -/
def packetStep (lerp : α → α → ℕ → α) (s : FixedFrameAudioResampler α × List (List α))
    (input : List α) : Option (FixedFrameAudioResampler α × List (List α)) :=
  (s.1.processWith lerp input).map fun (_, packets, f) => (f, s.2 ++ packets)

/-! ## Positions -/

section Positions

variable {config : AudioResamplerConfig}

/-- A configuration that passes its check. -/
structure AudioResamplerConfig.Valid (config : AudioResamplerConfig) : Prop where
  inputRate : 0 < config.inputRate.toNat
  outputRate : 0 < config.outputRate.toNat
  channels : 0 < config.channels.toNat

/-- A frame comes out as long as its position is not past the last frame. -/
theorem lt_outputFrames (hconfig : config.Valid) {k frames : ℕ} : k < config.outputFrames frames ↔
      frames ≠ 0 ∧ k * config.inputRate.toNat ≤ (frames - 1) * config.outputRate.toNat := by
  rw [AudioResamplerConfig.outputFrames]
  split
  · rename_i hzero
    simp [hzero]
  · rename_i hpos
    rw [Nat.lt_succ_iff, Nat.le_div_iff_mul_le hconfig.inputRate]
    simp [hpos]

theorem outputFrames_mono (hconfig : config.Valid) {m n : ℕ} (h : m ≤ n) :
    config.outputFrames m ≤ config.outputFrames n := by
  by_contra hlt
  obtain ⟨hm, hle⟩ := (lt_outputFrames hconfig).mp (not_le.mp hlt)
  have hself : ¬config.outputFrames n < config.outputFrames n := lt_irrefl _
  refine hself ((lt_outputFrames hconfig).mpr ⟨by omega, hle.trans ?_⟩)
  exact Nat.mul_le_mul_right _ (by omega)

/-- Past the last frame, in whole frames and parts: the frame is not there, or is the last and not
all of it. -/
theorem past_iff (position frames : ℕ) {rate : ℕ} (hrate : 0 < rate) :
    (frames ≤ position / rate ∨ (position % rate ≠ 0 ∧ frames ≤ position / rate + 1)) ↔
      ¬(frames ≠ 0 ∧ position ≤ (frames - 1) * rate) := by
  have hdiv := Nat.div_add_mod position rate
  have hmod := Nat.mod_lt position hrate
  generalize position / rate = d at *
  generalize position % rate = m at *
  rw [← hdiv, not_and_or, not_not, not_le]
  rcases Nat.eq_zero_or_pos frames with rfl | hpos
  · simp
  rcases Nat.lt_or_ge (d + 1) frames with hlt | hge
  · have hle : rate * (d + 1) ≤ rate * (frames - 1) := Nat.mul_le_mul_left _ (by omega)
    rw [Nat.mul_succ] at hle
    rw [Nat.mul_comm (frames - 1)]
    omega
  · rcases Nat.eq_or_lt_of_le hge with heq | hlt
    · subst heq
      rw [Nat.add_sub_cancel, Nat.mul_comm d]
      omega
    · have hle : rate * (frames - 1 + 1) ≤ rate * d := Nat.mul_le_mul_left _ (by omega)
      rw [Nat.mul_succ] at hle
      rw [Nat.mul_comm (frames - 1)]
      omega

end Positions

/-! ## Writing frames -/

/-- The resampler has dropped `dropped` frames of the input so far, and is to write frame `k`. -/
structure At (config : AudioResamplerConfig) (whole : List α) (frames dropped k : ℕ)
    (r : StreamingLinearAudioResampler α) : Prop where
  hconfig : r.config = config
  hchannels : r.channels = config.channels.toNat
  hwhole : whole.length = frames * config.channels.toNat
  hdropped : dropped ≤ frames
  buffered : r.bufferedSamples = whole.drop (dropped * config.channels.toNat)
  position : r.nextPosition + dropped * config.outputRate.toNat = k * config.inputRate.toNat

/-- A list is read off by its indices. -/
theorem mapM_range_eq {β : Type} {l : List β} :
    ∀ {f : ℕ → Option β}, (∀ n (hn : n < l.length), f n = some l[n]) →
      (List.range l.length).mapM f = some l := by
  induction l with
  | nil => exact fun _ => rfl
  | cons b l ih =>
    intro f hf
    have hfirst := hf 0 (by simp)
    have hrest := @ih (fun n => f (n + 1)) fun n hn => hf (n + 1) (by simpa using hn)
    rw [List.length_cons, List.range_succ_eq_map, List.mapM_cons, hfirst, List.mapM_map]
    change ((List.range l.length).mapM fun n => f (n + 1)).bind (fun bs => some (b :: bs)) =
      some (b :: l)
    rw [hrest]
    rfl

variable {whole : List α} {config : AudioResamplerConfig} {input : List Unit}

theorem length_frameOf {frames channels frame : ℕ} (hwhole : whole.length = frames * channels)
    (h : frame < frames) : (frameOf channels whole frame).length = channels := by
  have hle : (frame + 1) * channels ≤ frames * channels := Nat.mul_le_mul_right _ h
  rw [Nat.succ_mul] at hle
  rw [frameOf, List.length_take, List.length_drop]
  omega

theorem getElem?_frameOf {channels frame channel : ℕ} (h : channel < channels) :
    (frameOf channels whole frame)[channel]? = whole[frame * channels + channel]? := by
  rw [frameOf, List.getElem?_take, if_pos h, List.getElem?_drop]

/-- A frame is not changed by what comes after it. -/
theorem frameOf_append {input : List α} {frames channels frame : ℕ}
    (hwhole : whole.length = frames * channels) (h : frame < frames) :
    frameOf channels (whole ++ input) frame = frameOf channels whole frame := by
  have hle : (frame + 1) * channels ≤ frames * channels := Nat.mul_le_mul_right _ h
  rw [Nat.succ_mul] at hle
  rw [frameOf, frameOf, List.drop_append_of_le_length (by omega), List.take_append_of_le_length]
  rw [List.length_drop]
  omega

section Writing

variable {lerp : α → α → ℕ → α} {config : AudioResamplerConfig} {whole : List α}
  {frames dropped k : ℕ}
  {r : StreamingLinearAudioResampler α}

/-- Both frames of an interpolation are there. -/
theorem interpolated_frames (hconfig : config.Valid) (hk : k < config.outputFrames frames) :
    let position := k * config.inputRate.toNat
    position / config.outputRate.toNat < frames ∧
      position / config.outputRate.toNat + (if position % config.outputRate.toNat ≠
        0 then 1 else 0) < frames := by
  intro position
  have hpast := (past_iff position frames hconfig.outputRate).not.mpr
    (not_not.mpr ((lt_outputFrames hconfig).mp hk))
  rw [not_or, not_and, not_le, not_le] at hpast
  refine ⟨hpast.1, ?_⟩
  split
  · exact hpast.2 ‹_›
  · exact hpast.1

theorem length_interpolateAt (hconfig : config.Valid)
    (hwhole : whole.length = frames * config.channels.toNat) (hk : k < config.outputFrames frames) :
    (interpolateAt lerp config whole (k * config.inputRate.toNat)).length =
      config.channels.toNat := by
  obtain ⟨hcurrent, hnext⟩ := interpolated_frames hconfig hk
  rw [interpolateAt, List.length_zipWith, length_frameOf hwhole hcurrent,
    length_frameOf hwhole hnext, Nat.min_self]

theorem interpolateAt_append (hconfig : config.Valid)
    (hwhole : whole.length = frames * config.channels.toNat) (hk : k < config.outputFrames frames)
    (input : List α) : interpolateAt lerp config (whole ++ input) (k * config.inputRate.toNat) =
      interpolateAt lerp config whole (k * config.inputRate.toNat) := by
  obtain ⟨hcurrent, hnext⟩ := interpolated_frames hconfig hk
  rw [interpolateAt, interpolateAt]
  rw [frameOf_append hwhole hcurrent, frameOf_append hwhole hnext]

theorem At.frameCount (hconfig : config.Valid) (h : At config whole frames dropped k r) :
    r.bufferedSamples.length / r.channels = frames - dropped := by
  rw [h.buffered, h.hchannels, List.length_drop, h.hwhole, ← Nat.sub_mul,
    Nat.mul_div_cancel _ hconfig.channels]

/-- The position from the front of the buffer, and that from the start of the input. -/
theorem At.frame (hconfig : config.Valid) (h : At config whole frames dropped k r) :
    r.nextPosition / r.config.outputRate.toNat + dropped = k * config.inputRate.toNat /
      config.outputRate.toNat ∧
      r.nextPosition % r.config.outputRate.toNat = k * config.inputRate.toNat %
        config.outputRate.toNat := by
  rw [h.hconfig, ← h.position, Nat.add_mul_div_right _ _ hconfig.outputRate,
    Nat.add_mul_mod_self_right]
  exact ⟨rfl, rfl⟩

/-- A sample of a frame is read from the buffer. -/
theorem At.sample (h : At config whole frames dropped k r) {frame channel : ℕ}
    (hchannel : channel < config.channels.toNat) :
    r.bufferedSamples[frame * r.channels + channel]? =
      (frameOf config.channels.toNat whole (frame + dropped))[channel]? := by
  rw [h.buffered, h.hchannels, List.getElem?_drop, getElem?_frameOf hchannel]
  congr 1
  rw [Nat.add_mul]
  omega

/-- One frame. -/
theorem writeNextFrame_at (hconfig : config.Valid) (h : At config whole frames dropped k r)
    (output : List α) : r.writeNextFrame lerp output =
      if k < config.outputFrames frames then
        some (true, output ++ interpolateAt lerp config whole (k * config.inputRate.toNat))
      else some (false, output) := by
  obtain ⟨hframe, hfraction⟩ := h.frame hconfig
  have hdropped := h.hdropped
  have hstop := (past_iff (k * config.inputRate.toNat) frames hconfig.outputRate).trans
    (lt_outputFrames hconfig).not.symm
  rw [StreamingLinearAudioResampler.writeNextFrame, h.frameCount hconfig]
  rw [hfraction]
  split
  · rename_i hpast
    rw [if_neg (hstop.mp (by omega))]
  · rename_i hpast
    have hk : k < config.outputFrames frames := by
      by_contra hk
      have := hstop.mpr hk
      omega
    rw [if_pos hk]
    obtain ⟨hcurrent, hnext⟩ := interpolated_frames hconfig hk
    have hlength : (interpolateAt lerp config whole (k * config.inputRate.toNat)).length =
      config.channels.toNat :=
      length_interpolateAt hconfig h.hwhole hk
    have hwritten :=
      mapM_range_eq (l := interpolateAt lerp config whole (k * config.inputRate.toNat))
      (f := fun channel => do
        let current ← r.bufferedSamples[r.nextPosition / r.config.outputRate.toNat * r.channels +
          channel]?
        let next ← r.bufferedSamples[(r.nextPosition / r.config.outputRate.toNat +
          if k * config.inputRate.toNat % config.outputRate.toNat ≠ 0 then 1 else 0) * r.channels +
            channel]?
        return lerp current next (k * config.inputRate.toNat % config.outputRate.toNat)) ?_
    · rw [hlength, ← h.hchannels] at hwritten
      rw [hwritten]
      rfl
    · intro channel hchannel
      rw [hlength] at hchannel
      rw [h.sample hchannel, h.sample hchannel, hframe, Nat.add_right_comm, hframe]
      rw [List.getElem?_eq_getElem (by rwa [length_frameOf h.hwhole hcurrent]),
        List.getElem?_eq_getElem (by rwa [length_frameOf h.hwhole hnext])]
      simp [interpolateAt]

/-- The loop writes every frame that comes out, in as many rounds and one more. -/
theorem writeFrames_at (lerp : α → α → ℕ → α) (hconfig : config.Valid) :
    ∀ {n k rounds : ℕ} {r : StreamingLinearAudioResampler α} (output : List α), n < rounds →
      At config whole frames dropped k r → k + n = config.outputFrames frames →
      (k + n) * config.inputRate.toNat < 2 ^ 64 + dropped * config.outputRate.toNat →
      ∃ r', StreamingLinearAudioResampler.writeFrames lerp rounds r output = some (r', output ++
          (List.range' k n).flatMap fun k =>
            interpolateAt lerp config whole (k * config.inputRate.toNat)) ∧
        At config whole frames dropped (k + n) r' := by
  intro n
  induction n with
  | zero =>
    intro k rounds r output hrounds h hn _
    obtain ⟨rounds, rfl⟩ := Nat.exists_eq_add_one_of_ne_zero (Nat.ne_of_gt hrounds)
    refine ⟨r, ?_, h⟩
    rw [StreamingLinearAudioResampler.writeFrames, writeNextFrame_at hconfig h, if_neg (by omega)]
    simp
  | succ n ih =>
    intro k rounds r output hrounds h hn hfits
    obtain ⟨rounds, rfl⟩ := Nat.exists_eq_add_one_of_ne_zero (show rounds ≠ 0 by omega)
    have hmono : (k + 1) * config.inputRate.toNat ≤ (k + (n + 1)) * config.inputRate.toNat :=
      Nat.mul_le_mul_right _ (by omega)
    have hposition := h.position
    rw [Nat.succ_mul] at hmono
    have hnext : At config whole frames dropped (k + 1)
        { r with nextPosition := (r.nextPosition + r.config.inputRate.toNat) % 2 ^ 64 } := by
      refine ⟨h.hconfig, h.hchannels, h.hwhole, h.hdropped, h.buffered, ?_⟩
      rw [Nat.succ_mul]
      change (r.nextPosition + r.config.inputRate.toNat) % 2 ^ 64 + _ = _
      rw [h.hconfig, Nat.mod_eq_of_lt (by omega)]
      omega
    have hmove : k + (n + 1) = k + 1 + n := by omega
    rw [hmove] at hn hfits ⊢
    obtain ⟨r', hwritten, hr'⟩ :=
      ih (output ++ interpolateAt lerp config whole (k * config.inputRate.toNat))
      (Nat.lt_of_succ_lt_succ hrounds) hnext hn hfits
    refine ⟨r', ?_, hr'⟩
    rw [StreamingLinearAudioResampler.writeFrames, writeNextFrame_at hconfig h, if_pos (by omega)]
    rw [List.range'_succ, List.flatMap_cons, ← List.append_assoc]
    exact hwritten

end Writing

/-! ## What the resampler keeps -/

/-- The frames that are not needed any more: those before the next position, as far as there are
any. -/
def AudioResamplerConfig.droppedFrames (config : AudioResamplerConfig) (frames : ℕ) : ℕ :=
  min (config.outputFrames frames * config.inputRate.toNat / config.outputRate.toNat) frames

/-- **What is kept of the input so far**: every frame that comes out of it is written, and what is
not needed any more is dropped. -/
def Represents (config : AudioResamplerConfig) (whole : List α) (frames : ℕ)
    (r : StreamingLinearAudioResampler α) : Prop :=
  At config whole frames (config.droppedFrames frames) (config.outputFrames frames) r

section Calls

variable {lerp : α → α → ℕ → α} {config : AudioResamplerConfig} {whole input output : List α}
  {frames : ℕ}
  {r : StreamingLinearAudioResampler α}

theorem discardConsumedFrames_at (hconfig : config.Valid) {dropped : ℕ}
    (h : At config whole frames dropped (config.outputFrames frames) r) :
    ∃ r', r.discardConsumedFrames = some r' ∧ Represents config whole frames r' := by
  obtain ⟨hframe, -⟩ := h.frame hconfig
  have hdropped := h.hdropped
  have hposition := h.position
  have hconsumed : min (r.nextPosition / r.config.outputRate.toNat) (frames - dropped) + dropped =
      config.droppedFrames frames := by
    rw [AudioResamplerConfig.droppedFrames]
    omega
  rw [StreamingLinearAudioResampler.discardConsumedFrames, h.frameCount hconfig]
  generalize hn : min (r.nextPosition / r.config.outputRate.toNat)
    (frames - dropped) = consumed at *
  have hback : consumed * r.config.outputRate.toNat ≤ r.nextPosition := by
    refine (Nat.mul_le_mul_right _ ?_).trans (Nat.div_mul_le_self r.nextPosition
      r.config.outputRate.toNat)
    omega
  have hthere : consumed * r.channels ≤ r.bufferedSamples.length := by
    rw [h.buffered, h.hchannels, List.length_drop, h.hwhole, ← Nat.sub_mul]
    exact Nat.mul_le_mul_right _ (by omega)
  rw [checkedSub, if_pos hback]
  dsimp only [Option.bind_eq_bind, Option.bind_some]
  rw [if_pos hthere]
  refine ⟨_, rfl, h.hconfig, h.hchannels, h.hwhole, by omega, ?_, ?_⟩
  · change r.bufferedSamples.drop _ = _
    rw [h.buffered, List.drop_drop, h.hchannels, ← hconsumed, Nat.add_mul]
    congr 1
    omega
  · change r.nextPosition - _ + _ = _
    rw [h.hconfig] at hback ⊢
    rw [← hconsumed, Nat.add_mul]
    omega

variable {inputFrames : ℕ}

/-- What there is to write is counted from the front of the buffer as from the start of the input.
-/
theorem firstPast_eq (hconfig : config.Valid) (h : Represents config whole frames r)
    (hinput : input.length = inputFrames * config.channels.toNat) :
    r.firstPast input + config.droppedFrames frames * config.outputRate.toNat =
      config.outputFrames (frames + inputFrames) * config.inputRate.toNat := by
  have hdropped := h.hdropped
  have hposition := h.position
  have hframes : (r.bufferedSamples.length + input.length) / r.channels =
      frames + inputFrames - config.droppedFrames frames := by
    rw [h.buffered, h.hchannels, List.length_drop, h.hwhole, hinput, ← Nat.sub_mul, ← Nat.add_mul,
      Nat.mul_div_cancel _ hconfig.channels]
    omega
  rw [StreamingLinearAudioResampler.firstPast, hframes, h.hconfig]
  have hmono := outputFrames_mono hconfig (Nat.le_add_right frames inputFrames)
  generalize config.droppedFrames frames = dropped at *
  generalize hk : config.outputFrames frames = k at *
  -- nothing is written now, whether there is no frame left or the last is before the position
  have hnone (hbefore : (frames + inputFrames - 1) * config.outputRate.toNat < k *
    config.inputRate.toNat ∨
      frames + inputFrames = 0) : k = config.outputFrames (frames + inputFrames) := by
    refine le_antisymm hmono ?_
    by_contra hlt
    obtain ⟨hpos, hle⟩ := (lt_outputFrames hconfig).mp (not_le.mp hlt)
    omega
  rcases Nat.eq_zero_or_pos (frames + inputFrames - dropped) with hzero | hpos
  · rw [if_pos (.inl hzero), hposition]
    congr 1
    refine hnone ?_
    rcases Nat.eq_zero_or_pos (frames + inputFrames) with hempty | hsome
    · exact .inr hempty
    · refine .inl (lt_of_lt_of_le ?_ (Nat.le.intro ((Nat.add_comm ..).trans hposition)))
      exact Nat.mul_lt_mul_of_pos_right (by omega) hconfig.outputRate
  · have hlast : (frames + inputFrames - dropped - 1) * config.outputRate.toNat + dropped *
      config.outputRate.toNat =
        (frames + inputFrames - 1) * config.outputRate.toNat := by
      rw [← Nat.add_mul]
      exact congrArg (· * _) (by omega)
    split
    · rename_i hpast
      rw [hposition]
      congr 1
      exact hnone (.inl (by omega))
    · rename_i hsome
      rw [not_or, not_lt] at hsome
      have hgap : (frames + inputFrames - dropped - 1) * config.outputRate.toNat - r.nextPosition =
          (frames + inputFrames - 1) * config.outputRate.toNat - k * config.inputRate.toNat := by
            omega
      have hquot : k ≤ (frames + inputFrames - 1) * config.outputRate.toNat /
          config.inputRate.toNat := by
        rw [Nat.le_div_iff_mul_le hconfig.inputRate]
        omega
      rw [hgap, Nat.mul_comm k, Nat.sub_mul_div, AudioResamplerConfig.outputFrames,
        if_neg (by omega), Nat.add_right_comm, hposition,
        ← Nat.add_mul]
      congr 1
      omega

theorem resample_eq (hconfig : config.Valid)
    (hwhole : whole.length = frames * config.channels.toNat) : resample lerp config whole =
      (List.range (config.outputFrames frames)).flatMap fun k =>
        interpolateAt lerp config whole (k * config.inputRate.toNat) := by
  rw [resample, hwhole, Nat.mul_div_cancel _ hconfig.channels]

theorem length_resample (hconfig : config.Valid)
    (hwhole : whole.length = frames * config.channels.toNat) :
    (resample lerp config whole).length = config.outputFrames frames * config.channels.toNat := by
  rw [resample_eq hconfig hwhole, List.length_flatMap]
  have hmap : (List.range (config.outputFrames frames)).map (fun k =>
      (interpolateAt lerp config whole (k * config.inputRate.toNat)).length) =
      List.replicate (config.outputFrames frames) config.channels.toNat := by
    refine List.eq_replicate_iff.mpr ⟨by simp, fun n hn => ?_⟩
    obtain ⟨k, hk, rfl⟩ := List.mem_map.mp hn
    exact length_interpolateAt hconfig hwhole (List.mem_range.mp hk)
  rw [hmap, List.sum_replicate_nat]

/-- More input only adds to the output. -/
theorem resample_append (hconfig : config.Valid)
    (hwhole : whole.length = frames * config.channels.toNat)
    (hinput : input.length = inputFrames * config.channels.toNat) :
    resample lerp config (whole ++ input) = resample lerp config whole ++
      (List.range' (config.outputFrames frames)
        (config.outputFrames (frames + inputFrames) - config.outputFrames frames)).flatMap
        fun k => interpolateAt lerp config (whole ++ input) (k * config.inputRate.toNat) := by
  have hboth : (whole ++ input).length = (frames + inputFrames) * config.channels.toNat := by
    rw [List.length_append, hwhole, hinput, Nat.add_mul]
  have hmono := outputFrames_mono hconfig (Nat.le_add_right frames inputFrames)
  have hsplit : List.range (config.outputFrames (frames + inputFrames)) =
    List.range (config.outputFrames frames) ++
      List.range' (config.outputFrames frames)
        (config.outputFrames (frames + inputFrames) - config.outputFrames frames) := by
    rw [List.range_eq_range', List.range_eq_range']
    nth_rewrite 2 [← Nat.zero_add (config.outputFrames frames)]
    rw [List.range'_append_1, Nat.add_sub_cancel' hmono]
  rw [resample_eq hconfig hboth, resample_eq hconfig hwhole, hsplit, List.flatMap_append]
  congr 1
  refine List.flatMap_congr fun k hk => ?_
  exact interpolateAt_append hconfig hwhole (List.mem_range.mp hk) input

/-- `output_capacity` fails only where a product or the sum does. -/
theorem outputCapacity_eq (hr : r.config = config) (hchannels : r.channels = config.channels.toNat)
    (hwhole : input.length % config.channels.toNat = 0) : r.outputCapacity input.length =
      if config.accepts input then .ok (config.capacity input) else .error .capacityOverflow := by
  rw [StreamingLinearAudioResampler.outputCapacity, AudioResamplerConfig.accepts,
    AudioResamplerConfig.capacity, hr,
    hchannels]
  simp only [checkedMul, checkedAdd, interpolationMarginFrames, hwhole, true_and]
  generalize (2 : ℕ) ^ 64 = bound
  by_cases hproduct : input.length / config.channels.toNat * config.outputRate.toNat < bound
  · by_cases hsum : input.length / config.channels.toNat * config.outputRate.toNat /
      config.inputRate.toNat + 2 < bound
    · by_cases hcapacity :
        (input.length / config.channels.toNat * config.outputRate.toNat /
          config.inputRate.toNat + 2) *
          config.channels.toNat < bound
      · simp [hproduct, hsum, hcapacity, orOverflow, Bind.bind, Except.bind]
      · simp [hproduct, hsum, hcapacity, orOverflow, Bind.bind, Except.bind]
    · simp [hproduct, hsum, orOverflow, Bind.bind, Except.bind]
  · simp [hproduct, orOverflow, Bind.bind, Except.bind]

/-- A call that is refused leaves everything as it was. -/
theorem processInto_refused (hr : r.config = config)
    (hchannels : r.channels = config.channels.toNat) (h : config.accepts input = false) :
    ∃ e, r.processInto lerp input output = some (.error e, r, output) := by
  rw [StreamingLinearAudioResampler.processInto, validateInput, hchannels]
  by_cases hwhole : input.length % config.channels.toNat = 0
  · rw [if_neg (not_not.mpr hwhole), outputCapacity_eq hr hchannels hwhole, h]
    exact ⟨_, rfl⟩
  · rw [if_pos hwhole]
    exact ⟨_, rfl⟩

/-- A call that is taken adds what the input so far was missing. -/
theorem processInto_accepted (hconfig : config.Valid) (h : Represents config whole frames r)
    (hinput : input.length = inputFrames * config.channels.toNat)
    (haccepts : config.accepts input = true) (hfits : r.firstPast input < 2 ^ 64)
    (hcapacity : output.length + config.capacity input ≤ maxSamples)
    (hbuffer : r.bufferedSamples.length + input.length ≤ maxSamples) :
    ∃ r' written, r.processInto lerp input output = some (.ok (), r', output ++ written) ∧
      resample lerp config (whole ++ input) = resample lerp config whole ++ written ∧
      Represents config (whole ++ input) (frames + inputFrames) r' := by
  have hpast := firstPast_eq hconfig h hinput
  have hmono := outputFrames_mono hconfig (Nat.le_add_right frames inputFrames)
  have hcall : At config (whole ++ input) (frames + inputFrames) (config.droppedFrames frames)
    (config.outputFrames frames)
      { r with bufferedSamples := r.bufferedSamples ++ input } := by
    have hle : config.droppedFrames frames * config.channels.toNat ≤ whole.length := by
      rw [h.hwhole]
      exact Nat.mul_le_mul_right _ h.hdropped
    refine ⟨h.hconfig, h.hchannels, ?_, h.hdropped.trans (Nat.le_add_right ..), ?_, h.position⟩
    · rw [List.length_append, h.hwhole, hinput, Nat.add_mul]
    · change r.bufferedSamples ++ input = _
      rw [h.buffered, List.drop_append_of_le_length hle]
  have hn :
    config.outputFrames frames + (config.outputFrames (frames + inputFrames) -
      config.outputFrames frames) =
      config.outputFrames (frames + inputFrames) := Nat.add_sub_cancel' hmono
  have hrounds : config.outputFrames (frames + inputFrames) - config.outputFrames frames < 2 ^
      64 := by
    have hone : config.outputFrames (frames + inputFrames) - config.outputFrames frames ≤
        (config.outputFrames (frames + inputFrames) - config.outputFrames frames) *
          config.inputRate.toNat :=
      Nat.le_mul_of_pos_right _ hconfig.inputRate
    have hposition := h.position
    rw [Nat.sub_mul] at hone
    omega
  have hbound :
    (config.outputFrames frames + (config.outputFrames (frames + inputFrames) -
      config.outputFrames frames)) *
      config.inputRate.toNat < 2 ^ 64 + config.droppedFrames frames * config.outputRate.toNat := by
    rw [hn]
    omega
  obtain ⟨r₁, hwritten, hr₁⟩ := writeFrames_at lerp hconfig output hrounds hcall hn hbound
  rw [hn] at hr₁
  obtain ⟨r₂, hdiscard, hr₂⟩ := discardConsumedFrames_at hconfig hr₁
  have hwhole : input.length % config.channels.toNat = 0 := by
    rw [hinput]
    exact Nat.mul_mod_left ..
  have hvalid : validateInput input r.channels = .ok () := by
    rw [validateInput, h.hchannels, if_neg (not_not.mpr hwhole)]
  refine ⟨r₂, _, ?_, resample_append hconfig h.hwhole hinput, hr₂⟩
  rw [StreamingLinearAudioResampler.processInto, hvalid,
    outputCapacity_eq h.hconfig h.hchannels hwhole, if_pos haccepts]
  simp only [reserve, if_pos hcapacity, if_pos hbuffer, Option.bind_eq_bind, Option.bind_some]
  rw [hwritten]
  dsimp only [Option.bind_some]
  rw [hdiscard]
  rfl

/-- A call adds at most one frame more than the input scaled. -/
theorem outputFrames_add_le (hconfig : config.Valid) (frames inputFrames : ℕ) :
    config.outputFrames (frames + inputFrames) ≤
      config.outputFrames frames + inputFrames * config.outputRate.toNat /
        config.inputRate.toNat + 1 := by
  by_contra hlt
  obtain ⟨hpos, hle⟩ := (lt_outputFrames hconfig).mp (not_le.mp hlt)
  have hquot := Nat.lt_div_mul_add hconfig.inputRate (a := inputFrames * config.outputRate.toNat)
  rw [Nat.add_mul, Nat.add_mul, Nat.one_mul] at hle
  rcases Nat.eq_zero_or_pos frames with rfl | hframes
  · have hfewer : (0 + inputFrames - 1) * config.outputRate.toNat ≤ inputFrames *
      config.outputRate.toNat :=
      Nat.mul_le_mul_right _ (by omega)
    omega
  · have hlast := (lt_outputFrames hconfig).not.mp (lt_irrefl (config.outputFrames frames))
    have hsplit : (frames + inputFrames - 1) * config.outputRate.toNat =
        (frames - 1) * config.outputRate.toNat + inputFrames * config.outputRate.toNat := by
      rw [← Nat.add_mul]
      exact congrArg (· * _) (by omega)
    rw [not_and, not_le] at hlast
    have := hlast (by omega)
    omega

/-- A call adds no more than `output_capacity` says. -/
theorem written_le (hconfig : config.Valid) {written : List α}
    (hwhole : whole.length = frames * config.channels.toNat)
    (hinput : input.length = inputFrames * config.channels.toNat)
    (hwritten : resample lerp config (whole ++ input) = resample lerp config whole ++ written) :
    written.length ≤ config.capacity input := by
  have hboth : (whole ++ input).length = (frames + inputFrames) * config.channels.toNat := by
    rw [List.length_append, hwhole, hinput, Nat.add_mul]
  have hlength := congrArg List.length hwritten
  rw [length_resample hconfig hboth, List.length_append, length_resample hconfig hwhole] at hlength
  have hle :=
    Nat.mul_le_mul_right config.channels.toNat (outputFrames_add_le hconfig frames inputFrames)
  rw [AudioResamplerConfig.capacity, hinput, Nat.mul_div_cancel _ hconfig.channels, Nat.add_mul]
  rw [Nat.add_mul, Nat.add_mul, Nat.one_mul] at hle
  omega

end Calls

/-! ## Packets -/

theorem flatten_chunksExact {size : ℕ} (hsize : 0 < size) :
    ∀ {n : ℕ} {l : List α}, l.length = n * size → (chunksExact size l).flatten = l := by
  intro n
  induction n with
  | zero =>
    intro l hl
    rw [Nat.zero_mul, List.length_eq_zero_iff] at hl
    subst hl
    simp [chunksExact]
  | succ n ih =>
    intro l hl
    have hrest : (l.drop size).length = n * size := by
      rw [List.length_drop, hl, Nat.succ_mul, Nat.add_sub_cancel]
    have hchunks : chunksExact size l = l.take size :: chunksExact size (l.drop size) := by
      rw [chunksExact, chunksExact, hl, hrest, Nat.mul_div_cancel _ hsize,
        Nat.mul_div_cancel _ hsize,
        List.range_succ_eq_map, List.map_cons, Nat.zero_mul, List.drop_zero, List.map_map]
      refine congrArg _ (List.map_congr_left fun i _ => ?_)
      rw [Function.comp_apply, List.drop_drop, Nat.succ_mul, Nat.add_comm size]
    rw [hchunks, List.flatten_cons, ih hrest, List.take_append_drop]

theorem length_of_mem_chunksExact {size : ℕ} {l chunk : List α} (h : chunk ∈ chunksExact size l) :
    chunk.length = size := by
  obtain ⟨i, hi, rfl⟩ := List.mem_map.mp h
  have hle : (i + 1) * size ≤ l.length / size * size :=
    Nat.mul_le_mul_right _ (List.mem_range.mp hi)
  have := Nat.div_mul_le_self l.length size
  rw [Nat.succ_mul] at hle
  rw [List.length_take, List.length_drop]
  omega

/-- What the resampler for packets keeps: the packets so far and what is pending are the whole
output. -/
structure PacketsKept (lerp : α → α → ℕ → α) (config : AudioResamplerConfig) (outputSamples : ℕ)
  (whole : List α)
    (s : FixedFrameAudioResampler α × List (List α)) : Prop where
  represents : ∃ frames, Represents config whole frames s.1.resampler
  outputSamples_eq : s.1.outputSamples = outputSamples
  output : s.2.flatten ++ s.1.pendingSamples = resample lerp config whole
  packets : ∀ packet ∈ s.2, packet.length = outputSamples
  pending : s.1.pendingSamples.length < outputSamples

/-! ## Every split -/

/-- The input of the calls that are taken. -/
def AudioResamplerConfig.taken (config : AudioResamplerConfig) (calls : List (List α)) : List α :=
  (calls.filter config.accepts).flatten

section Runs

variable {lerp : α → α → ℕ → α} {config : AudioResamplerConfig} {whole input : List α} {frames : ℕ}
  {r : StreamingLinearAudioResampler α}

/-- **One call**: it returns; refused, it changes nothing; taken, it adds what was missing and no
more than its capacity. -/
theorem processInto_returns (lerp : α → α → ℕ → α) (hconfig : config.Valid)
    (h : Represents config whole frames r) (input output : List α)
    (hfits : r.fits input output = true) :
    (config.accepts input = false ∧ ∃ e, r.processInto lerp input output =
      some (.error e, r, output)) ∨
      (config.accepts input = true ∧ ∃ r' written inputFrames capacity,
        r.processInto lerp input output = some (.ok (), r', output ++ written) ∧
        resample lerp config (whole ++ input) = resample lerp config whole ++ written ∧
        Represents config (whole ++ input) (frames + inputFrames) r' ∧
        r.outputCapacity input.length = .ok capacity ∧ written.length ≤ capacity) := by
  cases haccepts : config.accepts input with
  | false => exact .inl ⟨rfl, processInto_refused h.hconfig h.hchannels haccepts⟩
  | true =>
    have hwhole : input.length % config.channels.toNat = 0 := by
      rw [AudioResamplerConfig.accepts, decide_eq_true_eq] at haccepts
      exact haccepts.1
    have hinput : input.length = input.length / config.channels.toNat * config.channels.toNat :=
      (Nat.div_mul_cancel (Nat.dvd_of_mod_eq_zero hwhole)).symm
    rw [StreamingLinearAudioResampler.fits, h.hconfig, haccepts] at hfits
    obtain ⟨hpast, hcapacity, hbuffer⟩ := of_decide_eq_true hfits
    obtain ⟨r', written, hcall, hwritten, hr'⟩ :=
      processInto_accepted hconfig h hinput haccepts hpast hcapacity hbuffer
    refine .inr ⟨rfl, r', written, _, _, hcall, hwritten, hr', ?_,
      written_le hconfig h.hwhole hinput hwritten⟩
    rw [outputCapacity_eq h.hconfig h.hchannels hwhole, if_pos haccepts]

theorem taken_cons_refused (h : config.accepts input = false) (calls : List (List α)) :
    config.taken (input :: calls) = config.taken calls := by
  rw [AudioResamplerConfig.taken, List.filter_cons_of_neg (by rw [h]; decide)]
  rfl

theorem taken_cons_accepted (h : config.accepts input = true) (calls : List (List α)) :
    config.taken (input :: calls) = input ++ config.taken calls := by
  rw [AudioResamplerConfig.taken, List.filter_cons_of_pos h, List.flatten_cons]
  rfl

/-- The backend over a list of calls. -/
theorem linear_run (lerp : α → α → ℕ → α) (hconfig : config.Valid) :
    ∀ {calls : List (List α)} {whole : List α} {frames : ℕ} {r : StreamingLinearAudioResampler α},
      Represents config whole frames r →
      Along (linearStep lerp) (fun s input => s.1.fits input s.2 = true)
        (r, resample lerp config whole) calls →
      ∃ r' frames', exec (linearStep lerp) (r, resample lerp config whole) calls =
          some (r', resample lerp config (whole ++ config.taken calls)) ∧
        Represents config (whole ++ config.taken calls) frames' r' := by
  intro calls
  induction calls with
  | nil =>
    intro whole frames r h _
    have htaken : config.taken ([] : List (List α)) = [] := rfl
    rw [htaken, List.append_nil]
    exact ⟨r, frames, rfl, h⟩
  | cons input calls ih =>
    intro whole frames r h hfits
    rw [Along, linearStep] at hfits
    rw [exec, linearStep]
    rcases processInto_returns lerp hconfig h input (resample lerp config whole) hfits.1 with
      ⟨hrefused, e, hcall⟩ | ⟨haccepted, r', written, inputFrames, capacity, hcall, hwritten,
        hr', -, -⟩
    · rw [hcall] at hfits ⊢
      rw [taken_cons_refused hrefused]
      exact ih h hfits.2
    · rw [hcall, Option.map_some, ← hwritten] at hfits ⊢
      rw [taken_cons_accepted haccepted, ← List.append_assoc]
      exact ih hr' hfits.2

/-- One call of the resampler for packets. -/
theorem processWith_kept {outputSamples : ℕ} {s : FixedFrameAudioResampler α × List (List α)}
    (hconfig : config.Valid) (hsize : 0 < outputSamples)
    (h : PacketsKept lerp config outputSamples whole s)
    (hfits : s.1.resampler.fits input s.1.pendingSamples = true) :
    (config.accepts input = false ∧ ∃ e, s.1.processWith lerp input = some (.error e, [], s.1)) ∨
      (config.accepts input = true ∧ ∃ packets f,
        s.1.processWith lerp input = some (.ok (), packets, f) ∧
        PacketsKept lerp config outputSamples (whole ++ input) (f, s.2 ++ packets)) := by
  obtain ⟨frames, hrepresents⟩ := h.represents
  rw [FixedFrameAudioResampler.processWith]
  rcases processInto_returns lerp hconfig hrepresents input s.1.pendingSamples hfits with
    ⟨hrefused, e, hcall⟩ | ⟨haccepted, r', written, inputFrames, capacity, hcall, hwritten,
      hr', -, -⟩
  · refine .inl ⟨hrefused, e, ?_⟩
    rw [hcall]
    rfl
  · rw [hcall]
    refine .inr ⟨haccepted, _, _, rfl, ⟨_, hr'⟩, h.outputSamples_eq, ?_, ?_, ?_⟩
    · dsimp only
      rw [h.outputSamples_eq]
      have htake : ((s.1.pendingSamples ++ written).take
          ((s.1.pendingSamples ++ written).length / outputSamples * outputSamples)).length =
          (s.1.pendingSamples ++ written).length / outputSamples * outputSamples := by
        rw [List.length_take]
        exact Nat.min_eq_left (Nat.div_mul_le_self ..)
      rw [List.flatten_append, flatten_chunksExact hsize htake, List.append_assoc,
        List.take_append_drop, ← List.append_assoc,
        h.output, hwritten]
    · intro packet hpacket
      rcases List.mem_append.mp hpacket with hold | hnew
      · exact h.packets packet hold
      · rw [length_of_mem_chunksExact hnew, h.outputSamples_eq]
    · change (List.drop _ _).length < _
      rw [h.outputSamples_eq, List.length_drop]
      have hmod := Nat.mod_lt (s.1.pendingSamples ++ written).length hsize
      have hdiv := Nat.div_add_mod' (s.1.pendingSamples ++ written).length outputSamples
      omega

/-- The resampler for packets over a list of calls. -/
theorem packet_run {outputSamples : ℕ} (hconfig : config.Valid) (hsize : 0 < outputSamples) :
    ∀ {calls : List (List α)} {whole : List α} {s : FixedFrameAudioResampler α × List (List α)},
      PacketsKept lerp config outputSamples whole s →
      Along (packetStep lerp) (fun s input => s.1.resampler.fits input s.1.pendingSamples = true)
        s calls →
      Returns (exec (packetStep lerp) s calls)
        (PacketsKept lerp config outputSamples (whole ++ config.taken calls)) := by
  intro calls
  induction calls with
  | nil =>
    intro whole s h _
    have htaken : config.taken ([] : List (List α)) = [] := rfl
    rw [htaken, List.append_nil]
    exact returns_pure h
  | cons input calls ih =>
    intro whole s h hfits
    rw [Along, packetStep] at hfits
    rw [exec, packetStep]
    rcases processWith_kept hconfig hsize h hfits.1 with
      ⟨hrefused, e, hcall⟩ | ⟨haccepted, packets, f, hcall, hkept⟩
    · have hsame : (s.1, s.2 ++ []) = s := by rw [List.append_nil]
      rw [hcall, Option.map_some] at hfits ⊢
      dsimp only at hfits ⊢
      rw [hsame] at hfits ⊢
      rw [taken_cons_refused hrefused]
      exact ih h hfits.2
    · rw [hcall] at hfits ⊢
      rw [taken_cons_accepted haccepted, ← List.append_assoc]
      exact ih hkept hfits.2

end Runs

/-! ## New resamplers -/

theorem valid_of_validateConfig {channels : ℕ} (h : validateConfig config = .ok channels) :
    config.Valid ∧ channels = config.channels.toNat := by
  rw [validateConfig] at h
  split at h
  · cases h
  · rename_i hzero
    obtain rfl := Except.ok.inj h
    rw [not_or, not_or] at hzero
    refine ⟨⟨?_, ?_, ?_⟩, rfl⟩
    · exact Nat.pos_of_ne_zero fun hz => hzero.1 (UInt32.toNat_inj.mp hz)
    · exact Nat.pos_of_ne_zero fun hz => hzero.2.1 (UInt32.toNat_inj.mp hz)
    · exact Nat.pos_of_ne_zero fun hz => hzero.2.2 (UInt16.toNat_inj.mp hz)

theorem bind_eq_ok {ε β γ : Type} {x : Except ε β} {f : β → Except ε γ} {c : γ}
    (h : x >>= f = .ok c) : ∃ b, x = .ok b ∧ f b = .ok c := by
  cases x with
  | error e => cases h
  | ok b => exact ⟨b, rfl, h⟩

theorem represents_new {r : StreamingLinearAudioResampler α}
    (h : StreamingLinearAudioResampler.new config = .ok r) :
    config.Valid ∧ Represents config [] 0 r := by
  obtain ⟨channels, hchannels, h⟩ := bind_eq_ok h
  obtain ⟨hvalid, rfl⟩ := valid_of_validateConfig hchannels
  obtain rfl := Except.ok.inj h
  refine ⟨hvalid, rfl, rfl, by simp, Nat.min_le_right .., by simp, ?_⟩
  simp [AudioResamplerConfig.droppedFrames, AudioResamplerConfig.outputFrames]

/-- A resampler for packets that was made has passed the checks. -/
theorem sizes_of_new {outputFrames : ℕ} {f : FixedFrameAudioResampler α}
    (h : FixedFrameAudioResampler.new config outputFrames = some (.ok f)) :
    ∃ buffered capacity, FixedFrameAudioResampler.sizes config outputFrames =
      .ok (f, buffered, capacity) := by
  rw [FixedFrameAudioResampler.new] at h
  split at h
  · cases h
  next f' buffered capacity hsizes =>
  obtain ⟨_, -, h⟩ := Option.bind_eq_some_iff.mp h
  obtain ⟨_, -, h⟩ := Option.bind_eq_some_iff.mp h
  obtain rfl := Except.ok.inj (Option.some.inj h)
  exact ⟨buffered, capacity, hsizes⟩

theorem packetsKept_new (lerp : α → α → ℕ → α) {outputFrames : ℕ} {f : FixedFrameAudioResampler α}
    (h : FixedFrameAudioResampler.new config outputFrames = some (.ok f)) :
    config.Valid ∧ 0 < outputFrames * config.channels.toNat ∧
      PacketsKept lerp config (outputFrames * config.channels.toNat) [] (f, []) := by
  obtain ⟨buffered, capacity, h⟩ := sizes_of_new h
  rw [FixedFrameAudioResampler.sizes] at h
  by_cases hzero : outputFrames = 0
  · rw [if_pos hzero] at h
    cases h
  · rw [if_neg hzero] at h
    obtain ⟨channels, hchannels, h⟩ := bind_eq_ok h
    obtain ⟨outputSamples, hsamples, h⟩ := bind_eq_ok h
    obtain ⟨_, _, h⟩ := bind_eq_ok h
    obtain ⟨_, _, h⟩ := bind_eq_ok h
    obtain ⟨r, hr, h⟩ := bind_eq_ok h
    obtain ⟨_, _, h⟩ := bind_eq_ok h
    obtain ⟨rfl, -⟩ := Prod.mk.inj (Except.ok.inj h)
    obtain ⟨hvalid, rfl⟩ := valid_of_validateConfig hchannels
    have hsize : 0 < outputFrames * config.channels.toNat :=
      Nat.mul_pos (Nat.pos_of_ne_zero hzero) hvalid.channels
    have hproduct : outputSamples = outputFrames * config.channels.toNat := by
      rw [checkedMul] at hsamples
      split at hsamples
      · exact (Except.ok.inj hsamples).symm
      · cases hsamples
    refine ⟨hvalid, hsize, ⟨0, (represents_new hr).2⟩, hproduct, ?_, nofun, hsize⟩
    simp [resample, AudioResamplerConfig.outputFrames]

/-- **Streaming is resampling the whole**: in whatever calls the input comes, as long as each gets
past its last frame within 64 bits and what it adds can be reserved, every call returns and the
output is that of the whole input, in `outputFrames` frames. A call that is refused changes nothing,
and one that is taken adds no more than its capacity. The packets are all of the same length, and
with what is pending they are the output. -/
theorem streaming_resampling (lerp : α → α → ℕ → α) {config : AudioResamplerConfig}
    {outputFrames : ℕ} {r : StreamingLinearAudioResampler α} {f : FixedFrameAudioResampler α}
    (hr : StreamingLinearAudioResampler.new config = .ok r)
    (hf : FixedFrameAudioResampler.new config outputFrames = some (.ok f)) (calls : List (List α)) :
    (resample lerp config (config.taken calls)).length =
        config.outputFrames ((config.taken calls).length / config.channels.toNat) *
          config.channels.toNat ∧
      (Along (linearStep lerp) (fun s input => s.1.fits input s.2 = true) (r, []) calls →
        ∃ r', exec (linearStep lerp) (r, []) calls =
          some (r', resample lerp config (config.taken calls)) ∧
          ∀ input output, r'.fits input output = true →
            (config.accepts input = false ∧ ∃ e,
              r'.processInto lerp input output = some (.error e, r', output)) ∨
              (config.accepts input = true ∧ ∃ r'' written capacity,
                r'.processInto lerp input output = some (.ok (), r'', output ++ written) ∧
                r'.outputCapacity input.length = .ok capacity ∧ written.length ≤ capacity)) ∧
      (Along (packetStep lerp) (fun s input => s.1.resampler.fits input s.1.pendingSamples = true)
        (f, []) calls →
        ∃ f' packets, exec (packetStep lerp) (f, []) calls = some (f', packets) ∧
          packets.flatten ++ f'.pendingSamples = resample lerp config (config.taken calls) ∧
          (∀ packet ∈ packets, packet.length = outputFrames * config.channels.toNat) ∧
          ∀ input, f'.resampler.fits input f'.pendingSamples = true → config.accepts input = false →
            ∃ e, f'.processWith lerp input = some (.error e, [], f')) := by
  obtain ⟨hvalid, hrepresents⟩ := represents_new hr
  obtain ⟨-, hsize, hkept⟩ := packetsKept_new lerp hf
  have hempty : resample lerp config ([] : List α) = [] := by
    simp [resample, AudioResamplerConfig.outputFrames]
  refine ⟨length_resample hvalid ?_, fun hfits => ?_, fun hfits => ?_⟩
  · refine (Nat.div_mul_cancel ?_).symm
    rw [AudioResamplerConfig.taken, List.length_flatten]
    refine List.dvd_sum fun n hn => ?_
    obtain ⟨input, hinput, rfl⟩ := List.mem_map.mp hn
    have haccepts := (List.mem_filter.mp hinput).2
    rw [AudioResamplerConfig.accepts, decide_eq_true_eq] at haccepts
    exact Nat.dvd_of_mod_eq_zero haccepts.1
  · rw [← hempty] at hfits ⊢
    obtain ⟨r', frames, hrun, hr'⟩ := linear_run lerp hvalid hrepresents hfits
    rw [List.nil_append] at hrun hr'
    refine ⟨r', hrun, fun input output hnext => ?_⟩
    rcases processInto_returns lerp hvalid hr' input output hnext with
      hrefused | ⟨haccepted, r'', written, -, capacity, hcall, -, -, hcapacity⟩
    · exact .inl hrefused
    · exact .inr ⟨haccepted, r'', written, capacity, hcall, hcapacity⟩
  · obtain ⟨⟨f', packets⟩, hrun, hlast⟩ := packet_run hvalid hsize hkept hfits
    rw [List.nil_append] at hlast
    refine ⟨f', packets, hrun, hlast.output, hlast.packets, fun input hnext hrefused => ?_⟩
    rcases processWith_kept hvalid hsize hlast hnext with ⟨-, hcall⟩ | ⟨haccepted, -⟩
    · exact hcall
    · rw [hrefused] at haccepted
      cases haccepted

/-- Two channels, from 2 to 3 frames in a second, in three calls, of which the second is refused. -/
theorem streaming_resampling_split : let config : AudioResamplerConfig := ⟨2, 3, 2⟩
    let lerp : ℕ → ℕ → ℕ → ℕ := fun current next fraction =>
      (3 - fraction) * current + fraction * next
    ∃ r f r' f' packets, StreamingLinearAudioResampler.new config = .ok r ∧
      FixedFrameAudioResampler.new config 2 = some (.ok f) ∧
      exec (linearStep lerp) (r, []) [[0, 10, 1, 11], [5], [2, 12]] =
        some (r', [0, 30, 2, 32, 4, 34, 6, 36]) ∧
      exec (packetStep lerp) (f, []) [[0, 10, 1, 11], [5], [2, 12]] = some (f', packets) ∧
      packets.flatten ++ f'.pendingSamples = [0, 30, 2, 32, 4, 34, 6, 36] := by
  intro config lerp
  have houtput : resample lerp config (config.taken [[0, 10, 1, 11], [5], [2, 12]]) =
      [0, 30, 2, 32, 4, 34, 6, 36] := by
    decide +kernel
  have hr : StreamingLinearAudioResampler.new config =
      .ok (⟨config, 2, [], 0⟩ : StreamingLinearAudioResampler ℕ) := rfl
  have hf : FixedFrameAudioResampler.new config 2 =
      some (.ok (⟨⟨config, 2, [], 0⟩, 4, []⟩ : FixedFrameAudioResampler ℕ)) := by decide +kernel
  obtain ⟨-, hlinear, hpackets⟩ := streaming_resampling lerp hr hf [[0, 10, 1, 11], [5], [2, 12]]
  rw [houtput] at hlinear hpackets
  obtain ⟨r', hr', -⟩ := hlinear (by decide +kernel)
  obtain ⟨f', packets, hf', hflatten, -⟩ := hpackets (by decide +kernel)
  exact ⟨_, _, r', f', packets, hr, hf, hr', hf', hflatten⟩

/-! ## Calls that are too large -/

/-- A call never returns if no position of 64 bits is past the last frame. -/
theorem writeFrames_never (lerp : α → α → ℕ → α) {config : AudioResamplerConfig}
    (hrate : 0 < config.outputRate.toNat) {frames : ℕ} (hframes : frames ≠ 0)
    (hlast : 2 ^ 64 ≤ (frames - 1) * config.outputRate.toNat + 1) :
    ∀ {rounds : ℕ} {r : StreamingLinearAudioResampler α} (output : List α), r.config = config →
      r.bufferedSamples.length / r.channels = frames → r.nextPosition < 2 ^ 64 →
      StreamingLinearAudioResampler.writeFrames lerp rounds r output = none := by
  intro rounds
  induction rounds with
  | zero => exact fun _ _ _ _ => rfl
  | succ rounds ih =>
    intro r output hconfig hcount hposition
    have hgoes := (past_iff r.nextPosition frames hrate).not.mpr (not_not.mpr ⟨hframes, by omega⟩)
    rw [StreamingLinearAudioResampler.writeFrames, StreamingLinearAudioResampler.writeNextFrame]
    dsimp only
    rw [hcount, hconfig, if_neg hgoes]
    -- either a sample is not there, or the frame is written and the loop goes on
    cases (List.range r.channels).mapM fun channel => do
        let current ← r.bufferedSamples[r.nextPosition / config.outputRate.toNat * r.channels +
          channel]?
        let next ← r.bufferedSamples[(r.nextPosition / config.outputRate.toNat +
          if r.nextPosition % config.outputRate.toNat ≠ 0 then 1 else 0) * r.channels + channel]?
        return lerp current next (r.nextPosition % config.outputRate.toNat) with
    | none => rfl
    | some written => exact ih _ rfl hcount (Nat.mod_lt _ (by decide))

/-- A call of `2 ^ 32 + 1` frames, with one left over. -/
theorem processInto_never (hlength : input.length = 4294967297)
    (hrate : config.outputRate.toNat = 4294967295) (hchannels : config.channels.toNat = 1)
    (haccepts : config.accepts input = true) :
    StreamingLinearAudioResampler.processInto (fun _ _ _ => ())
      ⟨config, 1, [()], 4294967294⟩ input [()] = none := by
  have hwhole : input.length % config.channels.toNat = 0 := by rw [hchannels, Nat.mod_one]
  have hvalid : validateInput input 1 = .ok () := by
    rw [validateInput, Nat.mod_one, if_neg (not_not.mpr rfl)]
  have hcapacity :=
    @outputCapacity_eq Unit config input ⟨config, 1, [()], 4294967294⟩ rfl hchannels.symm hwhole
  have hframes : ([()] ++ input).length / 1 = 4294967298 := by
    rw [Nat.div_one, List.length_append, hlength, List.length_singleton]
  have hlast : 2 ^ 64 ≤ (4294967298 - 1) * config.outputRate.toNat + 1 := by
    rw [hrate]
    decide
  have hnever := @writeFrames_never Unit (fun _ _ _ => ()) config (by omega) 4294967298 (by decide)
    hlast (2 ^ 64)
    ⟨config, 1, [()] ++ input, 4294967294⟩ [()] rfl hframes (show 4294967294 < 2 ^ 64 by decide)
  rw [StreamingLinearAudioResampler.processInto]
  dsimp only
  rw [hvalid, hcapacity, if_pos haccepts]
  dsimp only
  rw [hnever]
  -- also where one of the vectors cannot grow
  cases reserve [()] (config.capacity input) with
  | none => rfl
  | some _ =>
    cases reserve [()] input.length with
    | none => rfl
    | some _ => rfl

theorem second_call_never (hlength : input.length = 4294967297) :
    (∃ r, StreamingLinearAudioResampler.new ⟨4294967294, 4294967295, 1⟩ = .ok r ∧
        exec (linearStep fun _ _ _ => ()) (r, []) [[()], input] = none) ∧
      ∀ call ∈ [[()], input], AudioResamplerConfig.accepts ⟨4294967294, 4294967295, 1⟩ call =
        true := by
  have haccepts : AudioResamplerConfig.accepts ⟨4294967294, 4294967295, 1⟩ input = true := by
    rw [AudioResamplerConfig.accepts, hlength]
    decide
  refine ⟨⟨⟨⟨4294967294, 4294967295, 1⟩, 1, [], 0⟩, rfl, ?_⟩, ?_⟩
  · have hfirst : linearStep (fun _ _ _ => ()) (⟨⟨4294967294, 4294967295, 1⟩, 1, [], 0⟩, []) [()] =
        some (⟨⟨4294967294, 4294967295, 1⟩, 1, [()], 4294967294⟩, [()]) := by
      decide +kernel
    rw [exec, hfirst]
    dsimp only
    rw [exec, linearStep, processInto_never hlength rfl rfl haccepts]
    rfl
  · intro call hcall
    rcases List.mem_cons.mp hcall with rfl | hcall
    · decide
    · rw [List.mem_singleton.mp hcall]
      exact haccepts

/-- A call that is taken panics where its capacity cannot be reserved. -/
theorem processInto_panics {lerp : α → α → ℕ → α} {input output : List α}
    {r : StreamingLinearAudioResampler α} (hr : r.config = config)
    (hchannels : r.channels = config.channels.toNat) (haccepts : config.accepts input = true)
    (hlarge : maxSamples < output.length + config.capacity input) :
    r.processInto lerp input output = none := by
  have hwhole : input.length % config.channels.toNat = 0 := by
    rw [AudioResamplerConfig.accepts, decide_eq_true_eq] at haccepts
    exact haccepts.1
  have hvalid : validateInput input r.channels = .ok () := by
    rw [validateInput, hchannels, if_neg (not_not.mpr hwhole)]
  rw [StreamingLinearAudioResampler.processInto, hvalid, outputCapacity_eq hr hchannels hwhole,
    if_pos haccepts]
  simp only [reserve, if_neg (not_le.mpr hlarge)]
  rfl

theorem first_call_panics (hlength : input.length = 8194 * 65535) :
    (∃ r, StreamingLinearAudioResampler.new ⟨1, 4294967295, 65535⟩ = .ok r ∧
        exec (linearStep fun _ _ _ => ()) (r, []) [input] = none) ∧
      AudioResamplerConfig.accepts ⟨1, 4294967295, 65535⟩ input = true := by
  have haccepts : AudioResamplerConfig.accepts ⟨1, 4294967295, 65535⟩ input = true := by
    rw [AudioResamplerConfig.accepts, hlength]
    decide
  refine ⟨⟨⟨⟨1, 4294967295, 65535⟩, 65535, [], 0⟩, rfl, ?_⟩, haccepts⟩
  have hlarge : maxSamples < ([] : List Unit).length +
      AudioResamplerConfig.capacity ⟨1, 4294967295, 65535⟩ input := by
    rw [AudioResamplerConfig.capacity, hlength]
    decide
  have hcall : StreamingLinearAudioResampler.processInto (fun _ _ _ => ())
      ⟨⟨1, 4294967295, 65535⟩, 65535, [], 0⟩ input [] = none :=
    processInto_panics rfl rfl haccepts hlarge
  rw [exec, linearStep, hcall]
  rfl

/-- Calls that are taken and do not return: 8194 frames of 65535 channels, for which no vector is
long enough; and one frame followed by `2 ^ 32 + 1` of them at once, where the position wraps
around. -/
theorem calls_too_large : (let config : AudioResamplerConfig := ⟨1, 4294967295, 65535⟩
      let call : List Unit := List.replicate (8194 * 65535) ()
      (∃ r, StreamingLinearAudioResampler.new config = .ok r ∧
        exec (linearStep fun _ _ _ => ()) (r, []) [call] = none) ∧
        config.accepts call = true) ∧
    let config : AudioResamplerConfig := ⟨4294967294, 4294967295, 1⟩
    let calls : List (List Unit) := [[()], List.replicate 4294967297 ()]
    (∃ r, StreamingLinearAudioResampler.new config = .ok r ∧
      exec (linearStep fun _ _ _ => ()) (r, []) calls = none) ∧
      ∀ call ∈ calls, config.accepts call = true :=
  ⟨first_call_panics List.length_replicate, second_call_never List.length_replicate⟩

end Audio
end BgDesk
