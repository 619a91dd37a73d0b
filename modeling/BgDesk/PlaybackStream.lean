import BgDesk.PlaybackBuffer

/-!
# The discards of a playback stream

The decoder and the callback of one stream, over the buffer of `PlaybackBuffer.lean`: `append_pcm`
takes the lock once for the samples, and a second time when the statistics have chosen a mark;
`write_output` tries to take it once.

* `State`, `State.step` — the two sides, with the time of the last evaluation in the whole process;
* `State.Whole`, `State.Smooth`, `State.Bounded`, `State.Total` — frames, transitions, amounts, and
  no panic;
* `WholeShrinks`, `discards_contract` — when a stream keeps its frames, and what it keeps in any
  case.
-/

namespace BgDesk
namespace Playback

variable {F : Type}

/-- What a stream is built with. -/
structure StreamConfig where
  sampleRate : UInt32
  channels : UInt16
  deriving DecidableEq

/-- The two sides of a stream, and what has happened so far, which the code does not keep. -/
structure State (F : Type) where
  audio : AudioBuffer F
  /-- the static of `try_shrink` -/
  tms : ℤ
  /-- the mark with which `try_shrink` is about to take the lock -/
  mark : Option ℕ
  writer : AudioPlaybackWriter F
  /-- all samples that were appended -/
  appended : List F
  /-- how many samples each discard took out -/
  discards : List ℕ
  /-- the fill levels since the last evaluation -/
  recorded : List ℕ
  /-- the fill levels that the last evaluation was about -/
  evaluated : List ℕ
  /-- the number of samples discarded since the last read -/
  dropped : ℕ
  /-- the frames that `process_frame` was given -/
  handed : List (List F)
  deriving DecidableEq

inductive Act (F : Type) where
  /-- `append_pcm`, up to the second lock -/
  | append : (buffer : List F) → (now : ℤ) → Act F
  /-- the second lock of `append_pcm` -/
  | shrink : Act F
  /-- `write_output` -/
  | write : (outputLen : ℕ) → TryLock → Act F
  /-- another stream of the process evaluates -/
  | elsewhere : (tms : ℤ) → Act F
  deriving DecidableEq

namespace State

/-- `build_output_stream`, with the buffer of a new handler. -/
def start [Zero F] (config : StreamConfig) (tms : ℤ) : Except AudioPlaybackError (State F) := do
  let audio := AudioBuffer.default.resize config.sampleRate.toNat config.channels.toNat
  let writer ← AudioPlaybackWriter.new ⟨config.sampleRate.toNat, config.channels.toNat⟩ audio
  .ok {
    audio, tms, writer
    mark := none, appended := [], discards := [], recorded := [], evaluated := [], dropped :=
      0, handed := [] }

def channels (s : State F) : ℕ := s.writer.recovery.channels

/-- The decoder appends whole frames, and does one thing at a time; the callback is called for whole
frames. -/
def Enabled (s : State F) : Act F → Prop
  | .append buffer _ => s.mark = none ∧ s.channels ∣ buffer.length ∧ buffer.length < 2 ^ 61
  | .shrink => s.mark.isSome
  | .write outputLen _ => s.channels ∣ outputLen
  | .elsewhere _ => True

instance (s : State F) : ∀ a, Decidable (s.Enabled a)
  | .append _ _ => inferInstanceAs (Decidable (_ ∧ _ ∧ _))
  | .shrink => inferInstanceAs (Decidable (_ = true))
  | .write _ _ => inferInstanceAs (Decidable (_ ∣ _))
  | .elsewhere _ => isTrue trivial

def append (s : State F) (buffer : List F) (now : ℤ) : Option (State F) := do
  let (audio, occupied, discarded) ← s.audio.appendPcm2 buffer
  let (audio, tms, mark) ← audio.tryShrink s.tms occupied now
  some { s with
    audio, tms, mark
    appended := s.appended ++ buffer
    discards := s.discards ++ [discarded]
    recorded := if due s.tms now then [] else s.recorded ++ [occupied]
    evaluated := if due s.tms now then s.recorded ++ [occupied] else s.evaluated
    dropped := s.dropped + discarded }

def shrink (s : State F) : Option (State F) := do
  let audio ← s.audio.shrink (← s.mark)
  let discarded := s.audio.ring.occupiedLen - audio.ring.occupiedLen
  some { s with
    audio
    mark := none
    discards := s.discards ++ [discarded]
    dropped := s.dropped + discarded }

section

variable [Zero F] [One F] [Add F] [Sub F] [Mul F] [Div F] [NatCast F]

def write (s : State F) (outputLen : ℕ) (lock : TryLock) : Option (State F) := do
  let (audio, writer, handed, _) ← s.writer.writeOutput s.audio lock outputLen
  some { s with
    audio, writer
    dropped := if s.writer.Reads lock then 0 else s.dropped
    handed := s.handed ++ handed }

/-- One call, which returns nothing where it panics. -/
def call (s : State F) : Act F → Option (State F)
  | .append buffer now => s.append buffer now
  | .shrink => s.shrink
  | .write outputLen lock => s.write outputLen lock
  | .elsewhere tms => some { s with tms }

def step (s : State F) (a : Act F) : Option (State F) := if s.Enabled a then s.call a else none

end

/-! ### What one call does -/

/-- How full the ring is when the samples are in. -/
def levelAfter (s : State F) (buffer : List F) : ℕ :=
  (s.audio.ring.pushSliceOverwrite buffer).occupiedLen

/-- `append_pcm` puts the samples in, and discards at the front what no longer fits. -/
structure Appended (s : State F) (buffer : List F) (now : ℤ) (s' : State F) : Prop where
  eq : ∃ histogram tms mark, s' = { s with
    audio := { s.audio with
      ring := s.audio.ring.pushSliceOverwrite buffer
      histogram
      generation := if s.audio.ring.capacity < s.audio.ring.occupiedLen +
        buffer.length then s.audio.generation + 1
        else s.audio.generation }
    tms, mark
    appended := s.appended ++ buffer
    discards := s.discards ++ [s.audio.ring.occupiedLen + buffer.length - s.audio.ring.capacity]
    recorded := if due s.tms now then [] else s.recorded ++ [s.levelAfter buffer]
    evaluated := if due s.tms now then s.recorded ++ [s.levelAfter buffer] else s.evaluated
    dropped := s.dropped + (s.audio.ring.occupiedLen + buffer.length - s.audio.ring.capacity) }
  fit : s'.audio.Fit
  quiet : due s.tms now = false → s'.mark = none ∧
    ∀ i, i = s.audio.interval (s.levelAfter buffer) ∨ Seen s.audio.histogram i →
      Seen s'.audio.histogram i
  mark : ∀ m, s'.mark = some m → Mark m ∧
    ∀ i, i = s.audio.interval (s.levelAfter buffer) ∨ Seen s.audio.histogram i → 3 * m ≤ 8 * i

variable {s : State F}

theorem append_returns {buffer : List F} {now : ℤ} (hs : s.audio.Fit)
    (hlen : buffer.length < 2 ^ 61) : Returns (s.append buffer now) (s.Appended buffer now) := by
  have hoccupied := hs.occupiedLen_le
  have hsmall := hs.perSecond_lt
  rw [append, AudioBuffer.appendPcm2_eq (by omega)]
  simp only [Option.bind_eq_bind, Option.bind_some]
  generalize haudio : ({ s.audio with
    ring := s.audio.ring.pushSliceOverwrite buffer
    generation := if s.audio.ring.capacity < s.audio.ring.occupiedLen +
      buffer.length then s.audio.generation + 1
      else s.audio.generation } : AudioBuffer F) = audio
  have hfit : audio.Fit := by
    subst haudio
    exact ⟨hs.perSecond_pos, hs.perSecond_lt, hs.capacity, hs.intervals⟩
  have hfits : (s.audio.ring.pushSliceOverwrite buffer).occupiedLen ≤ audio.ring.capacity := by
    subst haudio
    exact (s.audio.ring.pushSliceOverwrite buffer).fits
  refine (AudioBuffer.tryShrink_returns hfit hfits).bind ?_
  rintro ⟨audio', tms, mark⟩ ⟨⟨histogram, rfl⟩, hfit', hquiet, hmark⟩
  subst haudio
  exact returns_pure ⟨⟨histogram, tms, mark, rfl⟩, hfit', hquiet, hmark⟩

/-- The second lock of `append_pcm` takes out the amount of the mark, or nothing. -/
structure Shrunk (s s' : State F) (removed : ℕ) : Prop where
  eq : s' = { s with
    audio := { s.audio with
      ring := s.audio.ring.skip removed
      generation := if 0 < removed then s.audio.generation + 1 else s.audio.generation }
    mark := none
    discards := s.discards ++ [removed]
    dropped := s.dropped + removed }
  amount : 0 < removed → 3 * removed < s.audio.ring.occupiedLen ∧
    ∀ m, s.mark = some m → removed = shrinkSkip s.audio.ring.capacity m
  removes : ∀ m, s.mark = some m → shrinkSkip s.audio.ring.capacity m * 3 <
    s.audio.ring.occupiedLen →
    0 < shrinkSkip s.audio.ring.capacity m → 0 < removed

theorem shrink_returns {mark : ℕ} (hs : s.audio.Fit) (hmark : s.mark = some mark) (h : Mark mark) :
    Returns s.shrink fun s' => ∃ removed, s.Shrunk s' removed := by
  rw [shrink, hmark]
  simp only [Option.bind_eq_bind, Option.bind_some, AudioBuffer.shrink_eq hs h]
  split
  · rename_i hskip
    have hremoved : s.audio.ring.occupiedLen -
      (s.audio.ring.skip (shrinkSkip s.audio.ring.capacity mark)).occupiedLen =
        shrinkSkip s.audio.ring.capacity mark := by
      rw [HeapRb.skip_occupiedLen]
      omega
    refine returns_pure ⟨shrinkSkip s.audio.ring.capacity mark, ?_, fun _ => ⟨by omega, ?_⟩,
      fun _ _ _ _ => hskip.2⟩
    · simp only [hremoved, if_pos hskip.2]
    · rintro m hm
      rw [Option.some.inj (hmark.symm.trans hm)]
  · rename_i hskip
    refine returns_pure ⟨0, ?_, nofun, ?_⟩
    · simp only [Nat.sub_self, Nat.lt_irrefl, if_false]
      rfl
    · intro m hm hless hpos
      obtain rfl := Option.some.inj (hmark.symm.trans hm)
      exact absurd ⟨hless, hpos⟩ hskip

section

variable [Zero F] [One F] [Add F] [Sub F] [Mul F] [Div F] [NatCast F]

/-- `write_output` takes whole frames out of the ring, and hands them on. -/
structure Written (s : State F) (lock : TryLock) (taken : ℕ) (s' : State F) : Prop where
  eq : ∃ writer : AudioPlaybackWriter F, s' = { s with
    audio := { s.audio with ring := s.audio.ring.skip taken }
    writer
    dropped := if s.writer.Reads lock then 0 else s.dropped
    handed := s.handed ++ frames s.channels (s.audio.ring.contents.take taken) }
  dvd : s.channels ∣ taken
  fit : s'.writer.Fit s.audio
  channels : s'.channels = s.channels
  observed : s'.writer.observedDiscontinuityGeneration =
    if s.writer.Reads lock then s.audio.generation else s.writer.observedDiscontinuityGeneration

theorem write_returns {s : State F} {outputLen : ℕ} {lock : TryLock} (hs : s.writer.Fit s.audio) :
    Returns (s.write outputLen lock) fun s' => ∃ taken, s.Written lock taken s' := by
  refine (AudioPlaybackWriter.writeOutput_returns hs).bind ?_
  rintro ⟨audio, writer, handed, output⟩ ⟨hbuffer, hhanded, hfit, hchannels, hobserved⟩
  simp only at hbuffer hhanded
  subst hbuffer hhanded
  exact returns_pure ⟨_, ⟨writer, rfl⟩, s.writer.dvd_taken .., hfit, hchannels, hobserved⟩

end

/-! ### What holds all the time -/

/-- What holds in every state of a stream with so many channels and samples of a second. -/
structure Sane (channels perSecond : ℕ) (s : State F) : Prop where
  channels : s.channels = channels
  perSecond : s.audio.perSecond = perSecond
  audio : s.audio.Fit
  writer : s.writer.Fit s.audio
  mark : ∀ m, s.mark = some m → Mark m ∧ ∀ level ∈ s.evaluated, 3 * m ≤ 8 * s.audio.interval level
  recorded : ∀ level ∈ s.recorded, Seen s.audio.histogram (s.audio.interval level)
  observed : s.writer.observedDiscontinuityGeneration ≤ s.audio.generation
  /-- the reader can tell that there has been a discard -/
  dropped : 0 < s.dropped → s.writer.observedDiscontinuityGeneration < s.audio.generation

section

variable {channels perSecond : ℕ}

variable {s s' : State F}

theorem sane_append {buffer : List F} {now : ℤ} (hs : s.Sane channels perSecond)
    (h : s.Appended buffer now s') : s'.Sane channels perSecond := by
  obtain ⟨⟨histogram, tms, mark, rfl⟩, hfit, hquiet, hmark⟩ := h
  have hseen : ∀ level ∈ s.recorded ++ [s.levelAfter buffer],
      s.audio.interval level = s.audio.interval (s.levelAfter buffer) ∨
        Seen s.audio.histogram (s.audio.interval level) := by
    intro level hlevel
    obtain hlevel | hlevel := List.mem_append.mp hlevel
    · exact .inr (hs.recorded level hlevel)
    · exact .inl (by rw [List.mem_singleton.mp hlevel])
  have hobserved := hs.observed
  have hdropped := hs.dropped
  refine ⟨hs.channels, hs.perSecond, hfit, ⟨hs.writer.channels_pos, hs.writer.bufferedInput,
    hs.writer.recovery⟩,
    ?_, ?_, ?_, ?_⟩
  · intro m hm
    refine ⟨(hmark m hm).1, ?_⟩
    cases hdue : due s.tms now with
    | false => exact absurd (hm.symm.trans (hquiet hdue).1) nofun
    | true =>
      simp only [if_true]
      exact fun level hlevel => (hmark m hm).2 _ (hseen level hlevel)
  · cases hdue : due s.tms now with
    | false =>
      simp only [Bool.false_eq_true, if_false]
      exact fun level hlevel => (hquiet hdue).2 _ (hseen level hlevel)
    | true =>
      simp only [if_true]
      exact nofun
  · simp only
    split <;> omega
  · intro hpos
    simp only at hpos ⊢
    split
    · omega
    · exact hdropped (by omega)

theorem sane_shrink {removed : ℕ} (hs : s.Sane channels perSecond) (h : s.Shrunk s' removed) :
    s'.Sane channels perSecond := by
  obtain ⟨rfl, -, -⟩ := h
  have hobserved := hs.observed
  have hdiscards := hs.dropped
  refine ⟨hs.channels, hs.perSecond, ⟨hs.audio.perSecond_pos, hs.audio.perSecond_lt,
    hs.audio.capacity, hs.audio.intervals⟩,
    ⟨hs.writer.channels_pos, hs.writer.bufferedInput, hs.writer.recovery⟩, nofun,
      hs.recorded, ?_, ?_⟩
  · simp only
    split <;> omega
  · intro hpos
    simp only at hpos ⊢
    split
    · omega
    · exact hdiscards (by omega)

theorem sane_write {lock : TryLock} {taken : ℕ} (hs : s.Sane channels perSecond)
    (h : s.Written lock taken s') : s'.Sane channels perSecond := by
  obtain ⟨⟨writer, rfl⟩, -, hfit, hchannels, hobserved⟩ := h
  simp only at hobserved
  refine ⟨hchannels.trans hs.channels, hs.perSecond,
    ⟨hs.audio.perSecond_pos, hs.audio.perSecond_lt, hs.audio.capacity, hs.audio.intervals⟩,
    ⟨hfit.channels_pos, hfit.bufferedInput, hfit.recovery⟩, hs.mark, hs.recorded, ?_, ?_⟩
  · simp only [hobserved]
    split
    · exact le_rfl
    · exact hs.observed
  · simp only [hobserved]
    split
    · exact nofun
    · exact hs.dropped

/-- The buffer of a stream holds three seconds of it. -/
theorem resize_default (sampleRate channels : ℕ) :
    (AudioBuffer.default.resize sampleRate channels : AudioBuffer F) = {
      ring := HeapRb.new (3 * (sampleRate * channels))
      perSecond := sampleRate * channels
      histogram := List.replicate 30 0
      generation := 0 } := by
  have hcapacity : sampleRate * channels * AUDIO_BUFFER_MS / 1000 = 3 *
      (sampleRate * channels) := by
    rw [AUDIO_BUFFER_MS]
    omega
  rw [AudioBuffer.resize, hcapacity]
  split
  · rfl
  · rename_i hsame
    -- the buffer is not replaced if it has the capacity already
    have hdefault : 3 * (sampleRate * channels) = 3 * (48000 * 2) := not_not.mp hsame
    have hrate : sampleRate * channels = 48000 * 2 := by omega
    rw [hrate]
    rfl

/-- The state that a stream starts in. -/
theorem start_ok [Zero F] {config : StreamConfig} {tms : ℤ} (h : start config tms = .ok s) :
    200 ≤ config.sampleRate.toNat ∧ 0 < config.channels.toNat ∧ s.channels = config.channels.toNat ∧
      s.audio = AudioBuffer.default.resize config.sampleRate.toNat config.channels.toNat ∧
        s.writer.Fit s.audio ∧
      s.writer.observedDiscontinuityGeneration = s.audio.generation ∧ s.tms = tms ∧ s.mark = none ∧
        s.appended = [] ∧
      s.discards = [] ∧ s.recorded = [] ∧ s.evaluated = [] ∧ s.dropped = 0 ∧ s.handed = [] := by
  rw [start, AudioPlaybackWriter.new] at h
  cases hr : (AudioPlaybackRecovery.new ⟨config.sampleRate.toNat, config.channels.toNat⟩ :
      Except AudioPlaybackError (AudioPlaybackRecovery F)) with
  | error e =>
    rw [hr] at h
    cases h
  | ok r =>
    rw [hr] at h
    obtain rfl := Except.ok.inj h
    obtain ⟨hrate, hpos, hchannels, hfit⟩ := AudioPlaybackRecovery.new_ok hr
    exact ⟨hrate, hpos, hchannels, rfl, ⟨hchannels ▸ hpos, List.length_replicate, hfit⟩, rfl, rfl,
      rfl, rfl, rfl, rfl, rfl, rfl, rfl⟩

theorem sane_start [Zero F] {config : StreamConfig} {tms : ℤ} (h : start config tms = .ok s) :
    s.Sane config.channels.toNat (config.sampleRate.toNat * config.channels.toNat) := by
  obtain ⟨hrate, hpos, hchannels, haudio, hwriter, hobserved, -, hmark, -, -, hrecorded, -,
      hdropped, -⟩ := start_ok h
  have hsmall : config.sampleRate.toNat * config.channels.toNat < 2 ^ 32 * 2 ^ 16 :=
    Nat.mul_lt_mul'' config.sampleRate.toNat_lt config.channels.toNat_lt
  refine ⟨hchannels, ?_, ?_, hwriter, by
    simp [hmark], by simp [hrecorded], Nat.le_of_eq hobserved, by simp [hdropped]⟩
  · rw [haudio, resize_default]
  · rw [haudio, resize_default]
    exact ⟨Nat.mul_pos (by omega) hpos, hsmall, rfl, List.length_replicate⟩

variable [Zero F] [One F] [Add F] [Sub F] [Mul F] [Div F] [NatCast F]

/-- **Every call returns**, and keeps what holds all the time. -/
theorem sane_step {a : Act F} (hs : s.Sane channels perSecond) (ha : s.Enabled a) :
    Returns (s.step a) (Sane channels perSecond) := by
  rw [step, if_pos ha]
  cases a with
  | append buffer now => exact (append_returns hs.audio ha.2.2).mono fun _ h => sane_append hs h
  | shrink =>
    obtain ⟨mark, hmark⟩ := Option.isSome_iff_exists.mp ha
    exact (shrink_returns hs.audio hmark (hs.mark mark hmark).1).mono fun _ ⟨_, h⟩ =>
      sane_shrink hs h
  | write outputLen lock => exact (write_returns hs.writer).mono fun _ ⟨_, h⟩ => sane_write hs h
  | elsewhere tms =>
    exact returns_pure ⟨hs.channels, hs.perSecond, hs.audio, hs.writer, hs.mark, hs.recorded,
      hs.observed, hs.dropped⟩

theorem enabled_of_step {a : Act F} (h : s.step a = some s') : s.Enabled a := by
  by_contra hdisabled
  rw [step, if_neg hdisabled] at h
  cases h

theorem sane_exec {as : List (Act F)} (hs : s.Sane channels perSecond)
    (h : exec step s as = some s') : s'.Sane channels perSecond := by
  refine exec_invariant (I := Sane channels perSecond) ?_ hs h
  intro s a s' hs h
  obtain ⟨s₁, h₁, hs₁⟩ := sane_step hs (enabled_of_step h)
  rwa [← Option.some.inj (h.symm.trans h₁)] at hs₁

end

/-! ### Frames, transitions, amounts -/

/-- Every discard takes out whole frames, and what is handed on are whole frames in the order in
which they were appended. -/
structure Whole (s : State F) : Prop where
  discards : ∀ n ∈ s.discards, s.channels ∣ n
  handed : s.handed.Sublist (frames s.channels s.appended)

/-- A read that comes after a discard begins the transition anew. -/
def Smooth (s : State F) : Prop :=
  ∀ lock requested audio writer samples, s.writer.Reads lock → 0 < s.dropped →
    s.writer.storeReady.readBuffer s.audio lock requested = some (audio, writer, samples) →
      s.writer.Restarted writer

/-- A shrink takes out at most two thirds of every fill level that the evaluation was about, and one
sample, and less than a third of what is there. -/
def Bounded (s : State F) : Prop :=
  ∀ s', s.shrink = some s' →
    (∀ level ∈ s.evaluated, 3 * (s.audio.ring.occupiedLen - s'.audio.ring.occupiedLen) ≤ 2 *
      level + 3) ∧
    (s'.audio.ring.occupiedLen < s.audio.ring.occupiedLen →
      3 * (s.audio.ring.occupiedLen - s'.audio.ring.occupiedLen) < s.audio.ring.occupiedLen)

section

variable {channels perSecond : ℕ}

theorem Sane.smooth {s : State F} (hs : s.Sane channels perSecond) : s.Smooth := by
  intro lock requested audio writer samples hreads hdropped hread
  have hready : s.writer.storeReady.Fit s.audio :=
    ⟨hs.writer.channels_pos, hs.writer.bufferedInput, hs.writer.recovery⟩
  have hreturns : Returns (s.writer.storeReady.readBuffer s.audio lock requested) _ :=
    AudioPlaybackWriter.readBuffer_returns hready
  obtain ⟨result, hresult, h⟩ := hreturns
  obtain rfl := Option.some.inj (hread.symm.trans hresult)
  exact h.restarted hreads (Nat.ne_of_gt (hs.dropped hdropped))

theorem Sane.bounded {s : State F} (hs : s.Sane channels perSecond) : s.Bounded := by
  intro s' h
  obtain ⟨mark, hmark, -⟩ := Option.bind_eq_some_iff.mp h
  obtain ⟨hchoice, hlevels⟩ := hs.mark mark hmark
  obtain ⟨s₁, h₁, removed, hshrunk⟩ := shrink_returns hs.audio hmark hchoice
  obtain rfl := Option.some.inj (h.symm.trans h₁)
  obtain ⟨rfl, hamount, -⟩ := hshrunk
  have hremoved : s.audio.ring.occupiedLen - (s.audio.ring.skip removed).occupiedLen ≤ removed := by
    rw [HeapRb.skip_occupiedLen]
    omega
  simp only
  refine ⟨?_, ?_⟩
  · intro level hlevel
    obtain rfl | hpos := Nat.eq_zero_or_pos removed
    · omega
    · have hskip := hs.audio.shrinkSkip_le (hlevels level hlevel)
      rw [← (hamount hpos).2 mark hmark] at hskip
      omega
  · intro hless
    have hpos : 0 < removed := by
      rw [HeapRb.skip_occupiedLen] at hless
      omega
    have := (hamount hpos).1
    omega

end

/-! ### Whole frames -/

/-- What is left in the ring is the end of what was appended, from a frame on. -/
structure Aligned (s : State F) : Prop where
  discards : ∀ n ∈ s.discards, s.channels ∣ n
  ring : ∃ before, s.appended = before ++ s.audio.ring.contents ∧ s.channels ∣ before.length ∧
    s.channels ∣ s.audio.ring.occupiedLen ∧ s.handed.Sublist (frames s.channels before)

theorem Aligned.whole (hs : s.Aligned) (hpos : 0 < s.channels) : s.Whole := by
  obtain ⟨before, happended, hbefore, -, hhanded⟩ := hs.ring
  refine ⟨hs.discards, ?_⟩
  rw [happended, frames_append hpos hbefore]
  exact hhanded.trans (List.sublist_append_left ..)

/-- Where whole frames leave the front of a list, frames may be handed on from there. -/
theorem sublist_frames_take {n k : ℕ} {handed : List (List F)} {before l : List F} (hn : 0 < n)
    (hbefore : n ∣ before.length) (h : handed.Sublist (frames n before)) :
    handed.Sublist (frames n (before ++ l.take k)) ∧
      (handed ++ frames n (l.take k)).Sublist (frames n (before ++ l.take k)) := by
  rw [frames_append hn hbefore]
  exact ⟨h.trans (List.sublist_append_left ..), h.append (List.Sublist.refl _)⟩

theorem aligned_append {s' : State F} {buffer : List F} {now : ℤ} (hs : s.Aligned)
    (hpos : 0 < s.channels) (hcapacity : s.channels ∣ s.audio.ring.capacity)
    (hbuffer : s.channels ∣ buffer.length) (h : s.Appended buffer now s') : s'.Aligned := by
  obtain ⟨⟨histogram, tms, mark, rfl⟩, -⟩ := h
  obtain ⟨before, happended, hbefore, hring, hhanded⟩ := hs.ring
  have hdiscard : s.channels ∣ s.audio.ring.occupiedLen + buffer.length - s.audio.ring.capacity :=
    Nat.dvd_sub (Nat.dvd_add hring hbuffer) hcapacity
  have hboth : s.channels ∣ (s.audio.ring.contents ++ buffer).length := by
    rw [List.length_append]
    exact Nat.dvd_add hring hbuffer
  refine ⟨?_, before ++ (s.audio.ring.contents ++ buffer).take
    (s.audio.ring.occupiedLen + buffer.length - s.audio.ring.capacity), ?_, ?_, ?_,
    (sublist_frames_take hpos hbefore hhanded).1⟩
  · intro n hn
    obtain hn | hn := List.mem_append.mp hn
    · exact hs.discards n hn
    · exact List.mem_singleton.mp hn ▸ hdiscard
  · change s.appended ++ buffer = _ ++ List.drop _ _
    rw [List.append_assoc, List.take_append_drop, happended, List.append_assoc]
  · change s.channels ∣ _
    rw [List.length_append, List.length_take, Nat.min_def]
    split
    · exact Nat.dvd_add hbefore hdiscard
    · exact Nat.dvd_add hbefore hboth
  · change s.channels ∣ (List.drop _ _).length
    rw [List.length_drop]
    exact Nat.dvd_sub hboth hdiscard

/-- Whole frames leave the front of the ring. -/
theorem Aligned.take {s' : State F} {removed : ℕ} (hs : s.Aligned) (hpos : 0 < s.channels)
    (hdvd : s.channels ∣ removed)
    (hchannels : s'.channels = s.channels) (happended : s'.appended = s.appended)
    (hring : s'.audio.ring.contents = s.audio.ring.contents.drop removed)
    (hdiscards : ∀ n ∈ s'.discards, n ∈ s.discards ∨ n = removed)
    (hhanded : s'.handed = s.handed ∨ s'.handed = s.handed ++
    frames s.channels (s.audio.ring.contents.take removed)) : s'.Aligned := by
  obtain ⟨before, hbefore, hwhole, hoccupied, hsublist⟩ := hs.ring
  have hsublists := sublist_frames_take (l := s.audio.ring.contents) (k := removed)
    hpos hwhole hsublist
  refine ⟨?_, before ++ s.audio.ring.contents.take removed, ?_, ?_, ?_, ?_⟩
  · intro n hn
    rw [hchannels]
    obtain hn | rfl := hdiscards n hn
    · exact hs.discards n hn
    · exact hdvd
  · rw [happended, hring, List.append_assoc, List.take_append_drop, hbefore]
  · rw [hchannels, List.length_append, List.length_take, Nat.min_def]
    split
    · exact Nat.dvd_add hwhole hdvd
    · exact Nat.dvd_add hwhole hoccupied
  · rw [hchannels, HeapRb.occupiedLen, hring, List.length_drop]
    exact Nat.dvd_sub hoccupied hdvd
  · rw [hchannels]
    obtain hhanded | hhanded := hhanded
    · exact hhanded ▸ hsublists.1
    · exact hhanded ▸ hsublists.2

end State

/-! ## When a stream keeps its frames -/

/-- For every mark, the amount of a shrink is a whole number of frames. -/
def WholeShrinks (config : StreamConfig) : Prop :=
  ∀ mark < 30, Mark mark →
    config.channels.toNat ∣ (config.sampleRate.toNat * config.channels.toNat * mark / 40 + 1) / 2 *
      2

instance (config : StreamConfig) : Decidable (WholeShrinks config) :=
  inferInstanceAs (Decidable (∀ _ < 30, _ → _))

/-- Mono and stereo keep their frames: what a shrink takes out is even. -/
theorem wholeShrinks_of_stereo {config : StreamConfig}
    (h : config.channels = 1 ∨ config.channels = 2) : WholeShrinks config := by
  intro mark _ _
  obtain h | h := h
  · rw [h]
    exact Nat.one_dvd _
  · rw [h]
    exact Nat.dvd_mul_left ..

namespace State

section

variable [Zero F] [One F] [Add F] [Sub F] [Mul F] [Div F] [NatCast F]

theorem aligned_step {config : StreamConfig} {s s' : State F} {a : Act F}
    (hconfig : WholeShrinks config)
    (hsane : s.Sane config.channels.toNat (config.sampleRate.toNat * config.channels.toNat))
    (hs : s.Aligned) (h : s.step a = some s') : s'.Aligned := by
  have ha := enabled_of_step h
  have hpos : 0 < s.channels := hsane.writer.channels_pos
  rw [step, if_pos ha] at h
  cases a with
  | append buffer now =>
    have hcapacity : s.channels ∣ s.audio.ring.capacity := by
      rw [hsane.audio.capacity, hsane.perSecond, hsane.channels]
      exact Dvd.dvd.mul_left (Nat.dvd_mul_left ..) _
    have hreturns : Returns (s.append buffer now) _ := append_returns hsane.audio ha.2.2
    obtain ⟨s₁, h₁, happended⟩ := hreturns
    obtain rfl := Option.some.inj (h.symm.trans h₁)
    exact aligned_append hs hpos hcapacity ha.2.1 happended
  | shrink =>
    obtain ⟨mark, hmark⟩ := Option.isSome_iff_exists.mp ha
    have hchoice := (hsane.mark mark hmark).1
    obtain ⟨s₁, h₁, removed, hshrunk⟩ := shrink_returns hsane.audio hmark hchoice
    obtain rfl := Option.some.inj (h.symm.trans h₁)
    obtain ⟨rfl, hamount, -⟩ := hshrunk
    have hdvd : s.channels ∣ removed := by
      obtain rfl | hremoved := Nat.eq_zero_or_pos removed
      · exact Nat.dvd_zero _
      · rw [(hamount hremoved).2 mark hmark, hsane.audio.shrinkSkip_eq, hsane.perSecond,
          hsane.channels]
        exact hconfig mark (by rw [Mark] at hchoice; omega) hchoice
    refine hs.take hpos hdvd rfl rfl rfl ?_ (.inl rfl)
    intro n hn
    exact (List.mem_append.mp hn).imp_right List.mem_singleton.mp
  | write outputLen lock =>
    have hreturns : Returns (s.write outputLen lock) _ := write_returns hsane.writer
    obtain ⟨s₁, h₁, taken, hwritten⟩ := hreturns
    obtain rfl := Option.some.inj (h.symm.trans h₁)
    obtain ⟨⟨writer, rfl⟩, hdvd, -, hchannels, -⟩ := hwritten
    exact hs.take hpos hdvd hchannels rfl rfl (fun n hn => .inl hn) (.inr rfl)
  | elsewhere tms =>
    obtain rfl := Option.some.inj h
    exact ⟨hs.discards, hs.ring⟩

end

/-! ### Every mark can come up -/

/-- The marks that come up where the ring was once in one interval, and twice in another. -/
theorem chooseMark_counted : ∀ low < 30, ∀ high < 30, 6 ≤ low ∧ high = low ∨ low = 2 ∧ high = 6 →
    (chooseMark (counted (counted (counted (List.replicate 30 0) low) high) high)).map Prod.snd =
      some (some (if low = 2 then 4 else low)) := by
  decide +kernel

/-- The ring is filled, and the histogram knows how full it was. -/
structure Filled (channels perSecond level : ℕ) (histogram : List ℕ) (tms : ℤ) (s : State F) :
  Prop where
  sane : s.Sane channels perSecond
  mark : s.mark = none
  level : s.audio.ring.occupiedLen = level
  histogram : s.audio.histogram = histogram
  tms : s.tms = tms

section

variable {channels perSecond level : ℕ} {histogram : List ℕ} {tms now : ℤ} {s s' : State F}
  {buffer : List F}

/-- Samples that fit in are put in, and their level is counted. -/
theorem Filled.append (hs : s.Filled channels perSecond level histogram tms)
    (hfits : level + buffer.length ≤ 3 * perSecond) (h : s.append buffer now = some s') :
    s'.audio.ring.occupiedLen = level + buffer.length ∧
      if due tms now then
        ∃ counts, chooseMark (counted histogram (s.audio.interval (level + buffer.length))) =
          some (counts, s'.mark)
      else
        s'.mark = none ∧ s'.tms = (if tms = 0 then now else tms) ∧
          s'.audio.histogram = counted histogram (s.audio.interval (level + buffer.length)) := by
  obtain ⟨hsane, hmark, rfl, rfl, rfl⟩ := hs
  have hcapacity : s.audio.ring.capacity = 3 * perSecond := by
    rw [hsane.audio.capacity, hsane.perSecond]
  have hsmall := hsane.audio.perSecond_lt
  rw [hsane.perSecond] at hsmall
  have hlevel : (s.audio.ring.pushSliceOverwrite buffer).occupiedLen = s.audio.ring.occupiedLen +
      buffer.length := by
    rw [HeapRb.pushSliceOverwrite_occupiedLen]
    omega
  have hfit : AudioBuffer.Fit { s.audio with ring := s.audio.ring.pushSliceOverwrite buffer } :=
    ⟨hsane.audio.perSecond_pos, hsane.audio.perSecond_lt, hsane.audio.capacity,
      hsane.audio.intervals⟩
  have hin : s.audio.ring.occupiedLen + buffer.length ≤
    (s.audio.ring.pushSliceOverwrite buffer).capacity :=
    hcapacity ▸ hfits
  rw [State.append, AudioBuffer.appendPcm2_eq (by omega), if_neg (by omega)] at h
  simp only [Option.bind_eq_bind, Option.bind_some, hlevel, AudioBuffer.tryShrink_eq hfit hin] at h
  split at h
  · rename_i hdue
    obtain ⟨_, hmap, h⟩ := Option.bind_eq_some_iff.mp h
    obtain ⟨⟨counts, mark⟩, hchoice, rfl⟩ := Option.map_eq_some_iff.mp hmap
    obtain rfl := Option.some.inj h
    exact ⟨hlevel, by rw [if_pos hdue]; exact ⟨counts, hchoice⟩⟩
  · rename_i hdue
    obtain rfl := Option.some.inj h
    exact ⟨hlevel, by rw [if_neg hdue]; exact ⟨rfl, rfl, rfl⟩⟩

end

/-- The frames of an interval. -/
theorem interval_frames {b : AudioBuffer F} {sampleRate channels i j : ℕ}
    (hb : b.perSecond = sampleRate * channels) (hpos : 0 < channels) (hi : i < 30)
    (hlow : i * sampleRate ≤ j * 10) (hhigh : j * 10 < (i + 1) * sampleRate) :
    b.interval (j * channels) = i := by
  have hdiv : j * channels * 10 / (sampleRate * channels) = i := by
    rw [Nat.mul_right_comm, Nat.mul_div_mul_right _ _ hpos]
    exact Nat.div_eq_of_lt_le hlow hhigh
  rw [AudioBuffer.interval, hb, hdiv]
  omega

section

variable [Zero F] [One F] [Add F] [Sub F] [Mul F] [Div F] [NatCast F]

variable {s : State F} {tms : ℤ}

/-- Whole frames that fit in, with the interval that they reach. -/
theorem Filled.step_append {channels sampleRate j k i : ℕ} {histogram : List ℕ} (now : ℤ)
    (hs : s.Filled channels (sampleRate * channels) (j * channels) histogram tms) (hi : i < 30)
    (hlow : i * sampleRate ≤ (j + k) * 10) (hhigh : (j + k) * 10 < (i + 1) * sampleRate) :
    ∃ s', s.step (.append (List.replicate (k * channels) 0) now) = some s' ∧
      s'.Sane channels (sampleRate * channels) ∧
      s'.audio.ring.occupiedLen = (j + k) * channels ∧
      if due tms now then ∃ counts, chooseMark (counted histogram i) = some (counts, s'.mark)
      else s'.Filled channels (sampleRate * channels) ((j + k) * channels) (counted histogram i)
        (if tms = 0 then now else tms) := by
  have hpos : 0 < channels := hs.sane.channels ▸ hs.sane.writer.channels_pos
  have hframes : (i + 1) * sampleRate ≤ 30 * sampleRate := Nat.mul_le_mul_right _ hi
  have hfits : (j + k) * channels ≤ 3 * (sampleRate * channels) := by
    rw [← Nat.mul_assoc]
    exact Nat.mul_le_mul_right _ (by omega)
  have hlevel : j * channels + k * channels = (j + k) * channels := (Nat.add_mul ..).symm
  have hsmall := hs.sane.audio.perSecond_lt
  rw [hs.sane.perSecond] at hsmall
  have henabled : s.Enabled (.append (List.replicate (k * channels) 0) now) := by
    refine ⟨hs.mark, ?_, ?_⟩
    · rw [List.length_replicate, hs.sane.channels]
      exact Nat.dvd_mul_left ..
    · rw [List.length_replicate]
      omega
  obtain ⟨s', hs', hsane'⟩ := sane_step hs.sane henabled
  have hcall := hs'
  rw [step, if_pos henabled] at hcall
  obtain ⟨hlevel', hchoice⟩ := hs.append (by rw [List.length_replicate, hlevel]; exact hfits) hcall
  rw [List.length_replicate, hlevel] at hlevel' hchoice
  rw [interval_frames hs.sane.perSecond hpos hi hlow hhigh] at hchoice
  refine ⟨s', hs', hsane', hlevel', ?_⟩
  split at hchoice
  · rename_i hdue
    rw [if_pos hdue]
    exact hchoice
  · rename_i hdue
    rw [if_neg hdue]
    exact ⟨hsane', hchoice.1, hlevel', hchoice.2.2, hchoice.2.1⟩

/-- The fewest frames of the interval. -/
def lowest (sampleRate i : ℕ) : ℕ := (i * sampleRate + 9) / 10

theorem lowest_spec (sampleRate i : ℕ) :
    i * sampleRate ≤ lowest sampleRate i * 10 ∧ lowest sampleRate i * 10 ≤ i * sampleRate + 9 := by
  rw [lowest]
  omega

theorem lowest_mono {sampleRate i j : ℕ} (h : i ≤ j) : lowest sampleRate i ≤ lowest sampleRate j :=
  Nat.div_le_div_right (Nat.add_le_add_right (Nat.mul_le_mul_right _ h) _)

/-- Three appends, which fill the ring to two intervals, and the shrink after them. -/
def shrinkRun (config : StreamConfig) (tms : ℤ) (low high : ℕ) : List (Act F) :=
  let frames := fun count => List.replicate (count * config.channels.toNat) 0
  let now := if tms = 0 then 1 else tms
  [.append (frames (lowest config.sampleRate.toNat low)) now,
    .append (frames (lowest config.sampleRate.toNat high - lowest config.sampleRate.toNat low + 1))
      now,
    .append (frames 1) (now + 12000),
    .shrink]

/-- **Every mark comes up**: there is a run that shrinks by its amount. -/
theorem exec_shrinkRun {config : StreamConfig} {low high : ℕ} (h : start config tms = .ok s)
    (hmarks : 6 ≤ low ∧ low < 30 ∧ high = low ∨ low = 2 ∧ high = 6) :
    ∃ s', exec step s (shrinkRun config tms low high) = some s' ∧
      s'.channels = config.channels.toNat ∧
      (config.sampleRate.toNat * config.channels.toNat * (if low = 2 then 4 else low) / 40 + 1) /
        2 * 2 ∈ s'.discards := by
  obtain ⟨hrate, hpos, -, haudio, -, -, htms, hmark, -⟩ := start_ok h
  have hsane := sane_start h
  rw [shrinkRun]
  generalize config.sampleRate.toNat = rate at *
  generalize config.channels.toNat = channels at *
  generalize hnow : (if tms = 0 then 1 else tms) = now
  have hnow₀ : now ≠ 0 := by
    split at hnow <;> omega
  have hfirst : (if tms = 0 then now else tms) = now := by
    split at hnow
    · rw [if_pos (by assumption)]
    · rwa [if_neg (by assumption)]
  have hquiet : due tms now = false := by
    simp only [due, decide_eq_false_iff_not]
    split at hnow <;> omega
  have hquiet' : due now now = false := by
    simp only [due, decide_eq_false_iff_not]
    omega
  have hdue : due now (now + 12000) = true := by
    simp only [due, decide_eq_true_eq]
    omega
  have hs : s.Filled channels (rate * channels) (0 * channels) (List.replicate 30 0) tms := by
    rw [resize_default] at haudio
    refine ⟨hsane, hmark, ?_, ?_, htms⟩
    · rw [haudio, Nat.zero_mul]
      rfl
    · rw [haudio]
  have hmono := (lowest_mono (by omega) : lowest rate low ≤ lowest rate high)
  have hlow := lowest_spec rate low
  have hhigh := lowest_spec rate high
  have hnextLow : (low + 1) * rate = low * rate + rate := Nat.succ_mul ..
  have hnextHigh : (high + 1) * rate = high * rate + rate := Nat.succ_mul ..
  obtain ⟨s₁, h₁, -, -, hs₁⟩ :=
    hs.step_append now (k := lowest rate low) (i := low) (by omega) (by omega) (by omega)
  rw [hquiet, if_neg Bool.false_ne_true, hfirst] at hs₁
  obtain ⟨s₂, h₂, -, -, hs₂⟩ :=
    hs₁.step_append now (k := lowest rate high - lowest rate low + 1) (i := high) (by omega)
    (by omega) (by omega)
  rw [hquiet', if_neg Bool.false_ne_true, if_neg hnow₀] at hs₂
  obtain ⟨s₃, h₃, hsane₃, hlevel₃, hchoice⟩ :=
    hs₂.step_append (now + 12000) (k := 1) (i := high) (by omega) (by omega) (by omega)
  rw [hdue, if_pos rfl] at hchoice
  obtain ⟨counts, hchoice⟩ := hchoice
  have hmark₃ := chooseMark_counted low (by omega) high (by omega) (by omega)
  rw [hchoice, Option.map_some] at hmark₃
  have hmark₃ : s₃.mark = some (if low = 2 then 4 else low) := Option.some.inj hmark₃
  generalize hm : (if low = 2 then 4 else low) = mark at *
  have hmarkOf : mark ≤ high ∧ (mark = 4 ∨ 6 ≤ mark ∧ mark < 30) := by
    split at hm <;> omega
  -- three times the amount is three fourths of what is there
  have hlevel : rate * channels * mark ≤ s₃.audio.ring.occupiedLen * 10 := by
    have hfull :
        mark * rate ≤ (0 + lowest rate low + (lowest rate high - lowest rate low + 1) + 1) *
          10 := by
      have : mark * rate ≤ high * rate := Nat.mul_le_mul_right _ (by omega)
      omega
    calc
      rate * channels * mark = mark * rate * channels := by rw [Nat.mul_comm, Nat.mul_assoc]
      _ ≤ _ * 10 * channels := Nat.mul_le_mul_right _ hfull
      _ = s₃.audio.ring.occupiedLen * 10 := by rw [hlevel₃, Nat.mul_right_comm]
  have hamount : 200 * 1 * 4 ≤ rate * channels * mark :=
    Nat.mul_le_mul (Nat.mul_le_mul hrate hpos) (by omega)
  have hskip := hsane₃.audio.shrinkSkip_eq mark
  rw [hsane₃.perSecond] at hskip
  obtain ⟨s₄, h₄, removed, hshrunk⟩ := shrink_returns hsane₃.audio hmark₃ (by rw [Mark]; omega)
  have hremoved :=
    (hshrunk.amount (hshrunk.removes mark hmark₃ (by omega) (by omega))).2 mark hmark₃
  have henabled : s₃.Enabled .shrink := by
    rw [Enabled, hmark₃]
    rfl
  have hstep : s₃.step .shrink = some s₄ := by
    rw [step, if_pos henabled]
    exact h₄
  refine ⟨s₄, ?_, ?_, ?_⟩
  · exact exec_cons.mpr ⟨s₁, h₁, exec_cons.mpr
      ⟨s₂, h₂, exec_cons.mpr ⟨s₃, h₃, exec_cons.mpr ⟨s₄, hstep, rfl⟩⟩⟩⟩
  · exact (sane_shrink hsane₃ hshrunk).channels
  · rw [hshrunk.eq, ← hskip, ← hremoved]
    exact List.mem_append_right _ List.mem_cons_self

/-- No call panics: not in an index, a division, a slice, or in the arithmetic. -/
def Total (s : State F) : Prop := ∀ a, s.Enabled a → ∃ s', s.call a = some s'

theorem Sane.total {channels perSecond : ℕ} (hs : s.Sane channels perSecond) : s.Total := by
  intro a ha
  obtain ⟨s', hs', -⟩ := sane_step hs ha
  rw [step, if_pos ha] at hs'
  exact ⟨s', hs'⟩

theorem whole_exec {config : StreamConfig} {s₀ : State F} {as : List (Act F)}
    (hconfig : WholeShrinks config) (h₀ : start config tms = .ok s₀)
    (h : exec step s₀ as = some s) : s.Whole := by
  obtain ⟨-, -, -, haudio, -, -, -, -, happended, hdiscards, -, -, -, hhanded⟩ := start_ok h₀
  have haligned₀ : s₀.Aligned := by
    rw [resize_default] at haudio
    refine ⟨by simp [hdiscards], [], ?_, Nat.dvd_zero _, ?_, ?_⟩
    · rw [happended, haudio]
      rfl
    · rw [haudio]
      exact Nat.dvd_zero _
    · rw [hhanded]
      exact List.nil_sublist _
  have hboth : s.Sane config.channels.toNat (config.sampleRate.toNat * config.channels.toNat) ∧
      s.Aligned := by
    refine exec_invariant (I := fun s : State F => s.Sane config.channels.toNat
      (config.sampleRate.toNat * config.channels.toNat) ∧ s.Aligned) ?_ ⟨sane_start h₀, haligned₀⟩ h
    intro s a s' hs hstep
    obtain ⟨s₁, h₁, hsane⟩ := sane_step hs.1 (enabled_of_step hstep)
    exact ⟨Option.some.inj (hstep.symm.trans h₁) ▸ hsane, aligned_step hconfig hs.1 hs.2 hstep⟩
  exact hboth.2.whole hboth.1.writer.channels_pos

/-- **The discards of a playback stream**: it keeps its frames in every run exactly if the amount of
a shrink is always a whole number of them; transitions, amounts, and that nothing panics, it keeps
in any case. -/
theorem discards_contract {config : StreamConfig} {tms : ℤ} {s₀ : State F}
    (h₀ : start config tms = .ok s₀) :
    ((∀ as s, exec step s₀ as = some s → s.Whole ∧ s.Smooth ∧ s.Bounded ∧ s.Total) ↔
      WholeShrinks config) ∧
    ∀ as s, exec step s₀ as = some s → s.Smooth ∧ s.Bounded ∧ s.Total := by
  have hrest : ∀ as s, exec step s₀ as = some s → s.Smooth ∧ s.Bounded ∧ s.Total := by
    intro as s h
    have hsane := sane_exec (sane_start h₀) h
    exact ⟨hsane.smooth, hsane.bounded, hsane.total⟩
  refine ⟨⟨?_, fun hconfig as s h => ⟨whole_exec hconfig h₀ h, hrest as s h⟩⟩, hrest⟩
  intro hall mark hmark hchoice
  obtain rfl | rfl | ⟨hlow, -⟩ := hchoice
  · simp
  · obtain ⟨s, hs, hchannels, hdiscard⟩ := exec_shrinkRun h₀ (.inr ⟨rfl, rfl⟩ : _ ∨ 2 = 2 ∧ 6 = 6)
    rw [if_pos rfl] at hdiscard
    have hdvd := (hall _ s hs).1.discards _ hdiscard
    rwa [hchannels] at hdvd
  · obtain ⟨s, hs, hchannels, hdiscard⟩ := exec_shrinkRun h₀ (.inl ⟨hlow, hmark, rfl⟩)
    rw [if_neg (by omega)] at hdiscard
    have hdvd := (hall _ s hs).1.discards _ hdiscard
    rwa [hchannels] at hdvd

end

/-- A stream starts with two hundred frames a second and one channel, or more. -/
theorem exists_start [Zero F] {config : StreamConfig} (hrate : 200 ≤ config.sampleRate.toNat)
    (hchannels : 0 < config.channels.toNat) (tms : ℤ) :
    ∃ s₀ : State F, start config tms = .ok s₀ := by
  have hnew : ∃ r : AudioPlaybackRecovery F, AudioPlaybackRecovery.new
    ⟨config.sampleRate.toNat, config.channels.toNat⟩ = .ok r :=
    AudioPlaybackRecovery.exists_new_ok hrate config.sampleRate.toNat_lt hchannels
  obtain ⟨r, hr⟩ := hnew
  rw [start, AudioPlaybackWriter.new, hr]
  exact ⟨_, rfl⟩

theorem discards_contract_stereo : ∃ s₀ : State ℚ, start ⟨48000, 2⟩ 0 = .ok s₀ ∧
    ∀ as s, exec step s₀ as = some s → s.Whole ∧ s.Smooth ∧ s.Bounded ∧ s.Total := by
  have hstart : ∃ s₀ : State ℚ, start ⟨48000, 2⟩ 0 = .ok s₀ :=
    exists_start (by decide) (by decide) 0
  obtain ⟨s₀, h₀⟩ := hstart
  exact ⟨s₀, h₀, (discards_contract h₀).1.mpr (wholeShrinks_of_stereo (.inr rfl))⟩

/-- With six channels, a shrink can leave four samples of a frame out. -/
theorem six_channels_torn : ∃ s₀ s : State ℚ, start ⟨44100, 6⟩ 0 = .ok s₀ ∧
    exec step s₀ (shrinkRun ⟨44100, 6⟩ 0 7 7) = some s ∧ ¬ s.Whole := by
  have hstart : ∃ s₀ : State ℚ, start ⟨44100, 6⟩ 0 = .ok s₀ :=
    exists_start (by decide) (by decide) 0
  obtain ⟨s₀, h₀⟩ := hstart
  obtain ⟨s, hs, hchannels, hdiscard⟩ :=
    exec_shrinkRun h₀ (.inl ⟨by decide, by decide, rfl⟩ : 6 ≤ 7 ∧ 7 < 30 ∧ 7 = 7 ∨ _)
  refine ⟨s₀, s, h₀, hs, ?_⟩
  intro hwhole
  have hdvd := hwhole.discards _ hdiscard
  rw [hchannels] at hdvd
  revert hdvd
  decide

end State

end Playback
end BgDesk
