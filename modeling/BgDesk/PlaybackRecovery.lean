import Mathlib.Logic.Function.Basic
import Mathlib.Order.Nat
import BgDesk.Machine

/-!
# Output streams that fail

How the client keeps its audio output alive on Windows: `src/client/audio_playback_recovery.rs`,
`audio_playback_startup.rs`, and `handle_format_with_start` of `src/client.rs`. A stream is watched
for errors and for its first callback; one that fails is opened again, not too soon. A new format of
the same kind opens a second stream, and the first one plays on until the second one is known to
work.

Streams are numbered in the order they are opened, and what their callbacks do is the environment's
choice. An instant is a number of nanoseconds. A decoder is the list of the frames it was given.

* `recover`, `handleFormat`, `handleFrame` — the code;
* `step` — callbacks, time, and the three of them;
* `Sound` — there is a stream or a time to open one at, and what goes with either; `exec_sound` —
  every run keeps to it;
* `output_or_retry` — what this means for whoever listens.
-/

namespace BgDesk
namespace PlaybackRecovery

/-! ## The code -/

/-- `RECOVERY_INTERVAL` -/
def recoveryInterval : ℕ := 1000000000

/-- `STARTUP_CONFIRMATION_TIMEOUT` -/
def startupConfirmationTimeout : ℕ := 5000000000

/-- `PRIORITY_WARNING_PREFIX` -/
def priorityWarning : String := "SetThreadPriority failed: "

inductive StreamError where
  | deviceNotAvailable : StreamError
  | backendSpecific : String → StreamError
  deriving DecidableEq

/-- The one error that does not end a stream. -/
def StreamError.terminal : StreamError → Bool
  | deviceNotAvailable => true
  | backendSpecific description => !priorityWarning.toList.isPrefixOf description.toList

structure AudioFormat where
  sampleRate : ℕ
  channels : ℕ
  deriving DecidableEq

/-- What the callbacks of the streams leave: errors not looked at yet, and whether the first output
callback came. -/
structure Devices where
  errors : ℕ → List StreamError
  ready : ℕ → Bool

/-- An `AudioHandler` without the output that is pending in it. A stream stands for its queue of
errors and its status as well. -/
structure Output where
  audioStream : Option ℕ
  sampleRate : ℕ
  channels : ℕ
  audioDecoder : Option (List ℕ)
  format : Option AudioFormat
  retryAt : Option ℕ
  restartNotBefore : Option ℕ
  awaitingCallback : Bool
  startupDeadline : Option ℕ

namespace Output

/-- `AudioHandler::default()` -/
def fresh : Output := ⟨none, 0, 0, none, none, none, none, false, none⟩

/-- `playback_status.ready` -/
def ready (devices : Devices) (o : Output) : Bool :=
  match o.audioStream with
  | some k => devices.ready k
  | none => false

/-- What `report_pending` returns. -/
def reportPending (devices : Devices) (o : Output) : Bool :=
  match o.audioStream with
  | some k => (devices.errors k).any StreamError.terminal
  | none => false

/-- What `report_pending` leaves of the queue. -/
def popErrors (devices : Devices) (o : Output) : Devices :=
  match o.audioStream with
  | some k => { devices with errors := Function.update devices.errors k [] }
  | none => devices

def clearPlaybackStream (o : Output) : Output :=
  { fresh with format := o.format, retryAt := o.retryAt, restartNotBefore := o.restartNotBefore }

def preparePlayback (f : AudioFormat) (o : Output) : Output :=
  { o.clearPlaybackStream with format := some f, retryAt := none, restartNotBefore := none }

def finishPlaybackStart (now : ℕ) (opened : Bool) (o : Output) : Output :=
  let retryAt := now + recoveryInterval
  let o := { o with restartNotBefore := some retryAt }
  if opened then
    { o with
      retryAt := none, awaitingCallback := true, startupDeadline :=
        some (now + startupConfirmationTimeout) }
  else { o.clearPlaybackStream with retryAt := some retryAt }

/-- Whether the time for the first callback is over. -/
def startTimedOut (now : ℕ) (devices : Devices) (o : Output) : Bool :=
  o.awaitingCallback && !o.ready devices && o.startupDeadline.any (fun due => due ≤ now)

/-- The output no longer waits for its first callback. -/
def settled (o : Output) : Output := { o with awaitingCallback := false, startupDeadline := none }

/-- What `playback_start_timed_out` leaves. -/
def afterTimeout (now : ℕ) (devices : Devices) (o : Output) : Output :=
  if o.startTimedOut now devices then o.settled else o

/-- `report_pending() || playback_start_timed_out(now)` -/
def failed (now : ℕ) (devices : Devices) (o : Output) : Bool :=
  o.reportPending devices || o.startTimedOut now devices

/-- The output after these: the second one is only asked if the first one says no. -/
def afterFailed (now : ℕ) (devices : Devices) (o : Output) : Output :=
  if o.reportPending devices then o else o.afterTimeout now devices

/-- A stream was opened for `f`: `start_audio`, and what goes with it. -/
def opened (stream : ℕ) (f : AudioFormat) (decoder : Option (List ℕ)) (o : Output) : Output :=
  { o with
    audioStream := some stream, sampleRate := f.sampleRate, channels := f.channels, audioDecoder :=
      decoder }

end Output

/-- The handler, its output streams, and what a run keeps of the past. -/
structure State where
  now : ℕ
  devices : Devices
  current : Output
  /-- `pending_output` -/
  pending : Option Output
  /-- the number of the next stream -/
  next : ℕ
  /-- when the last start of `recover` was finished, since the last format came -/
  lastRestart : Option ℕ

namespace State

def init : State := ⟨0, ⟨fun _ => [], fun _ => false⟩, .fresh, none, 1, none⟩

/-- `resolve_pending_playback` -/
def resolvePendingPlayback (s : State) : Option Bool × State :=
  match s.pending with
  | none => (none, s)
  | some candidate =>
    let candidateFailed := candidate.failed s.now s.devices
    let candidate := candidate.afterFailed s.now s.devices
    let devices := candidate.popErrors s.devices
    let previousFailed := s.current.failed s.now devices
    let current := s.current.afterFailed s.now devices
    let devices := current.popErrors devices
    if candidateFailed then
      (some previousFailed,
        { s with
          devices := devices, current :=
            { current with restartNotBefore := candidate.restartNotBefore }, pending := none })
    else if candidate.ready devices || previousFailed then
      (some false,
        { s with
          devices := devices, current :=
            { candidate with audioDecoder := current.audioDecoder }, pending := none })
    else (some false, { s with devices := devices, current := current, pending := some candidate })

/-- `recover_playback_with` up to the stream that failed. -/
def dropFailed (s : State) : State :=
  let (resolved, s) := s.resolvePendingPlayback
  let failed := resolved.getD (s.current.failed s.now s.devices)
  let s :=
    match resolved with
    | some _ => s
    | none =>
      { s with
        current := s.current.afterFailed s.now s.devices, devices := s.current.popErrors s.devices }
  if failed then
    { s with
      current :=
        { s.current.clearPlaybackStream with
          retryAt := some ((s.current.restartNotBefore.map (max s.now)).getD s.now) },
      pending := none }
  else s

/-- The part that notes the first callback. -/
def confirm (s : State) : State :=
  if s.current.awaitingCallback && s.current.ready s.devices then
    { s with current := s.current.settled }
  else s

/-- The part that opens a stream once it is time. -/
def restart (opens : Bool) (took : ℕ) (s : State) : State :=
  if s.current.retryAt.any (fun due => due ≤ s.now) then
    match s.current.format with
    | none => s
    | some f =>
      let now := s.now + took
      let current := if opens then s.current.opened s.next f (some []) else s.current
      { s with
        now := now, current := current.finishPlaybackStart now opens,
        pending := if opens then s.pending else none, next := s.next + 1, lastRestart := some now }
  else s

/-- `recover_playback_with`: `opens` says whether a stream can be opened, which takes `took`. -/
def recover (opens : Bool) (took : ℕ) (s : State) : State :=
  (s.dropFailed.confirm).restart opens took

/-- `cancel_pending_playback` -/
def cancelPendingPlayback (s : State) : Bool × State :=
  let (failed, s) := s.resolvePendingPlayback
  (failed.getD false, { s with pending := none })

/-- `handle_format_with_start` from where nothing is pending: a stream for `f` is opened, if
`opens`, and the output there is stays beside it if it can play the same. -/
def startFormat (f : AudioFormat) (playbackFailed opens : Bool) (took lag : ℕ) (opensAgain : Bool)
    (tookAgain : ℕ) (s : State) : State :=
  let keepExisting := s.current.audioStream.isSome && s.current.sampleRate == f.sampleRate &&
    s.current.channels == f.channels
  let previous := s.current
  let started :=
    { Output.fresh.preparePlayback f with audioDecoder := some [], channels := f.channels }
  let started := if opens then started.opened s.next f (some []) else started
  let keepExisting := keepExisting && !playbackFailed && !previous.reportPending s.devices
  let s :=
    { s with
      now := s.now + took, devices := previous.popErrors s.devices, next :=
        s.next + 1, lastRestart := none }
  if !opens &&
    keepExisting then { s with current := { previous with audioDecoder := started.audioDecoder } }
  else
    let started := started.finishPlaybackStart s.now opens
    if keepExisting then
      { s with
        now := s.now + lag,
        current := { previous with audioDecoder := started.audioDecoder },
        pending := some { started with audioDecoder := none } }.recover opensAgain tookAgain
    else { s with current := started }

/-- `handle_format_with_start`, for a format whose decoder can be created if `decodes`. -/
def handleFormat (f : AudioFormat) (decodes opens : Bool) (took lag : ℕ) (opensAgain : Bool)
    (tookAgain : ℕ) (s : State) : State :=
  if ¬(1 ≤ f.channels ∧ f.channels ≤ 2) ∨ decodes = false then s
  else
    let (playbackFailed, s) := s.cancelPendingPlayback
    s.startFormat f playbackFailed opens took lag opensAgain tookAgain

/-- `handle_frame`, as far as the decoder goes. -/
def handleFrame (frame : ℕ) (s : State) : State :=
  if s.current.audioStream.isSome && s.current.ready s.devices then
    { s with
      current := { s.current with audioDecoder := s.current.audioDecoder.map (· ++ [frame]) } }
  else s

end State

/-! ## A run -/

inductive Act where
  /-- time passes -/
  | tick : ℕ → Act
  /-- the error callback of a stream -/
  | error : ℕ → StreamError → Act
  /-- the output callback of a stream -/
  | output : ℕ → Act
  /-- a pass of `receive_with_recovery` -/
  | recover : Bool → ℕ → Act
  /-- a format, as `State.handleFormat` takes it -/
  | format : AudioFormat → Bool → Bool → ℕ → ℕ → Bool → ℕ → Act
  | frame : ℕ → Act
  deriving DecidableEq

def step (s : State) : Act → Option State
  | .tick d => some { s with now := s.now + d }
  | .error k e =>
    if k <
      s.next then some { s with
        devices :=
          { s.devices with
            errors := Function.update s.devices.errors k (s.devices.errors k ++ [e]) } }
    else none
  | .output k =>
    if k < s.next then some { s with
      devices := { s.devices with ready := Function.update s.devices.ready k true } } else none
  | .recover opens took => some (s.recover opens took)
  | .format f decodes opens took lag opensAgain tookAgain =>
    some (s.handleFormat f decodes opens took lag opensAgain tookAgain)
  | .frame frame => some (s.handleFrame frame)

/-- An output with a stream: what is known of it. -/
structure Playing (now : ℕ) (o : Output) : Prop where
  stream : o.audioStream.isSome
  format : o.format.isSome
  retryAt : o.retryAt = none
  earliest : ∃ earliest, o.restartNotBefore = some earliest ∧ earliest ≤ now + recoveryInterval
  awaiting : o.awaitingCallback → o.startupDeadline.isSome

/-- An output without one, and with a time to open one at. -/
structure Waiting (now : ℕ) (o : Output) : Prop where
  stream : o.audioStream = none
  retryAt : ∃ due earliest, o.retryAt = some due ∧ o.restartNotBefore = some earliest ∧
    earliest ≤ due ∧ due ≤ now + recoveryInterval
  awaiting : o.awaitingCallback = false

/-- **What every run keeps to**: before the first format there is nothing; afterwards there is a
stream or a time to open one at, and a second stream only beside one of the same kind. -/
structure Sound (s : State) : Prop where
  current : s.current = .fresh ∧ s.pending = none ∨ Playing s.now s.current ∧
    s.current.audioDecoder.isSome ∨
    Waiting s.now s.current ∧ s.current.format.isSome ∧ s.pending = none
  pending : ∀ candidate, s.pending = some candidate → Playing s.now candidate ∧
    candidate.sampleRate = s.current.sampleRate ∧ candidate.channels = s.current.channels
  paced : ∀ t, s.lastRestart = some t → s.pending = none ∧
    s.current.restartNotBefore = some (t + recoveryInterval)

/-! ## Outputs -/

variable {now : ℕ} {o : Output} {s : State}

theorem Playing.mono {now' : ℕ} (h : Playing now o) (hle : now ≤ now') : Playing now' o := by
  obtain ⟨earliest, hrnb, hearliest⟩ := h.earliest
  exact ⟨h.stream, h.format, h.retryAt, ⟨earliest, hrnb, by omega⟩, h.awaiting⟩

theorem Waiting.mono {now' : ℕ} (h : Waiting now o) (hle : now ≤ now') : Waiting now' o := by
  obtain ⟨due, earliest, hdue, hrnb, hlt, hsoon⟩ := h.retryAt
  exact ⟨h.stream, ⟨due, earliest, hdue, hrnb, hlt, by omega⟩, h.awaiting⟩

theorem Playing.feed (h : Playing now o) (decoder : Option (List ℕ)) :
    Playing now { o with audioDecoder := decoder } :=
  ⟨h.stream, h.format, h.retryAt, h.earliest, h.awaiting⟩

theorem Playing.settled (h : Playing now o) : Playing now o.settled :=
  ⟨h.stream, h.format, h.retryAt, h.earliest, by rintro ⟨⟩⟩

namespace Output

/-- Looking at an output leaves it, but for what it waits for. -/
theorem afterFailed_eq (now : ℕ) (devices : Devices) (o : Output) :
    o.afterFailed now devices = o ∨ o.afterFailed now devices = o.settled := by
  unfold afterFailed afterTimeout
  split
  · exact .inl rfl
  · split
    · exact .inr rfl
    · exact .inl rfl

theorem afterFailed_playing {now : ℕ} {devices : Devices} {o : Output} (h : Playing now o) :
    Playing now (o.afterFailed now devices) := by
  rcases o.afterFailed_eq now devices with heq | heq
  · rw [heq]
    exact h
  · rw [heq]
    exact h.settled

/-- What looking at an output leaves as it is. -/
theorem afterFailed_fields (now : ℕ) (devices : Devices) (o : Output) :
    (o.afterFailed now devices).audioStream = o.audioStream ∧
      (o.afterFailed now devices).sampleRate = o.sampleRate ∧
      (o.afterFailed now devices).channels = o.channels ∧
        (o.afterFailed now devices).audioDecoder = o.audioDecoder ∧
      (o.afterFailed now devices).restartNotBefore = o.restartNotBefore := by
  rcases o.afterFailed_eq now devices with heq | heq <;> rw [heq] <;> exact ⟨rfl, rfl, rfl,
    rfl, rfl⟩

/-- Without a stream there is nothing that fails. -/
theorem failed_of_none (now : ℕ) (devices : Devices) {o : Output} (h : o.audioStream = none)
    (hawaiting : o.awaitingCallback = false) :
    o.failed now devices = false ∧ o.afterFailed now devices = o := by
  simp [failed, afterFailed, afterTimeout, reportPending, startTimedOut, h, hawaiting]

/-- A start that was finished: there is a stream, or a time to try again. -/
theorem finishPlaybackStart_cases (now : ℕ) (o : Output) (stream : ℕ) (f : AudioFormat)
    (decoder : Option (List ℕ)) (h : o.format.isSome) :
    Playing now ((o.opened stream f decoder).finishPlaybackStart now true) ∧
      Waiting now (o.finishPlaybackStart now false) := by
  refine ⟨⟨rfl, h, rfl, ⟨_, rfl, le_rfl⟩, fun _ => rfl⟩,
    ⟨rfl, ⟨_, _, rfl, rfl, le_rfl, le_rfl⟩, rfl⟩⟩

end Output

/-! ## Passes -/

namespace Sound

variable {s : State}

theorem tick (h : Sound s) (d : ℕ) : Sound { s with now := s.now + d } where
  current := by
    rcases h.current with hfresh | ⟨hplaying, hdecoder⟩ | ⟨hwaiting, hformat⟩
    · exact .inl hfresh
    · exact .inr (.inl ⟨hplaying.mono (Nat.le_add_right _ _), hdecoder⟩)
    · exact .inr (.inr ⟨hwaiting.mono (Nat.le_add_right _ _), hformat⟩)
  pending := by
    intro candidate hcandidate
    obtain ⟨hplaying, hkind⟩ := h.pending candidate hcandidate
    exact ⟨hplaying.mono (Nat.le_add_right _ _), hkind⟩
  paced := h.paced

/-- Beside a second stream there is a first one. -/
theorem playing (h : Sound s) (hpending : s.pending ≠ none ∨ s.current.audioStream.isSome) :
    Playing s.now s.current ∧ s.current.audioDecoder.isSome := by
  rcases h.current with ⟨hfresh, hnone⟩ | hplaying | ⟨hwaiting, -, hnone⟩
  · rw [hfresh, hnone] at hpending
    simp [Output.fresh] at hpending
  · exact hplaying
  · rw [hwaiting.stream, hnone] at hpending
    simp at hpending

/-- The pending output is decided on, or stays. -/
theorem resolve (h : Sound s) : Sound s.resolvePendingPlayback.2 ∧
    (s.resolvePendingPlayback.1 = some true →
      s.resolvePendingPlayback.2.current.audioStream.isSome) := by
  unfold State.resolvePendingPlayback
  split
  · exact ⟨h, by rintro ⟨⟩⟩
  · next candidate hcandidate =>
    have hnone : s.pending ≠ none := by
      rw [hcandidate]
      rintro ⟨⟩
    have hlast : ∀ t, s.lastRestart ≠ some t := fun t ht => hnone (h.paced t ht).1
    obtain ⟨hplaying, hdecoder⟩ := h.playing (.inl hnone)
    obtain ⟨hcand, hrate, hchannels⟩ := h.pending candidate hcandidate
    have hcand' : Playing s.now (candidate.afterFailed s.now s.devices) :=
      Output.afterFailed_playing hcand
    obtain ⟨hstream', hrate', hchannels', hdecoder', hrnb'⟩ :=
      candidate.afterFailed_fields s.now s.devices
    dsimp only
    generalize hdevices : (candidate.afterFailed s.now s.devices).popErrors s.devices = devices
    have hcurrent' : Playing s.now (s.current.afterFailed s.now devices) :=
      Output.afterFailed_playing hplaying
    obtain ⟨hstream, hrate₁, hchannels₁, hdecoder₁, hrnb⟩ :=
      s.current.afterFailed_fields s.now devices
    split
    · -- the candidate is dropped
      refine ⟨⟨.inr (.inl ⟨?_, hdecoder₁ ▸ hdecoder⟩), by
        rintro candidate ⟨⟩, fun t ht => absurd ht (hlast t)⟩, fun _ => hcurrent'.stream⟩
      exact ⟨hcurrent'.stream, hcurrent'.format, hcurrent'.retryAt, hcand'.earliest,
        hcurrent'.awaiting⟩
    · split
      · -- the candidate takes over
        refine ⟨⟨.inr (.inl ⟨?_, hdecoder₁ ▸ hdecoder⟩), by
          rintro candidate ⟨⟩, fun t ht => absurd ht (hlast t)⟩,
          by rintro ⟨⟩⟩
        exact hcand'.feed _
      · refine ⟨⟨.inr (.inl ⟨hcurrent', by rw [← hdecoder₁] at hdecoder; exact hdecoder⟩), ?_,
          fun t ht => absurd ht (hlast t)⟩, by rintro ⟨⟩⟩
        rintro candidate' ⟨⟩
        exact ⟨hcand', by rw [hrate', hrate₁, hrate], by rw [hchannels', hchannels₁, hchannels]⟩

/-- A stream that failed is dropped, and there is a time to open another one at. -/
theorem clear (h : Sound s) (hstream : s.current.audioStream.isSome) : Sound { s with
      current :=
  { s.current.clearPlaybackStream with
    retryAt := some ((s.current.restartNotBefore.map (max s.now)).getD s.now) },
      pending := none } := by
  obtain ⟨hplaying, -⟩ := h.playing (.inr hstream)
  obtain ⟨earliest, hrnb, hearliest⟩ := hplaying.earliest
  refine ⟨.inr (.inr ⟨⟨rfl, ⟨max s.now earliest, earliest, ?_, hrnb, le_max_right _ _, ?_⟩, rfl⟩,
    hplaying.format, rfl⟩), by rintro candidate ⟨⟩, ?_⟩
  · rw [hrnb]
    rfl
  · exact max_le (Nat.le_add_right _ _) hearliest
  · intro t ht
    exact ⟨rfl, (h.paced t ht).2⟩

/-- An output without a stream is not looked at. -/
theorem look (h : Sound s) (hnone : s.pending = none) : Sound { s with
      current := s.current.afterFailed s.now s.devices, devices := s.current.popErrors s.devices } ∧
      (s.current.failed s.now s.devices = true → s.current.audioStream.isSome) := by
  obtain ⟨hstream, -, -, hdecoder, hrnb⟩ := s.current.afterFailed_fields s.now s.devices
  have hpending : ∀ candidate, s.pending ≠ some candidate := by
    intro candidate hcandidate
    rw [hnone] at hcandidate
    cases hcandidate
  have hpaced : ∀ t, s.lastRestart = some t → s.pending = none ∧
      (s.current.afterFailed s.now s.devices).restartNotBefore = some (t + recoveryInterval) := by
    intro t ht
    rw [hrnb]
    exact h.paced t ht
  rcases h.current with ⟨hfresh, -⟩ | ⟨hplaying, hdec⟩ | ⟨hwaiting, hformat, -⟩
  · have hquiet : s.current.failed s.now s.devices = false ∧
        s.current.afterFailed s.now s.devices = s.current := by
      rw [hfresh]
      exact Output.failed_of_none s.now s.devices rfl rfl
    refine ⟨⟨.inl ⟨hquiet.2.trans hfresh, hnone⟩, fun candidate hcandidate =>
      absurd hcandidate (hpending candidate), hpaced⟩, ?_⟩
    rw [hquiet.1]
    rintro ⟨⟩
  · refine ⟨⟨.inr (.inl ⟨Output.afterFailed_playing hplaying, ?_⟩), fun candidate hcandidate =>
      absurd hcandidate (hpending candidate),
      hpaced⟩, fun _ => hplaying.stream⟩
    change (s.current.afterFailed s.now s.devices).audioDecoder.isSome
    rw [hdecoder]
    exact hdec
  · have hquiet := Output.failed_of_none s.now s.devices hwaiting.stream hwaiting.awaiting
    refine ⟨⟨.inr (.inr ⟨?_, ?_, hnone⟩), fun candidate hcandidate =>
      absurd hcandidate (hpending candidate), hpaced⟩, ?_⟩
    · change Waiting s.now (s.current.afterFailed s.now s.devices)
      rw [hquiet.2]
      exact hwaiting
    · change (s.current.afterFailed s.now s.devices).format.isSome
      rw [hquiet.2]
      exact hformat
    · rw [hquiet.1]
      rintro ⟨⟩

theorem dropFailed (h : Sound s) : Sound s.dropFailed := by
  unfold State.dropFailed
  obtain ⟨hresolve, htrue⟩ := h.resolve
  rcases hresolved : s.resolvePendingPlayback with ⟨resolved, s'⟩
  rw [hresolved] at hresolve htrue
  cases resolved with
  | some failed =>
    cases failed with
    | true => exact hresolve.clear (htrue rfl)
    | false => exact hresolve
  | none =>
    have hnone : s'.pending = none := by
      unfold State.resolvePendingPlayback at hresolved
      split at hresolved
      · next hnone =>
        cases hresolved
        exact hnone
      · dsimp only at hresolved
        split at hresolved
        · cases hresolved
        · split at hresolved <;> cases hresolved
    obtain ⟨hlook, hstream⟩ := hresolve.look hnone
    dsimp only [Option.getD]
    split
    · next hfailed =>
      refine hlook.clear ?_
      change (s'.current.afterFailed s'.now s'.devices).audioStream.isSome
      rw [(s'.current.afterFailed_fields s'.now s'.devices).1]
      exact hstream hfailed
    · exact hlook

theorem confirm (h : Sound s) : Sound s.confirm := by
  unfold State.confirm
  split
  · next hready =>
    have hstream : s.current.audioStream.isSome := by
      rw [Bool.and_eq_true, Output.ready] at hready
      split at hready
      · next k hk =>
        rw [hk]
        rfl
      · cases hready.2
    obtain ⟨hplaying, hdecoder⟩ := h.playing (.inr hstream)
    exact ⟨.inr (.inl ⟨hplaying.settled, hdecoder⟩), h.pending, h.paced⟩
  · exact h

theorem restart (h : Sound s) (opens : Bool) (took : ℕ) : Sound (s.restart opens took) := by
  unfold State.restart
  split
  · next hdue =>
    split
    · exact h
    · next f hformat =>
      have hsome : s.current.format.isSome := by
        rw [hformat]
        rfl
      rcases h.current with ⟨hfresh, -⟩ | ⟨hplaying, -⟩ | ⟨hwaiting, -, hnone⟩
      · rw [hfresh] at hformat
        cases hformat
      · rw [hplaying.retryAt] at hdue
        cases hdue
      · obtain ⟨hopen, hclosed⟩ :=
          Output.finishPlaybackStart_cases (s.now + took) s.current s.next f (some []) hsome
        cases opens with
        | true =>
          refine ⟨.inr (.inl ⟨hopen, rfl⟩), ?_, ?_⟩
          · intro candidate hcandidate
            have hcandidate' : s.pending = some candidate := hcandidate
            rw [hnone] at hcandidate'
            cases hcandidate'
          · rintro t ⟨⟩
            exact ⟨hnone, rfl⟩
        | false =>
          refine ⟨.inr (.inr ⟨hclosed, hsome, rfl⟩), by rintro candidate ⟨⟩, ?_⟩
          rintro t ⟨⟩
          exact ⟨rfl, rfl⟩
  · exact h

theorem recover (h : Sound s) (opens : Bool) (took : ℕ) : Sound (s.recover opens took) :=
  h.dropFailed.confirm.restart opens took

theorem startFormat (h : Sound s) (hnone : s.pending = none) (f : AudioFormat)
    (playbackFailed opens : Bool) (took lag : ℕ) (opensAgain : Bool) (tookAgain : ℕ) :
    Sound (s.startFormat f playbackFailed opens took lag opensAgain tookAgain) := by
  have hpending : ∀ candidate, s.pending ≠ some candidate := by
    intro candidate hcandidate
    rw [hnone] at hcandidate
    cases hcandidate
  have hlater : s.now ≤ s.now + took := Nat.le_add_right _ _
  unfold State.startFormat
  dsimp only
  generalize hkeep :
    (s.current.audioStream.isSome && s.current.sampleRate == f.sampleRate && s.current.channels ==
      f.channels &&
    !playbackFailed && !s.current.reportPending s.devices) = keep
  have hkind : keep = true → Playing s.now s.current ∧ s.current.sampleRate = f.sampleRate ∧
      s.current.channels = f.channels := by
    rintro rfl
    simp only [Bool.and_eq_true, beq_iff_eq] at hkeep
    obtain ⟨⟨⟨⟨hstream, hrate⟩, hchannels⟩, -⟩, -⟩ := hkeep
    exact ⟨(h.playing (.inr hstream)).1, hrate, hchannels⟩
  obtain ⟨hopen, hclosed⟩ := Output.finishPlaybackStart_cases (s.now + took)
    { Output.fresh.preparePlayback f with audioDecoder := some [], channels := f.channels }
      s.next f (some []) rfl
  cases opens with
  | false =>
    cases keep with
    | true =>
      obtain ⟨hplaying, -, -⟩ := hkind rfl
      have hplaying' := hplaying.mono hlater
      exact ⟨.inr (.inl ⟨hplaying'.feed _, rfl⟩),
        fun candidate hcandidate => absurd hcandidate (hpending candidate), by rintro t ⟨⟩⟩
    | false =>
      exact ⟨.inr (.inr ⟨hclosed, rfl, hnone⟩), fun candidate hcandidate =>
        absurd hcandidate (hpending candidate), by rintro t ⟨⟩⟩
  | true =>
    cases keep with
    | true =>
      obtain ⟨hplaying, hrate, hchannels⟩ := hkind rfl
      have hplaying' := (hplaying.mono hlater).mono (Nat.le_add_right (s.now + took) lag)
      have hopen' := hopen.mono (Nat.le_add_right (s.now + took) lag)
      refine Sound.recover ?_ opensAgain tookAgain
      refine ⟨.inr (.inl ⟨hplaying'.feed _, rfl⟩), ?_,
        by rintro t ⟨⟩⟩
      rintro candidate ⟨⟩
      exact ⟨hopen'.feed _, hrate.symm, hchannels.symm⟩
    | false =>
      exact ⟨.inr (.inl ⟨hopen, rfl⟩), fun candidate hcandidate =>
        absurd hcandidate (hpending candidate), by rintro t ⟨⟩⟩

theorem handleFormat (h : Sound s) (f : AudioFormat) (decodes opens : Bool) (took lag : ℕ)
    (opensAgain : Bool) (tookAgain : ℕ) :
    Sound (s.handleFormat f decodes opens took lag opensAgain tookAgain) := by
  unfold State.handleFormat
  split
  · exact h
  · obtain ⟨hresolve, -⟩ := h.resolve
    unfold State.cancelPendingPlayback
    rcases hresolved : s.resolvePendingPlayback with ⟨resolved, s'⟩
    rw [hresolved] at hresolve
    have hcancelled : Sound { s' with pending := none } := by
      refine ⟨?_, by rintro candidate ⟨⟩, fun t ht => ⟨rfl, (hresolve.paced t ht).2⟩⟩
      rcases hresolve.current with ⟨hfresh, -⟩ | hplaying | ⟨hwaiting, hformat, -⟩
      · exact .inl ⟨hfresh, rfl⟩
      · exact .inr (.inl hplaying)
      · exact .inr (.inr ⟨hwaiting, hformat, rfl⟩)
    exact hcancelled.startFormat rfl f _ opens took lag opensAgain tookAgain

theorem handleFrame (h : Sound s) (frame : ℕ) : Sound (s.handleFrame frame) := by
  unfold State.handleFrame
  split
  · next hready =>
    obtain ⟨hplaying, hdecoder⟩ := h.playing (.inr (Bool.and_eq_true _ _ ▸ hready).1)
    refine ⟨.inr (.inl ⟨hplaying.feed _, ?_⟩), h.pending, h.paced⟩
    change (s.current.audioDecoder.map _).isSome
    rw [Option.isSome_map]
    exact hdecoder
  · exact h

theorem step {s' : State} {a : Act} (h : Sound s) (hstep : step s a = some s') : Sound s' := by
  cases a with
  | tick d =>
    obtain rfl := Option.some.inj hstep
    exact h.tick d
  | error k e | output k =>
    rw [PlaybackRecovery.step] at hstep
    split at hstep
    · obtain rfl := Option.some.inj hstep
      exact ⟨h.current, h.pending, h.paced⟩
    · cases hstep
  | recover opens took =>
    obtain rfl := Option.some.inj hstep
    exact h.recover opens took
  | format f decodes opens took lag opensAgain tookAgain =>
    obtain rfl := Option.some.inj hstep
    exact h.handleFormat f decodes opens took lag opensAgain tookAgain
  | frame frame =>
    obtain rfl := Option.some.inj hstep
    exact h.handleFrame frame

end Sound

theorem init_sound : Sound State.init := ⟨.inl ⟨rfl, rfl⟩, by rintro candidate ⟨⟩, by rintro t ⟨⟩⟩

theorem exec_sound {acts : List Act} (h : exec step State.init acts = some s) : Sound s :=
  exec_invariant (fun _ _ _ hs hstep => hs.step hstep) init_sound h

/-! ## Starts -/

namespace State

theorem confirm_fields (s : State) :
    s.confirm.now = s.now ∧ s.confirm.next = s.next ∧ s.confirm.lastRestart = s.lastRestart := by
  unfold confirm
  split <;> exact ⟨rfl, rfl, rfl⟩

theorem resolve_fields (s : State) :
    s.resolvePendingPlayback.2.now = s.now ∧ s.resolvePendingPlayback.2.next = s.next ∧
    s.resolvePendingPlayback.2.lastRestart = s.lastRestart := by
  unfold resolvePendingPlayback
  split
  · exact ⟨rfl, rfl, rfl⟩
  · dsimp only
    split
    · exact ⟨rfl, rfl, rfl⟩
    · split <;> exact ⟨rfl, rfl, rfl⟩

theorem dropFailed_fields (s : State) : s.dropFailed.now = s.now ∧ s.dropFailed.next = s.next ∧
      s.dropFailed.lastRestart = s.lastRestart := by
  unfold dropFailed
  have hresolve := s.resolve_fields
  rcases hresolved : s.resolvePendingPlayback with ⟨resolved, s'⟩
  rw [hresolved] at hresolve
  cases resolved with
  | none =>
    dsimp only
    split <;> exact hresolve
  | some failed =>
    dsimp only
    split <;> exact hresolve

end State

/-- A stream is opened only at or after the time there is for it. -/
theorem State.restart_next {opens : Bool} {took : ℕ} (h : (s.restart opens took).next ≠ s.next) :
    ∃ due, s.current.retryAt = some due ∧ due ≤ s.now := by
  unfold restart at h
  split at h
  · next hdue =>
    cases hretry : s.current.retryAt with
    | none =>
      rw [hretry] at hdue
      cases hdue
    | some due =>
      rw [hretry] at hdue
      exact ⟨due, rfl, of_decide_eq_true hdue⟩
  · exact absurd rfl h

/-- No pass opens a stream within the interval after the one before. -/
theorem Sound.spaced (h : Sound s) {opens : Bool} {took t : ℕ} (ht : s.lastRestart = some t)
    (hnext : (s.recover opens took).next ≠ s.next) : t + recoveryInterval ≤ s.now := by
  have hsound : Sound s.dropFailed.confirm := h.dropFailed.confirm
  obtain ⟨hnow, hnext', hlast⟩ := s.dropFailed.confirm_fields
  obtain ⟨hnow', hnext'', hlast'⟩ := s.dropFailed_fields
  have hopened : (s.dropFailed.confirm.restart opens took).next ≠ s.dropFailed.confirm.next := by
    rw [hnext', hnext'']
    exact hnext
  obtain ⟨due, hretry, hdue⟩ := State.restart_next hopened
  obtain ⟨-, hrnb⟩ := hsound.paced t (by rw [hlast, hlast', ht])
  rcases hsound.current with ⟨hfresh, -⟩ | ⟨hplaying, -⟩ | ⟨hwaiting, -⟩
  · rw [hfresh] at hretry
    cases hretry
  · rw [hplaying.retryAt] at hretry
    cases hretry
  · obtain ⟨due', earliest, hretry', hrnb', hle, -⟩ := hwaiting.retryAt
    rw [hretry] at hretry'
    obtain rfl := Option.some.inj hretry'
    rw [hrnb] at hrnb'
    obtain rfl := Option.some.inj hrnb'
    omega

/-- A pass at the time there is opens a stream, if one can be opened. -/
theorem Sound.reopens (h : Sound s) (hstream : s.current.audioStream = none) {due : ℕ}
    (hretry : s.current.retryAt = some due) {d : ℕ} (hdue : due ≤ s.now + d) (took : ℕ) :
    ({ s with now := s.now + d }.recover true took).current.audioStream = some s.next ∧
      ({ s with now := s.now + d }.recover true took).current.audioDecoder = some [] := by
  rcases h.current with ⟨hfresh, -⟩ | ⟨hplaying, -⟩ | ⟨hwaiting, hformat, hnone⟩
  · rw [hfresh] at hretry
    cases hretry
  · rw [hplaying.retryAt] at hretry
    cases hretry
  · obtain ⟨f, hf⟩ := Option.isSome_iff_exists.mp hformat
    obtain ⟨hok, hsame⟩ := Output.failed_of_none (s.now + d) s.devices hstream hwaiting.awaiting
    have hdrop : { s with now := s.now + d }.dropFailed =
        { s with now := s.now + d, devices := s.current.popErrors s.devices } := by
      simp [State.dropFailed, State.resolvePendingPlayback, hnone, hok, hsame]
    have hconfirm :
      ({ s with now := s.now + d, devices := s.current.popErrors s.devices } : State).confirm =
        { s with now := s.now + d, devices := s.current.popErrors s.devices } := by
      simp [State.confirm, hwaiting.awaiting]
    unfold State.recover
    rw [hdrop, hconfirm]
    simp [State.restart, hretry, hdue, hf, Output.opened, Output.finishPlaybackStart]

/-! ## Every run -/

/-- **There is an output or a time to open one**: once a format is known, a run has a stream and a
decoder for it, or a time at most one interval away at which a pass opens a new stream; a second
stream is only there beside one of the same kind; and two attempts of `recover`, with no other
format accepted after the first, are an interval apart. -/
theorem output_or_retry {acts : List Act} {s : State} (h : exec step State.init acts = some s) :
    (s.current.format.isSome → s.current.audioStream.isSome ∧ s.current.audioDecoder.isSome ∨
      ∃ due ≤ s.now + recoveryInterval, ∀ d took, due ≤ s.now + d →
        ∃ s', exec step s [.tick d, .recover true took] = some s' ∧
        s'.current.audioStream = some s.next ∧ s'.current.audioDecoder = some []) ∧
    (∀ candidate, s.pending = some candidate → candidate.audioStream.isSome ∧
      s.current.audioStream.isSome ∧
      candidate.sampleRate = s.current.sampleRate ∧ candidate.channels = s.current.channels) ∧
    ∀ opens took t, s.lastRestart = some t → (s.recover opens took).next ≠ s.next →
      t + recoveryInterval ≤ s.now := by
  have hsound := exec_sound h
  refine ⟨?_, ?_, fun opens took t ht hnext => hsound.spaced ht hnext⟩
  · intro hformat
    rcases hsound.current with ⟨hfresh, -⟩ | ⟨hplaying, hdecoder⟩ | ⟨hwaiting, -, -⟩
    · rw [hfresh] at hformat
      cases hformat
    · exact .inl ⟨hplaying.stream, hdecoder⟩
    · obtain ⟨due, -, hretry, -, -, hsoon⟩ := hwaiting.retryAt
      exact .inr ⟨due, hsoon, fun d took hdue =>
        ⟨_, rfl, hsound.reopens hwaiting.stream hretry hdue took⟩⟩
  · intro candidate hcandidate
    obtain ⟨hcand, hrate, hchannels⟩ := hsound.pending candidate hcandidate
    have hsome : s.pending ≠ none := by
      rw [hcandidate]
      rintro ⟨⟩
    exact ⟨hcand.stream, (hsound.playing (.inl hsome)).1.stream, hrate, hchannels⟩

theorem output_or_retry_failed :
    ∃ s, exec step State.init [.format ⟨48000, 2⟩ true true 0 0 true 0, .output 1,
      .error 1 .deviceNotAvailable, .recover false 7] = some s ∧
      s.current.audioStream = none ∧ ∃ due ≤ s.now + recoveryInterval, ∀ d took, due ≤ s.now + d →
        ∃ s', exec step s [.tick d, .recover true took] = some s' ∧
          s'.current.audioStream = some s.next ∧
          s'.current.audioDecoder = some [] := by
  refine ⟨_, rfl, rfl, ?_⟩
  have hrun : exec step State.init [.format ⟨48000, 2⟩ true true 0 0 true 0, .output 1,
    .error 1 .deviceNotAvailable, .recover false 7] =
    some _ := rfl
  rcases (output_or_retry hrun).1 rfl with ⟨hstream, -⟩ | hretry
  · cases hstream
  · exact hretry

end PlaybackRecovery
end BgDesk
