import BgDesk.BytesCodec
import BgDesk.LittleEndian
import BgDesk.Machine
import BgDesk.PrefixCode

/-!
# The terminal helper

`src/server/terminal_helper.rs` with the session of `src/server/terminal_service.rs` that it serves:
where the terminal of a user cannot be opened by the service, a helper process opens it, and what
the user types and how large the terminal is goes to the helper through a pipe, as messages with a
header. The messages go through a bounded channel to a thread that writes them into the pipe; the
pipe takes and gives bytes in pieces of any length, and any of the threads may fail at any time.

* `encodeHelperMessage` — the messages;
* `Feed` — the session and its writer thread; `Helper` — the input thread of the helper; `step` —
  both with the pipe between them;
* `Wire`, `Reading` — what goes for the bytes under way, and for the helper;
* `helper_executes`, `helper_stops`.
-/

namespace BgDesk
namespace TerminalHelper

/-! ## The code -/

/-- `MSG_TYPE_DATA` -/
def msgTypeData : UInt8 := 0x01

/-- `MSG_TYPE_RESIZE` -/
def msgTypeResize : UInt8 := 0x02

/-- `MSG_HEADER_SIZE` -/
def msgHeaderSize : ℕ := 5

/-- `MAX_PAYLOAD_SIZE` -/
def maxPayloadSize : ℕ := 16 * 1024 * 1024

/-- `CHANNEL_BUFFER_SIZE` -/
def channelBufferSize : ℕ := 500

/-- `payload.len() as u32` keeps the lowest four bytes. -/
def encodeHelperMessage (msgType : UInt8) (payload : Bytes) : Bytes :=
  msgType :: littleEndian 4 payload.length ++ payload

def encodeResizeMessage (rows cols : UInt16) : Bytes :=
  encodeHelperMessage msgTypeResize (littleEndian 2 rows.toNat ++ littleEndian 2 cols.toNat)

/-- What a session has for its terminal. -/
inductive Input where
  | data : Bytes → Input
  | resize : UInt16 → UInt16 → Input
  deriving DecidableEq

/-- What `handle_data` and `stop`, `handle_resize` and `do_sigwinch_resize` put into the channel. -/
def Input.encode : Input → Bytes
  | .data bytes => encodeHelperMessage msgTypeData bytes
  | .resize rows cols => encodeResizeMessage rows cols

/-- What happens to the terminal: a byte is written, or it gets another size. -/
inductive Effect where
  | byte : UInt8 → Effect
  | resize : ℕ → ℕ → Effect
  deriving DecidableEq

/-- A message as the helper reads it. -/
structure Frame where
  msgType : UInt8
  payload : Bytes
  deriving DecidableEq

/-- Why the input thread ends. -/
inductive Stop where
  | exiting : Stop
  | eof : Stop
  | readError : Stop
  /-- "Payload too large", with the header that says so -/
  | tooLarge : Bytes → Stop
  | ptyError : Stop
  /-- "Unknown message type" -/
  | unknown : UInt8 → Stop
  deriving DecidableEq

/-- Where the input thread of the helper is. -/
inductive Phase where
  /-- at the beginning of the loop -/
  | top : Phase
  /-- in `read_exact_or_eof` of the header, with what it has of it -/
  | header : Bytes → Phase
  /-- in `read_exact_or_eof` of the payload: the type, the length, and what it has -/
  | payload : UInt8 → ℕ → Bytes → Phase
  | acting : Frame → Phase
  /-- in `write_all` to the terminal, with what is left -/
  | writing : Bytes → Phase
  | flushing : Phase
  | stopped : Stop → Phase
  deriving DecidableEq

/-- The effects of a message; what a terminal makes of its new size is left to it. -/
def Frame.effects (f : Frame) : List Effect :=
  if f.msgType = msgTypeData then f.payload.map .byte
  else if f.msgType = msgTypeResize then
    if 4 ≤ f.payload.length then [.resize (ofLittleEndian (f.payload.take 2))
      (ofLittleEndian ((f.payload.drop 2).take 2))] else []
  else []

/-- A session and its writer thread, up to the pipe. -/
structure Feed where
  /-- whether a sender of the channel is left -/
  senders : Bool
  channel : List Bytes
  /-- what the writer thread has to write of the message it took -/
  current : Option Bytes
  /-- whether the writer thread goes on; its end closes the pipe and the channel -/
  writer : Bool
  pipe : Bytes
  /-- what the channel took -/
  sent : List Input
  /-- whether the writer thread gave up a message -/
  broken : Bool
  deriving DecidableEq

/-- The input thread of the helper. -/
structure Helper where
  exiting : Bool
  phase : Phase
  /-- `payload_buf.len()` -/
  payloadBuf : ℕ
  /-- what was read, as bytes and as messages -/
  taken : Bytes
  frames : List Frame
  effects : List Effect
  deriving DecidableEq

inductive FeedAct where
  | send : Input → FeedAct
  /-- the last sender is dropped -/
  | close : FeedAct
  /-- the writer thread receives a message, or learns that there will be none -/
  | recv : FeedAct
  | pipeWrite : ℕ → FeedAct
  | pipeFault : FeedAct
  deriving DecidableEq

/-- What the helper does without the pipe. -/
inductive HelperAct where
  /-- the shell of the helper exits -/
  | exit : HelperAct
  /-- `exiting` is looked at -/
  | check : HelperAct
  | readFault : HelperAct
  | act : HelperAct
  | ptyWrite : ℕ → HelperAct
  | ptyFlush : HelperAct
  | ptyFault : HelperAct
  deriving DecidableEq

inductive Act where
  | feed : FeedAct → Act
  /-- `reader.read` gives so many bytes -/
  | read : ℕ → Act
  | readEof : Act
  | helper : HelperAct → Act
  deriving DecidableEq

namespace Feed

/-- `send` and `try_send`; the first waits where the second gives up. -/
def send (m : Input) (s : Feed) : Option Feed :=
  if s.senders && s.writer && decide (s.channel.length < channelBufferSize) then
    some { s with channel := s.channel ++ [m.encode], sent := s.sent ++ [m] }
  else none

/-- `input_rx.recv()` -/
def recv (s : Feed) : Option Feed :=
  if s.writer && s.current.isNone then
    match s.channel with
    | data :: channel => some { s with channel := channel, current := some data }
    | [] => if s.senders then none else some { s with writer := false }
  else none

/-- `write_all` writes some of what it has. -/
def pipeWrite (n : ℕ) (s : Feed) : Option Feed :=
  match s.current with
  | none => none
  | some data =>
    if 0 < n ∧ n ≤ data.length then
      some { s with
        pipe := s.pipe ++ data.take n, current :=
          if n = data.length then none else some (data.drop n) }
    else none

/-- `write_all` fails, and the thread ends. -/
def pipeFault (s : Feed) : Option Feed :=
  if s.current.isSome then some { s with
    current := none, channel := [], writer := false, broken := true } else none

def step (s : Feed) : FeedAct → Option Feed
  | .send m => s.send m
  | .close => some { s with senders := false }
  | .recv => s.recv
  | .pipeWrite n => s.pipeWrite n
  | .pipeFault => s.pipeFault

end Feed

namespace Helper

/-- What follows a header. -/
def afterHeader (header : Bytes) (s : Helper) : Helper :=
  let msgType := header.headD 0
  let payloadLen := ofLittleEndian (header.drop 1)
  if maxPayloadSize < payloadLen then { s with phase := .stopped (.tooLarge header) }
  else
    let s := { s with payloadBuf := max s.payloadBuf payloadLen }
    if 0 < payloadLen then { s with phase := .payload msgType payloadLen [] }
    else { s with phase := .acting ⟨msgType, []⟩, frames := s.frames ++ [⟨msgType, []⟩] }

/-- `read_exact_or_eof` is given bytes; a read that is interrupted changes nothing. -/
def read (bytes : Bytes) (s : Helper) : Option Helper :=
  let s' := { s with taken := s.taken ++ bytes }
  match s.phase with
  | .header got =>
    if (got ++ bytes).length < msgHeaderSize then some { s' with phase := .header (got ++ bytes) }
    else if (got ++ bytes).length = msgHeaderSize then some (s'.afterHeader (got ++ bytes))
    else none
  | .payload msgType len got =>
    if (got ++ bytes).length < len then some { s' with
      phase := .payload msgType len (got ++ bytes) }
    else if (got ++ bytes).length = len then
      some { s' with
        phase := .acting ⟨msgType, got ++ bytes⟩, frames := s.frames ++ [⟨msgType, got ++ bytes⟩] }
    else none
  | _ => none

/-- A read ends the loop. -/
def stopReading (reason : Stop) (s : Helper) : Option Helper :=
  match s.phase with
  | .header _ | .payload _ _ _ => some { s with phase := .stopped reason }
  | _ => none

/-- What is done with a message. -/
def act (s : Helper) : Option Helper :=
  match s.phase with
  | .acting f =>
    some <|
      if f.msgType = msgTypeData then { s with
        phase := if f.payload = [] then .flushing else .writing f.payload }
      else if f.msgType = msgTypeResize then { s with
        phase := .top, effects := s.effects ++ f.effects }
      else { s with phase := .stopped (.unknown f.msgType) }
  | _ => none

/-- `pty_writer.write_all` writes some of what it has. -/
def ptyWrite (n : ℕ) (s : Helper) : Option Helper :=
  match s.phase with
  | .writing data =>
    if 0 < n ∧ n ≤ data.length then
      some { s with
        effects := s.effects ++ (data.take n).map .byte,
        phase := if n = data.length then .flushing else .writing (data.drop n) }
    else none
  | _ => none

def step (s : Helper) : HelperAct → Option Helper
  | .exit => some { s with exiting := true }
  | .check =>
    if s.phase = .top then some { s with
      phase := if s.exiting then .stopped .exiting else .header [] } else none
  | .readFault => s.stopReading .readError
  | .act => s.act
  | .ptyWrite n => s.ptyWrite n
  | .ptyFlush => if s.phase = .flushing then some { s with phase := .top } else none
  | .ptyFault =>
    match s.phase with
    | .writing _ | .flushing => some { s with phase := .stopped .ptyError }
    | _ => none

end Helper

structure State where
  feed : Feed
  helper : Helper
  deriving DecidableEq

def start : State := ⟨⟨true, [], none, true, [], [], false⟩, ⟨false, .top, 4096, [], [], []⟩⟩

def step (s : State) : Act → Option State
  | .feed a => (s.feed.step a).map fun feed => { s with feed := feed }
  | .read n =>
    if 0 < n ∧ n ≤ s.feed.pipe.length then
      (s.helper.read (s.feed.pipe.take n)).map fun helper =>
        ⟨{ s.feed with pipe := s.feed.pipe.drop n }, helper⟩
    else none
  | .readEof =>
    if !s.feed.writer && s.feed.pipe.isEmpty then (s.helper.stopReading .eof).map fun helper =>
      { s with helper := helper } else none
  | .helper a => (s.helper.step a).map fun helper => { s with helper := helper }

/-! ## Messages -/

/-- A message as it is written. -/
def Frame.encode (f : Frame) : Bytes := encodeHelperMessage f.msgType f.payload

/-- What the header has room for. -/
def Frame.Short (f : Frame) : Prop := f.payload.length < 2 ^ 32

instance (f : Frame) : Decidable f.Short := inferInstanceAs (Decidable (_ < _))

theorem frame_selfDelimiting : SelfDelimiting Frame.Short Frame.encode := by
  refine ⟨?_, fun f => List.cons_ne_nil _ _⟩
  rintro ⟨t, p⟩ ⟨t', p'⟩ x y hp hp' heq
  simp only [Frame.encode, encodeHelperMessage, List.cons_append, List.append_assoc,
    List.cons.injEq] at heq
  obtain ⟨rfl, heq⟩ := heq
  obtain ⟨hlength, heq⟩ := List.append_inj heq (by rw [littleEndian_length, littleEndian_length])
  have hsame : p.length = p'.length := littleEndian_inj hp hp' hlength
  obtain ⟨rfl, -⟩ := List.append_inj heq hsame
  rfl

/-- The header of a message that is read again. -/
theorem header_eq {header : Bytes} (h : header.length = msgHeaderSize) :
    header = header.headD 0 :: littleEndian 4 (ofLittleEndian (header.drop 1)) := by
  cases header with
  | nil => cases h
  | cons t rest =>
    have hrest : rest.length = 4 := Nat.succ.inj h
    have hback := littleEndian_ofLittleEndian rest
    rw [hrest] at hback
    rw [List.headD_cons, List.drop_succ_cons, List.drop_zero, hback]

def Input.frame : Input → Frame
  | .data bytes => ⟨msgTypeData, bytes⟩
  | .resize rows cols => ⟨msgTypeResize, littleEndian 2 rows.toNat ++ littleEndian 2 cols.toNat⟩

theorem frame_encode (m : Input) : m.frame.encode = m.encode := by cases m <;> rfl

/-- What a session means by it. -/
def Input.effects : Input → List Effect
  | .data bytes => bytes.map .byte
  | .resize rows cols => [.resize rows.toNat cols.toNat]

theorem frame_effects (m : Input) : m.frame.effects = m.effects := by
  cases m with
  | data bytes => rfl
  | resize rows cols =>
    have hrows : (littleEndian 2 rows.toNat ++ littleEndian 2 cols.toNat).take 2 =
      littleEndian 2 rows.toNat :=
      List.take_left' (littleEndian_length 2 _)
    have hcols : ((littleEndian 2 rows.toNat ++ littleEndian 2 cols.toNat).drop 2).take 2 =
        littleEndian 2 cols.toNat := by
      rw [List.drop_left' (littleEndian_length 2 _)]
      exact List.take_of_length_le (Nat.le_of_eq (littleEndian_length 2 _))
    have hlength : 4 ≤ (littleEndian 2 rows.toNat ++ littleEndian 2 cols.toNat).length := by
      rw [List.length_append, littleEndian_length, littleEndian_length]
    have hne : msgTypeResize ≠ msgTypeData := by decide
    have hr : rows.toNat < 256 ^ 2 := rows.toNat_lt
    have hc : cols.toNat < 256 ^ 2 := cols.toNat_lt
    rw [Input.frame, Frame.effects, if_neg hne, if_pos rfl, if_pos hlength, hrows, hcols,
      ofLittleEndian_littleEndian,
      ofLittleEndian_littleEndian, Nat.mod_eq_of_lt hr, Nat.mod_eq_of_lt hc, Input.effects]

theorem frame_known (m : Input) :
    m.frame.msgType = msgTypeData ∨ m.frame.msgType = msgTypeResize := by
  cases m with
  | data bytes => exact .inl rfl
  | resize rows cols => exact .inr rfl

/-! ## Bytes under way -/

/-- What was sent is what the helper took, what is in the pipe, what is being written and what
waits, in this order, and nothing is missing unless the writer thread gave up; its end leaves
nothing over. -/
structure Wire (taken : Bytes) (s : Feed) : Prop where
  sent : taken ++ s.pipe ++ s.current.getD [] ++ s.channel.flatten <+: s.sent.flatMap Input.encode
  whole : s.broken = false → taken ++ s.pipe ++ s.current.getD [] ++ s.channel.flatten =
    s.sent.flatMap Input.encode
  dead : s.broken = true → s.writer = false
  drained : s.writer = false → s.current = none ∧ s.channel = []

namespace Wire

variable {taken : Bytes} {s s' : Feed}

/-- The helper takes bytes out of the pipe. -/
theorem take (h : Wire taken s) (n : ℕ) :
    Wire (taken ++ s.pipe.take n) { s with pipe := s.pipe.drop n } := by
  have hbytes : taken ++ s.pipe.take n ++ s.pipe.drop n = taken ++ s.pipe := by
    rw [List.append_assoc, List.take_append_drop]
  refine ⟨?_, ?_, h.dead, h.drained⟩
  · dsimp only
    rw [hbytes]
    exact h.sent
  · dsimp only
    rw [hbytes]
    exact h.whole

theorem unbroken (h : Wire taken s) (hwriter : s.writer = true) : s.broken = false := by
  rw [← Bool.not_eq_true]
  intro hbroken
  rw [h.dead hbroken] at hwriter
  cases hwriter

theorem step (h : Wire taken s) {a : FeedAct} (hstep : s.step a = some s') : Wire taken s' := by
  cases a with
  | send m =>
    rw [Feed.step, Feed.send] at hstep
    split at hstep
    · rename_i hready
      obtain rfl := Option.some.inj hstep
      simp only [Bool.and_eq_true] at hready
      have hall := h.whole (h.unbroken hready.1.2)
      have hnext : taken ++ s.pipe ++ s.current.getD [] ++ (s.channel ++ [m.encode]).flatten =
          (s.sent ++ [m]).flatMap Input.encode := by
        rw [List.flatten_append, List.flatten_singleton, ← List.append_assoc, hall,
          List.flatMap_append, List.flatMap_singleton]
      refine ⟨hnext ▸ List.prefix_refl _, fun _ => hnext, h.dead, ?_⟩
      intro hdead
      dsimp only at hdead
      rw [hready.1.2] at hdead
      cases hdead
    · cases hstep
  | close =>
    obtain rfl := Option.some.inj hstep
    exact ⟨h.sent, h.whole, h.dead, h.drained⟩
  | recv =>
    rw [Feed.step, Feed.recv] at hstep
    split at hstep
    · rename_i hready
      rw [Bool.and_eq_true, Option.isNone_iff_eq_none] at hready
      have hbroken := h.unbroken hready.1
      have hall := h.whole hbroken
      rw [hready.2, Option.getD_none, List.append_nil] at hall
      split at hstep
      · rename_i data channel hchannel
        obtain rfl := Option.some.inj hstep
        rw [hchannel, List.flatten_cons, ← List.append_assoc] at hall
        refine ⟨hall ▸ List.prefix_refl _, fun _ => hall, h.dead, ?_⟩
        intro hdead
        dsimp only at hdead
        rw [hready.1] at hdead
        cases hdead
      · rename_i hchannel
        split at hstep
        · cases hstep
        · obtain rfl := Option.some.inj hstep
          exact ⟨h.sent, h.whole, fun _ => rfl, fun _ => ⟨hready.2, hchannel⟩⟩
    · cases hstep
  | pipeWrite n =>
    rw [Feed.step, Feed.pipeWrite] at hstep
    split at hstep
    · cases hstep
    · rename_i data hcurrent
      split at hstep
      · obtain rfl := Option.some.inj hstep
        have hbytes : taken ++ (s.pipe ++ data.take n) ++
          (if n = data.length then none else some (data.drop n)).getD [] =
            taken ++ s.pipe ++ s.current.getD [] := by
          have hrest : (if n = data.length then none else some (data.drop n)).getD [] =
              data.drop n := by
            split
            · rename_i hn
              rw [hn, List.drop_length, Option.getD_none]
            · rfl
          rw [hrest, hcurrent, Option.getD_some, ← List.append_assoc taken,
            List.append_assoc _ (data.take n), List.take_append_drop]
        refine ⟨?_, ?_, h.dead, ?_⟩
        · dsimp only
          rw [hbytes]
          exact h.sent
        · dsimp only
          rw [hbytes]
          exact h.whole
        · intro hdead
          have hnone := (h.drained hdead).1
          rw [hcurrent] at hnone
          cases hnone
      · cases hstep
  | pipeFault =>
    rw [Feed.step, Feed.pipeFault] at hstep
    split at hstep
    · obtain rfl := Option.some.inj hstep
      refine ⟨?_, ?_, fun _ => rfl, fun _ => ⟨rfl, rfl⟩⟩
      · refine List.IsPrefix.trans ?_ h.sent
        dsimp only
        rw [Option.getD_none, List.flatten_nil, List.append_nil, List.append_nil, List.append_assoc]
        exact List.prefix_append _ _
      · rintro ⟨⟩
    · cases hstep

/-- Once the writer thread has ended nothing more is written or sent. -/
theorem ended (h : Wire taken s) {a : FeedAct} (hwriter : s.writer = false)
    (hstep : s.step a = some s') : s'.writer = false ∧ s'.pipe = s.pipe := by
  obtain ⟨hcurrent, -⟩ := h.drained hwriter
  cases a with
  | send m => simp [Feed.step, Feed.send, hwriter] at hstep
  | close =>
    obtain rfl := Option.some.inj hstep
    exact ⟨hwriter, rfl⟩
  | recv => simp [Feed.step, Feed.recv, hwriter] at hstep
  | pipeWrite n => simp [Feed.step, Feed.pipeWrite, hcurrent] at hstep
  | pipeFault => simp [Feed.step, Feed.pipeFault, hcurrent] at hstep

/-- All that was sent went through the pipe. -/
theorem all_taken (h : Wire taken s) (hwhole : s.broken = false) (hpipe : s.pipe = [])
    (hcurrent : s.current = none) (hchannel : s.channel = []) :
    taken = s.sent.flatMap Input.encode := by
  have hall := h.whole hwhole
  rw [hpipe, hcurrent, hchannel, Option.getD_none, List.flatten_nil, List.append_nil,
    List.append_nil, List.append_nil] at hall
  exact hall

end Wire

/-! ## The helper -/

/-- The bytes of some messages. -/
def codes (frames : List Frame) : Bytes := frames.flatMap Frame.encode

/-- What they do. -/
def does (frames : List Frame) : List Effect := frames.flatMap Frame.effects

@[simp] theorem codes_append (fs : List Frame) (f : Frame) :
    codes (fs ++ [f]) = codes fs ++ f.encode := by
  simp [codes]

@[simp] theorem does_append (fs : List Frame) (f : Frame) :
    does (fs ++ [f]) = does fs ++ f.effects := by
  simp [does]

/-- The beginning of a message that is not whole. -/
def Partial (got : Bytes) : Prop :=
  got.length < msgHeaderSize ∨
    ∃ msgType len payload, got = msgType :: littleEndian 4 len ++ payload ∧ payload.length < len ∧
      len ≤ maxPayloadSize

/-- A message in it would be whole. -/
theorem Partial.no_message {got : Bytes} (h : Partial got) {f : Frame} (hf : f.Short) :
    ¬ f.encode <+: got := by
  rintro ⟨y, rfl⟩
  rcases h with hheader | ⟨msgType, len, payload, heq, hlt, hle⟩
  · simp [Frame.encode, encodeHelperMessage, msgHeaderSize] at hheader
    omega
  · simp only [Frame.encode, encodeHelperMessage, List.cons_append, List.append_assoc,
      List.cons.injEq] at heq
    obtain ⟨hlength, hpayload⟩ :=
      List.append_inj heq.2 (by rw [littleEndian_length, littleEndian_length])
    have hlen : len < 256 ^ 4 := Nat.lt_of_le_of_lt hle (by decide)
    have hsame : f.payload.length = len := littleEndian_inj hf hlen hlength
    have hlonger := congrArg List.length hpayload
    rw [List.length_append] at hlonger
    omega

/-- What the helper has read beyond its messages, and what it has still to do of them, by where it
is. -/
def Phase.Has (frames : List Frame) (got : Bytes) (owed : List Effect) : Phase → Prop
  | .top | .flushing => got = [] ∧ owed = []
  | .header bytes => got = bytes ∧ bytes.length < msgHeaderSize ∧ owed = []
  | .payload msgType len bytes =>
    got = msgType :: littleEndian 4 len ++ bytes ∧ bytes.length < len ∧ len ≤ maxPayloadSize ∧
      owed = []
  | .acting f => got = [] ∧ owed = f.effects ∧ f ∈ frames
  | .writing rest => got = [] ∧ owed = rest.map .byte
  | .stopped reason => (reason ≠ .ptyError → owed = []) ∧ (reason = .eof → Partial got) ∧
      (∀ header, reason = .tooLarge header → got = header ∧ header.length = msgHeaderSize ∧
        maxPayloadSize < ofLittleEndian (header.drop 1)) ∧
      ∀ t, reason = .unknown t → t ≠ msgTypeData ∧ t ≠ msgTypeResize ∧ ∃ f ∈ frames, f.msgType = t

/-- **The helper has read whole messages, none too large, and done what they say**, up to what it is
at. -/
structure Reading (s : Helper) : Prop where
  stands : ∃ got owed, s.taken = codes s.frames ++ got ∧ s.effects ++ owed = does s.frames ∧
    s.phase.Has s.frames got owed
  fits : ∀ f ∈ s.frames, f.payload.length ≤ maxPayloadSize
  buffer : s.payloadBuf ≤ maxPayloadSize

/-- The helper goes on after it took some bytes, and has not seen the end of the pipe. -/
structure Goes (bytes : Bytes) (s s' : Helper) : Prop where
  reading : Reading s'
  taken : s'.taken = s.taken ++ bytes
  eof : s'.phase = .stopped .eof → s.phase = .stopped .eof

namespace Reading

variable {s s' : Helper}

/-- The helper is elsewhere, with the same messages. -/
theorem goOn (h : Reading s) {phase : Phase} {effects : List Effect} {got : Bytes}
    {owed : List Effect} (htaken : s.taken = codes s.frames ++ got)
    (heffects : effects ++ owed = does s.frames) (hphase : phase.Has s.frames got owed)
    (hne : phase ≠ .stopped .eof) : Goes [] s { s with phase := phase, effects := effects } :=
  ⟨⟨⟨got, owed, htaken, heffects, hphase⟩, h.fits, h.buffer⟩, (List.append_nil _).symm,
    fun heof => absurd heof hne⟩

/-- A message is read. -/
theorem message (h : Reading s) {f : Frame} {taken : Bytes} {buf : ℕ}
    (htaken : taken = codes s.frames ++ f.encode) (heffects : s.effects = does s.frames)
    (hf : f.payload.length ≤ maxPayloadSize) (hbuf : buf ≤ maxPayloadSize) : Reading { s with
      taken := taken, phase := .acting f, frames := s.frames ++ [f], payloadBuf := buf } := by
  refine ⟨⟨[], f.effects, ?_, ?_, rfl, rfl, List.mem_append_right _ (List.mem_singleton_self f)⟩,
    ?_, hbuf⟩
  · rw [codes_append, List.append_nil]
    exact htaken
  · rw [does_append]
    exact congrArg (· ++ _) heffects
  · intro g hg
    rcases List.mem_append.mp hg with hg | hg
    · exact h.fits g hg
    · obtain rfl := List.mem_singleton.mp hg
      exact hf

/-- A header is complete. -/
theorem afterHeader (h : Reading s) {bytes header : Bytes}
    (htaken : s.taken ++ bytes = codes s.frames ++ header) (hheader : header.length = msgHeaderSize)
    (heffects : s.effects = does s.frames) :
    Goes bytes s ({ s with taken := s.taken ++ bytes }.afterHeader header) := by
  have heq := header_eq hheader
  rw [Helper.afterHeader]
  dsimp only
  split
  · rename_i hlarge
    refine ⟨⟨⟨header, [], htaken, by
      rw [List.append_nil]; exact heffects, fun _ => rfl, ?_, ?_, ?_⟩, h.fits, h.buffer⟩,
        rfl, by rintro ⟨⟩⟩
    · rintro ⟨⟩
    · rintro header' ⟨⟩
      exact ⟨rfl, hheader, hlarge⟩
    · rintro t ⟨⟩
  · rename_i hle
    have hmax : max s.payloadBuf (ofLittleEndian (header.drop 1)) ≤ maxPayloadSize :=
      Nat.max_le.mpr ⟨h.buffer, Nat.le_of_not_lt hle⟩
    split
    · rename_i hpos
      refine ⟨⟨⟨header, [], htaken, by
        rw [List.append_nil]; exact heffects, ?_, hpos, Nat.le_of_not_lt hle, rfl⟩, h.fits, hmax⟩,
          rfl,
        by rintro ⟨⟩⟩
      rw [List.append_nil]
      exact heq
    · rename_i hzero
      have hlen : ofLittleEndian (header.drop 1) = 0 := Nat.eq_zero_of_not_pos hzero
      refine ⟨h.message ?_ heffects (Nat.zero_le _) hmax, rfl, by rintro ⟨⟩⟩
      rw [htaken, Frame.encode, encodeHelperMessage, List.append_nil, List.length_nil,
        ← hlen, ← heq]

theorem read (h : Reading s) {bytes : Bytes} (hread : s.read bytes = some s') :
    Goes bytes s s' := by
  obtain ⟨got, owed, htaken, heffects, hphase⟩ := h.stands
  unfold Helper.read at hread
  cases hp : s.phase with
  | header before =>
    rw [hp] at hread hphase
    obtain ⟨rfl, -, rfl⟩ := hphase
    rw [List.append_nil] at heffects
    have hmore : s.taken ++ bytes = codes s.frames ++ (got ++ bytes) := by
      rw [htaken, List.append_assoc]
    dsimp only at hread
    split at hread
    · rename_i hlt
      obtain rfl := Option.some.inj hread
      exact ⟨⟨⟨_, [], hmore, by rw [List.append_nil]; exact heffects, rfl, hlt, rfl⟩, h.fits,
        h.buffer⟩, rfl, by rintro ⟨⟩⟩
    · split at hread
      · rename_i hfull
        obtain rfl := Option.some.inj hread
        exact h.afterHeader hmore hfull heffects
      · cases hread
  | payload msgType len before =>
    rw [hp] at hread hphase
    obtain ⟨rfl, -, hle, rfl⟩ := hphase
    rw [List.append_nil] at heffects
    have hmore : s.taken ++ bytes = codes s.frames ++
        (msgType :: littleEndian 4 len ++ (before ++ bytes)) := by
      rw [htaken, List.append_assoc, List.append_assoc]
    dsimp only at hread
    split at hread
    · rename_i hlt
      obtain rfl := Option.some.inj hread
      exact ⟨⟨⟨_, [], hmore, by rw [List.append_nil]; exact heffects, rfl, hlt, hle, rfl⟩, h.fits,
        h.buffer⟩, rfl, by rintro ⟨⟩⟩
    · split at hread
      · rename_i hfull
        obtain rfl := Option.some.inj hread
        exact ⟨h.message (by rw [hmore, Frame.encode, encodeHelperMessage, hfull])
          heffects (hfull ▸ hle) h.buffer, rfl, by rintro ⟨⟩⟩
      · cases hread
  | top | acting | writing | flushing | stopped =>
    rw [hp] at hread
    cases hread

/-- A read ends the loop, for a reason that says nothing of what was read. -/
theorem stopReading (h : Reading s) {reason : Stop} (hlarge : ∀ header, reason ≠ .tooLarge header)
    (hknown : ∀ t, reason ≠ .unknown t) (hstop : s.stopReading reason = some s') :
    Reading s' ∧ s' = { s with phase := .stopped reason } := by
  obtain ⟨got, owed, htaken, heffects, hphase⟩ := h.stands
  have hstopped : Partial got → owed = [] → Reading { s with phase := .stopped reason } := by
    rintro hpart rfl
    exact ⟨⟨got, [], htaken, heffects, fun _ => rfl, fun _ => hpart,
      fun header heq => absurd heq (hlarge header),
      fun t heq => absurd heq (hknown t)⟩, h.fits, h.buffer⟩
  unfold Helper.stopReading at hstop
  cases hp : s.phase with
  | header before =>
    rw [hp] at hstop hphase
    obtain rfl := Option.some.inj hstop
    obtain ⟨rfl, hlt, howed⟩ := hphase
    exact ⟨hstopped (.inl hlt) howed, rfl⟩
  | payload msgType len before =>
    rw [hp] at hstop hphase
    obtain rfl := Option.some.inj hstop
    obtain ⟨rfl, hlt, hle, howed⟩ := hphase
    exact ⟨hstopped (.inr ⟨msgType, len, before, rfl, hlt, hle⟩) howed, rfl⟩
  | top | acting | writing | flushing | stopped =>
    rw [hp] at hstop
    cases hstop

theorem act (h : Reading s) (hact : s.act = some s') : Goes [] s s' := by
  obtain ⟨got, owed, htaken, heffects, hphase⟩ := h.stands
  unfold Helper.act at hact
  split at hact
  · rename_i f hp
    obtain rfl := Option.some.inj hact
    rw [hp] at hphase
    obtain ⟨rfl, rfl, hmem⟩ := hphase
    split
    · rename_i hdata
      have hbytes : f.effects = f.payload.map .byte := by rw [Frame.effects, if_pos hdata]
      refine h.goOn htaken heffects ?_ (by split <;> rintro ⟨⟩)
      split
      · rename_i hnil
        rw [hbytes, hnil]
        exact ⟨rfl, rfl⟩
      · exact ⟨rfl, hbytes⟩
    · rename_i hdata
      split
      · exact h.goOn htaken (by rw [List.append_nil]; exact heffects) ⟨rfl, rfl⟩ (by rintro ⟨⟩)
      · rename_i hresize
        have hnone : f.effects = [] := by rw [Frame.effects, if_neg hdata, if_neg hresize]
        refine h.goOn htaken heffects ⟨fun _ => hnone, ?_, ?_, ?_⟩ (by rintro ⟨⟩)
        · rintro ⟨⟩
        · rintro header ⟨⟩
        · rintro t ⟨⟩
          exact ⟨hdata, hresize, f, hmem, rfl⟩
  · cases hact

theorem ptyWrite (h : Reading s) {n : ℕ} (hwrite : s.ptyWrite n = some s') : Goes [] s s' := by
  obtain ⟨got, owed, htaken, heffects, hphase⟩ := h.stands
  unfold Helper.ptyWrite at hwrite
  split at hwrite
  · rename_i data hp
    split at hwrite
    · obtain rfl := Option.some.inj hwrite
      rw [hp] at hphase
      obtain ⟨rfl, rfl⟩ := hphase
      have hwritten : s.effects ++ (data.take n).map .byte ++ (data.drop n).map .byte =
          does s.frames := by
        rw [List.append_assoc, ← List.map_append, List.take_append_drop, heffects]
      refine h.goOn htaken hwritten ?_ (by split <;> rintro ⟨⟩)
      split
      · rename_i hn
        rw [hn, List.drop_length]
        exact ⟨rfl, rfl⟩
      · exact ⟨rfl, rfl⟩
    · cases hwrite
  · cases hwrite

theorem step (h : Reading s) {a : HelperAct} (hstep : s.step a = some s') : Goes [] s s' := by
  obtain ⟨got, owed, htaken, heffects, hphase⟩ := h.stands
  cases a with
  | exit =>
    obtain rfl := Option.some.inj hstep
    exact ⟨⟨h.stands, h.fits, h.buffer⟩, (List.append_nil _).symm, id⟩
  | check =>
    rw [Helper.step] at hstep
    split at hstep
    · rename_i htop
      obtain rfl := Option.some.inj hstep
      rw [htop] at hphase
      obtain ⟨rfl, rfl⟩ := hphase
      refine h.goOn htaken heffects ?_ (by split <;> rintro ⟨⟩)
      split
      · exact ⟨fun _ => rfl, by rintro ⟨⟩, by rintro _ ⟨⟩, by rintro _ ⟨⟩⟩
      · exact ⟨rfl, by decide, rfl⟩
    · cases hstep
  | readFault =>
    obtain ⟨hreading, rfl⟩ := h.stopReading (by rintro _ ⟨⟩) (by rintro _ ⟨⟩) hstep
    exact ⟨hreading, (List.append_nil _).symm, by rintro ⟨⟩⟩
  | act => exact h.act hstep
  | ptyWrite n => exact h.ptyWrite hstep
  | ptyFlush =>
    rw [Helper.step] at hstep
    split at hstep
    · rename_i hp
      obtain rfl := Option.some.inj hstep
      rw [hp] at hphase
      exact h.goOn htaken heffects hphase (by rintro ⟨⟩)
    · cases hstep
  | ptyFault =>
    have hfailed : Goes [] s { s with phase := .stopped .ptyError } :=
      h.goOn htaken heffects ⟨fun hne => absurd rfl hne, by
        rintro ⟨⟩, by rintro _ ⟨⟩, by rintro _ ⟨⟩⟩ (by rintro ⟨⟩)
    rw [Helper.step] at hstep
    split at hstep
    · obtain rfl := Option.some.inj hstep
      exact hfailed
    · obtain rfl := Option.some.inj hstep
      exact hfailed
    · cases hstep

end Reading

/-! ## Runs -/

/-- What every step preserves. -/
structure Inv (s : State) : Prop where
  wire : Wire s.helper.taken s.feed
  reading : Reading s.helper
  eof : s.helper.phase = .stopped .eof → s.feed.writer = false ∧ s.feed.pipe = []

theorem start_inv : Inv start := by
  refine ⟨⟨List.prefix_refl _, fun _ => rfl, ?_, ?_⟩,
    ⟨⟨[], [], rfl, rfl, rfl, rfl⟩, ?_, by decide⟩, ?_⟩
  · rintro ⟨⟩
  · rintro ⟨⟩
  · rintro f ⟨⟩
  · rintro ⟨⟩

theorem step_inv {s s' : State} {a : Act} (h : Inv s) (hstep : step s a = some s') : Inv s' := by
  cases a with
  | feed a =>
    obtain ⟨feed, hfeed, rfl⟩ := Option.map_eq_some_iff.mp hstep
    refine ⟨h.wire.step hfeed, h.reading, fun heof => ?_⟩
    obtain ⟨hwriter, hpipe⟩ := h.eof heof
    obtain ⟨hwriter', hpipe'⟩ := h.wire.ended hwriter hfeed
    exact ⟨hwriter', hpipe'.trans hpipe⟩
  | read n =>
    rw [step] at hstep
    split at hstep
    · rename_i hpos
      obtain ⟨helper, hread, rfl⟩ := Option.map_eq_some_iff.mp hstep
      obtain ⟨hreading, htaken, heof⟩ := h.reading.read hread
      refine ⟨htaken ▸ h.wire.take n, hreading, fun hend => ?_⟩
      have hpipe := (h.eof (heof hend)).2
      rw [hpipe, List.length_nil] at hpos
      omega
    · cases hstep
  | readEof =>
    rw [step] at hstep
    split at hstep
    · rename_i hready
      obtain ⟨helper, hstop, rfl⟩ := Option.map_eq_some_iff.mp hstep
      simp only [Bool.and_eq_true, Bool.not_eq_true', List.isEmpty_iff] at hready
      obtain ⟨hreading, rfl⟩ := h.reading.stopReading (by rintro _ ⟨⟩) (by rintro _ ⟨⟩) hstop
      exact ⟨h.wire, hreading, fun _ => hready⟩
    · cases hstep
  | helper a =>
    obtain ⟨helper, hhelper, rfl⟩ := Option.map_eq_some_iff.mp hstep
    obtain ⟨hreading, htaken, heof⟩ := h.reading.step hhelper
    refine ⟨?_, hreading, fun hend => h.eof (heof hend)⟩
    dsimp only
    rw [htaken, List.append_nil]
    exact h.wire

theorem exec_inv {acts : List Act} {s : State} (hrun : exec step start acts = some s) : Inv s :=
  exec_invariant (fun _ _ _ => step_inv) start_inv hrun

/-- A message the helper does not refuse. -/
def Input.fits (m : Input) : Bool := decide (m.frame.payload.length ≤ maxPayloadSize)

theorem codes_frames (ms : List Input) : codes (ms.map Input.frame) = ms.flatMap Input.encode := by
  rw [codes, List.flatMap_map]
  exact List.flatMap_congr fun m _ => frame_encode m

theorem does_frames (ms : List Input) : does (ms.map Input.frame) = ms.flatMap Input.effects := by
  rw [does, List.flatMap_map]
  exact List.flatMap_congr fun m _ => frame_effects m

/-- **The helper reads the messages that were sent**, in their order and as they were. -/
theorem sent_split {s : State} (h : Inv s) (hshort : ∀ m ∈ s.feed.sent, m.frame.Short) :
    ∃ done after got owed, s.feed.sent = done ++ after ∧ (∀ m ∈ done, m.fits = true) ∧
      done.map Input.frame = s.helper.frames ∧
      s.helper.taken = done.flatMap Input.encode ++ got ∧ got <+: codes (after.map Input.frame) ∧
      s.helper.effects ++ owed = done.flatMap Input.effects ∧
        s.helper.phase.Has s.helper.frames got owed := by
  obtain ⟨got, owed, htaken, heffects, hphase⟩ := h.reading.stands
  have hall : codes s.helper.frames ++ got <+: codes (s.feed.sent.map Input.frame) := by
    rw [codes_frames, ← htaken]
    refine List.IsPrefix.trans ?_ h.wire.sent
    rw [List.append_assoc, List.append_assoc]
    exact List.prefix_append _ _
  have hframes : ∀ f ∈ s.helper.frames, f.Short := fun f hf =>
    Nat.lt_of_le_of_lt (h.reading.fits f hf) (by decide)
  have hsent : ∀ f ∈ s.feed.sent.map Input.frame, f.Short := by
    intro f hf
    obtain ⟨m, hm, rfl⟩ := List.mem_map.mp hf
    exact hshort m hm
  obtain ⟨rest, hrest, hnext⟩ := frame_selfDelimiting.split hframes hsent hall
  obtain ⟨done, after, hsplit, hdone, rfl⟩ := List.map_eq_append_iff.mp hrest
  refine ⟨done, after, got, owed, hsplit, ?_, hdone, ?_, hnext, ?_, hphase⟩
  · intro m hm
    exact decide_eq_true (h.reading.fits _ (hdone ▸ List.mem_map_of_mem hm))
  · rw [htaken, ← hdone, codes_frames]
  · rw [heffects, ← hdone, does_frames]

/-- With nothing under way what is left over is read, and if it is no whole message then there is
none left. -/
theorem all_done {taken got : Bytes} {done after : List Input}
    (hall : taken = (done ++ after).flatMap Input.encode)
    (htaken : taken = done.flatMap Input.encode ++ got)
    (hgot : ∀ m ∈ after, ¬ m.frame.encode <+: got) : after = [] := by
  cases after with
  | nil => rfl
  | cons m after =>
    rw [hall, List.flatMap_append] at htaken
    have hcode := List.append_cancel_left htaken
    rw [List.flatMap_cons, ← frame_encode] at hcode
    exact absurd (hcode ▸ List.prefix_append _ _) (hgot m List.mem_cons_self)

/-- A byte and a size in pieces. -/
def pieces : List Act :=
  [.feed (.send (.data [65])), .feed (.send (.resize 24 80)), .feed .recv, .feed (.pipeWrite 6),
    .helper .check, .read 5, .read 1,
    .helper .act, .helper (.ptyWrite 1), .helper .ptyFlush, .helper .check, .feed .recv,
      .feed (.pipeWrite 3), .read 2, .feed (.pipeWrite 6),
    .read 3, .read 4, .helper .act]

/-- **The helper stops after whole messages**, unless the terminal fails it: it never finds a type
it does not know; a length it refuses is that of a message too large, and all before it was done;
and after the end of the pipe all that was sent was done, unless the writer thread gave up. -/
theorem helper_stops {acts : List Act} {s : State} {reason : Stop}
    (hrun : exec step start acts = some s) (hshort : ∀ m ∈ s.feed.sent, m.frame.Short)
    (hstop : s.helper.phase = .stopped reason) : (∀ t, reason ≠ .unknown t) ∧
      (reason ≠ .ptyError → ∃ done, done <+: s.feed.sent ∧
        s.helper.effects = done.flatMap Input.effects) ∧
      (∀ header, reason = .tooLarge header → ∃ m after,
        s.feed.sent = s.feed.sent.takeWhile Input.fits ++ m :: after ∧ m.fits = false ∧
        m.encode.take msgHeaderSize = header ∧
          s.helper.effects = (s.feed.sent.takeWhile Input.fits).flatMap Input.effects) ∧
      (reason = .eof → s.feed.broken = false →
        s.helper.effects = s.feed.sent.flatMap Input.effects) := by
  have h := exec_inv hrun
  obtain ⟨done, after, got, owed, hsent, hfits, hdone, htaken, hnext, heffects, hphase⟩ :=
    sent_split h hshort
  rw [hstop] at hphase
  obtain ⟨hwhole, hpart, hlarge, hunknown⟩ := hphase
  have hafter : ∀ m ∈ after, m.frame.Short := fun m hm =>
    hshort m (hsent ▸ List.mem_append_right _ hm)
  have hall : reason ≠ .ptyError → s.helper.effects = done.flatMap Input.effects := by
    intro hne
    rw [← heffects, hwhole hne, List.append_nil]
  refine ⟨?_, fun hne => ⟨done, hsent ▸ List.prefix_append _ _, hall hne⟩, ?_, ?_⟩
  · intro t ht
    obtain ⟨hdata, hresize, f, hf, rfl⟩ := hunknown t ht
    rw [← hdone] at hf
    obtain ⟨m, -, rfl⟩ := List.mem_map.mp hf
    exact (frame_known m).elim hdata hresize
  · rintro header rfl
    obtain ⟨rfl, hsize, hmax⟩ := hlarge header rfl
    obtain ⟨y, hy⟩ := hnext
    cases after with
    | nil =>
      rw [List.map_nil, codes, List.flatMap_nil, List.append_eq_nil_iff] at hy
      rw [hy.1] at hsize
      cases hsize
    | cons m after =>
      have hcode : got ++ y = (m.frame.msgType :: littleEndian 4 m.frame.payload.length) ++
          (m.frame.payload ++ codes (after.map Input.frame)) := by
        rw [hy, List.map_cons, codes, List.flatMap_cons, Frame.encode, encodeHelperMessage,
          List.append_assoc]
        rfl
      obtain ⟨hfirst, -⟩ :=
        List.append_inj hcode (by rw [hsize, List.length_cons, littleEndian_length]; rfl)
      have hlong : maxPayloadSize < m.frame.payload.length := by
        have hm : m.frame.payload.length < 256 ^ 4 := hafter m List.mem_cons_self
        rw [hfirst, List.drop_succ_cons, List.drop_zero, ofLittleEndian_littleEndian,
          Nat.mod_eq_of_lt hm] at hmax
        exact hmax
      have hrefused : m.fits = false := decide_eq_false (Nat.not_le.mpr hlong)
      have hbefore : s.feed.sent.takeWhile Input.fits = done := by
        rw [hsent, List.takeWhile_append_of_pos hfits,
          List.takeWhile_cons_of_neg (by rw [hrefused]; decide), List.append_nil]
      refine ⟨m, after, by rw [hbefore]; exact hsent, hrefused, ?_, ?_⟩
      · rw [← frame_encode, Frame.encode, encodeHelperMessage, hfirst]
        exact List.take_left' (by rw [List.length_cons, littleEndian_length]; rfl)
      · rw [hbefore]
        exact hall (by rintro ⟨⟩)
  · rintro rfl hunbroken
    obtain ⟨hwriter, hpipe⟩ := h.eof hstop
    obtain ⟨hcurrent, hchannel⟩ := h.wire.drained hwriter
    have hcodes := h.wire.all_taken hunbroken hpipe hcurrent hchannel
    obtain rfl := all_done (hsent ▸ hcodes) htaken fun m hm => (hpart rfl).no_message (hafter m hm)
    rw [List.append_nil] at hsent
    rw [hsent]
    exact hall (by rintro ⟨⟩)

/-- The session ends, and the helper with it. -/
def ended : List Act :=
  pieces ++ [.feed (.send (.data [13, 10])), .feed .close, .feed .recv, .feed (.pipeWrite 7),
    .helper .check, .read 5, .feed .recv, .read 2,
    .helper .act, .helper (.ptyWrite 2), .helper .ptyFlush, .helper .check, .readEof]

theorem helper_stops_ended : ∃ s, exec step start ended = some s ∧ s.helper.phase = .stopped .eof ∧
    s.helper.effects = [.byte 65, .resize 24 80, .byte 13, .byte 10] := by
  have hrun : exec step start ended = some _ := rfl
  obtain ⟨-, -, -, heof⟩ := helper_stops hrun (by decide) rfl
  exact ⟨_, hrun, rfl, heof rfl rfl⟩

end TerminalHelper
end BgDesk
