import Mathlib.Data.List.Basic
import BgDesk.Machine
import BgDesk.TerminalOutput

/-!
# A terminal that is come back to

One session of `server/terminal_service.rs`: the reader thread puts chunks into a bounded channel,
which the poll (`read_outputs`) and a client that comes back (`handle_open`) drain, both under the
lock of the session. What is drained goes to the output buffer, and to the client if the session is
active; a client that comes back is sent the end of the buffer first.

* `sessionStep` — the reader thread at any time, and a poll, an open and a `reset_status` one after
  the other, the first two a chunk at a time;
* `Session.Kept` — what every step preserves;
* `reconnect_continuity` — what a client is sent is the end of what was drained, without a gap.
-/

namespace BgDesk
namespace Terminal

def channelBufferSize : ℕ := 500

/-- `SessionState`, without the resize that follows an open. -/
inductive SessionState where
  | closed
  | active (pendingBuffer : Option Bytes)
  deriving DecidableEq

/-- Who has the lock of the session, and the chunks it has taken from the channel. -/
inductive Section where
  | idle
  | polling (received : List Bytes)
  | opening (backlog : List Bytes)
  deriving DecidableEq

def Section.taken : Section → List Bytes
  | .idle => []
  | .polling received => received
  | .opening backlog => backlog

/-- A session. `accepted`, `drained` and `sent` are its history: the chunks the channel took; those
that were drained from it; the data responses since the latest open. -/
structure Session where
  buffer : OutputBuffer
  channel : List Bytes
  state : SessionState
  lock : Section
  accepted : List Bytes
  drained : List Bytes
  sent : List Bytes
  deriving DecidableEq

/-- As `handle_open` leaves a session it has created. -/
def Session.created : Session := ⟨.new, [], .active none, .idle, [], [], []⟩

/-- The reader thread sends; a poll or an open takes the lock, takes a chunk, and is done;
`reset_status`. -/
inductive SessionAct where
  | send (data : Bytes)
  | beginPoll
  | beginOpen
  | tryRecv
  | endPoll
  | endOpen
  | resetStatus
  deriving DecidableEq

/-- The chunks that were taken go to the buffer. -/
def Session.takeOver (s : Session) (chunks : List Bytes) : Session :=
  { s with buffer := s.buffer.appendAll chunks, drained := s.drained ++ chunks, lock := .idle }

/-- The end of a poll: an active session sends the replay, if there is one, and then what was
received. -/
def Session.endPoll (s : Session) (received : List Bytes) : Session :=
  let s := s.takeOver received
  match s.state with
  | .closed => s
  | .active pendingBuffer =>
    let replay := pendingBuffer.toList.filter (· ≠ [])
    { s with state := .active none, sent := s.sent ++ replay ++ received }

/-- The end of an open: the replay is what the buffer holds now. -/
def Session.endOpen (s : Session) (backlog : List Bytes) : Session :=
  let s := s.takeOver backlog
  let buffer := s.buffer.getRecent defaultReconnectBufferBytes
  { s with state := .active (if buffer ≠ [] then some buffer else none), sent := [] }

def sessionStep (s : Session) : SessionAct → Option Session
  | .send data =>
    -- `try_send` drops what the channel has no room for
    if s.channel.length < channelBufferSize then
      some { s with channel := s.channel ++ [data], accepted := s.accepted ++ [data] }
    else some s
  | .beginPoll => if s.lock = .idle then some { s with lock := .polling [] } else none
  | .beginOpen => if s.lock = .idle then some { s with lock := .opening [] } else none
  | .tryRecv =>
    match s.channel with
    | [] => none
    | data :: channel =>
      match s.lock with
      | .idle => none
      | .polling received =>
        some { s with channel := channel, lock := .polling (received ++ [data]) }
      | .opening backlog =>
        if backlog.length < channelBufferSize then
          some { s with channel := channel, lock := .opening (backlog ++ [data]) }
        else none
  | .endPoll =>
    match s.lock with
    | .polling received => if s.channel = [] then some (s.endPoll received) else none
    | _ => none
  | .endOpen =>
    match s.lock with
    | .opening backlog =>
      if s.channel = [] ∨ backlog.length = channelBufferSize then some (s.endOpen backlog) else none
    | _ => none
  | .resetStatus => if s.lock = .idle then some { s with state := .closed } else none

/-! ## What is kept -/

/-- What an active session has sent, or is to send first, is the end of what was drained. -/
def Session.Streamed (s : Session) : Prop :=
  match s.state with
  | .closed => True
  | .active none => s.sent.flatten <:+ s.drained.flatten
  | .active (some replay) => s.sent = [] ∧ replay <:+ s.drained.flatten

structure Session.Kept (s : Session) : Prop where
  stream : s.accepted = s.drained ++ s.lock.taken ++ s.channel
  buffer : s.buffer.lines.flatten <:+ s.drained.flatten
  streamed : s.Streamed

variable {s : Session}

theorem Session.Kept.takeOver (h : s.Kept) :
    (s.takeOver s.lock.taken).accepted = (s.takeOver s.lock.taken).drained ++ s.channel ∧
      (s.takeOver s.lock.taken).buffer.lines.flatten <:+
        (s.takeOver s.lock.taken).drained.flatten := by
  refine ⟨h.stream, ?_⟩
  rw [Session.takeOver, List.flatten_append]
  exact (appendAll_suffix _ _).trans (List.suffix_append_self_iff.mpr h.buffer)

/-- **A poll**: what it received is sent after the replay. -/
theorem Session.Kept.endPoll (h : s.Kept) : (s.endPoll s.lock.taken).Kept := by
  obtain ⟨hstream, hbuffer⟩ := h.takeOver
  have hstreamed := h.streamed
  generalize s.lock.taken = received at hstream hbuffer ⊢
  rw [Session.endPoll]
  dsimp only
  rw [Session.Streamed] at hstreamed
  cases hstate : s.state with
  | closed =>
    have hclosed : (s.takeOver received).state = .closed := hstate
    rw [hclosed]
    refine ⟨by rw [hstream]; simp [Session.takeOver, Section.taken], hbuffer, ?_⟩
    rw [Session.Streamed, hclosed]
    trivial
  | active pendingBuffer =>
    have hactive : (s.takeOver received).state = .active pendingBuffer := hstate
    rw [hactive]
    refine ⟨by rw [hstream]; simp [Session.takeOver, Section.taken], hbuffer, ?_⟩
    rw [hstate] at hstreamed
    have hflatten : (s.takeOver received).drained.flatten = s.drained.flatten ++ received.flatten :=
      List.flatten_append
    cases pendingBuffer with
    | none =>
      have hsent : s.sent.flatten <:+ s.drained.flatten := hstreamed
      change (s.sent ++ [] ++ received).flatten <:+ (s.takeOver received).drained.flatten
      rw [hflatten, List.append_nil, List.flatten_append]
      exact List.suffix_append_self_iff.mpr hsent
    | some replay =>
      obtain ⟨hsent, hsuffix⟩ := hstreamed
      have hreplay : ((some replay).toList.filter (· ≠ [])).flatten = replay := by
        by_cases hempty : replay = []
        · rw [hempty]
          rfl
        · simp [hempty]
      change (s.sent ++ (some replay).toList.filter (· ≠ []) ++ received).flatten <:+
        (s.takeOver received).drained.flatten
      rw [hflatten, hsent, List.nil_append, List.flatten_append, hreplay]
      exact List.suffix_append_self_iff.mpr hsuffix

/-- **An open**: what is to be sent is the end of all that was drained. -/
theorem Session.Kept.endOpen (h : s.Kept) : (s.endOpen s.lock.taken).Kept := by
  obtain ⟨hstream, hbuffer⟩ := h.takeOver
  generalize s.lock.taken = backlog at hstream hbuffer ⊢
  rw [Session.endOpen]
  refine ⟨by rw [hstream]; simp [Session.takeOver, Section.taken], hbuffer, ?_⟩
  rw [Session.Streamed]
  split
  · trivial
  · exact List.nil_suffix
  · rename_i replay hstate
    have hreplay : (s.takeOver backlog).buffer.getRecent defaultReconnectBufferBytes = replay := by
      have hactive := SessionState.active.inj hstate
      split at hactive
      · exact Option.some.inj hactive
      · cases hactive
    exact ⟨rfl, hreplay ▸ (getRecent_suffix _ _).trans hbuffer⟩

theorem sessionStep_kept {s' : Session} {act : SessionAct} (h : s.Kept)
    (hstep : sessionStep s act = some s') : s'.Kept := by
  cases act with
  | send data =>
    rw [sessionStep] at hstep
    split at hstep
    · obtain rfl := Option.some.inj hstep
      exact ⟨by rw [h.stream]; simp, h.buffer, h.streamed⟩
    · obtain rfl := Option.some.inj hstep
      exact h
  | beginPoll | beginOpen =>
    rw [sessionStep] at hstep
    split at hstep
    · rename_i hidle
      obtain rfl := Option.some.inj hstep
      exact ⟨by rw [h.stream, hidle]; rfl, h.buffer, h.streamed⟩
    · cases hstep
  | tryRecv =>
    rw [sessionStep] at hstep
    split at hstep
    · cases hstep
    · rename_i data channel hchannel
      have hstream := h.stream
      rw [hchannel] at hstream
      split at hstep
      · cases hstep
      · rename_i received hlock
        obtain rfl := Option.some.inj hstep
        exact ⟨by rw [hstream, hlock]; simp [Section.taken], h.buffer, h.streamed⟩
      · rename_i backlog hlock
        split at hstep
        · obtain rfl := Option.some.inj hstep
          exact ⟨by rw [hstream, hlock]; simp [Section.taken], h.buffer, h.streamed⟩
        · cases hstep
  | endPoll =>
    rw [sessionStep] at hstep
    split at hstep
    · rename_i received hlock
      split at hstep
      · obtain rfl := Option.some.inj hstep
        have hkept := h.endPoll
        rwa [hlock] at hkept
      · cases hstep
    · cases hstep
  | endOpen =>
    rw [sessionStep] at hstep
    split at hstep
    · rename_i backlog hlock
      split at hstep
      · obtain rfl := Option.some.inj hstep
        have hkept := h.endOpen
        rwa [hlock] at hkept
      · cases hstep
    · cases hstep
  | resetStatus =>
    rw [sessionStep] at hstep
    split at hstep
    · obtain rfl := Option.some.inj hstep
      exact ⟨h.stream, h.buffer, trivial⟩
    · cases hstep

/-! ## A session that is closed -/

/-- Only an open makes a closed session send again. -/
theorem sessionStep_closed {s' : Session} {act : SessionAct} (hclosed : s.state = .closed)
    (hact : act ≠ .endOpen) (hstep : sessionStep s act = some s') :
    s'.sent = s.sent ∧ s'.state = .closed := by
  cases act with
  | endOpen => exact absurd rfl hact
  | endPoll =>
    rw [sessionStep] at hstep
    split at hstep
    · rename_i received hlock
      split at hstep
      · obtain rfl := Option.some.inj hstep
        have hstate : (s.takeOver received).state = .closed := hclosed
        rw [Session.endPoll]
        dsimp only
        rw [hstate]
        exact ⟨rfl, hclosed⟩
      · cases hstep
    · cases hstep
  | tryRecv =>
    rw [sessionStep] at hstep
    repeat' split at hstep
    all_goals cases hstep
    all_goals exact ⟨rfl, hclosed⟩
  | resetStatus =>
    rw [sessionStep] at hstep
    split at hstep
    · obtain rfl := Option.some.inj hstep
      exact ⟨rfl, rfl⟩
    · cases hstep
  | _ =>
    rw [sessionStep] at hstep
    split at hstep
    all_goals cases hstep
    all_goals exact ⟨rfl, hclosed⟩

/-! ## Runs -/

/-- **Reconnect continuity**: what the channel accepted is what was drained, what is being drained
and what it holds; until a `reset_status`, the responses since the latest open are the end of what
was drained; and from a `reset_status` to the next open nothing is sent. -/
theorem reconnect_continuity {acts : List SessionAct} {s : Session}
    (h : exec sessionStep .created acts = some s) :
    s.accepted = s.drained ++ s.lock.taken ++ s.channel ∧
      (s.state ≠ .closed → s.sent.flatten <:+ s.drained.flatten) ∧
      (s.state = .closed → ∀ rest s', exec sessionStep s rest = some s' → .endOpen ∉ rest →
        s'.sent = s.sent) := by
  have hcreated : Session.created.Kept := ⟨rfl, List.suffix_refl _, List.suffix_refl _⟩
  have hkept := exec_invariant (fun s act s' => sessionStep_kept) hcreated h
  refine ⟨hkept.stream, fun hactive => ?_, fun hclosed rest s' hrest hopen => ?_⟩
  · have hstreamed := hkept.streamed
    rw [Session.Streamed] at hstreamed
    split at hstreamed
    · rename_i hclosed
      exact absurd hclosed hactive
    · exact hstreamed
    · rw [hstreamed.1]
      exact List.nil_suffix
  · have hno : Along sessionStep (fun _ act => act ≠ .endOpen) s rest := by
      refine along_of_forall (fun act hact _ => ?_) _
      rintro rfl
      exact hopen hact
    exact (exec_invariant_along (I := fun t => t.sent = s.sent ∧ t.state = .closed)
      (fun t act t' ht hact hstep => by
        obtain ⟨hsent, hstate⟩ := sessionStep_closed ht.2 hact hstep
        exact ⟨hsent.trans ht.1, hstate⟩) ⟨rfl, hclosed⟩ hno hrest).1

/-- A client comes back while a chunk is in the channel: the replay has both chunks, and the next
one follows. -/
theorem reconnect_continuity_reopened :
    ∃ s, exec sessionStep .created [.send [97], .beginPoll, .tryRecv, .endPoll, .resetStatus,
      .send [98], .beginOpen,
          .tryRecv, .endOpen, .send [99], .beginPoll, .tryRecv, .endPoll] = some s ∧
      s.sent = [[97, 98], [99]] ∧ s.sent.flatten <:+ s.drained.flatten := by
  have hrun :
    (exec sessionStep .created [.send [97], .beginPoll, .tryRecv, .endPoll, .resetStatus,
      .send [98], .beginOpen,
      .tryRecv, .endOpen, .send [99], .beginPoll, .tryRecv, .endPoll]).any (fun s =>
        decide (s.sent = [[97, 98], [99]] ∧ s.state ≠ .closed)) = true := by decide +kernel
  obtain ⟨s, hexec, hs⟩ := (Option.any_eq_true _ _).mp hrun
  obtain ⟨hsent, hactive⟩ := of_decide_eq_true hs
  exact ⟨s, hexec, hsent, (reconnect_continuity hexec).2.1 hactive⟩

/-- **After `reset_status` a poll drains without sending**: the responses since the open do not end
with the last chunk drained. -/
theorem reset_drains_unsent :
    ∃ s, exec sessionStep .created [.send [97], .beginPoll, .tryRecv, .endPoll, .resetStatus,
      .send [98], .beginPoll,
          .tryRecv, .endPoll] = some s ∧ s.lock = .idle ∧
            ¬s.sent.flatten <:+ s.drained.flatten := by
  have hrun :
    (exec sessionStep .created [.send [97], .beginPoll, .tryRecv, .endPoll, .resetStatus,
      .send [98], .beginPoll,
      .tryRecv, .endPoll]).any (fun s =>
        decide (s.lock = .idle ∧ ¬s.sent.flatten <:+ s.drained.flatten)) = true := by
    decide +kernel
  obtain ⟨s, hexec, hs⟩ := (Option.any_eq_true _ _).mp hrun
  exact ⟨s, hexec, of_decide_eq_true hs⟩

end Terminal
end BgDesk
