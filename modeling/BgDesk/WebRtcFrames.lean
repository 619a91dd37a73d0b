import Mathlib.Data.List.Basic
import BgDesk.Machine
import BgDesk.BytesCodec

/-!
# Messages over a data channel

`send_bytes_inner` and `next` of `libs/hbb_common/src/webrtc.rs`. A message goes out in fragments
with a header of one byte that says whether more follow; there is no length. The reader has two ways
to a message: one that arrived whole is cut out of the read buffer, the others are accumulated.

* `fragments` — the loop of the sender; `Frames` is what it produces;
* `turn` — one round of the reader's loop, over its read buffer; `receive` is the same without the
  buffer, and `turn_eq_receive` says so;
* `readStep` — the reader between calls: a call may be abandoned before any read, and what has been
  accumulated stays;
* `round_trip`, `hostile` — the two halves of `fragmentation`.
-/

namespace BgDesk
namespace WebRtc

/-! ## Sending -/

def maxFragmentPayload : ℕ := 60000
def recvBufSize : ℕ := 64 * 1024
def scratchRefill : ℕ := 4 * recvBufSize
def fragMore : UInt8 := 1
def fragEnd : UInt8 := 0
def maxRecvMessage : ℕ := maxFrameLength

/-- The loop of `send_bytes_inner`, from an offset on. -/
def fragmentsFrom (data : Bytes) (offset : ℕ) : List Bytes :=
  let stop := min (offset + maxFragmentPayload) data.length
  let chunk := (data.take stop).drop offset
  if data.length ≤ stop then [fragEnd :: chunk] else (fragMore :: chunk) :: fragmentsFrom data stop
termination_by data.length - offset
decreasing_by
  unfold maxFragmentPayload
  omega

/-- The fragments of a message. -/
def fragments (data : Bytes) : List Bytes := fragmentsFrom data 0

/-- `send_bytes_inner`, on a channel that takes every write: what is written. -/
def sendBytesInner (bytes : Bytes) : Except String (List Bytes) :=
  if maxRecvMessage < bytes.length then .error "Overflow" else .ok (fragments bytes)

/-- Messages written one after the other. -/
def sendAll : List Bytes → Except String (List Bytes)
  | [] => .ok []
  | bytes :: rest => do
    let written ← sendBytesInner bytes
    let others ← sendAll rest
    return written ++ others

/-- The fragments of a message, each within its bounds. -/
inductive Frames : List Bytes → Bytes → Prop where
  | last (b : Bytes) : b.length ≤ maxFragmentPayload → Frames [fragEnd :: b] b
  | more (b : Bytes) (frames : List Bytes) (rest : Bytes) :
    b ≠ [] → b.length ≤ maxFragmentPayload → Frames frames rest →
      Frames ((fragMore :: b) :: frames) (b ++ rest)

theorem fragmentsFrom_frames (data : Bytes) (offset : ℕ) (h : offset ≤ data.length) :
    Frames (fragmentsFrom data offset) (data.drop offset) := by
  fun_induction fragmentsFrom data offset with
  | case1 offset stop chunk hlast =>
    have hstop : stop = data.length := by omega
    have hchunk : chunk = data.drop offset := by
      rw [show chunk = (data.take stop).drop offset from rfl, hstop, List.take_length]
    rw [← hchunk]
    refine Frames.last _ ?_
    rw [hchunk, List.length_drop]
    omega
  | case2 offset stop chunk hmore ih =>
    have hstop : stop = offset + maxFragmentPayload := by omega
    have hlength : chunk.length = maxFragmentPayload := by
      rw [show chunk = (data.take stop).drop offset from rfl, List.length_drop, List.length_take]
      omega
    have hsplit : data.drop offset = chunk ++ data.drop stop := by
      rw [show chunk = (data.take stop).drop offset from rfl, ← List.drop_append_of_le_length,
        List.take_append_drop]
      rw [List.length_take]
      omega
    rw [hsplit]
    refine Frames.more _ _ _ ?_ (by omega) (ih (by omega))
    intro hnil
    rw [hnil] at hlength
    cases hlength

theorem fragments_frames (data : Bytes) : Frames (fragments data) data :=
  fragmentsFrom_frames data 0 (Nat.zero_le _)

/-- Nothing empty goes out, and nothing too long. -/
theorem Frames.bounds {frames : List Bytes} {data : Bytes} (h : Frames frames data) :
    ∀ frame ∈ frames, frame ≠ [] ∧ frame.length ≤ 1 + maxFragmentPayload := by
  induction h with
  | last b hb =>
    intro frame hframe
    obtain rfl := List.mem_singleton.mp hframe
    exact ⟨List.cons_ne_nil _ _, by rw [List.length_cons]; omega⟩
  | more b frames rest _ hb _ ih =>
    intro frame hframe
    rcases List.mem_cons.mp hframe with rfl | hframe
    · exact ⟨List.cons_ne_nil _ _, by rw [List.length_cons]; omega⟩
    · exact ih frame hframe

variable {channel msgs : List Bytes} {max : ℕ}

theorem sendAll_eq (h : ∀ m ∈ msgs, m.length ≤ maxRecvMessage) :
    sendAll msgs = .ok (msgs.flatMap fragments) := by
  induction msgs with
  | nil => rfl
  | cons m msgs ih =>
    obtain ⟨hm, hmsgs⟩ := List.forall_mem_cons.mp h
    rw [sendAll, sendBytesInner, if_neg (by omega), ih hmsgs]
    rfl

/-! ## Reading -/

/-- `RecvState`. -/
structure RecvState where
  acc : Bytes
  scratch : Bytes
  deriving DecidableEq

/-- What a call of `next` returns. -/
inductive Outcome where
  | message (m : Bytes)
  | ended
  | failed (why : String)
  deriving DecidableEq

/-- The read buffer is long enough for a fragment. -/
def RecvState.refill (st : RecvState) : RecvState :=
  if st.scratch.length < recvBufSize then
    { st with scratch := st.scratch ++ List.replicate (scratchRefill - st.scratch.length) 0 }
  else st

/-- One round of the loop in `next`, with a message of the channel: it goes to the front of the read
buffer. -/
def turn (max : ℕ) (st : RecvState) (frame : Bytes) : RecvState × Option Outcome :=
  let st := st.refill
  let n := frame.length
  let scratch := frame ++ st.scratch.drop n
  if n = 0 then (⟨[], scratch⟩, some .ended)
  else
    let header := scratch.headD 0
    if header = fragMore ∧ n ≤ 1 then
      (⟨[], scratch⟩, some (.failed "WebRTC FRAG_MORE fragment carries no payload"))
    else if header ≠ fragEnd ∧ header ≠ fragMore then
      (⟨[], scratch⟩, some (.failed ("WebRTC fragment header " ++ toString header.toNat ++
        " is neither FRAG_END nor FRAG_MORE")))
    else if max < st.acc.length + (n - 1) then
      (⟨[], scratch⟩, some (.failed "WebRTC reassembled message exceeded maximum frame size"))
    else if header = fragEnd ∧ st.acc = [] then
      let scratch := scratch.drop 1
      (⟨st.acc, scratch.drop (n - 1)⟩, some (.message (scratch.take (n - 1))))
    else
      let acc := st.acc ++ (scratch.take n).drop 1
      if header = fragEnd then (⟨[], scratch⟩, some (.message acc)) else (⟨acc, scratch⟩, none)

/-- The same without a buffer: what becomes of the accumulator, and what is returned. -/
def receive (max : ℕ) (acc : Bytes) : Bytes → Bytes × Option Outcome
  | [] => ([], some .ended)
  | header :: payload =>
    if header = fragMore ∧ payload = [] then ([],
      some (.failed "WebRTC FRAG_MORE fragment carries no payload"))
    else if header ≠ fragEnd ∧ header ≠ fragMore then
      ([],
        some (.failed ("WebRTC fragment header " ++ toString header.toNat ++
          " is neither FRAG_END nor FRAG_MORE")))
    else if max < acc.length + payload.length then
      ([], some (.failed "WebRTC reassembled message exceeded maximum frame size"))
    else if header = fragEnd then ([], some (.message (acc ++ payload)))
    else (acc ++ payload, none)

theorem refill_acc (st : RecvState) : st.refill.acc = st.acc := by
  rw [RecvState.refill]
  split <;> rfl

/-- **Both ways agree**: a message that is cut out of the buffer is the one that would have been
accumulated, and what is left in the buffer does not matter. -/
theorem turn_eq_receive (max : ℕ) (st : RecvState) (frame : Bytes) :
    ((turn max st frame).1.acc, (turn max st frame).2) = receive max st.acc frame := by
  have hacc := refill_acc st
  cases frame with
  | nil => rfl
  | cons header payload =>
    have hshort : (header :: payload).length ≤ 1 ↔ payload = [] := by
      rw [List.length_cons, ← List.length_eq_zero_iff]
      omega
    have hcount : (header :: payload).length - 1 = payload.length := by simp
    have hcut : ∀ rest : Bytes, (((header :: payload) ++ rest).drop 1).take payload.length =
        payload := fun rest => by simp
    have hcopied : ∀ rest :
      Bytes, (((header :: payload) ++ rest).take (header :: payload).length).drop 1 = payload :=
      fun rest => by rw [List.take_left, List.drop_one, List.tail_cons]
    rw [turn, receive]
    dsimp only
    rw [if_neg (by simp), List.cons_append, List.headD_cons, ← List.cons_append, hacc, hcount, hcut,
      hcopied]
    simp only [hshort]
    by_cases hbare : header = fragMore ∧ payload = []
    · rw [if_pos hbare, if_pos hbare]
    · rw [if_neg hbare, if_neg hbare]
      by_cases hunknown : header ≠ fragEnd ∧ header ≠ fragMore
      · rw [if_pos hunknown, if_pos hunknown]
      · rw [if_neg hunknown, if_neg hunknown]
        by_cases hlong : max < st.acc.length + payload.length
        · rw [if_pos hlong, if_pos hlong]
        · rw [if_neg hlong, if_neg hlong]
          by_cases hend : header = fragEnd
          · by_cases hempty : st.acc = []
            · rw [if_pos ⟨hend, hempty⟩, if_pos hend, hempty]
              rfl
            · rw [if_neg (fun h => hempty h.2), if_pos hend, if_pos hend]
          · rw [if_neg (fun h => hend h.1), if_neg hend, if_neg hend]

/-- What a round may do, with a message of the channel that is not empty. -/
theorem receive_cases (max : ℕ) (acc frame : Bytes) (hframe : frame ≠ []) :
    (∃ why, receive max acc frame = ([], some (.failed why))) ∨
      (∃ payload, frame = fragEnd :: payload ∧ acc.length + payload.length ≤ max ∧
        receive max acc frame = ([], some (.message (acc ++ payload)))) ∨
      ∃ payload, frame = fragMore :: payload ∧ payload ≠ [] ∧ acc.length + payload.length ≤ max ∧
        receive max acc frame = (acc ++ payload, none) := by
  cases frame with
  | nil => exact absurd rfl hframe
  | cons header payload =>
    rw [receive]
    by_cases hbare : header = fragMore ∧ payload = []
    · exact .inl ⟨_, if_pos hbare⟩
    · rw [if_neg hbare]
      by_cases hunknown : header ≠ fragEnd ∧ header ≠ fragMore
      · exact .inl ⟨_, if_pos hunknown⟩
      · rw [if_neg hunknown]
        by_cases hlong : max < acc.length + payload.length
        · exact .inl ⟨_, if_pos hlong⟩
        · rw [if_neg hlong]
          by_cases hend : header = fragEnd
          · exact .inr (.inl ⟨payload, by rw [hend], by omega, if_pos hend⟩)
          · have hmore : header = fragMore := by
              by_contra hne
              exact hunknown ⟨hend, hne⟩
            exact .inr (.inr ⟨payload, by
              rw [hmore], fun hnil => hbare ⟨hmore, hnil⟩, by omega, if_neg hend⟩)

/-! ## The reader between calls -/

/-- A reader, the messages of the channel it has not read yet, and what its calls returned, each
with what was left in the accumulator. -/
structure Reader where
  recv : RecvState
  calling : Bool
  channel : List Bytes
  results : List (Outcome × Bytes)
  deriving DecidableEq

/-- `next` is called, and gets as far as the loop or fails before it, because the connection is
closed or the channel is not to be had; the call is abandoned where it waits; a read returns, or
fails. -/
inductive ReadAct where
  | call
  | callFails (why : String)
  | abandon
  | read
  | readFails (why : String)
  deriving DecidableEq

def Reader.start (channel : List Bytes) : Reader := ⟨⟨[], []⟩, false, channel, []⟩

/-- A call returns. -/
def Reader.return (r : Reader) (recv : RecvState) (outcome : Outcome) : Reader :=
  { r with recv := recv, calling := false, results := r.results ++ [(outcome, recv.acc)] }

/-- One step. The refill before a read leaves no more than the next one would, so it is part of the
read. -/
def readStep (max : ℕ) (r : Reader) : ReadAct → Option Reader
  | .call => if r.calling then none else some { r with calling := true }
  | .callFails why => if r.calling then none else some (r.return r.recv (.failed why))
  | .abandon => if r.calling then some { r with calling := false } else none
  | .read =>
    if r.calling then
      match r.channel with
      | [] => none
      | frame :: channel =>
        let r := { r with channel := channel }
        match turn max r.recv frame with
        | (recv, none) => some { r with recv := recv }
        | (recv, some outcome) => some (r.return recv outcome)
    else none
  | .readFails why =>
    if r.calling then
      some (r.return { r.recv with acc := [] } (.failed ("data channel read error: " ++ why)))
    else none

variable {r r' : Reader}

/-- What a read does. -/
theorem read_cases (h : readStep max r .read = some r') :
    r.calling = true ∧ ∃ frame, r.channel = frame :: r'.channel ∧
      ((receive max r.recv.acc frame).2 = none ∧ r'.calling = true ∧ r'.results = r.results ∧
          r'.recv.acc = (receive max r.recv.acc frame).1 ∨
        ∃ outcome, (receive max r.recv.acc frame).2 = some outcome ∧ r'.calling = false ∧
          r'.recv.acc = (receive max r.recv.acc frame).1 ∧
            r'.results = r.results ++ [(outcome, r'.recv.acc)]) := by
  rw [readStep] at h
  split at h
  · rename_i hcalling
    refine ⟨hcalling, ?_⟩
    cases hchannel : r.channel with
    | nil =>
      rw [hchannel] at h
      cases h
    | cons frame channel =>
      rw [hchannel] at h
      dsimp only at h
      have hturn := turn_eq_receive max r.recv frame
      refine ⟨frame, ?_⟩
      generalize turn max r.recv frame = t at h hturn
      obtain ⟨recv, outcome⟩ := t
      obtain ⟨hacc, hout⟩ := Prod.ext_iff.mp hturn
      cases outcome with
      | none =>
        obtain rfl := Option.some.inj h
        exact ⟨rfl, .inl ⟨hout.symm, hcalling, rfl, hacc⟩⟩
      | some outcome =>
        obtain rfl := Option.some.inj h
        exact ⟨rfl, .inr ⟨outcome, hout.symm, rfl, hacc, rfl⟩⟩
  · cases h

/-- A call in progress reads the next message there is. -/
theorem exists_read (max : ℕ) {frame : Bytes} (hcalling : r.calling = true)
    (hchannel : r.channel = frame :: channel) :
    ∃ r', readStep max r .read = some r' ∧ r'.channel = channel := by
  rw [readStep, if_pos hcalling, hchannel]
  dsimp only
  generalize turn max r.recv frame = t
  obtain ⟨recv, outcome⟩ := t
  cases outcome with
  | none => exact ⟨_, rfl, rfl⟩
  | some outcome => exact ⟨_, rfl, rfl⟩

/-! ## The round trip -/

/-- What is accumulated and what is on the channel make up these messages. -/
def Pending (acc : Bytes) (channel : List Bytes) : List Bytes → Prop
  | [] => acc = [] ∧ channel = []
  | m :: todo =>
    ∃ frames rest, Frames frames rest ∧ m = acc ++ rest ∧ channel = frames ++ todo.flatMap fragments

theorem pending_start (msgs : List Bytes) : Pending [] (msgs.flatMap fragments) msgs := by
  cases msgs with
  | nil => exact ⟨rfl, rfl⟩
  | cons m msgs => exact ⟨fragments m, m, fragments_frames m, rfl, rfl⟩

/-- A read completes the first message, brings it nearer, or finds it too long. -/
theorem pending_receive (max : ℕ) {acc frame : Bytes} {todo : List Bytes}
    (h : Pending acc (frame :: channel) todo) :
    (∃ m rest, todo = m :: rest ∧ receive max acc frame = ([], some (.message m)) ∧
      Pending [] channel rest) ∨
      (∃ acc', receive max acc frame = (acc', none) ∧ Pending acc' channel todo) ∨
      (∃ why, receive max acc frame = ([], some (.failed why))) ∧ ∃ m ∈ todo, max < m.length := by
  cases todo with
  | nil => cases h.2
  | cons m todo =>
    obtain ⟨frames, rest, hframes, hm, hchannel⟩ := h
    have hlength := congrArg List.length hm
    rw [List.length_append] at hlength
    cases hframes with
    | last b hb =>
      obtain ⟨rfl, rfl⟩ := List.cons.inj hchannel
      rw [receive, if_neg (fun h => absurd h.1 (by decide)), if_neg (fun h => h.1 rfl)]
      by_cases hlong : max < acc.length + rest.length
      · rw [if_pos hlong]
        exact .inr (.inr ⟨⟨_, rfl⟩, m, List.mem_cons_self .., by omega⟩)
      · rw [if_neg hlong, if_pos rfl]
        exact .inl ⟨m, todo, rfl, by rw [hm], pending_start todo⟩
    | more b frames rest hne hb hrest =>
      obtain ⟨rfl, rfl⟩ := List.cons.inj hchannel
      rw [List.length_append] at hlength
      rw [receive, if_neg (fun h => hne h.2), if_neg (fun h => h.2 rfl)]
      by_cases hlong : max < acc.length + b.length
      · rw [if_pos hlong]
        exact .inr (.inr ⟨⟨_, rfl⟩, m, List.mem_cons_self .., by omega⟩)
      · rw [if_neg hlong, if_neg (by decide)]
        exact .inr (.inl ⟨acc ++ b, rfl, frames, rest, hrest, by rw [hm, List.append_assoc], rfl⟩)

/-- Within the bound, a read either completes the first message or brings it nearer. -/
theorem pending_read {acc frame : Bytes} {todo : List Bytes} (hmax : ∀ m ∈ todo, m.length ≤ max)
    (h : Pending acc (frame :: channel) todo) :
    (∃ m rest, todo = m :: rest ∧ receive max acc frame = ([], some (.message m)) ∧
      Pending [] channel rest) ∨
      ∃ acc', receive max acc frame = (acc', none) ∧ Pending acc' channel todo := by
  rcases pending_receive max h with hdone | hmore | ⟨-, m, hm, hlong⟩
  · exact .inl hdone
  · exact .inr hmore
  · exact absurd (hmax m hm) (by omega)

/-- Nothing goes wrong but calls that are abandoned. -/
def ReadAct.Calm (act : ReadAct) : Prop := act = .call ∨ act = .abandon ∨ act = .read

/-- The reader has returned the first of the messages, and the others are to come. -/
def Reader.Returned (msgs : List Bytes) (r : Reader) : Prop :=
  ∃ done todo, msgs = done ++ todo ∧ r.results.map Prod.fst = done.map .message ∧
    Pending r.recv.acc r.channel todo

theorem readStep_returned (hmax : ∀ m ∈ msgs, m.length ≤ max) {act : ReadAct} (hact : act.Calm)
    (hr : r.Returned msgs) (h : readStep max r act = some r') : r'.Returned msgs := by
  obtain ⟨done, todo, hmsgs, hresults, hpending⟩ := hr
  rcases hact with rfl | rfl | rfl
  · rw [readStep] at h
    split at h
    · cases h
    · obtain rfl := Option.some.inj h
      exact ⟨done, todo, hmsgs, hresults, hpending⟩
  · rw [readStep] at h
    split at h
    · obtain rfl := Option.some.inj h
      exact ⟨done, todo, hmsgs, hresults, hpending⟩
    · cases h
  · obtain ⟨-, frame, hchannel, hread⟩ := read_cases h
    rw [hchannel] at hpending
    have hmax' : ∀ m ∈ todo, m.length ≤ max := fun m hm =>
      hmax m (hmsgs ▸ List.mem_append_right _ hm)
    rcases pending_read hmax' hpending with ⟨m, rest, rfl, hreceive, hrest⟩ | ⟨acc',
      hreceive, hrest⟩
    · rw [hreceive] at hread
      rcases hread with ⟨hnone, -⟩ | ⟨outcome, hout, -, hacc, hresults'⟩
      · cases hnone
      · obtain rfl := Option.some.inj hout
        refine ⟨done ++ [m], rest, by simp [hmsgs], ?_, hacc ▸ hrest⟩
        rw [hresults', List.map_append, hresults, List.map_append]
        rfl
    · rw [hreceive] at hread
      rcases hread with ⟨-, -, hresults', hacc⟩ | ⟨outcome, hout, -⟩
      · exact ⟨done, todo, hmsgs, by rw [hresults', hresults], hacc ▸ hrest⟩
      · cases hout

/-- **Round trip**: whatever calls are abandoned, the reader returns the messages in order, and all
of them once the channel is empty. -/
theorem round_trip (hmax : ∀ m ∈ msgs, m.length ≤ max) {acts : List ReadAct}
    (hacts : ∀ act ∈ acts, act.Calm)
    (h : exec (readStep max) (.start (msgs.flatMap fragments)) acts = some r) :
    r.results.map Prod.fst <+: msgs.map .message ∧
      (r.channel = [] → r.results.map Prod.fst = msgs.map .message) := by
  have hcalm : Along (readStep max) (fun _ act => act.Calm)
    (.start (msgs.flatMap fragments)) acts :=
    along_of_forall (fun act hact _ => hacts act hact) _
  have hstart : (Reader.start (msgs.flatMap fragments)).Returned msgs :=
    ⟨[], msgs, rfl, rfl, pending_start msgs⟩
  obtain ⟨done, todo, hmsgs, hresults, hpending⟩ := exec_invariant_along
    (fun r act r' hr hact h => readStep_returned hmax hact hr h) hstart hcalm h
  refine ⟨?_, fun hempty => ?_⟩
  · rw [hresults, hmsgs, List.map_append]
    exact List.prefix_append _ _
  · cases todo with
    | nil => rw [hresults, hmsgs, List.append_nil]
    | cons m todo =>
      obtain ⟨frames, rest, hframes, -, hchannel⟩ := hpending
      rw [hempty] at hchannel
      cases hframes <;> cases hchannel

/-! ## Hostile messages -/

/-- What holds of a reader whatever comes. -/
structure Reader.Bounded (max : ℕ) (r : Reader) : Prop where
  acc : r.recv.acc.length ≤ max
  messages : ∀ m left, (Outcome.message m, left) ∈ r.results → m.length ≤ max
  channel : ∀ frame ∈ r.channel, frame ≠ []

/-- A returned entry that is an error has left nothing behind. -/
def Clean (entry : Outcome × Bytes) : Prop := ∀ why, entry.1 = .failed why → entry.2 = []

/-- A call that fails before its first read finds nothing accumulated. -/
def StartsClean (r : Reader) (act : ReadAct) : Prop := ∀ why, act = .callFails why → r.recv.acc = []

/-- **Step**: the bounds are kept, and what is returned is clean, unless it comes from a call that
fails before its first read. -/
theorem readStep_bounded {act : ReadAct} (hr : r.Bounded max) (h : readStep max r act = some r') :
    r'.Bounded max ∧ ((∀ entry ∈ r'.results, Clean entry) ↔ (∀ entry ∈ r.results, Clean entry) ∧
      StartsClean r act) := by
  have quiet : ∀ {act : ReadAct}, (∀ why, act ≠ .callFails why) → StartsClean r act :=
    fun hne why heq => absurd heq (hne why)
  have grown : ∀ {entry : Outcome × Bytes}, Clean entry →
      ((∀ e ∈ r.results ++ [entry], Clean e) ↔ ∀ e ∈ r.results, Clean e) := by
    intro entry hentry
    rw [List.forall_mem_append]
    exact ⟨fun h => h.1, fun h => ⟨h, by simpa using hentry⟩⟩
  cases act with
  | call =>
    rw [readStep] at h
    split at h
    · cases h
    · obtain rfl := Option.some.inj h
      exact ⟨{ hr with }, ⟨fun h => ⟨h, quiet (by simp)⟩, fun h => h.1⟩⟩
  | abandon =>
    rw [readStep] at h
    split at h
    · obtain rfl := Option.some.inj h
      exact ⟨{ hr with }, ⟨fun h => ⟨h, quiet (by simp)⟩, fun h => h.1⟩⟩
    · cases h
  | callFails why =>
    rw [readStep] at h
    split at h
    · cases h
    · obtain rfl := Option.some.inj h
      refine ⟨⟨hr.acc, fun m left hmem => ?_, hr.channel⟩, ?_⟩
      · rcases List.mem_append.mp hmem with hmem | hmem
        · exact hr.messages m left hmem
        · simp at hmem
      · rw [Reader.return, List.forall_mem_append]
        refine and_congr_right fun _ => ?_
        rw [List.forall_mem_singleton]
        exact ⟨fun hclean why' _ => hclean why rfl, fun hstart why' _ => hstart why rfl⟩
  | readFails why =>
    rw [readStep] at h
    split at h
    · obtain rfl := Option.some.inj h
      refine ⟨⟨Nat.zero_le _, fun m left hmem => ?_, hr.channel⟩, ?_⟩
      · rcases List.mem_append.mp hmem with hmem | hmem
        · exact hr.messages m left hmem
        · simp at hmem
      · exact (grown fun _ _ => rfl).trans ⟨fun h => ⟨h, quiet (by simp)⟩, fun h => h.1⟩
    · cases h
  | read =>
    obtain ⟨-, frame, hchannel, hread⟩ := read_cases h
    have hframe : frame ≠ [] := hr.channel frame (hchannel ▸ List.mem_cons_self ..)
    have hrest : ∀ f ∈ r'.channel, f ≠ [] := fun f hf =>
      hr.channel f (hchannel ▸ List.mem_cons_of_mem _ hf)
    have hquiet : StartsClean r .read := quiet (by simp)
    rcases receive_cases max r.recv.acc frame hframe with
      ⟨why, hreceive⟩ | ⟨payload, -, hlength, hreceive⟩ | ⟨payload, -, -, hlength, hreceive⟩
    · rw [hreceive] at hread
      obtain ⟨hnone, -⟩ | ⟨outcome, hout, -, hacc, hresults⟩ := hread
      · cases hnone
      · obtain rfl := Option.some.inj hout
        refine ⟨⟨by rw [hacc]; exact Nat.zero_le _, fun m left hmem => ?_, hrest⟩, ?_⟩
        · rw [hresults] at hmem
          rcases List.mem_append.mp hmem with hmem | hmem
          · exact hr.messages m left hmem
          · simp at hmem
        · rw [hresults]
          exact (grown fun _ _ => hacc).trans ⟨fun h => ⟨h, hquiet⟩, fun h => h.1⟩
    · rw [hreceive] at hread
      obtain ⟨hnone, -⟩ | ⟨outcome, hout, -, hacc, hresults⟩ := hread
      · cases hnone
      · obtain rfl := Option.some.inj hout
        refine ⟨⟨by rw [hacc]; exact Nat.zero_le _, fun m left hmem => ?_, hrest⟩, ?_⟩
        · rw [hresults] at hmem
          rcases List.mem_append.mp hmem with hmem | hmem
          · exact hr.messages m left hmem
          · obtain ⟨hm, -⟩ := Prod.mk.inj (List.mem_singleton.mp hmem)
            rw [Outcome.message.inj hm, List.length_append]
            exact hlength
        · rw [hresults]
          exact (grown fun _ _ => hacc).trans ⟨fun h => ⟨h, hquiet⟩, fun h => h.1⟩
    · rw [hreceive] at hread
      obtain ⟨-, -, hresults, hacc⟩ | ⟨outcome, hout, -⟩ := hread
      · refine ⟨⟨?_, fun m left hmem => hr.messages m left (hresults ▸ hmem), hrest⟩, ?_⟩
        · rw [hacc, List.length_append]
          exact hlength
        · rw [hresults]
          exact ⟨fun h => ⟨h, hquiet⟩, fun h => h.1⟩
      · cases hout

/-- **Run**: the bounds hold, and the errors returned are clean exactly if every call that fails
before its first read finds nothing accumulated. -/
theorem run_bounded {acts : List ReadAct} :
    ∀ {r r' : Reader}, r.Bounded max → exec (readStep max) r acts = some r' →
      r'.Bounded max ∧ ((∀ entry ∈ r'.results, Clean entry) ↔
        (∀ entry ∈ r.results, Clean entry) ∧ Along (readStep max) StartsClean r acts) := by
  induction acts with
  | nil =>
    intro r r' hr h
    obtain rfl := Option.some.inj h
    exact ⟨hr, ⟨fun h => ⟨h, trivial⟩, fun h => h.1⟩⟩
  | cons act acts ih =>
    intro r r' hr h
    obtain ⟨r₁, hstep, h⟩ := exec_cons.mp h
    obtain ⟨hr₁, hclean₁⟩ := readStep_bounded hr hstep
    obtain ⟨hr', hclean'⟩ := ih hr₁ h
    refine ⟨hr', ?_⟩
    rw [hclean', hclean₁, Along, hstep]
    exact and_assoc

/-- A call that reads on and on returns: every read that does not end it leaves more in the
accumulator. -/
theorem reads_return :
    ∀ {r : Reader}, r.Bounded max → r.calling = true → max < r.recv.acc.length + r.channel.length →
      ∃ n r', n ≤ max + 1 - r.recv.acc.length ∧
        exec (readStep max) r (List.replicate n .read) = some r' ∧
        r'.calling = false := by
  intro r
  induction hchannel : r.channel generalizing r with
  | nil =>
    intro hr _ hlong
    have := hr.acc
    simp at hlong
    omega
  | cons frame channel ih =>
    intro hr hcalling hlong
    have hstep : ∃ r', readStep max r .read = some r' := by
      rw [readStep, if_pos hcalling, hchannel]
      dsimp only
      split <;> exact ⟨_, rfl⟩
    obtain ⟨r₁, hstep⟩ := hstep
    have hr₁ := (readStep_bounded hr hstep).1
    obtain ⟨-, frame', hchannel', hread⟩ := read_cases hstep
    obtain ⟨rfl, rfl⟩ := List.cons.inj (hchannel.symm.trans hchannel')
    have hacc := hr.acc
    obtain ⟨hnone, hcalling₁, -, hacc₁⟩ | ⟨outcome, -, hcalling₁, -, -⟩ := hread
    · have hframe : frame ≠ [] := hr.channel frame (hchannel ▸ List.mem_cons_self ..)
      have hgrown : r.recv.acc.length < r₁.recv.acc.length := by
        rcases receive_cases max r.recv.acc frame hframe with
          ⟨why, hreceive⟩ | ⟨payload, -, -, hreceive⟩ | ⟨payload, -, hne, -, hreceive⟩
        · rw [hreceive] at hnone
          cases hnone
        · rw [hreceive] at hnone
          cases hnone
        · rw [hacc₁, hreceive, List.length_append]
          have := List.length_pos_iff.mpr hne
          omega
      rw [List.length_cons] at hlong
      obtain ⟨n, r', hn, hexec, hdone⟩ := ih rfl hr₁ hcalling₁ (by omega)
      have hacc₁ := hr₁.acc
      exact ⟨n + 1, r', by omega, exec_cons.mpr ⟨r₁, hstep, hexec⟩, hdone⟩
    · exact ⟨1, r₁, by omega, exec_cons.mpr ⟨r₁, hstep, rfl⟩, hcalling₁⟩

/-- A call in progress returns after at most one read more than the bound has bytes. -/
def Terminates (max : ℕ) (r : Reader) : Prop :=
  r.calling = true → max < r.recv.acc.length + r.channel.length →
    ∃ n r', n ≤ max + 1 ∧ exec (readStep max) r (List.replicate n .read) = some r' ∧
      r'.calling = false

/-- **Fragmentation**: messages up to the largest one the transport takes arrive as they were sent,
whatever calls of `next` are abandoned, and only messages of the channel within its bounds are
written. On any other messages of the channel a call of `next` ends, and neither returns nor
accumulates more than its bound; the errors it returns leave nothing in the accumulator exactly if a
call that fails before its first read finds nothing there. -/
theorem fragmentation (msgs : List Bytes) (max : ℕ) (channel : List Bytes) :
    ((∀ m ∈ msgs, m.length ≤ maxRecvMessage) →
      ∃ written, sendAll msgs = .ok written ∧
        (∀ frame ∈ written, frame ≠ [] ∧ frame.length ≤ 1 + maxFragmentPayload) ∧
        ∀ (acts : List ReadAct) (r : Reader), (∀ act ∈ acts, act.Calm) →
          exec (readStep maxRecvMessage) (.start written) acts = some r →
          r.results.map Prod.fst <+: msgs.map .message ∧
            (r.channel = [] → r.results.map Prod.fst = msgs.map .message)) ∧
    ∀ (acts : List ReadAct) (r : Reader),
      (∀ frame ∈ channel, frame ≠ [] ∧ frame.length ≤ recvBufSize) →
      exec (readStep max) (.start channel) acts = some r →
      Terminates max r ∧ r.recv.acc.length ≤ max ∧
        (∀ m left, (Outcome.message m, left) ∈ r.results → m.length ≤ max) ∧
        ((∀ entry ∈ r.results, Clean entry) ↔
          Along (readStep max) StartsClean (.start channel) acts) := by
  refine ⟨fun hmsgs => ?_, fun acts r hchannel hrun => ?_⟩
  · refine ⟨msgs.flatMap fragments, sendAll_eq hmsgs, fun frame hframe => ?_,
      fun acts r hacts hrun => ?_⟩
    · obtain ⟨m, -, hm⟩ := List.mem_flatMap.mp hframe
      exact (fragments_frames m).bounds frame hm
    · exact round_trip hmsgs hacts hrun
  · have hstart : (Reader.start channel).Bounded max :=
      ⟨Nat.zero_le _, by simp [Reader.start], fun frame hframe => (hchannel frame hframe).1⟩
    obtain ⟨hr, hclean⟩ := run_bounded hstart hrun
    refine ⟨fun hcalling hlong => ?_, hr.acc, hr.messages, ?_⟩
    · obtain ⟨n, r', hn, hexec, hdone⟩ := reads_return hr hcalling hlong
      exact ⟨n, r', by omega, hexec, hdone⟩
    · rw [hclean]
      exact ⟨fun h => h.2, fun h => ⟨by simp [Reader.start], h⟩⟩

theorem fragments_two :
    fragments (List.replicate 60001 7) = [fragMore :: List.replicate 60000 7, [fragEnd, 7]] := by
  have hrest : fragmentsFrom (List.replicate 60001 7) 60000 = [[fragEnd, 7]] := by
    rw [fragmentsFrom]
    simp only [List.length_replicate, maxFragmentPayload, List.take_replicate, List.drop_replicate]
    rfl
  rw [fragments, fragmentsFrom]
  simp only [List.length_replicate, maxFragmentPayload, List.take_replicate, List.drop_replicate]
  exact congrArg (fun rest => (fragMore :: List.replicate 60000 7) :: rest) hrest

/-- A message of two fragments; the call that reads the first one is abandoned. -/
theorem fragmentation_abandoned :
    ∃ written r, sendAll [List.replicate 60001 7] = .ok written ∧ written.length = 2 ∧
      exec (readStep maxRecvMessage) (.start written) [.call, .read, .abandon, .call, .read] =
        some r ∧
      r.results.map Prod.fst = [.message (List.replicate 60001 7)] := by
  have hsize : ∀ m ∈ [List.replicate 60001 (7 : UInt8)], m.length ≤ maxRecvMessage := by
    intro m hm
    rw [List.mem_singleton.mp hm, List.length_replicate]
    decide
  obtain ⟨written, hwritten, -, hread⟩ :=
    (fragmentation [List.replicate 60001 7] maxRecvMessage []).1 hsize
  have htwo : written = [fragMore :: List.replicate 60000 7, [fragEnd, 7]] := by
    rw [sendAll_eq hsize] at hwritten
    rw [← Except.ok.inj hwritten, List.flatMap_singleton, fragments_two]
  subst htwo
  obtain ⟨r₁, h₁, hchannel₁⟩ := exists_read maxRecvMessage
    (r := ⟨⟨[], []⟩, true, [fragMore :: List.replicate 60000 7, [fragEnd, 7]], []⟩) rfl rfl
  obtain ⟨-, frame, hframe, ⟨-, hcalling₁, -⟩ | ⟨outcome, hout, -⟩⟩ := read_cases h₁
  · obtain ⟨r₂, h₂, hchannel₂⟩ :=
      exists_read maxRecvMessage (r := { r₁ with calling := true }) rfl hchannel₁
    have hexec : exec (readStep maxRecvMessage)
      (.start [fragMore :: List.replicate 60000 7, [fragEnd, 7]])
        [.call, .read, .abandon, .call, .read] = some r₂ := by
      refine exec_cons.mpr ⟨_, rfl, exec_cons.mpr
        ⟨r₁, h₁, exec_cons.mpr ⟨{ r₁ with calling := false }, ?_, ?_⟩⟩⟩
      · rw [readStep, if_pos hcalling₁]
      · exact exec_cons.mpr ⟨_, rfl, exec_cons.mpr ⟨r₂, h₂, rfl⟩⟩
    exact ⟨_, r₂, hwritten, rfl, hexec, (hread _ r₂ (by simp [ReadAct.Calm]) hexec).2 hchannel₂⟩
  · obtain ⟨rfl, -⟩ := List.cons.inj hframe
    have hlength : ([] : Bytes).length + (List.replicate 60000 (7 : UInt8)).length ≤
        maxRecvMessage := by
      rw [List.length_replicate]
      decide
    have hout : (receive maxRecvMessage [] (fragMore :: List.replicate 60000 7)).2 = some outcome :=
      hout
    rw [receive, if_neg (by rintro ⟨-, hnil⟩; cases hnil), if_neg (by decide),
      if_neg (not_lt.mpr hlength), if_neg (by decide)] at hout
    cases hout

/-- **A closed connection keeps the accumulator**: the first fragment of a message is read, the call
is abandoned, and the next one finds the connection closed and returns an error with the fragment
still held. -/
theorem closed_keeps_accumulator :
    (∀ frame ∈ [[fragMore, 7]], frame ≠ [] ∧ frame.length ≤ recvBufSize) ∧
      ∃ r, exec (readStep maxRecvMessage) (.start [[fragMore, 7]])
          [.call, .read, .abandon, .callFails "WebRTC connection closed: closed"] = some r ∧
        ¬∀ entry ∈ r.results, Clean entry := by
  have hrun : (exec (readStep maxRecvMessage) (.start [[fragMore, 7]])
      [.call, .read, .abandon, .callFails "WebRTC connection closed: closed"]).any (fun r =>
        decide (r.results = [(.failed "WebRTC connection closed: closed", [7])])) = true := by
          decide +kernel
  obtain ⟨r, hexec, hr⟩ := (Option.any_eq_true _ _).mp hrun
  refine ⟨by decide, r, hexec, fun hclean => ?_⟩
  rw [of_decide_eq_true hr] at hclean
  cases hclean _ (List.mem_singleton_self _) _ rfl

end WebRtc
end BgDesk
