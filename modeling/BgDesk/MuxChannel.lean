import BgDesk.Login
import BgDesk.MuxRelay

/-!
# The task of one channel

`run_channel` of `src/port_forward_mux.rs` with what each side wraps around it:
`TunnelHandle::open` sends `open` first and takes the entry out of the map last;
`run_controlled_channel` of `src/server/port_forward_mux.rs` waits for the target
first, buffering what arrives, and answers with `opened`.

A `Chan` is the task together with what it shares with the demultiplexer: the
credit, the window and the queue. Whether the map still holds the channel is the
flag `entry`, so that a task which outlives its entry stays a value of the model.
`Chan.step` is one step of the task; `data`, `close` and `windowUpdate` are what
the demultiplexer does to a channel it has looked up.
-/

namespace BgDesk

/-- The side of a tunnel. -/
inductive Side where
  | controller
  | controlled
  deriving DecidableEq

/-- Where a channel's task stands. -/
inductive Phase where
  /-- controller: `open` is still to be sent -/
  | opening (host : String) (port : ℤ)
  /-- controlled: waiting for the target, with this much charged to `pending_len` -/
  | connecting (pendingLen : ℕ)
  /-- controlled: the socket is there, the rest of the window still to be granted -/
  | connected
  /-- controlled: granted, `opened` still to be sent -/
  | granted
  /-- controlled: the connect failed, `opened(false)` still to be sent -/
  | refusing
  /-- controlled: the peer overran before `opened`, `close` still to be sent -/
  | closing
  /-- in `run_channel` -/
  | relaying
  /-- controller: the entry is still to be removed -/
  | reaping
  | ended
  deriving DecidableEq

/-- A channel: its task and what the task shares with the demultiplexer. -/
structure Chan where
  id : ℤ
  /-- controlled: the target, and whether it was asked for as RDP -/
  addr : String
  isRdp : Bool
  /-- the map holds the channel -/
  entry : Bool
  /-- controller: `opened` has arrived -/
  opened : Bool
  credit : SendCredit
  window : RecvWindow
  inbound : List Inbound
  phase : Phase
  send : SendHalf
  recv : RecvHalf
  /-- `cancel` of `run_channel` -/
  cancel : Bool
  deriving DecidableEq

/-- A step of a channel's task. -/
inductive ChanAct where
  /-- send `open` -/
  | announce
  /-- the command arm of the connect loop -/
  | pull
  /-- the connect arm, which only an empty queue lets through -/
  | connect (ok : Bool)
  | grant
  /-- send `opened` -/
  | opened
  /-- send `opened(false)` -/
  | refuse
  /-- send the `close` of a channel that overran before `opened` -/
  | close
  | send (a : SendAct)
  | recv (a : RecvAct)
  /-- `run_channel` sees a half end, or the teardown, and cancels -/
  | propagate
  /-- both halves have been joined -/
  | finish
  deriving DecidableEq

/-- What is left to do once `run_channel` returns. -/
def Side.afterRelay : Side → Phase
  | .controller => .reaping
  | .controlled => .ended

namespace Chan

/-- The task has not returned yet. -/
def running (c : Chan) : Bool := c.phase ≠ .ended

/-- `inbound.is_closed()`: the queue's receiver has been dropped, with the relay that
owned it or with the task. -/
def inboundClosed (c : Chan) : Bool :=
  c.phase = .ended || c.phase = .reaping || c.recv.ended.isSome

/-- `run_channel` sends `close` when the channel ended for a local reason, never in
answer to the peer's own. -/
def closes (first second : RelayEnd) : Bool :=
  !(first = .peerClosed || second = .peerClosed) &&
  !(first = .tunnelGone || second = .tunnelGone) &&
  (first = .localEof || first = .violation || second = .localEof || second = .violation)

/-- The command arm of the connect loop. -/
def pull (c : Chan) (pendingLen : ℕ) : Option Chan :=
  match c.inbound with
  | .data b :: rest =>
    if pendingFits pendingLen b.length then
      some { c with
        inbound := rest
        recv := { c.recv with pending := c.recv.pending ++ [b] }
        phase := .connecting (pendingLen + charge b.length) }
    else some { c with inbound := rest, phase := .closing }
  | .close :: rest => some { c with inbound := rest, phase := .ended }
  | .violation :: rest => some { c with inbound := rest, phase := .closing }
  | [] => if c.entry then none else some { c with phase := .ended }

/-- One step of the task, with the frame it hands to its sink. `gone` says the sink's
receiver has been dropped, `teardown` that the tunnel has closed. -/
def step (side : Side) (gone teardown : Bool) (c : Chan) : ChanAct → Option (Chan × Option Frame)
  | .announce =>
    match c.phase with
    | .opening host port =>
      if gone then some ({ c with phase := .reaping }, none)
      else some ({ c with phase := .relaying }, some (.openChannel c.id host port channelWindow))
    | _ => none
  | .pull =>
    match c.phase with
    | .connecting n => (c.pull n).map fun c' => (c', none)
    | _ => none
  | .connect ok =>
    match c.phase with
    | .connecting _ =>
      if c.inbound = [] ∧ c.entry then
        some ({ c with phase := if ok then .connected else .refusing }, none)
      else none
    | _ => none
  | .grant =>
    if c.phase = .connected then
      some ({ c with
        window := c.window.grant (channelWindow - initialWindow), phase := .granted }, none)
    else none
  | .opened =>
    if c.phase = .granted then
      if gone then some ({ c with phase := .ended }, none)
      else some ({ c with phase := .relaying }, some (.opened c.id true "" channelWindow))
    else none
  | .refuse =>
    if c.phase = .refusing then
      some ({ c with phase := .ended },
        if gone then none
        else some (.opened c.id false (unreachableMessage c.addr c.isRdp) 0))
    else none
  | .close =>
    if c.phase = .closing then
      some ({ c with phase := .ended }, if gone then none else some (.close c.id))
    else none
  | .send a =>
    if c.phase = .relaying then
      (c.send.step c.cancel gone c.credit a).map fun (h, credit, out) =>
        ({ c with send := h, credit := credit }, out.map (.data c.id))
    else none
  | .recv a =>
    if c.phase = .relaying then
      (c.recv.step c.cancel gone c.entry c.window c.inbound a).map fun (h, w, inbound, upd) =>
        ({ c with recv := h, window := w, inbound := inbound }, upd.map (.windowUpdate c.id))
    else none
  | .propagate =>
    if c.phase = .relaying ∧ (c.send.ended.isSome || c.recv.ended.isSome || teardown) then
      some ({ c with cancel := true }, none)
    else none
  | .finish =>
    if c.phase = .relaying ∧ c.cancel then
      match c.send.ended, c.recv.ended with
      | some e₁, some e₂ =>
        some ({ c with phase := side.afterRelay },
          if closes e₁ e₂ && !gone then some (.close c.id) else none)
      | _, _ => none
    else none

/-- What a step can do, one constructor for each way through the task. -/
inductive Stepped (side : Side) (gone teardown : Bool) (c : Chan) : Chan → Option Frame → Prop where
  | announced {host : String} {port : ℤ} (hp : c.phase = .opening host port) (hg : gone = false) :
    Stepped side gone teardown c { c with phase := .relaying }
      (some (.openChannel c.id host port channelWindow))
  | announceGone {host : String} {port : ℤ} (hp : c.phase = .opening host port) (hg : gone = true) :
    Stepped side gone teardown c { c with phase := .reaping } none
  | pulled {n : ℕ} {b : Bytes} {rest : List Inbound} (hp : c.phase = .connecting n)
    (hin : c.inbound = .data b :: rest) (hfits : pendingFits n b.length = true) :
    Stepped side gone teardown c
      { c with
        inbound := rest
        recv := { c.recv with pending := c.recv.pending ++ [b] }
        phase := .connecting (n + charge b.length) } none
  | pullOver {n : ℕ} {b : Bytes} {rest : List Inbound} (hp : c.phase = .connecting n)
    (hin : c.inbound = .data b :: rest) (hfits : pendingFits n b.length = false) :
    Stepped side gone teardown c { c with inbound := rest, phase := .closing } none
  | pullClose {n : ℕ} {rest : List Inbound} (hp : c.phase = .connecting n)
    (hin : c.inbound = .close :: rest) :
    Stepped side gone teardown c { c with inbound := rest, phase := .ended } none
  | pullViolation {n : ℕ} {rest : List Inbound} (hp : c.phase = .connecting n)
    (hin : c.inbound = .violation :: rest) :
    Stepped side gone teardown c { c with inbound := rest, phase := .closing } none
  | pullGone {n : ℕ} (hp : c.phase = .connecting n) (hin : c.inbound = []) (he : c.entry = false) :
    Stepped side gone teardown c { c with phase := .ended } none
  | connected {n : ℕ} (hp : c.phase = .connecting n) (hin : c.inbound = []) (he : c.entry = true) :
    Stepped side gone teardown c { c with phase := .connected } none
  | connectFailed {n : ℕ} (hp : c.phase = .connecting n) (hin : c.inbound = [])
    (he : c.entry = true) : Stepped side gone teardown c { c with phase := .refusing } none
  | granted (hp : c.phase = .connected) :
    Stepped side gone teardown c
      { c with window := c.window.grant (channelWindow - initialWindow), phase := .granted } none
  | opened (hp : c.phase = .granted) (hg : gone = false) :
    Stepped side gone teardown c { c with phase := .relaying }
      (some (.opened c.id true "" channelWindow))
  | openedGone (hp : c.phase = .granted) (hg : gone = true) :
    Stepped side gone teardown c { c with phase := .ended } none
  | refused {out : Option Frame} (hp : c.phase = .refusing)
    (hout : out = if gone then none
      else some (.opened c.id false (unreachableMessage c.addr c.isRdp) 0)) :
    Stepped side gone teardown c { c with phase := .ended } out
  | closed {out : Option Frame} (hp : c.phase = .closing)
    (hout : out = if gone then none else some (.close c.id)) :
    Stepped side gone teardown c { c with phase := .ended } out
  | send {a : SendAct} {h' : SendHalf} {credit' : SendCredit} {out : Option Bytes}
    (hp : c.phase = .relaying) (hs : c.send.step c.cancel gone c.credit a =
      some (h', credit', out)) :
    Stepped side gone teardown c { c with send := h', credit := credit' } (out.map (.data c.id))
  | recv {a : RecvAct} {h' : RecvHalf} {w' : RecvWindow} {inbound' : List Inbound} {upd : Option ℕ}
    (hp : c.phase = .relaying)
    (hs : c.recv.step c.cancel gone c.entry c.window c.inbound a = some (h', w', inbound', upd)) :
    Stepped side gone teardown c { c with recv := h', window := w', inbound := inbound' }
      (upd.map (.windowUpdate c.id))
  | propagated (hp : c.phase = .relaying)
    (hwhy : c.send.ended.isSome ∨ c.recv.ended.isSome ∨ teardown = true) :
    Stepped side gone teardown c { c with cancel := true } none
  | finished {e₁ e₂ : RelayEnd} {out : Option Frame} (hp : c.phase = .relaying)
    (hcancel : c.cancel = true) (h₁ : c.send.ended = some e₁) (h₂ : c.recv.ended = some e₂)
    (hout : out = if closes e₁ e₂ && !gone then some (.close c.id) else none) :
    Stepped side gone teardown c { c with phase := side.afterRelay } out

variable {side : Side} {gone teardown : Bool} {c c' : Chan} {out : Option Frame}

/-- The loop around the connect takes what is queued. -/
theorem pull_stepped (h : c.step side gone teardown .pull = some (c', out)) :
    Stepped side gone teardown c c' out := by
  simp only [step] at h
  split at h
  · rename_i n hp
    obtain ⟨c₁, hpull, heq⟩ := Option.map_eq_some_iff.mp h
    cases heq
    unfold pull at hpull
    split at hpull
    · rename_i b rest hin
      split_ifs at hpull with hfits
      · cases hpull
        exact .pulled hp hin hfits
      · cases hpull
        exact .pullOver hp hin (by simpa using hfits)
    · rename_i rest hin
      cases hpull
      exact .pullClose hp hin
    · rename_i rest hin
      cases hpull
      exact .pullViolation hp hin
    · rename_i hin
      split_ifs at hpull with he
      cases hpull
      exact .pullGone hp hin (by simpa using he)
  · cases h

/-- Both relays are over. -/
theorem finish_stepped (h : c.step side gone teardown .finish = some (c', out)) :
    Stepped side gone teardown c c' out := by
  unfold step at h
  dsimp only at h
  by_cases hp : c.phase = .relaying ∧ c.cancel = true
  · rw [if_pos hp] at h
    split at h
    · rename_i e₁ e₂ h₁ h₂
      cases h
      exact .finished hp.1 hp.2 h₁ h₂ rfl
    · cases h
  · rw [if_neg hp] at h
    cases h

/-- Inversion of a step. -/
theorem step_stepped {a : ChanAct} (h : c.step side gone teardown a = some (c', out)) :
    Stepped side gone teardown c c' out := by
  cases a with
  | announce =>
    simp only [step] at h
    split at h
    · rename_i host port hp
      split_ifs at h with hg
      · cases h
        exact .announceGone hp hg
      · cases h
        exact .announced hp (by simpa using hg)
    · cases h
  | pull => exact pull_stepped h
  | connect ok =>
    simp only [step] at h
    split at h
    · rename_i n hp
      split_ifs at h with hin hok
      · cases h
        exact .connected hp hin.1 hin.2
      · cases h
        exact .connectFailed hp hin.1 hin.2
    · cases h
  | grant =>
    simp only [step] at h
    split_ifs at h with hp
    cases h
    exact .granted hp
  | opened =>
    simp only [step] at h
    split_ifs at h with hp hg
    · cases h
      exact .openedGone hp hg
    · cases h
      exact .opened hp (by simpa using hg)
  | refuse =>
    unfold step at h
    dsimp only at h
    by_cases hp : c.phase = .refusing
    · rw [if_pos hp] at h
      cases h
      exact .refused hp rfl
    · rw [if_neg hp] at h
      cases h
  | close =>
    unfold step at h
    dsimp only at h
    by_cases hp : c.phase = .closing
    · rw [if_pos hp] at h
      cases h
      exact .closed hp rfl
    · rw [if_neg hp] at h
      cases h
  | send a =>
    simp only [step] at h
    split_ifs at h with hp
    obtain ⟨⟨h', credit', out'⟩, hs, heq⟩ := Option.map_eq_some_iff.mp h
    cases heq
    exact .send hp hs
  | recv a =>
    simp only [step] at h
    split_ifs at h with hp
    obtain ⟨⟨h', w', inbound', upd⟩, hs, heq⟩ := Option.map_eq_some_iff.mp h
    cases heq
    exact .recv hp hs
  | propagate =>
    simp only [step] at h
    split_ifs at h with hp
    cases h
    obtain ⟨hp, hwhy⟩ := hp
    refine .propagated hp ?_
    simpa [or_assoc] using hwhy
  | finish => exact finish_stepped h

/-! ## What the demultiplexer does to a channel -/

/-- A `data` frame: charged, then queued. A frame over the window drops the entry and
leaves a `Violation`; a queue nobody reads drops the entry too. -/
def data (c : Chan) (b : Bytes) : Chan :=
  match c.window.accept b.length with
  | (true, w) =>
    if c.inboundClosed then { c with window := w, entry := false }
    else { c with window := w, inbound := c.inbound ++ [.data b] }
  | (false, w) =>
    { c with
      window := w, entry := false
      inbound := if c.inboundClosed then c.inbound else c.inbound ++ [.violation] }

/-- A `close` frame, or a refusal. -/
def close (c : Chan) : Chan :=
  { c with
    entry := false
    inbound := if c.inboundClosed then c.inbound else c.inbound ++ [.close] }

/-- A `window_update` frame. -/
def windowUpdate (c : Chan) (add : ℕ) : Chan := { c with credit := c.credit.add add }

/-- The entry goes without a word: `retain`, `remove` or `clear`. -/
def drop (c : Chan) : Chan := { c with entry := false }

/-- An `opened` frame: a repeated one must not raise the credit again. -/
def raise (c : Chan) (window : ℕ) : Chan :=
  if c.opened then c else { c with opened := true, credit := c.credit.raiseInitial window }

/-! ## The accounts of one channel, whatever the peer does -/

/-- A task that has returned stays so. -/
theorem Stepped.was_running (hs : Stepped side gone teardown c c' out) : c.running = true := by
  cases hs <;> simp_all [running]

/-- The map's flag is the demultiplexer's alone. -/
theorem Stepped.entry_eq (hs : Stepped side gone teardown c c' out) : c'.entry = c.entry := by
  cases hs <;> rfl

theorem Stepped.id_eq (hs : Stepped side gone teardown c c' out) : c'.id = c.id := by
  cases hs <;> rfl

/-- Credit the sending relay can still turn into frames. -/
def owed (c : Chan) : ℕ := c.credit.credit + c.send.taken + chargeAll c.send.inHand

/-- The relay of every channel keeps its allowance honest. -/
theorem Stepped.send_wf (hs : Stepped side gone teardown c c' out) (hw : c.send.Wf) :
    c'.send.Wf := by
  cases hs with
  | send hp hs => exact (SendHalf.step_stepped hs).wf hw
  | announced | announceGone | pulled | pullOver | pullClose | pullViolation | pullGone | connected
  | connectFailed | granted | opened | openedGone | refused | closed | recv | propagated
  | finished => exact hw

/-- What a frame costs the channel it belongs to. -/
def frameCharge : Frame → ℕ
  | .data _ b => charge b.length
  | _ => 0

/-- **A task only sends data it has credit for.** -/
theorem Stepped.owed_le (hs : Stepped side gone teardown c c' out) (hw : c.send.Wf)
    (hle : c.owed ≤ maxSendCredit) : c'.owed + (out.elim 0 frameCharge) ≤ c.owed := by
  cases hs with
  | @send a h' credit' out hp hs =>
    have hpaid := (SendHalf.step_stepped hs).paid hw (by unfold owed at hle; omega)
    unfold owed
    cases out with
    | none =>
      simp at hpaid ⊢
      omega
    | some b =>
      simp [frameCharge] at hpaid ⊢
      omega
  | @recv a h' w' inbound' upd hp hs => cases upd <;> simp [owed, frameCharge]
  | refused hp hout | closed hp hout | finished hp hc h₁ h₂ hout =>
    subst hout
    split_ifs <;> simp [owed, frameCharge]
  | announced | announceGone | pulled | pullOver | pullClose | pullViolation | pullGone | connected
  | connectFailed | granted | opened | openedGone | propagated => simp [owed, frameCharge]

/-- The window granted so far. -/
def limit : Phase → ℕ
  | .connecting _ | .connected => initialWindow
  | _ => channelWindow

theorem limit_le (p : Phase) : limit p ≤ channelWindow := by
  have hinit : initialWindow ≤ channelWindow := by decide
  cases p with
  | connecting | connected => exact hinit
  | opening | granted | refusing | closing | relaying | reaping | ended => exact le_rfl

/-- The window a channel gives away stays within what it granted: left over, used up by
what the channel holds, or waiting to be advertised. -/
def Accounted (c : Chan) : Prop :=
  c.window.remaining + c.recv.held c.inbound + c.window.drainedSinceUpdate ≤ limit c.phase

/-- Leaving a phase for one that has been granted no less. -/
theorem Accounted.move (h : c.Accounted) {p : Phase} {inbound : List Inbound}
    (hp : limit c.phase ≤ limit p) (hin : ∃ pre, c.inbound = pre ++ inbound) :
    ({ c with inbound := inbound, phase := p } : Chan).Accounted := by
  obtain ⟨pre, hin⟩ := hin
  unfold Accounted at h ⊢
  simp only [RecvHalf.held, hin, Inbound.chunks_append, chargeAll_append] at h ⊢
  omega

/-- **A task never gives away more window than it granted.** -/
theorem Stepped.accounted (hs : Stepped side gone teardown c c' out) (h : c.Accounted) :
    c'.Accounted := by
  have hall : limit c.phase ≤ channelWindow := limit_le _
  cases hs with
  | announced hp | announceGone hp | openedGone hp | opened hp | refused hp | closed hp =>
    exact h.move (by rw [hp]; exact le_rfl) ⟨[], rfl⟩
  | @pulled n b rest hp hin hfits =>
    unfold Accounted at h ⊢
    simp only [hp, limit, RecvHalf.held, hin, Inbound.chunks, chargeAll_cons, chargeAll_append,
      chargeAll_nil, RecvHalf.current] at h ⊢
    omega
  | pullOver hp hin => exact h.move hall ⟨[_], hin⟩
  | pullClose hp hin => exact h.move hall ⟨[_], hin⟩
  | pullViolation hp hin => exact h.move hall ⟨[_], hin⟩
  | pullGone hp hin he => exact h.move hall ⟨[], rfl⟩
  | connected hp => exact h.move (by rw [hp]; exact le_rfl) ⟨[], rfl⟩
  | connectFailed hp => exact h.move hall ⟨[], rfl⟩
  | granted hp =>
    unfold Accounted at h ⊢
    simp only [hp, limit] at h ⊢
    have hsum : initialWindow + (channelWindow - initialWindow) = channelWindow := by decide
    have hmax : channelWindow ≤ u32Max := by decide
    rw [RecvWindow.grant, saturatingAdd_eq (by omega)]
    dsimp only
    omega
  | send hp hs => exact h
  | recv hp hs =>
    have hmax : channelWindow ≤ u32Max := by decide
    obtain ⟨hk, -⟩ := (RecvHalf.step_stepped hs).kept (le_trans h (le_trans hall hmax))
    exact le_trans hk h
  | propagated hp => exact h
  | finished hp =>
    refine h.move ?_ ⟨[], rfl⟩
    rw [hp]
    cases side <;> exact le_rfl

theorem Accounted.data (h : c.Accounted) (b : Bytes) : (c.data b).Accounted := by
  unfold Chan.data
  unfold Accounted at h
  by_cases hfit : charge b.length ≤ c.window.remaining
  · rw [RecvWindow.accept_true hfit]
    split_ifs
    · unfold Accounted
      dsimp only
      omega
    · unfold Accounted
      simp only [RecvHalf.held, Inbound.chunks_append, Inbound.chunks, chargeAll_append,
        chargeAll_cons, chargeAll_nil] at h ⊢
      omega
  · rw [RecvWindow.accept, if_neg hfit]
    split_ifs
    · exact h
    · unfold Accounted
      simp only [RecvHalf.held, Inbound.chunks_append, Inbound.chunks, chargeAll_append,
        chargeAll_nil] at h ⊢
      omega

theorem Accounted.close (h : c.Accounted) : c.close.Accounted := by
  unfold Chan.close
  split_ifs
  · exact h
  · unfold Accounted at h ⊢
    simp only [RecvHalf.held, Inbound.chunks_append, Inbound.chunks, chargeAll_append,
      chargeAll_nil] at h ⊢
    omega

/-- The peer's bytes a channel holds: queued, pending, or being written. -/
def bytesHeld (c : Chan) : ℕ :=
  ((Inbound.chunks c.inbound ++ c.recv.pending ++ c.recv.current).map List.length).sum

/-- Bytes are charged at least their number. -/
theorem length_sum_le_chargeAll (fs : List Bytes) (h : chargeAll fs < u32Max) :
    (fs.map List.length).sum ≤ chargeAll fs := by
  induction fs with
  | nil => exact le_rfl
  | cons f fs ih =>
    rw [chargeAll_cons] at h ⊢
    have h₁ : f.length ≤ charge f.length := le_charge (by omega)
    have h₂ := ih (by omega)
    simp only [List.map_cons, List.sum_cons]
    omega

theorem Accounted.bytesHeld_le (h : c.Accounted) : c.bytesHeld ≤ channelWindow := by
  unfold Accounted at h
  have hlim := limit_le c.phase
  have hmax : channelWindow < u32Max := by decide
  have hsum : chargeAll (Inbound.chunks c.inbound ++ c.recv.pending ++ c.recv.current) =
      c.recv.held c.inbound := by
    simp [RecvHalf.held, Nat.add_assoc]
  have := length_sum_le_chargeAll _ (hsum.trans_lt (by omega))
  unfold bytesHeld
  omega

end Chan

/-- Apply `f` to the channel the map holds under `id`. -/
def onEntry (id : ℤ) (f : Chan → Chan) (cs : List Chan) : List Chan :=
  cs.map fun c => if c.entry && c.id = id then f c else c

/-- `contains_key`. -/
def hasEntry (id : ℤ) (cs : List Chan) : Bool := cs.any fun c => c.entry && c.id = id

/-- `channels.len()`. -/
def entries (cs : List Chan) : ℕ := cs.countP Chan.entry

end BgDesk
