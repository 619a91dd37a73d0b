import BgDesk.Machine
import BgDesk.MuxRelay

/-!
# Flow control of one direction of a channel

Sender and receiver of one direction of a multiplexed channel, with what is in
flight between them: data frames one way, `window_update` and `opened` the
other. Both ends run the code of `src/port_forward_mux.rs` (the relays and
their accounting) and of `src/server/port_forward_mux.rs` (the wait for the
target, during which the controlled side buffers).

The two directions are two initial states of one machine. Towards the
controlled side, the controller starts on `initialWindow` and `opened` raises it;
towards the controller, the controlled side starts on the window `open` brought.

* `Flow.step` — every step either end or the transport can take;
* `Flow.Agrees` — the invariant: what the sender may still use is what the
  receiver still accepts, and what the receiver has given away is accounted for;
* `Flow.agreement` — no frame is ever refused, the window is conserved, and no
  arithmetic of the accounting ever saturates, is clamped or underflows.
-/

namespace BgDesk

/-- Which end a direction of a channel leads to. -/
inductive Direction where
  | toControlled
  | toController
  deriving DecidableEq

/-- How far the receiving end is. On the controlled side these are the stages of
`run_controlled_channel`; the controller relays from the start. -/
inductive RecvPhase where
  /-- waiting for the target, with this much charged to `pending_len` -/
  | connecting (pendingLen : ℕ)
  /-- the socket is there, the rest of the window is still to be granted -/
  | connected
  /-- granted, with `opened` still to be sent -/
  | granted
  | relaying
  | gone
  deriving DecidableEq

/-- One direction of a channel. -/
structure Flow where
  credit : SendCredit
  send : SendHalf
  /-- `opened` of the sender's entry: the credit has been raised -/
  opened : Bool
  /-- the sender's map still holds the channel, so updates reach its credit -/
  senderEntry : Bool
  /-- data frames sent and not yet handled -/
  wire : List Bytes
  /-- `window_update` frames in flight -/
  updates : List ℕ
  /-- an `opened` in flight -/
  openedWire : Bool
  window : RecvWindow
  /-- the receiver's map still holds the channel -/
  entry : Bool
  inbound : List Inbound
  /-- the receiving relay; `pending` fills before it runs -/
  recv : RecvHalf
  phase : RecvPhase
  /-- the receiver has found the sender over its window -/
  violation : Bool
  deriving DecidableEq

namespace Flow

/-- A channel as both ends start it. -/
def init (prebuf : Bytes) : Direction → Flow
  | .toControlled =>
    { credit := .new initialWindow, send := .new prebuf, opened := false, senderEntry := true
      wire := [], updates := [], openedWire := false
      window := .new initialWindow, entry := true, inbound := [], recv := .new []
      phase := .connecting 0, violation := false }
  | .toController =>
    { credit := .new (effectiveWindow channelWindow), send := .new prebuf, opened := true
      senderEntry := true, wire := [], updates := [], openedWire := false
      window := .new channelWindow, entry := true, inbound := [], recv := .new []
      phase := .relaying, violation := false }

/-- What can happen next. -/
inductive Act where
  /-- the sending relay takes a step -/
  | send (cancel gone : Bool) (a : SendAct)
  /-- the receiver's demultiplexer handles the next data frame -/
  | deliver
  /-- the connecting channel takes the next command off its queue -/
  | pull
  /-- the connect completes, which only an empty queue lets through -/
  | connect (ok : Bool)
  /-- the window is widened -/
  | grant
  /-- `opened` is sent, or finds the writer gone -/
  | sendOpened (gone : Bool)
  /-- the receiving relay takes a step -/
  | recv (cancel gone : Bool) (a : RecvAct)
  /-- the sender's demultiplexer handles the next `window_update` -/
  | deliverUpdate
  /-- the sender's demultiplexer handles `opened` -/
  | deliverOpened
  /-- the receiver's entry goes, with or without a `Close` for the task -/
  | dropEntry (close : Bool)
  /-- the sender's entry goes -/
  | dropSender
  deriving DecidableEq

/-- The task no longer takes from its queue: the queue's receiver has been dropped. -/
def inboundClosed (s : Flow) : Bool := s.phase = .gone || s.recv.ended.isSome

/-- The next data frame reaches the demultiplexer. -/
def deliver (s : Flow) (f : Bytes) (rest : List Bytes) : Flow :=
  if s.entry then
    match s.window.accept f.length with
    | (true, w) =>
      if s.inboundClosed then { s with wire := rest, window := w, entry := false }
      else { s with wire := rest, window := w, inbound := s.inbound ++ [.data f] }
    | (false, w) =>
      { s with
        wire := rest, window := w, entry := false
        inbound := s.inbound ++ [.violation], violation := true }
  else { s with wire := rest }

/-- The command arm of the connect loop. -/
def pull (s : Flow) (pendingLen : ℕ) : Option Flow :=
  match s.inbound with
  | .data b :: rest =>
    if pendingFits pendingLen b.length then
      some { s with
        inbound := rest
        recv := { s.recv with pending := s.recv.pending ++ [b] }
        phase := .connecting (pendingLen + charge b.length) }
    else some { s with inbound := rest, phase := .gone, violation := true }
  | .close :: rest | .violation :: rest => some { s with inbound := rest, phase := .gone }
  | [] => if s.entry then none else some { s with phase := .gone }

/-- One step. -/
def step (s : Flow) : Act → Option Flow
  | .send cancel gone a =>
    (s.send.step cancel gone s.credit a).map fun (h, c, out) =>
      { s with send := h, credit := c, wire := s.wire ++ out.toList }
  | .deliver =>
    match s.wire with
    | [] => none
    | f :: rest => some (s.deliver f rest)
  | .pull =>
    match s.phase with
    | .connecting n => s.pull n
    | _ => none
  | .connect ok =>
    match s.phase with
    | .connecting _ =>
      if s.inbound = [] ∧ s.entry then
        some { s with phase := if ok then .connected else .gone }
      else none
    | _ => none
  | .grant =>
    if s.phase = .connected then
      some { s with window := s.window.grant (channelWindow - initialWindow), phase := .granted }
    else none
  | .sendOpened gone =>
    if s.phase = .granted then
      if gone then some { s with phase := .gone }
      else some { s with phase := .relaying, openedWire := true }
    else none
  | .recv cancel gone a =>
    if s.phase = .relaying then
      (s.recv.step cancel gone s.entry s.window s.inbound a).map fun (h, w, inbound, upd) =>
        { s with recv := h, window := w, inbound := inbound, updates := s.updates ++ upd.toList }
    else none
  | .deliverUpdate =>
    match s.updates with
    | [] => none
    | n :: rest =>
      some { s with updates := rest, credit := if s.senderEntry then s.credit.add n else s.credit }
  | .deliverOpened =>
    if s.openedWire then
      if s.senderEntry ∧ s.opened = false then
        some { s with
          openedWire := false, opened := true, credit := s.credit.raiseInitial channelWindow }
      else some { s with openedWire := false }
    else none
  | .dropEntry close =>
    if s.entry then
      some { s with
        entry := false
        inbound := if close && !s.inboundClosed then s.inbound ++ [.close] else s.inbound }
    else none
  | .dropSender => some { s with senderEntry := false }

/-! ## The accounts -/

/-- What the sender holds or has in flight: credit, the allowance of a read, frames
paid for, and updates on their way back to it. -/
def outstanding (s : Flow) : ℕ :=
  s.credit.credit + s.send.taken + chargeAll (s.send.inHand ++ s.wire) + s.updates.sum

/-- The widening that `opened` carries: from the grant until the sender has it. -/
def openedExtra (s : Flow) : ℕ :=
  if s.phase = .granted ∨ s.openedWire then channelWindow - initialWindow else 0

/-- Everything the window can be: with the sender, in flight, at the receiver, or
waiting to be advertised. -/
def balance (s : Flow) : ℕ :=
  s.outstanding + s.recv.held s.inbound + s.window.drainedSinceUpdate

/-- The window the sender knows of. -/
def announced (s : Flow) : ℕ := if s.opened then channelWindow else initialWindow

/-- The window the receiver has granted. -/
def granted (s : Flow) : ℕ :=
  match s.phase with
  | .connecting _ | .connected => initialWindow
  | _ => channelWindow

/-- Neither end has given up on the channel or lost its way to the other. -/
def live (s : Flow) : Prop :=
  s.entry = true ∧ s.senderEntry = true ∧ s.phase ≠ .gone ∧ s.recv.ended = none ∧
    s.send.ended ≠ some .tunnelGone

instance (s : Flow) : Decidable s.live := inferInstanceAs (Decidable (_ ∧ _))

/-- The arithmetic of this action is exact: no `saturating_add` saturates, no clamp
cuts, no subtraction underflows and no length is over `u32`. -/
def Exact (s : Flow) : Act → Prop
  | .send _ _ .refund =>
    match s.send.pc with
    | .refunding allow got =>
      SendHalf.spent got ≤ allow ∧ s.credit.credit + (allow - SendHalf.spent got) ≤ maxSendCredit
    | .dropping allow => s.credit.credit + allow ≤ maxSendCredit
    | _ => True
  | .deliver =>
    match s.wire with
    | f :: _ => f.length ≤ u32Max ∧ (s.entry = true → charge f.length ≤ s.window.remaining)
    | [] => True
  | .pull =>
    match s.phase, s.inbound with
    | .connecting n, .data b :: _ => n + charge b.length ≤ u32Max
    | _, _ => True
  | .grant =>
    s.phase = .connected → s.window.remaining + (channelWindow - initialWindow) ≤ u32Max
  | .recv _ _ .wrote =>
    match s.recv.pc with
    | .writing chunk [] =>
      s.window.remaining + (s.window.drainedSinceUpdate + charge chunk.length) ≤ u32Max
    | _ => True
  | .deliverUpdate =>
    match s.updates with
    | n :: _ => s.credit.credit + n ≤ maxSendCredit
    | [] => True
  | .deliverOpened =>
    s.openedWire = true →
      s.credit.credit + (effectiveWindow channelWindow - initialWindow) ≤ maxSendCredit
  | _ => True

/-! ## The invariant -/

/-- The stages of `opened`: it is sent once, after the grant, and raises the credit
once. -/
structure Staged (s : Flow) : Prop where
  early : s.phase = .granted ∨ s.phase = .connected ∨ (∃ n, s.phase = .connecting n) →
    s.opened = false ∧ s.openedWire = false
  once : s.openedWire = true → s.opened = false
  raised : s.phase = .relaying → s.senderEntry = true → s.openedWire = false → s.opened = true

/-- What holds of a channel at any time. -/
structure Agrees (s : Flow) : Prop where
  wf : s.send.Wf
  staged : s.Staged
  pending : ∀ n, s.phase = .connecting n → n = chargeAll s.recv.pending
  /-- the sender can use no more than the receiver will accept -/
  sender_le : s.outstanding + s.openedExtra ≤ s.window.remaining
  /-- the receiver accounts for no more than it granted -/
  receiver_le : s.window.remaining + s.recv.held s.inbound + s.window.drainedSinceUpdate ≤ s.granted
  exact : s.live → s.outstanding + s.openedExtra = s.window.remaining ∧
    s.window.remaining + s.recv.held s.inbound + s.window.drainedSinceUpdate = s.granted
  clean : s.violation = false ∧ Inbound.violation ∉ s.inbound
  small : ∀ f ∈ s.send.inHand ++ s.wire, f.length ≤ maxFrame

theorem init_agrees (prebuf : Bytes) (d : Direction) : (init prebuf d).Agrees := by
  cases d with
  | toControlled =>
    refine ⟨SendHalf.wf_new _, ⟨fun _ => ⟨rfl, rfl⟩, nofun, nofun⟩, ?_, le_of_eq rfl,
      le_of_eq rfl, fun _ => ⟨rfl, rfl⟩, ⟨rfl, List.not_mem_nil⟩, nofun⟩
    intro n hn
    cases hn
    rfl
  | toController =>
    refine ⟨SendHalf.wf_new _, ⟨?_, nofun, fun _ _ _ => rfl⟩, nofun, le_of_eq rfl,
      le_of_eq rfl, fun _ => ⟨rfl, rfl⟩, ⟨rfl, List.not_mem_nil⟩, nofun⟩
    rintro (h | h | ⟨n, h⟩) <;> cases h

theorem granted_le (s : Flow) : s.granted ≤ channelWindow := by
  unfold granted
  split
  · decide
  · decide
  · exact le_rfl

variable {s s' : Flow} {n : ℕ}

/-- The accounts stay within the advertised window, far below any saturation. -/
theorem Agrees.within (h : s.Agrees) :
    s.outstanding + s.openedExtra + s.recv.held s.inbound + s.window.drainedSinceUpdate
      ≤ channelWindow := by
  have h₁ := h.sender_le
  have h₂ := h.receiver_le
  have h₃ := s.granted_le
  omega

/-- The sending relay moves. -/
theorem Agrees.sendStep (h : s.Agrees) {h' : SendHalf} {c' : SendCredit} {out : Option Bytes}
    (hs : SendHalf.Stepped s.credit s.send h' c' out) :
    ({ s with send := h', credit := c', wire := s.wire ++ out.toList } : Flow).Agrees := by
  have hle : s.credit.credit + s.send.taken ≤ maxSendCredit := by
    have := h.within
    unfold outstanding at this
    have : maxSendCredit = channelWindow := rfl
    omega
  have hpaid := hs.paid h.wf hle
  have hwf := hs.wf h.wf
  have hsum : ∀ fs : List Bytes, chargeAll (h'.inHand ++ (s.wire ++ fs)) =
      chargeAll h'.inHand + chargeAll fs + chargeAll s.wire := by
    intro fs
    simp
    omega
  refine ⟨hwf, ⟨h.staged.early, h.staged.once, h.staged.raised⟩, h.pending, ?_, h.receiver_le, ?_,
    h.clean, ?_⟩
  · have := h.sender_le
    simp only [outstanding, openedExtra, hsum, chargeAll_append] at this ⊢
    split_ifs at hpaid this ⊢ <;> omega
  · intro hl
    have hl₀ : s.live := ⟨hl.1, hl.2.1, hl.2.2.1, hl.2.2.2.1, hs.running _⟩
    obtain ⟨heq, hrecv⟩ := h.exact hl₀
    refine ⟨?_, hrecv⟩
    rw [if_neg hl.2.2.2.2] at hpaid
    simp only [outstanding, openedExtra, hsum, chargeAll_append] at heq ⊢
    split_ifs at heq ⊢ <;> omega
  · intro f hf
    simp only [List.mem_append] at hf
    rcases hf with hf | hf | hf
    · exact hs.small h.wf f (.inl hf)
    · exact h.small f (List.mem_append_right _ hf)
    · exact hs.small h.wf f (.inr hf)

/-- The next data frame is within the window. -/
theorem Agrees.fits (h : s.Agrees) {f : Bytes} {rest : List Bytes} (hw : s.wire = f :: rest) :
    charge f.length ≤ s.window.remaining := by
  have := h.sender_le
  simp only [outstanding, chargeAll_append, hw, chargeAll_cons] at this
  omega

/-- A data frame is handled. -/
theorem Agrees.deliver (h : s.Agrees) {f : Bytes} {rest : List Bytes} (hw : s.wire = f :: rest) :
    (s.deliver f rest).Agrees := by
  have hfit := h.fits hw
  have hle := h.sender_le
  have hsmall : ∀ g ∈ s.send.inHand ++ rest, g.length ≤ maxFrame := by
    intro g hg
    apply h.small
    rw [hw]
    rcases List.mem_append.mp hg with hg | hg
    · exact List.mem_append_left _ hg
    · exact List.mem_append_right _ (List.mem_cons_of_mem _ hg)
  simp only [outstanding, chargeAll_append, hw, chargeAll_cons, openedExtra] at hle
  unfold Flow.deliver
  rw [RecvWindow.accept_true hfit]
  split_ifs with hentry hclosed
  · -- the task has gone: the frame is lost, and the entry with it
    refine ⟨h.wf, ⟨h.staged.early, h.staged.once, h.staged.raised⟩, h.pending, ?_, ?_, nofun,
      h.clean, hsmall⟩
    · simp only [outstanding, chargeAll_append, openedExtra]
      omega
    · have := h.receiver_le
      simp only [granted] at this ⊢
      omega
  · refine ⟨h.wf, ⟨h.staged.early, h.staged.once, h.staged.raised⟩, h.pending, ?_, ?_, ?_,
      ?_, hsmall⟩
    · simp only [outstanding, chargeAll_append, openedExtra]
      omega
    · have := h.receiver_le
      simp only [RecvHalf.held, Inbound.chunks_append, Inbound.chunks, chargeAll_append,
        chargeAll_cons, chargeAll_nil, granted] at this ⊢
      omega
    · intro hl
      obtain ⟨h₁, h₂⟩ := h.exact hl
      simp only [outstanding, chargeAll_append, hw, chargeAll_cons, openedExtra, granted,
        RecvHalf.held] at h₁ h₂
      simp only [outstanding, chargeAll_append, openedExtra, RecvHalf.held, Inbound.chunks_append,
        Inbound.chunks, chargeAll_cons, chargeAll_nil, granted]
      constructor <;> omega
    · exact ⟨h.clean.1, by simp [h.clean.2]⟩
  · -- no entry: the frame is for an unknown channel
    refine ⟨h.wf, ⟨h.staged.early, h.staged.once, h.staged.raised⟩, h.pending, ?_,
      h.receiver_le, ?_,
      h.clean, hsmall⟩
    · simp only [outstanding, chargeAll_append, openedExtra]
      omega
    · intro hl
      exact absurd hl.1 hentry

/-- What is buffered before `opened` fits `initialWindow`. -/
theorem Agrees.pendingFits (h : s.Agrees) (hp : s.phase = .connecting n) {b : Bytes}
    {rest : List Inbound} (hin : s.inbound = .data b :: rest) : pendingFits n b.length = true := by
  have hn := h.pending n hp
  have := h.receiver_le
  simp only [granted, hp, RecvHalf.held, hin, Inbound.chunks, chargeAll_cons] at this
  simp only [BgDesk.pendingFits, decide_eq_true_eq]
  omega

/-- The receiving task goes away before it relays. -/
theorem Agrees.leave (h : s.Agrees) {inbound : List Inbound}
    (hin : ∃ pre, s.inbound = pre ++ inbound) :
    ({ s with inbound := inbound, phase := .gone } : Flow).Agrees := by
  obtain ⟨pre, hin⟩ := hin
  refine ⟨h.wf, ⟨?_, h.staged.once, nofun⟩, nofun, ?_, ?_, ?_, ?_, h.small⟩
  · rintro (h | h | ⟨n, h⟩) <;> cases h
  · refine le_trans (Nat.add_le_add_left ?_ _) h.sender_le
    simp only [openedExtra, reduceCtorEq, false_or]
    split_ifs with hwire hany
    · exact le_rfl
    · exact absurd (Or.inr hwire) hany
    · exact Nat.zero_le _
    · exact le_rfl
  · have h₁ := h.receiver_le
    have h₂ := s.granted_le
    simp only [RecvHalf.held, hin, Inbound.chunks_append, chargeAll_append] at h₁ ⊢
    show _ ≤ channelWindow
    omega
  · intro hl
    exact absurd rfl hl.2.2.1
  · refine ⟨h.clean.1, ?_⟩
    intro hmem
    apply h.clean.2
    rw [hin]
    exact List.mem_append_right _ hmem

/-- The connecting channel takes a command. -/
theorem Agrees.pull (h : s.Agrees) (hp : s.phase = .connecting n) (hs : s.pull n = some s') :
    s'.Agrees := by
  unfold Flow.pull at hs
  split at hs
  · rename_i b rest hin
    rw [if_pos (h.pendingFits hp hin)] at hs
    cases hs
    have hearly := h.staged.early (.inr (.inr ⟨n, hp⟩))
    refine ⟨h.wf, ⟨fun _ => hearly, h.staged.once, by rintro ⟨⟩⟩, ?_, ?_, ?_, ?_, ?_, h.small⟩
    · intro m hm
      cases hm
      simp [h.pending n hp]
    · have := h.sender_le
      simp only [outstanding, openedExtra, hp, reduceCtorEq, false_or] at this ⊢
      exact this
    · have := h.receiver_le
      simp only [granted, hp, RecvHalf.held, hin, Inbound.chunks, chargeAll_cons] at this
      simp only [granted, RecvHalf.held, RecvHalf.current, chargeAll_append, chargeAll_cons,
        chargeAll_nil] at this ⊢
      omega
    · intro hl
      have hl₀ : s.live := by
        refine ⟨hl.1, hl.2.1, ?_, hl.2.2.2.1, hl.2.2.2.2⟩
        rw [hp]
        rintro ⟨⟩
      obtain ⟨h₁, h₂⟩ := h.exact hl₀
      simp only [outstanding, openedExtra, granted, hp, RecvHalf.held, hin, Inbound.chunks,
        chargeAll_cons, reduceCtorEq, false_or] at h₁ h₂
      simp only [outstanding, openedExtra, granted, RecvHalf.held, RecvHalf.current,
        chargeAll_append, chargeAll_cons, chargeAll_nil, reduceCtorEq, false_or] at h₁ h₂ ⊢
      constructor <;> omega
    · refine ⟨h.clean.1, ?_⟩
      intro hmem
      apply h.clean.2
      rw [hin]
      exact List.mem_cons_of_mem _ hmem
  · rename_i rest hin
    cases hs
    exact h.leave ⟨[.close], hin⟩
  · rename_i rest hin
    cases hs
    exact h.leave ⟨[.violation], hin⟩
  · rename_i hin
    split_ifs at hs
    cases hs
    exact h.leave ⟨[], rfl⟩

/-- A change of phase that moves no account. -/
theorem Agrees.rephase (h : s.Agrees) {p : RecvPhase} {o : Bool}
    (hstaged : ({ s with phase := p, openedWire := o } : Flow).Staged)
    (hp : ∀ n, p ≠ .connecting n) (hgone : s.phase ≠ .gone)
    (hextra : ({ s with phase := p, openedWire := o } : Flow).openedExtra = s.openedExtra)
    (hgranted : ({ s with phase := p, openedWire := o } : Flow).granted = s.granted) :
    ({ s with phase := p, openedWire := o } : Flow).Agrees := by
  refine ⟨h.wf, hstaged, fun n hn => absurd hn (hp n), ?_, ?_, ?_, h.clean, h.small⟩
  · rw [hextra]
    exact h.sender_le
  · rw [hgranted]
    exact h.receiver_le
  · intro hl
    rw [hextra, hgranted]
    exact h.exact ⟨hl.1, hl.2.1, hgone, hl.2.2.2.1, hl.2.2.2.2⟩

/-- The connect completes. -/
theorem Agrees.connected (h : s.Agrees) (hp : s.phase = .connecting n) :
    ({ s with phase := .connected } : Flow).Agrees := by
  have hearly := h.staged.early (.inr (.inr ⟨n, hp⟩))
  refine h.rephase ⟨fun _ => hearly, h.staged.once, nofun⟩ nofun (by simp [hp]) ?_ ?_
  · simp [openedExtra, hp, hearly.2]
  · simp [granted, hp]

/-- The window is widened. -/
theorem Agrees.grant (h : s.Agrees) (hp : s.phase = .connected) : ({ s with
      window := s.window.grant (channelWindow - initialWindow), phase :=
  .granted } : Flow).Agrees := by
  have hearly := h.staged.early (.inr (.inl hp))
  have hextra : s.openedExtra = 0 := by simp [openedExtra, hp, hearly.2]
  have hg : s.granted = initialWindow := by simp [granted, hp]
  have hle := h.sender_le
  have hle' := h.receiver_le
  have hsum : initialWindow + (channelWindow - initialWindow) = channelWindow := by decide
  have hmax : channelWindow ≤ u32Max := by decide
  have hgrant : s.window.grant (channelWindow - initialWindow) =
      ⟨s.window.remaining + (channelWindow - initialWindow), s.window.drainedSinceUpdate⟩ := by
    rw [RecvWindow.grant, saturatingAdd_eq (by omega)]
  rw [hgrant]
  refine ⟨h.wf, ⟨fun _ => hearly, h.staged.once, nofun⟩, nofun, ?_, ?_, ?_, h.clean, h.small⟩
  · rw [hextra] at hle
    simp only [openedExtra, true_or, if_true]
    exact Nat.add_le_add_right hle _
  · show _ ≤ channelWindow
    dsimp only
    omega
  · intro hl
    have hl₀ : s.live := ⟨hl.1, hl.2.1, by simp [hp], hl.2.2.2.1, hl.2.2.2.2⟩
    obtain ⟨h₁, h₂⟩ := h.exact hl₀
    rw [hextra] at h₁
    refine ⟨?_, ?_⟩
    · simp only [openedExtra, true_or, if_true]
      exact congrArg (· + (channelWindow - initialWindow)) h₁
    · show _ = channelWindow
      dsimp only
      omega

/-- `opened` leaves. -/
theorem Agrees.sendOpened (h : s.Agrees) (hp : s.phase = .granted) :
    ({ s with phase := .relaying, openedWire := true } : Flow).Agrees := by
  have hearly := h.staged.early (.inl hp)
  refine h.rephase ⟨?_, fun _ => hearly.1, nofun⟩ nofun (by simp [hp]) ?_ ?_
  · rintro (h | h | ⟨n, h⟩) <;> cases h
  · simp [openedExtra, hp]
  · simp [granted, hp]

/-- The receiving relay moves. -/
theorem Agrees.recvStep (h : s.Agrees) (hp : s.phase = .relaying) {r : RecvHalf} {w : RecvWindow}
    {inbound : List Inbound} {upd : Option ℕ}
    (hs : RecvHalf.Stepped s.entry s.window s.inbound s.recv r w inbound upd) : ({ s with
      recv := r, window := w, inbound := inbound, updates :=
  s.updates ++ upd.toList } : Flow).Agrees := by
  have hg : s.granted = channelWindow := by simp [granted, hp]
  have hbound : s.window.remaining + s.recv.held s.inbound + s.window.drainedSinceUpdate ≤
      u32Max := by
    have := h.receiver_le
    have hmax : channelWindow ≤ u32Max := by decide
    omega
  obtain ⟨hk, hkeq, hr, hreq⟩ := hs.kept hbound
  have hupd : (s.updates ++ upd.toList).sum = s.updates.sum + upd.getD 0 := by
    cases upd <;> simp
  refine ⟨h.wf, ⟨h.staged.early, h.staged.once, h.staged.raised⟩, ?_, ?_, ?_, ?_, ?_, h.small⟩
  · intro n hn
    rw [hp] at hn
    cases hn
  · have := h.sender_le
    simp only [outstanding, openedExtra, hupd] at this ⊢
    omega
  · have := h.receiver_le
    simp only [granted, hp] at this ⊢
    omega
  · intro hl
    have hl₀ : s.live := ⟨hl.1, hl.2.1, hl.2.2.1, hs.running, hl.2.2.2.2⟩
    obtain ⟨h₁, h₂⟩ := h.exact hl₀
    have h₃ := hkeq hl.2.2.2.1
    have h₄ := hreq hl.2.2.2.1
    simp only [outstanding, openedExtra, granted, hp, hupd] at h₁ h₂ ⊢
    constructor <;> omega
  · refine ⟨h.clean.1, ?_⟩
    intro hmem
    exact h.clean.2 (hs.inbound_subset hmem)

/-- An update reaches the sender, or finds its entry gone. -/
theorem Agrees.deliverUpdate (h : s.Agrees) {rest : List ℕ} (hu : s.updates = n :: rest) : ({ s with
      updates := rest,
      credit := if s.senderEntry then s.credit.add n else s.credit } : Flow).Agrees := by
  have hle := h.sender_le
  have hin := h.within
  simp only [outstanding, hu, List.sum_cons] at hle hin
  have hmax : maxSendCredit = channelWindow := rfl
  refine ⟨h.wf, ⟨h.staged.early, h.staged.once, h.staged.raised⟩, h.pending, ?_, h.receiver_le, ?_,
    h.clean, h.small⟩
  · have hcredit : (if s.senderEntry then s.credit.add n else s.credit).credit
        ≤ s.credit.credit + n := by
      split_ifs
      · rw [SendCredit.add_eq (by omega)]
      · omega
    simp only [outstanding, openedExtra] at hle ⊢
    omega
  · intro hl
    obtain ⟨h₁, h₂⟩ := h.exact hl
    refine ⟨?_, h₂⟩
    have hentry : s.senderEntry = true := hl.2.1
    simp only [outstanding, hu, List.sum_cons, openedExtra] at h₁
    simp only [outstanding, openedExtra, hentry, if_true, SendCredit.add_eq
      (show s.credit.credit + n ≤ maxSendCredit by omega)]
    omega

/-- `opened` reaches the sender. -/
theorem Agrees.deliverOpened (h : s.Agrees) (ho : s.openedWire = true) : ({ s with
      openedWire := false, opened := true,
      credit := s.credit.raiseInitial channelWindow } : Flow).Agrees := by
  have hle := h.sender_le
  have hin := h.within
  have hphase : ∀ p, s.phase = p → p = .relaying ∨ p = .gone := by
    intro p hp
    cases p with
    | relaying => exact .inl rfl
    | gone => exact .inr rfl
    | connecting n => simp [h.staged.early (.inr (.inr ⟨n, hp⟩))] at ho
    | connected => simp [h.staged.early (.inr (.inl hp))] at ho
    | granted => simp [h.staged.early (.inl hp)] at ho
  have hnot : s.phase ≠ .granted := by
    intro hp
    rcases hphase _ hp with h | h <;> cases h
  have hextra : s.openedExtra = channelWindow - initialWindow := by simp [openedExtra, ho]
  have heff : effectiveWindow channelWindow - initialWindow = channelWindow - initialWindow := by
    decide
  have hmax : maxSendCredit = channelWindow := rfl
  rw [hextra] at hle hin
  simp only [outstanding] at hle hin
  have hraise : s.credit.raiseInitial channelWindow =
      ⟨s.credit.credit + (channelWindow - initialWindow)⟩ := by
    rw [SendCredit.raiseInitial_eq (by rw [heff]; omega), heff]
  rw [hraise]
  refine ⟨h.wf, ⟨?_, nofun, fun _ _ _ => rfl⟩, h.pending, ?_, h.receiver_le, ?_, h.clean, h.small⟩
  · rintro (hp | hp | ⟨n, hp⟩) <;> rcases hphase _ hp with h | h <;> cases h
  · simp only [outstanding, openedExtra, hnot, Bool.false_eq_true, or_self, if_false]
    omega
  · intro hl
    obtain ⟨h₁, h₂⟩ := h.exact hl
    rw [hextra] at h₁
    refine ⟨?_, h₂⟩
    simp only [outstanding] at h₁
    simp only [outstanding, openedExtra, hnot, Bool.false_eq_true, or_self, if_false]
    omega

/-- `opened` finds the sender's entry gone. -/
theorem Agrees.loseOpened (h : s.Agrees) (ho : s.openedWire = true)
    (hentry : s.senderEntry = false) : ({ s with openedWire := false } : Flow).Agrees := by
  refine ⟨h.wf, ⟨?_, nofun, ?_⟩, h.pending, ?_, h.receiver_le, ?_, h.clean, h.small⟩
  · intro hp
    exact ⟨(h.staged.early hp).1, rfl⟩
  · intro _ he
    rw [hentry] at he
    cases he
  · refine le_trans (Nat.add_le_add_left ?_ _) h.sender_le
    simp only [openedExtra, ho, or_true, if_true, Bool.false_eq_true, or_false]
    split_ifs
    · exact le_rfl
    · exact Nat.zero_le _
  · intro hl
    have := hl.2.1
    rw [hentry] at this
    cases this

/-- The receiver's entry goes. -/
theorem Agrees.dropEntry (h : s.Agrees) (close : Bool) :
    ({ s with entry := false, inbound := if close then s.inbound ++ [.close] else s.inbound } :
      Flow).Agrees := by
  refine ⟨h.wf, ⟨h.staged.early, h.staged.once, h.staged.raised⟩, h.pending, h.sender_le, ?_, nofun,
    ⟨h.clean.1, ?_⟩, h.small⟩
  · have := h.receiver_le
    simp only [RecvHalf.held, granted] at this ⊢
    cases close <;> simp [Inbound.chunks] <;> omega
  · cases close <;> simp [h.clean.2]

/-- The sender's entry goes. -/
theorem Agrees.dropSender (h : s.Agrees) : ({ s with senderEntry := false } : Flow).Agrees :=
  ⟨h.wf, ⟨h.staged.early, h.staged.once, nofun⟩, h.pending, h.sender_le, h.receiver_le, nofun,
    h.clean, h.small⟩

/-- **Every step keeps the agreement.** -/
theorem Agrees.step {a : Act} (h : s.Agrees) (hs : s.step a = some s') : s'.Agrees := by
  cases a with
  | send cancel gone a =>
    obtain ⟨⟨h', c', out⟩, hstep, rfl⟩ := Option.map_eq_some_iff.mp hs
    exact h.sendStep (SendHalf.step_stepped hstep)
  | deliver =>
    simp only [Flow.step] at hs
    split at hs
    · cases hs
    · rename_i f rest hw
      cases hs
      exact h.deliver hw
  | pull =>
    simp only [Flow.step] at hs
    split at hs
    · rename_i n hp
      exact h.pull hp hs
    · cases hs
  | connect ok =>
    simp only [Flow.step] at hs
    split at hs
    · rename_i n hp
      split_ifs at hs with hin hok
      · cases hs
        exact h.connected hp
      · cases hs
        exact h.leave ⟨[], rfl⟩
    · cases hs
  | grant =>
    simp only [Flow.step] at hs
    split_ifs at hs with hp
    cases hs
    exact h.grant hp
  | sendOpened gone =>
    simp only [Flow.step] at hs
    split_ifs at hs with hp hgone
    · cases hs
      exact h.leave ⟨[], rfl⟩
    · cases hs
      exact h.sendOpened hp
  | recv cancel gone a =>
    simp only [Flow.step] at hs
    split_ifs at hs with hp
    obtain ⟨⟨r, w, inbound, upd⟩, hstep, rfl⟩ := Option.map_eq_some_iff.mp hs
    exact h.recvStep hp (RecvHalf.step_stepped hstep)
  | deliverUpdate =>
    simp only [Flow.step] at hs
    split at hs
    · cases hs
    · rename_i n rest hu
      cases hs
      exact h.deliverUpdate hu
  | deliverOpened =>
    simp only [Flow.step] at hs
    split_ifs at hs with ho hentry
    · obtain rfl := Option.some.inj hs
      exact h.deliverOpened ho
    · cases hs
      -- the guard against a second `opened` never fires: there is only one
      apply h.loseOpened ho
      cases he : s.senderEntry with
      | false => rfl
      | true => exact absurd ⟨he, h.staged.once ho⟩ hentry
  | dropEntry close =>
    simp only [Flow.step] at hs
    split_ifs at hs
    · cases hs
      exact h.dropEntry true
    · cases hs
      exact h.dropEntry false
  | dropSender =>
    cases hs
    exact h.dropSender

/-- **Every run keeps the agreement.** -/
theorem agrees_of_exec {prebuf : Bytes} {d : Direction} {as : List Act}
    (h : exec step (init prebuf d) as = some s) : s.Agrees :=
  exec_invariant (fun _ _ _ hI hs => Agrees.step hI hs) (init_agrees prebuf d) h

/-! ## The agreement -/

/-- Nothing the accounting computes is cut. -/
theorem Agrees.exactArith (h : s.Agrees) (a : Act) : s.Exact a := by
  have hin := h.within
  have hmax : maxSendCredit = channelWindow := rfl
  have hu32 : channelWindow ≤ u32Max := by decide
  simp only [outstanding] at hin
  cases a with
  | send cancel gone a =>
    cases a with
    | refund =>
      have hwf := h.wf
      simp only [Exact]
      split
      · rename_i allow got hpc
        rw [SendHalf.Wf, hpc] at hwf
        have htaken : s.send.taken = allow := by simp [SendHalf.taken, hpc]
        have hspent : SendHalf.spent got ≤ allow := by
          unfold SendHalf.spent
          split_ifs
          · exact Nat.zero_le _
          · exact charge_le hwf.2.2 hwf.1
        exact ⟨hspent, by omega⟩
      · rename_i allow hpc
        have htaken : s.send.taken = allow := by simp [SendHalf.taken, hpc]
        omega
      · trivial
    | take | read | send | cancel => trivial
  | deliver =>
    simp only [Exact]
    split
    · rename_i f rest hw
      have hlen : f.length ≤ maxFrame := h.small f (by simp [hw])
      have hfit := h.fits hw
      exact ⟨le_trans hlen (by decide), fun _ => hfit⟩
    · trivial
  | pull =>
    simp only [Exact]
    split
    · rename_i n b rest hp hb
      have hpf := h.pendingFits hp hb
      simp only [BgDesk.pendingFits, decide_eq_true_eq] at hpf
      exact le_trans hpf (by decide)
    · trivial
  | grant =>
    intro hp
    have h₁ := h.receiver_le
    simp only [granted, hp] at h₁
    have hsum : initialWindow + (channelWindow - initialWindow) = channelWindow := by decide
    omega
  | recv cancel gone a =>
    cases a with
    | wrote =>
      simp only [Exact]
      split
      · rename_i chunk hpc
        have h₁ := h.receiver_le
        have h₂ := s.granted_le
        have hcur : chargeAll s.recv.current = charge chunk.length := by
          simp [RecvHalf.current, hpc]
        simp only [RecvHalf.held, hcur] at h₁
        omega
      · trivial
    | fetch | write | fail | cancel => trivial
  | deliverUpdate =>
    simp only [Exact]
    split
    · rename_i n rest hu
      rw [hu, List.sum_cons] at hin
      omega
    · trivial
  | deliverOpened =>
    intro ho
    have hextra : s.openedExtra = channelWindow - initialWindow := by simp [openedExtra, ho]
    have heff : effectiveWindow channelWindow = channelWindow := by decide
    rw [heff]
    omega
  | connect | sendOpened | dropEntry | dropSender => trivial

/-- While neither end has given up, the widening is either announced or on its way. -/
theorem Agrees.announced_eq (h : s.Agrees) (hl : s.live) :
    s.announced + s.openedExtra = s.granted := by
  have hsum : initialWindow + (channelWindow - initialWindow) = channelWindow := by decide
  cases hp : s.phase with
  | connecting n =>
    obtain ⟨h₁, h₂⟩ := h.staged.early (.inr (.inr ⟨n, hp⟩))
    simp [announced, openedExtra, granted, hp, h₁, h₂]
  | connected =>
    obtain ⟨h₁, h₂⟩ := h.staged.early (.inr (.inl hp))
    simp [announced, openedExtra, granted, hp, h₁, h₂]
  | granted =>
    obtain ⟨h₁, h₂⟩ := h.staged.early (.inl hp)
    simp [announced, openedExtra, granted, hp, h₁, hsum]
  | relaying =>
    cases ho : s.openedWire with
    | true =>
      have h₁ := h.staged.once ho
      simp [announced, openedExtra, granted, hp, ho, h₁, hsum]
    | false =>
      have h₁ := h.staged.raised hp hl.2.1 ho
      simp [announced, openedExtra, granted, hp, ho, h₁]
  | gone => exact absurd hp hl.2.2.1

/-- **Flow-control agreement.** In every state any interleaving leads to, in either
direction: no frame has been refused or will be (by `accept` or by `pending_fits`); as
long as neither end has given up the accounts add up to the window the sender knows of,
and with an `opened` still under way to the window the receiver granted, and in any case
to no more than that; and no arithmetic of the accounting is ever cut. -/
theorem agreement {prebuf : Bytes} {d : Direction} {as : List Act} {s : Flow}
    (h : exec step (init prebuf d) as = some s) :
    (s.violation = false ∧ Inbound.violation ∉ s.inbound ∧
      (∀ f rest, s.wire = f :: rest → s.entry = true → (s.window.accept f.length).1 = true) ∧
      (∀ n b rest, s.phase = .connecting n → s.inbound = .data b :: rest →
        pendingFits n b.length = true)) ∧
    ((s.live → s.balance = s.announced ∧ s.balance + s.openedExtra = s.granted) ∧
      s.balance + s.openedExtra ≤ s.granted) ∧
    ∀ a, s.Exact a := by
  have hA := agrees_of_exec h
  refine ⟨⟨hA.clean.1, hA.clean.2, ?_, ?_⟩, ⟨?_, ?_⟩, hA.exactArith⟩
  · intro f rest hw _
    rw [RecvWindow.accept_true (hA.fits hw)]
  · intro n b rest hp hin
    exact hA.pendingFits hp hin
  · intro hl
    obtain ⟨h₁, h₂⟩ := hA.exact hl
    have h₃ := hA.announced_eq hl
    unfold balance
    constructor <;> omega
  · have h₁ := hA.sender_le
    have h₂ := hA.receiver_le
    unfold balance
    omega

/-- A run in which a frame is buffered while the target connects and the credit is
raised with another one in flight. -/
theorem agreement_crossing : ∃ s, exec step (init [1, 2, 3] .toControlled)
        [.send false false .take, .send false false (.read [1, 2, 3]), .send false false .refund,
          .send false false .send, .deliver, .pull, .connect true, .grant,
          .send false false .take, .send false false (.read [4]), .send false false .refund,
          .sendOpened false, .send false false .send, .deliverOpened] = some s ∧
      s.wire = [[4]] ∧ s.recv.pending = [[1, 2, 3]] ∧ s.balance = channelWindow := by
  have hrun : (exec step (init [1, 2, 3] .toControlled)
      [.send false false .take, .send false false (.read [1, 2, 3]), .send false false .refund,
        .send false false .send, .deliver, .pull, .connect true, .grant,
        .send false false .take, .send false false (.read [4]), .send false false .refund,
        .sendOpened false, .send false false .send, .deliverOpened]).any (fun s =>
          decide (s.live ∧ s.opened = true ∧ s.wire = [[4]] ∧ s.recv.pending = [[1, 2, 3]]))
        = true := by
    decide +kernel
  obtain ⟨s, hs, hp⟩ := (Option.any_eq_true _ _).mp hrun
  obtain ⟨hlive, hopened, hwire, hpending⟩ := of_decide_eq_true hp
  obtain ⟨-, ⟨hbalance, -⟩, -⟩ := agreement hs
  refine ⟨s, hs, hwire, hpending, ?_⟩
  rw [(hbalance hlive).1, announced, if_pos hopened]

/-! ## No stall -/

/-- The receiver advertises before `updateThreshold` has gathered. -/
theorem drained_lt (w : RecvWindow) (n : ℕ) :
    (w.drained n).2.drainedSinceUpdate < updateThreshold := by
  rw [RecvWindow.drained]
  split_ifs with hlt
  · exact hlt
  · show 0 < updateThreshold
    decide

/-- Only a finished chunk adds to what has been drained. -/
theorem step_drained {a : Act} (hs : s.step a = some s') :
    s'.window.drainedSinceUpdate = s.window.drainedSinceUpdate ∨
      ∃ n, s'.window = (s.window.drained n).2 := by
  cases a with
  | send cancel gone a =>
    obtain ⟨x, -, rfl⟩ := Option.map_eq_some_iff.mp hs
    exact .inl rfl
  | deliver =>
    simp only [step] at hs
    split at hs
    · cases hs
    · cases hs
      rw [deliver, RecvWindow.accept]
      split_ifs <;> exact .inl rfl
  | pull =>
    simp only [step] at hs
    split at hs
    · unfold pull at hs
      split at hs
      · split_ifs at hs <;> cases hs <;> exact .inl rfl
      · cases hs
        exact .inl rfl
      · cases hs
        exact .inl rfl
      · split_ifs at hs
        cases hs
        exact .inl rfl
    · cases hs
  | connect ok =>
    simp only [step] at hs
    split at hs
    · split_ifs at hs <;> cases hs <;> exact .inl rfl
    · cases hs
  | grant =>
    simp only [step] at hs
    split_ifs at hs
    obtain rfl := Option.some.inj hs
    exact .inl (RecvWindow.grant_drainedSinceUpdate _ _)
  | sendOpened gone | dropEntry close =>
    simp only [step] at hs
    split_ifs at hs <;> cases hs <;> exact .inl rfl
  | recv cancel gone a =>
    simp only [step] at hs
    split_ifs at hs
    obtain ⟨⟨r, w, inbound, upd⟩, hstep, rfl⟩ := Option.map_eq_some_iff.mp hs
    cases RecvHalf.step_stepped hstep with
    | finished hpc hd | updated hpc hd | sinkGone hpc hd => exact .inr ⟨_, rfl⟩
    | popped | received | peerClosed | violation | queueGone | wrote | failed | cancelFetch
    | cancelWrite => exact .inl rfl
  | deliverUpdate =>
    simp only [step] at hs
    split at hs
    · cases hs
    · cases hs
      exact .inl rfl
  | deliverOpened =>
    simp only [step] at hs
    split_ifs at hs
    · obtain rfl := Option.some.inj hs
      exact .inl rfl
    · cases hs
      exact .inl rfl
  | dropSender =>
    cases hs
    exact .inl rfl

/-- What has been drained and not advertised stays below the threshold. -/
theorem unadvertised_lt {prebuf : Bytes} {d : Direction} {as : List Act}
    (h : exec step (init prebuf d) as = some s) :
    s.window.drainedSinceUpdate < updateThreshold := by
  have hinit : (init prebuf d).window.drainedSinceUpdate = 0 := by cases d <;> rfl
  refine exec_invariant (I := fun s => s.window.drainedSinceUpdate < updateThreshold) ?_
    (by rw [hinit]; decide) h
  intro s a s' ih hs
  rcases step_drained hs with heq | ⟨n, heq⟩
  · rw [heq]
    exact ih
  · rw [heq]
    exact drained_lt s.window n

/-- Nothing of this direction is under way or waiting: no allowance, no frame, no chunk, no
update. -/
structure Quiet (s : Flow) : Prop where
  taken : s.send.taken = 0
  frames : s.send.inHand ++ s.wire = []
  chunks : s.recv.current ++ s.recv.pending ++ Inbound.chunks s.inbound = []
  updates : s.updates = []

/-- **A channel never stalls.** In every state any interleaving leads to in which both ends
still hold the channel, `opened` has arrived and nothing of a direction is under way, its sender
has more than half the window to send, and `take` does not park. -/
theorem no_stall {prebuf : Bytes} {d : Direction} {as : List Act} {s : Flow}
    (h : exec step (init prebuf d) as = some s) (hlive : s.live) (hopened : s.opened = true)
    (hquiet : s.Quiet) :
    channelWindow - updateThreshold + 1 ≤ s.credit.credit ∧ minFrameCharge ≤ s.credit.credit ∧
      (s.credit.take maxFrame).isSome = true := by
  have hA := agrees_of_exec h
  have hlt := unadvertised_lt h
  obtain ⟨h₁, h₂⟩ := hA.exact hlive
  have h₃ := hA.announced_eq hlive
  have hheld : s.recv.held s.inbound = 0 := by
    have hnone := hquiet.chunks
    simp only [List.append_eq_nil_iff] at hnone
    simp [RecvHalf.held, hnone]
  have houtstanding : s.outstanding = s.credit.credit := by
    simp [outstanding, hquiet.taken, hquiet.frames, hquiet.updates]
  rw [announced, if_pos hopened] at h₃
  have hcredit : channelWindow - updateThreshold + 1 ≤ s.credit.credit := by
    have : updateThreshold ≤ channelWindow := by decide
    omega
  have hmin : minFrameCharge ≤ s.credit.credit := le_trans (by decide) hcredit
  refine ⟨hcredit, hmin, ?_⟩
  rw [SendCredit.take, if_pos hmin]
  rfl

/-- A frame from the sender's socket, up to the receiver's demultiplexer. -/
def frame (got : Bytes) : List Act :=
  [.send false false .take, .send false false (.read got), .send false false .refund,
    .send false false .send, .deliver]

/-- Both ends as they are once the target is there. -/
def setUp : List Act := [.connect true, .grant, .sendOpened false, .deliverOpened]

theorem no_stall_after_one_byte : ∃ s, exec step (init [] .toControlled) (setUp ++ frame [1] ++
        [Act.recv false false .fetch, .recv false false (.write 1), .recv false false .wrote]) =
          some s ∧
      s.window.drainedSinceUpdate = minFrameCharge ∧ (s.credit.take maxFrame).isSome = true := by
  have hrun : (exec step (init [] .toControlled) (setUp ++ frame [1] ++
      [Act.recv false false .fetch, .recv false false (.write 1), .recv false false .wrote])).any
        (fun s => decide (s.live ∧ s.opened = true ∧ (s.send.taken = 0 ∧
          s.send.inHand ++ s.wire = [] ∧
          s.recv.current ++ s.recv.pending ++ Inbound.chunks s.inbound = [] ∧ s.updates = []) ∧
          s.window.drainedSinceUpdate = minFrameCharge)) = true := by
    decide +kernel
  obtain ⟨s, hs, hp⟩ := (Option.any_eq_true _ _).mp hrun
  obtain ⟨hlive, hopened, ⟨h₁, h₂, h₃, h₄⟩, hdrained⟩ := of_decide_eq_true hp
  exact ⟨s, hs, hdrained, (no_stall hs hlive hopened ⟨h₁, h₂, h₃, h₄⟩).2.2⟩

/-- The receiver has given the channel up, and its sender, with this much credit left, does not
know yet. -/
def GivenUp (n : ℕ) (s : Flow) : Prop :=
  s.send.pc = .taking ∧ s.send.prebuf = [] ∧ s.credit.credit = n ∧ s.wire = [] ∧ s.entry = false ∧
    s.opened = true ∧ s.recv.current ++ s.recv.pending ++ Inbound.chunks s.inbound = [] ∧
    s.updates = []

instance (n : ℕ) (s : Flow) : Decidable (s.GivenUp n) := inferInstanceAs (Decidable (_ ∧ _))

/-- A frame to such a receiver costs its sender for good. -/
theorem GivenUp.lose {got : Bytes} (h : s.GivenUp (got.length + n))
    (hmin : minFrameCharge ≤ got.length) (hmax : min (got.length + n) maxFrame = got.length) :
    ∃ s', exec step s (frame got) = some s' ∧ s'.GivenUp n := by
  obtain ⟨hpc, hpre, hcredit, hwire, hentry, hopened, hchunks, hupdates⟩ := h
  have hle : got.length ≤ maxFrame := by
    rw [← hmax]
    exact min_le_right _ _
  have hne : got ≠ [] := by
    rintro rfl
    cases hmin
  have hcharge : charge got.length = got.length := by
    have : got.length ≤ u32Max := le_trans hle (by decide)
    rw [charge, min_eq_left this, max_eq_left hmin]
  have htake : s.credit.take maxFrame = some (got.length, ⟨n⟩) := by
    rw [SendCredit.take, if_pos (by omega), hcredit, hmax, Nat.add_sub_cancel_left]
  refine ⟨{ s with credit := ⟨n⟩, send := { s.send with source := s.send.source ++ got } }, ?_,
    hpc, hpre, rfl, hwire, hentry, hopened, hchunks, hupdates⟩
  simp [frame, exec, step, SendHalf.step, SendHalf.spent, hpc, hpre, htake, hwire, hentry,
    hcharge, hne, deliver]

/-- The receiver's socket fails on the first byte, and the second finds its relay gone. -/
def givenUp : List Act :=
  setUp ++ frame [1] ++ [Act.recv false false .fetch, .recv false false .fail] ++ frame [2]

/-- A full frame. -/
def fullFrame : Bytes := List.replicate maxFrame 0

theorem GivenUp.loseFull (h : s.GivenUp (maxFrame + n)) :
    ∃ s', exec step s (frame fullFrame) = some s' ∧ s'.GivenUp n := by
  have hlen : fullFrame.length = maxFrame := List.length_replicate
  apply GivenUp.lose
  · rwa [hlen]
  · rw [hlen]
    decide
  · rw [hlen]
    exact min_eq_right (Nat.le_add_right _ _)

/-- Once the receiver has given up, the sender can use up its credit with nothing coming back:
it waits for the `close`, not for an update. -/
theorem stalled_when_given_up :
    ∃ s, exec step (init [] .toControlled) (givenUp ++ frame fullFrame ++ frame fullFrame ++
        frame fullFrame ++ frame (List.replicate 65408 0)) = some s ∧
      s.opened = true ∧ s.Quiet ∧ s.credit.take maxFrame = none := by
  have hrun : (exec step (init [] .toControlled) givenUp).any
      (fun s => decide (s.GivenUp 262016)) = true := by
    decide +kernel
  obtain ⟨s, hs, hp⟩ := (Option.any_eq_true _ _).mp hrun
  obtain ⟨s₁, hs₁, h₁⟩ := GivenUp.loseFull (n := 196480) (of_decide_eq_true hp)
  obtain ⟨s₂, hs₂, h₂⟩ := GivenUp.loseFull (n := 130944) h₁
  obtain ⟨s₃, hs₃, h₃⟩ := GivenUp.loseFull (n := 65408) h₂
  have hlast : (List.replicate 65408 (0 : UInt8)).length = 65408 := List.length_replicate
  obtain ⟨s₄, hs₄, hpc, -, hcredit, hwire, -, hopened, hchunks, hupdates⟩ :=
    GivenUp.lose (s := s₃) (n := 0) (by rwa [hlast]) (by rw [hlast]; decide) (by rw [hlast]; decide)
  refine ⟨s₄, ?_, hopened, ⟨?_, ?_, hchunks, hupdates⟩, ?_⟩
  · exact exec_append.mpr ⟨s₃, exec_append.mpr ⟨s₂, exec_append.mpr ⟨s₁, exec_append.mpr
      ⟨s, hs, hs₁⟩, hs₂⟩, hs₃⟩, hs₄⟩
  · simp [SendHalf.taken, hpc]
  · simp [SendHalf.inHand, hpc, hwire]
  · rw [SendCredit.take, hcredit]
    rfl

end Flow
end BgDesk
