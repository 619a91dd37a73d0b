import BgDesk.MuxWindow

/-!
# The two relays of a channel

`src/port_forward_mux.rs`, `relay_socket_to_tunnel` and `relay_tunnel_to_socket`.
Each is a loop of its own task, so each is a machine here: a program counter
that names the point the loop stands at, and one step per access to something
another task can see — the credit, the window, the queues, the socket, the
cancellation. What the socket does (how much a read returns, how much a write
takes) is the action's to say.

Both machines carry the bytes they have moved, `source` and `written`, which the
source does not keep: they are what byte-stream claims are about.
-/

namespace BgDesk

/-- A `PortForwardChannel` frame. -/
inductive Frame where
  | openChannel (id : ℤ) (host : String) (port : ℤ) (window : ℕ)
  | opened (id : ℤ) (success : Bool) (message : String) (window : ℕ)
  | data (id : ℤ) (data : Bytes)
  | close (id : ℤ)
  | windowUpdate (id : ℤ) (add : ℕ)
  deriving DecidableEq

/-- What the demultiplexer hands to a channel's task. -/
inductive Inbound where
  | data (b : Bytes)
  | close
  | violation
  deriving DecidableEq

/-- Why a relay ended. -/
inductive RelayEnd where
  | localEof
  | peerClosed
  | violation
  | cancelled
  | tunnelGone
  deriving DecidableEq

/-! ## Local socket to tunnel -/

/-- Where `relay_socket_to_tunnel` stands. -/
inductive SendPc where
  /-- in `credit.take` -/
  | taking
  /-- in `reader.read`, with this much credit taken -/
  | reading (allow : ℕ)
  /-- the read returned; what it did not cost is still to be given back. Empty is
  end of file, or an error -/
  | refunding (allow : ℕ) (got : Bytes)
  /-- cancelled in the read; the credit is still to be given back -/
  | dropping (allow : ℕ)
  /-- in `sink.send_ordered` -/
  | sending (got : Bytes)
  | done (e : RelayEnd)
  deriving DecidableEq

/-- `relay_socket_to_tunnel`. -/
structure SendHalf where
  pc : SendPc
  /-- what is left of the `prebuf` cursor at the head of the reader -/
  prebuf : Bytes
  /-- bytes read from the socket itself -/
  source : Bytes
  deriving DecidableEq

/-- A step of `relay_socket_to_tunnel`. -/
inductive SendAct where
  | take
  | read (got : Bytes)
  | refund
  | send
  | cancel
  deriving DecidableEq

namespace SendHalf

/-- A relay about to start, with `prebuf` as the head of its byte stream. -/
def new (prebuf : Bytes) : SendHalf := ⟨.taking, prebuf, []⟩

/-- What the loop has charged itself for a read of `got`. -/
def spent (got : Bytes) : ℕ := if got.isEmpty then 0 else charge got.length

/-- One step: the relay, the credit, and the payload handed to the sink. `cancel` is
the channel's cancellation, `gone` says the sink's receiver has been dropped. -/
def step (cancel gone : Bool) (c : SendCredit) (h : SendHalf) :
    SendAct → Option (SendHalf × SendCredit × Option Bytes)
  | .take =>
    match h.pc with
    | .taking => (c.take maxFrame).map fun (n, c') => ({ h with pc := .reading n }, c', none)
    | _ => none
  | .read got =>
    match h.pc with
    | .reading allow =>
      if h.prebuf.isEmpty then
        if got.length ≤ allow then
          some ({ h with pc := .refunding allow got, source := h.source ++ got }, c, none)
        else none
      -- the cursor comes first and fills the buffer as far as it goes
      else if got = h.prebuf.take allow then
        some ({ h with pc := .refunding allow got, prebuf := h.prebuf.drop allow }, c, none)
      else none
    | _ => none
  | .refund =>
    match h.pc with
    | .refunding allow got =>
      let c' := if spent got < allow then c.add (allow - spent got) else c
      some ({ h with pc := if got.isEmpty then .done .localEof else .sending got }, c', none)
    | .dropping allow => some ({ h with pc := .done .cancelled }, c.add allow, none)
    | _ => none
  | .send =>
    match h.pc with
    | .sending got =>
      if gone then some ({ h with pc := .done .tunnelGone }, c, none)
      else some ({ h with pc := .taking }, c, some got)
    | _ => none
  | .cancel =>
    if cancel then
      match h.pc with
      | .taking => some ({ h with pc := .done .cancelled }, c, none)
      | .reading allow => some ({ h with pc := .dropping allow }, c, none)
      | _ => none
    else none

/-- Credit the relay holds on to. -/
def taken (h : SendHalf) : ℕ :=
  match h.pc with
  | .reading allow | .refunding allow _ | .dropping allow => allow
  | _ => 0

/-- The frame the relay is about to hand to the sink, already paid for. -/
def inHand (h : SendHalf) : List Bytes :=
  match h.pc with
  | .sending got => [got]
  | _ => []

/-- Bytes read and not yet handed to the sink. -/
def unsent (h : SendHalf) : Bytes :=
  match h.pc with
  | .refunding _ got | .sending got => got
  | _ => []

/-- Whether the loop has returned. -/
def ended (h : SendHalf) : Option RelayEnd :=
  match h.pc with
  | .done e => some e
  | _ => none

/-- What a step can do, one constructor for each way through the loop. -/
inductive Stepped (c : SendCredit) (h : SendHalf) :
    SendHalf → SendCredit → Option Bytes → Prop where
  | took {n : ℕ} {c' : SendCredit} (hpc : h.pc = .taking) (hc : c.take maxFrame = some (n, c')) :
    Stepped c h { h with pc := .reading n } c' none
  | readSocket {allow : ℕ} {got : Bytes} (hpc : h.pc = .reading allow) (hpre : h.prebuf = [])
    (hlen : got.length ≤ allow) :
    Stepped c h { h with pc := .refunding allow got, source := h.source ++ got } c none
  | readPrebuf {allow : ℕ} (hpc : h.pc = .reading allow) (hpre : h.prebuf ≠ []) :
    Stepped c h
      { h with pc := .refunding allow (h.prebuf.take allow), prebuf := h.prebuf.drop allow } c none
  | eof {allow : ℕ} (hpc : h.pc = .refunding allow []) :
    Stepped c h { h with pc := .done .localEof } (if 0 < allow then c.add allow else c) none
  | refunded {allow : ℕ} {got : Bytes} (hpc : h.pc = .refunding allow got) (hgot : got ≠ []) :
    Stepped c h { h with pc := .sending got }
      (if charge got.length < allow then c.add (allow - charge got.length) else c) none
  | dropped {allow : ℕ} (hpc : h.pc = .dropping allow) :
    Stepped c h { h with pc := .done .cancelled } (c.add allow) none
  | sinkGone {got : Bytes} (hpc : h.pc = .sending got) :
    Stepped c h { h with pc := .done .tunnelGone } c none
  | sent {got : Bytes} (hpc : h.pc = .sending got) :
    Stepped c h { h with pc := .taking } c (some got)
  | cancelTake (hpc : h.pc = .taking) : Stepped c h { h with pc := .done .cancelled } c none
  | cancelRead {allow : ℕ} (hpc : h.pc = .reading allow) :
    Stepped c h { h with pc := .dropping allow } c none

variable {c c' : SendCredit} {h h' : SendHalf} {out : Option Bytes}

/-- Inversion of a step. -/
theorem step_stepped {cancel gone : Bool} {a : SendAct}
    (hs : h.step cancel gone c a = some (h', c', out)) : Stepped c h h' c' out := by
  cases a with
  | take =>
    rw [step] at hs
    split at hs
    · rename_i hpc
      obtain ⟨⟨n, c₁⟩, htake, heq⟩ := Option.map_eq_some_iff.mp hs
      obtain ⟨rfl, rfl, rfl⟩ : _ ∧ c₁ = c' ∧ none = out := by simpa using heq
      exact .took hpc htake
    · cases hs
  | read got =>
    rw [step] at hs
    split at hs
    · rename_i allow hpc
      split_ifs at hs with hpre hlen hgot
      · cases hs
        exact .readSocket hpc (List.isEmpty_iff.mp hpre) hlen
      · cases hs
        subst hgot
        exact .readPrebuf hpc (fun h₀ => hpre (List.isEmpty_iff.mpr h₀))
    · cases hs
  | refund =>
    rw [step] at hs
    split at hs
    · rename_i allow got hpc
      cases got with
      | nil =>
        cases hs
        exact .eof hpc
      | cons b got =>
        cases hs
        exact .refunded hpc (List.cons_ne_nil _ _)
    · rename_i allow hpc
      cases hs
      exact .dropped hpc
    · cases hs
  | send =>
    rw [step] at hs
    split at hs
    · rename_i got hpc
      split_ifs at hs
      · cases hs
        exact .sinkGone hpc
      · cases hs
        exact .sent hpc
    · cases hs
  | cancel =>
    rw [step] at hs
    split_ifs at hs
    split at hs
    · rename_i hpc
      cases hs
      exact .cancelTake hpc
    · rename_i allow hpc
      cases hs
      exact .cancelRead hpc
    · cases hs

/-- What the loop never breaks: an allowance covers a minimum charge and fits a frame,
and a read stays within it. -/
def Wf (h : SendHalf) : Prop :=
  match h.pc with
  | .reading allow | .dropping allow => minFrameCharge ≤ allow ∧ allow ≤ maxFrame
  | .refunding allow got => minFrameCharge ≤ allow ∧ allow ≤ maxFrame ∧ got.length ≤ allow
  | .sending got => got ≠ [] ∧ got.length ≤ maxFrame
  | _ => True

theorem wf_new (prebuf : Bytes) : (new prebuf).Wf := trivial

/-- Every step keeps the allowance honest. -/
theorem Stepped.wf (hs : Stepped c h h' c' out) (hw : h.Wf) : h'.Wf := by
  cases hs with
  | took hpc hc =>
    obtain ⟨hmin, hmax, -⟩ := SendCredit.take_spec hc
    exact ⟨hmin, hmax⟩
  | readSocket hpc hpre hlen =>
    rw [Wf, hpc] at hw
    exact ⟨hw.1, hw.2, hlen⟩
  | readPrebuf hpc hpre =>
    rw [Wf, hpc] at hw
    refine ⟨hw.1, hw.2, ?_⟩
    rw [List.length_take]
    exact min_le_left _ _
  | refunded hpc hgot =>
    rw [Wf, hpc] at hw
    exact ⟨hgot, le_trans hw.2.2 hw.2.1⟩
  | cancelRead hpc =>
    rw [Wf, hpc] at hw
    exact hw
  | eof | dropped | sinkGone | sent | cancelTake => trivial

/-- A relay that has returned takes no step. -/
theorem Stepped.running (hs : Stepped c h h' c' out) (e : RelayEnd) : h.ended ≠ some e := by
  have hpc : ∀ e, h.pc ≠ .done e := by
    cases hs <;> simp_all
  intro hend
  unfold ended at hend
  split at hend
  · rename_i e' he
    exact hpc e' he
  · cases hend

/-- No frame is larger than `maxFrame`. -/
theorem Stepped.small (hs : Stepped c h h' c' out) (hw : h.Wf) (f : Bytes)
    (hf : f ∈ h'.inHand ∨ f ∈ out.toList) : f.length ≤ maxFrame := by
  cases hs with
  | refunded hpc hgot =>
    rw [Wf, hpc] at hw
    simp [inHand] at hf
    subst hf
    exact le_trans hw.2.2 hw.2.1
  | sent hpc =>
    rw [Wf, hpc] at hw
    simp [inHand] at hf
    subst hf
    exact hw.2
  | took | readSocket | readPrebuf | eof | dropped | sinkGone | cancelTake | cancelRead =>
    simp [inHand] at hf

/-- A refund is exact: what the read cost and what comes back make up the allowance. -/
theorem credit_refund {allow cost : ℕ} (hcost : cost ≤ allow)
    (hle : c.credit + allow ≤ maxSendCredit) :
    (if cost < allow then c.add (allow - cost) else c).credit = c.credit + (allow - cost) := by
  split_ifs with hlt
  · rw [SendCredit.add_eq (by omega)]
  · omega

/-- **A step of the sending relay moves credit, it makes none**: credit, allowance and
paid-for frames add up to the same, unless the sink refuses a frame. -/
theorem Stepped.paid (hs : Stepped c h h' c' out) (hw : h.Wf)
    (hle : c.credit + h.taken ≤ maxSendCredit) :
    c'.credit + h'.taken + chargeAll h'.inHand + chargeAll out.toList
      + (if h'.ended = some .tunnelGone then chargeAll h.inHand else 0) =
    c.credit + h.taken + chargeAll h.inHand := by
  cases hs with
  | took hpc hc =>
    obtain ⟨-, -, hn⟩ := SendCredit.take_spec hc
    simp [taken, inHand, ended, hpc, hn]
  | readSocket hpc hpre hlen => simp [taken, inHand, ended, hpc]
  | readPrebuf hpc hpre => simp [taken, inHand, ended, hpc]
  | eof hpc =>
    rw [taken, hpc] at hle
    have := credit_refund (Nat.zero_le _) hle
    simp [taken, inHand, ended, hpc] at this ⊢
    exact this
  | @refunded allow got hpc hgot =>
    rw [taken, hpc] at hle
    rw [Wf, hpc] at hw
    have hcost : charge got.length ≤ allow := charge_le hw.2.2 hw.1
    have hrefund := credit_refund hcost hle
    simp [taken, inHand, ended, hpc, hrefund]
    omega
  | dropped hpc =>
    rw [taken, hpc] at hle
    simp [taken, inHand, ended, hpc, SendCredit.add_eq hle]
  | sinkGone hpc => simp [taken, inHand, ended, hpc]
  | sent hpc => simp [taken, inHand, ended, hpc]
  | cancelTake hpc => simp [taken, inHand, ended, hpc]
  | cancelRead hpc => simp [taken, inHand, ended, hpc]

end SendHalf

/-! ## Tunnel to local socket -/

/-- Where `relay_tunnel_to_socket` stands. -/
inductive RecvPc where
  /-- about to take the next chunk -/
  | fetching
  /-- in `writer.write_all` of a chunk, with this much of it left -/
  | writing (chunk rest : Bytes)
  | done (e : RelayEnd)
  deriving DecidableEq

/-- `relay_tunnel_to_socket`. On the controlled side `pending` starts with what
arrived while the target was still connecting. -/
structure RecvHalf where
  pc : RecvPc
  pending : List Bytes
  /-- bytes the socket has taken -/
  written : Bytes
  deriving DecidableEq

/-- A step of `relay_tunnel_to_socket`. -/
inductive RecvAct where
  | fetch
  /-- the socket takes this many more bytes of the chunk -/
  | write (n : ℕ)
  /-- the write fails -/
  | fail
  /-- the whole chunk has been taken -/
  | wrote
  | cancel
  deriving DecidableEq

/-- The chunks in a channel's queue. -/
def Inbound.chunks : List Inbound → List Bytes
  | [] => []
  | .data b :: rest => b :: Inbound.chunks rest
  | .close :: rest | .violation :: rest => Inbound.chunks rest

@[simp] theorem Inbound.chunks_append (xs ys : List Inbound) :
    Inbound.chunks (xs ++ ys) = Inbound.chunks xs ++ Inbound.chunks ys := by
  induction xs with
  | nil => rfl
  | cons x xs ih => cases x <;> simp [Inbound.chunks, ih]

namespace RecvHalf

/-- A relay about to start on these chunks. -/
def new (initial : List Bytes) : RecvHalf := ⟨.fetching, initial, []⟩

/-- One step: the relay, the window, the queue, and the amount of a `window_update`
it sends. `entry` says the demultiplexer still holds the queue's sender. A finished
`write_all` and the update it leads to are one step: nothing is shared between
`drained` and the send. -/
def step (cancel gone entry : Bool) (w : RecvWindow) (inbound : List Inbound) (h : RecvHalf) :
    RecvAct → Option (RecvHalf × RecvWindow × List Inbound × Option ℕ)
  | .fetch =>
    match h.pc, h.pending, inbound with
    | .fetching, chunk :: rest, _ =>
      some ({ h with pc := .writing chunk chunk, pending := rest }, w, inbound, none)
    | .fetching, [], .data chunk :: rest =>
      some ({ h with pc := .writing chunk chunk }, w, rest, none)
    | .fetching, [], .close :: rest => some ({ h with pc := .done .peerClosed }, w, rest, none)
    | .fetching, [], .violation :: rest => some ({ h with pc := .done .violation }, w, rest, none)
    | .fetching, [], [] =>
      if entry then none else some ({ h with pc := .done .tunnelGone }, w, [], none)
    | _, _, _ => none
  | .write n =>
    match h.pc with
    | .writing chunk rest =>
      if 0 < n ∧ n ≤ rest.length then
        some ({ h with pc := .writing chunk (rest.drop n), written := h.written ++ rest.take n },
          w, inbound, none)
      else none
    | _ => none
  | .fail =>
    match h.pc with
    | .writing _ _ => some ({ h with pc := .done .localEof }, w, inbound, none)
    | _ => none
  | .wrote =>
    match h.pc with
    | .writing chunk [] =>
      match w.drained chunk.length with
      | (none, w') => some ({ h with pc := .fetching }, w', inbound, none)
      | (some add, w') =>
        if gone then some ({ h with pc := .done .tunnelGone }, w', inbound, none)
        else some ({ h with pc := .fetching }, w', inbound, some add)
    | _ => none
  | .cancel =>
    if cancel then
      match h.pc, h.pending with
      -- the select on the queue is only reached with nothing pending
      | .fetching, [] => some ({ h with pc := .done .cancelled }, w, inbound, none)
      | .writing _ _, _ => some ({ h with pc := .done .cancelled }, w, inbound, none)
      | _, _ => none
    else none

/-- The chunk being written. -/
def current (h : RecvHalf) : List Bytes :=
  match h.pc with
  | .writing chunk _ => [chunk]
  | _ => []

/-- What of that chunk the socket has yet to take. -/
def unwritten (h : RecvHalf) : Bytes :=
  match h.pc with
  | .writing _ rest => rest
  | _ => []

/-- Whether the loop has returned. -/
def ended (h : RecvHalf) : Option RelayEnd :=
  match h.pc with
  | .done e => some e
  | _ => none

/-- What a step can do, one constructor for each way through the loop. -/
inductive Stepped (entry : Bool) (w : RecvWindow) (inbound : List Inbound) (h : RecvHalf) :
    RecvHalf → RecvWindow → List Inbound → Option ℕ → Prop where
  | popped {chunk : Bytes} {rest : List Bytes} (hpc : h.pc = .fetching)
    (hp : h.pending = chunk :: rest) :
    Stepped entry w inbound h { h with pc := .writing chunk chunk, pending := rest } w inbound none
  | received {chunk : Bytes} {rest : List Inbound} (hpc : h.pc = .fetching) (hp : h.pending = [])
    (hin : inbound = .data chunk :: rest) :
    Stepped entry w inbound h { h with pc := .writing chunk chunk } w rest none
  | peerClosed {rest : List Inbound} (hpc : h.pc = .fetching) (hp : h.pending = [])
    (hin : inbound = .close :: rest) :
    Stepped entry w inbound h { h with pc := .done .peerClosed } w rest none
  | violation {rest : List Inbound} (hpc : h.pc = .fetching) (hp : h.pending = [])
    (hin : inbound = .violation :: rest) :
    Stepped entry w inbound h { h with pc := .done .violation } w rest none
  | queueGone (hpc : h.pc = .fetching) (hp : h.pending = []) (hin : inbound = [])
    (he : entry = false) :
    Stepped entry w inbound h { h with pc := .done .tunnelGone } w [] none
  | wrote {chunk rest : Bytes} {n : ℕ} (hpc : h.pc = .writing chunk rest) (hn : 0 < n)
    (hle : n ≤ rest.length) :
    Stepped entry w inbound h
      { h with pc := .writing chunk (rest.drop n), written := h.written ++ rest.take n }
      w inbound none
  | failed {chunk rest : Bytes} (hpc : h.pc = .writing chunk rest) :
    Stepped entry w inbound h { h with pc := .done .localEof } w inbound none
  | finished {chunk : Bytes} (hpc : h.pc = .writing chunk [])
    (hd : (w.drained chunk.length).1 = none) :
    Stepped entry w inbound h { h with pc := .fetching } (w.drained chunk.length).2 inbound none
  | updated {chunk : Bytes} {add : ℕ} (hpc : h.pc = .writing chunk [])
    (hd : (w.drained chunk.length).1 = some add) :
    Stepped entry w inbound h { h with pc := .fetching } (w.drained chunk.length).2 inbound
      (some add)
  | sinkGone {chunk : Bytes} {add : ℕ} (hpc : h.pc = .writing chunk [])
    (hd : (w.drained chunk.length).1 = some add) :
    Stepped entry w inbound h { h with pc := .done .tunnelGone } (w.drained chunk.length).2
      inbound none
  | cancelFetch (hpc : h.pc = .fetching) (hp : h.pending = []) :
    Stepped entry w inbound h { h with pc := .done .cancelled } w inbound none
  | cancelWrite {chunk rest : Bytes} (hpc : h.pc = .writing chunk rest) :
    Stepped entry w inbound h { h with pc := .done .cancelled } w inbound none

variable {entry : Bool} {w w' : RecvWindow} {inbound inbound' : List Inbound} {h h' : RecvHalf}
  {upd : Option ℕ}

/-- Inversion of a step. -/
theorem step_stepped {cancel gone : Bool} {a : RecvAct}
    (hs : h.step cancel gone entry w inbound a = some (h', w', inbound', upd)) :
    Stepped entry w inbound h h' w' inbound' upd := by
  cases a with
  | fetch =>
    unfold step at hs
    dsimp only at hs
    split at hs
    · rename_i hpc hp
      cases hs
      exact .popped hpc hp
    · rename_i hpc hp
      cases hs
      exact .received hpc hp rfl
    · rename_i hpc hp
      cases hs
      exact .peerClosed hpc hp rfl
    · rename_i hpc hp
      cases hs
      exact .violation hpc hp rfl
    · rename_i hpc hp
      split_ifs at hs with he
      cases hs
      exact .queueGone hpc hp rfl (by simpa using he)
    · cases hs
  | write n =>
    rw [step] at hs
    split at hs
    · rename_i chunk rest hpc
      split_ifs at hs with hn
      cases hs
      exact .wrote hpc hn.1 hn.2
    · cases hs
  | fail =>
    rw [step] at hs
    split at hs
    · rename_i chunk rest hpc
      cases hs
      exact .failed hpc
    · cases hs
  | wrote =>
    rw [step] at hs
    split at hs
    · rename_i chunk hpc
      split at hs
      · rename_i w₁ hd
        cases hs
        obtain ⟨h₁, rfl⟩ := Prod.ext_iff.mp hd
        exact .finished hpc h₁
      · rename_i add w₁ hd
        obtain ⟨h₁, rfl⟩ := Prod.ext_iff.mp hd
        split_ifs at hs
        · cases hs
          exact .sinkGone hpc h₁
        · cases hs
          exact .updated hpc h₁
    · cases hs
  | cancel =>
    rw [step] at hs
    split_ifs at hs
    split at hs
    · rename_i hpc hp
      cases hs
      exact .cancelFetch hpc hp
    · rename_i chunk rest hpc
      cases hs
      exact .cancelWrite hpc
    · cases hs

/-- A relay that has returned takes no step. -/
theorem Stepped.running (hs : Stepped entry w inbound h h' w' inbound' upd) : h.ended = none := by
  cases hs <;> simp_all [ended]

/-- The relay only takes from its queue. -/
theorem Stepped.inbound_subset (hs : Stepped entry w inbound h h' w' inbound' upd) :
    inbound' ⊆ inbound := by
  cases hs with
  | received hpc hp hin | peerClosed hpc hp hin | violation hpc hp hin =>
    rw [hin]
    exact List.subset_cons_self _ _
  | queueGone hpc hp hin he => exact List.nil_subset _
  | popped | wrote | failed | finished | updated | sinkGone | cancelFetch | cancelWrite =>
    exact List.Subset.refl _

/-- The window the chunks this side holds have used up: queued, pending, or being
written. -/
def held (h : RecvHalf) (inbound : List Inbound) : ℕ :=
  chargeAll (Inbound.chunks inbound) + chargeAll h.pending + chargeAll h.current

/-- **A step of the receiving relay moves window, it makes none**: what is left of it,
what the chunks hold and what waits to be advertised add up to the same, unless the
relay ends on a chunk. -/
theorem Stepped.kept {entry : Bool} {w w' : RecvWindow} {inbound inbound' : List Inbound}
    {h h' : RecvHalf} {upd : Option ℕ} (hs : Stepped entry w inbound h h' w' inbound' upd)
    (hle : w.remaining + h.held inbound + w.drainedSinceUpdate ≤ u32Max) :
    w'.remaining + h'.held inbound' + w'.drainedSinceUpdate
      ≤ w.remaining + h.held inbound + w.drainedSinceUpdate ∧
    (h'.ended = none → w'.remaining + h'.held inbound' + w'.drainedSinceUpdate =
      w.remaining + h.held inbound + w.drainedSinceUpdate) ∧
    w.remaining + upd.getD 0 ≤ w'.remaining ∧
    (h'.ended = none → w.remaining + upd.getD 0 = w'.remaining) := by
  -- a finished chunk leaves the held ones and enters what waits to be advertised
  have drain : ∀ {chunk : Bytes}, h.pc = .writing chunk [] →
      (w.drained chunk.length).2.remaining + (w.drained chunk.length).2.drainedSinceUpdate =
        w.remaining + w.drainedSinceUpdate + charge chunk.length ∧
      (w.drained chunk.length).2.remaining =
        w.remaining + (w.drained chunk.length).1.getD 0 := by
    intro chunk hpc
    have hcur : chargeAll h.current = charge chunk.length := by simp [current, hpc]
    rw [held, hcur] at hle
    rcases RecvWindow.drained_cases (w := w) (n := chunk.length) (by omega) (by omega) with hd | hd
    · rw [hd]
      exact ⟨by dsimp only; omega, rfl⟩
    · rw [hd]
      exact ⟨by dsimp only; omega, rfl⟩
  cases hs with
  | popped hpc hp => simp [held, current, hpc, hp, ended]; omega
  | received hpc hp hin => simp [held, current, hpc, hp, hin, ended, Inbound.chunks]; omega
  | peerClosed hpc hp hin => simp [held, current, hpc, hp, hin, ended, Inbound.chunks]
  | violation hpc hp hin => simp [held, current, hpc, hp, hin, ended, Inbound.chunks]
  | queueGone hpc hp hin he => simp [held, current, hpc, hp, hin, ended, Inbound.chunks]
  | wrote hpc hn hlen => simp [held, current, hpc, ended]
  | failed hpc => simp [held, current, hpc, ended]
  | finished hpc hd | updated hpc hd | sinkGone hpc hd =>
    obtain ⟨h₁, h₂⟩ := drain hpc
    rw [hd] at h₂
    simp [held, current, hpc, ended] at h₁ h₂ ⊢
    omega
  | cancelFetch hpc hp => simp [held, current, hpc, ended]
  | cancelWrite hpc => simp [held, current, hpc, ended]

end RecvHalf

/-- `pending_fits` of the controlled side: before `opened` the controller may only
have used `initialWindow`. -/
def pendingFits (charged addLen : ℕ) : Bool := charged + charge addLen ≤ initialWindow

end BgDesk
