import BgDesk.MuxControlled
import BgDesk.MuxFlow
import BgDesk.MuxStream

/-!
# The two ends of one channel

A tunnel seen from one channel: the task at each end, what is under way between them, and
what each end has said so far. `End.Moved` is what any step of the tunnel can do to a channel,
side by side for both ends; `Link.Sound` puts together what one channel keeps at all times:

* each end keeps to its script, and what it has said is what the other end has handled and
  what is still under way, in order;
* the windows of both directions agree, so that nobody ever overruns (`Flow.Agrees`);
* each relay carries its socket's bytes, and writes those it was handed;
* no relay ends but for a reason.

`Link.Sound.step` is the one step lemma; the whole tunnel is in `BgDesk.MuxTunnel`.
-/

namespace BgDesk

/-- One end of a channel, with what it has under way to the other end. -/
structure End where
  chan : Chan
  /-- the receiver of the end's queue has been dropped -/
  gone : Bool
  /-- the tunnel has closed at this end -/
  teardown : Bool
  /-- the ordered frames the task has handed to its sink -/
  sent : List Frame
  /-- of these, what the other end has handled -/
  handled : List Frame
  /-- and what is still under way -/
  wire : List Frame
  /-- the updates under way -/
  updates : List ℕ
  /-- the task has taken a `Close` off its queue -/
  took : Bool

/-- The amounts of the updates among some frames. -/
def adds (fs : List Frame) : List ℕ := fs.filterMap Frame.add?

/-- The receiver's phase, as far as its window is concerned. -/
def Phase.toRecv : Phase → RecvPhase
  | .opening _ _ | .relaying => .relaying
  | .connecting n => .connecting n
  | .connected | .refusing => .connected
  | .granted => .granted
  | .closing | .reaping | .ended => .gone

/-- A receiver that is gone is one whose task has left its relays, or never had any. -/
theorem Phase.toRecv_gone {p : Phase} (hp : p ≠ .closing) :
    decide (p.toRecv = .gone) = (decide (p = .ended) || decide (p = .reaping)) := by
  cases p with
  | closing => exact absurd rfl hp
  | opening | connecting | connected | granted | refusing | relaying | reaping | ended => rfl

namespace End

/-- The task takes a step and hands a frame to its sink. -/
def emit (e : End) (c : Chan) (out : Option Frame) : End :=
  { e with
    chan := c
    sent := e.sent ++ out.toList.filter Frame.ordered
    wire := e.wire ++ out.toList.filter Frame.ordered
    updates := e.updates ++ adds out.toList
    took := e.took || e.chan.tookClose c }

/-- One direction of a channel, from an end `e` of `side` to the other end `o`. -/
def flow (side : Side) (e o : End) : Flow :=
  { credit := e.chan.credit, send := e.chan.send
    opened := decide (side = .controlled) || e.chan.opened
    senderEntry := e.chan.entry
    wire := payloads e.wire
    updates := o.updates
    openedWire := o.wire.any Frame.isOpened
    window := o.chan.window, entry := o.chan.entry, inbound := o.chan.inbound, recv := o.chan.recv
    phase := o.chan.phase.toRecv
    violation := false }

/-- What a step of the tunnel can do to an end `e`, and to what the other end has under way. -/
inductive Moved (side : Side) (e o : End) : End → End → Prop where
  /-- the task takes a step -/
  | task {c : Chan} {out : Option Frame}
    (hs : Chan.Stepped side e.gone e.teardown e.chan c out) : Moved side e o (e.emit c out) o
  /-- the next ordered frame of the other end is handled -/
  | hear {f : Frame} {rest : List Frame} (hw : o.wire = f :: rest) :
    Moved side e o { e with chan := if e.chan.entry then e.chan.hear f else e.chan }
      { o with wire := rest, handled := o.handled ++ [f] }
  /-- the next update of the other end is handled -/
  | update {n : ℕ} {rest : List ℕ} (hu : o.updates = n :: rest) :
    Moved side e o { e with chan := if e.chan.entry then e.chan.windowUpdate n else e.chan }
      { o with updates := rest }
  /-- the entry goes: with a task that no longer reads its queue, or with the tunnel -/
  | drop {g t : Bool} (hg : e.gone = true → g = true) (ht : e.teardown = true → t = true)
    (hwhy : e.chan.inboundClosed = true ∨ t = true) :
    Moved side e o { e with chan := e.chan.drop, gone := g, teardown := t } o
  /-- the tunnel closes at an end that has no entry for the channel -/
  | flag {g t : Bool} (hg : e.gone = true → g = true) (ht : e.teardown = true → t = true) :
    Moved side e o { e with gone := g, teardown := t } o

/-- What holds of one end of a channel, and of the direction that leads away from it. -/
structure Sound (side : Side) (prebuf : Bytes) (e o : End) : Prop where
  script : e.chan.Scripted side e.sent
  fifo : e.sent = e.handled ++ e.wire
  flow : (flow side e o).Agrees
  carries : e.chan.send.Carries prebuf (payloads e.sent)
  receives : e.chan.Receives o.handled
  blames : e.chan.Blames e.gone e.teardown e.took
  /-- the other end's last word takes the entry -/
  heard : (∃ f ∈ o.handled, f.isLast = true) → e.chan.entry = false

/-! ## What a task's step does to the flows -/

variable {side other : Side} {prebuf : Bytes} {e o : End}

variable {c : Chan} {out : Option Frame} {f : Frame} {rest : List Frame}

/-- A step that sends no data leaves the direction away from the end as it is. -/
theorem flow_quiet (h : (flow side e o).Agrees) (hsend : c.send = e.chan.send)
    (hcredit : c.credit = e.chan.credit) (hopened : c.opened = e.chan.opened)
    (hentry : c.entry = e.chan.entry) (hpay : payloads (out.toList.filter Frame.ordered) = []) :
    (flow side (e.emit c out) o).Agrees := by
  have heq : flow side (e.emit c out) o = flow side e o := by
    simp only [flow, emit, hsend, hcredit, hopened, hentry, payloads_append, hpay, List.append_nil]
  rw [heq]
  exact h

/-- **A task's step, seen by the direction it sends in.** -/
theorem flow_sender (h : (flow side e o).Agrees) {gone teardown : Bool}
    (hs : Chan.Stepped side gone teardown e.chan c out) : (flow side (e.emit c out) o).Agrees := by
  cases hs with
  | @send a h' credit' out hp hs =>
    have hagree := h.sendStep (SendHalf.step_stepped hs)
    have hpay : payloads ((out.map (Frame.data e.chan.id)).toList.filter Frame.ordered) =
        out.toList := by
      cases out <;> rfl
    simpa only [flow, emit, payloads_append, hpay] using hagree
  | @recv a h' w' inbound' upd hp hs =>
    exact flow_quiet h rfl rfl rfl rfl (by cases upd <;> rfl)
  | refused hp hout | closed hp hout | finished hp hc h₁ h₂ hout =>
    exact flow_quiet h rfl rfl rfl rfl (by subst hout; split_ifs <;> rfl)
  | announced | announceGone | pulled | pullOver | pullClose | pullViolation | pullGone | connected
  | connectFailed | granted | opened | openedGone | propagated =>
    exact flow_quiet h rfl rfl rfl rfl rfl

/-- The direction an end receives in, once its task has moved. -/
theorem flow_emit (c : Chan) (out : Option Frame) : flow other o (e.emit c out) =
      { flow other o e with
        updates := e.updates ++ adds out.toList
        openedWire :=
          e.wire.any Frame.isOpened || (out.toList.filter Frame.ordered).any Frame.isOpened
        window := c.window, entry := c.entry, inbound := c.inbound, recv := c.recv
        phase := c.phase.toRecv } := by
  simp only [flow, emit, List.any_append]

/-- A step that leaves the receiver's part as it is. -/
theorem flow_hold (h : (flow other o e).Agrees) (hwindow : c.window = e.chan.window)
    (hentry : c.entry = e.chan.entry) (hin : c.inbound = e.chan.inbound)
    (hrecv : c.recv = e.chan.recv) (hphase : c.phase.toRecv = e.chan.phase.toRecv)
    (hadds : adds out.toList = [])
    (hopened : (out.toList.filter Frame.ordered).any Frame.isOpened = false) :
    (flow other o (e.emit c out)).Agrees := by
  rw [flow_emit, hwindow, hentry, hin, hrecv, hphase, hadds, hopened, List.append_nil,
    Bool.or_false]
  exact h

/-- The task goes away before it relays, or having relayed. -/
theorem flow_leave (h : (flow other o e).Agrees) {p : Phase} (hp : p.toRecv = .gone)
    {inbound : List Inbound} (hin : ∃ pre, e.chan.inbound = pre ++ inbound)
    (hadds : adds out.toList = [])
    (hopened : (out.toList.filter Frame.ordered).any Frame.isOpened = false) :
    (flow other o (e.emit { e.chan with inbound := inbound, phase := p } out)).Agrees := by
  rw [flow_emit, hadds, hopened, List.append_nil, Bool.or_false, hp]
  exact h.leave hin

/-- **A task's step, seen by the direction it receives in**: it never finds the peer over its
window. -/
theorem flow_receiver (h : (flow other o e).Agrees) {gone teardown : Bool}
    (hs : Chan.Stepped side gone teardown e.chan c out) (hproper : e.chan.phase ≠ .closing) :
    (flow other o (e.emit c out)).Agrees ∧ c.phase ≠ .closing := by
  have hrecv : ∀ {p : Phase}, e.chan.phase = p → (flow other o e).phase = p.toRecv := by
    rintro p rfl
    rfl
  cases hs with
  | announced hp =>
    exact ⟨flow_hold h rfl rfl rfl rfl (by rw [hp]; rfl) rfl rfl, by simp⟩
  | announceGone hp | openedGone hp | pullGone hp =>
    exact ⟨flow_leave h rfl ⟨[], rfl⟩ rfl rfl, by simp⟩
  | @pulled n b rest hp hin hfits =>
    refine ⟨?_, by simp⟩
    rw [flow_emit]
    refine h.pull (hrecv hp) ?_
    simp only [Flow.pull, flow, hin, hfits, if_true, adds, Option.toList_none, List.filterMap_nil,
      List.append_nil, List.filter_nil, List.any_nil, Bool.or_false, Phase.toRecv]
  | pullOver hp hin hfits =>
    rw [h.pendingFits (hrecv hp) hin] at hfits
    cases hfits
  | pullClose hp hin => exact ⟨flow_leave h rfl ⟨[_], hin⟩ rfl rfl, by simp⟩
  | pullViolation hp hin => exact absurd (by simp [flow, hin]) h.clean.2
  | connected hp hin he | connectFailed hp hin he =>
    refine ⟨?_, by simp⟩
    rw [flow_emit]
    simpa [adds, flow, Phase.toRecv] using h.connected (hrecv hp)
  | granted hp =>
    refine ⟨?_, by simp⟩
    rw [flow_emit]
    simpa [adds, flow, Phase.toRecv] using h.grant (hrecv hp)
  | opened hp hg =>
    refine ⟨?_, by simp⟩
    have hadds : adds (some (Frame.opened e.chan.id true "" channelWindow)).toList = [] := rfl
    have hany : ((some (Frame.opened e.chan.id true "" channelWindow)).toList.filter
        Frame.ordered).any Frame.isOpened = true := rfl
    rw [flow_emit, hadds, hany, List.append_nil, Bool.or_true]
    exact h.sendOpened (hrecv hp)
  | refused hp hout =>
    subst hout
    refine ⟨flow_leave h rfl ⟨[], rfl⟩ ?_ ?_, by simp⟩ <;> split_ifs <;> rfl
  | closed hp => exact absurd hp hproper
  | @send a h' credit' out hp hs =>
    refine ⟨flow_hold h rfl rfl rfl rfl rfl ?_ ?_, hproper⟩ <;> cases out <;> rfl
  | @recv a h' w' inbound' upd hp hs =>
    refine ⟨?_, hproper⟩
    have hadds : adds (upd.map (Frame.windowUpdate e.chan.id)).toList = upd.toList := by
      cases upd <;> rfl
    have hany : ((upd.map (Frame.windowUpdate e.chan.id)).toList.filter Frame.ordered).any
        Frame.isOpened = false := by
      cases upd <;> rfl
    rw [flow_emit, hadds, hany, Bool.or_false]
    exact h.recvStep (hrecv hp) (RecvHalf.step_stepped hs)
  | propagated hp => exact ⟨flow_hold h rfl rfl rfl rfl rfl rfl rfl, hproper⟩
  | finished hp hc h₁ h₂ hout =>
    subst hout
    have hgone : side.afterRelay.toRecv = .gone := by cases side <;> rfl
    refine ⟨flow_leave h hgone ⟨[], rfl⟩ ?_ ?_, by cases side <;> simp [Side.afterRelay]⟩ <;>
      split_ifs <;> rfl

/-! ## What a frame does to the flows -/

/-- A frame that is not `opened` at most takes the hearer's entry, which its own direction
sees as a sender that updates no longer reach. -/
theorem flow_hear_other (h : (flow side e o).Agrees) (hw : o.wire = f :: rest)
    (hf : f.isOpened = false) (hord : f.ordered = true) :
    (flow side { e with chan := if e.chan.entry then e.chan.hear f else e.chan }
      { o with wire := rest, handled := o.handled ++ [f] }).Agrees := by
  have hany : rest.any Frame.isOpened = (flow side e o).openedWire := by
    simp only [flow, hw, List.any_cons, hf, Bool.false_or]
  have hsame : ({ flow side e o with openedWire := rest.any Frame.isOpened } : Flow).Agrees := by
    rw [hany]
    exact h
  split_ifs with hentry
  · have hdrop := hsame.dropSender
    cases f with
    | openChannel => exact hsame
    | opened i ok m w =>
      cases ok with
      | true => cases hf
      | false => exact hdrop
    | data i b =>
      rw [Chan.hear, Chan.data]
      split
      · split_ifs
        · exact hdrop
        · exact hsame
      · exact hdrop
    | close i => exact hdrop
    | windowUpdate i add => cases hord
  · exact hsame

/-- `opened` raises the hearer's credit, once. -/
theorem flow_hear_opened (h : (flow side e o).Agrees) {i : ℤ} {m : String}
    (hw : o.wire = .opened i true m channelWindow :: rest)
    (hrest : rest.any Frame.isOpened = false) : (flow side
      { e with
        chan := if e.chan.entry then e.chan.hear (.opened i true m channelWindow) else e.chan }
      { o with
        wire := rest, handled := o.handled ++ [.opened i true m channelWindow] }).Agrees := by
  have hwire : (flow side e o).openedWire = true := by
    simp [flow, hw, Frame.isOpened]
  have honce := h.staged.once hwire
  split_ifs with hentry
  · have hopened : e.chan.opened = false := by
      simp only [flow, Bool.or_eq_false_iff] at honce
      exact honce.2
    have hraised := h.deliverOpened hwire
    simpa [flow, Chan.hear, Chan.raise, hopened, hrest] using hraised
  · have hlost := h.loseOpened hwire (by simpa [flow] using hentry)
    simpa [flow, hrest] using hlost

theorem flow_wire (side : Side) (o : End) {i : ℤ} {b : Bytes} (hw : e.wire = .data i b :: rest) :
    (flow side e o).wire = b :: payloads rest := by
  simp [flow, hw, payloads, Frame.payload?]

/-- A frame, seen by the direction it came in. -/
theorem flow_heard (h : (flow other o e).Agrees) (hw : o.wire = f :: rest)
    (hproper : e.chan.phase ≠ .closing) :
    (flow other { o with wire := rest, handled := o.handled ++ [f] }
      { e with chan := if e.chan.entry then e.chan.hear f else e.chan }).Agrees := by
  have hclosed : (flow other o e).inboundClosed = e.chan.inboundClosed := by
    rw [Flow.inboundClosed, Chan.inboundClosed, ← Phase.toRecv_gone hproper]
    rfl
  -- a frame without data leaves the wire of the flow as it is
  have hnodata : f.payload? = none → payloads rest = payloads o.wire := by
    intro hf
    rw [hw, payloads, payloads, List.filterMap_cons, hf]
  have hsame : f.payload? = none →
      ({ flow other o e with wire := payloads rest } : Flow).Agrees := by
    intro hf
    rw [hnodata hf]
    exact h
  -- `Close` for the task, as far as it still reads its queue
  have hclose : f.payload? = none → (flow other { o with wire := rest, handled := o.handled ++ [f] }
      { e with chan := e.chan.close }).Agrees := by
    intro hf
    have hdrop := (hsame hf).dropEntry (!e.chan.inboundClosed)
    have heq :
      (if (!e.chan.inboundClosed) = true then e.chan.inbound ++
        [Inbound.close] else e.chan.inbound) =
        e.chan.close.inbound := by
      rw [Chan.close]
      cases e.chan.inboundClosed <;> rfl
    dsimp only at hdrop
    rw [show (flow other o e).inbound = e.chan.inbound from rfl, heq] at hdrop
    exact hdrop
  by_cases hentry : e.chan.entry = true
  · rw [if_pos hentry]
    cases f with
    | openChannel => exact hsame rfl
    | opened i ok m w =>
      cases ok with
      | true =>
        rw [Chan.hear, Chan.raise]
        split_ifs <;> exact hsame rfl
      | false => exact hclose rfl
    | data i b =>
      have hpay := flow_wire other e hw
      have hdeliver := h.deliver hpay
      have hfit : charge b.length ≤ e.chan.window.remaining := h.fits hpay
      rw [Flow.deliver, if_pos (show (flow other o e).entry = true from hentry),
        RecvWindow.accept_true (h.fits hpay), hclosed] at hdeliver
      rw [Chan.hear, Chan.data, RecvWindow.accept_true hfit]
      dsimp only at hdeliver ⊢
      split_ifs at hdeliver ⊢ <;> exact hdeliver
    | close i => exact hclose rfl
    | windowUpdate i add => exact hsame rfl
  · rw [if_neg hentry]
    cases f with
    | data i b =>
      have hpay := flow_wire other e hw
      have hdeliver := h.deliver hpay
      rwa [Flow.deliver, if_neg (show ¬ (flow other o e).entry = true from hentry)] at hdeliver
    | openChannel | opened | close | windowUpdate => exact hsame rfl

/-! ## What holds at both ends -/

/-- The next frame of an end that keeps to its script comes after no last word. -/
theorem Sound.not_last (h : Sound side prebuf e o) (hw : e.wire = f :: rest) (g : Frame)
    (hg : g ∈ e.handled) : g.isLast = false := by
  cases hl : g.isLast with
  | false => rfl
  | true =>
    obtain ⟨xs, ys, hsplit⟩ := List.append_of_mem hg
    have heq : e.sent = xs ++ g :: (ys ++ f :: rest) := by
      rw [h.fifo, hw, hsplit]
      simp
    have := h.script.spoke.last heq hl
    simp at this

/-- As long as the peer keeps to its window, no task closes for it. -/
theorem Sound.proper {p : Bytes} (he : Sound side p e o) : e.chan.phase ≠ .closing := by
  intro hp
  have := he.script.proper
  rw [hp] at this
  cases side <;> cases this

/-- The task takes a step. -/
theorem Sound.task {p q : Bytes} (he : Sound side p e o) (ho : Sound other q o e)
    (hs : Chan.Stepped side e.gone e.teardown e.chan c out) :
    Sound side p (e.emit c out) o ∧ Sound other q o (e.emit c out) := by
  obtain ⟨hflow, hover⟩ := flow_receiver ho.flow hs he.proper
  have hclean : Inbound.violation ∉ e.chan.inbound := ho.flow.clean.2
  constructor
  · refine ⟨hs.scripted hover he.script, ?_, flow_sender he.flow hs, hs.carries he.carries,
      hs.receives hover he.receives ?_, hs.blames hover hclean ?_ he.blames, ?_⟩
    · simp only [emit, he.fifo, List.append_assoc]
    · intro n hn
      exact (he.script.silent (by rw [hn]; rfl)).2.2
    · intro hearly
      exact (he.script.silent hearly).2.2
    · intro hlast
      rw [emit, hs.entry_eq]
      exact he.heard hlast
  · exact ⟨ho.script, ho.fifo, hflow, ho.carries, ho.receives, ho.blames, ho.heard⟩

/-- The next ordered frame of the other end is handled. -/
theorem Sound.hear {p q : Bytes} (he : Sound side p e o) (ho : Sound other q o e)
    (hw : o.wire = f :: rest) :
    Sound side p { e with chan := if e.chan.entry then e.chan.hear f else e.chan }
      { o with wire := rest, handled := o.handled ++ [f] } ∧
    Sound other q { o with wire := rest, handled := o.handled ++ [f] }
      { e with chan := if e.chan.entry then e.chan.hear f else e.chan } := by
  have hsent : o.sent = o.handled ++ f :: rest := by rw [ho.fifo, hw]
  have hord := (ho.script.spoke.mem (g := f) (by simp [hsent])).1
  have hfit : ∀ i b, f = .data i b → charge b.length ≤ e.chan.window.remaining := by
    rintro i b rfl
    exact ho.flow.fits (flow_wire other e hw)
  constructor
  · refine ⟨?_, he.fifo, ?_, ?_, he.receives.hear hfit (ho.not_last hw), ?_, ?_⟩
    · dsimp only
      split_ifs
      · obtain ⟨h₁, h₂, h₃, h₄, -⟩ := e.chan.hear_task f
        exact he.script.same h₁ h₂ h₃ h₄
      · exact he.script
    · cases hf : f.isOpened with
      | false => exact flow_hear_other he.flow hw hf hord
      | true =>
        obtain ⟨-, -, rfl, hrest⟩ := ho.script.spoke.opened_first hsent hf
        exact flow_hear_opened he.flow hw hrest
    · dsimp only
      split_ifs
      · obtain ⟨-, -, h₃, -, -⟩ := e.chan.hear_task f
        rw [h₃]
        exact he.carries
      · exact he.carries
    · dsimp only
      split_ifs
      · exact he.blames.hear hfit
      · exact he.blames
    · rintro ⟨g, hg, hlast⟩
      rcases List.mem_append.mp hg with hg | hg
      · rw [ho.not_last hw g hg] at hlast
        cases hlast
      · obtain rfl := List.mem_singleton.mp hg
        dsimp only
        split_ifs with hentry
        · exact e.chan.hear_last hlast
        · simpa using hentry
  · refine ⟨ho.script, ?_, flow_heard ho.flow hw he.proper, ho.carries, ho.receives, ho.blames,
      ho.heard⟩
    rw [ho.fifo, hw]
    simp

/-- **One step of the tunnel keeps both ends of a channel sound.** -/
theorem Sound.moved {p q : Bytes} {e' o' : End} (he : Sound side p e o) (ho : Sound other q o e)
    (hm : Moved side e o e' o') : Sound side p e' o' ∧ Sound other q o' e' := by
  cases hm with
  | @task c out hs => exact he.task ho hs
  | @hear f rest hw => exact he.hear ho hw
  | @update n rest hu =>
    have hdeliver := he.flow.deliverUpdate hu
    constructor
    · split_ifs with hentry
      · refine ⟨he.script.same rfl rfl rfl rfl, he.fifo, ?_, he.carries, ?_, ?_, he.heard⟩
        · simpa [End.flow, Chan.windowUpdate, hentry] using hdeliver
        · exact he.receives.keep rfl rfl (fun hc => hc) fun hc => hc
        · exact he.blames.demux rfl rfl rfl rfl (fun hg => hg) (fun ht => ht) (fun hc => hc) .inl
      · refine ⟨he.script, he.fifo, ?_, he.carries, he.receives, he.blames, he.heard⟩
        simpa [End.flow, hentry] using hdeliver
    · split_ifs <;> exact ⟨ho.script, ho.fifo, ho.flow, ho.carries, ho.receives, ho.blames,
        ho.heard⟩
  | @drop g t hg ht hwhy =>
    constructor
    · refine ⟨he.script.same rfl rfl rfl rfl, he.fifo, he.flow.dropSender, he.carries, ?_, ?_,
        fun _ => rfl⟩
      · exact he.receives.keep rfl rfl (fun hc => hc) fun hc => by cases hc
      · refine he.blames.demux rfl rfl rfl rfl hg ht (fun hc => hc) ?_
        intro _
        rcases hwhy with hwhy | hwhy
        · exact .inr (.inl hwhy)
        · exact .inr (.inr (.inr hwhy))
    · exact ⟨ho.script, ho.fifo, ho.flow.dropEntry false, ho.carries, ho.receives, ho.blames,
        ho.heard⟩
  | @flag g t hg ht =>
    constructor
    · refine ⟨he.script, he.fifo, he.flow, he.carries, he.receives, ?_, he.heard⟩
      exact he.blames.demux rfl rfl rfl rfl hg ht (fun hc => hc) .inl
    · exact ⟨ho.script, ho.fifo, ho.flow, ho.carries, ho.receives, ho.blames, ho.heard⟩

end End

/-- The channel `TunnelHandle::open` starts. -/
def localChan (id : ℤ) (host : String) (port : ℤ) (prebuf : Bytes) : Chan :=
  { id := id, addr := "", isRdp := false, entry := true, opened := false
    credit := .new initialWindow, window := .new channelWindow, inbound := []
    phase := .opening host port, send := .new prebuf, recv := .new [], cancel := false }

/-- Both ends of a channel. Before its `open` has been handled the controlled end stands as
`on_open` will start it. -/
structure Link where
  ctl : End
  peer : End
  /-- what `TunnelHandle::open` was given as the head of the stream -/
  prebuf : Bytes

namespace Link

/-- What a step of the tunnel can do to a channel. -/
inductive Stepped (l : Link) : Link → Prop where
  | ctl {ctl peer : End} (hm : End.Moved .controller l.ctl l.peer ctl peer) :
    Stepped l { l with ctl := ctl, peer := peer }
  | peer {ctl peer : End} (hm : End.Moved .controlled l.peer l.ctl peer ctl) :
    Stepped l { l with ctl := ctl, peer := peer }
  /-- the controller's task removes its entry -/
  | reaped (hp : l.ctl.chan.phase = .reaping) :
    Stepped l
      { l with ctl := { l.ctl with chan := { l.ctl.chan with phase := .ended, entry := false } } }
  /-- `on_open` starts the channel -/
  | spawned {i : ℤ} {host : String} {port : ℤ} {w : ℕ} {rest : List Frame}
    (hw : l.ctl.wire = .openChannel i host port w :: rest) (addr : String) (isRdp : Bool) :
    Stepped l { l with
      ctl := { l.ctl with
        wire := rest, handled := l.ctl.handled ++ [.openChannel i host port w] }
      peer := { l.peer with chan := { l.peer.chan with addr := addr, isRdp := isRdp } } }
  /-- `on_open` refuses it -/
  | refused {i : ℤ} {host : String} {port : ℤ} {w : ℕ} {rest : List Frame}
    (hw : l.ctl.wire = .openChannel i host port w :: rest) {n : ℕ}
    (hp : l.peer.chan.phase = .connecting n) {replies : List Frame}
    (hr : replies = [] ∨ ∃ m w, replies = [.opened l.peer.chan.id false m w]) :
    Stepped l { l with
      ctl := { l.ctl with
        wire := rest, handled := l.ctl.handled ++ [.openChannel i host port w] }
      peer := { l.peer with
        chan := { l.peer.chan with phase := .ended, entry := false }
        sent := l.peer.sent ++ replies, wire := l.peer.wire ++ replies } }

/-- What holds of a channel at any time. -/
structure Sound (l : Link) : Prop where
  ctl : l.ctl.Sound .controller l.prebuf l.peer
  peer : l.peer.Sound .controlled [] l.ctl
  same : l.peer.chan.id = l.ctl.chan.id

/-- A channel as `TunnelHandle::open` starts it. -/
def init (id : ℤ) (host : String) (port : ℤ) (prebuf : Bytes)
    (gone teardown muxGone muxTeardown : Bool) : Link :=
  { ctl := ⟨localChan id host port prebuf, gone, teardown, [], [], [], [], false⟩
    peer := ⟨Mux.newChan id "" false channelWindow, muxGone, muxTeardown, [], [], [], [], false⟩
    prebuf := prebuf }

/-- A channel that has not moved has nothing to answer for. -/
theorem new_blames {c : Chan} {gone teardown : Bool} (hsend : c.send.pc = .taking)
    (hrecv : c.recv.pc = .fetching) (hcancel : c.cancel = false) (hentry : c.entry = true) :
    c.Blames gone teardown false := by
  refine ⟨?_, ?_, ?_, ?_, by rintro ⟨⟩⟩
  · rw [SendHalf.Blames, hsend]
    trivial
  · rw [RecvHalf.Blames, hrecv]
    trivial
  · rw [hcancel]
    rintro ⟨⟩
  · rw [hentry]
    rintro ⟨⟩

theorem new_receives {c : Chan} (hrecv : c.recv = .new []) (hin : c.inbound = []) :
    c.Receives [] := by
  have hcontent : c.content = [] := by rw [Chan.content, hrecv, hin]; rfl
  refine ⟨?_, ?_, ?_, ?_, ?_, ?_⟩
  · rw [hrecv]
    exact List.nil_prefix
  · intro _
    rw [hcontent]
    exact List.nil_prefix
  · intro _ _
    exact hcontent
  · intro _
    rw [hrecv]
    rfl
  · rw [hin, hrecv]
    rintro (h | h) <;> cases h
  · intro xs ys heq
    rw [hin] at heq
    simp at heq

theorem init_sound (id : ℤ) (host : String) (port : ℤ) (prebuf : Bytes)
    (gone teardown muxGone muxTeardown : Bool) :
    (init id host port prebuf gone teardown muxGone muxTeardown).Sound := by
  refine ⟨⟨?_, rfl, Flow.init_agrees prebuf .toControlled, SendHalf.carries_new _,
    new_receives rfl rfl, new_blames rfl rfl rfl rfl, by simp [init]⟩, ⟨?_, rfl,
    Flow.init_agrees [] .toController, SendHalf.carries_new _, new_receives rfl rfl,
    new_blames rfl rfl rfl rfl, by simp [init]⟩, rfl⟩
  · exact ⟨rfl, .nothing, fun _ => ⟨rfl, rfl, rfl⟩, nofun, nofun⟩
  · exact ⟨rfl, .nothing, fun _ => ⟨rfl, rfl, rfl⟩, nofun, nofun⟩

/-- A channel does not change its number. -/
theorem moved_id {side : Side} {e o e' o' : End} (hm : End.Moved side e o e' o') :
    e'.chan.id = e.chan.id ∧ o'.chan.id = o.chan.id := by
  cases hm with
  | task hs => exact ⟨hs.id_eq, rfl⟩
  | @hear f rest hw =>
    refine ⟨?_, rfl⟩
    dsimp only
    split_ifs
    · exact (e.chan.hear_task f).1
    · rfl
  | update hu =>
    refine ⟨?_, rfl⟩
    dsimp only
    split_ifs <;> rfl
  | drop | flag => exact ⟨rfl, rfl⟩

variable {l : Link}

/-- The controlled end handles `open`, before anything is made of it. -/
theorem Sound.popped (h : l.Sound) {i : ℤ} {host : String} {port : ℤ} {w : ℕ} {rest : List Frame}
    (hw : l.ctl.wire = .openChannel i host port w :: rest) : ({ l with ctl := { l.ctl with
      wire := rest, handled := l.ctl.handled ++ [.openChannel i host port w] } } : Link).Sound := by
  obtain ⟨hpeer, hctl⟩ := End.Sound.moved h.peer h.ctl (.hear hw)
  rw [Chan.hear, ite_self] at hpeer hctl
  exact ⟨hctl, hpeer, h.same⟩

/-- The controlled end gives a channel up before it has said anything. -/
theorem Sound.refuse (h : l.Sound) {n : ℕ} (hp : l.peer.chan.phase = .connecting n)
    {replies : List Frame}
    (hr : replies = [] ∨ ∃ m w, replies = [.opened l.peer.chan.id false m w]) :
    ({ l with peer := { l.peer with
      chan := { l.peer.chan with phase := .ended, entry := false }
      sent := l.peer.sent ++ replies, wire := l.peer.wire ++ replies } } : Link).Sound := by
  obtain ⟨hsilent, -, hnone⟩ := h.peer.script.silent (by rw [hp]; rfl)
  have hpay : payloads replies = [] := by
    rcases hr with rfl | ⟨m, w, rfl⟩ <;> rfl
  have hany : replies.any Frame.isOpened = false := by
    rcases hr with rfl | ⟨m, w, rfl⟩ <;> rfl
  refine ⟨?_, ⟨⟨rfl, ?_, nofun, nofun, ?_⟩, ?_, ?_, ?_, ?_, ?_, fun _ => rfl⟩, h.same⟩
  · refine ⟨h.ctl.script, h.ctl.fifo, ?_, h.ctl.carries, h.ctl.receives, h.ctl.blames, h.ctl.heard⟩
    have hleft := (h.ctl.flow.leave ⟨[], rfl⟩).dropEntry false
    simpa [End.flow, hany, Phase.toRecv] using hleft
  · dsimp only
    rw [hsilent, List.nil_append]
    rcases hr with rfl | ⟨m, w, rfl⟩
    · exact .nothing
    · exact .refused rfl m w
  · dsimp only
    rw [hsilent, List.nil_append]
    intro hmem
    rcases hr with rfl | ⟨m, w, rfl⟩ <;> simp at hmem
  · simp only [h.peer.fifo, List.append_assoc]
  · have hdrop := h.peer.flow.dropSender
    simpa [End.flow, hpay] using hdrop
  · simpa [hpay] using h.peer.carries
  · exact h.peer.receives.quit
  · exact h.peer.blames.quit (by simp [Chan.running, hp])

/-- The controller's task takes its entry with it. -/
theorem Sound.reap (h : l.Sound) (hp : l.ctl.chan.phase = .reaping) : ({ l with ctl := { l.ctl with
      chan := { l.ctl.chan with phase := .ended, entry := false } } } : Link).Sound := by
  refine ⟨⟨⟨rfl, h.ctl.script.spoke, nofun, nofun, ?_⟩, h.ctl.fifo, h.ctl.flow.dropSender,
    h.ctl.carries, h.ctl.receives.quit, h.ctl.blames.quit (by simp [Chan.running, hp]),
    fun _ => rfl⟩, ?_, h.same⟩
  · intro hmem
    exact ⟨rfl, (h.ctl.script.closed hmem).2⟩
  · refine ⟨h.peer.script, h.peer.fifo, ?_, h.peer.carries, h.peer.receives, h.peer.blames,
      h.peer.heard⟩
    have hleft := (h.peer.flow.leave ⟨[], rfl⟩).dropEntry false
    simpa [End.flow, Phase.toRecv] using hleft

/-- **Every step of the tunnel keeps every channel sound.** -/
theorem Sound.step {l' : Link} (h : l.Sound) (hs : l.Stepped l') : l'.Sound := by
  cases hs with
  | ctl hm =>
    obtain ⟨hctl, hpeer⟩ := End.Sound.moved h.ctl h.peer hm
    obtain ⟨h₁, h₂⟩ := moved_id hm
    exact ⟨hctl, hpeer, h₂.trans (h.same.trans h₁.symm)⟩
  | peer hm =>
    obtain ⟨hpeer, hctl⟩ := End.Sound.moved h.peer h.ctl hm
    obtain ⟨h₁, h₂⟩ := moved_id hm
    exact ⟨hctl, hpeer, h₁.trans (h.same.trans h₂.symm)⟩
  | reaped hp => exact h.reap hp
  | spawned hw addr isRdp =>
    -- nothing that is said of a channel looks at its target
    obtain ⟨hctl, hpeer, hsame⟩ := h.popped hw
    exact ⟨⟨hctl.script, hctl.fifo, hctl.flow, hctl.carries, hctl.receives, hctl.blames,
      hctl.heard⟩,
      ⟨hpeer.script.same rfl rfl rfl rfl, hpeer.fifo, hpeer.flow, hpeer.carries,
        hpeer.receives.keep rfl rfl (fun hc => hc) fun hc => hc,
        hpeer.blames.demux rfl rfl rfl rfl (fun hg => hg) (fun ht => ht) (fun hc => hc) .inl,
        hpeer.heard⟩, hsame⟩
  | refused hw hp hr => exact (h.popped hw).refuse hp hr

end Link
end BgDesk
