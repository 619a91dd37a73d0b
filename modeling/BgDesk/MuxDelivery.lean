import BgDesk.MuxTunnel

/-!
# What a tunnel promises its channels

In every state a tunnel can reach with at most 2³² channels opened:

* what has been written to a channel's socket is the head of what was read from the socket at
  the other end of the same channel (`Link.Streams.bytes`);
* `open` is handled before any data, and nothing follows `close` or a refusal;
* a relay that comes to its end undisturbed has written everything the other end sent;
* once the other end has closed, a task that has its socket can always get there
  (`Tunnel.Whole.delivers`).

A `Close` that finds the task still waiting for its target ends it with the data it has
buffered, as `unwritten_while_connecting` shows.
-/

namespace BgDesk

/-- The other side. -/
def Side.other : Side → Side
  | .controller => .controlled
  | .controlled => .controller

namespace Link

/-- The end of a side. -/
def endOf (l : Link) : Side → End
  | .controller => l.ctl
  | .controlled => l.peer

/-- What stands at the head of a side's stream, before its socket's bytes. -/
def head (l : Link) : Side → Bytes
  | .controller => l.prebuf
  | .controlled => []

theorem Sound.at {l : Link} (h : l.Sound) (side : Side) :
    (l.endOf side).Sound side (l.head side) (l.endOf side.other) ∧
      (l.endOf side.other).Sound side.other (l.head side.other) (l.endOf side) := by
  cases side with
  | controller => exact ⟨h.ctl, h.peer⟩
  | controlled => exact ⟨h.peer, h.ctl⟩

/-- What a channel promises, in both directions. -/
structure Streams (l : Link) : Prop where
  /-- what has been written at one end is the head of what was read at the other -/
  bytes : ∀ side, (l.endOf side).chan.recv.written <+:
    l.head side.other ++ (l.endOf side.other).chan.send.source
  /-- `open`, or `opened`, is handled before any data -/
  hello : ∀ side xs ys i b, (l.endOf side).handled = xs ++ Frame.data i b :: ys →
    ∃ f ∈ xs, side.hello (l.endOf side).chan.id f
  /-- nothing follows `close`, and nothing follows a refusal -/
  last : ∀ side xs ys f, (l.endOf side).sent = xs ++ f :: ys → f.isLast = true → ys = []
  /-- an end that has taken the other's `Close` sends none -/
  mute : ∀ side, (l.endOf side).took = true →
    Frame.close (l.endOf side).chan.id ∉ (l.endOf side).sent
  /-- a relay that has ended undisturbed has written everything there was -/
  drained : ∀ side, (l.endOf side).chan.recv.ended.isSome = true →
    ¬ (l.endOf side).chan.Disturbed (l.endOf side).gone (l.endOf side).teardown →
    (l.endOf side).chan.recv.written = stream (l.endOf side.other).sent

end Link

namespace End

variable {side other : Side} {p q : Bytes} {e o : End}

/-- What has been handled is the head of what was sent. -/
theorem Sound.stream_handled (h : Sound side p e o) : stream e.handled <+: stream e.sent := by
  rw [h.fifo, stream_append]
  exact List.prefix_append _ _

/-- A last word that has been handled is the last there was. -/
theorem Sound.all_handled (h : Sound side p e o) (hlast : ∃ f ∈ e.handled, f.isLast = true) :
    e.handled = e.sent := by
  obtain ⟨f, hf, hl⟩ := hlast
  obtain ⟨xs, ys, hsplit⟩ := List.append_of_mem hf
  have hsent : e.sent = xs ++ f :: (ys ++ e.wire) := by
    rw [h.fifo, hsplit]
    simp
  have hend : ys ++ e.wire = [] := h.script.spoke.last hsent hl
  rw [h.fifo, (List.append_eq_nil_iff.mp hend).2, List.append_nil]

/-- A relay that took `Close` has written everything. -/
theorem Sound.drained (he : Sound side p e o) (ho : Sound other q o e)
    (hend : e.chan.recv.ended = some .peerClosed) : e.chan.recv.written = stream o.sent := by
  rw [he.receives.taken hend, ho.all_handled (he.receives.closed (.inr hend)).2]

/-- An end that has taken a `Close` sends none. -/
theorem Sound.mute (h : Sound side p e o) (htook : e.took = true) : .close e.chan.id ∉ e.sent := by
  intro hmem
  obtain ⟨-, e₁, e₂, -, h₂, hcloses⟩ := h.script.closed hmem
  rcases h.blames.took htook with hclosed | ⟨-, hnone⟩
  · rw [hclosed] at h₂
    obtain rfl := Option.some.inj h₂
    simp [Chan.closes] at hcloses
  · rw [hnone] at h₂
    cases h₂

end End

/-- **A sound channel keeps its promises.** -/
theorem Link.Sound.streams {l : Link} (h : l.Sound) : l.Streams := by
  refine ⟨?_, ?_, ?_, fun side => (h.at side).1.mute, ?_⟩
  · intro side
    obtain ⟨hend, hother⟩ := h.at side
    exact (hend.receives.part.trans hother.stream_handled).trans hother.carries.part
  · intro side xs ys i b heq
    have hend := (h.at side).1
    have hsent : (l.endOf side).sent = xs ++ .data i b :: (ys ++ (l.endOf side).wire) := by
      rw [hend.fifo, heq]
      simp
    exact hend.script.spoke.hello_before hsent
  · intro side xs ys f heq hlast
    exact (h.at side).1.script.spoke.last heq hlast
  · intro side hend hquiet
    obtain ⟨hhere, hother⟩ := h.at side
    exact hhere.drained hother (hhere.blames.peerClosed hquiet hend)

/-! ## Getting there -/

/-- The steps that take a task with its socket on through its queue. -/
def ChanAct.onward : ChanAct → Bool
  | .grant | .opened | .recv .fetch | .recv (.write _) | .recv .wrote => true
  | _ => false

namespace Chan

/-- The task has its socket. -/
def hasSocket (c : Chan) : Bool :=
  match c.phase with
  | .opening _ _ | .connected | .granted | .relaying => true
  | .connecting _ | .refusing | .closing | .reaping | .ended => false

/-- The task has its socket, and the peer's `Close` is in its queue. -/
structure Ready (side : Side) (c : Chan) : Prop where
  socket : c.phase = .relaying ∨ (side = .controlled ∧ (c.phase = .connected ∨ c.phase = .granted))
  running : c.recv.ended = none
  close : .close ∈ c.inbound
  clean : .violation ∉ c.inbound

/-- The steps there are to `Close`, at most. -/
def work (c : Chan) : ℕ :=
  (match c.phase with
    | .connected => 2
    | .granted => 1
    | _ => 0) +
  (match c.recv.pc with
    | .writing _ [] => 1
    | .writing _ (_ :: _) => 2
    | _ => 0) +
  3 * c.recv.pending.length + 3 * c.inbound.length

/-- A relay that is ready has a step to take, and gets nearer to `Close` with it. -/
theorem Ready.recvStep {side : Side} {c : Chan} (h : c.Ready side) (hp : c.phase = .relaying) :
    ∃ a r w inbound upd, (ChanAct.recv a).onward = true ∧
      c.recv.step c.cancel false c.entry c.window c.inbound a = some (r, w, inbound, upd) ∧
      (r.ended = some .peerClosed ∨
        ({ c with recv := r, window := w, inbound := inbound } : Chan).Ready side) ∧
      ({ c with recv := r, window := w, inbound := inbound } : Chan).work < c.work := by
  cases hpc : c.recv.pc with
  | fetching =>
    cases hpend : c.recv.pending with
    | cons chunk rest =>
      refine ⟨.fetch, { c.recv with pc := .writing chunk chunk, pending := rest }, c.window,
        c.inbound,
        none, rfl, by simp [RecvHalf.step, hpc, hpend], .inr ⟨h.socket, rfl, h.close, h.clean⟩, ?_⟩
      cases chunk <;> simp [work, hpc, hpend, hp] <;> omega
    | nil =>
      have hclose := h.close
      have hclean := h.clean
      cases hin : c.inbound with
      | nil => simp [hin] at hclose
      | cons x rest =>
        cases x with
        | data chunk =>
          refine ⟨.fetch, { c.recv with pc := .writing chunk chunk }, c.window, rest, none, rfl,
            by simp [RecvHalf.step, hpc, hpend], .inr ⟨h.socket, rfl, ?_, ?_⟩, ?_⟩
          · simpa [hin] using hclose
          · simpa [hin] using hclean
          · cases chunk <;> simp [work, hpc, hpend, hp, hin] <;> omega
        | close =>
          refine ⟨.fetch, { c.recv with pc := .done .peerClosed }, c.window, rest, none, rfl,
            by simp [RecvHalf.step, hpc, hpend], .inl rfl, ?_⟩
          simp [work, hpc, hpend, hp, hin]
        | violation => simp [hin] at hclean
  | writing chunk rest =>
    cases hrest : rest with
    | cons x xs =>
      subst hrest
      refine ⟨.write (x :: xs).length, { c.recv with
          pc := .writing chunk [], written := c.recv.written ++ (x :: xs) }, c.window,
            c.inbound, none,
        rfl, by simp [RecvHalf.step, hpc], .inr ⟨h.socket, rfl, h.close, h.clean⟩, ?_⟩
      simp [work, hpc, hp]
    | nil =>
      subst hrest
      have hwork : ∀ w, ({ c with
          recv := { c.recv with pc := .fetching }, window := w } : Chan).work < c.work := by
        intro w
        simp [work, hpc, hp]
      rcases hd : c.window.drained chunk.length with ⟨upd, w⟩
      refine ⟨.wrote, { c.recv with pc := .fetching }, w, c.inbound, upd, rfl, ?_,
        .inr ⟨h.socket, rfl, h.close, h.clean⟩, hwork w⟩
      cases upd <;> simp [RecvHalf.step, hpc, hd]
  | done e =>
    have hrunning := h.running
    simp [RecvHalf.ended, hpc] at hrunning

/-- **A task that is ready has a step to take, and gets nearer to `Close` with it.** -/
theorem Ready.step {side : Side} {c : Chan} (h : c.Ready side) (teardown : Bool) :
    ∃ a c' out, a.onward = true ∧ c.step side false teardown a = some (c', out) ∧ c'.id = c.id ∧
      (side = .controller → ∀ f ∈ out, f.ordered = false) ∧
      (c'.recv.ended = some .peerClosed ∨ c'.Ready side) ∧ c'.work < c.work := by
  rcases h.socket with hp | ⟨rfl, hp | hp⟩
  · obtain ⟨a, r, w, inbound, upd, ha, hs, hnext⟩ := h.recvStep hp
    refine ⟨.recv a, { c with recv := r, window := w, inbound := inbound },
      upd.map (.windowUpdate c.id), ha, by simp [Chan.step, hp, hs], rfl, ?_, hnext⟩
    intro _ f hf
    obtain ⟨n, -, rfl⟩ := Option.map_eq_some_iff.mp hf
    rfl
  · refine ⟨.grant, { c with
        window := c.window.grant (channelWindow - initialWindow), phase := .granted }, none, rfl,
      by simp [Chan.step, hp], rfl, by
        rintro ⟨⟩, .inr ⟨.inr ⟨rfl, .inr rfl⟩, h.running, h.close, h.clean⟩, ?_⟩
    simp [work, hp]
  · refine ⟨.opened, { c with phase := .relaying }, some (.opened c.id true "" channelWindow), rfl,
      by simp [Chan.step, hp], rfl, by rintro ⟨⟩, .inr ⟨.inl rfl, h.running, h.close, h.clean⟩, ?_⟩
    simp [work, hp]

/-- Another demultiplexer's doing: the task stands where it stood. -/
def SameTask (c c' : Chan) : Prop :=
  c'.id = c.id ∧ c'.phase = c.phase ∧ c'.send = c.send ∧ c'.recv = c.recv ∧ c'.cancel = c.cancel

end Chan

namespace Tunnel

/-- The channels of a side. -/
def chans (s : Tunnel) : Side → List Chan
  | .controller => s.ctl
  | .controlled => s.mux.chans

/-- Everything a side has sent. -/
def sent (s : Tunnel) : Side → List Frame
  | .controller => s.sentUp
  | .controlled => s.sentDown

def goneAt (s : Tunnel) : Side → Bool
  | .controller => s.gone
  | .controlled => s.mux.gone

def teardownAt (s : Tunnel) : Side → Bool
  | .controller => s.teardown
  | .controlled => s.mux.teardown

/-- Neither side has closed the tunnel. -/
def Up (s : Tunnel) : Prop := ∀ side, s.goneAt side = false ∧ s.teardownAt side = false

/-- The hops the frames for a side have before them. -/
def hops (s : Tunnel) : Side → ℕ
  | .controller => 2 * s.mux.tx.length + s.down.length
  | .controlled => 2 * s.dataQ.length + s.up.length

/-- The steps that bring frames to a side and take its task `k` through its queue. -/
def onward (side : Side) (k : ℕ) (a : Act) : Bool :=
  match side, a with
  | .controller, .muxWrite | .controller, .ctlFrame => true
  | .controlled, .pickData | .controlled, .muxFrame true => true
  | .controller, .ctlTask j a | .controlled, .muxTask j a => j = k && a.onward
  | _, _ => false

variable {s : Tunnel} {side : Side} {k : ℕ} {c : Chan}

theorem Up.keep {s' : Tunnel} (h : s.Up) (hgone : s'.gone = s.gone)
    (hteardown : s'.teardown = s.teardown) (hmuxGone : s'.mux.gone = s.mux.gone)
    (hmuxTeardown : s'.mux.teardown = s.mux.teardown) : s'.Up := by
  intro side
  cases side with
  | controller => exact ⟨hgone.trans (h .controller).1, hteardown.trans (h .controller).2⟩
  | controlled => exact ⟨hmuxGone.trans (h .controlled).1, hmuxTeardown.trans (h .controlled).2⟩

/-- A tunnel that is up, with these frames sent to a side. -/
structure Live (side : Side) (sent : List Frame) (s : Tunnel) : Prop where
  whole : s.Whole
  numbered : s.Numbered
  length : s.ctl.length ≤ 2 ^ 32
  up : s.Up
  sent : s.sent side.other = sent

theorem Live.next {sent : List Frame} {s' : Tunnel} {a : Act} (h : s.Live side sent)
    (hs : s.step a = some s') (hlen : s'.ctl.length = s.ctl.length) (hup : s'.Up)
    (hsent : s'.sent side.other = s.sent side.other) : s'.Live side sent := by
  have hlen' : s'.ctl.length ≤ 2 ^ 32 := by
    rw [hlen]
    exact h.length
  exact ⟨h.whole.step h.numbered hs hlen', h.numbered.step hs hlen', hlen', hup, hsent.trans h.sent⟩

/-- A frame does not move the task it is for. -/
theorem onEntry_task {cs : List Chan} (hk : cs[k]? = some c) (f : Frame) :
    ∃ c', (onEntry f.id (fun c => c.hear f) cs)[k]? = some c' ∧ Chan.SameTask c c' := by
  rw [onEntry, List.getElem?_map, hk]
  refine ⟨_, rfl, ?_⟩
  dsimp only
  split_ifs
  · exact c.hear_task f
  · exact ⟨rfl, rfl, rfl, rfl, rfl⟩

/-- What `handle` leaves alone. -/
theorem handle_task (m : Mux) (permitted : Bool) (f : Frame) :
    (m.handle permitted f).gone = m.gone ∧ (m.handle permitted f).teardown = m.teardown ∧
    ∀ (k : ℕ) (d : Chan), m.chans[k]? = some d →
      ∃ d', (m.handle permitted f).chans[k]? = some d' ∧ Chan.SameTask d d' := by
  have hretain : ∀ (k : ℕ) (d : Chan), m.chans[k]? = some d →
      ∃ d', (Mux.retain m.chans)[k]? = some d' ∧ Chan.SameTask d d' := by
    intro k d hk
    rw [Mux.retain, List.getElem?_map, hk]
    refine ⟨_, rfl, ?_⟩
    dsimp only
    split_ifs <;> exact ⟨rfl, rfl, rfl, rfl, rfl⟩
  cases f with
  | openChannel id host port w =>
    rw [Mux.handle]
    rcases onOpen_shape m permitted id host port w with ⟨replies, heq, -⟩ | ⟨addr, isRdp, heq⟩
    · rw [heq]
      exact ⟨rfl, rfl, hretain⟩
    · rw [heq]
      refine ⟨rfl, rfl, ?_⟩
      intro k d hk
      obtain ⟨d', hk', hd'⟩ := hretain k d hk
      refine ⟨d', ?_, hd'⟩
      rw [List.getElem?_append_left (List.getElem?_eq_some_iff.mp hk').1]
      exact hk'
  | opened => exact ⟨rfl, rfl, fun k d hk => ⟨d, hk, rfl, rfl, rfl, rfl, rfl⟩⟩
  | data | close | windowUpdate =>
    rw [handle_hear m permitted (by simp) (by simp)]
    exact ⟨rfl, rfl, fun k d hk => onEntry_task hk _⟩

/-- **As long as frames are under way to a side, one of them can make a hop**, and no task moves
with it. -/
theorem Live.hop {sent : List Frame} (h : s.Live side sent) (k : ℕ) (hhops : s.hops side ≠ 0) :
    ∃ a s', onward side k a = true ∧ s.step a = some s' ∧ s'.Live side sent ∧
      s'.hops side < s.hops side ∧ ∀ (j : ℕ) (c : Chan), (s.chans side)[j]? = some c →
        ∃ c', (s'.chans side)[j]? = some c' ∧ Chan.SameTask c c' := by
  have hsame : ∀ c : Chan, Chan.SameTask c c := fun c => ⟨rfl, rfl, rfl, rfl, rfl⟩
  have hteardown : s.teardown = false := (h.up .controller).2
  cases side with
  | controller =>
    cases hdown : s.down with
    | cons f rest =>
      have hs : s.step .ctlFrame = some { s with
          down := rest, ctl := onFrame s.ctl f, handledDown := s.handledDown ++ [f] } := by
        rw [Tunnel.step, hteardown, hdown]
      refine ⟨.ctlFrame, _, rfl, hs, h.next hs (by simp [onFrame, onEntry])
        (h.up.keep rfl rfl rfl rfl) rfl, ?_, fun j c hj => onEntry_task hj f⟩
      simp [hops, hdown]
    | nil =>
      cases htx : s.mux.tx with
      | nil => simp [hops, hdown, htx] at hhops
      | cons e rest =>
        have hs : s.step .muxWrite = some { s with
            mux := { s.mux with tx := rest }, down := s.down ++ [e.2] } := by
          rw [Tunnel.step, htx]
        refine ⟨.muxWrite, _, rfl, hs, h.next hs rfl (h.up.keep rfl rfl rfl rfl) rfl, ?_,
          fun j c hj => ⟨c, hj, hsame c⟩⟩
        simp [hops, hdown, htx]
        omega
  | controlled =>
    cases hw : s.up with
    | cons f rest =>
      obtain ⟨hgone, htear, htask⟩ := handle_task s.mux true f
      have hs : s.step (.muxFrame true) = some { s with
          up := rest, mux := s.mux.handle true f, handledUp := s.handledUp ++ [f]
          sentDown := s.sentDown ++ added s.mux (s.mux.handle true f) } := by
        have hopen : s.mux.teardown = false := (h.up .controlled).2
        simp [Tunnel.step, hw, Mux.step, hopen]
      refine ⟨.muxFrame true, _, rfl, hs, h.next hs rfl (h.up.keep rfl rfl hgone htear) rfl,
        ?_, htask⟩
      simp [hops, hw]
    | nil =>
      cases hq : s.dataQ with
      | nil => simp [hops, hw, hq] at hhops
      | cons f rest =>
        have hs : s.step .pickData = some { s with dataQ := rest, up := s.up ++ [f] } := by
          rw [Tunnel.step, hteardown, hq]
        refine ⟨.pickData, _, rfl, hs, h.next hs rfl (h.up.keep rfl rfl rfl rfl) rfl, ?_,
          fun j c hj => ⟨c, hj, hsame c⟩⟩
        simp [hops, hw, hq]
        omega

/-- A task's step, as the tunnel takes it. -/
theorem Live.task {side : Side} {sent : List Frame} {s : Tunnel} (h : s.Live side sent) {k : ℕ}
    {c c' : Chan} {a : ChanAct} {out : Option Frame} (hk : (s.chans side)[k]? = some c)
    (ha : a.onward = true) (hs : c.step side false (s.teardownAt side) a = some (c', out))
    (hout : side = .controller → ∀ f ∈ out, f.ordered = false) :
    ∃ b s', onward side k b = true ∧ s.step b = some s' ∧ s'.Live side sent ∧
      (s'.chans side)[k]? = some c' := by
  have hlt := (List.getElem?_eq_some_iff.mp hk).1
  have hgone : s.goneAt side = false := (h.up side).1
  rw [← hgone] at hs
  cases side with
  | controller =>
    have hroom : s.room out = true := by
      cases out with
      | none => rfl
      | some f => simp [room, hout rfl f rfl]
    have hstep : s.step (.ctlTask k a) = some (s.handOver k c c' out) := by
      rw [chans] at hk
      rw [goneAt, teardownAt] at hs
      simp [Tunnel.step, Tunnel.ctlTask, hk, hs, hroom]
    refine ⟨.ctlTask k a, _, by simp [onward, ha], hstep, h.next hstep (by simp [handOver])
      (h.up.keep rfl rfl rfl rfl) rfl, ?_⟩
    rw [chans, handOver]
    exact List.getElem?_set_self hlt
  | controlled =>
    have hmux : s.mux.step (.task k a) = some { s.mux with
        chans := s.mux.chans.set k c', tx := s.mux.tx ++ out.toList.map (some k, ·) } := by
      rw [chans] at hk
      rw [goneAt, teardownAt] at hs
      simp [Mux.step, hk, hs]
    have hstep := hmux
    generalize hm : ({ s.mux with
      chans := s.mux.chans.set k c', tx := s.mux.tx ++ out.toList.map (some k, ·) } : Mux) =
        m at hstep
    have htunnel : s.step (.muxTask k a) = some { s with
        mux := m, sentDown := s.sentDown ++ added s.mux m, took :=
          tookClose s.mux m k ++ s.took } := by
      rw [Tunnel.step, hstep]
      rfl
    subst hm
    refine ⟨.muxTask k a, _, by simp [onward, ha], htunnel, h.next htunnel rfl
      (h.up.keep rfl rfl rfl rfl) rfl, ?_⟩
    exact List.getElem?_set_self hlt

/-- Every channel of either side belongs to a link. -/
theorem Whole.at (h : s.Whole) (hk : (s.chans side)[k]? = some c) :
    ∃ (j : ℕ) (c₀ : Chan) (p : Bytes), s.ctl[j]? = some c₀ ∧ s.prebufs[j]? = some p ∧ c₀.id = c.id ∧
      ((s.link c₀ p).endOf side).chan = c := by
  have hmem : c.id ∈ s.ctl.map Chan.id := by
    cases side with
    | controller => exact List.mem_map_of_mem (List.mem_of_getElem? hk)
    | controlled => exact h.books.peer_known (List.mem_of_getElem? hk)
  obtain ⟨c₀, hc₀, hid⟩ := List.mem_map.mp hmem
  obtain ⟨j, hj⟩ := List.mem_iff_getElem?.mp hc₀
  have hlt : j < s.prebufs.length := by
    rw [h.books.length]
    exact (List.getElem?_eq_some_iff.mp hj).1
  refine ⟨j, c₀, _, hj, List.getElem?_eq_getElem hlt, hid, ?_⟩
  cases side with
  | controller =>
    rw [chans] at hk
    obtain rfl := index_eq h.books.ids hk hj hid.symm
    exact Option.some.inj (hj.symm.trans hk)
  | controlled =>
    show s.peerChan c₀.id = c
    rw [hid]
    exact peerChan_of_mem h.books (List.mem_of_getElem? hk)

/-- **Every frame under way to a side gets there.** -/
theorem Live.arrive {sent : List Frame} (h : s.Live side sent) (k : ℕ) :
    ∃ as s', (∀ a ∈ as, onward side k a = true) ∧ exec step s as = some s' ∧ s'.Live side sent ∧
      s'.hops side = 0 ∧ ∀ (j : ℕ) (c : Chan), (s.chans side)[j]? = some c →
        ∃ c', (s'.chans side)[j]? = some c' ∧ Chan.SameTask c c' := by
  let P : Tunnel → Prop := fun s' => s'.Live side sent ∧
    ∀ (j : ℕ) (c : Chan), (s.chans side)[j]? = some c →
      ∃ c', (s'.chans side)[j]? = some c' ∧ Chan.SameTask c c'
  have hstep : ∀ s₁, P s₁ → s₁.hops side = 0 ∨ ∃ a s₂, onward side k a = true ∧
      s₁.step a = some s₂ ∧ P s₂ ∧ s₂.hops side < s₁.hops side := by
    rintro s₁ ⟨hlive, htask⟩
    by_cases hhops : s₁.hops side = 0
    · exact .inl hhops
    · obtain ⟨a, s₂, ha, hs, hlive₂, hlt, htask₂⟩ := hlive.hop k hhops
      refine .inr ⟨a, s₂, ha, hs, ⟨hlive₂, ?_⟩, hlt⟩
      intro j c hj
      obtain ⟨c₁, hj₁, h₁, h₂, h₃, h₄, h₅⟩ := htask j c hj
      obtain ⟨c₂, hj₂, h₁', h₂', h₃', h₄', h₅'⟩ := htask₂ j c₁ hj₁
      exact ⟨c₂, hj₂, h₁'.trans h₁, h₂'.trans h₂, h₃'.trans h₃, h₄'.trans h₄, h₅'.trans h₅⟩
  obtain ⟨as, s', has, hexec, ⟨hlive, htask⟩, hdone⟩ :=
    exec_reaches hstep ⟨h, fun j c hj => ⟨c, hj, rfl, rfl, rfl, rfl, rfl⟩⟩
  exact ⟨as, s', has, hexec, hlive, hdone, htask⟩

/-- What a link shows of its tunnel. -/
theorem link_endOf (s : Tunnel) (c : Chan) (p : Bytes) (side : Side) :
    ((s.link c p).endOf side).gone = s.goneAt side ∧
    ((s.link c p).endOf side).teardown = s.teardownAt side ∧
    ((s.link c p).endOf side).sent = ofChan c.id (s.sent side) := by
  cases side <;> exact ⟨rfl, rfl, rfl⟩

/-- What has been sent to a side is what has been handled there and what is under way. -/
theorem Live.handled {sent : List Frame} (h : s.Live side sent) (hhops : s.hops side = 0)
    {c₀ : Chan} {p : Bytes} (hsound : (s.link c₀ p).Sound) :
    ((s.link c₀ p).endOf side.other).handled = ofChan c₀.id sent := by
  have hfifo := (hsound.at side).2.fifo
  rw [← h.sent]
  cases side with
  | controller =>
    have hwire : ofChan c₀.id s.downward = [] := by
      have htx : s.mux.tx = [] ∧ s.down = [] := by simpa [hops] using hhops
      rw [ofChan_downward, htx.1, htx.2, h.whole.books.lostDown (h.up .controlled).1]
      rfl
    have hfifo : ofChan c₀.id s.sentDown = ofChan c₀.id s.handledDown ++ ofChan c₀.id s.downward :=
      hfifo
    rw [hwire, List.append_nil] at hfifo
    exact hfifo.symm
  | controlled =>
    have hwire : ofChan c₀.id s.upward = [] := by
      have hq : s.dataQ = [] ∧ s.up = [] := by simpa [hops] using hhops
      rw [ofChan_upward h.whole.books, hq.1, hq.2, h.whole.books.lostUp (h.up .controller).1]
      rfl
    have hfifo : ofChan c₀.id s.sentUp = ofChan c₀.id s.handledUp ++ ofChan c₀.id s.upward := hfifo
    rw [hwire, List.append_nil] at hfifo
    exact hfifo.symm

/-- A controller whose task has yet to send `open` has heard nothing. -/
theorem Whole.unheard (h : s.Whole) {p : Bytes} (hsound : (s.link c p).Sound)
    (hearly : c.phase.early = true) : ofChan c.id s.sentDown = [] := by
  have hsilent : ofChan c.id s.sentUp = [] := (hsound.ctl.script.silent hearly).1
  have hfifo : ofChan c.id s.sentUp = ofChan c.id s.handledUp ++ ofChan c.id s.upward :=
    hsound.ctl.fifo
  have hnone : ofChan c.id s.handledUp = [] := by
    rw [hsilent] at hfifo
    exact (List.append_eq_nil_iff.mp hfifo.symm).1
  have hpeer : (s.peerChan c.id).phase.early = true := by
    rw [peerChan]
    split
    · rename_i d hd
      have hid : d.id = c.id := by simpa using List.find?_some hd
      have hborn := h.books.born d (List.mem_of_find?_eq_some hd)
      rw [hid] at hborn
      exact absurd hnone hborn
    · rw [if_pos hnone]
      rfl
  exact (hsound.peer.script.silent hpeer).1

/-- Once everything has arrived, a running task that has its socket has the `Close` in its queue. -/
theorem Live.ready {sent : List Frame} (h : s.Live side sent) (hhops : s.hops side = 0)
    (hk : (s.chans side)[k]? = some c) (hclose : .close c.id ∈ sent) (hsocket : c.hasSocket = true)
    (hrunning : c.recv.ended = none) : c.Ready side := by
  obtain ⟨j, c₀, p, hj, hp, hid, hc⟩ := h.whole.at hk
  have hsound := h.whole.sound j c₀ p hj hp
  obtain ⟨hhere, hother⟩ := hsound.at side
  have hmem : .close c.id ∈ ofChan c₀.id sent := by
    rw [hid]
    exact mem_ofChan.mpr ⟨hclose, rfl, rfl⟩
  have hopen : c.inboundClosed = false := by
    cases hph : c.phase <;> simp [Chan.hasSocket, hph] at hsocket <;>
      simp [Chan.inboundClosed, hph, hrunning]
  have hentry : c.entry = false := by
    rw [← hc]
    apply hhere.heard
    rw [h.handled hhops hsound]
    exact ⟨_, hmem, rfl⟩
  have hwhy := hhere.blames.entry
  rw [hc] at hwhy
  refine ⟨?_, hrunning, ?_, ?_⟩
  · have hproper := hhere.script.proper
    rw [hc] at hproper
    cases hph : c.phase with
    | relaying => exact .inl rfl
    | opening host port =>
      cases side with
      | controlled =>
        rw [hph] at hproper
        cases hproper
      | controller =>
        have hc₀ : c₀ = c := hc
        have hnone := h.whole.unheard hsound (by rw [hc₀, hph]; rfl)
        have hsent : s.sentDown = sent := h.sent
        rw [hsent] at hnone
        simp [hnone] at hmem
    | connected | granted =>
      cases side with
      | controlled => simp
      | controller =>
        rw [hph] at hproper
        cases hproper
    | connecting | refusing | closing | reaping | ended => simp [Chan.hasSocket, hph] at hsocket
  · rcases hwhy hentry with hclosed | hin | ht
    · rw [hopen] at hclosed
      cases hclosed
    · exact hin
    · rw [(link_endOf s c₀ p side).2.1, (h.up side).2] at ht
      cases ht
  · have hclean := hother.flow.clean.2
    simp only [End.flow] at hclean
    rw [hc] at hclean
    exact hclean

/-- **A task that is ready gets to its `Close`.** -/
theorem Live.finish {sent : List Frame} (h : s.Live side sent) (hk : (s.chans side)[k]? = some c)
    (hready : c.Ready side) :
    ∃ as s' c', (∀ a ∈ as, onward side k a = true) ∧ exec step s as = some s' ∧ s'.Live side sent ∧
      (s'.chans side)[k]? = some c' ∧ c'.id = c.id ∧ c'.recv.ended = some .peerClosed := by
  let P : Tunnel → Prop := fun s' => s'.Live side sent ∧
    ∃ c', (s'.chans side)[k]? = some c' ∧ c'.id = c.id ∧
      (c'.recv.ended = some .peerClosed ∨ c'.Ready side)
  let Q : Tunnel → Prop := fun s' => ∀ c', (s'.chans side)[k]? = some c' →
    c'.recv.ended = some .peerClosed
  let m : Tunnel → ℕ := fun s' => ((s'.chans side)[k]?.map Chan.work).getD 0
  have hstep : ∀ s₁, P s₁ → Q s₁ ∨ ∃ a s₂, onward side k a = true ∧ s₁.step a = some s₂ ∧ P s₂ ∧
      m s₂ < m s₁ := by
    rintro s₁ ⟨hlive, c₁, hk₁, hid, hend | hready⟩
    · refine .inl ?_
      intro c' hc'
      rw [hk₁] at hc'
      obtain rfl := Option.some.inj hc'
      exact hend
    · obtain ⟨a, c₂, out, ha, hs, hid₂, hout, hnext, hwork⟩ := hready.step (s₁.teardownAt side)
      obtain ⟨b, s₂, hb, hs₂, hlive₂, hk₂⟩ := hlive.task hk₁ ha hs hout
      refine .inr ⟨b, s₂, hb, hs₂, ⟨hlive₂, c₂, hk₂, hid₂.trans hid, hnext⟩, ?_⟩
      simpa [m, hk₁, hk₂] using hwork
  obtain ⟨as, s', has, hexec, ⟨hlive, c', hk', hid, -⟩, hdone⟩ :=
    exec_reaches hstep ⟨h, c, hk, rfl, .inr hready⟩
  exact ⟨as, s', c', has, hexec, hlive, hk', hid, hdone c' hk'⟩

/-- **Once the other end has closed, a task whose socket takes what it is given and does not end
can write all the other end sent**: the frames make their hops and the relay writes what it
finds, with no step of anyone else. -/
theorem Whole.delivers (h : s.Whole) (hn : s.Numbered) (hlen : s.ctl.length ≤ 2 ^ 32) (hup : s.Up)
    (hk : (s.chans side)[k]? = some c) (hsocket : c.hasSocket = true)
    (hquiet : ¬ c.Disturbed (s.goneAt side) (s.teardownAt side))
    (hclose : .close c.id ∈ s.sent side.other) :
    ∃ as s' c', (∀ a ∈ as, onward side k a = true) ∧ exec Tunnel.step s as = some s' ∧
      (s'.chans side)[k]? = some c' ∧ c'.id = c.id ∧
      c'.recv.written = stream (ofChan c.id (s.sent side.other)) := by
  have hlive : s.Live side (s.sent side.other) := ⟨h, hn, hlen, hup, rfl⟩
  have hwritten : ∀ {s' : Tunnel} {c' : Chan}, s'.Live side (s.sent side.other) →
      (s'.chans side)[k]? = some c' → c'.id = c.id → c'.recv.ended = some .peerClosed →
      c'.recv.written = stream (ofChan c.id (s.sent side.other)) := by
    intro s' c' hlive' hk' hid hend
    obtain ⟨j, c₀, p, hj, hp, hid₀, rfl⟩ := hlive'.whole.at hk'
    obtain ⟨hhere, hother⟩ := (hlive'.whole.sound j c₀ p hj hp).at side
    rw [hhere.drained hother hend, (link_endOf s' c₀ p side.other).2.2, hlive'.sent, hid₀, hid]
  obtain ⟨j, c₀, p, hj, hp, -, rfl⟩ := h.at hk
  obtain ⟨hhere, -⟩ := (h.sound j c₀ p hj hp).at side
  obtain ⟨hg, ht, -⟩ := link_endOf s c₀ p side
  cases hend : ((s.link c₀ p).endOf side).chan.recv.ended with
  | some e =>
    rw [← hg, ← ht] at hquiet
    have hclosed := hhere.blames.peerClosed hquiet (by simp [hend])
    exact ⟨[], s, _, nofun, rfl, hk, rfl, hwritten hlive hk rfl hclosed⟩
  | none =>
    obtain ⟨as, s₁, has, hexec, hlive₁, hhops, htask⟩ := hlive.arrive k
    obtain ⟨c₁, hk₁, hid, hphase, -, hrecv, -⟩ := htask k _ hk
    have hready : c₁.Ready side := by
      apply hlive₁.ready hhops hk₁
      · rw [hid]
        exact hclose
      · rw [Chan.hasSocket, hphase]
        exact hsocket
      · rw [hrecv]
        exact hend
    obtain ⟨bs, s₂, c₂, hbs, hexec₂, hlive₂, hk₂, hid₂, hclosed⟩ := hlive₁.finish hk₁ hready
    refine ⟨as ++ bs, s₂, c₂, ?_, exec_append.mpr ⟨s₁, hexec, hexec₂⟩, hk₂, hid₂.trans hid,
      hwritten hlive₂ hk₂ (hid₂.trans hid) hclosed⟩
    intro a ha
    rcases List.mem_append.mp ha with ha | ha
    · exact has a ha
    · exact hbs a ha

/-! ## Whole runs -/

theorem new_whole (loginTarget : String) :
    (new loginTarget).Whole ∧ (new loginTarget).Numbered := by
  refine ⟨⟨⟨?_, ?_, ?_, ?_, ?_, ?_, ?_, fun _ => rfl, fun _ => rfl, rfl⟩, ?_⟩, rfl, ?_⟩ <;>
    simp [new, Mux.new, frames, upward, downward, idOf, wrapI32]

/-- **What holds of a tunnel at all times.** -/
theorem run_whole {loginTarget : String} {as : List Act}
    (hrun : exec step (new loginTarget) as = some s) (hlen : s.ctl.length ≤ 2 ^ 32) :
    s.Whole ∧ s.Numbered := by
  -- channels are only ever added, so a run that stays below the bound stayed below it all along
  refine exec_invariant (I := fun s => s.ctl.length ≤ 2 ^ 32 → s.Whole ∧ s.Numbered) ?_
    (fun _ => new_whole loginTarget) hrun hlen
  intro s a s' ih hs hlen'
  obtain ⟨hwhole, hnumbered⟩ := ih ((length_step hs).trans hlen')
  exact ⟨hwhole.step hnumbered hs hlen', hnumbered.step hs hlen'⟩

/-- **Byte streams through a tunnel.** Whatever the order of steps, every channel of the
controlled side is the other end of one channel of the controller, every channel keeps its
promises in both directions, and once one end has closed the other can write all it was sent,
provided its task has its socket, the socket does not end, and the tunnel stays up. -/
theorem tunnel_streams {loginTarget : String} {as : List Act} {s : Tunnel}
    (hrun : exec step (new loginTarget) as = some s) (hlen : s.ctl.length ≤ 2 ^ 32) :
    ((s.ctl.map Chan.id).Nodup ∧
      ∀ d ∈ s.mux.chans, ∃ c ∈ s.ctl, c.id = d.id ∧ s.peerChan c.id = d) ∧
    (∀ (k : ℕ) (c : Chan) (p : Bytes), s.ctl[k]? = some c → s.prebufs[k]? = some p →
      (s.link c p).Streams) ∧
    (∀ (side : Side) (k : ℕ) (c : Chan), (s.chans side)[k]? = some c → s.Up →
      c.hasSocket = true → ¬ c.Disturbed (s.goneAt side) (s.teardownAt side) →
      .close c.id ∈ s.sent side.other →
      ∃ bs s' c', (∀ b ∈ bs, onward side k b = true) ∧ exec step s bs = some s' ∧
        (s'.chans side)[k]? = some c' ∧ c'.id = c.id ∧
        c'.recv.written = stream (ofChan c.id (s.sent side.other))) := by
  obtain ⟨hwhole, hnumbered⟩ := run_whole hrun hlen
  refine ⟨⟨hwhole.books.ids, ?_⟩, ?_, ?_⟩
  · intro d hd
    obtain ⟨c, hc, hid⟩ := List.mem_map.mp (hwhole.books.peer_known hd)
    refine ⟨c, hc, hid, ?_⟩
    rw [hid]
    exact peerChan_of_mem hwhole.books hd
  · intro k c p hk hp
    exact (hwhole.sound k c p hk hp).streams
  · intro side k c hk hup hsocket hquiet hclose
    exact hwhole.delivers hnumbered hlen hup hk hsocket hquiet hclose

/-- A listener's client that sends one byte and goes: the controller's side of it. -/
def oneByte : List Act :=
  [.ctlTask 0 (.send .take), .ctlTask 0 (.send (.read [7])), .ctlTask 0 (.send .refund),
    .ctlTask 0 (.send .send), .ctlTask 0 (.send .take), .ctlTask 0 (.send (.read [])),
    .ctlTask 0 (.send .refund), .ctlTask 0 .propagate, .ctlTask 0 (.recv .cancel),
      .ctlTask 0 .finish]

/-- The channel is opened, and the byte sent, once the target is there. -/
def afterConnect : List Act :=
  [Act.openChannel "h" 80 [], .ctlTask 0 .announce, .pickData, .muxFrame true,
    .muxTask 0 (.connect true), .muxTask 0 .grant] ++ oneByte

theorem oneByte_arrives : ∃ s, exec step (new "h:80") afterConnect = some s ∧
    (s.ctl.map Chan.id).Nodup ∧ ∃ bs s' c', (∀ b ∈ bs, onward .controlled 0 b = true) ∧
      exec step s bs = some s' ∧ s'.mux.chans[0]? = some c' ∧ c'.recv.written = [7] := by
  have hrun : (exec step (new "h:80") afterConnect).any (fun s => decide (s.ctl.length = 1 ∧
      (s.gone = false ∧ s.teardown = false) ∧ (s.mux.gone = false ∧ s.mux.teardown = false) ∧
      s.sentUp = [.openChannel 1 "h" 80 channelWindow, .data 1 [7], .close 1] ∧
      s.mux.chans[0]?.any fun d =>
        d.id = 1 ∧ d.hasSocket ∧ ¬ d.Disturbed s.mux.gone s.mux.teardown)) =
        true := by
    decide +kernel
  obtain ⟨s, hs, hp⟩ := (Option.any_eq_true _ _).mp hrun
  obtain ⟨hlen, hctl, hmux, hsent, hany⟩ := of_decide_eq_true hp
  obtain ⟨d, hd, hd'⟩ := (Option.any_eq_true _ _).mp hany
  obtain ⟨hid, hsocket, hquiet⟩ := of_decide_eq_true hd'
  have hup : s.Up := by
    intro side
    cases side with
    | controller => exact hctl
    | controlled => exact hmux
  obtain ⟨⟨hnodup, -⟩, -, hprogress⟩ := tunnel_streams hs (by omega)
  have hclose : .close d.id ∈ s.sent Side.controlled.other := by
    rw [hid, show s.sent Side.controlled.other = s.sentUp from rfl, hsent]
    decide
  obtain ⟨bs, s', c', hbs, hexec, hc', -, hwritten⟩ :=
    hprogress .controlled 0 d hd hup hsocket hquiet hclose
  refine ⟨s, hs, hnodup, bs, s', c', hbs, hexec, hc', ?_⟩
  rw [hwritten, hid, show s.sent Side.controlled.other = s.sentUp from rfl, hsent]
  decide

/-- The byte and the `close` come while the controlled side is still waiting for its target. -/
def beforeConnect : List Act :=
  [Act.openChannel "h" 80 [], .ctlTask 0 .announce, .pickData, .muxFrame true] ++ oneByte ++
    [Act.pickData, .muxFrame true, .pickData, .muxFrame true, .muxTask 0 .pull, .muxTask 0 .pull]

/-- A `Close` in the queue wins over a connect that has completed: the task returns, with nothing
written of what the peer sent before it closed. The tunnel is up, and no socket has ended or
failed. -/
theorem unwritten_while_connecting : ∃ s d, exec step (new "h:80") beforeConnect = some s ∧ s.Up ∧
    Frame.close 1 ∈ s.sentUp ∧ stream (ofChan 1 s.sentUp) = [7] ∧ s.mux.chans[0]? = some d ∧
      d.id = 1 ∧
    ¬ d.Disturbed s.mux.gone s.mux.teardown ∧ d.phase = .ended ∧ d.recv.written = [] := by
  have hrun : (exec step (new "h:80") beforeConnect).any (fun s => decide (
      (s.gone = false ∧ s.teardown = false) ∧ (s.mux.gone = false ∧ s.mux.teardown = false) ∧
      Frame.close 1 ∈ s.sentUp ∧ stream (ofChan 1 s.sentUp) = [7] ∧
      s.mux.chans[0]?.any fun d => d.id = 1 ∧ ¬ d.Disturbed s.mux.gone s.mux.teardown ∧
        d.phase = .ended ∧ d.recv.written = [])) = true := by
    decide +kernel
  obtain ⟨s, hs, hp⟩ := (Option.any_eq_true _ _).mp hrun
  obtain ⟨hctl, hmux, hclose, hstream, hany⟩ := of_decide_eq_true hp
  obtain ⟨d, hd, hd'⟩ := (Option.any_eq_true _ _).mp hany
  obtain ⟨hid, hquiet, hphase, hwritten⟩ := of_decide_eq_true hd'
  refine ⟨s, d, hs, ?_, hclose, hstream, hd, hid, hquiet, hphase, hwritten⟩
  intro side
  cases side with
  | controller => exact hctl
  | controlled => exact hmux

end Tunnel
end BgDesk
