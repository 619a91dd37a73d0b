import BgDesk.MuxChannel

/-!
# The bytes and the frames of one end of a channel

What `run_channel` and its wrappers promise about the byte stream of a channel, one end at a
time and whatever the other end does:

* `SendHalf.Carries` — the data frames handed over, what has been read since and what is left
  of `prebuf` are the stream that was to be sent;
* `Chan.Receives` — what has been written, what is being written and what is queued are the
  data that the demultiplexer was handed for the channel;
* `Spoke` and `Chan.Scripted` — in what order an end can have spoken: the frame it announces
  itself with, data, and at most one `close`;
* `Chan.Blames` — why a relay can have ended.
-/

namespace BgDesk

/-! ## Frames -/

namespace Frame

/-- The channel a frame is about. -/
def id : Frame → ℤ
  | .openChannel id _ _ _ | .opened id _ _ _ | .data id _ | .close id | .windowUpdate id _ => id

/-- Sent with `send_ordered`. -/
def ordered : Frame → Bool
  | .windowUpdate _ _ => false
  | _ => true

/-- The last word of an end: `close`, or a refusal. -/
def isLast : Frame → Bool
  | .close _ | .opened _ false _ _ => true
  | _ => false

/-- `opened` with success. -/
def isOpened : Frame → Bool
  | .opened _ true _ _ => true
  | _ => false

/-- The payload of a data frame. -/
def payload? : Frame → Option Bytes
  | .data _ b => some b
  | _ => none

/-- The amount of an update. -/
def add? : Frame → Option ℕ
  | .windowUpdate _ add => some add
  | _ => none

end Frame

/-- The payloads of the data frames. -/
def payloads (fs : List Frame) : List Bytes := fs.filterMap Frame.payload?

/-- The bytes the data frames carry. -/
def stream (fs : List Frame) : Bytes := (payloads fs).flatten

@[simp] theorem payloads_nil : payloads [] = [] := rfl

@[simp] theorem payloads_append (fs gs : List Frame) :
    payloads (fs ++ gs) = payloads fs ++ payloads gs := List.filterMap_append

@[simp] theorem payloads_data (id : ℤ) (b : Bytes) : payloads [.data id b] = [b] := rfl

variable {f : Frame}

theorem payloads_eq_nil (h : f.payload? = none) : payloads [f] = [] := by
  simp [payloads, h]

@[simp] theorem stream_nil : stream [] = [] := rfl

@[simp] theorem stream_append (fs gs : List Frame) :
    stream (fs ++ gs) = stream fs ++ stream gs := by
  simp [stream]

@[simp] theorem stream_data (id : ℤ) (b : Bytes) : stream [.data id b] = b := by simp [stream]

theorem stream_eq_nil (h : f.payload? = none) : stream [f] = [] := by
  simp [stream, payloads_eq_nil h]

/-- An element of a list with one more at its end stands at the end or in the list. -/
theorem eq_nil_or_mem_of_append {α : Type} {l xs ys : List α} {z g : α}
    (h : l ++ [z] = xs ++ g :: ys) : ys = [] ∨ g ∈ l := by
  rcases ys.eq_nil_or_concat with rfl | ⟨zs, y, rfl⟩
  · exact .inl rfl
  · have h' : l ++ [z] = (xs ++ g :: zs) ++ [y] := by simpa using h
    obtain ⟨rfl, -⟩ := List.append_inj' h' rfl
    exact .inr (by simp)

/-! ## What the sending relay carries -/

namespace SendHalf

/-- The payloads handed over are the head of `prebuf` and the bytes read; while the loop
runs, what it has in hand and what is left of `prebuf` make up the rest. -/
structure Carries (prebuf : Bytes) (sent : List Bytes) (h : SendHalf) : Prop where
  part : sent.flatten <+: prebuf ++ h.source
  whole : h.ended = none → sent.flatten ++ h.unsent ++ h.prebuf = prebuf ++ h.source

theorem carries_new (prebuf : Bytes) : Carries prebuf [] (new prebuf) := by
  constructor
  · exact List.nil_prefix
  · intro _
    simp [new, unsent]

/-- **The sending relay hands over what it reads, in order.** -/
theorem Stepped.carries {c c' : SendCredit} {h h' : SendHalf} {out : Option Bytes}
    (hs : Stepped c h h' c' out) {prebuf : Bytes} {sent : List Bytes} (hc : Carries prebuf sent h) :
    Carries prebuf (sent ++ out.toList) h' := by
  -- a relay that is done has nothing more to account for
  have hdone : ∀ e : RelayEnd, Carries prebuf (sent ++ []) { h with pc := .done e } := by
    intro e
    rw [List.append_nil]
    exact ⟨hc.part, fun hend => by simp [ended] at hend⟩
  have hw : (∀ e, h.pc ≠ .done e) → sent.flatten ++ h.unsent ++ h.prebuf = prebuf ++ h.source := by
    intro hpc
    apply hc.whole
    unfold ended
    split
    · rename_i e he
      exact absurd he (hpc e)
    · rfl
  cases hs with
  | eof | dropped | sinkGone | cancelTake => exact hdone _
  | took hpc hc' | cancelRead hpc | refunded hpc hgot =>
    refine ⟨by simpa using hc.part, fun _ => ?_⟩
    simpa [unsent, hpc] using hw (by simp [hpc])
  | @readSocket allow got hpc hpre hlen =>
    have hsum := hw (by simp [hpc])
    simp only [unsent, hpc, hpre, List.append_nil] at hsum
    constructor
    · rw [Option.toList_none, List.append_nil, ← List.append_assoc]
      exact hc.part.trans (List.prefix_append _ _)
    · intro _
      simp [unsent, hpre, hsum]
  | readPrebuf hpc hpre =>
    have hsum := hw (by simp [hpc])
    simp only [unsent, hpc, List.append_nil] at hsum
    refine ⟨by simpa using hc.part, fun _ => ?_⟩
    simp [unsent, hsum]
  | @sent got hpc =>
    have hsum := hw (by simp [hpc])
    simp only [unsent, hpc] at hsum
    have hflat : (sent ++ [got]).flatten = sent.flatten ++ got := by simp
    refine ⟨?_, fun _ => ?_⟩
    · rw [Option.toList_some, hflat, ← hsum]
      exact List.prefix_append _ _
    · rw [Option.toList_some, hflat, ← hsum]
      simp [unsent]

end SendHalf

namespace Chan

/-! ## What the receiving relay writes -/

/-- What of the peer's stream has been written, is being written or waits to be. -/
def content (c : Chan) : Bytes :=
  c.recv.written ++ c.recv.unwritten ++ c.recv.pending.flatten ++ (Inbound.chunks c.inbound).flatten

/-- What a channel makes of the frames it has been handed. -/
structure Receives (c : Chan) (got : List Frame) : Prop where
  part : c.recv.written <+: stream got
  held : c.inboundClosed = false → c.content <+: stream got
  /-- nothing is lost as long as the map holds the channel, or once `Close` is queued -/
  whole : c.inboundClosed = false → (c.entry = true ∨ Inbound.close ∈ c.inbound) →
    c.content = stream got
  /-- a relay that took `Close` has written everything -/
  taken : c.recv.ended = some .peerClosed → c.recv.written = stream got
  closed : (Inbound.close ∈ c.inbound ∨ c.recv.ended = some .peerClosed) →
    c.entry = false ∧ ∃ f ∈ got, f.isLast = true
  /-- nothing is queued behind `Close` -/
  last : ∀ xs ys, c.inbound = xs ++ Inbound.close :: ys → ys = []

variable {c c' : Chan} {got : List Frame} {w : RecvWindow} {inbound : List Inbound}

/-- The demultiplexer's part of a step: neither relay nor phase moves, and the queue stays. -/
theorem Receives.keep (h : c.Receives got) (hrecv : c'.recv = c.recv) (hin : c'.inbound = c.inbound)
    (hclosed : c'.inboundClosed = false → c.inboundClosed = false)
    (hentry : c'.entry = true → c.entry = true) : c'.Receives got := by
  have hcontent : c'.content = c.content := by rw [content, hrecv, hin, content]
  refine ⟨?_, ?_, ?_, ?_, ?_, ?_⟩
  · rw [hrecv]
    exact h.part
  · intro ho
    rw [hcontent]
    exact h.held (hclosed ho)
  · intro ho hwhy
    rw [hcontent]
    rw [hin] at hwhy
    exact h.whole (hclosed ho) (hwhy.imp_left hentry)
  · rw [hrecv]
    exact h.taken
  · intro hwhy
    rw [hrecv, hin] at hwhy
    obtain ⟨he, hlast⟩ := h.closed hwhy
    refine ⟨?_, hlast⟩
    cases he' : c'.entry with
    | false => rfl
    | true =>
      rw [hentry he'] at he
      cases he
  · rw [hin]
    exact h.last

/-- A task that goes away writes nothing more. -/
theorem Receives.leave (h : c.Receives got) (hrecv : c'.recv = c.recv)
    (hsub : ∃ pre, c.inbound = pre ++ c'.inbound) (hentry : c'.entry = c.entry)
    (hclosed : c'.inboundClosed = true) : c'.Receives got := by
  obtain ⟨pre, hpre⟩ := hsub
  have hno : c'.inboundClosed ≠ false := by simp [hclosed]
  refine ⟨?_, fun ho => absurd ho hno, fun ho => absurd ho hno, ?_, ?_, ?_⟩
  · rw [hrecv]
    exact h.part
  · rw [hrecv]
    exact h.taken
  · intro hwhy
    rw [hentry]
    apply h.closed
    rw [hrecv] at hwhy
    refine hwhy.imp_left fun hmem => ?_
    rw [hpre]
    exact List.mem_append_right _ hmem
  · intro xs ys heq
    apply h.last (pre ++ xs) ys
    rw [hpre, heq, List.append_assoc]

/-- A task that is over, its entry with it. -/
theorem Receives.quit (h : c.Receives got) :
    ({ c with phase := .ended, entry := false } : Chan).Receives got := by
  have hdropped : c.drop.Receives got := h.keep rfl rfl (fun ho => ho) fun he => by cases he
  exact hdropped.leave rfl ⟨[], rfl⟩ rfl (by simp [inboundClosed])

/-- A step of the relay that only moves bytes along. -/
theorem Receives.move (h : c.Receives got) (hopen : c.inboundClosed = false) {r : RecvHalf}
    (hend : r.ended = none) (hsub : ∃ pre, c.inbound = pre ++ inbound)
    (hcontent : r.written ++ r.unwritten ++ r.pending.flatten ++ (Inbound.chunks inbound).flatten =
      c.content) : ({ c with recv := r, window := w, inbound := inbound } : Chan).Receives got := by
  obtain ⟨pre, hpre⟩ := hsub
  have hback : Inbound.close ∈ inbound → Inbound.close ∈ c.inbound := by
    intro hmem
    rw [hpre]
    exact List.mem_append_right _ hmem
  have hheld := h.held hopen
  refine ⟨?_, ?_, ?_, ?_, ?_, ?_⟩
  · rw [← hcontent, List.append_assoc, List.append_assoc] at hheld
    exact (List.prefix_append _ _).trans hheld
  · intro _
    rw [content, hcontent]
    exact hheld
  · intro _ hwhy
    rw [content, hcontent]
    exact h.whole hopen (hwhy.imp_right hback)
  · simp [hend]
  · rintro (hmem | hmem)
    · exact h.closed (.inl (hback hmem))
    · simp [hend] at hmem
  · intro xs ys heq
    apply h.last (pre ++ xs) ys
    rw [hpre, List.append_assoc]
    exact congrArg (pre ++ ·) heq

/-- The relay ends for a reason of its own. -/
theorem Receives.stop (h : c.Receives got) {e : RelayEnd} (he : e ≠ .peerClosed)
    (hsub : ∃ pre, c.inbound = pre ++ inbound) :
    ({ c with recv := { c.recv with pc := .done e }, window := w, inbound := inbound } :
      Chan).Receives got := by
  obtain ⟨pre, hpre⟩ := hsub
  have hend : ∀ r : RecvHalf, ({ r with pc := .done e } : RecvHalf).ended = some e := fun _ => rfl
  refine ⟨h.part, ?_, ?_, ?_, ?_, ?_⟩
  · simp [inboundClosed, hend]
  · simp [inboundClosed, hend]
  · simp [hend, he]
  · rintro (hmem | hmem)
    · apply h.closed
      rw [hpre]
      exact .inl (List.mem_append_right _ hmem)
    · simp [hend, he] at hmem
  · intro xs ys heq
    apply h.last (pre ++ xs) ys
    rw [hpre, List.append_assoc]
    exact congrArg (pre ++ ·) heq

/-- **The receiving relay writes what it was handed, in order.** -/
theorem Receives.recvStep (h : c.Receives got) (hp : c.phase = .relaying) {r : RecvHalf}
    {upd : Option ℕ} (hs : RecvHalf.Stepped c.entry c.window c.inbound c.recv r w inbound upd) :
    ({ c with recv := r, window := w, inbound := inbound } : Chan).Receives got := by
  have hopen : c.inboundClosed = false := by simp [inboundClosed, hp, hs.running]
  cases hs with
  | popped hpc hpend =>
    refine h.move hopen rfl ⟨[], rfl⟩ ?_
    simp [content, RecvHalf.unwritten, hpc, hpend]
  | @received chunk rest hpc hpend hin =>
    refine h.move hopen rfl ⟨[.data chunk], hin⟩ ?_
    simp [content, RecvHalf.unwritten, hpc, hpend, hin, Inbound.chunks]
  | peerClosed hpc hpend hin =>
    have hmem : Inbound.close ∈ c.inbound := by simp [hin]
    have hrest : inbound = [] := h.last [] inbound hin
    have hall := h.whole hopen (.inr hmem)
    have hwritten : c.recv.written = stream got := by
      rw [← hall]
      simp [content, RecvHalf.unwritten, hpc, hpend, hin, hrest, Inbound.chunks]
    refine ⟨h.part, ?_, ?_, fun _ => hwritten, fun _ => h.closed (.inl hmem), ?_⟩
    · simp [inboundClosed, RecvHalf.ended]
    · simp [inboundClosed, RecvHalf.ended]
    · intro xs ys heq
      rw [hrest] at heq
      simp at heq
  | violation hpc hpend hin => exact h.stop (by decide) ⟨[.violation], hin⟩
  | queueGone hpc hpend hin he => exact h.stop (by decide) ⟨[], hin⟩
  | @wrote chunk rest n hpc hn hle | finished hpc hd | updated hpc hd =>
    refine h.move hopen rfl ⟨[], rfl⟩ ?_
    simp [content, RecvHalf.unwritten, hpc]
  | failed hpc => exact h.stop (by decide) ⟨[], rfl⟩
  | sinkGone hpc hd => exact h.stop (by decide) ⟨[], rfl⟩
  | cancelFetch hpc hpend => exact h.stop (by decide) ⟨[], rfl⟩
  | cancelWrite hpc => exact h.stop (by decide) ⟨[], rfl⟩

/-- **A step of the task keeps the stream**, unless the peer overran. -/
theorem Stepped.receives {side : Side} {gone teardown : Bool} {out : Option Frame}
    (hs : Stepped side gone teardown c c' out) (hover : c'.phase ≠ .closing) (h : c.Receives got)
    (hidle : ∀ n, c.phase = .connecting n → c.recv.ended = none) : c'.Receives got := by
  have hleave : ∀ {p : Phase} {inbound : List Inbound}, p = .ended ∨ p = .reaping →
      (∃ pre, c.inbound = pre ++ inbound) →
      ({ c with inbound := inbound, phase := p } : Chan).Receives got := by
    intro p inbound hp hsub
    exact h.leave rfl hsub rfl (by rcases hp with rfl | rfl <;> simp [inboundClosed])
  have hkeep : ∀ {p : Phase}, p ≠ .ended ∧ p ≠ .reaping → (c.phase ≠ .ended ∧ c.phase ≠ .reaping) →
      ∀ w : RecvWindow, ({ c with window := w, phase := p } : Chan).Receives got := by
    intro p hp hc w
    exact h.keep rfl rfl (by simp [inboundClosed, hp, hc]) fun he => he
  cases hs with
  | announced hp | opened hp => exact hkeep (by simp) (by simp [hp]) c.window
  | announceGone hp => exact hleave (.inr rfl) ⟨[], rfl⟩
  | @pulled n b rest hp hin hfits =>
    have hend := hidle n hp
    have hopen : c.inboundClosed = false := by simp [inboundClosed, hp, hend]
    have hmove : ({ c with
        recv := { c.recv with pending := c.recv.pending ++ [b] }, window := c.window,
        inbound := rest } : Chan).Receives got := by
      refine h.move hopen hend ⟨[.data b], hin⟩ ?_
      simp [content, RecvHalf.unwritten, hin, Inbound.chunks]
    exact hmove.keep rfl rfl (fun _ => hopen) fun he => he
  | pullOver hp hin | pullViolation hp hin => exact absurd rfl hover
  | pullClose hp hin => exact hleave (.inl rfl) ⟨[.close], hin⟩
  | pullGone hp hin he | openedGone hp => exact hleave (.inl rfl) ⟨[], rfl⟩
  | connected hp | connectFailed hp => exact hkeep (by simp) (by simp [hp]) c.window
  | granted hp => exact hkeep (by simp) (by simp [hp]) _
  | refused hp | closed hp => exact hleave (.inl rfl) ⟨[], rfl⟩
  | send hp hs => exact h.keep rfl rfl (fun ho => ho) fun he => he
  | recv hp hs => exact h.recvStep hp (RecvHalf.step_stepped hs)
  | propagated hp => exact h.keep rfl rfl (fun ho => ho) fun he => he
  | finished hp =>
    refine hleave ?_ ⟨[], rfl⟩
    cases side <;> simp [Side.afterRelay]

/-- `on_frame` for a channel the map holds. -/
def hear (c : Chan) : Frame → Chan
  | .opened _ true _ window => c.raise window
  | .opened _ false _ _ => c.close
  | .data _ b => c.data b
  | .close _ => c.close
  | .windowUpdate _ add => c.windowUpdate add
  | .openChannel _ _ _ _ => c

/-- More is handed over that this channel does not see. -/
theorem Receives.miss (h : c.Receives got) (hnot : ∀ g ∈ got, g.isLast = false)
    (hentry : c.entry = false) (f : Frame) : c.Receives (got ++ [f]) := by
  -- `Close` cannot have been queued, or the frame would not follow
  have hclose : ¬ (Inbound.close ∈ c.inbound ∨ c.recv.ended = some .peerClosed) := by
    intro hwhy
    obtain ⟨-, g, hg, hlast⟩ := h.closed hwhy
    rw [hnot g hg] at hlast
    cases hlast
  have hpre : stream got <+: stream (got ++ [f]) := by
    rw [stream_append]
    exact List.prefix_append _ _
  refine ⟨h.part.trans hpre, fun ho => (h.held ho).trans hpre, ?_, ?_, ?_, h.last⟩
  · rintro ho (he | hmem)
    · rw [hentry] at he
      cases he
    · exact absurd (.inl hmem) hclose
  · intro hend
    exact absurd (.inr hend) hclose
  · intro hwhy
    exact absurd hwhy hclose

/-- A frame that carries no data changes no stream. -/
theorem Receives.skip (h : c.Receives got) {f : Frame} (hf : f.payload? = none) :
    c.Receives (got ++ [f]) := by
  have heq : stream (got ++ [f]) = stream got := by
    rw [stream_append, stream_eq_nil hf, List.append_nil]
  refine ⟨?_, ?_, ?_, ?_, ?_, h.last⟩
  · rw [heq]
    exact h.part
  · rw [heq]
    exact h.held
  · rw [heq]
    exact h.whole
  · rw [heq]
    exact h.taken
  · intro hwhy
    obtain ⟨he, g, hg, hlast⟩ := h.closed hwhy
    exact ⟨he, g, List.mem_append_left _ hg, hlast⟩

/-- Data is queued behind the data before it. -/
theorem Receives.data (h : c.Receives got) (hentry : c.entry = true) {b : Bytes}
    (hfit : charge b.length ≤ c.window.remaining) (hnot : ∀ g ∈ got, g.isLast = false) (i : ℤ) :
    (c.data b).Receives (got ++ [.data i b]) := by
  have hnoclose : .close ∉ c.inbound := by
    intro hmem
    obtain ⟨he, -⟩ := h.closed (.inl hmem)
    rw [hentry] at he
    cases he
  rw [Chan.data, RecvWindow.accept_true hfit]
  dsimp only
  split_ifs with hclosed
  · -- nobody reads the queue any more: the data is lost and the entry goes
    have hgone : ({ c with
        window := ⟨c.window.remaining - charge b.length, c.window.drainedSinceUpdate⟩,
        entry := false } : Chan).Receives got :=
      h.keep rfl rfl (fun ho => ho) (fun he => by cases he)
    exact hgone.miss hnot rfl _
  · have hopen : c.inboundClosed = false := by simpa using hclosed
    have hall := h.whole hopen (.inl hentry)
    have hnew : c.recv.written ++ c.recv.unwritten ++ c.recv.pending.flatten ++
        (Inbound.chunks (c.inbound ++ [Inbound.data b])).flatten = stream (got ++ [.data i b]) := by
      rw [stream_append, stream_data, ← hall, content]
      simp [Inbound.chunks]
    refine ⟨?_, ?_, ?_, ?_, ?_, ?_⟩
    · rw [stream_append]
      exact h.part.trans (List.prefix_append _ _)
    · intro _
      rw [content]
      exact hnew ▸ List.prefix_rfl
    · intro _ _
      exact hnew
    · intro hend
      rw [inboundClosed] at hopen
      simp [hend] at hopen
    · rintro (hmem | hend)
      · simp [hnoclose] at hmem
      · simp [inboundClosed, hend] at hopen
    · intro xs ys heq
      have hmem : Inbound.close ∈ c.inbound ++ [Inbound.data b] := by
        rw [show c.inbound ++ [Inbound.data b] = xs ++ Inbound.close :: ys from heq]
        simp
      simp [hnoclose] at hmem

/-- `Close` is queued behind the data. -/
theorem Receives.close (h : c.Receives got) (hentry : c.entry = true) {f : Frame}
    (hf : f.payload? = none) (hlast : f.isLast = true) : c.close.Receives (got ++ [f]) := by
  have hnoclose : .close ∉ c.inbound := by
    intro hmem
    obtain ⟨he, -⟩ := h.closed (.inl hmem)
    rw [hentry] at he
    cases he
  have hskip := h.skip hf
  have hdone : ∃ g ∈ got ++ [f], g.isLast = true := ⟨f, by simp, hlast⟩
  rw [Chan.close]
  split_ifs with hclosed
  · exact hskip.keep rfl rfl (fun ho => ho) (fun he => by cases he)
  · have hopen : c.inboundClosed = false := by simpa using hclosed
    have hcontent : ({ c with entry := false, inbound := c.inbound ++ [.close] } : Chan).content =
        c.content := by
      simp [content, Inbound.chunks]
    refine ⟨hskip.part, ?_, ?_, hskip.taken, fun _ => ⟨rfl, hdone⟩, ?_⟩
    · intro _
      rw [hcontent]
      exact hskip.held hopen
    · intro _ _
      rw [hcontent]
      exact hskip.whole hopen (.inl hentry)
    · intro xs ys heq
      exact (eq_nil_or_mem_of_append heq).resolve_right hnoclose

/-- **What the demultiplexer hands on keeps the stream.** -/
theorem Receives.hear {c : Chan} {got : List Frame} (h : c.Receives got) {f : Frame}
    (hfit : ∀ i b, f = .data i b → charge b.length ≤ c.window.remaining)
    (hnot : ∀ g ∈ got, g.isLast = false) :
    (if c.entry then c.hear f else c).Receives (got ++ [f]) := by
  split_ifs with hentry
  · cases f with
    | openChannel => exact h.skip rfl
    | opened i ok m w =>
      cases ok with
      | true =>
        have hskip := h.skip (f := .opened i true m w) rfl
        rw [Chan.hear, raise]
        split_ifs
        · exact hskip
        · exact hskip.keep rfl rfl (fun ho => ho) fun he => he
      | false => exact h.close hentry rfl rfl
    | data i b => exact h.data hentry (hfit i b rfl) hnot i
    | close i => exact h.close hentry rfl rfl
    | windowUpdate i add =>
      exact (h.skip (f := .windowUpdate i add) rfl).keep rfl rfl (fun ho => ho) fun he => he
  · exact h.miss hnot (by simpa using hentry) f

end Chan

/-! ## What an end says -/

/-- The frame a side announces a channel with. -/
def Side.hello (side : Side) (id : ℤ) (f : Frame) : Prop :=
  match side with
  | .controller => ∃ host port, f = .openChannel id host port channelWindow
  | .controlled => f = .opened id true "" channelWindow

/-- What one end of a channel can have said, in order. -/
inductive Spoke (side : Side) (id : ℤ) : List Frame → Prop where
  | nothing : Spoke side id []
  | refused (hside : side = .controlled) (message : String) (window : ℕ) :
    Spoke side id [Frame.opened id false message window]
  | talking {f : Frame} (hf : side.hello id f) (bs : List Bytes) :
    Spoke side id (f :: bs.map (.data id))
  | closed {f : Frame} (hf : side.hello id f) (bs : List Bytes) :
    Spoke side id (f :: bs.map (.data id) ++ [Frame.close id])

theorem Side.hello.payload {side : Side} {id : ℤ} (h : side.hello id f) :
    f.payload? = none ∧ f.isLast = false ∧ f.ordered = true ∧ f.id = id := by
  cases side with
  | controller =>
    obtain ⟨host, port, rfl⟩ := h
    exact ⟨rfl, rfl, rfl, rfl⟩
  | controlled =>
    obtain rfl := h
    exact ⟨rfl, rfl, rfl, rfl⟩

namespace Spoke

variable {side : Side} {id : ℤ} {sent : List Frame}

variable {f g : Frame} {xs ys : List Frame}

/-- A word from the middle is the announcement or data. -/
theorem mem_talk {bs : List Bytes} (hg : g ∈ f :: bs.map (.data id)) :
    g = f ∨ ∃ b ∈ bs, g = .data id b := by
  rcases List.mem_cons.mp hg with rfl | hg
  · exact .inl rfl
  · obtain ⟨b, hb, rfl⟩ := List.mem_map.mp hg
    exact .inr ⟨b, hb, rfl⟩

/-- **The last word is the last**: nothing follows `close` or a refusal. -/
theorem last (h : Spoke side id sent) (heq : sent = xs ++ g :: ys) (hg : g.isLast = true) :
    ys = [] := by
  have htalk : ∀ {f : Frame} {bs : List Bytes}, side.hello id f → g ∉ f :: bs.map (.data id) := by
    intro f bs hf hmem
    rcases mem_talk hmem with rfl | ⟨b, -, rfl⟩
    · rw [hf.payload.2.1] at hg
      cases hg
    · cases hg
  cases h with
  | nothing => simp at heq
  | refused hside m w => exact (eq_nil_or_mem_of_append (l := []) heq).resolve_right (by simp)
  | @talking f hf bs =>
    have hmem : g ∈ f :: bs.map (.data id) := by simp [heq]
    exact absurd hmem (htalk hf)
  | closed hf bs => exact (eq_nil_or_mem_of_append heq).resolve_right (htalk hf)

/-- The announcement comes before any data. -/
theorem hello_before (h : Spoke side id sent) {i : ℤ} {b : Bytes}
    (heq : sent = xs ++ Frame.data i b :: ys) : ∃ f ∈ xs, side.hello id f := by
  have hhead : ∀ {f : Frame} {rest : List Frame}, side.hello id f →
      f :: rest = xs ++ Frame.data i b :: ys → ∃ f ∈ xs, side.hello id f := by
    intro f rest hf heq
    cases xs with
    | nil =>
      obtain ⟨rfl, -⟩ := List.cons.inj heq
      have := hf.payload.1
      cases this
    | cons x xs =>
      obtain ⟨rfl, -⟩ := List.cons.inj heq
      exact ⟨f, List.mem_cons_self, hf⟩
  cases h with
  | nothing => simp at heq
  | refused hside m w =>
    cases xs with
    | nil => cases heq
    | cons x xs => simp at heq
  | talking hf bs => exact hhead hf heq
  | closed hf bs => exact hhead hf heq

/-- After the first word an end only sends data and its last word. -/
theorem tail (h : Spoke side id sent) {rest : List Frame} (heq : sent = f :: rest) (hg : g ∈ rest) :
    (∃ b, g = .data id b) ∨ g = .close id := by
  cases h with
  | nothing => cases heq
  | refused hside m w =>
    obtain ⟨-, rfl⟩ := List.cons.inj heq
    cases hg
  | talking hf bs =>
    obtain ⟨-, rfl⟩ := List.cons.inj heq
    obtain ⟨b, -, rfl⟩ := List.mem_map.mp hg
    exact .inl ⟨b, rfl⟩
  | closed hf bs =>
    obtain ⟨-, rfl⟩ := List.cons.inj heq
    rcases List.mem_append.mp hg with hg | hg
    · obtain ⟨b, -, rfl⟩ := List.mem_map.mp hg
      exact .inl ⟨b, rfl⟩
    · exact .inr (List.mem_singleton.mp hg)

/-- The first word of an end. -/
theorem first (h : Spoke side id sent) {rest : List Frame} (heq : sent = f :: rest) :
    side.hello id f ∨ (side = .controlled ∧ rest = [] ∧ ∃ m w, f = .opened id false m w) := by
  cases h with
  | nothing => cases heq
  | refused hside m w =>
    obtain ⟨rfl, rfl⟩ := List.cons.inj heq
    exact .inr ⟨hside, rfl, m, w, rfl⟩
  | talking hf bs =>
    obtain ⟨rfl, -⟩ := List.cons.inj heq
    exact .inl hf
  | closed hf bs =>
    obtain ⟨rfl, -⟩ := List.cons.inj heq
    exact .inl hf

/-- Everything an end says goes down the ordered queue, under its own number. -/
theorem mem (h : Spoke side id sent) (hg : g ∈ sent) : g.ordered = true ∧ g.id = id := by
  cases hsent : sent with
  | nil =>
    rw [hsent] at hg
    cases hg
  | cons f rest =>
    rw [hsent] at hg
    rcases List.mem_cons.mp hg with rfl | hg
    · rcases h.first hsent with hf | ⟨-, -, m, w, rfl⟩
      · exact hf.payload.2.2
      · exact ⟨rfl, rfl⟩
    · rcases h.tail hsent hg with ⟨b, rfl⟩ | rfl
      · exact ⟨rfl, rfl⟩
      · exact ⟨rfl, rfl⟩

/-- `opened` is said first, and by the controlled side. -/
theorem opened_first (h : Spoke side id sent) (heq : sent = xs ++ g :: ys)
    (hg : g.isOpened = true) : xs = [] ∧ side = .controlled ∧ g = .opened id true "" channelWindow ∧
      ys.any Frame.isOpened = false := by
  have hbody : ∀ {f : Frame} {rest : List Frame}, sent = f :: rest → ∀ x ∈ rest,
      x.isOpened = false := by
    intro f rest hsent x hx
    rcases h.tail hsent hx with ⟨b, rfl⟩ | rfl <;> rfl
  cases xs with
  | cons x xs =>
    have := hbody heq g (by simp)
    rw [hg] at this
    cases this
  | nil =>
    have hrest : ys.any Frame.isOpened = false := by
      simpa using hbody heq
    rcases h.first heq with hf | ⟨-, -, m, w, rfl⟩
    · cases side with
      | controller =>
        obtain ⟨host, port, rfl⟩ := hf
        cases hg
      | controlled => exact ⟨rfl, rfl, hf, hrest⟩
    · cases hg

end Spoke

namespace Phase

/-- The relays have not started. -/
def early : Phase → Bool
  | .opening _ _ | .connecting _ | .connected | .granted | .refusing => true
  | .closing | .relaying | .reaping | .ended => false

/-- The relays have come to their end, or never started. -/
def late : Phase → Bool
  | .reaping | .ended => true
  | _ => false

/-- The phases a side goes through as long as the peer keeps to its window. -/
def proper : Side → Phase → Bool
  | .controller, .opening _ _ | .controller, .reaping => true
  | .controlled, .connecting _ | .controlled, .connected => true
  | .controlled, .granted | .controlled, .refusing => true
  | _, .relaying | _, .ended => true
  | _, _ => false

end Phase

namespace Chan

/-- What an end has said fits where its task stands. -/
structure Scripted (side : Side) (c : Chan) (sent : List Frame) : Prop where
  proper : c.phase.proper side = true
  spoke : Spoke side c.id sent
  silent : c.phase.early = true → sent = [] ∧ c.send.ended = none ∧ c.recv.ended = none
  talking : c.phase = .relaying → ∃ (f : Frame) (bs : List Bytes),
    side.hello c.id f ∧ sent = f :: bs.map (.data c.id)
  /-- `close` is said for a local reason, never in answer to the peer's -/
  closed : .close c.id ∈ sent → c.phase.late = true ∧
    ∃ e₁ e₂, c.send.ended = some e₁ ∧ c.recv.ended = some e₂ ∧ closes e₁ e₂ = true

variable {side : Side} {c c' : Chan} {sent : List Frame} {gone teardown : Bool} {out : Option Frame}

/-- A task that ends without a word. -/
theorem Scripted.leave (h : Scripted side c sent) {p : Phase} (hp : p.proper side = true)
    (hlate : p.late = true) {inbound : List Inbound} (hnow : c.phase.late = false) :
    Scripted side { c with inbound := inbound, phase := p } sent := by
  refine ⟨hp, h.spoke, ?_, ?_, ?_⟩
  · intro he
    cases p <;> cases he <;> cases hlate
  · intro hr
    subst hr
    cases hlate
  · intro hmem
    obtain ⟨hl, -⟩ := h.closed hmem
    rw [hnow] at hl
    cases hl

/-- A task that goes on before it has said anything. -/
theorem Scripted.wait (h : Scripted side c sent) (hc : c.phase.early = true)
    (hsend : c'.send = c.send) (hrecv : c'.recv.ended = c.recv.ended)
    (hp : c'.phase.proper side = true) (he : c'.phase.early = true) : Scripted side c' sent := by
  obtain ⟨rfl, h₁, h₂⟩ := h.silent hc
  refine ⟨hp, .nothing, fun _ => ⟨rfl, by rw [hsend, h₁], by rw [hrecv, h₂]⟩, ?_, ?_⟩
  · intro hr
    rw [hr] at he
    cases he
  · intro hmem
    cases hmem

/-- A controlled channel that is not open yet goes on. -/
theorem Scripted.pend (h : Scripted side c sent)
    (hp : (∃ n, c.phase = .connecting n) ∨ c.phase = .connected) (hsend : c'.send = c.send)
    (hrecv : c'.recv.ended = c.recv.ended) (he : c'.phase.early = true)
    (hpr : c'.phase.proper .controlled = true) : Scripted side c' sent := by
  have hproper := h.proper
  have hside : side = .controlled := by
    cases side with
    | controller => rcases hp with ⟨n, hp⟩ | hp <;> rw [hp] at hproper <;> cases hproper
    | controlled => rfl
  subst hside
  exact h.wait (by rcases hp with ⟨n, hp⟩ | hp <;> rw [hp] <;> rfl) hsend hrecv hpr he

/-- A first word from a task that has said nothing. -/
theorem Scripted.greet (h : Scripted side c sent) {f : Frame} (he : c.phase.early = true)
    (hf : side.hello c.id f) : Scripted side { c with phase := .relaying } (sent ++ [f]) := by
  obtain ⟨rfl, -, -⟩ := h.silent he
  refine ⟨by cases side <;> rfl, .talking hf [], nofun, fun _ => ⟨f, [], hf, rfl⟩, ?_⟩
  intro hmem
  have := hf.payload.2.1
  rw [← List.mem_singleton.mp hmem] at this
  cases this

/-- The relay sends what it read, or nothing. -/
theorem Scripted.send (h : Scripted side c sent) (hp : c.phase = .relaying) (h' : SendHalf)
    (credit' : SendCredit) (out : Option Bytes) :
    Scripted side { c with send := h', credit := credit' }
      (sent ++ (out.map (Frame.data c.id)).toList.filter Frame.ordered) := by
  obtain ⟨f, bs, hf, rfl⟩ := h.talking hp
  have hno : Frame.close c.id ∉ f :: bs.map (.data c.id) := by
    intro hmem
    have := (h.closed hmem).1
    rw [hp] at this
    cases this
  cases out with
  | none =>
    rw [Option.map_none, Option.toList_none, List.filter_nil, List.append_nil]
    refine ⟨h.proper, .talking hf bs, ?_, fun _ => ⟨f, bs, hf, rfl⟩, fun hmem => absurd hmem hno⟩
    intro he
    rw [hp] at he
    cases he
  | some b =>
    have heq : (f :: bs.map (.data c.id)) ++ [Frame.data c.id b] =
        f :: (bs ++ [b]).map (Frame.data c.id) := by simp
    show Scripted side _ ((f :: bs.map (.data c.id)) ++ [Frame.data c.id b])
    rw [heq]
    refine ⟨h.proper, .talking hf _, ?_, fun _ => ⟨f, _, hf, rfl⟩, ?_⟩
    · intro he
      rw [hp] at he
      cases he
    · intro hmem
      rw [← heq] at hmem
      simp only [List.mem_append, List.mem_singleton, reduceCtorEq, or_false] at hmem
      exact absurd hmem hno

/-- The relays are over, and the peer is told unless it knows. -/
theorem Scripted.finish (h : Scripted side c sent) (hp : c.phase = .relaying) {e₁ e₂ : RelayEnd}
    (h₁ : c.send.ended = some e₁) (h₂ : c.recv.ended = some e₂)
    (hout : out = if closes e₁ e₂ && !gone then some (.close c.id) else none) :
    Scripted side { c with phase := side.afterRelay }
      (sent ++ out.toList.filter Frame.ordered) := by
  obtain ⟨f, bs, hf, rfl⟩ := h.talking hp
  have hpr : side.afterRelay.proper side = true := by cases side <;> rfl
  have hlate : side.afterRelay.late = true := by cases side <;> rfl
  subst hout
  split_ifs with hcl
  · refine ⟨hpr, .closed hf bs, ?_, ?_, ?_⟩
    · intro he
      cases side <;> cases he
    · intro hr
      cases side <;> cases hr
    · intro _
      simp only [Bool.and_eq_true] at hcl
      exact ⟨hlate, e₁, e₂, h₁, h₂, hcl.1⟩
  · rw [Option.toList_none, List.filter_nil, List.append_nil]
    exact h.leave hpr hlate (by rw [hp]; rfl)

/-- **A step of the task keeps to the script**, unless the peer overran. -/
theorem Stepped.scripted (hs : Stepped side gone teardown c c' out) (hover : c'.phase ≠ .closing)
    (h : Scripted side c sent) : Scripted side c' (sent ++ out.toList.filter Frame.ordered) := by
  have hproper := h.proper
  have hnil : sent ++ (none : Option Frame).toList.filter Frame.ordered = sent := by simp
  cases hs with
  | @announced host port hp hg =>
    rw [hp] at hproper
    cases side with
    | controller => exact h.greet (by rw [hp]; rfl) ⟨host, port, rfl⟩
    | controlled => cases hproper
  | announceGone hp =>
    rw [hp] at hproper
    cases side with
    | controller =>
      rw [hnil]
      exact h.leave rfl rfl (by rw [hp]; rfl)
    | controlled => cases hproper
  | pulled hp hin hfits =>
    rw [hnil]
    exact h.pend (.inl ⟨_, hp⟩) rfl rfl rfl rfl
  | pullOver | pullViolation => exact absurd rfl hover
  | pullClose hp hin | pullGone hp hin he | openedGone hp hg =>
    rw [hnil]
    exact h.leave (by cases side <;> rfl) rfl (by rw [hp]; rfl)
  | connected hp hin he | connectFailed hp hin he =>
    rw [hnil]
    exact h.pend (.inl ⟨_, hp⟩) rfl rfl rfl rfl
  | granted hp =>
    rw [hnil]
    exact h.pend (.inr hp) rfl rfl rfl rfl
  | opened hp hg =>
    rw [hp] at hproper
    cases side with
    | controller => cases hproper
    | controlled => exact h.greet (by rw [hp]; rfl) rfl
  | refused hp hout =>
    rw [hp] at hproper
    obtain ⟨rfl, -, -⟩ := h.silent (by rw [hp]; rfl)
    cases side with
    | controller => cases hproper
    | controlled =>
      subst hout
      split_ifs
      · exact h.leave (p := .ended) rfl rfl (by rw [hp]; rfl)
      · refine ⟨rfl, .refused rfl _ _, nofun, nofun, ?_⟩
        intro hmem
        cases List.mem_singleton.mp hmem
  | closed hp hout =>
    rw [hp] at hproper
    cases side <;> cases hproper
  | @send a h' credit' out hp hs => exact h.send hp h' credit' out
  | @recv a h' w' inbound' upd hp hs =>
    have hnil : (upd.map (Frame.windowUpdate c.id)).toList.filter Frame.ordered = [] := by
      cases upd <;> rfl
    rw [hnil, List.append_nil]
    refine ⟨h.proper, h.spoke, ?_, h.talking, ?_⟩
    · intro he
      rw [hp] at he
      cases he
    · intro hmem
      have := (h.closed hmem).1
      rw [hp] at this
      cases this
  | propagated hp hwhy =>
    rw [hnil]
    exact ⟨h.proper, h.spoke, h.silent, h.talking, h.closed⟩
  | @finished e₁ e₂ out hp hcancel h₁ h₂ hout => exact h.finish hp h₁ h₂ hout

/-- A task speaks for its own channel. -/
theorem Stepped.out_id (hs : Stepped side gone teardown c c' out) {f : Frame}
    (hf : f ∈ out.toList) : f.id = c.id := by
  cases hs with
  | @send a h' credit' out hp hs | @recv a h' w' inbound' out hp hs =>
    cases out with
    | none => cases hf
    | some x =>
      rw [List.mem_singleton.mp hf]
      rfl
  | refused hp hout | closed hp hout =>
    subst hout
    split_ifs at hf
    · cases hf
    · rw [List.mem_singleton.mp hf]
      rfl
  | finished hp hc h₁ h₂ hout =>
    subst hout
    split_ifs at hf
    · rw [List.mem_singleton.mp hf]
      rfl
    · cases hf
  | announced | opened =>
    rw [List.mem_singleton.mp hf]
    rfl
  | announceGone | pulled | pullOver | pullClose | pullViolation | pullGone | connected
  | connectFailed | granted | openedGone | propagated => cases hf

/-- Nothing is handed to a sink that is gone. -/
theorem Stepped.gone_silent (hs : Stepped side true teardown c c' out) : out = none := by
  cases hs with
  | announced hp hg | opened hp hg => cases hg
  | refused hp hout | closed hp hout => rw [hout, if_pos rfl]
  | finished hp hc h₁ h₂ hout => rw [hout, if_neg (by simp)]
  | @send a h' credit' out hp hs =>
    cases a with
    | send =>
      rw [SendHalf.step] at hs
      split at hs
      · rw [if_pos rfl] at hs
        cases hs
        rfl
      · cases hs
    | take | read | refund | cancel =>
      have hst := SendHalf.step_stepped hs
      cases hst with
      | sent hpc =>
        rw [SendHalf.step] at hs
        simp [hpc] at hs
      | took | readSocket | readPrebuf | eof | refunded | dropped | sinkGone | cancelTake
      | cancelRead => rfl
  | @recv a h' w' inbound' upd hp hs =>
    cases a with
    | wrote =>
      rw [RecvHalf.step] at hs
      split at hs
      · split at hs
        · cases hs
          rfl
        · rw [if_pos rfl] at hs
          cases hs
          rfl
      · cases hs
    | fetch | write | fail | cancel =>
      have hst := RecvHalf.step_stepped hs
      cases hst with
      | updated hpc hd =>
        simp [RecvHalf.step, hpc] at hs
      | popped | received | peerClosed | violation | queueGone | wrote | failed | finished
        | sinkGone
      | cancelFetch | cancelWrite => rfl
  | announceGone | pulled | pullOver | pullClose | pullViolation | pullGone | connected
  | connectFailed | granted | openedGone | propagated => rfl

/-- The demultiplexer changes nothing an end's script is about. -/
theorem Scripted.same {side : Side} {c c' : Chan} {sent : List Frame} (h : Scripted side c sent)
    (hid : c'.id = c.id) (hphase : c'.phase = c.phase) (hsend : c'.send = c.send)
    (hrecv : c'.recv = c.recv) : Scripted side c' sent := by
  obtain ⟨h₁, h₂, h₃, h₄, h₅⟩ := h
  constructor
  · rwa [hphase]
  · rwa [hid]
  · rwa [hphase, hsend, hrecv]
  · rwa [hphase, hid]
  · rwa [hphase, hid, hsend, hrecv]

/-- **A step of the task hands over what its relay has read.** -/
theorem Stepped.carries (hs : Stepped side gone teardown c c' out) {prebuf : Bytes}
    (h : c.send.Carries prebuf (payloads sent)) :
    c'.send.Carries prebuf (payloads (sent ++ out.toList.filter Frame.ordered)) := by
  rw [payloads_append]
  have hkeep : payloads (out.toList.filter Frame.ordered) = [] → c.send.Carries prebuf
      (payloads sent ++ payloads (out.toList.filter Frame.ordered)) := by
    intro hnil
    rwa [hnil, List.append_nil]
  cases hs with
  | @send a h' credit' out hp hs =>
    have hpay : payloads ((out.map (Frame.data c.id)).toList.filter Frame.ordered) =
        out.toList := by
      cases out <;> rfl
    rw [hpay]
    exact (SendHalf.step_stepped hs).carries h
  | @recv a h' w' inbound' upd hp hs => exact hkeep (by cases upd <;> rfl)
  | refused hp hout | closed hp hout | finished hp hc h₁ h₂ hout =>
    exact hkeep (by subst hout; split_ifs <;> rfl)
  | announced | announceGone | pulled | pullOver | pullClose | pullViolation | pullGone | connected
  | connectFailed | granted | opened | openedGone | propagated => exact hkeep rfl

end Chan

/-! ## Why a relay ends -/

theorem SendHalf.pc_of_ended {h : SendHalf} {e : RelayEnd} (he : h.ended = some e) :
    h.pc = .done e := by
  unfold ended at he
  split at he
  · rename_i e' hpc
    rw [hpc, Option.some.inj he]
  · cases he

theorem RecvHalf.pc_of_ended {h : RecvHalf} {e : RelayEnd} (he : h.ended = some e) :
    h.pc = .done e := by
  unfold ended at he
  split at he
  · rename_i e' hpc
    rw [hpc, Option.some.inj he]
  · cases he

/-- The sending relay ends at the end of its socket, on a cancellation, or with its sink. -/
def SendHalf.Blames (cancel gone : Bool) (h : SendHalf) : Prop :=
  match h.pc with
  | .done e => e = .localEof ∨ cancel = true ∨ gone = true
  | .dropping _ => cancel = true
  | _ => True

theorem SendHalf.Blames.step {cancel gone : Bool} {c c' : SendCredit} {h h' : SendHalf}
    {a : SendAct} {out : Option Bytes} (hb : h.Blames cancel gone)
    (hs : h.step cancel gone c a = some (h', c', out)) : h'.Blames cancel gone := by
  cases a with
  | take =>
    rw [SendHalf.step] at hs
    split at hs
    · obtain ⟨⟨n, c₁⟩, -, heq⟩ := Option.map_eq_some_iff.mp hs
      cases heq
      trivial
    · cases hs
  | read got =>
    rw [SendHalf.step] at hs
    split at hs
    · split_ifs at hs <;> cases hs <;> trivial
    · cases hs
  | refund =>
    rw [SendHalf.step] at hs
    split at hs
    · rename_i allow got hpc
      cases got with
      | nil =>
        cases hs
        exact .inl rfl
      | cons b got =>
        cases hs
        trivial
    · rename_i allow hpc
      cases hs
      rw [Blames, hpc] at hb
      exact .inr (.inl hb)
    · cases hs
  | send =>
    rw [SendHalf.step] at hs
    split at hs
    · split_ifs at hs with hg
      · cases hs
        exact .inr (.inr hg)
      · cases hs
        trivial
    · cases hs
  | cancel =>
    rw [SendHalf.step] at hs
    split_ifs at hs with hc
    split at hs
    · cases hs
      exact .inr (.inl hc)
    · cases hs
      exact hc
    · cases hs

/-- The receiving relay ends on the peer's `Close`, when the socket fails, on a cancellation,
with its sink, or with the tunnel. -/
def RecvHalf.Blames (cancel gone teardown : Bool) (h : RecvHalf) : Prop :=
  match h.pc with
  | .done e =>
    e = .peerClosed ∨ e = .localEof ∨ cancel = true ∨ gone = true ∨ teardown = true
  | _ => True

theorem RecvHalf.Blames.step {cancel gone teardown entry : Bool} {w w' : RecvWindow}
    {inbound inbound' : List Inbound} {h h' : RecvHalf} {a : RecvAct} {upd : Option ℕ}
    (hclean : .violation ∉ inbound) (hentry : inbound = [] → entry = false → teardown = true)
    (hs : h.step cancel gone entry w inbound a = some (h', w', inbound', upd)) :
    h'.Blames cancel gone teardown := by
  cases a with
  | fetch =>
    unfold RecvHalf.step at hs
    dsimp only at hs
    split at hs
    · cases hs
      trivial
    · cases hs
      trivial
    · cases hs
      exact .inl rfl
    · simp at hclean
    · split_ifs at hs with he
      cases hs
      exact .inr (.inr (.inr (.inr (hentry rfl (by simpa using he)))))
    · cases hs
  | write n =>
    rw [RecvHalf.step] at hs
    split at hs
    · split_ifs at hs
      cases hs
      trivial
    · cases hs
  | fail =>
    rw [RecvHalf.step] at hs
    split at hs
    · cases hs
      exact .inr (.inl rfl)
    · cases hs
  | wrote =>
    rw [RecvHalf.step] at hs
    split at hs
    · split at hs
      · cases hs
        trivial
      · split_ifs at hs with hg
        · cases hs
          exact .inr (.inr (.inr (.inl hg)))
        · cases hs
          trivial
    · cases hs
  | cancel =>
    rw [RecvHalf.step] at hs
    split_ifs at hs with hc
    split at hs
    · cases hs
      exact .inr (.inr (.inl hc))
    · cases hs
      exact .inr (.inr (.inl hc))
    · cases hs

namespace Chan

/-- The task has taken a `Close` off its queue in this step. -/
def tookClose (c c' : Chan) : Bool :=
  c.inbound.head? = some .close && decide (c'.inbound.length < c.inbound.length)

/-- The tunnel has gone under the channel, or the local socket has ended or failed. -/
def Disturbed (c : Chan) (gone teardown : Bool) : Prop :=
  gone = true ∨ teardown = true ∨ c.send.ended = some .localEof ∨ c.recv.ended = some .localEof

instance (c : Chan) (gone teardown : Bool) : Decidable (c.Disturbed gone teardown) :=
  inferInstanceAs (Decidable (_ ∨ _))

/-- How a channel can have come to its end. -/
structure Blames (c : Chan) (gone teardown took : Bool) : Prop where
  send : c.send.Blames c.cancel gone
  recv : c.recv.Blames c.cancel gone teardown
  cancel : c.cancel = true → c.Disturbed gone teardown ∨ c.recv.ended = some .peerClosed
  entry : c.entry = false → c.inboundClosed = true ∨ Inbound.close ∈ c.inbound ∨ teardown = true
  took : took = true → c.recv.ended = some .peerClosed ∨ (c.phase = .ended ∧ c.recv.ended = none)

variable {c c' : Chan} {gone teardown took : Bool}

/-- **A relay that ends undisturbed ends on the peer's `Close`.** -/
theorem Blames.peerClosed (h : c.Blames gone teardown took) (hquiet : ¬ c.Disturbed gone teardown)
    (hend : c.recv.ended.isSome = true) : c.recv.ended = some .peerClosed := by
  obtain ⟨e, he⟩ := Option.isSome_iff_exists.mp hend
  have hwhy := h.recv
  rw [RecvHalf.Blames, RecvHalf.pc_of_ended he] at hwhy
  rcases hwhy with rfl | rfl | hc | hg | ht
  · exact he
  · exact absurd (.inr (.inr (.inr he))) hquiet
  · exact (h.cancel hc).resolve_left hquiet
  · exact absurd (.inl hg) hquiet
  · exact absurd (.inr (.inl ht)) hquiet

/-- A step that moves neither relay. -/
theorem Blames.move {took' : Bool} (h : c.Blames gone teardown took) (hsend : c'.send = c.send)
    (hpc : c'.recv.pc = c.recv.pc) (hcancel : c'.cancel = c.cancel) (hentry : c'.entry = c.entry)
    (hclosed : c.inboundClosed = true → c'.inboundClosed = true)
    (hin : Inbound.close ∈ c.inbound → Inbound.close ∈ c'.inbound ∨ c'.inboundClosed = true)
    (hrun : c.running = true)
    (htook : took' = true → took = true ∨ (c'.phase = .ended ∧ c.recv.ended = none)) :
    c'.Blames gone teardown took' := by
  have hended : c'.recv.ended = c.recv.ended := by rw [RecvHalf.ended, hpc, RecvHalf.ended]
  refine ⟨?_, ?_, ?_, ?_, ?_⟩
  · rw [hsend, hcancel]
    exact h.send
  · have := h.recv
    rw [RecvHalf.Blames] at this ⊢
    rwa [hpc, hcancel]
  · rw [hcancel, Disturbed, hsend, hended]
    exact h.cancel
  · rw [hentry]
    intro he
    rcases h.entry he with ho | hc | ht
    · exact .inl (hclosed ho)
    · rcases hin hc with hc | ho
      · exact .inr (.inl hc)
      · exact .inl ho
    · exact .inr (.inr ht)
  · intro ht
    rw [hended]
    rcases htook ht with ht | ⟨hp, hr⟩
    · rcases h.took ht with hr | ⟨hp, -⟩
      · exact .inl hr
      · simp [running, hp] at hrun
    · exact .inr ⟨hp, hr⟩

/-- A task that is over, its entry with it. -/
theorem Blames.quit (h : c.Blames gone teardown took) (hrun : c.running = true) :
    ({ c with phase := .ended, entry := false } : Chan).Blames gone teardown took := by
  refine ⟨h.send, h.recv, h.cancel, fun _ => .inl (by simp [inboundClosed]), ?_⟩
  intro ht
  rcases h.took ht with hr | ⟨hp, -⟩
  · exact .inl hr
  · simp [running, hp] at hrun

/-- A step that takes nothing off the queue has not taken `Close`. -/
theorem took_of_inbound (h : c'.inbound = c.inbound) (ht : (took || tookClose c c') = true) :
    took = true := by
  simpa [tookClose, h] using ht

/-- A change of phase, and of the window at most. -/
theorem Blames.goto (h : c.Blames gone teardown took) (hrun : c.running = true) (p : Phase)
    (w : RecvWindow) {took' : Bool} (hlate : c.phase.late = false)
    (htook : took' = true → took = true) :
    ({ c with window := w, phase := p } : Chan).Blames gone teardown took' := by
  refine h.move rfl rfl rfl rfl ?_ .inl hrun (fun ht => .inl (htook ht))
  intro ho
  simp only [inboundClosed, Bool.or_eq_true, decide_eq_true_eq] at ho ⊢
  rcases ho with (hp | hp) | hr
  · simp [running, hp] at hrun
  · rw [hp] at hlate
    cases hlate
  · exact .inr hr

/-- The sending relay takes a step. -/
theorem Blames.sendStep (h : c.Blames gone teardown took) {a : SendAct} {h' : SendHalf}
    {credit' : SendCredit} {out : Option Bytes}
    (hs : c.send.step c.cancel gone c.credit a = some (h', credit', out)) :
    ({ c with send := h', credit := credit' } : Chan).Blames gone teardown
      (took || tookClose c { c with send := h', credit := credit' }) := by
  have hnot := (SendHalf.step_stepped hs).running
  refine ⟨h.send.step hs, h.recv, ?_, h.entry, ?_⟩
  · intro hc
    rcases h.cancel hc with (hg | ht | he | hr) | hr
    · exact .inl (.inl hg)
    · exact .inl (.inr (.inl ht))
    · exact absurd he (hnot _)
    · exact .inl (.inr (.inr (.inr hr)))
    · exact .inr hr
  · intro ht
    exact h.took (took_of_inbound rfl ht)

/-- The receiving relay takes a step. -/
theorem Blames.recvStep (h : c.Blames gone teardown took) (hclean : .violation ∉ c.inbound)
    (hp : c.phase = .relaying) {a : RecvAct} {h' : RecvHalf} {w' : RecvWindow}
    {inbound' : List Inbound} {upd : Option ℕ}
    (hs : c.recv.step c.cancel gone c.entry c.window c.inbound a = some (h', w', inbound', upd)) :
    ({ c with recv := h', window := w', inbound := inbound' } : Chan).Blames gone teardown
      (took || tookClose c { c with recv := h', window := w', inbound := inbound' }) := by
  have hst := RecvHalf.step_stepped hs
  have hnone := hst.running
  have hopen : c.inboundClosed = false := by simp [inboundClosed, hp, hnone]
  have hquiet : c.cancel = true → gone = true ∨ teardown = true ∨
      c.send.ended = some .localEof := by
    intro hc
    simpa [hnone, Disturbed] using h.cancel hc
  have hgone : c.inbound = [] → c.entry = false → teardown = true := by
    intro hin he
    simpa [hopen, hin] using h.entry he
  refine ⟨h.send, RecvHalf.Blames.step hclean hgone hs, ?_, ?_, ?_⟩
  · intro hc
    rcases hquiet hc with hg | ht | he
    · exact .inl (.inl hg)
    · exact .inl (.inr (.inl ht))
    · exact .inl (.inr (.inr (.inl he)))
  · intro he
    rcases h.entry he with ho | hc | ht
    · rw [hopen] at ho
      cases ho
    · -- `Close` stays queued until the relay ends on it
      cases hst with
      | received hpc hpend hin =>
        rw [hin] at hc
        exact .inr (.inl (by simpa using hc))
      | peerClosed | violation | queueGone | failed | sinkGone | cancelFetch | cancelWrite =>
        exact .inl (by simp [inboundClosed, RecvHalf.ended])
      | popped | wrote | finished | updated => exact .inr (.inl hc)
    · exact .inr (.inr ht)
  · intro ht
    cases hst with
    | received hpc hpend hin | queueGone hpc hpend hin he =>
      have : took = true := by simpa [tookClose, hin] using ht
      exact absurd (h.took this) (by simp [hnone, hp])
    | peerClosed => exact .inl rfl
    | violation hpc hpend hin =>
      rw [hin] at hclean
      simp at hclean
    | popped | wrote | failed | finished | updated | sinkGone | cancelFetch | cancelWrite =>
      exact absurd (h.took (took_of_inbound rfl ht)) (by simp [hnone, hp])

/-- The end of a relay, or of the tunnel, cancels the other relay. -/
theorem Blames.propagate (h : c.Blames gone teardown took)
    (hwhy : c.send.ended.isSome ∨ c.recv.ended.isSome ∨ teardown = true) :
    ({ c with cancel := true } : Chan).Blames gone teardown
      (took || tookClose c { c with cancel := true }) := by
  refine ⟨?_, ?_, ?_, h.entry, ?_⟩
  · show SendHalf.Blames true gone c.send
    unfold SendHalf.Blames
    split
    · exact .inr (.inl rfl)
    · rfl
    · trivial
  · show RecvHalf.Blames true gone teardown c.recv
    unfold RecvHalf.Blames
    split
    · exact .inr (.inr (.inl rfl))
    · trivial
  · intro _
    by_cases hquiet : c.Disturbed gone teardown
    · exact .inl hquiet
    · rcases hwhy with hend | hend | ht
      · obtain ⟨e, he⟩ := Option.isSome_iff_exists.mp hend
        have hb := h.send
        rw [SendHalf.Blames, SendHalf.pc_of_ended he] at hb
        rcases hb with rfl | hc | hg
        · exact .inl (.inr (.inr (.inl he)))
        · exact h.cancel hc
        · exact .inl (.inl hg)
      · exact .inr (h.peerClosed hquiet hend)
      · exact .inl (.inr (.inl ht))
  · intro ht
    exact h.took (took_of_inbound rfl ht)

/-- **A step of the task keeps the account of why it ends**, unless the peer overran. -/
theorem Stepped.blames {side : Side} {out : Option Frame} (hs : Stepped side gone teardown c c' out)
    (hover : c'.phase ≠ .closing) (hclean : .violation ∉ c.inbound)
    (hidle : c.phase.early = true → c.recv.ended = none) (h : c.Blames gone teardown took) :
    c'.Blames gone teardown (took || tookClose c c') := by
  have hrun := hs.was_running
  cases hs with
  | announced hp | announceGone hp | opened hp | openedGone hp | refused hp | closed hp
  | connected hp | connectFailed hp | pullGone hp | granted hp | finished hp =>
    exact h.goto hrun _ _ (by rw [hp]; rfl) (took_of_inbound rfl)
  | @pulled n b rest hp hin hfits =>
    have hend := hidle (by rw [hp]; rfl)
    refine h.move rfl rfl rfl rfl ?_ ?_ hrun ?_
    · simp [inboundClosed, hp, hend]
    · intro hc
      rw [hin] at hc
      exact .inl (by simpa using hc)
    · simp [tookClose, hin]
  | pullOver | pullViolation => exact absurd rfl hover
  | pullClose hp hin =>
    refine h.move rfl rfl rfl rfl ?_ ?_ hrun ?_
    · simp [inboundClosed]
    · simp [inboundClosed]
    · intro _
      exact .inr ⟨rfl, hidle (by rw [hp]; rfl)⟩
  | @send a h' credit' out hp hs => exact h.sendStep hs
  | @recv a h' w' inbound' upd hp hs => exact h.recvStep hclean hp hs
  | propagated hp hwhy => exact h.propagate hwhy

/-- The demultiplexer leaves the task alone. -/
theorem hear_task (c : Chan) (f : Frame) :
    (c.hear f).id = c.id ∧ (c.hear f).phase = c.phase ∧ (c.hear f).send = c.send ∧
      (c.hear f).recv = c.recv ∧ (c.hear f).cancel = c.cancel := by
  cases f with
  | opened i ok m w =>
    cases ok with
    | true =>
      rw [hear, raise]
      split_ifs <;> exact ⟨rfl, rfl, rfl, rfl, rfl⟩
    | false => exact ⟨rfl, rfl, rfl, rfl, rfl⟩
  | data i b =>
    rw [hear, Chan.data]
    split
    · split_ifs <;> exact ⟨rfl, rfl, rfl, rfl, rfl⟩
    · exact ⟨rfl, rfl, rfl, rfl, rfl⟩
  | openChannel | close | windowUpdate => exact ⟨rfl, rfl, rfl, rfl, rfl⟩

/-- The peer's last word takes the entry. -/
theorem hear_last (c : Chan) {f : Frame} (hf : f.isLast = true) : (c.hear f).entry = false := by
  have hclose : c.close.entry = false := rfl
  cases f with
  | opened i ok m w =>
    cases ok with
    | true => cases hf
    | false => exact hclose
  | close i => exact hclose
  | openChannel | data | windowUpdate => cases hf

/-- What takes the entry away leaves a `Close`, unless the queue is no longer read. -/
theorem hear_entry {f : Frame} (hfit : ∀ i b, f = .data i b → charge b.length ≤ c.window.remaining)
    (he : (c.hear f).entry = false) :
    c.entry = false ∨ c.inboundClosed = true ∨ .close ∈ (c.hear f).inbound := by
  have hclose : c.inboundClosed = true ∨ .close ∈ c.close.inbound := by
    rw [Chan.close]
    cases ho : c.inboundClosed with
    | true => exact .inl rfl
    | false => exact .inr (by simp)
  cases f with
  | opened i ok m w =>
    cases ok with
    | true =>
      rw [hear, raise] at he
      split_ifs at he <;> exact .inl he
    | false => exact .inr hclose
  | data i b =>
    rw [hear, Chan.data, RecvWindow.accept_true (hfit i b rfl)] at he
    dsimp only at he
    split_ifs at he with ho
    · exact .inr (.inl ho)
    · exact .inl he
  | close i => exact .inr hclose
  | openChannel | windowUpdate => exact .inl he

/-- The demultiplexer only adds to the queue. -/
theorem hear_inbound (c : Chan) (f : Frame) {x : Inbound} (hx : x ∈ c.inbound) :
    x ∈ (c.hear f).inbound := by
  have happ : ∀ (b : Bool) (y : Inbound), x ∈ (if b then c.inbound else c.inbound ++ [y]) := by
    intro b y
    split_ifs
    · exact hx
    · exact List.mem_append_left _ hx
  cases f with
  | opened i ok m w =>
    cases ok with
    | true =>
      rw [hear, raise]
      split_ifs <;> exact hx
    | false => exact happ _ _
  | data i b =>
    rw [hear, Chan.data]
    split
    · split_ifs
      · exact hx
      · exact List.mem_append_left _ hx
    · exact happ _ _
  | close i => exact happ _ _
  | openChannel | windowUpdate => exact hx

/-- What the demultiplexer does to a channel has its reasons, too. -/
theorem Blames.demux {gone' teardown' : Bool}
    (h : c.Blames gone teardown took) (hphase : c'.phase = c.phase) (hsend : c'.send = c.send)
    (hrecv : c'.recv = c.recv) (hcancel : c'.cancel = c.cancel)
    (hg : gone = true → gone' = true) (ht : teardown = true → teardown' = true)
    (hin : Inbound.close ∈ c.inbound → Inbound.close ∈ c'.inbound) (hentry : c'.entry = false →
      c.entry = false ∨ c.inboundClosed = true ∨ .close ∈ c'.inbound ∨ teardown' = true) :
    c'.Blames gone' teardown' took := by
  have hclosed : c'.inboundClosed = c.inboundClosed := by
    rw [inboundClosed, hphase, hrecv, inboundClosed]
  refine ⟨?_, ?_, ?_, ?_, ?_⟩
  · have := h.send
    rw [hsend, hcancel]
    unfold SendHalf.Blames at this ⊢
    split at this
    · exact this.imp_right (Or.imp_right hg)
    · exact this
    · trivial
  · have := h.recv
    rw [hrecv, hcancel]
    unfold RecvHalf.Blames at this ⊢
    split at this
    · exact this.imp_right (Or.imp_right (Or.imp_right (Or.imp hg ht)))
    · trivial
  · rw [hcancel, Disturbed, hsend, hrecv]
    intro hc
    exact (h.cancel hc).imp_left (Or.imp hg (Or.imp_left ht))
  · intro he
    rw [hclosed]
    rcases hentry he with he | ho | hc
    · rcases h.entry he with ho | hc | htd
      · exact .inl ho
      · exact .inr (.inl (hin hc))
      · exact .inr (.inr (ht htd))
    · exact .inl ho
    · exact .inr hc
  · rw [hphase, hrecv]
    exact h.took

/-- A frame for the channel. -/
theorem Blames.hear {c : Chan} {gone teardown took : Bool} (h : c.Blames gone teardown took)
    {f : Frame} (hfit : ∀ i b, f = .data i b → charge b.length ≤ c.window.remaining) :
    (c.hear f).Blames gone teardown took := by
  obtain ⟨-, hp, hs, hr, hc⟩ := c.hear_task f
  refine h.demux hp hs hr hc (fun hg => hg) (fun ht => ht) (c.hear_inbound f) ?_
  intro he
  rcases hear_entry hfit he with he | ho | hc
  · exact .inl he
  · exact .inr (.inl ho)
  · exact .inr (.inr (.inl hc))

end Chan
end BgDesk
