import Mathlib.Data.List.Infix
import BgDesk.DrmConn

/-!
# What a capture connection owes its consumer

The task of a connection sends at most two frames ahead of the consumer, always the newest one it
has, and sends every cursor shape. Both come out of one channel, and the task may have a frame in
its hands from before.

* `Conn.Fair` — what holds in every state: the credit, the frames, the shapes, and the bytes on the
  wire;
* `Conn.Inv` — what holds at every statement of the loop: the messages that were taken are accounted
  for, but for the one in hand;
* `frame_credit` — every run.

When the task ends it drops what it has in hand, and the last thing on the wire may be a header.
-/

namespace BgDesk
namespace Drm

/-! ## What was sent -/

/-- The numbers of the frames that were sent. -/
def frameSerials (log : List Sent) : List ℕ :=
  log.filterMap fun
    | .message i _ m => if m.isFrame then some i else none
    | _ => none

/-- How many frames were sent. -/
def frameCount (log : List Sent) : ℕ := log.countP Sent.isFrame

/-- The cursor shapes that were sent, with their numbers. -/
def shapesSent (log : List Sent) : List (DrmProducerMsg × ℕ) :=
  log.filterMap fun
    | .message i _ m => if m.isCursor then some (m, i) else none
    | _ => none

/-- The cursor shapes among the first messages of the channel, with their numbers. -/
def shapesTaken (produced : List DrmProducerMsg) (n : ℕ) : List (DrmProducerMsg × ℕ) :=
  (produced.take n).zipIdx.filter fun p => p.1.isCursor

/-- A frame that is the newest one among the first messages of the channel. -/
structure Newest (produced : List DrmProducerMsg) (n i : ℕ) (m : DrmProducerMsg) : Prop where
  before : i < n
  message : produced[i]? = some m
  frame : m.isFrame = true
  last : ∀ j m', i < j → j < n → produced[j]? = some m' → m'.isFrame = false

/-- Of the last thing that was to be sent some calls were missing. -/
def Cut (log : List Sent) (wire : List Item) : Prop :=
  ∃ e out, out < (Sent.items e).length ∧ wire = log.flatMap Sent.items ++ e.items.take out

section Sent

variable {log : List Sent} {produced : List DrmProducerMsg} {n i : ℕ} {m : DrmProducerMsg}

theorem frameSerials_append (log : List Sent) (e : Sent) : frameSerials (log ++ [e]) =
    frameSerials log ++ frameSerials [e] := List.filterMap_append

theorem frameCount_append (log : List Sent) (e : Sent) :
    frameCount (log ++ [e]) = frameCount log + if e.isFrame then 1 else 0 := by
  rw [frameCount, List.countP_append, List.countP_singleton]
  rfl

theorem shapesSent_append (log : List Sent) (e : Sent) :
    shapesSent (log ++ [e]) = shapesSent log ++ shapesSent [e] :=
  List.filterMap_append

theorem shapesTaken_succ (hm : produced[n]? = some m) :
    shapesTaken produced (n + 1) = shapesTaken produced n ++
      if m.isCursor then [(m, n)] else [] := by
  obtain ⟨hlt, rfl⟩ := List.getElem?_eq_some_iff.mp hm
  rw [shapesTaken, List.take_succ_eq_append_getElem hlt, List.zipIdx_append, List.filter_append,
    List.length_take,
    Nat.min_eq_left (Nat.le_of_lt hlt)]
  simp only [List.zipIdx_singleton, Nat.zero_add, List.filter_singleton, cond_eq_ite]
  rfl

theorem shapesTaken_append (m : DrmProducerMsg) (hn : n ≤ produced.length) :
    shapesTaken (produced ++ [m]) n = shapesTaken produced n := by
  rw [shapesTaken, List.take_append_of_le_length hn]
  rfl

theorem mem_frameSerials {k : ℕ} (h : k ∈ frameSerials log) :
    ∃ t m, .message k t m ∈ log ∧ m.isFrame = true := by
  obtain ⟨e, he, hk⟩ := List.mem_filterMap.mp h
  split at hk
  · next i t m =>
    split at hk
    · next hframe =>
      obtain rfl := Option.some.inj hk
      exact ⟨t, m, he, hframe⟩
    · cases hk
  · cases hk

theorem Newest.append (h : Newest produced n i m) (x : DrmProducerMsg) (hn : n ≤ produced.length) :
    Newest (produced ++ [x]) n i m := by
  refine ⟨h.before, ?_, h.frame, fun j m' hij hjn hj => ?_⟩
  · rw [List.getElem?_append_left (Nat.lt_of_lt_of_le h.before hn)]
    exact h.message
  · rw [List.getElem?_append_left (Nat.lt_of_lt_of_le hjn hn)] at hj
    exact h.last j m' hij hjn hj

/-- The next message is not a frame. -/
theorem Newest.succ {m' : DrmProducerMsg} (h : Newest produced n i m) (hm : produced[n]? = some m')
    (hframe : m'.isFrame = false) : Newest produced (n + 1) i m := by
  refine ⟨Nat.lt_succ_of_lt h.before, h.message, h.frame, fun j m'' hij hjn hj => ?_⟩
  rcases Nat.lt_succ_iff_lt_or_eq.mp hjn with hlt | rfl
  · exact h.last j m'' hij hlt hj
  · rw [hm] at hj
    exact Option.some.inj hj ▸ hframe

theorem Cut.of_eq {wire : List Item} (h : wire = log.flatMap Sent.items) : Cut log wire :=
  ⟨.list [], 0, Nat.one_pos, h.trans (List.append_nil _).symm⟩

end Sent

/-! ## The task -/

namespace TaskPc

/-- The message in hand. -/
def hand : TaskPc → Option Taken
  | .chosen first | .loading first | .cloning first | .sending first _ | .taking first => first
  | .handling m => some m
  | _ => none

/-- The newest frame is in `latest_frame`, not in `held_frame`. -/
def pumping : TaskPc → Bool
  | .fetching | .handling _ | .settling _ | .deciding => true
  | _ => false

/-- The loop has not begun. -/
def handshake : TaskPc → Bool
  | .awaitingDisplays | .sendingList _ | .awaitingStart _ | .starting => true
  | _ => false

end TaskPc

namespace Conn

/-- The messages that are taken and not in hand. -/
def handled (c : Conn) : ℕ := if c.pc.hand.isSome then c.taken - 1 else c.taken

/-- The frame that is kept. -/
def kept (c : Conn) : Option Taken := if c.pc.pumping then c.latestFrame else c.heldFrame

/-- What holds at every statement. -/
structure Inv (c : Conn) : Prop where
  sum : c.credit + ((frameCount c.log : ℤ) - c.acked) + c.acks.length = drmFrameCredit
  nonneg : 0 ≤ c.credit
  acked : c.acked ≤ frameCount (c.log.take c.received)
  fresh : c.pc.handshake = true → c.credit = drmFrameCredit ∧ frameCount c.log = 0 ∧
    c.heldFrame = none
  channel : c.produced.drop c.taken = c.queue
  le : c.taken ≤ c.produced.length
  sent : ∀ i t m, .message i t m ∈ c.log → m.isFrame = true → t ≤ c.handled ∧
    Newest c.produced t i m
  sorted : (frameSerials c.log).Pairwise (· < ·)
  hand : ∀ i m, c.pc.hand = some (i, m) → i + 1 = c.taken ∧ c.produced[i]? = some m
  kept : c.pc ≠ .closed → ∀ i m, c.kept = some (i, m) →
    Newest c.produced c.handled i m ∧ ∀ j ∈ frameSerials c.log, j < i
  apart : c.pc.pumping = true → c.heldFrame = none
  shapes : c.pc ≠ .closed → shapesSent c.log = shapesTaken c.produced c.handled
  shapesPrefix : shapesSent c.log <+: shapesTaken c.produced c.taken
  wire : c.pc ≠ .closed → c.wire = c.log.flatMap Sent.items
  cut : Cut c.log c.wire

variable {c c' : Conn}

theorem accepted_inv : accepted.Inv where
  sum := rfl
  nonneg := by decide
  acked := Nat.le_refl 0
  fresh _ := ⟨rfl, rfl, rfl⟩
  channel := rfl
  le := Nat.le_refl 0
  sent := nofun
  sorted := List.Pairwise.nil
  hand := nofun
  kept := nofun
  apart := nofun
  shapes _ := rfl
  shapesPrefix := List.prefix_refl []
  wire _ := rfl
  cut := .of_eq rfl

/-! ### Steps that move nothing -/

theorem handled_le (c : Conn) : c.handled ≤ c.taken := by
  rw [handled]
  split
  · exact Nat.sub_le _ _
  · exact Nat.le_refl _

variable {p : TaskPc} {generation i : ℕ} {m : DrmProducerMsg} {act : TaskAct} {cache : Displays}

/-- The task goes on, with the same message in hand. -/
theorem Inv.still (h : c.Inv) {g : ℕ} {k : Option (String × UInt32 × Bool)} {d : UInt8}
    (hopen : c.pc ≠ .closed) (hhand : p.hand = c.pc.hand) (hpump : p.pumping = c.pc.pumping)
    (hshake : p.handshake = true → c.pc.handshake = true) :
    Inv { c with pc := p, seenGen := g, crtc := k, demand := d } := by
  have hhandled : handled { c with pc := p, seenGen := g, crtc := k, demand := d } = c.handled := by
    rw [handled, handled, hhand]
  have hkept : Conn.kept { c with pc := p, seenGen := g, crtc := k, demand := d } = c.kept := by
    rw [Conn.kept, Conn.kept, hpump]
  refine ⟨h.sum, h.nonneg, h.acked, fun hs => h.fresh (hshake hs), h.channel, h.le, ?_, h.sorted,
    ?_, ?_, ?_, ?_,
    h.shapesPrefix, fun _ => h.wire hopen, h.cut⟩
  · rw [hhandled]
    exact h.sent
  · rw [hhand]
    exact h.hand
  · rw [hhandled, hkept]
    exact fun _ => h.kept hopen
  · rw [hpump]
    exact h.apart
  · rw [hhandled]
    exact fun _ => h.shapes hopen

/-- The task ends, and drops what it has in hand; something may have got out already. -/
theorem Inv.close (h : c.Inv) (latest : Option Taken) (wire : List Item) (hcut : Cut c.log wire) :
    Inv { c with pc := .closed, latestFrame := latest, wire } := by
  refine ⟨h.sum, h.nonneg, h.acked, nofun, h.channel, h.le, ?_, h.sorted, nofun,
    fun hc => absurd rfl hc, nofun,
    fun hc => absurd rfl hc, h.shapesPrefix, fun hc => absurd rfl hc, hcut⟩
  intro i t m hm hframe
  obtain ⟨hle, hnew⟩ := h.sent i t m hm hframe
  exact ⟨Nat.le_trans hle c.handled_le, hnew⟩

theorem Inv.closed (h : c.Inv) : Inv { c with pc := .closed } := h.close c.latestFrame c.wire h.cut

theorem Inv.cutOff (h : c.Inv) (hopen : c.pc ≠ .closed) {e : Sent} {out : ℕ}
    (hout : ¬e.items.length ≤ out) : Cut c.log (c.wire ++ e.items.take out) :=
  ⟨e, out, Nat.lt_of_not_le hout, congrArg (· ++ e.items.take out) (h.wire hopen)⟩

/-! ### Messages -/

theorem recv_cases {m : Taken} (h : c.recv = some (m, c')) :
    ∃ x queue, c.queue = x :: queue ∧ m = (c.taken, x) ∧
      c' = { c with queue, taken := c.taken + 1 } := by
  rw [recv] at h
  split at h
  · cases h
  · next x queue hq =>
    obtain ⟨rfl, rfl⟩ := Prod.mk.inj (Option.some.inj h)
    exact ⟨x, queue, hq, rfl, rfl⟩

/-- What is next in the channel is the next message. -/
theorem Inv.next (h : c.Inv) {x : DrmProducerMsg} {queue : List DrmProducerMsg}
    (hq : c.queue = x :: queue) :
    c.produced[c.taken]? = some x ∧ c.produced.drop (c.taken + 1) = queue ∧
      c.taken + 1 ≤ c.produced.length := by
  have hdrop := h.channel
  rw [hq] at hdrop
  have hx : c.produced[c.taken]? = some x := by
    rw [← Nat.add_zero c.taken, ← List.getElem?_drop, hdrop]
    rfl
  refine ⟨hx, ?_, (List.getElem?_eq_some_iff.mp hx).1⟩
  rw [← List.drop_drop, hdrop]
  rfl

/-- A message is taken into hand. -/
theorem Inv.take (h : c.Inv) {m : Taken} {c₁ : Conn} (hrecv : c.recv = some (m, c₁))
    (hopen : c.pc ≠ .closed) (hnone : c.pc.hand = none) (hhand : p.hand = some m)
    (hpump : p.pumping = c.pc.pumping) (hshake : p.handshake = false) :
    Inv { c₁ with pc := p } := by
  obtain ⟨x, queue, hq, rfl, rfl⟩ := recv_cases hrecv
  obtain ⟨hx, hdrop, hle⟩ := h.next hq
  have hold : c.handled = c.taken := by rw [handled, hnone]; rfl
  have hhandled : handled { c with queue, taken := c.taken + 1, pc := p } = c.taken := by
    rw [handled, hhand]
    rfl
  have hkept : Conn.kept { c with queue, taken := c.taken + 1, pc := p } = c.kept := by
    rw [Conn.kept, Conn.kept, hpump]
  have hshapes := h.shapes hopen
  rw [hold] at hshapes
  refine ⟨h.sum, h.nonneg, h.acked, ?_, hdrop, hle, ?_, h.sorted, ?_, ?_, ?_, ?_, ?_,
    fun _ => h.wire hopen, h.cut⟩
  · intro hs
    rw [hshake] at hs
    cases hs
  · rw [hhandled, ← hold]
    exact h.sent
  · intro i m hm
    rw [hhand] at hm
    obtain ⟨rfl, rfl⟩ := Prod.mk.inj (Option.some.inj hm)
    exact ⟨rfl, hx⟩
  · intro _ i m hm
    rw [hkept] at hm
    rw [hhandled, ← hold]
    exact h.kept hopen i m hm
  · rw [hpump]
    exact h.apart
  · intro _
    rw [hhandled]
    exact hshapes
  · rw [hshapes, shapesTaken_succ hx]
    exact List.prefix_append _ _

/-- Every frame that was sent is older than what is in hand. -/
theorem Inv.serial_lt (h : c.Inv) {k : ℕ} (hk : k ∈ frameSerials c.log) : k < c.handled := by
  obtain ⟨t, m, hmem, hframe⟩ := mem_frameSerials hk
  obtain ⟨hle, hnew⟩ := h.sent k t m hmem hframe
  exact Nat.lt_of_lt_of_le hnew.before hle

/-- What the task does with the message in hand before it takes another one. The message counts as
handled; if it is a frame it is kept, and if it is a shape it is sent. -/
theorem Inv.handle (h : c.Inv) (hpc : c.pc = .handling (i, m)) (latest : Option Taken)
    (log : List Sent) (hlatest : latest = if m.isFrame then some (i, m) else c.latestFrame)
    (hlog : log = if m.isCursor then c.log ++ [Sent.message i c.taken m] else c.log) : Inv { c with
      latestFrame := latest, log, wire := log.flatMap Sent.items, pc := .fetching } := by
  have hopen : c.pc ≠ .closed := by
    rw [hpc]
    rintro ⟨⟩
  obtain ⟨hi, hm⟩ := h.hand i m (by rw [hpc]; rfl)
  have hhandled : c.handled = i := by
    rw [handled, hpc]
    exact Nat.sub_eq_of_eq_add hi.symm
  have hcursor : m.isCursor = true → m.isFrame = false := by
    cases m <;> simp [DrmProducerMsg.isCursor, DrmProducerMsg.isFrame]
  have hcount : frameCount log = frameCount c.log := by
    rw [hlog]
    split
    · next hc => rw [frameCount_append, Sent.isFrame, hcursor hc, if_neg (by decide), Nat.add_zero]
    · rfl
  have hserials : frameSerials log = frameSerials c.log := by
    rw [hlog]
    split
    · next hc =>
      rw [frameSerials_append]
      simp [frameSerials, hcursor hc]
    · rfl
  have hshapes : shapesSent log = shapesTaken c.produced c.taken := by
    rw [← hi, shapesTaken_succ hm, ← hhandled, ← h.shapes hopen, hlog, hhandled]
    split
    · next hc =>
      rw [shapesSent_append]
      simp [shapesSent, hc]
    · rw [List.append_nil]
  have hmem : ∀ j t m', Sent.message j t m' ∈ log → m'.isFrame = true →
      Sent.message j t m' ∈ c.log := by
    intro j t m' hj hframe
    rw [hlog] at hj
    split at hj
    · next hc =>
      rcases List.mem_append.mp hj with hj | hj
      · exact hj
      · obtain ⟨rfl, rfl, rfl⟩ := Sent.message.inj (List.mem_singleton.mp hj)
        rw [hcursor hc] at hframe
        cases hframe
    · exact hj
  have hprefix : c.log <+: log := by
    rw [hlog]
    split
    · exact List.prefix_append _ _
    · exact List.prefix_refl _
  refine ⟨by rw [hcount]; exact h.sum, h.nonneg, ?_, by rintro ⟨⟩, h.channel, h.le, ?_, by
    rw [hserials]; exact h.sorted, by rintro _ _ ⟨⟩, ?_,
    fun _ => h.apart (by rw [hpc]; rfl), fun _ =>
      hshapes, by rw [hshapes], fun _ => rfl, .of_eq rfl⟩
  · refine Nat.le_trans h.acked (List.Sublist.countP_le (List.IsPrefix.sublist ?_))
    exact List.IsPrefix.take hprefix _
  · intro j t m' hj hframe
    obtain ⟨hle, hnew⟩ := h.sent j t m' (hmem j t m' hj hframe) hframe
    exact ⟨Nat.le_trans hle c.handled_le, hnew⟩
  · intro _ j m' hj
    rw [hserials]
    change latest = some (j, m') at hj
    rw [hlatest] at hj
    have hbound : ∀ k ∈ frameSerials c.log, k < i := fun k hk => hhandled ▸ h.serial_lt hk
    split at hj
    · next hframe =>
      obtain ⟨rfl, rfl⟩ := Prod.mk.inj (Option.some.inj hj)
      exact ⟨⟨by
        change i < c.taken; omega, hm, hframe, fun k m' hik hkn _ =>
          absurd hkn (by change ¬k < c.taken; omega)⟩, hbound⟩
    · next hframe =>
      have hkept : c.kept = some (j, m') := by
        rw [Conn.kept, hpc]
        exact hj
      obtain ⟨hnew, hlt⟩ := h.kept hopen j m' hkept
      rw [hhandled] at hnew
      have hsucc := hnew.succ hm (Bool.eq_false_iff.mpr hframe)
      rw [hi] at hsucc
      exact ⟨hsucc, hlt⟩

/-- The displays are taken from the channel in the handshake. -/
theorem Inv.takeDisplays (h : c.Inv) {d : Displays} {c₁ : Conn} (hpc : c.pc = .awaitingDisplays)
    (hrecv : c.recv = some ((i, .displays d), c₁)) : Inv { c₁ with pc := .sendingList d } := by
  obtain ⟨x, queue, hq, hm, rfl⟩ := recv_cases hrecv
  obtain ⟨rfl, rfl⟩ := Prod.mk.inj hm
  obtain ⟨hx, hdrop, hle⟩ := h.next hq
  have hopen : c.pc ≠ .closed := by rw [hpc]; rintro ⟨⟩
  have hold : c.handled = c.taken := by rw [handled, hpc]; rfl
  have hfresh := h.fresh (by rw [hpc]; rfl)
  have hshapes : shapesSent c.log = shapesTaken c.produced (c.taken + 1) := by
    rw [shapesTaken_succ hx, h.shapes hopen, hold]
    simp [DrmProducerMsg.isCursor]
  refine ⟨h.sum, h.nonneg, h.acked, fun _ => hfresh, hdrop, hle, ?_, h.sorted, nofun, ?_, nofun,
    fun _ => hshapes,
    by rw [hshapes], fun _ => h.wire hopen, h.cut⟩
  · intro j t m hj hframe
    obtain ⟨hle, hnew⟩ := h.sent j t m hj hframe
    exact ⟨Nat.le_trans hle (hold ▸ Nat.le_succ _), hnew⟩
  · intro _ j m hj
    have hnone : c.heldFrame = some (j, m) := hj
    rw [hfresh.2.2] at hnone
    cases hnone

/-- A list of displays is sent. -/
theorem Inv.announce (h : c.Inv) {e : Sent} (he : e.isFrame = false)
    (hmessage : ∀ i t m, e ≠ .message i t m) (hopen : c.pc ≠ .closed) (hhand : p.hand = c.pc.hand)
    (hpump : p.pumping = c.pc.pumping) (hshake : p.handshake = true → c.pc.handshake = true) :
    Inv { c with wire := c.wire ++ e.items, log := c.log ++ [e], pc := p } := by
  have hserials : frameSerials (c.log ++ [e]) = frameSerials c.log := by
    rw [frameSerials_append]
    cases e with
    | message i t m => exact absurd rfl (hmessage i t m)
    | _ => exact List.append_nil _
  have hshapes : shapesSent (c.log ++ [e]) = shapesSent c.log := by
    rw [shapesSent_append]
    cases e with
    | message i t m => exact absurd rfl (hmessage i t m)
    | _ => exact List.append_nil _
  have hcount : frameCount (c.log ++ [e]) = frameCount c.log := by
    rw [frameCount_append, he, if_neg (by decide), Nat.add_zero]
  have hwire : c.wire ++ e.items = (c.log ++ [e]).flatMap Sent.items := by
    rw [h.wire hopen, List.flatMap_append, List.flatMap_singleton]
  have hstill := h.still (g := c.seenGen) (k := c.crtc) (d := c.demand) hopen hhand hpump hshake
  refine ⟨by rw [hcount]; exact h.sum, h.nonneg, ?_, by
    rw [hcount]; exact hstill.fresh, h.channel, h.le, ?_,
    by
      rw [hserials]; exact h.sorted, hstill.hand, ?_, hstill.apart, ?_, ?_, fun _ =>
        hwire, .of_eq hwire⟩
  · refine Nat.le_trans h.acked (List.Sublist.countP_le (List.IsPrefix.sublist ?_))
    exact List.IsPrefix.take (List.prefix_append _ _) _
  · intro i t m hm hframe
    rcases List.mem_append.mp hm with hm | hm
    · exact hstill.sent i t m hm hframe
    · exact absurd (List.mem_singleton.mp hm).symm (hmessage i t m)
  · rw [hserials]
    exact hstill.kept
  · rw [hshapes]
    exact hstill.shapes
  · rw [hshapes]
    exact h.shapesPrefix

/-! ### The frame that is kept -/

/-- `held_frame.take()`. -/
theorem Inv.takeHeld (h : c.Inv) {first : Option Taken} (hpc : c.pc = .taking first)
    (hhand : p.hand = first) (hpump : p.pumping = true) (hshake : p.handshake = false) :
    Inv { c with latestFrame := c.heldFrame, heldFrame := none, pc := p } := by
  have hopen : c.pc ≠ .closed := by rw [hpc]; rintro ⟨⟩
  have hhand' : p.hand = c.pc.hand := by rw [hpc]; exact hhand
  have hhandled : handled { c with latestFrame := c.heldFrame, heldFrame := none, pc := p } =
      c.handled := by
    rw [handled, handled, hhand']
  refine ⟨h.sum, h.nonneg, h.acked, ?_, h.channel, h.le, ?_, h.sorted, ?_, ?_, fun _ => rfl, ?_,
    h.shapesPrefix,
    fun _ => h.wire hopen, h.cut⟩
  · intro hs
    rw [hshake] at hs
    cases hs
  · rw [hhandled]
    exact h.sent
  · rw [hhand']
    exact h.hand
  · intro _ i m hm
    rw [Conn.kept, if_pos hpump] at hm
    rw [hhandled]
    refine h.kept hopen i m ?_
    rw [Conn.kept, hpc]
    exact hm
  · rw [hhandled]
    exact fun _ => h.shapes hopen

/-- The frame is held back. -/
theorem Inv.hold (h : c.Inv) (hpc : c.pc = .deciding) :
    Inv { c with heldFrame := c.latestFrame, latestFrame := none, pc := .top 0 } := by
  have hopen : c.pc ≠ .closed := by rw [hpc]; rintro ⟨⟩
  have hhandled : handled { c with heldFrame := c.latestFrame, latestFrame := none, pc := .top 0 } =
      c.handled := by
    rw [handled, handled, hpc]
    rfl
  refine ⟨h.sum, h.nonneg, h.acked, nofun, h.channel, h.le, ?_, h.sorted, nofun, ?_, nofun, ?_,
    h.shapesPrefix,
    fun _ => h.wire hopen, h.cut⟩
  · rw [hhandled]
    exact h.sent
  · intro _ i m hm
    rw [hhandled]
    refine h.kept hopen i m ?_
    rw [Conn.kept, hpc]
    exact hm
  · rw [hhandled]
    exact fun _ => h.shapes hopen

/-- The frame is sent. -/
theorem Inv.sendFrame (h : c.Inv) (hpc : c.pc = .deciding) (hlatest : c.latestFrame = some (i, m))
    (hcredit : 0 < c.credit) : Inv { c with
      latestFrame := none
      wire := c.wire ++ m.items
      log := c.log ++ [Sent.message i c.taken m]
      credit := c.credit - 1
      pc := .top 0 } := by
  have hopen : c.pc ≠ .closed := by rw [hpc]; rintro ⟨⟩
  have hhandled : c.handled = c.taken := by rw [handled, hpc]; rfl
  have hkept : c.kept = some (i, m) := by rw [Conn.kept, hpc]; exact hlatest
  obtain ⟨hnew, hlt⟩ := h.kept hopen i m hkept
  have hcursor : m.isCursor = false := by
    have hframe := hnew.frame
    cases m <;> simp_all [DrmProducerMsg.isCursor, DrmProducerMsg.isFrame]
  have hserials : frameSerials (c.log ++ [Sent.message i c.taken m]) = frameSerials c.log ++
      [i] := by
    rw [frameSerials_append]
    simp [frameSerials, hnew.frame]
  have hcount : frameCount (c.log ++ [Sent.message i c.taken m]) = frameCount c.log + 1 := by
    rw [frameCount_append, Sent.isFrame, hnew.frame, if_pos rfl]
  have hshapes : shapesSent (c.log ++ [Sent.message i c.taken m]) = shapesSent c.log := by
    rw [shapesSent_append]
    simp [shapesSent, hcursor]
  have hwire : c.wire ++ m.items = (c.log ++ [Sent.message i c.taken m]).flatMap Sent.items := by
    rw [h.wire hopen, List.flatMap_append, List.flatMap_singleton]
    rfl
  have hsum := h.sum
  refine ⟨?_, by change 0 ≤ c.credit - 1; omega, ?_, by rintro ⟨⟩, h.channel, h.le, ?_, ?_, by
    rintro _ _ ⟨⟩, ?_, by rintro ⟨⟩, ?_, ?_,
    fun _ => hwire, .of_eq hwire⟩
  · simp only [hcount]
    push_cast
    omega
  · refine Nat.le_trans h.acked (List.Sublist.countP_le (List.IsPrefix.sublist ?_))
    exact List.IsPrefix.take (List.prefix_append _ _) _
  · intro j t m' hj hframe
    change t ≤ c.taken ∧ Newest c.produced t j m'
    rcases List.mem_append.mp hj with hj | hj
    · obtain ⟨hle, hnew'⟩ := h.sent j t m' hj hframe
      exact ⟨hhandled ▸ hle, hnew'⟩
    · obtain ⟨rfl, rfl, rfl⟩ := Sent.message.inj (List.mem_singleton.mp hj)
      exact ⟨Nat.le_refl _, hhandled ▸ hnew⟩
  · rw [hserials, List.pairwise_append]
    refine ⟨h.sorted, List.pairwise_singleton _ _, fun j hj k hk => ?_⟩
    rw [List.mem_singleton.mp hk]
    exact hlt j hj
  · intro _ j m' hj
    have hnone := h.apart (by rw [hpc]; rfl)
    change c.heldFrame = some (j, m') at hj
    rw [hnone] at hj
    cases hj
  · intro _
    rw [hshapes, h.shapes hopen, hhandled]
    rfl
  · rw [hshapes]
    exact h.shapesPrefix

/-! ### Acknowledgements -/

/-- No byte that is read is lost to the bound on the credit. -/
theorem Inv.credit_add_le (h : c.Inv) : c.credit + c.acks.length ≤ drmFrameCredit := by
  have hsum := h.sum
  have hacked : c.acked ≤ frameCount c.log :=
    Nat.le_trans h.acked (List.Sublist.countP_le (List.take_sublist _ _))
  omega

theorem Inv.readAcks (h : c.Inv) {n : ℕ} (hread : c.readAcks n = some c')
    (hshake : c.pc.handshake = false) : c'.Inv ∧ c'.pc = c.pc := by
  rw [Conn.readAcks] at hread
  split at hread
  · next hn =>
    obtain rfl := Option.some.inj hread
    have hle := h.credit_add_le
    have hsum := h.sum
    have hmin : min (c.credit + n) drmFrameCredit = c.credit + n := min_eq_left (by omega)
    refine ⟨⟨?_, ?_, h.acked, ?_, h.channel, h.le, h.sent, h.sorted, h.hand, h.kept, h.apart,
      h.shapes, h.shapesPrefix,
      h.wire, h.cut⟩, rfl⟩
    · simp only [hmin, List.length_drop]
      omega
    · simp only [hmin]
      have := h.nonneg
      omega
    · intro hs
      rw [hshake] at hs
      cases hs
  · cases hread

/-- `drain_frame_acks`. -/
theorem Inv.drainFrameAcks (h : c.Inv) {reads : ℕ} {again : ℕ → TaskPc} {next : TaskPc}
    (hdrain : c.drainFrameAcks reads again next act = some c') (hopen : c.pc ≠ .closed)
    (hshake : c.pc.handshake = false) (hagain : ∀ n, (again n).hand = c.pc.hand ∧
    (again n).pumping = c.pc.pumping ∧
      (again n).handshake = false)
    (hnext : next.hand = c.pc.hand ∧ next.pumping = c.pc.pumping ∧ next.handshake = false) :
    c'.Inv := by
  have hmove : ∀ {b : Conn} {p : TaskPc}, b.Inv → b.pc = c.pc →
      p.hand = c.pc.hand ∧ p.pumping = c.pc.pumping ∧ p.handshake = false →
        Inv { b with pc := p } := by
    rintro b p hb hpc ⟨hhand, hpump, hfalse⟩
    rw [← hpc] at hopen hhand hpump
    refine hb.still (g := b.seenGen) (k := b.crtc) (d := b.demand) hopen hhand hpump fun hs => ?_
    rw [hfalse] at hs
    cases hs
  cases act with
  | read n =>
    rw [Conn.drainFrameAcks] at hdrain
    split at hdrain
    · obtain ⟨b, hb, rfl⟩ := Option.map_eq_some_iff.mp hdrain
      obtain ⟨hinv, hpc⟩ := h.readAcks hb hshake
      split
      · exact hmove hinv hpc hnext
      · exact hmove hinv hpc (hagain _)
    · cases hdrain
  | go =>
    obtain rfl := Option.some.inj hdrain
    exact hmove h rfl hnext
  | close =>
    obtain rfl := Option.some.inj hdrain
    exact h.closed
  | start | noMessage | send => cases hdrain

/-! ### The other parties -/

theorem Inv.produce (h : c.Inv) (hproduce : c.produce m = some c') : c'.Inv := by
  rw [Conn.produce] at hproduce
  split at hproduce
  · obtain rfl := Option.some.inj hproduce
    have hle := h.le
    have hget : ∀ {i : ℕ} {x : DrmProducerMsg}, c.produced[i]? = some x →
        (c.produced ++ [m])[i]? = some x := by
      intro i x hx
      rw [List.getElem?_append_left (List.getElem?_eq_some_iff.mp hx).1]
      exact hx
    have hhandled : c.handled ≤ c.produced.length := Nat.le_trans c.handled_le hle
    refine ⟨h.sum, h.nonneg, h.acked, h.fresh, ?_, ?_, ?_, h.sorted, ?_, ?_, h.apart, ?_, ?_,
      h.wire, h.cut⟩
    · simp only
      rw [List.drop_append_of_le_length hle, h.channel]
    · simp only [List.length_append]
      omega
    · intro i t x hx hframe
      obtain ⟨ht, hnew⟩ := h.sent i t x hx hframe
      exact ⟨ht, hnew.append m (Nat.le_trans ht hhandled)⟩
    · intro i x hx
      obtain ⟨hi, hget'⟩ := h.hand i x hx
      exact ⟨hi, hget hget'⟩
    · intro hopen i x hx
      obtain ⟨hnew, hlt⟩ := h.kept hopen i x hx
      exact ⟨hnew.append m hhandled, hlt⟩
    · intro hopen
      exact (h.shapes hopen).trans (shapesTaken_append m hhandled).symm
    · simp only
      rw [shapesTaken_append m hle]
      exact h.shapesPrefix
  · cases hproduce

/-- Where the capture thread stands makes no difference. -/
theorem Inv.workerPc (h : c.Inv) (p : WorkerPc) : Inv { c with workerPc := p } :=
  ⟨h.sum, h.nonneg, h.acked, h.fresh, h.channel, h.le, h.sent, h.sorted, h.hand, h.kept, h.apart,
    h.shapes, h.shapesPrefix,
    h.wire, h.cut⟩

theorem Inv.worker (h : c.Inv) {topology : Displays} {act : WorkerAct} {asks : Bool}
    (hworker : c.worker topology act = some (c', asks)) : c'.Inv := by
  cases act with
  | enumerate | openReader ok | refresh =>
    rw [Conn.worker] at hworker
    split at hworker
    · obtain ⟨rfl, -⟩ := Prod.mk.inj (Option.some.inj hworker)
      exact h.workerPc _
    · cases hworker
  | list =>
    rw [Conn.worker] at hworker
    split at hworker
    · obtain ⟨b, hb, heq⟩ := Option.map_eq_some_iff.mp hworker
      obtain ⟨rfl, -⟩ := Prod.mk.inj heq
      exact (h.produce hb).workerPc _
    · cases hworker
  | produce m =>
    rw [Conn.worker] at hworker
    split at hworker
    · obtain ⟨b, hb, heq⟩ := Option.map_eq_some_iff.mp hworker
      obtain ⟨rfl, -⟩ := Prod.mk.inj heq
      exact h.produce hb
    · cases hworker
  | stop =>
    obtain ⟨rfl, -⟩ := Prod.mk.inj (Option.some.inj hworker)
    exact h.workerPc _

theorem Inv.consumer (h : c.Inv) {act : ConsumerAct} (hconsumer : c.consumer act = some c') :
    c'.Inv := by
  cases act with
  | receive =>
    rw [Conn.consumer] at hconsumer
    split at hconsumer
    · obtain rfl := Option.some.inj hconsumer
      have hacked : c.acked ≤ frameCount (c.log.take (c.received + 1)) :=
        Nat.le_trans h.acked (List.Sublist.countP_le (List.take_sublist_take_left (Nat.le_succ _)))
      exact ⟨h.sum, h.nonneg, hacked, h.fresh, h.channel, h.le, h.sent, h.sorted, h.hand, h.kept,
        h.apart, h.shapes,
        h.shapesPrefix, h.wire, h.cut⟩
    · cases hconsumer
  | ack b =>
    rw [Conn.consumer] at hconsumer
    split at hconsumer
    · next hlt =>
      obtain rfl := Option.some.inj hconsumer
      have hsum := h.sum
      have hcount : (c.log.take c.received).countP Sent.isFrame ≤ frameCount c.log :=
        List.Sublist.countP_le (List.take_sublist _ _)
      refine ⟨?_, h.nonneg, hlt, h.fresh, h.channel, h.le, h.sent, h.sorted, h.hand, h.kept,
        h.apart, h.shapes,
        h.shapesPrefix, h.wire, h.cut⟩
      simp only [List.length_append, List.length_singleton]
      push_cast
      omega
    · cases hconsumer

/-! ### The task, statement by statement -/

/-- The task goes on, and all else is as it was. -/
theorem Inv.goto (h : c.Inv) (hopen : c.pc ≠ .closed) (hhand : p.hand = c.pc.hand)
    (hpump : p.pumping = c.pc.pumping) (hshake : p.handshake = true → c.pc.handshake = true) :
    Inv { c with pc := p } :=
  h.still (g := c.seenGen) (k := c.crtc) (d := c.demand) hopen hhand hpump hshake

/-- A send that does not come to its end closes the connection. -/
theorem Inv.send (h : c.Inv) {e : Sent} {out : ℕ} {next : Conn → Conn} (hopen : c.pc ≠ .closed)
    (hnext : Inv (next { c with wire := c.wire ++ e.items, log := c.log ++ [e] })) :
    (c.send e out next).Inv := by
  rw [Conn.send]
  split
  · exact hnext
  · next hout => exact h.close c.latestFrame _ (h.cutOff hopen hout)

/-- A connection that is closed makes no statement. -/
theorem open_of_task (htask : c.task generation cache act = some c') : c.pc ≠ .closed := by
  intro hclosed
  rw [Conn.task.eq_def, hclosed] at htask
  cases act <;> cases htask

/-- What the task does where the frame to go first is chosen. -/
theorem Inv.gated (h : c.Inv) (hpc : c.pc = .gated)
    (htask : c.task generation cache act = some c') : c'.Inv := by
  have hopen := open_of_task htask
  have hgo : Inv { c with pc := .chosen none } :=
    h.goto hopen (by rw [hpc]; rfl) (by rw [hpc]; rfl) nofun
  have hrecv : ∀ {m : Taken} {c₁ : Conn}, c.recv = some (m, c₁) →
      Inv { c₁ with pc := .chosen (some m) } := by
    intro m c₁ hrecv
    exact h.take hrecv hopen (by rw [hpc]; rfl) rfl (by rw [hpc]; rfl) rfl
  rw [Conn.task.eq_def, hpc] at htask
  cases act with
  | go =>
    simp only at htask
    split at htask
    · split at htask
      · next heq =>
        obtain rfl := Option.some.inj htask
        exact hrecv heq
      · obtain rfl := Option.some.inj htask
        exact hgo
    · split at htask
      · next heq =>
        obtain rfl := Option.some.inj htask
        exact hrecv heq
      · cases htask
  | noMessage =>
    simp only at htask
    split at htask
    · obtain rfl := Option.some.inj htask
      exact hgo
    · cases htask
  | close =>
    obtain rfl := Option.some.inj htask
    exact h.closed
  | start | read | send => cases htask

/-- The body of `while let Some(m)`. -/
theorem Inv.handling (h : c.Inv) {im : Taken} (hpc : c.pc = .handling im)
    (htask : c.task generation cache act = some c') : c'.Inv := by
  have hopen := open_of_task htask
  obtain ⟨i, m⟩ := im
  have hwire := h.wire hopen
  rw [Conn.task.eq_def, hpc] at htask
  cases act with
  | send out =>
    cases m with
    | frame desc fd =>
      obtain rfl := Option.some.inj htask
      have hhandle := h.handle hpc (some (i, .frame desc fd)) c.log rfl rfl
      rwa [← hwire] at hhandle
    | frameCpu width height data planeRotation cursorPos =>
      obtain rfl := Option.some.inj htask
      have hhandle := h.handle hpc (some (i, .frameCpu width height data planeRotation cursorPos))
        c.log rfl rfl
      rwa [← hwire] at hhandle
    | cursor id width height hotx hoty hotMeasured colors =>
      obtain rfl := Option.some.inj htask
      refine h.send hopen ?_
      have hhandle := h.handle hpc c.latestFrame (c.log ++ [Sent.message i c.taken _]) rfl rfl
      rwa [List.flatMap_append, List.flatMap_singleton, ← hwire] at hhandle
    | displays d =>
      obtain rfl := Option.some.inj htask
      have hhandle := h.handle hpc c.latestFrame c.log rfl rfl
      rwa [← hwire] at hhandle
  | go | start | read | noMessage | close => cases htask

/-- The frame is sent, or held until there is credit. -/
theorem Inv.deciding (h : c.Inv) (hpc : c.pc = .deciding)
    (htask : c.task generation cache act = some c') : c'.Inv := by
  have hopen := open_of_task htask
  rw [Conn.task.eq_def, hpc] at htask
  cases act with
  | send out =>
    simp only at htask
    split at htask
    · obtain rfl := Option.some.inj htask
      exact h.hold hpc
    · next hcredit =>
      split at htask
      · next i m hlatest =>
        obtain rfl := Option.some.inj htask
        rw [Conn.send]
        split
        · exact h.sendFrame hpc hlatest (by omega)
        · next hout => exact h.close none _ (h.cutOff hopen hout)
      · next hlatest =>
        obtain rfl := Option.some.inj htask
        have hhold := h.hold hpc
        have hheld := h.apart (by rw [hpc]; rfl)
        rw [hlatest] at hhold
        rwa [hheld, hlatest]
  | go | start | read | noMessage | close => cases htask

/-- The first message must be the list. -/
theorem Inv.awaitingDisplays (h : c.Inv) (hpc : c.pc = .awaitingDisplays)
    (htask : c.task generation cache act = some c') : c'.Inv := by
  have hopen := open_of_task htask
  rw [Conn.task.eq_def, hpc] at htask
  cases act with
  | go =>
    simp only at htask
    split at htask
    · next hrecv =>
      obtain rfl := Option.some.inj htask
      exact h.takeDisplays hpc hrecv
    · next m c₁ _ hrecv =>
      obtain rfl := Option.some.inj htask
      have htaken := h.take (p := .chosen (some m)) hrecv hopen (by rw [hpc]; rfl)
        rfl (by rw [hpc]; rfl) rfl
      exact htaken.closed
    · cases htask
  | close =>
    obtain rfl := Option.some.inj htask
    exact h.closed
  | start | read | noMessage | send => cases htask

/-- What the consumer asks for must be on the list. -/
theorem Inv.awaitingStart (h : c.Inv) {d : Displays} (hpc : c.pc = .awaitingStart d)
    (htask : c.task generation cache act = some c') : c'.Inv := by
  have hopen := open_of_task htask
  rw [Conn.task.eq_def, hpc] at htask
  cases act with
  | start display needCpu =>
    simp only at htask
    split at htask
    · split at htask
      · obtain rfl := Option.some.inj htask
        exact h.closed
      · obtain rfl := Option.some.inj htask
        exact h.still (g := c.seenGen) (d := c.demand) hopen (by rw [hpc]; rfl) (by rw [hpc]; rfl)
          fun _ => by rw [hpc]; rfl
    · obtain rfl := Option.some.inj htask
      exact h.closed
  | close =>
    obtain rfl := Option.some.inj htask
    exact h.closed
  | go | read | noMessage | send => cases htask

/-- **One statement of the task.** -/
theorem Inv.task (h : c.Inv) {generation : ℕ} {cache : Displays} {act : TaskAct}
    (htask : c.task generation cache act = some c') : c'.Inv := by
  have hopen := open_of_task htask
  cases hpc : c.pc with
  | awaitingDisplays =>
    exact h.awaitingDisplays hpc htask
  | sendingList d =>
    rw [Conn.task.eq_def, hpc] at htask
    cases act with
    | send out =>
      obtain rfl := Option.some.inj htask
      refine h.send hopen (h.announce rfl (fun _ _ _ heq => by cases heq) hopen ?_ ?_ ?_)
      all_goals rw [hpc]
      · rfl
      · rfl
      · exact fun _ => rfl
    | go | start | read | noMessage | close => cases htask
  | awaitingStart d =>
    exact h.awaitingStart hpc htask
  | starting =>
    rw [Conn.task.eq_def, hpc] at htask
    cases act with
    | go =>
      obtain rfl := Option.some.inj htask
      obtain ⟨hcredit, -, hheld⟩ := h.fresh (by rw [hpc]; rfl)
      have hgo := h.still (p := .top 0) (g := generation) (k := c.crtc) (d := 0)
        hopen (by rw [hpc]; rfl)
        (by rw [hpc]; rfl) nofun
      rw [hcredit, hheld] at hgo
      exact hgo
    | start | read | noMessage | send | close => cases htask
  | top reads | settling reads =>
    rw [Conn.task.eq_def, hpc] at htask
    refine h.drainFrameAcks htask ?_ ?_ (fun n => ?_) ?_
    all_goals rw [hpc]
    · exact nofun
    · rfl
    · exact ⟨rfl, rfl, rfl⟩
    · exact ⟨rfl, rfl, rfl⟩
  | gated =>
    exact h.gated hpc htask
  | chosen first =>
    rw [Conn.task.eq_def, hpc] at htask
    cases act with
    | go =>
      obtain rfl := Option.some.inj htask
      exact h.goto hopen (by rw [hpc]; rfl) (by rw [hpc]; rfl) nofun
    | close =>
      obtain rfl := Option.some.inj htask
      exact h.closed
    | start | read | noMessage | send => cases htask
  | loading first =>
    rw [Conn.task.eq_def, hpc] at htask
    cases act with
    | go =>
      simp only at htask
      split at htask
      · obtain rfl := Option.some.inj htask
        exact h.still (k := c.crtc) (d := c.demand) hopen (by rw [hpc]; rfl)
          (by rw [hpc]; rfl) nofun
      · obtain rfl := Option.some.inj htask
        exact h.goto hopen (by rw [hpc]; rfl) (by rw [hpc]; rfl) nofun
    | start | read | noMessage | send | close => cases htask
  | cloning first =>
    rw [Conn.task.eq_def, hpc] at htask
    cases act with
    | go =>
      obtain rfl := Option.some.inj htask
      exact h.goto hopen (by rw [hpc]; rfl) (by rw [hpc]; rfl) nofun
    | start | read | noMessage | send | close => cases htask
  | sending first fresh =>
    rw [Conn.task.eq_def, hpc] at htask
    cases act with
    | send out =>
      obtain rfl := Option.some.inj htask
      exact h.send hopen (h.announce rfl (fun _ _ _ heq => by cases heq) hopen (by rw [hpc]; rfl)
        (by rw [hpc]; rfl) nofun)
    | go | start | read | noMessage | close => cases htask
  | taking first =>
    rw [Conn.task.eq_def, hpc] at htask
    cases act with
    | go =>
      simp only at htask
      split at htask
      · obtain rfl := Option.some.inj htask
        exact h.takeHeld hpc rfl rfl rfl
      · obtain rfl := Option.some.inj htask
        exact h.takeHeld hpc rfl rfl rfl
    | start | read | noMessage | send | close => cases htask
  | fetching =>
    rw [Conn.task.eq_def, hpc] at htask
    cases act with
    | go =>
      simp only at htask
      split at htask
      · next heq =>
        obtain rfl := Option.some.inj htask
        exact h.take heq hopen (by rw [hpc]; rfl) rfl (by rw [hpc]; rfl) rfl
      · obtain rfl := Option.some.inj htask
        exact h.goto hopen (by rw [hpc]; rfl) (by rw [hpc]; rfl) nofun
    | start | read | noMessage | send | close => cases htask
  | handling im =>
    exact h.handling hpc htask
  | deciding =>
    exact h.deciding hpc htask
  | closed =>
    rw [Conn.task.eq_def, hpc] at htask
    cases act <;> cases htask

/-- What holds in every state of every run. A connection that has ended may owe the message that was
in hand. -/
structure Fair (c : Conn) : Prop where
  sum : c.credit + ((frameCount c.log : ℤ) - c.acked) + c.acks.length = drmFrameCredit
  outstanding : frameCount c.log ≤ c.acked + 2
  /-- no byte is lost when the credit is cut at its maximum -/
  bounded : c.credit + c.acks.length ≤ drmFrameCredit
  ordered : (frameSerials c.log).Pairwise (· < ·)
  newest : ∀ i t m, .message i t m ∈ c.log → m.isFrame = true → Newest c.produced t i m
  shapes : c.pc ≠ .closed → shapesSent c.log = shapesTaken c.produced c.handled
  shapesPrefix : shapesSent c.log <+: shapesTaken c.produced c.taken
  wire : c.pc ≠ .closed → c.wire = c.log.flatMap Sent.items
  cut : Cut c.log c.wire

theorem Inv.fair (h : c.Inv) : c.Fair := by
  refine ⟨h.sum, ?_, h.credit_add_le, h.sorted, fun i t m hm hframe => (h.sent i t m hm hframe).2,
    h.shapes, h.shapesPrefix,
    h.wire, h.cut⟩
  have hsum := h.sum
  have hnonneg := h.nonneg
  rw [drmFrameCredit] at hsum
  omega

end Conn

/-! ## Runs -/

section Runs

variable {s s' : Sys} {a : Act}

theorem step_inv (h : s.conn.Inv) (hstep : s.step a = some s') : s'.conn.Inv := by
  cases a with
  | refresh a =>
    obtain ⟨r, -, rfl⟩ := Option.map_eq_some_iff.mp hstep
    exact h
  | worker a =>
    obtain ⟨⟨c, asks⟩, hworker, rfl⟩ := Option.map_eq_some_iff.mp hstep
    exact h.worker hworker
  | task a =>
    obtain ⟨c, htask, rfl⟩ := Option.map_eq_some_iff.mp hstep
    exact h.task htask
  | consumer a =>
    obtain ⟨c, hconsumer, rfl⟩ := Option.map_eq_some_iff.mp hstep
    exact h.consumer hconsumer

/-- **Every run of a connection is fair.** -/
theorem frame_credit {displays : Displays} {generation : ℕ} {acts : List Act}
    (hrun : exec Sys.step (Sys.start displays generation) acts = some s) : s.conn.Fair :=
  (exec_invariant (I := fun s : Sys => s.conn.Inv) (fun _ _ _ => step_inv)
    Conn.accepted_inv hrun).fair

end Runs

/-- Two frames use up the credit, the third is held back, and the shape overtakes it. -/
theorem frame_credit_held :
    ∃ s, exec Sys.step (Sys.start [monitor] 0) (handshake ++ iteration (picture 1) ++
    iteration (picture 2) ++ iteration (picture 3) ++ iteration arrow) = some s ∧ s.conn.Fair ∧
    frameSerials s.conn.log = [1, 2] ∧ s.conn.heldFrame = some (3, picture 3) ∧
    shapesSent s.conn.log = [(arrow, 4)] := by
  have hrun :
    (exec Sys.step (Sys.start [monitor] 0) (handshake ++ iteration (picture 1) ++
      iteration (picture 2) ++
      iteration (picture 3) ++ iteration arrow)).any (fun s => frameSerials s.conn.log = [1, 2] ∧
        s.conn.heldFrame = some (3, picture 3) ∧ shapesSent s.conn.log = [(arrow, 4)]) = true := by
          decide +kernel
  obtain ⟨s, hs, hp⟩ := (Option.any_eq_true _ _).mp hrun
  exact ⟨s, hs, frame_credit hs, of_decide_eq_true hp⟩

/-- The peer is not authorized any more when the shape is in hand: the task ends, and the shape is
never sent. -/
theorem shape_lost :
    ¬∀ displays generation acts s, exec Sys.step (Sys.start displays generation) acts = some s →
    s.conn.pc.hand = none → shapesSent s.conn.log = shapesTaken s.conn.produced s.conn.taken := by
  intro h
  have hrun :
    (exec Sys.step (Sys.start [monitor] 0)
      (handshake ++ [Act.worker (.produce arrow), .task .go, .task .go,
      .task .close])).any (fun s => s.conn.pc.hand = none ∧ shapesSent s.conn.log = [] ∧
        shapesTaken s.conn.produced s.conn.taken = [(arrow, 1)]) = true := by decide +kernel
  obtain ⟨s, hs, hp⟩ := (Option.any_eq_true _ _).mp hrun
  obtain ⟨hhand, hsent, htaken⟩ := of_decide_eq_true hp
  have hall := h _ _ _ s hs hhand
  rw [hsent, htaken] at hall
  cases hall

end Drm
end BgDesk
