import Mathlib.Data.List.Forall2
import BgDesk.Machine
import BgDesk.WebRtcFrames

/-!
# Clones that send at once

`send_bytes` of `libs/hbb_common/src/webrtc.rs`, called on any number of clones of one stream, and
the reader at the other end. The fragments of a message carry no length and no sequence number, so
the reader cannot tell a message that was torn: what keeps two messages apart is the one permit of
`send_gate`, held for a whole message and handed to the teardown where a call leaves fragments
behind.

* `callStep` — one call of `send_bytes`, from the wait for the connection to its return;
* `linkStep` — the calls, the teardown that holds the permit, and the reader;
* `Link.Kept` — what every step preserves: the fragments on the channel, with those that the holder
  of the permit still owes, are whole messages of different calls;
* `no_corruption` — every message the reader returns was passed to a call of its own.
-/

namespace BgDesk
namespace WebRtc

/-! ## The calls -/

/-- Where a call of `send_bytes` is. The flag is `wrote_any`. -/
inductive Phase where
  | connecting
  | queued
  | opening
  | writing (todo : List Bytes) (wroteAny : Bool)
  | returned (error : Option String)
  deriving DecidableEq

/-- A call, with a `send_timeout` or without. -/
structure SendCall where
  bytes : Bytes
  timed : Bool
  phase : Phase
  deriving DecidableEq

/-- The permit of `send_gate`: free, with a call, or with the teardown. -/
inductive Permit where
  | free
  | held (i : ℕ)
  | teardown
  deriving DecidableEq

/-- The calls so far, the connection, and the reader with what has been delivered to it. -/
structure Link where
  calls : List SendCall
  permit : Permit
  closed : Bool
  maxRecv : ℕ
  reader : Reader
  deriving DecidableEq

def Link.start (maxRecv : ℕ) : Link := ⟨[], .free, false, maxRecv, .start []⟩

def Link.goto (s : Link) (i : ℕ) (c : SendCall) (phase : Phase) : Link :=
  { s with calls := s.calls.set i { c with phase := phase } }

/-- What is written after the connection is closed is not delivered. -/
def Link.deliver (s : Link) (frame : Bytes) : Link :=
  if s.closed then s else { s with
    reader := { s.reader with channel := s.reader.channel ++ [frame] } }

/-- What happens to one call. A write that is cut off by the timeout may have put its fragment on
the channel. -/
inductive CallAct where
  | connected
  | connectFails (why : String)
  | connectTimesOut
  | acquire
  | gateTimesOut
  | opens
  | openFails (why : String)
  | writes
  | writeFails (why : String)
  | timesOut (landed : Bool)
  deriving DecidableEq

/-- `send_bytes` with `send_bytes_inner`, from one wait to the next. -/
def callStep (s : Link) (i : ℕ) (c : SendCall) : CallAct → Option Link
  | .connected =>
    match c.phase with
    | .connecting => some (s.goto i c .queued)
    | _ => none
  | .connectFails why =>
    match c.phase with
    | .connecting => some (s.goto i c (.returned (some why)))
    | _ => none
  | .connectTimesOut =>
    match c.phase with
    | .connecting => some (s.goto i c (.returned (some "WebRTC connect timeout")))
    | _ => none
  | .acquire =>
    match c.phase with
    | .queued =>
      if s.permit = .free then
        -- the length is looked at with the permit in hand, which is dropped again
        if maxRecvMessage < c.bytes.length then some (s.goto i c (.returned (some "Overflow")))
        else some { s.goto i c .opening with permit := .held i }
      else none
    | _ => none
  | .gateTimesOut =>
    match c.phase with
    | .queued =>
      if c.timed then some (s.goto i c (.returned (some "WebRTC send gate timeout"))) else none
    | _ => none
  | .opens =>
    match c.phase with
    | .opening => some (s.goto i c (.writing (fragments c.bytes) false))
    | _ => none
  | .openFails why =>
    match c.phase with
    | .opening => some { s.goto i c (.returned (some why)) with permit := .free }
    | _ => none
  | .writes =>
    match c.phase with
    | .writing (frame :: todo) _ =>
      let s := s.deliver frame
      if todo = [] then some { s.goto i c (.returned none) with permit := .free }
      else some (s.goto i c (.writing todo true))
    | _ => none
  | .writeFails why =>
    match c.phase with
    | .writing (_ :: _) wroteAny =>
      -- `desynced`: the permit goes to the teardown, else it is dropped with the call
      some { s.goto i c (.returned (some why)) with
        permit := if wroteAny then .teardown else .free }
    | _ => none
  | .timesOut landed =>
    if c.timed then
      match c.phase with
      | .opening =>
        some { s.goto i c (.returned (some "WebRTC send timeout")) with permit := .teardown }
      | .writing (frame :: _) _ =>
        let s := if landed then s.deliver frame else s
        some { s.goto i c (.returned (some "WebRTC send timeout")) with permit := .teardown }
      | _ => none
    else none

/-! ## The link -/

def Outcome.isMessage : Outcome → Bool
  | .message _ => true
  | _ => false

/-- Nothing but messages so far. -/
def Reader.sound (r : Reader) : Bool := r.results.all fun entry => entry.1.isMessage

/-- The messages the reader returned, in order. -/
def Reader.messages (r : Reader) : List Bytes :=
  r.results.filterMap fun entry =>
    match entry.1 with
    | .message m => some m
    | _ => none

/-- A clone calls `send_bytes`; a call moves; the teardown that has the permit has closed the
connection; someone else closes it; the reader's bound changes; the reader moves; its stream is
reset. -/
inductive LinkAct where
  | sendBytes (bytes : Bytes) (timed : Bool)
  | call (i : ℕ) (act : CallAct)
  | tornDown
  | close
  | setMaxRecv (maxRecv : ℕ)
  | reader (act : ReadAct)
  | reset
  deriving DecidableEq

/-- One step of the link. Every loop that calls `next` is left at the first return that is not a
message, so a reader does not go on after one. -/
def linkStep (s : Link) : LinkAct → Option Link
  | .sendBytes bytes timed =>
    some { s with calls := s.calls ++ [⟨bytes, timed, if timed then .connecting else .queued⟩] }
  | .call i act => (s.calls[i]?).bind fun c => callStep s i c act
  | .tornDown =>
    if s.permit = .teardown then some { s with closed := true, permit := .free } else none
  | .close => some { s with closed := true }
  | .setMaxRecv maxRecv => some { s with maxRecv := maxRecv }
  | .reader act =>
    if s.reader.sound then (readStep s.maxRecv s.reader act).map fun r =>
      { s with reader := r } else none
  | .reset =>
    if s.reader.sound ∧ s.reader.calling then
      some { s with reader := s.reader.return { s.reader.recv with acc := [] } .ended }
    else none

/-! ## What a call may do -/

/-- The call has the permit. -/
def Phase.Holding : Phase → Prop
  | .opening => True
  | .writing _ _ => True
  | _ => False

/-- The call may have a fragment on the channel. -/
def Phase.Started : Phase → Prop
  | .writing _ wroteAny => wroteAny = true
  | .returned _ => True
  | _ => False

/-- The fragments that are missing from a message of which the others are on the channel. -/
def Phase.owes : Phase → List Bytes
  | .writing todo true => todo
  | _ => []

/-- What a step of a call does: it waits on or gives up without the permit; it takes the permit; it
comes to its loop; it gives up with nothing written and drops the permit; it writes; or it is torn,
with its last write on the channel or not, and the teardown gets the permit. -/
inductive CallMove (s : Link) (i : ℕ) (c : SendCall) : Link → Prop where
  | waits (p : Phase) : ¬c.phase.Holding → ¬c.phase.Started → ¬p.Holding → p.owes = [] →
    CallMove s i c (s.goto i c p)
  | acquires : ¬c.phase.Started → s.permit = .free →
    CallMove s i c { s.goto i c .opening with permit := .held i }
  | opens : c.phase = .opening → CallMove s i c (s.goto i c (.writing (fragments c.bytes) false))
  | drops (error : Option String) : c.phase.Holding → ¬c.phase.Started →
    CallMove s i c { s.goto i c (.returned error) with permit := .free }
  | writesLast (frame : Bytes) (wroteAny : Bool) : c.phase = .writing [frame] wroteAny →
    CallMove s i c { (s.deliver frame).goto i c (.returned none) with permit := .free }
  | writes (frame : Bytes) (todo : List Bytes) (wroteAny : Bool) :
    c.phase = .writing (frame :: todo) wroteAny →
    CallMove s i c ((s.deliver frame).goto i c (.writing todo true))
  | torn (error : Option String) : c.phase.Holding →
    CallMove s i c { s.goto i c (.returned error) with permit := .teardown }
  | tornLanded (error : Option String) (frame : Bytes) (todo : List Bytes) (wroteAny : Bool) :
    c.phase = .writing (frame :: todo) wroteAny →
    CallMove s i c { (s.deliver frame).goto i c (.returned error) with permit := .teardown }

/-- A call that gets the permit of a closed connection gives it back. -/
theorem acquire_moves {s s' : Link} {i : ℕ} {c : SendCall}
    (h : callStep s i c .acquire = some s') : CallMove s i c s' := by
  rw [callStep] at h
  split at h
  · rename_i hphase
    split at h
    · rename_i hfree
      split at h
      · obtain rfl := Option.some.inj h
        exact .waits _ (by simp [hphase, Phase.Holding]) (by simp [hphase, Phase.Started]) id rfl
      · obtain rfl := Option.some.inj h
        exact .acquires (by simp [hphase, Phase.Started]) hfree
    · cases h
  · cases h

/-- A fragment is written. -/
theorem writes_moves {s s' : Link} {i : ℕ} {c : SendCall}
    (h : callStep s i c .writes = some s') : CallMove s i c s' := by
  rw [callStep] at h
  split at h
  · rename_i frame todo wroteAny hphase
    dsimp only at h
    split at h
    · rename_i hlast
      obtain rfl := Option.some.inj h
      exact .writesLast frame wroteAny (hlast ▸ hphase)
    · obtain rfl := Option.some.inj h
      exact .writes frame todo wroteAny hphase
  · cases h

/-- A write fails: with something written the connection is torn down. -/
theorem writeFails_moves {s s' : Link} {i : ℕ} {c : SendCall} {why : String}
    (h : callStep s i c (.writeFails why) = some s') : CallMove s i c s' := by
  rw [callStep] at h
  split at h
  · rename_i frame todo wroteAny hphase
    obtain rfl := Option.some.inj h
    have hholding : c.phase.Holding := by simp [hphase, Phase.Holding]
    cases wroteAny with
    | false => exact .drops _ hholding (by simp [hphase, Phase.Started])
    | true => exact .torn _ hholding
  · cases h

/-- The time of a call runs out. -/
theorem timesOut_moves {s s' : Link} {i : ℕ} {c : SendCall} {landed : Bool}
    (h : callStep s i c (.timesOut landed) = some s') : CallMove s i c s' := by
  rw [callStep] at h
  split at h
  · split at h
    · rename_i hphase
      obtain rfl := Option.some.inj h
      exact .torn _ (by simp [hphase, Phase.Holding])
    · rename_i frame todo wroteAny hphase
      obtain rfl := Option.some.inj h
      cases landed with
      | false => exact .torn _ (by simp [hphase, Phase.Holding])
      | true => exact .tornLanded _ frame todo wroteAny hphase
    · cases h
  · cases h

theorem callStep_moves {s s' : Link} {i : ℕ} {c : SendCall} {act : CallAct}
    (h : callStep s i c act = some s') : CallMove s i c s' := by
  cases act with
  | connected | connectFails why | connectTimesOut =>
    rw [callStep] at h
    split at h
    · rename_i hphase
      obtain rfl := Option.some.inj h
      exact .waits _ (by simp [hphase, Phase.Holding]) (by simp [hphase, Phase.Started]) id rfl
    · cases h
  | acquire => exact acquire_moves h
  | gateTimesOut =>
    rw [callStep] at h
    split at h
    · rename_i hphase
      split at h
      · obtain rfl := Option.some.inj h
        exact .waits _ (by simp [hphase, Phase.Holding]) (by simp [hphase, Phase.Started]) id rfl
      · cases h
    · cases h
  | opens =>
    rw [callStep] at h
    split at h
    · rename_i hphase
      obtain rfl := Option.some.inj h
      exact .opens hphase
    · cases h
  | openFails why =>
    rw [callStep] at h
    split at h
    · rename_i hphase
      obtain rfl := Option.some.inj h
      exact .drops _ (by simp [hphase, Phase.Holding]) (by simp [hphase, Phase.Started])
    · cases h
  | writes => exact writes_moves h
  | writeFails why => exact writeFails_moves h
  | timesOut landed => exact timesOut_moves h

/-! ## What is kept -/

/-- A call was given this message. -/
def Passed (calls : List SendCall) (i : ℕ) (m : Bytes) : Prop :=
  ∃ c, calls[i]? = some c ∧ c.bytes = m

def Begun (calls : List SendCall) (i : ℕ) : Prop := ∃ c, calls[i]? = some c ∧ c.phase.Started

/-- The fragments that the call with the permit owes. -/
def owed (calls : List SendCall) : Permit → List Bytes
  | .held i => ((calls[i]?).map fun c => c.phase.owes).getD []
  | _ => []

/-- A call writes only with the permit, and from the first fragment on. -/
structure Gated (calls : List SendCall) (permit : Permit) : Prop where
  holder : ∀ (i : ℕ) (c : SendCall), calls[i]? = some c → c.phase.Holding → permit = .held i
  fresh : ∀ (i : ℕ) (c : SendCall) (todo : List Bytes), calls[i]? = some c →
    c.phase = .writing todo false → todo = fragments c.bytes

/-- What the reader has accumulated and what is on the channel, with the fragments that are owed,
make up the messages of these calls. -/
def Carried (calls : List SendCall) (pend : List ℕ) (r : Reader) (missing : List Bytes) : Prop :=
  ∃ todo, List.Forall₂ (Passed calls) pend todo ∧ Pending r.recv.acc (r.channel ++ missing) todo

/-- The calls whose messages were returned, those whose messages are on the channel, and the
fragments missing from the last of these: all of them are still to come, unless the connection is or
is being closed. -/
structure Link.Kept (s : Link) (got pend : List ℕ) (missing : List Bytes) : Prop where
  gated : Gated s.calls s.permit
  distinct : (got ++ pend).Nodup
  begun : ∀ i ∈ got ++ pend, Begun s.calls i
  returned : List.Forall₂ (Passed s.calls) got s.reader.messages
  carried : s.reader.sound = true → Carried s.calls pend s.reader missing
  owes : s.closed = false → s.permit ≠ .teardown → missing = owed s.calls s.permit

section Goto

variable {calls : List SendCall} {i : ℕ} {c : SendCall} {p : Phase}

theorem getElem?_goto (hc : calls[i]? = some c) (j : ℕ) :
    (calls.set i { c with phase := p })[j]? = if i =
      j then some { c with phase := p } else calls[j]? := by
  obtain ⟨hlt, -⟩ := List.getElem?_eq_some_iff.mp hc
  rw [List.getElem?_set, if_pos hlt]

theorem passed_goto (hc : calls[i]? = some c) {j : ℕ} {m : Bytes} (h : Passed calls j m) :
    Passed (calls.set i { c with phase := p }) j m := by
  obtain ⟨d, hd, hm⟩ := h
  rw [Passed, getElem?_goto hc]
  split
  · rename_i hij
    obtain rfl := Option.some.inj (hc.symm.trans (hij ▸ hd))
    exact ⟨_, rfl, hm⟩
  · exact ⟨d, hd, hm⟩

theorem begun_goto (hc : calls[i]? = some c) (hp : c.phase.Started → p.Started) {j : ℕ}
    (h : Begun calls j) : Begun (calls.set i { c with phase := p }) j := by
  obtain ⟨d, hd, hstarted⟩ := h
  rw [Begun, getElem?_goto hc]
  split
  · rename_i hij
    obtain rfl := Option.some.inj (hc.symm.trans (hij ▸ hd))
    exact ⟨_, rfl, hp hstarted⟩
  · exact ⟨d, hd, hstarted⟩

theorem owed_goto (hc : calls[i]? = some c) (hp : p.owes = c.phase.owes) (permit : Permit) :
    owed (calls.set i { c with phase := p }) permit = owed calls permit := by
  cases permit with
  | free => rfl
  | teardown => rfl
  | held j =>
    rw [owed, owed, getElem?_goto hc]
    split
    · rename_i hij
      rw [← hij, hc, Option.map_some, Option.map_some, hp]
    · rfl

theorem owed_held (hc : calls[i]? = some c) : owed calls (.held i) = c.phase.owes := by
  rw [owed, hc, Option.map_some, Option.getD_some]

/-- A call moves, and the permit was its own if it changes hands. -/
theorem Gated.goto {permit permit' : Permit} (h : Gated calls permit) (hc : calls[i]? = some c)
    (hp : p.Holding → permit' = .held i)
    (hpermit : permit' = permit ∨ permit = .free ∨ permit = .held i)
    (hfresh : ∀ todo, p = .writing todo false → todo = fragments c.bytes) :
    Gated (calls.set i { c with phase := p }) permit' := by
  constructor
  · intro j d hd hholding
    rw [getElem?_goto hc] at hd
    split at hd
    · rename_i hij
      obtain rfl := Option.some.inj hd
      exact hij ▸ hp hholding
    · rename_i hij
      have hheld := h.holder j d hd hholding
      rcases hpermit with hsame | hfree | hmine
      · rw [hsame, hheld]
      · rw [hfree] at hheld
        cases hheld
      · rw [hmine] at hheld
        exact absurd (Permit.held.inj hheld) hij
  · intro j d todo hd hphase
    rw [getElem?_goto hc] at hd
    split at hd
    · obtain rfl := Option.some.inj hd
      exact hfresh todo hphase
    · exact h.fresh j d todo hd hphase

end Goto

/-! ## Calls -/

section Calls

variable {s : Link} {got pend : List ℕ} {missing : List Bytes} {i : ℕ} {c : SendCall} {p : Phase}
  {permit : Permit}

/-- A call moves, with nothing written. -/
theorem Link.Kept.goto (h : s.Kept got pend missing) (hc : s.calls[i]? = some c)
    (hp : c.phase.Started → p.Started) (hgated : Gated (s.calls.set i { c with phase := p }) permit)
    (howes : s.closed = false → permit ≠ .teardown →
      missing = owed (s.calls.set i { c with phase := p }) permit) :
    Link.Kept { s.goto i c p with permit := permit } got pend missing where
  gated := hgated
  distinct := h.distinct
  begun := fun j hj => begun_goto hc hp (h.begun j hj)
  returned := h.returned.imp fun _ _ => passed_goto hc
  carried := fun hsound => by
    obtain ⟨todo, htodo, hpending⟩ := h.carried hsound
    exact ⟨todo, htodo.imp fun _ _ => passed_goto hc, hpending⟩
  owes := howes

/-- The last message is followed by another. -/
theorem pending_append {acc : Bytes} {channel todo : List Bytes} (h : Pending acc channel todo)
    (m : Bytes) : Pending acc (channel ++ fragments m) (todo ++ [m]) := by
  cases todo with
  | nil =>
    obtain ⟨rfl, rfl⟩ := h
    simpa using pending_start [m]
  | cons first todo =>
    obtain ⟨frames, rest, hframes, hfirst, rfl⟩ := h
    refine ⟨frames, rest, hframes, hfirst, ?_⟩
    rw [show todo.append [m] = todo ++ [m] from rfl, List.flatMap_append, List.flatMap_singleton,
      List.append_assoc]

/-- A fragment lands: it was owed, or it is the first of a message. -/
theorem Link.Kept.lands (h : s.Kept got pend missing) (hc : s.calls[i]? = some c) {frame : Bytes}
    {todo : List Bytes}
    {wroteAny : Bool} (hphase : c.phase = .writing (frame :: todo) wroteAny) (hp : p.Started)
    (hgated : Gated (s.calls.set i { c with phase := p }) permit)
    (howes : permit ≠ .teardown → todo = owed (s.calls.set i { c with phase := p }) permit) :
    ∃ pend' missing', Link.Kept { (s.deliver frame).goto i c p with permit := permit }
      got pend' missing' := by
  have hheld : s.permit = .held i := h.gated.holder i c hc (by simp [hphase, Phase.Holding])
  rw [Link.deliver]
  split
  · rename_i hclosed
    exact ⟨pend, missing, h.goto hc (fun _ => hp)
      hgated (fun hopen => by rw [hclosed] at hopen; cases hopen)⟩
  · rename_i hopen
    have hmissing : missing = c.phase.owes := by
      rw [h.owes (Bool.eq_false_iff.mpr hopen) (by rw [hheld]; exact nofun), hheld, owed_held hc]
    rw [hphase] at hmissing
    cases wroteAny with
    | true =>
      refine ⟨pend, todo, hgated, h.distinct,
        fun j hj => begun_goto hc (fun _ => hp) (h.begun j hj),
        h.returned.imp fun _ _ => passed_goto hc, fun hsound => ?_, fun _ => howes⟩
      obtain ⟨msgs, hmsgs, hpending⟩ := h.carried hsound
      refine ⟨msgs, hmsgs.imp fun _ _ => passed_goto hc, ?_⟩
      rw [hmissing, Phase.owes, List.append_cons] at hpending
      exact hpending
    | false =>
      -- the call has nothing on the channel yet, so it is none of those before it
      have hnew : i ∉ got ++ pend := fun hi => by
        obtain ⟨d, hd, hstarted⟩ := h.begun i hi
        obtain rfl := Option.some.inj (hc.symm.trans hd)
        rw [hphase] at hstarted
        cases hstarted
      refine ⟨pend ++ [i], todo, hgated, ?_, fun j hj => ?_, h.returned.imp fun _ _ =>
        passed_goto hc,
        fun hsound => ?_, fun _ => howes⟩
      · rw [← List.append_assoc]
        exact List.nodup_append.mpr ⟨h.distinct,
          List.nodup_cons.mpr ⟨List.not_mem_nil, List.nodup_nil⟩, fun j hj k hk hjk =>
          hnew (List.mem_singleton.mp hk ▸ hjk ▸ hj)⟩
      · rw [← List.append_assoc] at hj
        rcases List.mem_append.mp hj with hj | hj
        · exact begun_goto hc (fun _ => hp) (h.begun j hj)
        · obtain rfl := List.mem_singleton.mp hj
          exact ⟨_, (getElem?_goto hc j).trans (if_pos rfl), hp⟩
      · obtain ⟨msgs, hmsgs, hpending⟩ := h.carried hsound
        refine ⟨msgs ++ [c.bytes], ?_, ?_⟩
        · exact List.rel_append (hmsgs.imp fun _ _ => passed_goto hc)
            (.cons (passed_goto hc ⟨c, hc, rfl⟩) .nil)
        · have hfirst := h.gated.fresh i c _ hc hphase
          rw [hmissing, show (Phase.writing (frame :: todo) false).owes = [] from rfl,
            List.append_nil] at hpending
          have happend := pending_append hpending c.bytes
          rw [← hfirst, List.append_cons] at happend
          exact happend

theorem Phase.owes_of_not_started {p : Phase} (h : ¬p.Started) : p.owes = [] := by
  cases p with
  | writing todo wroteAny =>
    cases wroteAny with
    | false => rfl
    | true => exact absurd rfl h
  | _ => rfl

theorem Phase.owes_of_not_holding {p : Phase} (h : ¬p.Holding) : p.owes = [] := by
  cases p with
  | writing todo wroteAny => exact absurd trivial h
  | _ => rfl

/-- Whatever a call does, the fragments on the channel are those of whole messages. -/
theorem Link.Kept.callStep {s' : Link} {act : CallAct} (h : s.Kept got pend missing)
    (hc : s.calls[i]? = some c) (hstep : callStep s i c act = some s') :
    ∃ pend' missing', s'.Kept got pend' missing' := by
  have hholder := h.gated.holder i c hc
  cases callStep_moves hstep with
  | waits p hidle hfirst hp howes =>
    have hfresh : ∀ todo, p = .writing todo false → todo = fragments c.bytes := fun todo htodo =>
      absurd (by rw [htodo]; trivial) hp
    refine ⟨pend, missing, h.goto hc (fun hs => absurd hs hfirst)
      (h.gated.goto hc (fun hs => absurd hs hp) (.inl rfl) hfresh) fun hopen hkept => ?_⟩
    rw [owed_goto hc (howes.trans (Phase.owes_of_not_started hfirst).symm)]
    exact h.owes hopen hkept
  | acquires hfirst hfree =>
    refine ⟨pend, missing, h.goto hc (fun hs => absurd hs hfirst)
      (h.gated.goto hc (fun _ => rfl) (.inr (.inl hfree)) nofun) fun hopen _ => ?_⟩
    rw [owed_held ((getElem?_goto hc i).trans (if_pos rfl)),
      h.owes hopen (by rw [hfree]; exact nofun), hfree]
    rfl
  | opens hphase =>
    have hfirst : ¬c.phase.Started := by simp [hphase, Phase.Started]
    have hheld := hholder (by simp [hphase, Phase.Holding])
    refine ⟨pend, missing, h.goto hc (fun hs => absurd hs hfirst)
      (h.gated.goto hc (fun _ => hheld) (.inl rfl) fun todo htodo =>
        (Phase.writing.inj htodo).1.symm) fun hopen hkept => ?_⟩
    have howes : (Phase.writing (fragments c.bytes) false).owes = c.phase.owes :=
      (Phase.owes_of_not_started hfirst).symm
    rw [owed_goto hc howes]
    exact h.owes hopen hkept
  | drops error hholding hfirst =>
    have hheld := hholder hholding
    refine ⟨pend, missing, h.goto hc (fun _ => trivial)
      (h.gated.goto hc nofun (.inr (.inr hheld)) nofun) fun hopen _ => ?_⟩
    rw [h.owes hopen (by rw [hheld]; exact nofun), hheld, owed_held hc,
      Phase.owes_of_not_started hfirst]
    rfl
  | writesLast frame wroteAny hphase =>
    have hheld := hholder (by simp [hphase, Phase.Holding])
    exact h.lands hc hphase trivial (h.gated.goto hc nofun (.inr (.inr hheld)) nofun) fun _ => rfl
  | writes frame todo wroteAny hphase =>
    have hheld := hholder (by simp [hphase, Phase.Holding])
    have hgated : Gated (s.calls.set i { c with phase := .writing todo true }) s.permit :=
      h.gated.goto hc (fun _ => hheld) (.inl rfl) nofun
    have hsame : (s.deliver frame).goto i c (.writing todo true) =
        { (s.deliver frame).goto i c (.writing todo true) with permit := s.permit } := by
      rw [Link.deliver]
      split <;> rfl
    rw [hsame]
    refine h.lands hc hphase rfl hgated fun _ => ?_
    rw [hheld, owed_held ((getElem?_goto hc i).trans (if_pos rfl))]
    rfl
  | torn error hholding =>
    exact ⟨pend, missing, h.goto hc (fun _ => trivial)
      (h.gated.goto hc nofun (.inr (.inr (hholder hholding))) nofun) fun _ hkept =>
        absurd rfl hkept⟩
  | tornLanded error frame todo wroteAny hphase =>
    have hheld := hholder (by simp [hphase, Phase.Holding])
    exact h.lands hc hphase trivial (h.gated.goto hc nofun (.inr (.inr hheld)) nofun) fun hkept =>
      absurd rfl hkept

end Calls

/-! ## The reader -/

/-- What the reader does but read: nothing to what it has, or a return that is not a message. -/
theorem readStep_other {max : ℕ} {r r' : Reader} {act : ReadAct} (hact : act ≠ .read)
    (h : readStep max r act = some r') :
    (r'.results = r.results ∧ r'.recv = r.recv ∧ r'.channel = r.channel) ∨
      ∃ (outcome : Outcome) (left : Bytes), outcome.isMessage = false ∧
        r'.results = r.results ++ [(outcome, left)] := by
  cases act with
  | read => exact absurd rfl hact
  | call =>
    rw [readStep] at h
    split at h
    · cases h
    · obtain rfl := Option.some.inj h
      exact .inl ⟨rfl, rfl, rfl⟩
  | callFails why =>
    rw [readStep] at h
    split at h
    · cases h
    · obtain rfl := Option.some.inj h
      exact .inr ⟨_, _, rfl, rfl⟩
  | abandon =>
    rw [readStep] at h
    split at h
    · obtain rfl := Option.some.inj h
      exact .inl ⟨rfl, rfl, rfl⟩
    · cases h
  | readFails why =>
    rw [readStep] at h
    split at h
    · obtain rfl := Option.some.inj h
      exact .inr ⟨_, _, rfl, rfl⟩
    · cases h

section Reading

variable {s : Link} {r : Reader} {got pend : List ℕ} {missing : List Bytes}

/-- A return that is not a message: nothing more is said of the channel. -/
theorem Link.Kept.stops (h : s.Kept got pend missing) {outcome : Outcome} {left : Bytes}
    (hbad : outcome.isMessage = false) (hr : r.results = s.reader.results ++ [(outcome, left)]) :
    Link.Kept { s with reader := r } got pend missing where
  gated := h.gated
  distinct := h.distinct
  begun := h.begun
  returned := by
    have hmessages : r.messages = s.reader.messages := by
      rw [Reader.messages, hr, List.filterMap_append]
      cases outcome with
      | message m => cases hbad
      | ended => exact List.append_nil _
      | failed why => exact List.append_nil _
    rw [hmessages]
    exact h.returned
  carried := fun hsound => by
    have hall : r.results.all (fun entry => entry.1.isMessage) = true := hsound
    rw [hr, List.all_append, List.all_cons, hbad] at hall
    simp at hall
  owes := h.owes

/-- The reader moves, and returns nothing. -/
theorem Link.Kept.continues (h : s.Kept got pend missing) (hresults : r.results = s.reader.results)
    (hcarried : s.reader.sound = true → Carried s.calls pend r missing) :
    Link.Kept { s with reader := r } got pend missing where
  gated := h.gated
  distinct := h.distinct
  begun := h.begun
  returned := by
    rw [show r.messages = s.reader.messages by rw [Reader.messages, Reader.messages, hresults]]
    exact h.returned
  carried := fun hsound => hcarried (by rw [Reader.sound, ← hresults]; exact hsound)
  owes := h.owes

/-- **A read**: a message that is complete is the message of the first call on the channel. -/
theorem Link.Kept.read (h : s.Kept got pend missing) (hsound : s.reader.sound = true)
    (hstep : readStep s.maxRecv s.reader .read = some r) :
    ∃ got' pend', Link.Kept { s with reader := r } got' pend' missing := by
  obtain ⟨-, frame, hchannel, hread⟩ := read_cases hstep
  obtain ⟨todo, htodo, hpending⟩ := h.carried hsound
  rw [hchannel, List.cons_append] at hpending
  rcases pending_receive s.maxRecv hpending with
    ⟨m, rest, rfl, hreceive, hrest⟩ | ⟨acc', hreceive, hrest⟩ |
      ⟨⟨why, hreceive⟩, -⟩
  · rw [hreceive] at hread
    rcases hread with ⟨hnone, -⟩ | ⟨outcome, hout, -, hacc, hresults⟩
    · cases hnone
    · obtain rfl := Option.some.inj hout
      cases htodo with
      | @cons i _ pend _ hpassed htodo =>
        have hlist : got ++ i :: pend = got ++ [i] ++ pend := List.append_cons ..
        have hdistinct := h.distinct
        have hbegun := h.begun
        rw [hlist] at hdistinct hbegun
        refine ⟨got ++ [i], pend, h.gated, hdistinct, hbegun, ?_,
          fun _ => ⟨rest, htodo, hacc ▸ hrest⟩, h.owes⟩
        have hmessages : r.messages = s.reader.messages ++ [m] := by
          rw [Reader.messages, hresults, List.filterMap_append]
          rfl
        rw [hmessages]
        exact List.rel_append h.returned (.cons hpassed .nil)
  · rw [hreceive] at hread
    rcases hread with ⟨-, -, hresults, hacc⟩ | ⟨outcome, hout, -⟩
    · exact ⟨got, pend, h.continues hresults fun _ => ⟨todo, htodo, hacc ▸ hrest⟩⟩
    · cases hout
  · rw [hreceive] at hread
    rcases hread with ⟨hnone, -⟩ | ⟨outcome, hout, -, -, hresults⟩
    · cases hnone
    · obtain rfl := Option.some.inj hout
      exact ⟨got, pend, h.stops rfl hresults⟩

end Reading

/-! ## Runs -/

/-- A new call is not on the channel. -/
theorem Link.Kept.sendBytes {s : Link} {got pend : List ℕ} {missing : List Bytes}
    (h : s.Kept got pend missing) {c : SendCall} (hidle : ¬c.phase.Holding) :
    Link.Kept { s with calls := s.calls ++ [c] } got pend missing := by
  have hold : ∀ {i : ℕ} {d : SendCall}, s.calls[i]? = some d → (s.calls ++ [c])[i]? = some d :=
    fun hd => by
    obtain ⟨hlt, -⟩ := List.getElem?_eq_some_iff.mp hd
    rw [List.getElem?_append_left hlt, hd]
  have hpassed : ∀ i m, Passed s.calls i m → Passed (s.calls ++ [c]) i m := fun i m ⟨d, hd, hm⟩ =>
    ⟨d, hold hd, hm⟩
  have hcases : ∀ {i : ℕ} {d : SendCall}, (s.calls ++ [c])[i]? = some d → s.calls[i]? = some d ∨
      d = c := fun {i d} hd => by
    rcases Nat.lt_or_ge i s.calls.length with hlt | hge
    · exact .inl (by rw [← hd, List.getElem?_append_left hlt])
    · rw [List.getElem?_append_right hge] at hd
      exact .inr (List.mem_singleton.mp (List.mem_of_getElem? hd))
  refine ⟨⟨fun i d hd hholding => ?_, fun i d todo hd hphase => ?_⟩, h.distinct, fun i hi => ?_,
    h.returned.imp hpassed,
    fun hsound => ?_, fun hopen hkept => ?_⟩
  · rcases hcases hd with hd | rfl
    · exact h.gated.holder i d hd hholding
    · exact absurd hholding hidle
  · rcases hcases hd with hd | rfl
    · exact h.gated.fresh i d todo hd hphase
    · exact absurd (by rw [hphase]; trivial) hidle
  · obtain ⟨d, hd, hstarted⟩ := h.begun i hi
    exact ⟨d, hold hd, hstarted⟩
  · obtain ⟨todo, htodo, hpending⟩ := h.carried hsound
    exact ⟨todo, htodo.imp hpassed, hpending⟩
  · rw [h.owes hopen hkept]
    cases hpermit : s.permit with
    | free => rfl
    | teardown => rfl
    | held i =>
      rw [owed, owed]
      cases hd : s.calls[i]? with
      | some d => rw [hold hd]
      | none =>
        cases hnew : (s.calls ++ [c])[i]? with
        | none => rfl
        | some d =>
          rcases hcases hnew with hold | rfl
          · rw [hd] at hold
            cases hold
          · exact (Phase.owes_of_not_holding hidle).symm

theorem linkStep_kept {s s' : Link} {act : LinkAct} {got pend : List ℕ} {missing : List Bytes}
    (h : s.Kept got pend missing) (hstep : linkStep s act = some s') :
    ∃ got' pend' missing', s'.Kept got' pend' missing' := by
  cases act with
  | sendBytes bytes timed =>
    obtain rfl := Option.some.inj hstep
    refine ⟨got, pend, missing, h.sendBytes ?_⟩
    cases timed <;> exact id
  | call i act =>
    rw [linkStep] at hstep
    obtain ⟨c, hc, hcall⟩ := Option.bind_eq_some_iff.mp hstep
    exact ⟨got, h.callStep hc hcall⟩
  | tornDown =>
    rw [linkStep] at hstep
    split at hstep
    · rename_i hteardown
      obtain rfl := Option.some.inj hstep
      refine ⟨got, pend, missing, ⟨fun i c hc hholding => ?_, h.gated.fresh⟩, h.distinct, h.begun,
        h.returned, h.carried, nofun⟩
      have hheld := h.gated.holder i c hc hholding
      rw [hteardown] at hheld
      cases hheld
    · cases hstep
  | close =>
    obtain rfl := Option.some.inj hstep
    exact ⟨got, pend, missing, h.gated, h.distinct, h.begun, h.returned, h.carried, nofun⟩
  | setMaxRecv maxRecv =>
    obtain rfl := Option.some.inj hstep
    exact ⟨got, pend, missing, h.gated, h.distinct, h.begun, h.returned, h.carried, h.owes⟩
  | reader act =>
    rw [linkStep] at hstep
    split at hstep
    · rename_i hsound
      obtain ⟨r, hr, rfl⟩ := Option.map_eq_some_iff.mp hstep
      by_cases hread : act = .read
      · obtain ⟨got', pend', hkept⟩ := h.read hsound (hread ▸ hr)
        exact ⟨got', pend', missing, hkept⟩
      · rcases readStep_other hread hr with ⟨hresults, hrecv, hchannel⟩ | ⟨outcome, left, hbad,
          hresults⟩
        · refine ⟨got, pend, missing, h.continues hresults fun hsound => ?_⟩
          rw [Carried, hrecv, hchannel]
          exact h.carried hsound
        · exact ⟨got, pend, missing, h.stops hbad hresults⟩
    · cases hstep
  | reset =>
    rw [linkStep] at hstep
    split at hstep
    · obtain rfl := Option.some.inj hstep
      exact ⟨got, pend, missing, h.stops (show Outcome.ended.isMessage = false from rfl) rfl⟩
    · cases hstep

/-- **No cross-message corruption**: whatever the clones do at once, wherever their writes fail or
time out, and whenever the connection is closed, each message the reader returns is the message of
one call, and of a different one each time. -/
theorem no_corruption {maxRecv : ℕ} {acts : List LinkAct} {s : Link}
    (h : exec linkStep (.start maxRecv) acts = some s) :
    ∃ ids : List ℕ, ids.Nodup ∧ List.Forall₂ (Passed s.calls) ids s.reader.messages := by
  have hstart : ∃ got pend missing, (Link.start maxRecv).Kept got pend missing :=
    ⟨[], [], [], ⟨nofun, nofun⟩, List.nodup_nil, nofun, .nil, fun _ => ⟨[], .nil, rfl, rfl⟩,
      fun _ _ => rfl⟩
  obtain ⟨got, pend, missing, hkept⟩ :=
    exec_invariant (I := fun s => ∃ got pend missing, s.Kept got pend missing)
    (fun s act s' ⟨got, pend, missing, hs⟩ hstep => linkStep_kept hs hstep) hstart h
  exact ⟨got, (List.nodup_append.mp hkept.distinct).1, hkept.returned⟩

/-- A call whose write is cut off although its fragment has landed, and a clone that was waiting for
the permit and writes after the teardown: the reader returns the first message and no other. -/
theorem no_corruption_torn :
    ∃ s, exec linkStep (.start 100) [.sendBytes [7] true, .sendBytes [8] false, .call 0 .connected,
      .call 0 .acquire,
          .call 0 .opens, .call 0 (.timesOut true), .tornDown, .call 1 .acquire, .call 1 .opens,
            .call 1 .writes,
          .reader .call, .reader .read] = some s ∧
      s.reader.messages = [[7]] ∧ ∃ ids : List ℕ, ids.Nodup ∧
        List.Forall₂ (Passed s.calls) ids s.reader.messages := by
  have hrun :
    (exec linkStep (.start 100) [.sendBytes [7] true, .sendBytes [8] false, .call 0 .connected,
      .call 0 .acquire,
      .call 0 .opens, .call 0 (.timesOut true), .tornDown, .call 1 .acquire, .call 1 .opens,
        .call 1 .writes,
      .reader .call, .reader .read]).any (fun s => decide (s.reader.messages = [[7]])) = true := by
        decide +kernel
  obtain ⟨s, hexec, hs⟩ := (Option.any_eq_true _ _).mp hrun
  exact ⟨s, hexec, of_decide_eq_true hs, no_corruption hexec⟩

end WebRtc
end BgDesk
