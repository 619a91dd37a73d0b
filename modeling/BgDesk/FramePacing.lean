import Mathlib.Data.Finset.Card
import Mathlib.Data.List.AList
import Mathlib.Logic.Function.Basic
import BgDesk.Machine

/-!
# Pacing of the video services

`server/video_service.rs`: a service sends a frame and then waits, for three seconds at most, until
all who were sent it have fetched it. They say so through a channel that is found by the index of
the display. A notification carries the id of a connection and nothing else.

* `Pacing.step` — the services, in the steps of `run`, and the calls of `notify_video_frame_fetched`
  and `notify_video_frame_fetched_by_conn_id`, lock by lock;
* `Paced` — a wait ends before its time only if everybody has fetched this frame, or is gone;
* `Pacing.Timely` — a notification is put into a channel while the frame it is for is waited for
  there, and no frame is sent while something is left in the channel;
* `released_by_this_frame` — every run in which the notifications are timely.

A monitor and a camera of the same index share a channel. A notification that is late counts for the
next frame.
-/

namespace BgDesk
namespace FramePacing

inductive VideoSource where
  | monitor
  | camera
  deriving DecidableEq

/-- A service: its source and its index. -/
structure ServiceId where
  source : VideoSource
  idx : ℕ
  deriving DecidableEq

/-- Where `run` stands. -/
inductive Phase where
  /-- from `frame_controller.reset()` to the wait -/
  | capturing
  /-- between `send_video_frame` and `set_send` -/
  | sent (connIds : Finset Int32)
  /-- in the wait, with `fetched_conn_ids` -/
  | waiting (fetchedConnIds : Finset Int32)
  /-- behind the wait -/
  | ended
  deriving DecidableEq

/-- A run of a service, with its `VideoFrameController`; the number of the last frame that had
receivers, and when it was sent. -/
structure Video where
  phase : Phase
  sendConnIds : Finset Int32
  frame : ℕ
  since : ℕ
  deriving DecidableEq

/-- What a connection notifies of. The code does not have it. -/
inductive Notice where
  | frame (v : ServiceId) (n : ℕ)
  | closed
  deriving DecidableEq

/-- What has happened. -/
inductive Event where
  | sent (v : ServiceId) (n : ℕ) (connIds : Finset Int32)
  | notified (conn : Int32) (v : ServiceId) (n : ℕ)
  | closed (conn : Int32)
  /-- the wait ends before its time -/
  | released (v : ServiceId) (n : ℕ) (connIds : Finset Int32)
  deriving DecidableEq

/-- A call of `notify_video_frame_fetched_by_conn_id` between its two locks, with the time it was
made. -/
structure Call where
  conn : Int32
  notice : Notice
  vecDisplayIdx : List ℕ
  time : ℕ
  deriving DecidableEq

structure Pacing where
  videos : ServiceId → Option Video
  /-- `FRAME_FETCHED_NOTIFIERS`, with what is in the channels -/
  notifiers : ℕ → Option (List Int32)
  /-- `DISPLAY_CONN_IDS` -/
  displayConnIds : AList (fun _ : ℕ => Finset Int32)
  calls : List Call
  log : List Event

inductive Act where
  | new : ServiceId → Act
  /-- an iteration of `run` begins -/
  | reset : ServiceId → Act
  | sendVideoFrame : ServiceId → (connIds : Finset Int32) → Act
  | setSend : ServiceId → Act
  | wait : ServiceId → Act
  /-- `try_wait_next`, and the look at the sizes -/
  | tryWaitNext : ServiceId → Act
  | timeout : ServiceId → Act
  /-- `DISPLAY_CONN_IDS.remove` -/
  | leave : ServiceId → Act
  /-- `run` returns an error and is called again -/
  | restart : ServiceId → Act
  /-- `notify_video_frame_fetched` -/
  | notify : (conn : Int32) → ServiceId → (n : ℕ) → Act
  /-- `notify_video_frame_fetched_by_conn_id`, its first lock -/
  | notifyByConnId : (conn : Int32) → Notice → Act
  /-- its second lock -/
  | deliver : (i : ℕ) → Act
  deriving DecidableEq

/-- A frame was sent to this connection. -/
def wasSent (log : List Event) (conn : Int32) (v : ServiceId) (n : ℕ) : Bool :=
  log.any fun
    | .sent v' n' connIds => v' = v ∧ n' = n ∧ conn ∈ connIds
    | _ => false

namespace Pacing

def start : Pacing := ⟨fun _ => none, fun _ => none, ∅, [], []⟩

/-- A service goes on. -/
def setVideo (s : Pacing) (v : ServiceId) (x : Video) : Pacing :=
  { s with videos := Function.update s.videos v (some x) }

/-- `notifier.0.send`, where there is a notifier. -/
def put (notifiers : ℕ → Option (List Int32)) (conn : Int32) (idx : ℕ) : ℕ → Option (List Int32) :=
  Function.update notifiers idx ((notifiers idx).map (· ++ [conn]))

/-- The displays for which `conn` is among those who are waited for. -/
def displaysOf (s : Pacing) (conn : Int32) : List ℕ :=
  s.displayConnIds.entries.filterMap fun e => if conn ∈ e.2 then some e.1 else none

/-- `try_wait_next` takes all there is; without receivers, or without a notifier, it does not look.
-/
def received (s : Pacing) (v : ServiceId) (x : Video) : List Int32 :=
  if x.sendConnIds = ∅ then [] else (s.notifiers v.idx).getD []

def step (s : Pacing) : Act → Option Pacing
  | .new v =>
    match s.videos v with
    | some _ => none
    | none =>
      some { s.setVideo v ⟨.capturing, ∅, 0, 0⟩ with
        notifiers := Function.update s.notifiers v.idx (some ((s.notifiers v.idx).getD [])) }
  | .reset v =>
    match s.videos v with
    | some x =>
      if x.phase = .ended then some (s.setVideo v { x with
        phase := .capturing, sendConnIds := ∅ }) else none
    | none => none
  | .sendVideoFrame v connIds =>
    match s.videos v with
    | some x =>
      if x.phase = .capturing then
        if connIds = ∅ then some s
        else
          some { s.setVideo v { x with
            phase := .sent connIds, frame := x.frame + 1, since := s.log.length } with
            log := s.log ++ [.sent v (x.frame + 1) connIds] }
      else none
    | none => none
  | .setSend v =>
    match s.videos v with
    | some x =>
      match x.phase with
      | .sent connIds =>
        some { s.setVideo v { x with phase := .capturing, sendConnIds := connIds } with
          displayConnIds := s.displayConnIds.insert v.idx connIds }
      | _ => none
    | none => none
  | .wait v =>
    match s.videos v with
    | some x =>
      if x.phase = .capturing then some (s.setVideo v { x with phase := .waiting ∅ }) else none
    | none => none
  | .tryWaitNext v =>
    match s.videos v with
    | some x =>
      match x.phase with
      | .waiting fetched =>
        let fetched := fetched ∪ (s.received v x).toFinset
        let s := if x.sendConnIds = ∅ then s else
          { s with
            notifiers := Function.update s.notifiers v.idx ((s.notifiers v.idx).map fun _ => []) }
        if x.sendConnIds.card ≤ fetched.card then
          some { s.setVideo v { x with phase := .ended } with
            log := s.log ++ [.released v x.frame x.sendConnIds] }
        else some (s.setVideo v { x with phase := .waiting fetched })
      | _ => none
    | none => none
  | .timeout v =>
    match s.videos v with
    | some x =>
      match x.phase with
      | .waiting _ => some (s.setVideo v { x with phase := .ended })
      | _ => none
    | none => none
  | .leave v =>
    match s.videos v with
    | some x =>
      if x.phase =
        .ended then some { s with displayConnIds := s.displayConnIds.erase v.idx } else none
    | none => none
  | .restart v =>
    match s.videos v with
    | some x => some (s.setVideo v { x with phase := .capturing, sendConnIds := ∅ })
    | none => none
  | .notify conn v n =>
    if wasSent s.log conn v n then
      some { s with notifiers := put s.notifiers conn v.idx, log := s.log ++ [.notified conn v n] }
    else none
  | .notifyByConnId conn notice =>
    match notice with
    | .frame v n =>
      if wasSent s.log conn v n then
        some { s with
          calls := s.calls ++ [⟨conn, notice, s.displaysOf conn, s.log.length⟩]
          log := s.log ++ [.notified conn v n] }
      else none
    | .closed =>
      some { s with
        calls := s.calls ++ [⟨conn, notice, s.displaysOf conn, s.log.length⟩]
        log := s.log ++ [.closed conn] }
  | .deliver i =>
    match s.calls[i]? with
    | some call =>
      some { s with
        calls := s.calls.eraseIdx i
        notifiers := call.vecDisplayIdx.foldl (fun notifiers idx => put notifiers call.conn idx)
          s.notifiers }
    | none => none

end Pacing

/-! ## What a wait is for -/

/-- A wait that ends before its time: everybody who was sent the frame has notified for it, or has
closed since. -/
def Paced (before : List Event) : Event → Prop
  | .released v n connIds => ∀ conn ∈ connIds, .notified conn v n ∈ before ∨
      ∃ first receivers rest, before = first ++ .sent v n receivers :: rest ∧ .closed conn ∈ rest
  | _ => True

namespace Video

/-- There is a frame that somebody may still fetch. -/
def onFrame (x : Video) : Bool :=
  match x.phase with
  | .sent _ => true
  | .capturing | .waiting _ => x.sendConnIds ≠ ∅
  | .ended => false

/-- Who was sent the frame. -/
def receivers (x : Video) : Finset Int32 :=
  match x.phase with
  | .sent connIds => connIds
  | _ => x.sendConnIds

/-- A notification is for the frame of this service; somebody who has closed has done so since. -/
def awaits (x : Video) (v : ServiceId) (conn : Int32) (notice : Notice) (time : ℕ) : Bool :=
  x.onFrame && decide (conn ∈ x.receivers) &&
    match notice with
    | .frame v' n => v' = v ∧ n = x.frame
    | .closed => x.since < time

end Video

namespace Pacing

/-- One of the two services that share a channel waits for this notification. -/
def awaits (s : Pacing) (idx : ℕ) (conn : Int32) (notice : Notice) (time : ℕ) : Bool :=
  [VideoSource.monitor, .camera].any fun source =>
    (s.videos ⟨source, idx⟩).any fun x => x.awaits ⟨source, idx⟩ conn notice time

/-- Notifications come while they are waited for, and when a frame is sent nothing is left from
before. -/
def Timely (s : Pacing) : Act → Prop
  | .sendVideoFrame v connIds => connIds = ∅ ∨ (s.notifiers v.idx).getD [] = [] ∧
      [VideoSource.monitor, .camera].all fun source =>
        source = v.source ∨ ¬(s.videos ⟨source, v.idx⟩).any Video.onFrame
  | .notify conn v n => s.awaits v.idx conn (.frame v n) s.log.length = true
  | .deliver i => (s.calls[i]?).all fun call =>
      call.vecDisplayIdx.all fun idx => s.awaits idx call.conn call.notice call.time
  | _ => True

instance (s : Pacing) (a : Act) : Decidable (s.Timely a) :=
  match a with
  | .sendVideoFrame _ _ => inferInstanceAs (Decidable (_ ∨ _ ∧ _))
  | .notify _ _ _ => inferInstanceAs (Decidable (_ = true))
  | .deliver _ => inferInstanceAs (Decidable (_ = true))
  | .new _ | .reset _ | .setSend _ | .wait _ | .tryWaitNext _ | .timeout _ | .leave _ | .restart _
  | .notifyByConnId _ _ => inferInstanceAs (Decidable True)

end Pacing

/-! ## What is known -/

/-- A connection has notified for a frame, or has closed since it was sent. -/
def Evidence (log : List Event) (conn : Int32) (v : ServiceId) (n since : ℕ) : Prop :=
  .notified conn v n ∈ log ∨ ∃ time, since < time ∧ log[time]? = some (.closed conn)

variable {log : List Event} {v : ServiceId}

theorem Evidence.append {conn : Int32} {n since : ℕ} (h : Evidence log conn v n since)
    (more : List Event) : Evidence (log ++ more) conn v n since := by
  rcases h with h | ⟨time, hlt, htime⟩
  · exact .inl (List.mem_append_left _ h)
  · refine .inr ⟨time, hlt, ?_⟩
    rw [List.getElem?_append_left (List.getElem?_eq_some_iff.mp htime).1]
    exact htime

/-- A frame that is waited for, with what is in its channel. -/
structure Video.Good (x : Video) (v : ServiceId) (channel : List Int32) (log : List Event) :
  Prop where
  sent : ∃ connIds, log[x.since]? = some (.sent v x.frame connIds)
  channel : ∀ conn ∈ channel, conn ∈ x.receivers ∧ Evidence log conn v x.frame x.since
  fetched : ∀ f, x.phase = .waiting f → ∀ conn ∈ f, conn ∈ x.receivers ∧
    Evidence log conn v x.frame x.since

theorem Video.Good.append {x : Video} {channel : List Int32} (h : x.Good v channel log)
    (more : List Event) : x.Good v channel (log ++ more) := by
  refine ⟨?_, fun conn hconn => ?_, fun f hf conn hconn => ?_⟩
  · obtain ⟨connIds, hsent⟩ := h.sent
    refine ⟨connIds, ?_⟩
    rw [List.getElem?_append_left (List.getElem?_eq_some_iff.mp hsent).1]
    exact hsent
  · obtain ⟨hin, hev⟩ := h.channel conn hconn
    exact ⟨hin, hev.append more⟩
  · obtain ⟨hin, hev⟩ := h.fetched f hf conn hconn
    exact ⟨hin, hev.append more⟩

/-- Everybody has notified, or has closed. -/
theorem Video.Good.paced {x : Video} {channel : List Int32} (h : x.Good v channel log)
    {f : Finset Int32} (hphase : x.phase = .waiting f)
    (hcard : x.sendConnIds.card ≤ (f ∪ channel.toFinset).card) :
    Paced log (.released v x.frame x.sendConnIds) := by
  have hreceivers : x.receivers = x.sendConnIds := by rw [Video.receivers, hphase]
  have hknown : ∀ conn ∈ f ∪ channel.toFinset, conn ∈ x.sendConnIds ∧
      Evidence log conn v x.frame x.since := by
    intro conn hconn
    rw [← hreceivers]
    rcases Finset.mem_union.mp hconn with hconn | hconn
    · exact h.fetched f hphase conn hconn
    · exact h.channel conn (List.mem_toFinset.mp hconn)
  have hall : f ∪ channel.toFinset = x.sendConnIds :=
    Finset.eq_of_subset_of_card_le (fun conn hconn => (hknown conn hconn).1) hcard
  obtain ⟨receivers, hsent⟩ := h.sent
  obtain ⟨hlt, hget⟩ := List.getElem?_eq_some_iff.mp hsent
  intro conn hconn
  rcases (hknown conn (hall ▸ hconn)).2 with hnotified | ⟨time, hsince, hclosed⟩
  · exact .inl hnotified
  · refine .inr ⟨log.take x.since, receivers, log.drop (x.since + 1), ?_, ?_⟩
    · rw [← hget, List.getElem_cons_drop, List.take_append_drop]
    · refine List.mem_iff_getElem?.mpr ⟨time - (x.since + 1), ?_⟩
      rw [List.getElem?_drop, Nat.add_sub_cancel' hsince]
      exact hclosed

/-- What a call under way says is so. -/
def Call.Honest (call : Call) (log : List Event) : Prop :=
  match call.notice with
  | .frame v n => .notified call.conn v n ∈ log
  | .closed => log[call.time]? = some (.closed call.conn)

theorem Call.Honest.append {call : Call} (h : call.Honest log) (more : List Event) :
    call.Honest (log ++ more) := by
  rw [Call.Honest] at h ⊢
  split at h
  · exact List.mem_append_left _ h
  · rw [List.getElem?_append_left (List.getElem?_eq_some_iff.mp h).1]
    exact h

namespace Pacing

/-- What holds between two steps. -/
structure Inv (s : Pacing) : Prop where
  /-- of two services with the same index one at most has a frame -/
  alone : ∀ v w x y, s.videos v = some x → s.videos w = some y → v.idx = w.idx → x.onFrame = true →
    y.onFrame = true →
    v = w
  good : ∀ v x, s.videos v = some x → x.onFrame = true →
    x.Good v ((s.notifiers v.idx).getD []) s.log
  honest : ∀ call ∈ s.calls, call.Honest s.log
  paced : Each Paced s.log

variable {s s' : Pacing}

theorem start_inv : start.Inv := ⟨nofun, nofun, nofun, each_nil _⟩

variable {v : ServiceId} {x : Video} {conn : Int32}

/-- One service changes; for the others there is not more in the channel than before. -/
theorem Inv.change (h : s.Inv) {more : List Event}
    (hvideos : s'.videos = Function.update s.videos v (some x)) (hlog : s'.log = s.log ++ more)
    (hpaced : Each Paced s'.log) (hcalls : s'.calls = s.calls)
    (halone : x.onFrame = true → ∀ w y, w ≠ v → s.videos w = some y → w.idx = v.idx →
    y.onFrame = false) (hgood : x.onFrame = true → x.Good v ((s'.notifiers v.idx).getD []) s'.log)
    (hless : ∀ idx, (s'.notifiers idx).getD [] ⊆ (s.notifiers idx).getD []) : s'.Inv := by
  have hother : ∀ w y, w ≠ v → s'.videos w = some y → s.videos w = some y := by
    intro w y hne hy
    rw [hvideos, Function.update_of_ne hne] at hy
    exact hy
  have hself : ∀ y, s'.videos v = some y → y = x := by
    intro y hy
    rw [hvideos, Function.update_self] at hy
    exact (Option.some.inj hy).symm
  refine ⟨fun a b y z hy hz hidx hya hzb => ?_, fun a y hy hya => ?_, fun call hcall => ?_, hpaced⟩
  · by_cases ha : a = v
    · subst ha
      by_cases hb : b = a
      · exact hb.symm
      · obtain rfl := hself y hy
        have hfalse := halone hya b z hb (hother b z hb hz) hidx.symm
        rw [hzb] at hfalse
        cases hfalse
    · by_cases hb : b = v
      · subst hb
        obtain rfl := hself z hz
        have hfalse := halone hzb a y ha (hother a y ha hy) hidx
        rw [hya] at hfalse
        cases hfalse
      · exact h.alone a b y z (hother a y ha hy) (hother b z hb hz) hidx hya hzb
  · by_cases ha : a = v
    · subst ha
      obtain rfl := hself y hy
      exact hgood hya
    · have hold := (h.good a y (hother a y ha hy) hya).append more
      rw [← hlog] at hold
      exact ⟨hold.sent, fun conn hconn => hold.channel conn (hless a.idx hconn), hold.fetched⟩
  · rw [hcalls] at hcall
    rw [hlog]
    exact (h.honest call hcall).append more

/-- A service that has no frame any more, or had none. -/
theorem Inv.off (h : s.Inv) (hx : x.onFrame = false) : (s.setVideo v x).Inv := by
  have hnot : x.onFrame = true → False := by
    intro hon
    rw [hx] at hon
    cases hon
  exact h.change (v := v) (x := x) rfl (List.append_nil s.log).symm h.paced
    rfl (fun hon => (hnot hon).elim)
    (fun hon => (hnot hon).elim) (fun _ => List.Subset.refl _)

/-- A service goes on with the frame it has. -/
theorem Inv.on (h : s.Inv) {y : Video} (hx : s.videos v = some x)
    (hon : y.onFrame = true → x.onFrame = true) (hframe : y.frame = x.frame)
    (hsince : y.since = x.since) (hreceivers : y.receivers = x.receivers)
    (hphase : ∀ f, y.phase = .waiting f → f = ∅) {d : AList (fun _ : ℕ => Finset Int32)} :
    Inv { s.setVideo v y with displayConnIds := d } := by
  refine h.change (v := v) (x := y) rfl (List.append_nil s.log).symm h.paced
    rfl (fun hy w z hne hz hidx => ?_)
    (fun hy => ?_) (fun _ => List.Subset.refl _)
  · by_contra hzon
    exact hne (h.alone w v z x hz hx hidx (Bool.eq_true_of_not_eq_false hzon) (hon hy))
  · obtain ⟨hsent, hchannel, -⟩ := h.good v x hx (hon hy)
    refine ⟨?_, ?_, ?_⟩
    · rw [hframe, hsince]
      exact hsent
    · rw [hframe, hsince, hreceivers]
      exact hchannel
    · intro f hf conn hconn
      rw [hphase f hf] at hconn
      cases hconn

theorem Inv.sendVideoFrame (h : s.Inv) {connIds : Finset Int32}
    (htimely : s.Timely (.sendVideoFrame v connIds)) (hne : connIds ≠ ∅) :
    Inv { s.setVideo v { x with
      phase := .sent connIds, frame := x.frame + 1, since := s.log.length } with
      log := s.log ++ [.sent v (x.frame + 1) connIds] } := by
  rcases htimely with hempty | ⟨hchannel, hothers⟩
  · exact absurd hempty hne
  refine h.change (v := v)
    (x := { x with phase := .sent connIds, frame := x.frame + 1, since := s.log.length }) rfl rfl
    (h.paced.append (each_singleton True.intro)) rfl ?_ ?_ (fun _ => List.Subset.refl _)
  · intro _ w y hwv hy hidx
    have hw := List.all_eq_true.mp hothers w.source (by cases w.source <;> simp)
    rcases of_decide_eq_true hw with hsource | hnot
    · exact absurd (by cases v; cases w; simp_all) hwv
    · rw [← hidx] at hnot
      change ¬(s.videos w).any Video.onFrame = true at hnot
      rw [hy] at hnot
      exact Bool.eq_false_iff.mpr hnot
  · intro _
    refine ⟨⟨connIds, List.getElem?_concat_length⟩, ?_, nofun⟩
    intro conn hconn
    change conn ∈ (s.notifiers v.idx).getD [] at hconn
    rw [hchannel] at hconn
    cases hconn

theorem Inv.tryWaitNext (h : s.Inv) (hstep : s.step (.tryWaitNext v) = some s') : s'.Inv := by
  rw [step] at hstep
  split at hstep
  · next x hx =>
    split at hstep
    · next f hphase =>
      by_cases hempty : x.sendConnIds = ∅
      -- nobody was sent a frame: the wait ends at once
      · have hcard : x.sendConnIds.card ≤ (f ∪ (s.received v x).toFinset).card := by
          rw [hempty]
          exact Nat.zero_le _
        simp only [if_pos hempty, if_pos hcard] at hstep
        obtain rfl := Option.some.inj hstep
        have hpaced : Paced s.log (.released v x.frame x.sendConnIds) := by
          intro conn hconn
          rw [hempty] at hconn
          cases hconn
        refine h.change (v := v) (x := { x with phase := .ended })
          rfl rfl (h.paced.append (each_singleton ?_)) rfl nofun nofun
          (fun _ => List.Subset.refl _)
        rw [List.append_nil]
        exact hpaced
      · have hon : x.onFrame = true := by
          rw [Video.onFrame, hphase]
          exact decide_eq_true hempty
        have hgood := h.good v x hx hon
        have hreceivers : x.receivers = x.sendConnIds := by rw [Video.receivers, hphase]
        have hless :
          ∀ idx, (Function.update s.notifiers v.idx ((s.notifiers v.idx).map fun _ => []) idx).getD
            [] ⊆
            (s.notifiers idx).getD [] := by
          intro idx
          by_cases hidx : idx = v.idx
          · subst hidx
            rw [Function.update_self]
            cases s.notifiers v.idx <;> exact List.nil_subset _
          · rw [Function.update_of_ne hidx]
            exact List.Subset.refl _
        have hreceived : s.received v x = (s.notifiers v.idx).getD [] := if_neg hempty
        simp only [if_neg hempty, hreceived] at hstep
        split at hstep
        · next hcard =>
          obtain rfl := Option.some.inj hstep
          refine h.change (v := v) (x := { x with phase := .ended })
            rfl rfl (h.paced.append (each_singleton ?_)) rfl nofun
            nofun hless
          rw [List.append_nil]
          exact hgood.paced hphase hcard
        · obtain rfl := Option.some.inj hstep
          refine h.change (v := v) (x := { x with phase := .waiting _ })
            rfl (List.append_nil s.log).symm h.paced rfl
            (fun hy w z hne hz hidx => ?_) (fun _ => ⟨hgood.sent, ?_, ?_⟩) hless
          · by_contra hzon
            exact hne (h.alone w v z x hz hx hidx (Bool.eq_true_of_not_eq_false hzon) hon)
          · intro conn hconn
            have hknown := hgood.channel conn (hless v.idx hconn)
            rw [hreceivers] at hknown
            exact hknown
          · intro f' hf' conn hconn
            obtain rfl := Phase.waiting.inj hf'
            rcases Finset.mem_union.mp hconn with hconn | hconn
            · have hknown := hgood.fetched f hphase conn hconn
              rw [hreceivers] at hknown
              exact hknown
            · have hknown := hgood.channel conn (List.mem_toFinset.mp hconn)
              rw [hreceivers] at hknown
              exact hknown
    · cases hstep
  · cases hstep

/-- Something is put into a channel that whoever waits there may count. -/
theorem Inv.put (h : s.Inv) {idx : ℕ}
    (hknown : ∀ v x, s.videos v = some x → x.onFrame = true → v.idx = idx →
      conn ∈ x.receivers ∧ Evidence s.log conn v x.frame x.since) :
    Inv { s with notifiers := put s.notifiers conn idx } := by
  refine ⟨h.alone, fun v x hx hon => ?_, h.honest, h.paced⟩
  have hgood := h.good v x hx hon
  refine ⟨hgood.sent, fun c hc => ?_, hgood.fetched⟩
  simp only [Pacing.put] at hc
  by_cases hidx : v.idx = idx
  · subst hidx
    rw [Function.update_self] at hc
    cases hchannel : s.notifiers v.idx with
    | none =>
      rw [hchannel] at hc
      cases hc
    | some channel =>
      rw [hchannel] at hc
      have hold := hgood.channel c
      rw [hchannel] at hold
      rcases List.mem_append.mp hc with hc | hc
      · exact hold hc
      · rw [List.mem_singleton.mp hc]
        exact hknown v x hx hon rfl
  · rw [Function.update_of_ne hidx] at hc
    exact hgood.channel c hc

/-- The log grows, and nothing else. -/
theorem Inv.note (h : s.Inv) {e : Event} (he : Paced s.log e) :
    Inv { s with log := s.log ++ [e] } := by
  refine ⟨h.alone, fun v x hx hon => (h.good v x hx hon).append [e],
    fun call hcall => (h.honest call hcall).append [e],
    h.paced.append (each_singleton ?_)⟩
  rw [List.append_nil]
  exact he

/-- Whoever waits where a notification is awaited can count it. -/
theorem Inv.known (h : s.Inv) {idx time : ℕ} {notice : Notice}
    (hawaits : s.awaits idx conn notice time = true)
    (hframe : ∀ v n, notice = .frame v n → .notified conn v n ∈ s.log)
    (hclosed : notice = .closed → s.log[time]? = some (.closed conn)) :
    ∀ v x, s.videos v = some x → x.onFrame = true → v.idx = idx →
      conn ∈ x.receivers ∧ Evidence s.log conn v x.frame x.since := by
  intro v x hx hon hidx
  obtain ⟨source, -, hany⟩ := List.any_eq_true.mp hawaits
  obtain ⟨y, hy, haw⟩ := (Option.any_eq_true _ _).mp hany
  rw [Video.awaits.eq_def, Bool.and_eq_true, Bool.and_eq_true] at haw
  obtain ⟨⟨hyon, hin⟩, hnotice⟩ := haw
  obtain rfl := h.alone v ⟨source, idx⟩ x y hx hy hidx hon hyon
  rw [hx] at hy
  obtain rfl := Option.some.inj hy
  refine ⟨of_decide_eq_true hin, ?_⟩
  cases notice with
  | frame v n =>
    obtain ⟨rfl, rfl⟩ := of_decide_eq_true hnotice
    exact .inl (hframe _ _ rfl)
  | closed => exact .inr ⟨time, of_decide_eq_true hnotice, hclosed rfl⟩

theorem Inv.notify (h : s.Inv) {n : ℕ} (htimely : s.Timely (.notify conn v n)) : Inv { s with
      notifiers := Pacing.put s.notifiers conn v.idx, log := s.log ++ [.notified conn v n] } := by
  have hnote : Inv { s with log := s.log ++ [.notified conn v n] } := h.note True.intro
  have hawaits : awaits { s with log := s.log ++ [.notified conn v n] } v.idx conn (.frame v n)
      s.log.length = true := htimely
  refine hnote.put (hnote.known hawaits (fun v' n' heq => ?_) nofun)
  obtain ⟨rfl, rfl⟩ := Notice.frame.inj heq
  exact List.mem_append_right _ (List.mem_singleton_self _)

/-- A call begins: it says what is so. -/
theorem Inv.call (h : s.Inv) {call : Call} {e : Event} (he : Paced s.log e)
    (hhonest : call.Honest (s.log ++ [e])) :
    Inv { s with calls := s.calls ++ [call], log := s.log ++ [e] } := by
  have hnote := h.note he
  refine ⟨hnote.alone, hnote.good, fun other hother => ?_, hnote.paced⟩
  rcases List.mem_append.mp hother with hother | hother
  · exact hnote.honest other hother
  · rw [List.mem_singleton.mp hother]
    exact hhonest

/-- The loop of `notify_video_frame_fetched_by_conn_id`. -/
theorem Inv.putAll {notice : Notice} {time : ℕ} {targets : List ℕ} (h : s.Inv)
    (hawaits : ∀ idx ∈ targets, s.awaits idx conn notice time = true)
    (hframe : ∀ v n, notice = .frame v n → .notified conn v n ∈ s.log)
    (hclosed : notice = .closed → s.log[time]? = some (.closed conn)) :
    Inv { s with
      notifiers :=
        targets.foldl (fun notifiers idx => Pacing.put notifiers conn idx) s.notifiers } := by
  induction targets generalizing s with
  | nil => exact h
  | cons idx targets ih =>
    have hput := h.put (h.known (hawaits idx List.mem_cons_self) hframe hclosed)
    exact ih (s := { s with notifiers := Pacing.put s.notifiers conn idx }) hput
      (fun i hi => hawaits i (List.mem_cons_of_mem _ hi)) hframe hclosed

theorem Inv.deliver (h : s.Inv) {i : ℕ} (htimely : s.Timely (.deliver i))
    (hstep : s.step (.deliver i) = some s') : s'.Inv := by
  rw [step] at hstep
  split at hstep
  · next call hcall =>
    obtain rfl := Option.some.inj hstep
    simp only [Timely, hcall, Option.all_some, List.all_eq_true] at htimely
    have hhonest := h.honest call (List.mem_of_getElem? hcall)
    have hall := h.putAll htimely
      (fun v n heq => by rw [Call.Honest, heq] at hhonest; exact hhonest)
      (fun heq => by rw [Call.Honest, heq] at hhonest; exact hhonest)
    exact ⟨hall.alone, hall.good, fun other hother =>
      h.honest other (List.mem_of_mem_eraseIdx hother), hall.paced⟩
  · cases hstep

/-- A service starts to capture. -/
theorem Inv.new (h : s.Inv) (hstep : s.step (.new v) = some s') : s'.Inv := by
  rw [step] at hstep
  split at hstep
  · cases hstep
  · obtain rfl := Option.some.inj hstep
    have hsame :
      ∀ idx, (Function.update s.notifiers v.idx (some ((s.notifiers v.idx).getD [])) idx).getD
        [] ⊆
        (s.notifiers idx).getD [] := by
      intro idx
      by_cases hidx : idx = v.idx
      · subst hidx
        rw [Function.update_self]
        exact List.Subset.refl _
      · rw [Function.update_of_ne hidx]
        exact List.Subset.refl _
    exact h.change (v := v) (x := ⟨.capturing, ∅, 0, 0⟩)
      rfl (List.append_nil s.log).symm h.paced rfl nofun nofun hsame

/-- The viewers a frame was sent to are noted. -/
theorem Inv.setSend (h : s.Inv) (hstep : s.step (.setSend v) = some s') : s'.Inv := by
  rw [step] at hstep
  split at hstep
  · next x hx =>
    split at hstep
    · next connIds hphase =>
      obtain rfl := Option.some.inj hstep
      refine h.on (y := { x with phase := .capturing, sendConnIds := connIds }) hx (fun _ => ?_)
        rfl rfl ?_
        fun _ hf => by cases hf
      · rw [Video.onFrame, hphase]
      · rw [Video.receivers, Video.receivers, hphase]
    · cases hstep
  · cases hstep

/-- The service begins to wait. -/
theorem Inv.wait (h : s.Inv) (hstep : s.step (.wait v) = some s') : s'.Inv := by
  rw [step] at hstep
  split at hstep
  · next x hx =>
    split at hstep
    · next hphase =>
      obtain rfl := Option.some.inj hstep
      refine h.on (y := { x with phase := .waiting ∅ }) (d := s.displayConnIds) hx (fun hon => ?_)
        rfl rfl ?_ (fun f hf => (Phase.waiting.inj hf).symm)
      · rw [Video.onFrame, hphase]
        exact hon
      · rw [Video.receivers, Video.receivers, hphase]
    · cases hstep
  · cases hstep

theorem step_inv {a : Act} (h : s.Inv) (htimely : s.Timely a) (hstep : s.step a = some s') :
    s'.Inv := by
  cases a with
  | new v => exact h.new hstep
  | reset v | timeout v =>
    rw [step] at hstep
    split at hstep
    · split at hstep
      · obtain rfl := Option.some.inj hstep
        exact h.off rfl
      · cases hstep
    · cases hstep
  | sendVideoFrame v connIds =>
    rw [step] at hstep
    split at hstep
    · split at hstep
      · split at hstep
        · obtain rfl := Option.some.inj hstep
          exact h
        · next hne =>
          obtain rfl := Option.some.inj hstep
          exact h.sendVideoFrame htimely hne
      · cases hstep
    · cases hstep
  | setSend v => exact h.setSend hstep
  | wait v => exact h.wait hstep
  | tryWaitNext v => exact h.tryWaitNext hstep
  | leave v =>
    rw [step] at hstep
    split at hstep
    · split at hstep
      · obtain rfl := Option.some.inj hstep
        exact ⟨h.alone, h.good, h.honest, h.paced⟩
      · cases hstep
    · cases hstep
  | restart v =>
    rw [step] at hstep
    split at hstep
    · obtain rfl := Option.some.inj hstep
      exact h.off rfl
    · cases hstep
  | notify conn v n =>
    rw [step] at hstep
    split at hstep
    · obtain rfl := Option.some.inj hstep
      exact h.notify htimely
    · cases hstep
  | notifyByConnId conn notice =>
    cases notice with
    | frame v n =>
      rw [step] at hstep
      split at hstep
      · obtain rfl := Option.some.inj hstep
        exact h.call True.intro (List.mem_append_right _ (List.mem_singleton_self _))
      · cases hstep
    | closed =>
      obtain rfl := Option.some.inj hstep
      exact h.call True.intro List.getElem?_concat_length
  | deliver i => exact h.deliver htimely hstep

end Pacing

/-- **A wait that ends before its time was ended by its own frame**, in every run in which the
notifications are timely. -/
theorem released_by_this_frame {acts : List Act} {s : Pacing}
    (hall : Along Pacing.step Pacing.Timely .start acts)
    (hrun : exec Pacing.step .start acts = some s) : Each Paced s.log :=
  (exec_invariant_along (fun _ _ _ => Pacing.step_inv) Pacing.start_inv hall hrun).paced

/-- The first display. -/
def display : ServiceId := ⟨.monitor, 0⟩

/-- A frame for somebody. -/
def sending (v : ServiceId) (connIds : Finset Int32) : List Act :=
  [.sendVideoFrame v connIds, .setSend v, .wait v]

/-- One viewer fetches the frame, and the other closes. -/
theorem released_by_this_frame_closed :
    ∃ s, exec Pacing.step .start (.new display :: sending display {1, 2} ++
    [Act.notify 1 display 1, .tryWaitNext display, .notifyByConnId 2 .closed, .deliver 0,
      .tryWaitNext display]) = some s ∧
    Each Paced s.log ∧ s.log = [.sent display 1 {1, 2}, .notified 1 display 1, .closed 2,
      .released display 1 {1, 2}] := by
  have hrun :
    (exec Pacing.step .start (.new display :: sending display {1, 2} ++ [Act.notify 1 display 1,
      .tryWaitNext display, .notifyByConnId 2 .closed, .deliver 0, .tryWaitNext display])).any
        (fun s =>
        s.log = [.sent display 1 {1, 2}, .notified 1 display 1, .closed 2,
          .released display 1 {1, 2}]) = true := by
    decide +kernel
  obtain ⟨s, hs, hp⟩ := (Option.any_eq_true _ _).mp hrun
  exact ⟨s, hs, released_by_this_frame (by decide +kernel) hs, of_decide_eq_true hp⟩

/-- A viewer fetches a frame when its wait is over. The next one is not waited for. -/
theorem released_by_late_notice :
    ¬∀ acts s, exec Pacing.step .start acts = some s → Each Paced s.log := by
  intro h
  have hrun :
    (exec Pacing.step .start (.new display :: sending display {1} ++
      [Act.timeout display, .leave display,
      .notify 1 display 1, .reset display] ++ sending display {1} ++ [Act.tryWaitNext display])).any
        (fun s =>
        s.log = [.sent display 1 {1}, .notified 1 display 1, .sent display 2 {1},
          .released display 2 {1}]) = true := by
    decide +kernel
  obtain ⟨s, hs, hp⟩ := (Option.any_eq_true _ _).mp hrun
  have hpaced := h _ s hs [.sent display 1 {1}, .notified 1 display 1, .sent display 2 {1}]
    (.released display 2 {1}) []
    (of_decide_eq_true hp)
  rcases hpaced 1 (by decide) with hnotified | ⟨first, receivers, rest, heq, hclosed⟩
  · exact absurd hnotified (by decide)
  · have hmem : Event.closed 1 ∈ [Event.sent display 1 {1}, .notified 1 display 1,
        .sent display 2 {1}] := by
      rw [heq]
      exact List.mem_append_right _ (List.mem_cons_of_mem _ hclosed)
    exact absurd hmem (by decide)

end FramePacing
end BgDesk
