import Mathlib.Order.Bounds.Basic
import BgDesk.FrameRate

/-!
# The viewers of a stream are independent

All viewers share one controller, and the stream follows the slowest of them. While the bitrate is
not adjusted, nothing of that comes back to a viewer: its target is a function of its own replies,
stalls and limits.

* `Viewer.next` — a viewer alone, without the other viewers and without the stream;
* `step_viewer` — an operation of the controller moves a viewer as its own event does, and every
  other operation leaves it alone;
* `step_follows` — the rate of the stream after one operation;
* `viewer_independence` — two runs in which a viewer has the same events.
-/

namespace BgDesk
namespace VideoQos

/-! ## A viewer alone -/

/-- The three bands of the quality in `user_network_delay`. -/
inductive Band where
  | best
  | balanced
  | below
  deriving DecidableEq

/-- The band of a ratio. -/
def Band.of {R : Type} (F : F32 R) (targetRatio : R) : Band :=
  if F.le (brBest F) targetRatio then .best
  else if F.le (brBalanced F) targetRatio then .balanced
  else .below

/-- The rates that go with a band. -/
def Band.fps : Band → ℕ × ℕ
  | .best => (8, 16)
  | .balanced => (10, 20)
  | .below => (12, 24)

theorem qualityFps_eq {R : Type} (F : F32 R) (targetRatio : R) :
    Qos.qualityFps F targetRatio = (Band.of F targetRatio).fps := by
  rw [Qos.qualityFps, Band.of]
  split
  · rfl
  · split
    · rfl
    · rfl

/-- What happens to one viewer. -/
inductive ViewerEvent where
  | join
  | leave
  | customFps (fps : ℕ)
  | autoAdjustFps (fps : ℕ)
  | reply (delay : ℕ) (band : Band)
  | stallTick (elapsed : ℕ)
  deriving DecidableEq

/-- What the rate of a viewer is worked out from. -/
structure Viewer where
  delay : UserDelay
  customFps : Option ℕ
  autoAdjustFps : Option ℕ
  deriving DecidableEq

namespace Viewer

/-- The part of `UserData` that is about rates. -/
def of {R : Type} (user : UserData R) : Viewer := ⟨user.delay, user.customFps, user.autoAdjustFps⟩

/-- A viewer that has just joined. -/
def fresh : Viewer := ⟨.empty, none, none⟩

/-- `fps_cap`. -/
def fpsCap (v : Viewer) : ℕ :=
  (UserData.mk (R := Unit) v.autoAdjustFps v.customFps none v.delay none).fpsCap

theorem fpsCap_of {R : Type} (user : UserData R) : (of user).fpsCap = user.fpsCap := rfl

/-- A limit the viewer asks for, if it is one. -/
def limited (v v' : Viewer) (fps : ℕ) : Viewer := if fps < minFps ∨ maxFps < fps then v else v'

/-- The viewer after one of its events. -/
def next {R : Type} (F : F32 R) : Option Viewer → ViewerEvent → Option Viewer
  | _, .join => some fresh
  | _, .leave => none
  | v, .customFps fps => v.map fun v => limited v { v with customFps := some fps } fps
  | v, .autoAdjustFps fps => v.map fun v => limited v { v with autoAdjustFps := some fps } fps
  | v, .reply delay band => v.map fun v =>
    match v.delay.reply F v.fpsCap band.fps.1 band.fps.2 delay false with
    | none => v
    | some (d, _) => { v with delay := d }
  | v, .stallTick elapsed => v.map fun v =>
    if elapsed ≤ 2000 then v
    else
      match v.delay.stall v.fpsCap elapsed with
      | none => v
      | some d => { v with delay := d }

end Viewer

namespace UserDelay

/-- No target is zero, and a brake has left one. -/
structure Positive (d : UserDelay) : Prop where
  target : ∀ t ∈ d.fps, minFps ≤ t
  braked : d.stallReferenceFps.isSome → d.fps.isSome

theorem Positive.empty : UserDelay.empty.Positive :=
  ⟨by simp [UserDelay.empty], by simp [UserDelay.empty]⟩

/-- A reply ends with a target of its own. -/
theorem reply_positive {R : Type} {F : F32 R} {d d' : UserDelay} {cap lowFps normalFps delay : ℕ}
    {bitrateFirst reduceBitrate : Bool}
    (h : d.reply F cap lowFps normalFps delay bitrateFirst = some (d', reduceBitrate)) :
    d'.Positive := by
  rw [reply] at h
  obtain ⟨oldAvgDelay, -, h⟩ := Option.bind_eq_some_iff.mp h
  obtain ⟨d₁, -, h⟩ := Option.bind_eq_some_iff.mp h
  obtain ⟨avgDelay, -, h⟩ := Option.bind_eq_some_iff.mp h
  obtain ⟨⟨d₂, fps₂⟩, -, h⟩ := Option.bind_eq_some_iff.mp h
  obtain ⟨⟨d₃, fps₃⟩, -, h⟩ := Option.bind_eq_some_iff.mp h
  obtain ⟨⟨d₄, fps₄⟩, -, h⟩ := Option.bind_eq_some_iff.mp h
  obtain ⟨⟨d₅, fps₅⟩, -, h⟩ := Option.bind_eq_some_iff.mp h
  obtain ⟨rfl, -⟩ := Prod.mk.inj (Option.some.inj h)
  refine ⟨fun t ht => ?_, fun _ => rfl⟩
  obtain rfl := Option.some.inj ht
  exact Nat.le_max_left _ _

theorem stall_positive {d d' : UserDelay} {cap elapsed : ℕ} (hd : d.Positive) (hcap : minFps ≤ cap)
    (h : d.stall cap elapsed = some d') : d'.Positive := by
  rw [stall] at h
  generalize hd₁ : { d with stallTicks := min (d.stallTicks + 1) u8Max }.addDelay
    (elapsed % 2 ^ 32) = d₁ at h
  have hfps₁ : d₁.fps = d.fps := by rw [← hd₁]; rfl
  have href₁ : d₁.stallReferenceFps = d.stallReferenceFps := by rw [← hd₁]; rfl
  obtain ⟨part, -, h⟩ := Option.bind_eq_some_iff.mp h
  obtain rfl := Option.some.inj h
  have hcurrent : minFps ≤ (d₁.brake cap).1.fps.getD (d₁.brake cap).2 := by
    rw [brake_fps, hfps₁]
    cases hfps : d.fps with
    | some t => exact hd.target t hfps
    | none =>
      cases href : d.stallReferenceFps with
      | some reference => simpa [href, hfps] using hd.braked
      | none =>
        rw [brake, href₁, href, hfps₁, hfps]
        exact Nat.le_min.mpr ⟨by decide, hcap⟩
  refine ⟨fun t ht => ?_, fun _ => rfl⟩
  obtain rfl := Option.some.inj ht
  have hfloor : minFps ≤ min minAutoFps cap := Nat.le_min.mpr ⟨by decide, hcap⟩
  exact Nat.le_min.mpr ⟨hfloor.trans (Nat.le_max_left _ _), hcurrent⟩

end UserDelay

namespace Qos

variable {R : Type} (F : F32 R) {q q' : Qos R}

/-- The viewer with this number, as far as its rate goes. -/
def viewer (q : Qos R) (i : ℤ) : Option Viewer := (q.user? i).map Viewer.of

/-- The rate one viewer is at. -/
def target (q : Qos R) (i : ℤ) : Option ℕ := (q.viewer i).bind (·.delay.fps)

/-- An event of viewer `i`. A reply is read in the band of the quality it arrives in. -/
def viewerEvent (i : ℤ) (q : Qos R) : Op → Option ViewerEvent
  | .onConnectionOpen id _ _ => if id = i then some .join else none
  | .onConnectionClose id _ => if id = i then some .leave else none
  | .userCustomFps id fps => if id = i then some (.customFps fps) else none
  | .userAutoAdjustFps id fps => if id = i then some (.autoAdjustFps fps) else none
  | .userNetworkDelay id delay _ =>
    if id = i then some (.reply delay (Band.of F (qualityRatio F q.latestQuality))) else none
  | .userDelayResponseElapsed id elapsed _ => if id = i then some (.stallTick elapsed) else none
  | _ => none

/-- An operation that asks whether the bitrate is variable. -/
def readsVbr : Op → Bool
  | .userNetworkDelay _ _ _ | .updateDisplayData _ _ _ => true
  | _ => false

/-- The bitrate is not variable where an operation would use that. -/
def VbrOff (q : Qos R) (op : Op) : Prop := readsVbr op → q.inVbrState = false

instance (q : Qos R) (op : Op) : Decidable (q.VbrOff op) := inferInstanceAs (Decidable (_ → _))

/-- A map has one entry for a key. -/
def Keyed (q : Qos R) : Prop := (q.users.map Prod.fst).Nodup

/-! ## What one operation does to a viewer -/

variable {i id : ℤ} {now : ℕ} {op : Op}

theorem user?_withUser_ne (hne : id ≠ i) (f : UserData R → UserData R) :
    (q.withUser id f).user? i = q.user? i := by
  rw [user?, user?, withUser]
  dsimp only
  induction q.users with
  | nil => rfl
  | cons u us ih =>
    by_cases h : u.1 = id
    · have hi : u.1 ≠ i := h ▸ hne
      simpa [List.find?_cons, h, hi, hne] using ih
    · by_cases hi : u.1 = i
      · simp [hi, hne.symm]
      · simpa [List.find?_cons, h, hi] using ih

theorem user?_withUser_of (i id : ℤ) (f : UserData R → UserData R) :
    (q.withUser id f).user? i = if id = i then (q.user? i).map f else q.user? i := by
  by_cases h : id = i
  · obtain rfl := h
    rw [user?_withUser, if_pos rfl]
  · rw [user?_withUser_ne h, if_neg h]

theorem user?_filter (i id : ℤ) :
    ({ q with users := q.users.filter (·.1 ≠ id) } : Qos R).user? i = if id =
      i then none else q.user? i := by
  rw [user?, user?]
  dsimp only
  induction q.users with
  | nil => simp
  | cons u us ih =>
    by_cases h : u.1 = id
    · by_cases hi : id = i
      · simp [h, hi]
      · simpa [List.find?_cons, h, hi] using ih
    · by_cases hi : u.1 = i
      · have hne : id ≠ i := fun heq => h (hi.trans heq.symm)
        simp [hi, hne, hne.symm]
      · simpa [List.find?_cons, h, hi] using ih

theorem user?_eq_some_iff {user : UserData R} (hq : q.Keyed) :
    q.user? i = some user ↔ (i, user) ∈ q.users := by
  rw [user?]
  rw [Keyed] at hq
  generalize q.users = users at hq ⊢
  induction users with
  | nil => simp
  | cons u us ih =>
    obtain ⟨hnot, hrest⟩ := List.nodup_cons.mp hq
    by_cases h : u.1 = i
    · have hout : (i, user) ∉ us := fun hmem => hnot (h ▸ List.mem_map_of_mem (f := Prod.fst) hmem)
      simp only [List.find?_cons, h, decide_true, Option.map_some, Option.some.injEq, List.mem_cons,
        hout, or_false,
        Prod.ext_iff, true_and]
      exact eq_comm
    · have hne : (i, user) ≠ u := fun heq => h (heq ▸ rfl)
      simpa [List.find?_cons, h, hne] using ih hrest

/-- Any order of the map has the same entries. -/
theorem user?_perm {users : List (ℤ × UserData R)} (hq : q.Keyed) (hperm : users.Perm q.users) :
    ({ q with users := users } : Qos R).user? i = q.user? i := by
  have hq' : ({ q with users := users } : Qos R).Keyed := (hperm.map Prod.fst).nodup_iff.mpr hq
  refine Option.ext fun user => ?_
  rw [user?_eq_some_iff hq, user?_eq_some_iff hq']
  exact hperm.mem_iff

theorem keyed_withUser (id : ℤ) (f : UserData R → UserData R) (hq : q.Keyed) :
    (q.withUser id f).Keyed := by
  have hkeys : (q.withUser id f).users.map Prod.fst = q.users.map Prod.fst := by
    rw [withUser, List.map_map]
    refine List.map_congr_left fun u _ => ?_
    dsimp only [Function.comp]
    split <;> rfl
  rw [Keyed, hkeys]
  exact hq

theorem keyed_filter (id : ℤ) (hq : q.Keyed) :
    ({ q with users := q.users.filter (·.1 ≠ id) } : Qos R).Keyed :=
  hq.sublist (List.filter_sublist.map Prod.fst)

theorem keyed_insert (id : ℤ) (user : UserData R) (hq : q.Keyed) :
    ({ q with users := q.users.filter (·.1 ≠ id) ++ [(id, user)] } : Qos R).Keyed := by
  have hold := keyed_filter id hq
  rw [Keyed, List.map_append]
  refine List.nodup_append.mpr ⟨hold, by simp, ?_⟩
  simp

theorem user?_insert (i id : ℤ) (user : UserData R) :
    ({ q with users := q.users.filter (·.1 ≠ id) ++ [(id, user)] } : Qos R).user? i =
      if id = i then some user else q.user? i := by
  have hold := user?_filter (q := q) i id
  rw [user?] at hold ⊢
  dsimp only at hold ⊢
  rw [List.find?_append, Option.map_or, hold]
  by_cases h : id = i
  · simp [h]
  · simp [h]

/-! ## Without a variable bitrate -/

theorem canReduceBitrate_off (hoff : q.inVbrState = false) : q.canReduceBitrate F = false := by
  rw [canReduceBitrate, hoff]
  rfl

theorem adjustRatioIf_off (hoff : q.inVbrState = false) (reason : Bool) (now : ℕ) :
    q.adjustRatioIf F reason now = some q := by
  rw [adjustRatioIf, adjustRatio, hoff]
  simp

/-- A reply changes its viewer, and then the stream. -/
theorem userNetworkDelay_off {delay : ℕ} (hoff : q.inVbrState = false)
    (h : q.userNetworkDelay F id delay now = some q') : q.user? id = none ∧ q' = q.adjustFps now ∨
      ∃ user d reduceBitrate, q.user? id = some user ∧
        user.delay.reply F user.fpsCap (qualityFps F (qualityRatio F q.latestQuality)).1
          (qualityFps F (qualityRatio F q.latestQuality)).2 delay false = some (d, reduceBitrate) ∧
        q' = (q.withUser id fun user => { user with delay := d }).adjustFps now := by
  rw [userNetworkDelay, canReduceBitrate_off F hoff] at h
  dsimp only at h
  cases hu : q.user? id with
  | none =>
    rw [hu] at h
    exact .inl ⟨rfl, (Option.some.inj h).symm⟩
  | some user =>
    rw [hu] at h
    obtain ⟨⟨d, reduceBitrate⟩, hreply, h⟩ := Option.bind_eq_some_iff.mp h
    have hstill : ((q.withUser id fun user => { user with delay := d }).adjustFps now).inVbrState =
        false := hoff
    dsimp only at h
    rw [adjustRatioIf_off F hstill, Option.bind_eq_bind, Option.bind_some,
      adjustRatioIf_off F hstill] at h
    exact .inr ⟨user, d, reduceBitrate, rfl, hreply, (Option.some.inj h).symm⟩

/-- A stall changes its viewer, and then the stream. -/
theorem userDelayResponseElapsed_cases {elapsed : ℕ}
    (h : q.userDelayResponseElapsed id elapsed now = some q') :
    (elapsed ≤ 2000 ∨ q.user? id = none) ∧ q' = q ∨
      ∃ user d, 2000 < elapsed ∧ q.user? id = some user ∧
        user.delay.stall user.fpsCap elapsed = some d ∧
        q' = (q.withUser id fun user => { user with delay := d }).adjustFps now := by
  rw [userDelayResponseElapsed] at h
  cases hu : q.user? id with
  | none =>
    rw [hu] at h
    exact .inl ⟨.inr rfl, (Option.some.inj h).symm⟩
  | some user =>
    rw [hu] at h
    dsimp only at h
    split at h
    · rename_i hshort
      exact .inl ⟨.inl hshort, (Option.some.inj h).symm⟩
    · obtain ⟨d, hstall, h⟩ := Option.bind_eq_some_iff.mp h
      exact .inr ⟨user, d, by omega, rfl, hstall, (Option.some.inj h).symm⟩

/-- The seconds of a display change the stream, and the ratio. -/
theorem updateDisplayData_off {name : String} {sendCounter : ℕ} (hoff : q.inVbrState = false)
    (h : q.updateDisplayData F name sendCounter now = some q') :
    ∃ ratio displays, q' = { (q.adjustFps now) with ratio := ratio, displays := displays } := by
  have hstill :
    ((q.withDisplay name fun d => { d with sendCounter := d.sendCounter + sendCounter }).adjustFps
      now).inVbrState = false := by
    rw [inVbrState] at hoff ⊢
    rw [← hoff, adjustFps, withDisplay]
    dsimp only
    rw [List.all_map]
    congr 2
    funext d
    dsimp only [Function.comp]
    split <;> rfl
  rw [updateDisplayData, hstill] at h
  obtain rfl := Option.some.inj h
  exact ⟨_, _, rfl⟩

/-! ## The step -/

@[simp] theorem viewer_adjustFps (i : ℤ) (now : ℕ) : (q.adjustFps now).viewer i = q.viewer i := rfl

theorem viewer_withUser (i id : ℤ) (f : UserData R → UserData R) :
    (q.withUser id f).viewer i = if id = i then (q.user? i).map fun user =>
      Viewer.of (f user) else q.viewer i := by
  rw [viewer, user?_withUser_of]
  split
  · rw [Option.map_map]
    rfl
  · rfl

/-- What an operation of the controller may do to viewer `i`. -/
def Moves (i : ℤ) (q : Qos R) (op : Op) (q' : Qos R) : Prop :=
  q'.viewer i = (viewerEvent F i q op).elim (q.viewer i) (Viewer.next F (q.viewer i))

theorem moves_reply {delay : ℕ} (hoff : q.inVbrState = false)
    (h : q.userNetworkDelay F id delay now = some q') :
    Moves F i q (.userNetworkDelay id delay now) q' := by
  rw [Moves, viewerEvent]
  obtain ⟨hu, rfl⟩ | ⟨user, d, reduceBitrate, hu, hreply, rfl⟩ := userNetworkDelay_off F hoff h
  · rw [viewer_adjustFps]
    by_cases hid : id = i
    · obtain rfl := hid
      simp [viewer, hu, Viewer.next]
    · rw [if_neg hid, Option.elim_none]
  · rw [viewer_adjustFps, viewer_withUser]
    by_cases hid : id = i
    · obtain rfl := hid
      rw [qualityFps_eq, ← Viewer.fpsCap_of] at hreply
      have hsame : (Viewer.of user).delay = user.delay := rfl
      simp only [if_true, Option.elim_some, viewer, hu, Option.map_some, Viewer.next, hsame, hreply]
      rfl
    · rw [if_neg hid, if_neg hid, Option.elim_none]

theorem moves_stall {elapsed : ℕ} (h : q.userDelayResponseElapsed id elapsed now = some q') :
    Moves F i q (.userDelayResponseElapsed id elapsed now) q' := by
  rw [Moves, viewerEvent]
  obtain ⟨hskip, rfl⟩ | ⟨user, d, hlate, hu, hstall, rfl⟩ := userDelayResponseElapsed_cases h
  · by_cases hid : id = i
    · obtain rfl := hid
      rw [if_pos rfl]
      rcases hskip with hshort | hu
      · simp [Viewer.next, hshort]
      · simp [viewer, hu, Viewer.next]
    · rw [if_neg hid, Option.elim_none]
  · rw [viewer_adjustFps, viewer_withUser]
    by_cases hid : id = i
    · obtain rfl := hid
      have hlong : ¬elapsed ≤ 2000 := by omega
      rw [← Viewer.fpsCap_of] at hstall
      have hsame : (Viewer.of user).delay = user.delay := rfl
      simp only [if_true, Option.elim_some, viewer, hu, Option.map_some, Viewer.next, hsame, hstall,
        if_neg hlong]
      rfl
    · rw [if_neg hid, if_neg hid, Option.elim_none]

theorem moves_close (linux : Bool) (now : ℕ) :
    Moves F i q (.onConnectionClose id now) (q.onConnectionClose F linux id now) := by
  have hold := user?_filter (q := q) i id
  have hview : (q.onConnectionClose F linux id now).viewer i =
      if id = i then none else q.viewer i := by
    rw [onConnectionClose]
    dsimp only
    split
    · rename_i hempty
      -- the last viewer is gone, so there was no other one
      rw [user?, hempty] at hold
      by_cases hid : id = i
      · rw [if_pos hid]
        rfl
      · rw [if_neg hid] at hold ⊢
        rw [viewer, viewer, ← hold]
        rfl
    · rw [viewer_adjustFps, viewer, hold]
      split <;> rfl
  rw [Moves, viewerEvent, hview]
  split
  · rfl
  · rfl

/-- A limit a viewer asks for is its own. -/
theorem moves_limit {fps : ℕ} {e : ViewerEvent} {f : UserData R → UserData R} {g : Viewer → Viewer}
    (hevent : viewerEvent F i q op = if id = i then some e else none)
    (hnext : ∀ v, Viewer.next F v e = v.map fun v => Viewer.limited v (g v) fps)
    (hf : ∀ user, Viewer.of (f user) = g (Viewer.of user))
    (h : (if fps < minFps ∨ maxFps < fps then some q else some (q.withUser id f)) = some q') :
    Moves F i q op q' := by
  rw [Moves, hevent]
  split at h
  · rename_i hout
    obtain rfl := Option.some.inj h
    by_cases hid : id = i
    · simp [hid, hnext, Viewer.limited, hout]
    · rw [if_neg hid, Option.elim_none]
  · rename_i hin
    obtain rfl := Option.some.inj h
    rw [viewer_withUser]
    by_cases hid : id = i
    · simp only [if_pos hid, Option.elim_some, hnext, viewer, Option.map_map, Function.comp_def,
        Viewer.limited, if_neg hin, hf]
    · rw [if_neg hid, if_neg hid, Option.elim_none]

/-- **Step**: an operation moves a viewer as its own event does, and leaves it alone if it is about
something else. -/
theorem step_viewer (linux : Bool) (i : ℤ) (hq : q.Keyed) (hoff : q.VbrOff op)
    (h : step F linux q op = some q') : q'.Keyed ∧ Moves F i q op q' := by
  cases op with
  | onConnectionOpen id now abr =>
    obtain rfl := Option.some.inj h
    refine ⟨keyed_insert id _ hq, ?_⟩
    have hnew := user?_insert (q := q) i id ⟨none, none, none, .empty, some now⟩
    refine (congrArg (Option.map Viewer.of) hnew).trans ?_
    rw [viewerEvent]
    split <;> rfl
  | onConnectionClose id now =>
    obtain rfl := Option.some.inj h
    refine ⟨?_, moves_close F linux now⟩
    rw [onConnectionClose]
    dsimp only
    split
    · exact List.nodup_nil
    · exact keyed_filter id hq
  | userCustomFps id fps =>
    refine ⟨?_, moves_limit F (g := fun v => { v with customFps := some fps }) rfl (fun _ => rfl)
      (fun _ => rfl) h⟩
    rw [step] at h
    split at h
    · obtain rfl := Option.some.inj h
      exact hq
    · obtain rfl := Option.some.inj h
      exact keyed_withUser id _ hq
  | userAutoAdjustFps id fps =>
    refine ⟨?_, moves_limit F (g := fun v => { v with autoAdjustFps := some fps })
      rfl (fun _ => rfl) (fun _ => rfl) h⟩
    rw [step] at h
    split at h
    · obtain rfl := Option.some.inj h
      exact hq
    · obtain rfl := Option.some.inj h
      exact keyed_withUser id _ hq
  | userImageQuality id imageQuality time =>
    rw [step] at h
    split at h
    · obtain rfl := Option.some.inj h
      exact ⟨hq, rfl⟩
    · obtain rfl := Option.some.inj h
      refine ⟨keyed_withUser (q := q) id
        (fun user => { user with quality := some (time, convertQuality F imageQuality) }) hq, ?_⟩
      have hsame := viewer_withUser (q := q) i id fun user =>
        { user with quality := some (time, convertQuality F imageQuality) }
      refine Eq.trans hsame ?_
      split
      · rfl
      · rfl
  | userNetworkDelay id delay now =>
    refine ⟨?_, moves_reply F (hoff rfl) h⟩
    obtain ⟨-, rfl⟩ | ⟨_, d, _, -, -, rfl⟩ := userNetworkDelay_off F (hoff rfl) h
    · exact hq
    · exact keyed_withUser id (fun user => { user with delay := d }) hq
  | userDelayResponseElapsed id elapsed now =>
    refine ⟨?_, moves_stall F h⟩
    obtain ⟨-, rfl⟩ | ⟨_, d, -, -, -, rfl⟩ := userDelayResponseElapsed_cases h
    · exact hq
    · exact keyed_withUser id (fun user => { user with delay := d }) hq
  | updateDisplayData name sendCounter now =>
    obtain ⟨ratio, displays, rfl⟩ := updateDisplayData_off F (hoff rfl) h
    exact ⟨hq, rfl⟩
  | readRatio =>
    obtain rfl := Option.some.inj h
    split
    · exact ⟨hq, rfl⟩
    · exact ⟨hq, rfl⟩
  | rehash before =>
    obtain rfl := Option.some.inj h
    have hperm := List.mergeSort_perm q.users fun a b => before a.1 b.1
    refine ⟨(hperm.map Prod.fst).nodup_iff.mpr hq, ?_⟩
    rw [Moves, viewer, user?_perm hq hperm]
    rfl
  | newDisplay name | removeDisplay name | setSupportChangingQuality name support
  | storeBitrate bitrate | adjustFps now =>
    obtain rfl := Option.some.inj h
    exact ⟨hq, rfl⟩

/-! ## The rate of the stream -/

/-- A rate all viewers bear at the time `now`: no viewer's target and no viewer's cap is below it,
and while a viewer is in its first second, or without viewers, it is at most `INIT_FPS`. -/
structure Bearable (q : Qos R) (now n : ℕ) : Prop where
  targets : ∀ u ∈ q.users, n ≤ u.2.delay.fps.getD initFps
  caps : ∀ u ∈ q.users, n ≤ u.2.fpsCap
  starting : (∃ u ∈ q.users, ∃ joined ∈ u.2.joinedAt, (now - joined) / 1000 < 1) → n ≤ initFps
  nobody : q.users = [] → n ≤ initFps

/-- When an operation works the rate of the stream out. -/
def refreshedAt (q : Qos R) : Op → Option ℕ
  | .userNetworkDelay _ _ now | .updateDisplayData _ _ now | .adjustFps now => some now
  | .userDelayResponseElapsed id elapsed now =>
    if elapsed ≤ 2000 ∨ q.user? id = none then none else some now
  | .onConnectionClose id now => if q.users.filter (·.1 ≠ id) = [] then none else some now
  | _ => none

/-- The rate of the stream after an operation: the highest one all viewers bear, if it was worked
out; that of a new controller when the last viewer has left; and what it was before otherwise. -/
def Follows (q : Qos R) (op : Op) (q' : Qos R) : Prop :=
  match refreshedAt q op, op with
  | some now, _ => IsGreatest {n | q'.Bearable now n} q'.fps
  | none, .onConnectionClose _ _ => q'.fps = fpsDefault
  | none, _ => q'.fps = q.fps

theorem adjustFps_greatest (hq : ∀ u ∈ q.users, u.2.delay.Positive) :
    IsGreatest {n | (q.adjustFps now).Bearable now n} (q.adjustFps now).fps := by
  have hsame : (q.adjustFps now).users = q.users := rfl
  have hpos : ∀ u ∈ q.users, minFps ≤ u.2.delay.fps.getD initFps := by
    intro u hu
    cases h : u.2.delay.fps with
    | none => decide
    | some t => exact (hq u hu).target t h
  -- the starting viewers, as the code finds them
  have hstart : (q.users.any fun u => u.2.joinedAt.any fun joined =>
    decide ((now - joined) / 1000 < 1)) = true ↔
      ∃ u ∈ q.users, ∃ joined ∈ u.2.joinedAt, (now - joined) / 1000 < 1 := by
    simp [List.any_eq_true, Option.any_eq_true]
  cases hempty : q.users with
  | nil =>
    have hfps : (q.adjustFps now).fps = initFps := by
      simp [adjustFps, highestFps, hempty, clamp, minFps, initFps, fpsDefault, maxFps]
    rw [hfps]
    refine ⟨⟨?_, ?_, fun _ => le_rfl, fun _ => le_rfl⟩, fun n hn => hn.nobody (hsame.trans hempty)⟩
    · rw [hsame, hempty]
      simp
    · rw [hsame, hempty]
      simp
  | cons v vs =>
    obtain ⟨slowest, hslowest⟩ : ∃ m, (q.users.map (·.2.delay.fps.getD initFps)).min? = some m := by
      rw [hempty]
      exact ⟨_, rfl⟩
    obtain ⟨smallest, hsmallest⟩ : ∃ m, (q.users.map (·.2.fpsCap)).min? = some m := by
      rw [hempty]
      exact ⟨_, rfl⟩
    obtain ⟨hslowMem, hslowLe⟩ := List.min?_eq_some_iff.mp hslowest
    obtain ⟨hsmallMem, hsmallLe⟩ := List.min?_eq_some_iff.mp hsmallest
    obtain ⟨uSlow, huSlow, rfl⟩ := List.mem_map.mp hslowMem
    obtain ⟨uSmall, huSmall, rfl⟩ := List.mem_map.mp hsmallMem
    have hslowPos := hpos uSlow huSlow
    have hcap := uSmall.2.fpsCap_range
    have hinit : minFps ≤ initFps := by decide
    have hhighest : q.highestFps = uSmall.2.fpsCap := by
      rw [highestFps, hsmallest]
      simp only [Option.getD_some, clamp]
      omega
    have hfps :
      (q.adjustFps now).fps = clamp (if (q.users.any fun u => u.2.joinedAt.any fun joined =>
        decide ((now - joined) / 1000 < 1)) = true then min (uSlow.2.delay.fps.getD initFps) initFps
        else uSlow.2.delay.fps.getD initFps) minFps uSmall.2.fpsCap := by
      rw [adjustFps, hhighest, hslowest, Option.getD_some]
    rw [hfps, clamp]
    refine ⟨⟨fun u hu => ?_, fun u hu => ?_, fun hs => ?_, fun h => ?_⟩, fun n hn => ?_⟩
    · have hle := hslowLe _ (List.mem_map.mpr ⟨u, hu, rfl⟩)
      split <;> omega
    · have hle : uSmall.2.fpsCap ≤ u.2.fpsCap := hsmallLe _ (List.mem_map.mpr ⟨u, hu, rfl⟩)
      omega
    · rw [if_pos (hstart.mpr hs)]
      omega
    · exact absurd (hempty.symm.trans h) (List.cons_ne_nil _ _)
    · have htarget := hn.targets uSlow huSlow
      have hcapped := hn.caps uSmall huSmall
      split
      · have hinit := hn.starting (hstart.mp ‹_›)
        omega
      · omega

/-- **Step**: an operation leaves the stream as `Follows` says. -/
theorem step_follows (linux : Bool) (hq : ∀ u ∈ q.users, u.2.delay.Positive) (hoff : q.VbrOff op)
    (h : step F linux q op = some q') : (∀ u ∈ q'.users, u.2.delay.Positive) ∧ Follows q op q' := by
  have changed : ∀ (id : ℤ) {d : UserDelay}, d.Positive →
      ∀ u ∈ (q.withUser id fun user => { user with delay := d }).users, u.2.delay.Positive :=
    fun _ _ hd => withUser_users (P := fun user => user.delay.Positive) hq fun _ _ => hd
  cases op with
  | onConnectionOpen id now abr =>
    obtain rfl := Option.some.inj h
    refine ⟨fun u hu => ?_, rfl⟩
    rcases List.mem_append.mp hu with hu | hu
    · exact hq u (List.mem_of_mem_filter hu)
    · obtain rfl := List.mem_singleton.mp hu
      exact UserDelay.Positive.empty
  | onConnectionClose id now =>
    obtain rfl := Option.some.inj h
    have hrest : ∀ u ∈ q.users.filter (·.1 ≠ id), u.2.delay.Positive := fun u hu =>
      hq u (List.mem_of_mem_filter hu)
    dsimp only [Follows, refreshedAt, onConnectionClose]
    by_cases hlast : q.users.filter (·.1 ≠ id) = []
    · rw [if_pos hlast, if_pos hlast]
      exact ⟨by simp [default], rfl⟩
    · rw [if_neg hlast, if_neg hlast]
      exact ⟨hrest, adjustFps_greatest (q := { q with users := q.users.filter (·.1 ≠ id) }) hrest⟩
  | userCustomFps id fps | userAutoAdjustFps id fps =>
    rw [step] at h
    split at h
    · obtain rfl := Option.some.inj h
      exact ⟨hq, rfl⟩
    · obtain rfl := Option.some.inj h
      exact ⟨withUser_users (P := fun user => user.delay.Positive) hq fun _ h => h, rfl⟩
  | userImageQuality id imageQuality time =>
    rw [step] at h
    split at h
    · obtain rfl := Option.some.inj h
      exact ⟨hq, rfl⟩
    · obtain rfl := Option.some.inj h
      exact ⟨withUser_users (P := fun user => user.delay.Positive)
        (f := fun user => { user with quality := some (time, convertQuality F imageQuality) })
          hq fun _ h => h, rfl⟩
  | userNetworkDelay id delay now =>
    obtain ⟨-, rfl⟩ | ⟨user, d, reduceBitrate, -, hreply, rfl⟩ :=
      userNetworkDelay_off F (hoff rfl) h
    · exact ⟨hq, adjustFps_greatest hq⟩
    · have hnew := changed id (UserDelay.reply_positive hreply)
      exact ⟨hnew, adjustFps_greatest hnew⟩
  | userDelayResponseElapsed id elapsed now =>
    dsimp only [Follows, refreshedAt]
    obtain ⟨hskip, rfl⟩ | ⟨user, d, hlate, hu, hstall, rfl⟩ := userDelayResponseElapsed_cases h
    · rw [if_pos hskip]
      exact ⟨hq, rfl⟩
    · obtain ⟨v, hv, rfl⟩ := user?_mem hu
      have hnew := changed id (UserDelay.stall_positive (hq v hv) v.2.fpsCap_range.1 hstall)
      rw [if_neg (by simp [hu]; omega)]
      exact ⟨hnew, adjustFps_greatest hnew⟩
  | updateDisplayData name sendCounter now =>
    obtain ⟨ratio, displays, rfl⟩ := updateDisplayData_off F (hoff rfl) h
    exact ⟨hq, adjustFps_greatest (q := { q with ratio := ratio, displays := displays }) hq⟩
  | readRatio =>
    obtain rfl := Option.some.inj h
    split
    · exact ⟨hq, rfl⟩
    · exact ⟨hq, rfl⟩
  | adjustFps now =>
    obtain rfl := Option.some.inj h
    exact ⟨hq, adjustFps_greatest hq⟩
  | rehash before =>
    obtain rfl := Option.some.inj h
    exact ⟨fun u hu => hq u (List.mem_mergeSort.mp hu), rfl⟩
  | newDisplay name | removeDisplay name | setSupportChangingQuality name support
    | storeBitrate bitrate =>
    obtain rfl := Option.some.inj h
    exact ⟨hq, rfl⟩

/-! ## Every run -/

/-- The events of viewer `i` in a run, each with the rate it leaves the viewer at. -/
def targets (linux : Bool) (i : ℤ) : Qos R → List Op → List (ViewerEvent × Option ℕ) :=
  observe (step F linux) (viewerEvent F i) fun q => q.target i

/-- A run whose operations all leave the stream as `Follows` says. -/
def StreamFollows (linux : Bool) (q : Qos R) (ops : List Op) : Prop :=
  Along (step F linux) (fun q op => ∀ q', step F linux q op = some q' → Follows q op q') q ops

theorem run_follows (linux : Bool) {ops : List Op} :
    ∀ {q : Qos R}, (∀ u ∈ q.users, u.2.delay.Positive) → Along (step F linux) VbrOff q ops →
      StreamFollows F linux q ops := by
  induction ops with
  | nil => exact fun _ _ => trivial
  | cons op ops ih =>
    intro q hq hoff
    obtain ⟨hop, hrest⟩ := hoff
    refine ⟨fun q' h => (step_follows F linux hq hop h).2, ?_⟩
    cases h : step F linux q op with
    | none => trivial
    | some q' =>
      rw [h] at hrest
      exact ih (step_follows F linux hq hop h).1 hrest

/-- What a viewer's rates are in a run is worked out from its events alone. -/
theorem targets_eq_replay (linux : Bool) (i : ℤ) {ops : List Op} (hq : q.Keyed)
    (hoff : Along (step F linux) VbrOff q ops) :
    targets F linux i q ops = (replay (Viewer.next F) (q.viewer i)
      ((targets F linux i q ops).map Prod.fst)).map
      fun p => (p.1, p.2.bind (·.delay.fps)) := by
  have hstep : ∀ (q : Qos R) (op : Op) (q' : Qos R), q.Keyed → q.VbrOff op →
    step F linux q op = some q' →
      q'.Keyed ∧ Moves F i q op q' := fun q op q' hq hoff h => step_viewer F linux i hq hoff h
  have hrun : observe (step F linux) (viewerEvent F i) (fun q => q.viewer i) q ops =
      replay (Viewer.next F) (q.viewer i)
        ((observe (step F linux) (viewerEvent F i) (fun q => q.viewer i) q ops).map Prod.fst) :=
    observe_eq_replay hstep hq hoff
  have hview : targets F linux i q ops =
      (observe (step F linux) (viewerEvent F i) (fun q => q.viewer i) q ops).map fun p =>
        (p.1, p.2.bind (·.delay.fps)) :=
    observe_map (step F linux) (viewerEvent F i) (fun q => q.viewer i) (·.bind (·.delay.fps)) ops q
  have hevents : (targets F linux i q ops).map Prod.fst =
      (observe (step F linux) (viewerEvent F i) (fun q => q.viewer i) q ops).map Prod.fst := by
    rw [hview, List.map_map]
    rfl
  rw [hevents, ← hrun, hview]

/-- **Viewers are independent**: in two runs without a variable bitrate in which viewer `i` has the
same events, each reply in the same band of quality, it is at the same rate after each of them,
whatever the other viewers do and whenever. The stream is at the highest rate all viewers bear each
time that is worked out. -/
theorem viewer_independence (linux : Bool) (now₁ now₂ : ℕ) (i : ℤ) {ops₁ ops₂ : List Op}
    (hoff₁ : Along (step F linux) VbrOff (default F linux now₁) ops₁)
    (hoff₂ : Along (step F linux) VbrOff (default F linux now₂) ops₂)
    (hsame : (targets F linux i (default F linux now₁) ops₁).map Prod.fst =
      (targets F linux i (default F linux now₂) ops₂).map Prod.fst) :
    targets F linux i (default F linux now₁) ops₁ = targets F linux i (default F linux now₂) ops₂ ∧
      StreamFollows F linux (default F linux now₁) ops₁ ∧
        StreamFollows F linux (default F linux now₂) ops₂ := by
  refine ⟨?_, run_follows F linux (by simp [default]) hoff₁,
    run_follows F linux (by simp [default]) hoff₂⟩
  have hrun₁ := targets_eq_replay F linux i (q := default F linux now₁) List.nodup_nil hoff₁
  have hrun₂ := targets_eq_replay F linux i (q := default F linux now₂) List.nodup_nil hoff₂
  rw [hsame] at hrun₁
  exact hrun₁.trans hrun₂.symm

/-- A viewer alone with the stream. -/
def aloneRun : List Op :=
  [.onConnectionOpen 1 0 false, .userNetworkDelay 1 20 500, .userCustomFps 1 60,
    .userNetworkDelay 1 20 1500,
    .userDelayResponseElapsed 1 3500 6000]

/-- The same, with a second viewer that is slow, asks for little and leaves. -/
def sharedRun : List Op :=
  [.onConnectionOpen 2 0 false, .userCustomFps 2 5, .onConnectionOpen 1 100 false,
    .userNetworkDelay 2 900 400,
    .userNetworkDelay 1 20 500, .userCustomFps 1 60, .userDelayResponseElapsed 2 4000 900,
      .userNetworkDelay 1 20 1500,
    .onConnectionClose 2 1600, .userDelayResponseElapsed 1 3500 6000]

theorem viewer_independence_shared : targets exactF32 true 1 (default exactF32 true 0) aloneRun =
        targets exactF32 true 1 (default exactF32 true 0) sharedRun ∧
      StreamFollows exactF32 true (default exactF32 true 0) aloneRun ∧
      StreamFollows exactF32 true (default exactF32 true 0) sharedRun :=
  viewer_independence exactF32 true 0 0 1 (by decide +kernel) (by decide +kernel)
    (by decide +kernel)

/-- A viewer that is fast, and then another one that has just joined. -/
def joinedRun : List Op :=
  [.onConnectionOpen 1 0 false, .userNetworkDelay 1 20 2000, .userNetworkDelay 1 20 3000,
    .onConnectionOpen 2 4000 false]

/-- A viewer that joins does not change the stream: it goes on above `INIT_FPS` in the first second
of the new viewer, until the rate is worked out again. -/
theorem join_leaves_the_stream :
    Along (step exactF32 true) (fun q _ => q.users ≠ [] → q.inVbrState = false)
      (default exactF32 true 0) joinedRun ∧
      ∃ q, exec (step exactF32 true) (default exactF32 true 0) joinedRun = some q ∧
        q.inVbrState = false ∧
        ¬IsGreatest {n | q.Bearable 4000 n} q.fps := by
  have hrun : (exec (step exactF32 true) (default exactF32 true 0) joinedRun).any (fun q =>
      decide (q.inVbrState = false ∧ initFps < q.fps ∧
        ∃ u ∈ q.users, ∃ joined ∈ u.2.joinedAt, (4000 - joined) / 1000 < 1)) = true := by
          decide +kernel
  obtain ⟨q, hexec, hq⟩ := (Option.any_eq_true _ _).mp hrun
  obtain ⟨hoff, hfast, hstarting⟩ := of_decide_eq_true hq
  refine ⟨by decide +kernel, q, hexec, hoff, fun h => ?_⟩
  exact absurd (h.1.starting hstarting) (Nat.not_le.mpr hfast)

end Qos
end VideoQos
end BgDesk
