import Mathlib.Data.List.MinMax
import BgDesk.VideoQos

/-!
# The frame rates stay within their bounds

The target of a viewer is written by the controller of delays, by the brake for a probe that stays
out, by the acceleration at the start and by the return to an earlier level; the cap of the viewer
can change between any two of them. One invariant of a viewer, `UserDelay.Ok`, carries all of it:

* every operation on a viewer has a lemma that says that it returns, so no number of 32 bits
  overflows or is divided by zero, and that the invariant is kept;
* `UserDelay.reply_returns` and `UserDelay.stall_returns` are what a reply and a stall leave of the
  target;
* `Qos.frame_rate_safety` is about every run of the controller.
-/

namespace BgDesk
namespace VideoQos

/-- A value from the outside can be added to another one. -/
def delayBound : ℕ := 2 ^ 31

/-! ## The baseline -/

/-- The delays the baseline comes from. -/
structure RttCalculator.Ok (c : RttCalculator) : Prop where
  baseline : ∀ b ∈ c.baseline, b < delayBound
  samples : ∀ x ∈ c.samples, x < delayBound

/-- A minimum that was found is in the list. -/
theorem min_lt_of_forall_lt {l : List ℕ} {m b : ℕ} (hl : ∀ x ∈ l, x < b) (hm : l.min? = some m) :
    m < b :=
  hl m (List.min?_mem hm)

/-- The baseline rises at most to the least of the samples, so it cannot overflow. -/
theorem RttCalculator.update_returns {c : RttCalculator} {delay : ℕ} (hc : c.Ok)
    (hdelay : delay < delayBound) : Returns (c.update delay) RttCalculator.Ok := by
  have hsamples : ∀ x ∈ (if windowSamples ≤ c.samples.length then c.samples.tail else c.samples) ++
    [delay],
      x < delayBound := by
    intro x hx
    rcases List.mem_append.mp hx with hx | hx
    · refine hc.samples x ?_
      split at hx
      · exact List.mem_of_mem_tail hx
      · exact hx
    · obtain rfl := List.mem_singleton.mp hx
      exact hdelay
  have hbase : min (c.baseline.getD delay) delay < delayBound := by omega
  unfold RttCalculator.update
  generalize (if windowSamples ≤ c.samples.length then c.samples.tail else c.samples) ++ [delay] =
    samples at hsamples ⊢
  generalize min (c.baseline.getD delay) delay = baseline at hbase ⊢
  have hsame : (RttCalculator.mk (some baseline) samples).Ok := ⟨by simpa using hbase, hsamples⟩
  dsimp only
  split
  · exact returns_pure hsame
  · split
    · rename_i olderMin recentMin holder hrecent
      have hlt : olderMin < delayBound :=
        min_lt_of_forall_lt (fun x hx => hsamples x (List.mem_of_mem_take hx)) holder
      split
      · exact returns_pure hsame
      · split
        · rename_i hrise
          refine (checkedDiv_returns (by omega)).bind ?_
          rintro _ rfl
          have hnew : baseline + clamp ((min olderMin recentMin - baseline) / 2)
              1 maxIncreaseMs < delayBound := by
            unfold clamp maxIncreaseMs
            omega
          refine (checkedAdd_returns (hnew.trans (by decide))).bind ?_
          rintro _ rfl
          exact returns_pure ⟨by simpa using hnew, hsamples⟩
        · exact returns_pure hsame
    · exact returns_pure hsame

/-! ## A viewer -/

namespace UserDelay

/-- The invariant of a viewer. -/
structure Ok (d : UserDelay) : Prop where
  target : ∀ t ∈ d.fps, minFps ≤ t ∧ t ≤ maxFps
  /-- the brake leaves a target behind -/
  braked : d.stallReferenceFps.isSome → d.fps.isSome
  history : d.delayHistory.length ≤ historyDelayLen
  delays : ∀ x ∈ d.delayHistory, x < delayBound
  rtt : d.rttCalculator.Ok
  bad : d.fpsBadSamples ≤ 3
  replies : ∀ n ∈ d.repliesAfterBitrateReduction, n ≤ 2
  startup : d.startupGoodSamples ≤ u8Max

theorem empty_ok : empty.Ok :=
  ⟨by simp [empty], by simp [empty], by simp [empty], by
    simp [empty], ⟨by simp [empty], by simp [empty]⟩,
    by simp [empty], by simp [empty], by simp [empty]⟩

variable {d : UserDelay}

variable {cap delay fps : ℕ}

/-- The history keeps its length, and its delays stay below the bound. -/
theorem addDelay_ok (hd : d.Ok) (hdelay : delay < delayBound) : (d.addDelay delay).Ok := by
  refine { hd with history := ?_, delays := ?_ }
  · have := hd.history
    unfold addDelay historyDelayLen at *
    dsimp only
    split
    · simp only [List.length_append, List.length_tail, List.length_singleton]
      omega
    · simp only [List.length_append, List.length_singleton]
      omega
  · intro x hx
    rcases List.mem_append.mp hx with hx | hx
    · refine hd.delays x ?_
      split at hx
      · exact List.mem_of_mem_tail hx
      · exact hx
    · obtain rfl := List.mem_singleton.mp hx
      exact hdelay

/-- Two delays below the bound have a sum. -/
theorem sum_lt (hd : d.Ok) : d.delayHistory.sum < 2 ^ 32 := by
  have hlen := hd.history
  have hdelays := hd.delays
  unfold historyDelayLen at hlen
  unfold delayBound at hdelays
  match h : d.delayHistory with
  | [] => simp
  | [x] =>
    have := hdelays x (by simp [h])
    simp
    omega
  | [x, y] =>
    have := hdelays x (by simp [h])
    have := hdelays y (by simp [h])
    simp
    omega
  | x :: y :: z :: rest =>
    rw [h] at hlen
    simp at hlen

theorem avgDelay_returns (hd : d.Ok) : Returns d.avgDelay fun _ => True := by
  unfold avgDelay
  split
  · exact returns_pure trivial
  · rename_i hne
    refine (checkedSum_returns (by simpa using sum_lt hd)).bind ?_
    rintro _ rfl
    refine (checkedDiv_returns (List.length_pos_iff.mpr hne)).bind fun _ _ => returns_pure trivial

theorem onReduction_ok (hd : d.Ok) (currentFps : ℕ) : (d.onReduction currentFps).Ok :=
  { hd with bad := by simp [onReduction], startup := le_refl _ }

/-! ### A reply -/

/-- A reply is recorded without an overflow, and the target is left alone. -/
theorem record_returns (hd : d.Ok) (hdelay : delay < delayBound) (braked : Bool) :
    Returns (d.record delay braked) fun d' => d'.Ok ∧ d'.fps = d.fps := by
  have hopen : { d with stallTicks := 0, stallReferenceFps := none : UserDelay }.Ok :=
    { hd with braked := by simp }
  unfold record
  split
  · exact returns_pure ⟨addDelay_ok hopen hdelay, rfl⟩
  · refine (RttCalculator.update_returns hd.rtt hdelay).bind ?_
    intro rtt hrtt
    have hupdated :
      { d with stallTicks := 0, stallReferenceFps := none, rttCalculator := rtt : UserDelay }.Ok :=
      { hopen with rtt := hrtt }
    exact returns_pure ⟨addDelay_ok hupdated hdelay, rfl⟩

/-- After replies that were in time, the new rate is at most five above the limit. -/
theorem adapt_returns {R : Type} (F : F32 R) (hd : d.Ok) {lowFps normalFps avgDelay oldAvgDelay : ℕ}
    (havg : 0 < avgDelay) (hlow : lowFps ≤ maxFps) (hfps : fps ≤ maxFps) :
    Returns (d.adapt F lowFps normalFps avgDelay oldAvgDelay fps) fun r =>
      r.1.Ok ∧ (avgDelay < delayThreshold150ms → r.2 ≤ maxFps + 5) := by
  unfold maxFps at hlow hfps ⊢
  unfold adapt
  dsimp only
  split
  · refine (checkedAdd_returns (by split <;> (try split) <;> omega)).bind ?_
    rintro _ rfl
    refine returns_pure ⟨{ hd with }, fun _ => ?_⟩
    dsimp only
    split <;> (try split) <;> omega
  · split
    · refine (checkedAdd_returns (by split <;> (try split) <;> omega)).bind ?_
      rintro _ rfl
      refine returns_pure ⟨hd, fun _ => ?_⟩
      dsimp only
      split <;> (try split) <;> omega
    · split
      · exact returns_pure ⟨hd, fun _ => by dsimp only; omega⟩
      · rename_i h
        have hslow : ∀ n, avgDelay < delayThreshold150ms → n ≤ 120 + 5 := fun n hlt => (h hlt).elim
        split
        · exact returns_pure ⟨hd, hslow _⟩
        · split
          · exact returns_pure ⟨hd, hslow _⟩
          · exact (checkedDiv_returns havg).bind fun _ _ => returns_pure ⟨hd, hslow _⟩

/-- The rate is raised only after replies that were in time, and there it has a bound. -/
theorem settle_returns (hd : d.Ok) {avgDelay : ℕ}
    (hfps : avgDelay < delayThreshold150ms → fps ≤ maxFps + 5) :
    Returns (d.settle avgDelay fps) fun r => r.1.Ok := by
  unfold settle
  dsimp only
  by_cases hlt : avgDelay < delayThreshold150ms
  · have hle := hfps hlt
    unfold maxFps at hle
    rw [if_pos hlt]
    split
    · refine (checkedAdd_returns (by omega)).bind ?_
      rintro _ rfl
      exact returns_pure { hd with }
    · exact returns_pure { hd with }
  · rw [if_neg hlt, if_neg (by omega)]
    exact returns_pure { hd with }

/-- A rate that comes from `currentFps` and `fps` is not below both of them. -/
def Above (currentFps fps : ℕ) (r : UserDelay × ℕ) : Prop := r.1.Ok ∧ min currentFps fps ≤ r.2

theorem recover_returns (hd : d.Ok) {currentFps : ℕ} (hcurrent : currentFps ≤ maxFps) :
    Returns (d.recover currentFps fps) (Above currentFps fps) := by
  unfold maxFps at hcurrent
  unfold recover
  refine (checkedDiv_returns (by omega)).bind ?_
  rintro _ rfl
  refine (checkedAdd_returns (by omega)).bind ?_
  rintro _ rfl
  have hlevel : ∀ level, Above currentFps fps
      ({ d with fpsBeforeCongestion := none, samplesSinceRestore := some 0 }, max fps level) :=
    fun level => ⟨{ hd with }, by dsimp only; omega⟩
  split
  · exact returns_pure (hlevel _)
  · exact returns_pure (hlevel _)
  · refine (checkedDiv_returns (by omega)).bind ?_
    rintro _ rfl
    refine (checkedAdd_returns (by omega)).bind ?_
    rintro _ rfl
    exact returns_pure ⟨{ hd with }, by dsimp only; omega⟩
  · exact returns_pure ⟨hd, by dsimp only; omega⟩

theorem countReply_returns {replies : Option ℕ} (h : ∀ n ∈ replies, n ≤ 2) :
    Returns (countReply replies) fun replies' => ∀ n ∈ replies', n ≤ 2 := by
  cases replies with
  | none => exact returns_pure (by simp)
  | some n =>
    have hn := h n rfl
    refine (checkedAdd_returns (by omega)).bind ?_
    rintro _ rfl
    refine returns_pure ?_
    intro m hm
    obtain rfl := Option.some.inj hm
    omega

theorem countBad_returns (hd : d.Ok) : Returns d.countBad Ok := by
  have hbad := hd.bad
  refine (checkedAdd_returns (by omega)).bind ?_
  rintro _ rfl
  refine (countReply_returns hd.replies).bind ?_
  intro replies hreplies
  exact returns_pure { hd with bad := by dsimp only; omega, replies := hreplies }

theorem lowerLevel_returns (hd : d.Ok) (currentFps : ℕ) (failedRestore : Bool) :
    Returns (d.lowerLevel currentFps failedRestore) Ok := by
  unfold lowerLevel
  split
  · refine (checkedDiv_returns (by omega)).bind ?_
    rintro _ rfl
    refine (checkedSub_returns (Nat.div_le_self _ _)).bind fun _ _ => returns_pure { hd with }
  · exact returns_pure hd

theorem reduce_returns (hd : d.Ok) (currentFps fps excess : ℕ)
    (bitrateFirst braked failedRestore : Bool) :
    Returns (d.reduce currentFps fps excess bitrateFirst braked failedRestore)
      (Above currentFps fps) := by
  unfold reduce
  split
  · exact returns_pure ⟨hd, by dsimp only; omega⟩
  · split
    · exact returns_pure ⟨hd, by dsimp only; omega⟩
    · refine (checkedDiv_returns (by split <;> omega)).bind fun part _ => ?_
      exact returns_pure ⟨onReduction_ok hd _, by dsimp only; omega⟩

/-- A change that is limited ends, at worst, at the lower of the two rates. -/
theorem limitFpsChange_returns (hd : d.Ok) {currentFps : ℕ} (fps delay : ℕ)
    (bitrateFirst braked : Bool) (hcurrent : currentFps ≤ maxFps) :
    Returns (d.limitFpsChange currentFps fps delay bitrateFirst braked) (Above currentFps fps) := by
  unfold limitFpsChange
  dsimp only
  split
  · refine recover_returns ?_ hcurrent
    exact { hd with bad := by simp, replies := by simp }
  · refine Returns.bind (countBad_returns ?_) fun d₁ hd₁ => ?_
    · exact { hd with }
    · refine (lowerLevel_returns hd₁ _ _).bind fun d₂ hd₂ => ?_
      exact reduce_returns hd₂ _ _ _ _ _ _

/-- The same of the rate and the cap, at the start of a session. -/
theorem accelerateStartup_returns (hd : d.Ok) (currentFps fps cap delay : ℕ) (braked : Bool) :
    Returns (d.accelerateStartup currentFps fps cap delay braked) (Above fps cap) := by
  have hsamples := hd.startup
  unfold u8Max at hsamples
  unfold accelerateStartup
  split
  · exact returns_pure ⟨hd, by dsimp only; omega⟩
  · rename_i hne
    unfold u8Max at hne
    split
    · exact returns_pure ⟨{ hd with startup := le_refl _ }, by dsimp only; omega⟩
    · refine (checkedAdd_returns (by omega)).bind ?_
      rintro _ rfl
      split
      · exact returns_pure ⟨{ hd with startup := by dsimp only [u8Max]; omega }, by
          dsimp only; omega⟩
      · refine returns_pure ⟨{ hd with startup := ?_ }, by dsimp only; omega⟩
        dsimp only
        split
        · exact le_refl _
        · exact Nat.zero_le _

/-- The target that an operation on a viewer has left, for a cap and the target before. -/
structure Targeted (d : UserDelay) (cap : ℕ) (d' : UserDelay) : Prop where
  ok : d'.Ok
  target : ∃ t, d'.fps = some t ∧ minFps ≤ t ∧ t ≤ cap ∧
    ∀ old ∈ d.fps, min minAutoFps cap ≤ old → min minAutoFps cap ≤ t

/-- The rate a viewer is at is in range. -/
theorem current_range (hd : d.Ok) (hcap : minFps ≤ cap) :
    minFps ≤ d.fps.getD (min initFps cap) ∧ d.fps.getD (min initFps cap) ≤ maxFps := by
  cases h : d.fps with
  | none =>
    unfold minFps at hcap
    dsimp only [Option.getD_none, initFps, maxFps, minFps]
    omega
  | some t => exact hd.target t h

/-- **A reply** returns, and leaves the viewer a target within its cap and not newly below the
floor. -/
theorem reply_returns {R : Type} (F : F32 R) (hd : d.Ok) {lowFps : ℕ} (normalFps : ℕ)
    (bitrateFirst : Bool) (hcap : minFps ≤ cap ∧ cap ≤ maxFps) (hlow : lowFps ≤ maxFps)
    (hdelay : delay < delayBound) :
    Returns (d.reply F cap lowFps normalFps delay bitrateFirst) fun r => Targeted d cap r.1 := by
  have hdelay' : max delay 10 < delayBound := by
    unfold delayBound at hdelay ⊢
    omega
  unfold reply
  refine (avgDelay_returns hd).bind fun oldAvgDelay _ => ?_
  refine (record_returns hd hdelay' _).bind ?_
  rintro d₁ ⟨hd₁, hfps⟩
  refine (avgDelay_returns hd₁).bind fun avgDelay _ => ?_
  obtain ⟨-, hcurrent⟩ := current_range hd₁ hcap.1
  dsimp only
  refine (adapt_returns F hd₁ (by omega) hlow hcurrent).bind ?_
  rintro ⟨d₂, fps₂⟩ ⟨hd₂, hfps₂⟩
  refine (settle_returns hd₂ hfps₂).bind ?_
  rintro ⟨d₃, fps₃⟩ hd₃
  refine (limitFpsChange_returns hd₃ _ _ _ _ hcurrent).bind ?_
  rintro ⟨d₄, fps₄⟩ ⟨hd₄, hfps₄⟩
  refine (accelerateStartup_returns hd₄ _ _ _ _ _).bind ?_
  rintro ⟨d₅, fps₅⟩ ⟨hd₅, hfps₅⟩
  obtain ⟨hcap₁, hcap₂⟩ := hcap
  have hclamp : minFps ≤ clamp fps₅ minFps cap ∧ clamp fps₅ minFps cap ≤ cap := by
    unfold clamp
    omega
  refine returns_pure ⟨{ hd₅ with target := ?_, braked := by simp }, _, rfl, hclamp.1, hclamp.2, ?_⟩
  · rintro t ht
    obtain rfl := Option.some.inj ht
    exact ⟨hclamp.1, hclamp.2.trans hcap₂⟩
  · intro old hold hfloor
    -- the rate before is above the floor, the rate aimed at is, and no step goes below both
    have hcur : d₁.fps.getD (min initFps cap) = old := by
      rw [hfps, Option.mem_def.mp hold]
      rfl
    rw [hcur] at hfps₄
    dsimp only at hfps₄ hfps₅
    unfold clamp
    omega

/-! ### A stall -/

theorem brake_fps (cap : ℕ) : (d.brake cap).1.fps = d.fps := by
  unfold brake
  split
  · rfl
  · rfl

/-- The brake is followed by a target. -/
theorem brake_ok (hd : d.Ok) (cap : ℕ) {t : ℕ} (ht : minFps ≤ t ∧ t ≤ maxFps) :
    { (d.brake cap).1 with fps := some t : UserDelay }.Ok := by
  have htarget : ∀ u ∈ some t, minFps ≤ u ∧ u ≤ maxFps := by
    intro u hu
    obtain rfl := Option.some.inj hu
    exact ht
  unfold brake
  split
  · exact { hd with target := htarget, braked := by simp }
  · exact { hd with
      target := htarget, braked := by simp, bad := by simp [onReduction], startup := le_refl _ }

/-- The rate a braked viewer is at is in range: a brake that is in force has left a target. -/
theorem brake_range (hd : d.Ok) (hcap : minFps ≤ cap) :
    minFps ≤ (d.brake cap).1.fps.getD (d.brake cap).2 ∧
      (d.brake cap).1.fps.getD (d.brake cap).2 ≤ maxFps := by
  rw [brake_fps]
  cases h : d.fps with
  | some t => exact hd.target t h
  | none =>
    have href : d.stallReferenceFps = none := by
      have := hd.braked
      rw [h] at this
      simpa using this
    have hcurrent := current_range hd hcap
    unfold brake
    rw [href]
    rw [h] at hcurrent
    simpa [h] using hcurrent

/-- **A stall** returns, leaves the viewer a target within its cap and not newly below the floor,
and never raises the target. -/
theorem stall_returns (hd : d.Ok) {elapsed : ℕ} (hcap : minFps ≤ cap ∧ cap ≤ maxFps)
    (helapsed : elapsed % 2 ^ 32 < delayBound) : Returns (d.stall cap elapsed) fun d' =>
      Targeted d cap d' ∧ ∀ old ∈ d.fps, ∀ t ∈ d'.fps, t ≤ old := by
  obtain ⟨d₁, hd₁eq⟩ : ∃ d₁, d₁ = { d with stallTicks := min (d.stallTicks + 1) u8Max }.addDelay
    (elapsed % 2 ^ 32) :=
    ⟨_, rfl⟩
  have hd₁ : d₁.Ok := by
    rw [hd₁eq]
    refine addDelay_ok ?_ helapsed
    exact { hd with }
  have hfps : d₁.fps = d.fps := by
    rw [hd₁eq]
    rfl
  unfold stall
  dsimp only
  rw [← hd₁eq]
  refine (checkedDiv_returns (Nat.two_pow_pos _)).bind ?_
  rintro part -
  obtain ⟨hlow, hhigh⟩ := brake_range hd₁ hcap.1
  have hrange : minFps ≤ min (clamp part (min minAutoFps cap) cap)
    ((d₁.brake cap).1.fps.getD (d₁.brake cap).2) ∧
      min (clamp part (min minAutoFps cap) cap) ((d₁.brake cap).1.fps.getD (d₁.brake cap).2) ≤
        cap := by
    unfold clamp minAutoFps
    unfold minFps at *
    omega
  refine returns_pure ⟨⟨brake_ok hd₁ cap ⟨hrange.1, hrange.2.trans hcap.2⟩, _, rfl, hrange.1,
    hrange.2, ?_⟩, ?_⟩
  · intro old hold hfloor
    rw [brake_fps, hfps, Option.mem_def.mp hold]
    unfold clamp
    dsimp only [Option.getD_some]
    omega
  · intro old hold t ht
    obtain rfl := Option.some.inj ht
    rw [brake_fps, hfps, Option.mem_def.mp hold]
    exact Nat.min_le_right _ _

end UserDelay

/-! ## The controller -/

/-- Whatever a viewer asks for, its cap is within the limits. -/
theorem UserData.fpsCap_range {R : Type} (user : UserData R) :
    minFps ≤ user.fpsCap ∧ user.fpsCap ≤ maxFps := by
  unfold UserData.fpsCap clamp
  dsimp only [minFps, maxFps]
  omega

/-- A reply or a stall took the viewer `user` to `user'`: it has a target within its cap, and above
the floor if it was there. -/
structure UserData.Moved {R : Type} (user user' : UserData R) : Prop where
  cap : user'.fpsCap = user.fpsCap
  target : ∃ t, user'.delay.fps = some t ∧ minFps ≤ t ∧ t ≤ user'.fpsCap ∧
    ∀ old ∈ user.delay.fps, min minAutoFps user'.fpsCap ≤ old → min minAutoFps user'.fpsCap ≤ t

namespace Qos

variable {R : Type} (F : F32 R) {q q' : Qos R}

/-- The invariant of the controller. -/
structure Ok (q : Qos R) : Prop where
  users : ∀ u ∈ q.users, u.2.delay.Ok
  bitrate : q.bitrateStore + 150 < 2 ^ 32

/-- Every target that is stored is in range. -/
def InRange (q : Qos R) : Prop := ∀ u ∈ q.users, ∀ t ∈ u.2.delay.fps, minFps ≤ t ∧ t ≤ maxFps

/-- The stream is at a rate that every viewer bears. -/
structure Streams (q : Qos R) : Prop where
  least : minFps ≤ q.fps
  viewers : ∀ u ∈ q.users, q.fps ≤ u.2.fpsCap ∧ q.fps ≤ u.2.delay.fps.getD initFps

theorem Ok.inRange (hq : q.Ok) : q.InRange := fun u hu => (hq.users u hu).target

theorem default_ok (linux : Bool) (now : ℕ) : (default F linux now).Ok :=
  ⟨by simp [default], by simp [default]⟩

variable {id : ℤ} {user : UserData R} {d : UserDelay}

theorem user?_mem (h : q.user? id = some user) : ∃ u ∈ q.users, u.2 = user := by
  obtain ⟨u, hu, rfl⟩ := Option.map_eq_some_iff.mp h
  exact ⟨u, List.mem_of_find?_eq_some hu, rfl⟩

theorem user?_withUser (f : UserData R → UserData R) :
    (q.withUser id f).user? id = (q.user? id).map f := by
  unfold user? withUser
  dsimp only
  induction q.users with
  | nil => rfl
  | cons u us ih =>
    by_cases h : u.1 = id
    · simp [h]
    · simpa [List.find?_cons, h] using ih

/-- What holds of all viewers still does, after a change of one that keeps it. -/
theorem withUser_users {f : UserData R → UserData R} {P : UserData R → Prop}
    (hq : ∀ u ∈ q.users, P u.2) (hf : ∀ user, P user → P (f user)) :
    ∀ u ∈ (q.withUser id f).users, P u.2 := by
  intro u hu
  obtain ⟨v, hv, rfl⟩ := List.mem_map.mp hu
  split
  · exact hf _ (hq v hv)
  · exact hq v hv

/-- No viewer is sent more than its cap. -/
theorem highestFps_le {u : ℤ × UserData R} (hu : u ∈ q.users) :
    minFps ≤ q.highestFps ∧ q.highestFps ≤ u.2.fpsCap := by
  have hmem : u.2.fpsCap ∈ q.users.map (·.2.fpsCap) := List.mem_map.mpr ⟨u, hu, rfl⟩
  have hle := List.min?_getD_le_of_mem (k := fpsDefault) hmem
  have hrange := u.2.fpsCap_range
  unfold highestFps clamp
  omega

/-- `adjust_fps` brings the stream down to the slowest viewer. -/
theorem adjustFps_streams (hq : q.InRange) (now : ℕ) : (q.adjustFps now).Streams := by
  refine ⟨Nat.le_max_left _ _, fun u hu => ?_⟩
  obtain ⟨hlow, hcap⟩ := highestFps_le (q := q) hu
  have htarget : minFps ≤ u.2.delay.fps.getD initFps := by
    cases h : u.2.delay.fps with
    | none => decide
    | some t => exact (hq u hu t h).1
  have hmem : u.2.delay.fps.getD initFps ∈ q.users.map (·.2.delay.fps.getD initFps) :=
    List.mem_map.mpr ⟨u, hu, rfl⟩
  have hle := List.min?_getD_le_of_mem (k := initFps) hmem
  unfold adjustFps clamp
  dsimp only
  split <;> omega

/-! ### The ratio -/

/-- Every viewer with its cap and its target. -/
def views (q : Qos R) : List (ℤ × ℕ × Option ℕ) :=
  q.users.map fun u => (u.1, u.2.fpsCap, u.2.delay.fps)

/-- Nothing that has to do with the frame rate was changed. -/
structure SameRates (q q' : Qos R) : Prop where
  fps : q'.fps = q.fps
  views : q'.views = q.views

theorem SameRates.refl (q : Qos R) : SameRates q q := ⟨rfl, rfl⟩

theorem SameRates.streams (h : SameRates q q') (hq : q.Streams) : q'.Streams := by
  refine ⟨h.fps ▸ hq.least, fun u hu => ?_⟩
  have hmem : (u.1, u.2.fpsCap, u.2.delay.fps) ∈ q.views := h.views ▸ List.mem_map.mpr ⟨u, hu, rfl⟩
  obtain ⟨v, hv, heq⟩ := List.mem_map.mp hmem
  obtain ⟨-, hcap, hfps⟩ : v.1 = u.1 ∧ v.2.fpsCap = u.2.fpsCap ∧ v.2.delay.fps = u.2.delay.fps := by
    simpa using heq
  rw [h.fps, ← hcap, ← hfps]
  exact hq.viewers v hv

theorem user?_views (id : ℤ) : (q.user? id).map (fun user => (user.fpsCap, user.delay.fps)) =
      (q.views.find? (·.1 = id)).map Prod.snd := by
  unfold user? views
  rw [List.find?_map]
  simp [Function.comp_def]

/-- A viewer is still there, with the same cap and the same target. -/
theorem SameRates.user? (h : SameRates q q') (hu : q.user? id = some user) :
    ∃ user', q'.user? id = some user' ∧ user'.fpsCap = user.fpsCap ∧
      user'.delay.fps = user.delay.fps := by
  have heq : (q'.user? id).map (fun user => (user.fpsCap, user.delay.fps)) =
      some (user.fpsCap, user.delay.fps) := by
    rw [user?_views, h.views, ← user?_views, hu]
    rfl
  obtain ⟨user', hu', heq⟩ := Option.map_eq_some_iff.mp heq
  obtain ⟨hcap, hfps⟩ := Prod.mk.inj heq
  exact ⟨user', hu', hcap, hfps⟩

theorem awaitReplies_ok (hd : d.Ok) {replies : ℕ} (h : replies ≤ 2) :
    (awaitReplies d replies).Ok := by
  unfold awaitReplies
  split
  · refine { hd with replies := ?_ }
    intro n hn
    obtain rfl := Option.some.inj hn
    exact h
  · exact hd

theorem awaitReplies_fps (d : UserDelay) (replies : ℕ) : (awaitReplies d replies).fps = d.fps := by
  unfold awaitReplies
  split
  · rfl
  · rfl

/-- What a change of the ratio leaves as it was. -/
def Rated (q q' : Qos R) : Prop := q'.Ok ∧ SameRates q q'

theorem resetSendCounters_rated (hq : q.Ok) : Rated q q.resetSendCounters :=
  ⟨⟨hq.users, hq.bitrate⟩, rfl, rfl⟩

/-- A change of the ratio leaves the rates alone. -/
theorem changeRatio_returns (hq : q.Ok) (dynamicScreen : Bool) (now maxDelay : ℕ)
    (reduction : Option R) :
    Returns (q.changeRatio F dynamicScreen now maxDelay reduction) (Rated q) := by
  have hbitrate := hq.bitrate
  unfold changeRatio
  have hadd : Returns (q.ratioAdd150kbps F) fun _ => True := by
    unfold ratioAdd150kbps
    split
    · exact (checkedAdd_returns hbitrate).bind fun _ _ => returns_pure trivial
    · exact returns_pure trivial
  refine hadd.bind fun ratioAdd150kbps _ => returns_pure ⟨⟨?_, hbitrate⟩, rfl, ?_⟩
  · intro u hu
    dsimp only [resetSendCounters] at hu
    split at hu
    · obtain ⟨v, hv, rfl⟩ := List.mem_map.mp hu
      exact awaitReplies_ok (hq.users v hv) (by split <;> omega)
    · exact hq.users u hu
  · dsimp only [views, resetSendCounters]
    split
    · rw [List.map_map]
      refine List.map_congr_left fun u _ => ?_
      simp [awaitReplies_fps, UserData.fpsCap]
    · rfl

theorem ratioReduction_returns (hd : d.Ok) : Returns (d.ratioReduction F) fun _ => True := by
  unfold UserDelay.ratioReduction
  split
  · exact (UserDelay.avgDelay_returns hd).bind fun _ _ => returns_pure trivial
  · exact returns_pure trivial

theorem adjustRatio_returns (hq : q.Ok) (dynamicScreen : Bool) (now : ℕ) :
    Returns (q.adjustRatio F dynamicScreen now) (Rated q) := by
  unfold adjustRatio
  split
  · refine (returns_mapM fun u hu => UserDelay.avgDelay_returns (hq.users u hu)).bind
      fun delays _ => ?_
    split
    · exact returns_pure ⟨hq, .refl q⟩
    · refine (returns_mapM fun u hu => ratioReduction_returns F (hq.users u hu)).bind
        fun reductions _ => ?_
      split
      · split
        · exact returns_pure (resetSendCounters_rated hq)
        · exact changeRatio_returns F hq _ _ _ _
      · exact changeRatio_returns F hq _ _ _ _
  · exact returns_pure ⟨hq, .refl q⟩

theorem adjustRatioIf_returns (hq : q.Ok) (reason : Bool) (now : ℕ) :
    Returns (q.adjustRatioIf F reason now) (Rated q) := by
  unfold adjustRatioIf
  split
  · exact adjustRatio_returns F hq _ _
  · exact returns_pure ⟨hq, .refl q⟩

/-! ### Replies and stalls -/

/-- No quality asks for more than the limit. -/
theorem qualityFps_le (targetRatio : R) : (qualityFps F targetRatio).1 ≤ maxFps := by
  unfold qualityFps
  split
  · decide
  · split
    · decide
    · decide

/-- A viewer with this number was moved. -/
def MovedAt (q : Qos R) (id : ℤ) (q' : Qos R) : Prop :=
  ∀ user, q.user? id = some user → ∃ user', q'.user? id = some user' ∧ user.Moved user'

/-- The viewer got a new state of its delay. -/
theorem movedAt_withUser (hu : q.user? id = some user)
    (hd : UserDelay.Targeted user.delay user.fpsCap d) (now : ℕ) :
    MovedAt q id ((q.withUser id fun user => { user with delay := d }).adjustFps now) := by
  intro user₀ hu₀
  obtain rfl := Option.some.inj (hu.symm.trans hu₀)
  refine ⟨{ user with delay := d }, ?_, rfl, hd.target⟩
  calc ((q.withUser id fun user => { user with delay := d }).adjustFps now).user? id
      = (q.withUser id fun user => { user with delay := d }).user? id := rfl
    _ = some { user with delay := d } := by rw [user?_withUser, hu]; rfl

theorem SameRates.movedAt {q₁ : Qos R} (h : SameRates q₁ q') (hq : MovedAt q id q₁) :
    MovedAt q id q' := by
  intro user hu
  obtain ⟨user₁, hu₁, hmoved⟩ := hq user hu
  obtain ⟨user', hu', hcap, hfps⟩ := h.user? hu₁
  refine ⟨user', hu', hcap.trans hmoved.cap, ?_⟩
  rw [hcap, hfps]
  exact hmoved.target

theorem withUser_delay_ok (hq : q.Ok) (hd : d.Ok) :
    (q.withUser id fun user => { user with delay := d }).Ok :=
  ⟨withUser_users (P := fun user => user.delay.Ok) hq.users fun _ _ => hd, hq.bitrate⟩

/-- **One reply** is handled without an overflow, and moves the rate of its own viewer alone. -/
theorem userNetworkDelay_returns (hq : q.Ok) (id : ℤ) {delay : ℕ} (now : ℕ)
    (hdelay : delay < delayBound) :
    Returns (q.userNetworkDelay F id delay now) fun q' => q'.Ok ∧ q'.Streams ∧ MovedAt q id q' := by
  unfold userNetworkDelay
  dsimp only
  cases hu : q.user? id with
  | none =>
    exact returns_pure ⟨⟨hq.users, hq.bitrate⟩, adjustFps_streams hq.inRange now, by
      simp [MovedAt, hu]⟩
  | some user =>
    obtain ⟨u, hmem, rfl⟩ := user?_mem hu
    refine (UserDelay.reply_returns F (hq.users u hmem) _ _ u.2.fpsCap_range (qualityFps_le F _)
      hdelay).bind ?_
    rintro ⟨d, reduceBitrate⟩ hd
    have hq₁ : (q.withUser id fun user => { user with delay := d }).Ok := withUser_delay_ok hq hd.ok
    have hstreams := adjustFps_streams hq₁.inRange now
    have hmoved := movedAt_withUser hu hd now
    generalize hq₂ : (q.withUser id fun user => { user with delay := d }).adjustFps now =
      q₂ at hstreams hmoved ⊢
    have hok : q₂.Ok := hq₂ ▸ ⟨hq₁.users, hq₁.bitrate⟩
    refine (adjustRatioIf_returns F hok _ now).bind ?_
    rintro q₃ ⟨hq₃, h₃⟩
    refine (adjustRatioIf_returns F hq₃ _ now).mono ?_
    rintro q₄ ⟨hq₄, h₄⟩
    exact ⟨hq₄, h₄.streams (h₃.streams hstreams), h₄.movedAt (h₃.movedAt hmoved)⟩

/-- No target of the viewer with this number was raised. -/
def NotRaisedAt (q : Qos R) (id : ℤ) (q' : Qos R) : Prop :=
  ∀ user user', q.user? id = some user → q'.user? id = some user' →
    ∀ old ∈ user.delay.fps, ∀ t ∈ user'.delay.fps, t ≤ old

/-- **A reply that is late** does not raise the rate of its viewer, and moves no other. -/
theorem userDelayResponseElapsed_returns (hq : q.Ok) {elapsed : ℕ} (now : ℕ)
    (hu : q.user? id = some user) (hlate : 2000 < elapsed)
    (helapsed : elapsed % 2 ^ 32 < delayBound) :
    Returns (q.userDelayResponseElapsed id elapsed now) fun q' =>
      q'.Ok ∧ q'.Streams ∧ MovedAt q id q' ∧ NotRaisedAt q id q' := by
  unfold userDelayResponseElapsed
  rw [hu]
  dsimp only
  rw [if_neg (by omega)]
  obtain ⟨u, hmem, rfl⟩ := user?_mem hu
  refine (UserDelay.stall_returns (hq.users u hmem) u.2.fpsCap_range helapsed).bind ?_
  rintro d ⟨hd, hnot⟩
  have hq₁ : (q.withUser id fun user => { user with delay := d }).Ok := withUser_delay_ok hq hd.ok
  have hu₁ : (q.withUser id fun user => { user with delay := d }).user? id =
      some { u.2 with delay := d } := by
    rw [user?_withUser, hu]
    rfl
  refine returns_pure ⟨⟨hq₁.users, hq₁.bitrate⟩, adjustFps_streams hq₁.inRange now,
    movedAt_withUser hu hd now, ?_⟩
  intro user₀ user₁ h₀ h₁
  obtain rfl := Option.some.inj (hu.symm.trans h₀)
  obtain rfl := Option.some.inj (hu₁.symm.trans h₁)
  exact hnot

/-- The tick of a display: all rates are within their limits after it. -/
theorem updateDisplayData_returns (hq : q.Ok) (name : String) (sendCounter now : ℕ) :
    Returns (q.updateDisplayData F name sendCounter now) fun q' => q'.Ok ∧ q'.Streams := by
  have hq₁ :
    (q.withDisplay name fun d => { d with sendCounter := d.sendCounter + sendCounter }).Ok :=
    ⟨hq.users, hq.bitrate⟩
  have hstreams := adjustFps_streams hq₁.inRange now
  unfold updateDisplayData
  dsimp only
  generalize hq₂ :
    (q.withDisplay name fun d => { d with sendCounter := d.sendCounter + sendCounter }).adjustFps
      now
    = q₂ at hstreams ⊢
  have hok : q₂.Ok := hq₂ ▸ ⟨hq.users, hq.bitrate⟩
  split
  · split
    · exact (adjustRatio_returns F hok _ now).mono fun q₃ h₃ => ⟨h₃.1, h₃.2.streams hstreams⟩
    · exact returns_pure ⟨hok, hstreams⟩
  · exact returns_pure ⟨⟨hok.users, hok.bitrate⟩, hstreams.least, hstreams.viewers⟩

theorem onConnectionClose_ok (linux : Bool) (hq : q.Ok) (id : ℤ) (now : ℕ) :
    (q.onConnectionClose F linux id now).Ok ∧ (q.onConnectionClose F linux id now).Streams := by
  have hq₁ : { q with users := q.users.filter (·.1 ≠ id) : Qos R }.Ok :=
    ⟨fun u hu => hq.users u (List.mem_of_mem_filter hu), hq.bitrate⟩
  unfold onConnectionClose
  dsimp only
  split
  · exact ⟨default_ok F linux now, (by decide : minFps ≤ fpsDefault), by simp [default]⟩
  · exact ⟨⟨hq₁.users, hq₁.bitrate⟩, adjustFps_streams hq₁.inRange now⟩

/-! ### Every run -/

end Qos

/-- The numbers an operation brings in: delays below the bound, and a bitrate to which 150 can be
added. -/
def Op.Bounded : Op → Prop
  | .userNetworkDelay _ delay _ => delay < delayBound
  | .userDelayResponseElapsed _ elapsed _ => elapsed % 2 ^ 32 < delayBound
  | .storeBitrate bitrate => bitrate + 150 < 2 ^ 32
  | _ => True

namespace Qos

variable {R : Type} (F : F32 R) {q q' : Qos R}

/-- What an operation that took `q` to `q'` leaves of the rates: all targets are in range; the
stream is at a rate that every viewer bears if `adjust_fps` was run; and after a reply or a stall
the viewer has a target within its cap, which is not newly below the floor and which a stall does
not raise. -/
def Safe (q : Qos R) (op : Op) (q' : Qos R) : Prop :=
  q'.InRange ∧ match op with
    | .userNetworkDelay id _ _ => q'.Streams ∧ MovedAt q id q'
    | .userDelayResponseElapsed id elapsed _ =>
      if elapsed ≤ 2000 ∨ q.user? id = none then q' = q
      else q'.Streams ∧ MovedAt q id q' ∧ NotRaisedAt q id q'
    | .adjustFps _ | .onConnectionClose _ _ | .updateDisplayData _ _ _ => q'.Streams
    | _ => True

/-- **Step**: every operation returns, keeps the invariant, and is safe. -/
theorem step_returns (linux : Bool) (hq : q.Ok) {op : Op} (hop : op.Bounded) :
    Returns (step F linux q op) fun q' => q'.Ok ∧ Safe q op q' := by
  have plain : ∀ {q' : Qos R}, q'.Ok → Safe q op q' → Returns (some q') fun q' =>
    q'.Ok ∧ Safe q op q' :=
    fun hok hsafe => returns_pure ⟨hok, hsafe⟩
  cases op with
  | onConnectionOpen id now abr =>
    have hok :
      (Qos.mk q.fps q.ratio (q.users.filter (·.1 ≠ id) ++
        [(id, ⟨none, none, none, .empty, some now⟩)])
        q.displays q.bitrateStore q.adjustRatioInstant abr q.firstReplyAdjustsRatio).Ok := by
      refine ⟨fun u hu => ?_, hq.bitrate⟩
      rcases List.mem_append.mp hu with hu | hu
      · exact hq.users u (List.mem_of_mem_filter hu)
      · obtain rfl := List.mem_singleton.mp hu
        exact UserDelay.empty_ok
    exact plain hok ⟨hok.inRange, trivial⟩
  | onConnectionClose id now =>
    obtain ⟨hok, hstreams⟩ := onConnectionClose_ok F linux hq id now
    exact plain hok ⟨hok.inRange, hstreams⟩
  | userCustomFps id fps =>
    have hok : (q.withUser id fun user => { user with customFps := some fps }).Ok :=
      ⟨withUser_users (P := fun user => user.delay.Ok) hq.users fun _ h => h, hq.bitrate⟩
    rw [step]
    split
    · exact plain hq ⟨hq.inRange, trivial⟩
    · exact plain hok ⟨hok.inRange, trivial⟩
  | userAutoAdjustFps id fps =>
    have hok : (q.withUser id fun user => { user with autoAdjustFps := some fps }).Ok :=
      ⟨withUser_users (P := fun user => user.delay.Ok) hq.users fun _ h => h, hq.bitrate⟩
    rw [step]
    split
    · exact plain hq ⟨hq.inRange, trivial⟩
    · exact plain hok ⟨hok.inRange, trivial⟩
  | userImageQuality id imageQuality time =>
    have hok :
      (q.withUser id fun user =>
        { user with quality := some (time, convertQuality F imageQuality) }).Ok :=
      ⟨withUser_users (P := fun user => user.delay.Ok) hq.users fun _ h => h, hq.bitrate⟩
    rw [step]
    split
    · exact plain hq ⟨hq.inRange, trivial⟩
    · exact plain ⟨hok.users, hok.bitrate⟩ ⟨hok.inRange, trivial⟩
  | userNetworkDelay id delay now =>
    exact (userNetworkDelay_returns F hq id now hop).mono fun q' h => ⟨h.1, h.1.inRange, h.2⟩
  | userDelayResponseElapsed id elapsed now =>
    by_cases hskip : elapsed ≤ 2000 ∨ q.user? id = none
    · have hsame : q.userDelayResponseElapsed id elapsed now = some q := by
        unfold userDelayResponseElapsed
        split
        · rfl
        · rename_i hu
          exact if_pos (hskip.resolve_right (by simp [hu]))
      rw [step, hsame]
      refine plain hq ⟨hq.inRange, ?_⟩
      exact (if_pos hskip).mpr rfl
    · obtain ⟨hlate, hu⟩ := not_or.mp hskip
      obtain ⟨user, hu⟩ := Option.ne_none_iff_exists'.mp hu
      refine (userDelayResponseElapsed_returns hq now hu (by omega) hop).mono fun q' h =>
        ⟨h.1, h.1.inRange, ?_⟩
      exact (if_neg hskip).mpr h.2
  | newDisplay name => exact plain ⟨hq.users, hq.bitrate⟩ ⟨hq.inRange, trivial⟩
  | removeDisplay name => exact plain ⟨hq.users, hq.bitrate⟩ ⟨hq.inRange, trivial⟩
  | setSupportChangingQuality name support =>
    exact plain ⟨hq.users, hq.bitrate⟩ ⟨hq.inRange, trivial⟩
  | updateDisplayData name sendCounter now =>
    exact (updateDisplayData_returns F hq name sendCounter now).mono fun q' h =>
      ⟨h.1, h.1.inRange, h.2⟩
  | storeBitrate bitrate => exact plain ⟨hq.users, hop⟩ ⟨hq.inRange, trivial⟩
  | readRatio =>
    rw [step]
    split
    · exact plain ⟨hq.users, hq.bitrate⟩ ⟨hq.inRange, trivial⟩
    · exact plain hq ⟨hq.inRange, trivial⟩
  | adjustFps now =>
    exact plain ⟨hq.users, hq.bitrate⟩ ⟨hq.inRange, adjustFps_streams hq.inRange now⟩
  | rehash before =>
    have hok : { q with users := q.users.mergeSort fun a b => before a.1 b.1 : Qos R }.Ok :=
      ⟨fun u hu => hq.users u (List.mem_mergeSort.mp hu), hq.bitrate⟩
    exact plain hok ⟨hok.inRange, trivial⟩

/-- **Frame rates are safe in every run**: whatever the floating point operations are, no run of
operations overflows a number or divides by zero, and in the state it reaches every further
operation returns and is safe. -/
theorem frame_rate_safety (linux : Bool) (now : ℕ) {ops : List Op} (hops : ∀ op ∈ ops, op.Bounded) :
    ∃ q, exec (step F linux) (default F linux now) ops = some q ∧ q.InRange ∧
      ∀ op : Op, op.Bounded → ∃ q', step F linux q op = some q' ∧ Safe q op q' := by
  have hrun : Returns (exec (step F linux) (default F linux now) ops) Ok :=
    exec_returns (fun q op hq hop => (step_returns F linux hq hop).mono fun _ h => h.1)
      (default_ok F linux now) hops
  obtain ⟨q, hexec, hq⟩ := hrun
  refine ⟨q, hexec, hq.inRange, fun op hop => ?_⟩
  obtain ⟨q', hstep, -, hsafe⟩ := step_returns F linux hq hop
  exact ⟨q', hstep, hsafe⟩

/-- Floating point numbers without rounding. -/
def exactF32 : F32 ℚ where
  ofNat n := n
  lit q := q
  mul := (· * ·)
  div := (· / ·)
  max := max
  min := min
  clamp x lo hi := max lo (min x hi)
  lt x y := decide (x < y)
  le x y := decide (x ≤ y)
  ceilU32 x := min x.ceil.toNat (2 ^ 32 - 1)

/-- A viewer that joins, replies, asks for more, and then leaves a probe out. -/
def stalledRun : List Op :=
  [.onConnectionOpen 1 0 true, .userNetworkDelay 1 20 2000, .userCustomFps 1 60,
    .userNetworkDelay 1 300 3000,
    .userDelayResponseElapsed 1 3500 7000]

theorem frame_rate_safety_stalled :
    (∀ op ∈ stalledRun, op.Bounded) ∧ ∃ q, exec (step exactF32 true) (default exactF32 true 0)
      stalledRun = some q ∧
      q.InRange ∧ ∀ op : Op, op.Bounded → ∃ q', step exactF32 true q op = some q' ∧ Safe q op q' :=
  have hops : ∀ op ∈ stalledRun, op.Bounded := by simp [stalledRun, Op.Bounded, delayBound]
  ⟨hops, frame_rate_safety exactF32 true 0 hops⟩

end Qos
end VideoQos
end BgDesk
