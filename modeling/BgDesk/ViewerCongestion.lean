import BgDesk.FrameRate

/-!
# Reductions and restores of a viewer

The start of `video_qos.rs` says when the rate of a viewer goes down and when it comes back. Here
that is read off the code: a step of `limit_fps_change` first, then the runs of one viewer.

* `UserDelay.move` — the end of a reply; `limitFpsChange_good`, `limitFpsChange_bad` — all it can
  do;
* `Watched`, `Watched.step` — a viewer over its replies, its stall ticks and the reductions of the
  bitrate, with what has been counted since;
* `reductions_disciplined` — how far a reply lowers the rate, and when;
* `congestion_recovers` — two good replies bring back the level before the first reduction.

`Qos.watched_of_run` connects it: every viewer of a controller is in a state that a run of its own
events reaches.
-/

namespace BgDesk
namespace VideoQos

namespace UserDelay

/-! ## The end of a reply -/

/-- `limit_fps_change`, `accelerate_startup` and the limits. -/
def move (d : UserDelay) (cap currentFps fps delay : ℕ) (bitrateFirst braked : Bool) :
    Option (UserDelay × ℕ) := do
  let (d, fps) ← d.limitFpsChange currentFps fps delay bitrateFirst braked
  let (d, fps) ← d.accelerateStartup currentFps fps cap delay braked
  return (d, clamp fps minFps cap)

variable {d d' : UserDelay} {cap currentFps fps delay t : ℕ} {bitrateFirst braked : Bool}

/-- What `recover` does. -/
theorem recover_cases (h : d.recover currentFps fps = some (d', t)) :
    (∃ level, (d.goodSamples = 2 ∨ d.goodSamples = 3) ∧ d.fpsBeforeCongestion = some level ∧
      currentFps < level ∧
        d' = { d with fpsBeforeCongestion := none, samplesSinceRestore := some 0 } ∧
          t = max fps level) ∨
      (d.goodSamples = 3 ∧ (∀ level ∈ d.fpsBeforeCongestion, level ≤ currentFps) ∧
        d' = { d with fpsBeforeCongestion := none } ∧
          t = max fps (currentFps + max (currentFps / 5) 2)) ∨
      ((d.goodSamples = 2 → ∀ level ∈ d.fpsBeforeCongestion, level ≤ currentFps) ∧
        d.goodSamples ≠ 3 ∧ d' = d ∧
        t = currentFps + max (currentFps / 10) 1) := by
  rw [recover] at h
  obtain ⟨tenth, htenth, h⟩ := Option.bind_eq_some_iff.mp h
  obtain ⟨gradual, hgradual, h⟩ := Option.bind_eq_some_iff.mp h
  obtain rfl := checkedDiv_eq_some htenth
  obtain rfl := checkedAdd_eq_some hgradual
  have hlevel : ∀ {level}, d.fpsBeforeCongestion.filter (fun level => decide (currentFps < level)) =
    some level →
      d.fpsBeforeCongestion = some level ∧ currentFps < level := by
    intro level hf
    obtain ⟨hsome, hlt⟩ := Option.filter_eq_some_iff.mp hf
    exact ⟨hsome, of_decide_eq_true hlt⟩
  have hnone : d.fpsBeforeCongestion.filter (fun level => decide (currentFps < level)) = none →
      ∀ level ∈ d.fpsBeforeCongestion, level ≤ currentFps := by
    intro hf level hl
    have hle := Option.filter_eq_none_iff.mp hf level hl
    simpa using hle
  split at h
  · next level hgood hf =>
    obtain ⟨rfl, rfl⟩ := Prod.mk.inj (Option.some.inj h)
    exact .inl ⟨level, .inl hgood, (hlevel hf).1, (hlevel hf).2, rfl, rfl⟩
  · next level hgood hf =>
    obtain ⟨rfl, rfl⟩ := Prod.mk.inj (Option.some.inj h)
    exact .inl ⟨level, .inr hgood, (hlevel hf).1, (hlevel hf).2, rfl, rfl⟩
  · next hgood hf =>
    obtain ⟨fifth, hfifth, h⟩ := Option.bind_eq_some_iff.mp h
    obtain ⟨raised, hraised, h⟩ := Option.bind_eq_some_iff.mp h
    obtain rfl := checkedDiv_eq_some hfifth
    obtain rfl := checkedAdd_eq_some hraised
    obtain ⟨rfl, rfl⟩ := Prod.mk.inj (Option.some.inj h)
    exact .inr (.inl ⟨hgood, hnone hf, rfl, rfl⟩)
  · next h₂ h₃ h₃' =>
    obtain ⟨rfl, rfl⟩ := Prod.mk.inj (Option.some.inj h)
    have hthree : d.goodSamples ≠ 3 := by
      intro hgood
      cases hf : d.fpsBeforeCongestion.filter fun level => decide (currentFps < level) with
      | none => exact h₃' hgood hf
      | some level => exact h₃ level hgood hf
    refine .inr (.inr ⟨fun hgood => hnone ?_, hthree, rfl, rfl⟩)
    cases hf : d.fpsBeforeCongestion.filter fun level => decide (currentFps < level) with
    | none => rfl
    | some level => exact absurd hf (h₂ level hgood)

/-- The excess over the baseline is that of a good reply. -/
def GoodReply (d : UserDelay) (delay : ℕ) : Prop := delay - d.base < delayThreshold150ms

instance (d : UserDelay) (delay : ℕ) : Decidable (d.GoodReply delay) :=
  inferInstanceAs (Decidable (_ < _))

/-- A reduction by a half is in order: a second of excess, or 600 ms shortly after a restore. -/
def Urgent (d : UserDelay) (delay : ℕ) : Prop :=
  1000 ≤ delay - d.base ∨ 600 ≤ delay - d.base ∧
    d.samplesSinceRestore.any (fun samples => samples + 1 ≤ restoreGuardSamples)

instance (d : UserDelay) (delay : ℕ) : Decidable (d.Urgent delay) :=
  inferInstanceAs (Decidable (_ ∨ _))

/-- A good reply. -/
theorem limitFpsChange_good (hgood : d.GoodReply delay)
    (h : d.limitFpsChange currentFps fps delay bitrateFirst braked = some (d', t)) : { d with
      samplesSinceRestore := d.samplesSinceRestore.map fun samples => min (samples + 1) u8Max
      consecutiveBadSamples := 0, fpsBadSamples := 0, repliesAfterBitrateReduction := none
      goodSamples := min (d.goodSamples + 1) 3 }.recover currentFps fps = some (d', t) := by
  rw [limitFpsChange] at h
  exact (if_pos hgood).symm.trans h

/-- What counting a bad reply leaves: the level and the guard of a restore are only touched where
there was a restore. -/
structure Counted (d d' : UserDelay) : Prop where
  bad : d'.fpsBadSamples = min (d.fpsBadSamples + 1) 3
  good : d'.goodSamples = d.goodSamples
  fps : d'.fps = d.fps
  stall : d'.stallReferenceFps = d.stallReferenceFps
  startup : d'.startupGoodSamples = d.startupGoodSamples
  rtt : d'.rttCalculator = d.rttCalculator
  level : d.samplesSinceRestore = none → d'.fpsBeforeCongestion = d.fpsBeforeCongestion ∧
    d'.samplesSinceRestore = none

/-- A bad reply: the rate is kept, or reduced, once it is confirmed or urgent. -/
theorem limitFpsChange_bad (hbad : ¬d.GoodReply delay)
    (h : d.limitFpsChange currentFps fps delay bitrateFirst braked = some (d', t)) :
    ∃ d₁, d.Counted d₁ ∧
      (d' = d₁ ∧ t = currentFps ∨
        d' = d₁.onReduction currentFps ∧ fps < currentFps ∧ braked = false ∧
          (3 ≤ d.fpsBadSamples + 1 ∨ d.Urgent delay) ∧
          t = max fps (currentFps - max (currentFps / if d.Urgent delay then 2 else 5) 1)) := by
  have hexcess : ¬delay - d.base < delayThreshold150ms := hbad
  simp only [limitFpsChange, if_neg hexcess] at h
  obtain ⟨d₁, hcount, h⟩ := Option.bind_eq_some_iff.mp h
  rw [countBad] at hcount
  obtain ⟨bad, hadd, hcount⟩ := Option.bind_eq_some_iff.mp hcount
  obtain ⟨replies, -, hcount⟩ := Option.bind_eq_some_iff.mp hcount
  obtain rfl := checkedAdd_eq_some hadd
  have hrestored : d₁.restored = d.samplesSinceRestore.any fun samples =>
      samples + 1 ≤ restoreGuardSamples := by
    obtain rfl := Option.some.inj hcount
    dsimp only [restored]
    cases d.samplesSinceRestore with
    | none => rfl
    | some samples =>
      refine decide_eq_decide.mpr ?_
      dsimp only [restoreGuardSamples, u8Max]
      omega
  have hcounted : d.Counted d₁ := by
    obtain rfl := Option.some.inj hcount
    exact ⟨rfl, rfl, rfl, rfl, rfl, rfl, fun hnone => ⟨rfl, by dsimp only; rw [hnone]; rfl⟩⟩
  clear hcount
  obtain ⟨d₂, hlower, h⟩ := Option.bind_eq_some_iff.mp h
  have hcounted₂ : d.Counted d₂ := by
    rw [lowerLevel] at hlower
    split at hlower
    · next hfailed =>
      obtain ⟨quarter, -, hlower⟩ := Option.bind_eq_some_iff.mp hlower
      obtain ⟨level, -, hlower⟩ := Option.bind_eq_some_iff.mp hlower
      obtain rfl := Option.some.inj hlower
      refine { hcounted with level := fun hnone => ?_ }
      rw [hrestored, hnone] at hfailed
      cases hfailed
    · obtain rfl := Option.some.inj hlower
      exact hcounted
  refine ⟨d₂, hcounted₂, ?_⟩
  -- what follows only reads the counted reply
  rw [reduce] at h
  split at h
  · obtain ⟨rfl, rfl⟩ := Prod.mk.inj (Option.some.inj h)
    exact .inl ⟨rfl, rfl⟩
  · next hlower' =>
    obtain ⟨hlt, hbraked⟩ := not_or.mp hlower'
    split at h
    · obtain ⟨rfl, rfl⟩ := Prod.mk.inj (Option.some.inj h)
      exact .inl ⟨rfl, rfl⟩
    · next hwait =>
      obtain ⟨part, hpart, h⟩ := Option.bind_eq_some_iff.mp h
      obtain rfl := checkedDiv_eq_some hpart
      obtain ⟨rfl, rfl⟩ := Prod.mk.inj (Option.some.inj h)
      have hurgent : (1000 ≤ delay - d.base ∨
          (decide (600 ≤ delay - d.base) && d₁.restored) = true) ↔ d.Urgent delay := by
        rw [hrestored, Urgent, Bool.and_eq_true_iff, decide_eq_true_iff]
      refine .inr ⟨rfl, Nat.lt_of_not_le hlt, Bool.not_eq_true _ ▸ hbraked, ?_, ?_⟩
      · by_contra hnot
        obtain ⟨hfew, hcalm⟩ := not_or.mp hnot
        obtain ⟨hmild, hfailed⟩ := not_or.mp fun hh => hcalm (hurgent.mp hh)
        rw [Bool.not_eq_true] at hfailed
        refine hwait ⟨by rw [hfailed]; rfl, Nat.lt_of_not_le hmild, .inl ?_⟩
        rw [hcounted₂.bad]
        omega
      · simp only [hurgent]

/-- The acceleration at the start only adds, and a bad reply ends it. -/
theorem accelerateStartup_cases
    (h : d.accelerateStartup currentFps fps cap delay braked = some (d', t)) :
    ∃ samples, d' = { d with startupGoodSamples := samples } ∧ min fps cap ≤ t ∧
      (¬d.GoodReply delay → t = fps) := by
  rw [accelerateStartup] at h
  split at h
  · obtain ⟨rfl, rfl⟩ := Prod.mk.inj (Option.some.inj h)
    exact ⟨_, rfl, Nat.min_le_left _ _, fun _ => rfl⟩
  · split at h
    · obtain ⟨rfl, rfl⟩ := Prod.mk.inj (Option.some.inj h)
      exact ⟨_, rfl, Nat.min_le_left _ _, fun _ => rfl⟩
    · next hclean =>
      obtain ⟨samples, -, h⟩ := Option.bind_eq_some_iff.mp h
      split at h
      · obtain ⟨rfl, rfl⟩ := Prod.mk.inj (Option.some.inj h)
        exact ⟨_, rfl, Nat.min_le_left _ _, fun _ => rfl⟩
      · obtain ⟨rfl, rfl⟩ := Prod.mk.inj (Option.some.inj h)
        refine ⟨_, rfl, ?_, fun hbad => ?_⟩
        · omega
        · have hexcess : ¬delay - d.base < delayThreshold150ms := hbad
          dsimp only [delayThreshold150ms] at hexcess
          omega

theorem move_good (hgood : d.GoodReply delay)
    (h : d.move cap currentFps fps delay bitrateFirst braked = some (d', t)) : ∃ d₁ r samples,
      { d with
        samplesSinceRestore := d.samplesSinceRestore.map fun samples => min (samples + 1) u8Max
        consecutiveBadSamples := 0, fpsBadSamples := 0, repliesAfterBitrateReduction := none
        goodSamples := min (d.goodSamples + 1) 3 }.recover currentFps fps = some (d₁, r) ∧
      d' = { d₁ with startupGoodSamples := samples } ∧ min r cap ≤ t := by
  obtain ⟨⟨d₁, r⟩, hlimit, h⟩ := Option.bind_eq_some_iff.mp h
  obtain ⟨⟨d₂, x⟩, haccelerate, h⟩ := Option.bind_eq_some_iff.mp h
  obtain ⟨rfl, rfl⟩ := Prod.mk.inj (Option.some.inj h)
  obtain ⟨samples, rfl, hx, -⟩ := accelerateStartup_cases haccelerate
  refine ⟨d₁, r, samples, limitFpsChange_good hgood hlimit, rfl, ?_⟩
  dsimp only [clamp]
  omega

theorem recover_higher (h : d.recover currentFps fps = some (d', t)) : currentFps < t := by
  obtain ⟨level, -, -, hlt, -, rfl⟩ | ⟨-, -, -, rfl⟩ | ⟨-, -, -, rfl⟩ := recover_cases h
  · omega
  · omega
  · omega

theorem recover_bad (h : d.recover currentFps fps = some (d', t)) :
    d'.fpsBadSamples = d.fpsBadSamples := by
  obtain ⟨level, -, -, -, rfl, -⟩ | ⟨-, -, rfl, -⟩ | ⟨-, -, rfl, -⟩ := recover_cases h
  · rfl
  · rfl
  · rfl

/-- A bad reply keeps the rate or reduces it. -/
theorem move_bad (hbad : ¬d.GoodReply delay)
    (h : d.move cap currentFps fps delay bitrateFirst braked = some (d', t)) :
    ∃ d₁ samples, d.Counted d₁ ∧
      (d' = { d₁ with startupGoodSamples := samples } ∧ t = clamp currentFps minFps cap ∨
        d' = { d₁.onReduction currentFps with startupGoodSamples := samples } ∧ fps < currentFps ∧
          braked = false ∧
          (3 ≤ d.fpsBadSamples + 1 ∨ d.Urgent delay) ∧
          t = clamp (max fps (currentFps - max (currentFps / if d.Urgent delay then 2 else 5) 1))
            minFps cap) := by
  obtain ⟨⟨d₂, r⟩, hlimit, h⟩ := Option.bind_eq_some_iff.mp h
  obtain ⟨⟨d₃, x⟩, haccelerate, h⟩ := Option.bind_eq_some_iff.mp h
  obtain ⟨rfl, rfl⟩ := Prod.mk.inj (Option.some.inj h)
  obtain ⟨samples, rfl, -, hx⟩ := accelerateStartup_cases haccelerate
  obtain ⟨d₁, hcounted, hcases⟩ := limitFpsChange_bad hbad hlimit
  have hx : x = r := by
    refine hx ?_
    have hbase : d₂.base = d.base := by
      obtain ⟨rfl, -⟩ | ⟨rfl, -⟩ := hcases
      · rw [base, base, hcounted.rtt]
      · rw [base, base, onReduction, hcounted.rtt]
    rw [GoodReply, hbase]
    exact hbad
  subst hx
  refine ⟨d₁, samples, hcounted, ?_⟩
  obtain ⟨rfl, rfl⟩ | ⟨rfl, hlt, hbraked, hconfirmed, rfl⟩ := hcases
  · exact .inl ⟨rfl, rfl⟩
  · exact .inr ⟨rfl, hlt, hbraked, hconfirmed, rfl⟩

/-! ## A whole reply -/

/-- The start of a reply: the probe is closed, and what has been counted stays. -/
structure Opened (d d' : UserDelay) : Prop where
  bad : d'.fpsBadSamples = d.fpsBadSamples
  good : d'.goodSamples = d.goodSamples
  level : d'.fpsBeforeCongestion = d.fpsBeforeCongestion
  guard : d'.samplesSinceRestore = d.samplesSinceRestore
  stall : d'.stallReferenceFps = none

theorem record_opened (h : d.record delay braked = some d') : d.Opened d' ∧ d'.fps = d.fps := by
  rw [record] at h
  split at h
  · obtain rfl := Option.some.inj h
    exact ⟨⟨rfl, rfl, rfl, rfl, rfl⟩, rfl⟩
  · obtain ⟨rtt, -, h⟩ := Option.bind_eq_some_iff.mp h
    obtain rfl := Option.some.inj h
    exact ⟨⟨rfl, rfl, rfl, rfl, rfl⟩, rfl⟩

theorem adapt_eq {R : Type} {F : F32 R} {lowFps normalFps avgDelay oldAvgDelay : ℕ}
    (h : d.adapt F lowFps normalFps avgDelay oldAvgDelay fps = some (d', t)) :
    ∃ quick, d' = { d with quickIncreaseFpsCount := quick } := by
  rw [adapt] at h
  split at h
  · obtain ⟨raised, -, h⟩ := Option.bind_eq_some_iff.mp h
    exact ⟨_, (Prod.mk.inj (Option.some.inj h)).1.symm⟩
  · split at h
    · obtain ⟨raised, -, h⟩ := Option.bind_eq_some_iff.mp h
      exact ⟨_, (Prod.mk.inj (Option.some.inj h)).1.symm⟩
    · split at h
      · exact ⟨_, (Prod.mk.inj (Option.some.inj h)).1.symm⟩
      · split at h
        · exact ⟨_, (Prod.mk.inj (Option.some.inj h)).1.symm⟩
        · split at h
          · exact ⟨_, (Prod.mk.inj (Option.some.inj h)).1.symm⟩
          · obtain ⟨product, -, h⟩ := Option.bind_eq_some_iff.mp h
            exact ⟨_, (Prod.mk.inj (Option.some.inj h)).1.symm⟩

theorem settle_eq {avgDelay : ℕ} (h : d.settle avgDelay fps = some (d', t)) :
    ∃ quick count, d' = { d with quickIncreaseFpsCount := quick, increaseFpsCount := count } := by
  by_cases hcount : 3 ≤ if avgDelay < delayThreshold150ms then d.increaseFpsCount + 1 else 0
  · simp only [settle, if_pos hcount] at h
    obtain ⟨raised, -, h⟩ := Option.bind_eq_some_iff.mp h
    exact ⟨_, _, (Prod.mk.inj (Option.some.inj h)).1.symm⟩
  · simp only [settle, if_neg hcount] at h
    exact ⟨_, _, (Prod.mk.inj (Option.some.inj h)).1.symm⟩

/-- The excess of a reply over the baseline. -/
def replyExcess (d : UserDelay) (delay : ℕ) : Option ℕ :=
  (d.record (max delay 10) d.stallReferenceFps.isSome).map fun d₁ => max delay 10 - d₁.base

/-- The rate a viewer is at. -/
def current (d : UserDelay) (cap : ℕ) : ℕ := d.fps.getD (min initFps cap)

/-- A reply is a `move` towards some rate, with what has been counted before. -/
theorem reply_move {R : Type} {F : F32 R} {lowFps normalFps : ℕ} {reduceBitrate : Bool}
    (h : d.reply F cap lowFps normalFps delay bitrateFirst = some (d', reduceBitrate)) :
    ∃ d₁ d₂ fps t, d.Opened d₁ ∧ d.replyExcess delay = some (max delay 10 - d₁.base) ∧
      min minAutoFps cap ≤ fps ∧
      d₁.move cap (d.current cap) fps (max delay 10) bitrateFirst d.stallReferenceFps.isSome =
        some (d₂, t) ∧
      d' = { d₂ with fps := some t } := by
  rw [reply] at h
  obtain ⟨oldAvgDelay, -, h⟩ := Option.bind_eq_some_iff.mp h
  obtain ⟨d₁, hrecord, h⟩ := Option.bind_eq_some_iff.mp h
  obtain ⟨avgDelay, -, h⟩ := Option.bind_eq_some_iff.mp h
  obtain ⟨⟨d₂, fps₂⟩, hadapt, h⟩ := Option.bind_eq_some_iff.mp h
  obtain ⟨⟨d₃, fps₃⟩, hsettle, h⟩ := Option.bind_eq_some_iff.mp h
  obtain ⟨⟨d₄, fps₄⟩, hlimit, h⟩ := Option.bind_eq_some_iff.mp h
  obtain ⟨⟨d₅, fps₅⟩, haccelerate, h⟩ := Option.bind_eq_some_iff.mp h
  obtain ⟨rfl, -⟩ := Prod.mk.inj (Option.some.inj h)
  obtain ⟨hopened, hfps⟩ := record_opened hrecord
  obtain ⟨quick, rfl⟩ := adapt_eq hadapt
  obtain ⟨quick', count, rfl⟩ := settle_eq hsettle
  have hcurrent : d₁.fps.getD (min initFps cap) = d.current cap := by rw [hfps]; rfl
  rw [hcurrent] at hlimit haccelerate
  refine ⟨{ d₁ with quickIncreaseFpsCount := quick', increaseFpsCount := count }, d₅, _, _,
    ⟨hopened.bad, hopened.good, hopened.level, hopened.guard, hopened.stall⟩, ?_,
    Nat.le_max_right (if bitrateFirst = true then max fps₃ lowFps else fps₃) _, ?_, rfl⟩
  · rw [replyExcess, hrecord]
    rfl
  · exact Option.bind_eq_some_iff.mpr ⟨_, hlimit, Option.bind_eq_some_iff.mpr ⟨_, haccelerate, rfl⟩⟩

/-- A stall tick: the first of a stall is a reduction, the others go on with it. -/
structure Ticked (d : UserDelay) (cap : ℕ) (d' : UserDelay) : Prop where
  guard : d'.samplesSinceRestore = d.samplesSinceRestore
  stall : d'.stallReferenceFps.isSome = true
  fps : ∃ t, d'.fps = some t ∧ t ≤ cap
  first : d.stallReferenceFps = none → d'.goodSamples = 0 ∧ d'.fpsBadSamples = 0 ∧
    d'.fpsBeforeCongestion = some (d.fpsBeforeCongestion.getD (d.current cap))
  later : d.stallReferenceFps.isSome = true → d'.goodSamples = d.goodSamples ∧
    d'.fpsBadSamples = d.fpsBadSamples ∧
    d'.fpsBeforeCongestion = d.fpsBeforeCongestion

theorem stall_ticked {elapsed : ℕ} (h : d.stall cap elapsed = some d') : d.Ticked cap d' := by
  rw [stall] at h
  obtain ⟨part, -, h⟩ := Option.bind_eq_some_iff.mp h
  obtain rfl := Option.some.inj h
  have hfps : ∀ current, min (clamp part (min minAutoFps cap) cap) current ≤ cap := by
    intro current
    dsimp only [clamp]
    omega
  cases href : d.stallReferenceFps with
  | none =>
    simp only [addDelay]
    refine ⟨rfl, rfl, ⟨_, rfl, hfps _⟩, fun _ => ⟨rfl, rfl, ?_⟩, ?_⟩
    · cases d.fpsBeforeCongestion with
      | none => rfl
      | some level => rfl
    · simp [href]
  | some reference =>
    simp only [addDelay]
    exact ⟨rfl, rfl, ⟨_, rfl, hfps _⟩, by simp [href], fun _ => ⟨rfl, rfl, rfl⟩⟩

end UserDelay

/-! ## The runs of a viewer -/

/-- A viewer, and what has been counted. The code keeps the first only. -/
structure Watched where
  delay : UserDelay
  /-- bad replies since the last reduction or good reply -/
  bads : ℕ
  /-- good replies since the last reduction -/
  goods : ℕ
  /-- the rate at the first reduction -/
  level : Option ℕ
  deriving DecidableEq

namespace Watched

/-- What happens to a viewer. The limit, the rates of the quality and whether the bitrate can still
come down are those of the moment. -/
inductive Act where
  | reply (cap lowFps normalFps delay : ℕ) (bitrateFirst : Bool)
  | stallTick (cap elapsed : ℕ)
  /-- the bitrate has been reduced -/
  | awaitReplies (replies : ℕ)
  deriving DecidableEq

/-- The limit of the viewer is this one. -/
def Act.AtCap (cap : ℕ) : Act → Prop
  | .reply cap' _ _ _ _ => cap' = cap
  | .stallTick cap' _ => cap' = cap
  | .awaitReplies _ => True

instance (cap : ℕ) : ∀ a : Act, Decidable (a.AtCap cap)
  | .reply cap' _ _ _ _ => inferInstanceAs (Decidable (cap' = cap))
  | .stallTick cap' _ => inferInstanceAs (Decidable (cap' = cap))
  | .awaitReplies _ => inferInstanceAs (Decidable True)

/-- A viewer that is watched from now on. -/
def start (d : UserDelay) : Watched := ⟨d, 0, 0, none⟩

/-- A good reply has been counted. -/
def good (s : Watched) (d : UserDelay) : Watched :=
  { s with delay := d, bads := 0, goods := s.goods + 1 }

/-- A bad reply. -/
def bad (s : Watched) (d : UserDelay) : Watched := { s with delay := d, bads := s.bads + 1 }

/-- A reduction, from the rate. -/
def reduced (s : Watched) (d : UserDelay) (currentFps : ℕ) : Watched :=
  ⟨d, 0, 0, some (s.level.getD currentFps)⟩

/-- One event. A bad reply reduces where the bad replies are forgotten, which only `on_reduction`
does. -/
def step {R : Type} (F : F32 R) (s : Watched) : Act → Option Watched
  | .reply cap lowFps normalFps delay bitrateFirst => do
    let (d, _) ← s.delay.reply F cap lowFps normalFps delay bitrateFirst
    let excess ← s.delay.replyExcess delay
    return if excess < delayThreshold150ms then s.good d
      else if d.fpsBadSamples = 0 then s.reduced d (s.delay.current cap)
      else s.bad d
  | .stallTick cap elapsed =>
    if elapsed ≤ 2000 then some s
    else do
      let d ← s.delay.stall cap elapsed
      return if s.delay.stallReferenceFps = none then s.reduced d
        (s.delay.current cap) else { s with delay := d }
  | .awaitReplies replies => some { s with delay := Qos.awaitReplies s.delay replies }

variable {R : Type} {F : F32 R} {s s' : Watched} {cap lowFps normalFps delay : ℕ}
  {bitrateFirst : Bool}

/-- What a reply does to a viewer that is watched, once the probe is closed. -/
inductive Replied (s : Watched) (d₁ : UserDelay) (cap delay : ℕ) : Watched → Prop where
  | good {d₂ d : UserDelay} {r t : ℕ} (fps : ℕ) : d₁.GoodReply delay →
      { d₁ with
        samplesSinceRestore := d₁.samplesSinceRestore.map fun samples => min (samples + 1) u8Max
        consecutiveBadSamples := 0, fpsBadSamples := 0, repliesAfterBitrateReduction := none
        goodSamples := min (d₁.goodSamples + 1) 3 }.recover (s.delay.current cap)
          fps = some (d₂, r) →
      (∃ samples, d = { d₂ with startupGoodSamples := samples, fps := some t }) → min r cap ≤ t →
      Replied s d₁ cap delay (s.good d)
  | bad {d₂ d : UserDelay} : ¬d₁.GoodReply delay → d₁.Counted d₂ →
      (∃ samples, d = { d₂ with
        startupGoodSamples := samples, fps := some (clamp (s.delay.current cap) minFps cap) }) →
      Replied s d₁ cap delay (s.bad d)
  | reduced {d₂ d : UserDelay} (fps : ℕ) : ¬d₁.GoodReply delay → d₁.Counted d₂ →
    min minAutoFps cap ≤ fps →
      fps < s.delay.current cap → (3 ≤ d₁.fpsBadSamples + 1 ∨ d₁.Urgent delay) →
      (∃ samples, d = { d₂.onReduction (s.delay.current cap) with
        startupGoodSamples := samples
        fps :=
          some (clamp (max fps (s.delay.current cap -
            max (s.delay.current cap / if d₁.Urgent delay then 2 else 5) 1))
          minFps cap) }) →
      Replied s d₁ cap delay (s.reduced d (s.delay.current cap))

theorem step_reply (h : s.step F (.reply cap lowFps normalFps delay bitrateFirst) = some s') :
    ∃ d₁, s.delay.Opened d₁ ∧ s.delay.replyExcess delay = some (max delay 10 - d₁.base) ∧
      s.Replied d₁ cap (max delay 10) s' := by
  obtain ⟨⟨d, reduceBitrate⟩, hreply, h⟩ := Option.bind_eq_some_iff.mp h
  obtain ⟨excess, hexcess, h⟩ := Option.bind_eq_some_iff.mp h
  obtain rfl := Option.some.inj h
  obtain ⟨d₁, d₂, fps, t, hopened, hexcess', hfloor, hmove, rfl⟩ := UserDelay.reply_move hreply
  obtain rfl := Option.some.inj (hexcess'.symm.trans hexcess)
  refine ⟨d₁, hopened, hexcess', ?_⟩
  by_cases hgood : d₁.GoodReply (max delay 10)
  · have hexcess : max delay 10 - d₁.base < delayThreshold150ms := hgood
    rw [if_pos hexcess]
    obtain ⟨d₃, r, samples, hrecover, rfl, ht⟩ := UserDelay.move_good hgood hmove
    exact .good fps hgood hrecover ⟨samples, rfl⟩ ht
  · have hexcess : ¬max delay 10 - d₁.base < delayThreshold150ms := hgood
    rw [if_neg hexcess]
    obtain ⟨d₃, samples, hcounted, ⟨rfl, rfl⟩ | ⟨rfl, hlt, -, hconfirmed, rfl⟩⟩ :=
      UserDelay.move_bad hgood hmove
    · have hbad : d₃.fpsBadSamples ≠ 0 := by
        rw [hcounted.bad]
        omega
      dsimp only
      rw [if_neg hbad]
      exact .bad hgood hcounted ⟨samples, rfl⟩
    · simp only [UserDelay.onReduction, if_true]
      exact .reduced fps hgood hcounted hfloor hlt hconfirmed ⟨samples, rfl⟩

/-- A reduction of the bitrate is noted in one field. -/
theorem awaitReplies_eq (d : UserDelay) (replies : ℕ) :
    ∃ r, Qos.awaitReplies d replies = { d with repliesAfterBitrateReduction := r } := by
  rw [Qos.awaitReplies]
  split
  · exact ⟨_, rfl⟩
  · exact ⟨d.repliesAfterBitrateReduction, rfl⟩

/-! ### When a reply reduces -/

/-- The code does not count more bad replies than there have been. -/
theorem step_bads (hs : s.delay.fpsBadSamples ≤ s.bads) {a : Act} (h : s.step F a = some s') :
    s'.delay.fpsBadSamples ≤ s'.bads := by
  cases a with
  | reply cap lowFps normalFps delay bitrateFirst =>
    obtain ⟨d₁, hopened, -, hreplied⟩ := step_reply h
    cases hreplied with
    | good fps hgood hrecover hd ht =>
      obtain ⟨samples, rfl⟩ := hd
      have hzero := UserDelay.recover_bad hrecover
      exact hzero.le
    | bad hbad hcounted hd =>
      obtain ⟨samples, rfl⟩ := hd
      change _ ≤ s.bads + 1
      dsimp only [bad]
      rw [hcounted.bad, hopened.bad]
      omega
    | reduced fps hbad hcounted hfloor hlt hconfirmed hd =>
      obtain ⟨samples, rfl⟩ := hd
      exact le_rfl
  | stallTick cap elapsed =>
    rw [step] at h
    split at h
    · obtain rfl := Option.some.inj h
      exact hs
    · obtain ⟨d, hstall, h⟩ := Option.bind_eq_some_iff.mp h
      have hticked := UserDelay.stall_ticked hstall
      obtain rfl := Option.some.inj h
      split
      · next hfirst => exact (hticked.first hfirst).2.1.le
      · next hlater =>
        exact (hticked.later (Option.isSome_iff_ne_none.mpr hlater)).2.1.le.trans hs
  | awaitReplies replies =>
    obtain rfl := Option.some.inj h
    obtain ⟨r, hr⟩ := awaitReplies_eq s.delay replies
    dsimp only
    rw [hr]
    exact hs

/-- A reply that lowers the rate of a viewer within its limit is a reduction, confirmed or urgent.
-/
theorem Replied.lowered {d₁ : UserDelay} (h : s.Replied d₁ cap delay s')
    (hcap : s.delay.current cap ≤ cap) (hlower : s'.delay.current cap < s.delay.current cap) :
    (3 ≤ d₁.fpsBadSamples + 1 ∨ d₁.Urgent delay) ∧
      s' = s.reduced s'.delay (s.delay.current cap) := by
  cases h with
  | good fps hgood hrecover hd ht =>
    obtain ⟨samples, rfl⟩ := hd
    have hhigher := UserDelay.recover_higher hrecover
    dsimp only [Watched.good, UserDelay.current, Option.getD_some] at hlower hhigher hcap
    omega
  | bad hbad hcounted hd =>
    obtain ⟨samples, rfl⟩ := hd
    dsimp only [Watched.bad, UserDelay.current, Option.getD_some, clamp] at hlower hcap
    omega
  | reduced fps hbad hcounted hfloor hlt hconfirmed hd => exact ⟨hconfirmed, rfl⟩

/-- A reduction lowers the rate. -/
theorem Replied.lowers {d₁ : UserDelay} (h : s.Replied d₁ cap delay s') (hcap : minFps ≤ cap)
    (hreduced : s' = s.reduced s'.delay (s.delay.current cap)) :
    s'.delay.current cap < s.delay.current cap := by
  cases h with
  | good fps hgood hrecover hd ht =>
    have hgoods : s.goods + 1 = 0 := congrArg Watched.goods hreduced
    omega
  | bad hbad hcounted hd =>
    have hbads : s.bads + 1 = 0 := congrArg Watched.bads hreduced
    omega
  | reduced fps hbad hcounted hfloor hlt hconfirmed hd =>
    obtain ⟨samples, rfl⟩ := hd
    change clamp _ minFps cap < s.delay.current cap
    dsimp only [clamp, minFps, minAutoFps] at *
    omega

end Watched

/-- The discipline of the reductions. -/
structure Disciplined {R : Type} (F : F32 R) : Prop where
  /-- one reply lowers the rate by a fifth, or where it is urgent by a half, whatever rate was aimed
  at -/
  bounded : ∀ {d d' : UserDelay} {cap currentFps fps delay t : ℕ} {bitrateFirst braked : Bool},
    currentFps ≤ cap →
    d.move cap currentFps fps delay bitrateFirst braked = some (d', t) →
      currentFps - t ≤ if d.Urgent delay then max 1 (currentFps / 2) else max 1 (currentFps / 5)
  good : ∀ {d d' : UserDelay} {cap currentFps fps delay t : ℕ} {bitrateFirst braked : Bool},
    currentFps ≤ cap →
    d.GoodReply delay → d.move cap currentFps fps delay bitrateFirst braked = some (d', t) →
      currentFps ≤ t
  braked : ∀ {d d' : UserDelay} {cap currentFps fps delay t : ℕ} {bitrateFirst : Bool},
    currentFps ≤ cap →
    d.move cap currentFps fps delay bitrateFirst true = some (d', t) → currentFps ≤ t
  /-- a whole reply is such a move, with what has been counted before it -/
  reply : ∀ {d d' : UserDelay} {cap lowFps normalFps delay : ℕ} {bitrateFirst reduceBitrate : Bool},
    d.reply F cap lowFps normalFps delay bitrateFirst = some (d', reduceBitrate) →
      ∃ d₁ d₂ fps t, d.Opened d₁ ∧ d.replyExcess delay = some (max delay 10 - d₁.base) ∧
        d₁.move cap (d.current cap) fps (max delay 10) bitrateFirst d.stallReferenceFps.isSome =
          some (d₂, t) ∧
        d'.current cap = t
  /-- in a run of a viewer, three bad replies come before it, unless the excess is 600 ms or more -/
  confirmed : ∀ {as : List Watched.Act} {s s' : Watched} {cap lowFps normalFps delay excess : ℕ}
    {bitrateFirst : Bool},
    exec (Watched.step F) (.start .empty) as = some s →
    s.step F (.reply cap lowFps normalFps delay bitrateFirst) = some s' →
      s.delay.current cap ≤ cap →
    s'.delay.current cap < s.delay.current cap → s.delay.replyExcess delay = some excess →
      excess < 600 → 3 ≤ s.bads + 1
  /-- there a reply that lowers the rate is a reduction, and the other way round -/
  lowered : ∀ {s s' : Watched} {cap lowFps normalFps delay : ℕ} {bitrateFirst : Bool},
    minFps ≤ cap →
    s.delay.current cap ≤ cap → s.step F (.reply cap lowFps normalFps delay bitrateFirst) =
      some s' →
    (s'.delay.current cap < s.delay.current cap ↔ s' = s.reduced s'.delay (s.delay.current cap))

namespace UserDelay

variable {d d' : UserDelay} {cap currentFps fps delay t : ℕ} {bitrateFirst braked : Bool}

theorem move_bounded (hcap : currentFps ≤ cap)
    (h : d.move cap currentFps fps delay bitrateFirst braked = some (d', t)) :
    currentFps - t ≤ if d.Urgent delay then max 1 (currentFps / 2) else max 1 (currentFps / 5) := by
  by_cases hgood : d.GoodReply delay
  · obtain ⟨d₁, r, samples, hrecover, -, ht⟩ := move_good hgood h
    have hhigher := recover_higher hrecover
    omega
  · obtain ⟨d₁, samples, -, ⟨-, rfl⟩ | ⟨-, -, -, -, rfl⟩⟩ := move_bad hgood h
    · dsimp only [clamp]
      omega
    · dsimp only [clamp]
      by_cases hurgent : d.Urgent delay
      · simp only [if_pos hurgent]
        omega
      · simp only [if_neg hurgent]
        omega

theorem move_good_le (hcap : currentFps ≤ cap) (hgood : d.GoodReply delay)
    (h : d.move cap currentFps fps delay bitrateFirst braked = some (d', t)) : currentFps ≤ t := by
  obtain ⟨d₁, r, samples, hrecover, -, ht⟩ := move_good hgood h
  have hhigher := recover_higher hrecover
  omega

theorem move_le (hcap : minFps ≤ cap)
    (h : d.move cap currentFps fps delay bitrateFirst braked = some (d', t)) : t ≤ cap := by
  obtain ⟨⟨d₁, r⟩, -, h⟩ := Option.bind_eq_some_iff.mp h
  obtain ⟨⟨d₂, x⟩, -, h⟩ := Option.bind_eq_some_iff.mp h
  obtain ⟨-, rfl⟩ := Prod.mk.inj (Option.some.inj h)
  dsimp only [clamp, minFps] at *
  omega

theorem move_braked_le (hcap : currentFps ≤ cap)
    (h : d.move cap currentFps fps delay bitrateFirst true = some (d', t)) : currentFps ≤ t := by
  by_cases hgood : d.GoodReply delay
  · exact move_good_le hcap hgood h
  · obtain ⟨d₁, samples, -, ⟨-, rfl⟩ | ⟨-, -, hbraked, -⟩⟩ := move_bad hgood h
    · dsimp only [clamp]
      omega
    · cases hbraked

end UserDelay

namespace Watched

variable {R : Type} {F : F32 R} {s s' : Watched} {cap lowFps normalFps delay : ℕ}
  {bitrateFirst : Bool}

theorem step_confirmed {as : List Act} {excess : ℕ}
    (hrun : exec (step F) (.start .empty) as = some s)
    (h : s.step F (.reply cap lowFps normalFps delay bitrateFirst) = some s')
    (hcap : s.delay.current cap ≤ cap) (hlower : s'.delay.current cap < s.delay.current cap)
    (hexcess : s.delay.replyExcess delay = some excess) (hmild : excess < 600) :
    3 ≤ s.bads + 1 := by
  have hbads : s.delay.fpsBadSamples ≤ s.bads :=
    exec_invariant (I := fun s : Watched => s.delay.fpsBadSamples ≤ s.bads)
      (fun _ _ _ hI hs => step_bads hI hs)
      (Nat.le_refl 0) hrun
  obtain ⟨d₁, hopened, hexcess', hreplied⟩ := step_reply h
  obtain rfl := Option.some.inj (hexcess'.symm.trans hexcess)
  obtain ⟨hconfirmed, -⟩ := hreplied.lowered hcap hlower
  obtain hcount | hurgent := hconfirmed
  · rw [hopened.bad] at hcount
    omega
  · rw [UserDelay.Urgent] at hurgent
    omega

end Watched

/-- **The discipline of the reductions.** -/
theorem reductions_disciplined {R : Type} (F : F32 R) : Disciplined F where
  bounded hcap h := UserDelay.move_bounded hcap h
  good hcap hgood h := UserDelay.move_good_le hcap hgood h
  braked hcap h := UserDelay.move_braked_le hcap h
  reply h := by
    obtain ⟨d₁, d₂, fps, t, hopened, hexcess, -, hmove, rfl⟩ := UserDelay.reply_move h
    exact ⟨d₁, d₂, fps, t, hopened, hexcess, hmove, rfl⟩
  confirmed hrun h hcap hlower hexcess hmild :=
    Watched.step_confirmed hrun h hcap hlower hexcess hmild
  lowered hfloor hcap h := by
    obtain ⟨d₁, -, -, hreplied⟩ := Watched.step_reply h
    exact ⟨fun hlower => (hreplied.lowered hcap hlower).2, hreplied.lowers hfloor⟩

/-! ## The level before the first reduction -/

namespace Watched

variable {R : Type} {F : F32 R} {s s' : Watched} {cap : ℕ} {a : Act}

/-- Nothing has been reduced, or the level is remembered and has not been given back. -/
def Open (s : Watched) : Prop :=
  match s.level with
  | none => s.delay.fpsBeforeCongestion = none ∧ s.delay.samplesSinceRestore = none
  | some level =>
    s.goods < 2 ∧ s.delay.fpsBeforeCongestion = some level ∧ s.delay.samplesSinceRestore = none ∧
      s.delay.goodSamples = s.goods

/-- The second good reply has given the level back. -/
def Restored (cap : ℕ) (s : Watched) : Prop :=
  s.goods = 2 ∧ ∃ level, s.level = some level ∧ min level cap ≤ s.delay.current cap

theorem Open.guard (h : s.Open) : s.delay.samplesSinceRestore = none := by
  rw [Open] at h
  split at h
  · exact h.2
  · exact h.2.2.1

/-- What changes neither the level nor what has been counted. -/
theorem Open.kept (h : s.Open) {d : UserDelay}
    (hlevel : d.fpsBeforeCongestion = s.delay.fpsBeforeCongestion)
    (hguard : d.samplesSinceRestore = none) (hgood : d.goodSamples = s.delay.goodSamples)
    (bads : ℕ) : { s with delay := d, bads := bads }.Open := by
  unfold Open at h ⊢
  dsimp only
  split
  · next hnone =>
    rw [hnone] at h
    exact ⟨hlevel.trans h.1, hguard⟩
  · next level hsome =>
    rw [hsome] at h
    exact ⟨h.1, hlevel.trans h.2.1, hguard, hgood.trans h.2.2.2⟩

/-- A reduction remembers the rate, if it is the first. -/
theorem Open.reduced (h : s.Open) {d : UserDelay} {currentFps : ℕ}
    (hlevel : d.fpsBeforeCongestion = some (s.delay.fpsBeforeCongestion.getD currentFps))
    (hguard : d.samplesSinceRestore = none) (hgood : d.goodSamples = 0) :
    (s.reduced d currentFps).Open := by
  refine ⟨Nat.two_pos, ?_, hguard, hgood⟩
  rw [Open] at h
  dsimp only [Watched.reduced]
  rw [hlevel]
  split at h
  · next hnone => rw [hnone, h.1]
  · next level hsome => rw [hsome, h.2.1, Option.getD_some]

theorem onReduction_level (d : UserDelay) (currentFps : ℕ) :
    (d.onReduction currentFps).fpsBeforeCongestion =
      some (d.fpsBeforeCongestion.getD currentFps) := by
  dsimp only [UserDelay.onReduction]
  cases d.fpsBeforeCongestion with
  | none => rfl
  | some level => rfl

/-- A good reply: the first leaves the level, the second gives it back. -/
theorem Open.good (h : s.Open) {d₁ d₂ d : UserDelay} {fps r t : ℕ} (hopened : s.delay.Opened d₁)
    (hrecover : { d₁ with
      samplesSinceRestore := d₁.samplesSinceRestore.map fun samples => min (samples + 1) u8Max
      consecutiveBadSamples := 0, fpsBadSamples := 0, repliesAfterBitrateReduction := none
      goodSamples := min (d₁.goodSamples + 1) 3 }.recover (s.delay.current cap) fps = some (d₂, r))
    (hd : ∃ samples, d = { d₂ with startupGoodSamples := samples, fps := some t })
      (ht : min r cap ≤ t) :
    (s.good d).Open ∨ (s.good d).Restored cap := by
  have hguard : d₁.samplesSinceRestore = none := hopened.guard.trans h.guard
  obtain ⟨samples, rfl⟩ := hd
  have hcases := UserDelay.recover_cases hrecover
  dsimp only at hcases
  rw [hguard, hopened.level, hopened.good] at hcases
  unfold Open at h
  split at h
  · -- nothing to give back
    next hnone =>
    refine .inl ?_
    unfold Open Watched.good
    rw [hnone]
    obtain ⟨level, -, hlevel, -⟩ | ⟨-, -, rfl, -⟩ | ⟨-, -, rfl, -⟩ := hcases
    · rw [h.1] at hlevel
      cases hlevel
    · exact ⟨rfl, rfl⟩
    · exact ⟨h.1, rfl⟩
  · next level hsome =>
    obtain ⟨hfew, hlevel, -, hgoods⟩ := h
    rw [hgoods, hlevel] at hcases
    by_cases hfirst : s.goods = 0
    · refine .inl ?_
      unfold Open Watched.good
      rw [hsome]
      obtain ⟨_, htwo, -⟩ | ⟨hthree, -⟩ | ⟨-, -, rfl, -⟩ := hcases
      · omega
      · omega
      · refine ⟨by dsimp only; omega, rfl, rfl, ?_⟩
        dsimp only
        omega
    · refine .inr ⟨by dsimp only [Watched.good]; omega, level, hsome, ?_⟩
      have hr : level ≤ r := by
        obtain ⟨_, -, hl, -, -, rfl⟩ | ⟨hthree, -⟩ | ⟨hkept, -, -, rfl⟩ := hcases
        · obtain rfl := Option.some.inj hl
          exact Nat.le_max_right _ _
        · omega
        · have hle := hkept (by omega) level rfl
          omega
      exact (Nat.le_min.mpr ⟨(Nat.min_le_left level cap).trans hr,
        Nat.min_le_right level cap⟩).trans ht

/-- A step of the episode before the second good reply. -/
theorem Open.step (h : s.Open) (ha : a.AtCap cap) (hstep : s.step F a = some s') :
    s'.Open ∨ s'.Restored cap := by
  cases a with
  | awaitReplies replies =>
    obtain rfl := Option.some.inj hstep
    obtain ⟨r, hr⟩ := awaitReplies_eq s.delay replies
    rw [hr]
    exact .inl (h.kept rfl h.guard rfl s.bads)
  | stallTick cap' elapsed =>
    obtain rfl : cap' = cap := ha
    rw [Watched.step] at hstep
    split at hstep
    · obtain rfl := Option.some.inj hstep
      exact .inl h
    · obtain ⟨d, hstall, hstep⟩ := Option.bind_eq_some_iff.mp hstep
      have hticked := UserDelay.stall_ticked hstall
      have hguard := hticked.guard.trans h.guard
      obtain rfl := Option.some.inj hstep
      split
      · next hfirst =>
        obtain ⟨hgood, -, hlevel⟩ := hticked.first hfirst
        exact .inl (h.reduced hlevel hguard hgood)
      · next hlater =>
        obtain ⟨hgood, -, hlevel⟩ := hticked.later (Option.isSome_iff_ne_none.mpr hlater)
        exact .inl (h.kept hlevel hguard hgood s.bads)
  | reply cap' lowFps normalFps delay bitrateFirst =>
    obtain rfl : cap' = cap := ha
    obtain ⟨d₁, hopened, -, hreplied⟩ := step_reply hstep
    have hguard : d₁.samplesSinceRestore = none := hopened.guard.trans h.guard
    cases hreplied with
    | good fps hgood hrecover hd ht => exact h.good hopened hrecover hd ht
    | bad hbad hcounted hd =>
      obtain ⟨samples, rfl⟩ := hd
      obtain ⟨hlevel, hguard⟩ := hcounted.level hguard
      exact .inl (h.kept (hlevel.trans hopened.level) hguard (hcounted.good.trans hopened.good)
        (s.bads + 1))
    | reduced fps hbad hcounted hfloor hlt hconfirmed hd =>
      obtain ⟨samples, rfl⟩ := hd
      obtain ⟨hlevel, hguard⟩ := hcounted.level hguard
      refine .inl (h.reduced ?_ hguard rfl)
      exact (onReduction_level _ _).trans (by rw [hlevel, hopened.level])

/-- The viewer is within its limit, and so was the rate at the first reduction. -/
def Within (cap : ℕ) (s : Watched) : Prop :=
  (∀ t ∈ s.delay.fps, t ≤ cap) ∧ ∀ level ∈ s.level, level ≤ cap

theorem Within.current (h : s.Within cap) : s.delay.current cap ≤ cap := by
  rw [UserDelay.current]
  cases hfps : s.delay.fps with
  | none => exact Nat.min_le_right _ _
  | some t => exact h.1 t hfps

/-- A constant limit is kept. -/
theorem Within.step (h : s.Within cap) (hcap : minFps ≤ cap) (ha : a.AtCap cap)
    (hstep : s.step F a = some s') : s'.Within cap := by
  have hreduced : ∀ d : UserDelay, (∀ t ∈ d.fps, t ≤ cap) →
      (s.reduced d (s.delay.current cap)).Within cap := by
    refine fun d hd => ⟨hd, ?_⟩
    intro level hlevel
    obtain rfl := Option.some.inj hlevel
    cases hl : s.level with
    | none => exact h.current
    | some level => exact h.2 level hl
  cases a with
  | awaitReplies replies =>
    obtain rfl := Option.some.inj hstep
    obtain ⟨r, hr⟩ := awaitReplies_eq s.delay replies
    rw [hr]
    exact h
  | stallTick cap' elapsed =>
    obtain rfl : cap' = cap := ha
    rw [Watched.step] at hstep
    split at hstep
    · obtain rfl := Option.some.inj hstep
      exact h
    · obtain ⟨d, hstall, hstep⟩ := Option.bind_eq_some_iff.mp hstep
      obtain ⟨t, ht, hle⟩ := (UserDelay.stall_ticked hstall).fps
      have hd : ∀ x ∈ d.fps, x ≤ cap' := by
        rw [ht]
        simpa using hle
      obtain rfl := Option.some.inj hstep
      split
      · exact hreduced d hd
      · exact ⟨hd, h.2⟩
  | reply cap' lowFps normalFps delay bitrateFirst =>
    obtain rfl : cap' = cap := ha
    obtain ⟨⟨d, reduceBitrate⟩, hreply, hstep⟩ := Option.bind_eq_some_iff.mp hstep
    obtain ⟨excess, -, hstep⟩ := Option.bind_eq_some_iff.mp hstep
    obtain rfl := Option.some.inj hstep
    obtain ⟨_, _, _, t, -, -, -, hmove, rfl⟩ := UserDelay.reply_move hreply
    have hd : ∀ x ∈ some t, x ≤ cap' := by
      intro x hx
      obtain rfl := Option.some.inj hx
      exact UserDelay.move_le hcap hmove
    split
    · exact ⟨hd, h.2⟩
    · split
      · exact hreduced _ hd
      · exact ⟨hd, h.2⟩

/-- **Two good replies bring back the level held before the first reduction**, however many
reductions have been stacked up. -/
theorem congestion_recovers {d : UserDelay} {as : List Act} {level : ℕ}
    (hlevel : d.fpsBeforeCongestion = none) (hguard : d.samplesSinceRestore = none)
    (hcap : minFps ≤ cap) (hat : ∀ a ∈ as, a.AtCap cap)
    (hfew : Along (step F) (fun s _ => s.level.isSome = true → s.goods < 2) (start d) as)
    (hrun : exec (step F) (start d) as = some s) (hfirst : s.level = some level)
    (hgoods : s.goods = 2) : min level cap ≤ s.delay.current cap ∧ ((∀ t ∈ d.fps, t ≤ cap) →
      level ≤ s.delay.current cap) := by
  have hepisode : (s.Open ∨ s.Restored cap) := by
    have hopen : (start d).Open := ⟨hlevel, hguard⟩
    have hboth := along_and (along_of_forall (fun a ha _ => hat a ha) (start d)) hfew
    refine exec_invariant_along (I := fun s : Watched => s.Open ∨ s.Restored cap) ?_ (.inl hopen)
      hboth hrun
    rintro s a s' (hs | ⟨htwo, level, hsome, -⟩) ⟨ha, hfew⟩ hstep
    · exact hs.step ha hstep
    · -- the second good reply was the last event
      have hlt := hfew (Option.isSome_iff_exists.mpr ⟨level, hsome⟩)
      omega
  obtain hopen | ⟨-, level', hsome, hmin⟩ := hepisode
  · rw [Open, hfirst] at hopen
    omega
  · obtain rfl := Option.some.inj (hfirst.symm.trans hsome)
    refine ⟨hmin, fun hd => ?_⟩
    have hwithin : s.Within cap := by
      refine exec_invariant_along (I := Within cap) (C := fun _ a => a.AtCap cap)
        ?_ ⟨hd, by simp [start]⟩
        (along_of_forall (fun a ha _ => hat a ha) (start d)) hrun
      exact fun _ _ _ hI hC hstep => hI.step hcap hC hstep
    have hle := hwithin.2 level hfirst
    omega

/-- A viewer at the default rate. -/
def steadyViewer : UserDelay :=
  ⟨0, [10], some 30, ⟨some 10, [10]⟩, 0, 0, 0, 0, 0, none, none, none, none, 0⟩

/-- Two urgent replies and two stalls, each before a second good reply. -/
def stackedRun : List Act :=
  [.reply 30 10 20 1500 false, .reply 30 10 20 1500 false, .stallTick 30 3000, .stallTick 30 4000,
    .reply 30 10 20 10 false,
    .stallTick 30 5000, .awaitReplies 0, .reply 30 10 20 10 false, .reply 30 10 20 300 false,
      .reply 30 10 20 10 false]

theorem congestion_recovers_stacked :
    ∃ s, exec (step Qos.exactF32) (start steadyViewer) stackedRun = some s ∧ s.level = some 30 ∧
      30 ≤ s.delay.current 30 := by
  have hrun : ((exec (step Qos.exactF32) (start steadyViewer) stackedRun).any fun s =>
      decide (s.level = some 30 ∧ s.goods = 2)) = true := by decide +kernel
  obtain ⟨s, hs, hp⟩ := (Option.any_eq_true _ _).mp hrun
  obtain ⟨hlevel, hgoods⟩ := of_decide_eq_true hp
  have hfew : Along (step Qos.exactF32) (fun s _ => s.level.isSome = true → s.goods < 2)
      (start steadyViewer) stackedRun := by
    decide +kernel
  exact ⟨s, hs, hlevel, (congestion_recovers rfl rfl (by decide) (by decide)
    hfew hs hlevel hgoods).2 (by decide)⟩

end Watched

/-! ## The viewers of a controller -/

namespace Qos

variable {R : Type} {F : F32 R} {q q' : Qos R} {P : UserDelay → Prop}

/-- What a change of the ratio leaves of the delays of the viewers. -/
theorem changeRatio_delays (hawait : ∀ d replies, P d → P (awaitReplies d replies))
    (hq : ∀ u ∈ q.users, P u.2.delay) {dynamicScreen : Bool} {now maxDelay : ℕ}
    {reduction : Option R} (h : q.changeRatio F dynamicScreen now maxDelay reduction = some q') :
    ∀ u ∈ q'.users, P u.2.delay := by
  obtain ⟨ratioAdd150kbps, -, h⟩ := Option.bind_eq_some_iff.mp h
  obtain rfl := Option.some.inj h
  intro u hu
  dsimp only [resetSendCounters] at hu
  split at hu
  · obtain ⟨v, hv, rfl⟩ := List.mem_map.mp hu
    exact hawait _ _ (hq v hv)
  · exact hq u hu

theorem adjustRatio_delays (hawait : ∀ d replies, P d → P (awaitReplies d replies))
    (hq : ∀ u ∈ q.users, P u.2.delay) {dynamicScreen : Bool} {now : ℕ}
    (h : q.adjustRatio F dynamicScreen now = some q') : ∀ u ∈ q'.users, P u.2.delay := by
  rw [adjustRatio] at h
  split at h
  · obtain ⟨delays, -, h⟩ := Option.bind_eq_some_iff.mp h
    split at h
    · obtain rfl := Option.some.inj h
      exact hq
    · obtain ⟨reductions, -, h⟩ := Option.bind_eq_some_iff.mp h
      split at h
      · split at h
        · obtain rfl := Option.some.inj h
          exact hq
        · exact changeRatio_delays hawait hq h
      · exact changeRatio_delays hawait hq h
  · obtain rfl := Option.some.inj h
    exact hq

theorem adjustRatioIf_delays (hawait : ∀ d replies, P d → P (awaitReplies d replies))
    (hq : ∀ u ∈ q.users, P u.2.delay) {reason : Bool} {now : ℕ}
    (h : q.adjustRatioIf F reason now = some q') : ∀ u ∈ q'.users, P u.2.delay := by
  rw [adjustRatioIf] at h
  split at h
  · exact adjustRatio_delays hawait hq h
  · obtain rfl := Option.some.inj h
    exact hq

/-- A reply of one viewer. -/
theorem userNetworkDelay_delays (hawait : ∀ d replies, P d → P (awaitReplies d replies))
    (hreply : ∀ d cap lowFps normalFps delay bitrateFirst d' reduceBitrate, P d →
      d.reply F cap lowFps normalFps delay bitrateFirst = some (d', reduceBitrate) → P d')
    (hq : ∀ u ∈ q.users, P u.2.delay) {id : ℤ} {delay now : ℕ}
    (h : q.userNetworkDelay F id delay now = some q') : ∀ u ∈ q'.users, P u.2.delay := by
  simp only [userNetworkDelay] at h
  split at h
  · obtain rfl := Option.some.inj h
    exact hq
  · next user hu =>
    obtain ⟨v, hv, rfl⟩ := user?_mem hu
    obtain ⟨⟨d, reduceBitrate⟩, hd, h⟩ := Option.bind_eq_some_iff.mp h
    obtain ⟨q₁, h₁, h⟩ := Option.bind_eq_some_iff.mp h
    have hnew := hreply _ _ _ _ _ _ _ _ (hq v hv) hd
    have hmoved :
      ∀ u ∈ ((q.withUser id fun user => { user with delay := d }).adjustFps now).users,
        P u.2.delay :=
      withUser_users (P := fun user => P user.delay) (f := fun user => { user with delay := d })
        hq fun _ _ => hnew
    exact adjustRatioIf_delays hawait (adjustRatioIf_delays hawait hmoved h₁) h

/-- A stall tick of one viewer. -/
theorem userDelayResponseElapsed_delays
    (hstall : ∀ d cap elapsed d', 2000 < elapsed → P d → d.stall cap elapsed = some d' → P d')
    (hq : ∀ u ∈ q.users, P u.2.delay) {id : ℤ} {elapsed now : ℕ}
    (h : q.userDelayResponseElapsed id elapsed now = some q') : ∀ u ∈ q'.users, P u.2.delay := by
  simp only [userDelayResponseElapsed] at h
  split at h
  · obtain rfl := Option.some.inj h
    exact hq
  · next user hu =>
    split at h
    · obtain rfl := Option.some.inj h
      exact hq
    · next hlate =>
      obtain ⟨v, hv, rfl⟩ := user?_mem hu
      obtain ⟨d, hd, h⟩ := Option.bind_eq_some_iff.mp h
      obtain rfl := Option.some.inj h
      have hnew := hstall _ _ _ _ (Nat.lt_of_not_le hlate) (hq v hv) hd
      exact withUser_users (P := fun user => P user.delay)
        (f := fun user => { user with delay := d }) hq fun _ _ => hnew

/-- **The rule for the delays of the viewers**: what a viewer that joins has, and what its replies,
its stall ticks and the reductions of the bitrate keep, every operation keeps. -/
theorem step_delays (linux : Bool) (hempty : P .empty)
    (hawait : ∀ d replies, P d → P (awaitReplies d replies))
    (hreply : ∀ d cap lowFps normalFps delay bitrateFirst d' reduceBitrate, P d →
      d.reply F cap lowFps normalFps delay bitrateFirst = some (d', reduceBitrate) → P d')
    (hstall : ∀ d cap elapsed d', 2000 < elapsed → P d → d.stall cap elapsed = some d' → P d')
    (hq : ∀ u ∈ q.users, P u.2.delay) {op : Op} (h : step F linux q op = some q') :
    ∀ u ∈ q'.users, P u.2.delay := by
  have hsame : ∀ {id : ℤ} {f : UserData R → UserData R}, (∀ user, (f user).delay = user.delay) →
      ∀ u ∈ (q.withUser id f).users, P u.2.delay :=
    fun hf => withUser_users (P := fun user => P user.delay) hq fun user huser =>
      (hf user).symm ▸ huser
  cases op with
  | onConnectionOpen id now abr =>
    obtain rfl := Option.some.inj h
    intro u hu
    rcases List.mem_append.mp hu with hu | hu
    · exact hq u (List.mem_of_mem_filter hu)
    · rw [List.mem_singleton.mp hu]
      exact hempty
  | onConnectionClose id now =>
    obtain rfl := Option.some.inj h
    rw [onConnectionClose]
    split
    · simp [default]
    · exact fun u hu => hq u (List.mem_of_mem_filter hu)
  | userCustomFps id fps | userAutoAdjustFps id fps =>
    rw [step] at h
    split at h
    · obtain rfl := Option.some.inj h
      exact hq
    · obtain rfl := Option.some.inj h
      exact hsame fun _ => rfl
  | userImageQuality id imageQuality time =>
    rw [step] at h
    split at h
    · obtain rfl := Option.some.inj h
      exact hq
    · obtain rfl := Option.some.inj h
      exact hsame (f := fun user =>
        { user with quality := some (time, convertQuality F imageQuality) }) fun _ => rfl
  | userNetworkDelay id delay now => exact userNetworkDelay_delays hawait hreply hq h
  | userDelayResponseElapsed id elapsed now => exact userDelayResponseElapsed_delays hstall hq h
  | updateDisplayData name sendCounter now =>
    simp only [step, updateDisplayData] at h
    have hcounted :
      ∀ u ∈ ((q.withDisplay name fun d => { d with
        sendCounter := d.sendCounter + sendCounter }).adjustFps
        now).users, P u.2.delay := hq
    split at h
    · split at h
      · exact adjustRatio_delays hawait hcounted h
      · obtain rfl := Option.some.inj h
        exact hq
    · obtain rfl := Option.some.inj h
      exact hq
  | readRatio =>
    obtain rfl := Option.some.inj h
    split
    · exact hq
    · exact hq
  | rehash before =>
    obtain rfl := Option.some.inj h
    exact fun u hu => hq u (List.mem_mergeSort.mp hu)
  | adjustFps now | newDisplay name | removeDisplay name | setSupportChangingQuality name support
    | storeBitrate bitrate =>
    obtain rfl := Option.some.inj h
    exact hq

/-- A run of its own events leads to the state of the viewer. -/
def Reached (F : F32 R) (d : UserDelay) : Prop :=
  ∃ as s, exec (Watched.step F) (.start .empty) as = some s ∧ s.delay = d

theorem Reached.step {d : UserDelay} (h : Reached F d) {a : Watched.Act} {d' : UserDelay}
    (hstep : ∀ s : Watched, s.delay = d → ∃ s', s.step F a = some s' ∧ s'.delay = d') :
    Reached F d' := by
  obtain ⟨as, s, hrun, hd⟩ := h
  obtain ⟨s', hs', hd'⟩ := hstep s hd
  exact ⟨as ++ [a], s', exec_append.mpr ⟨s, hrun, exec_cons.mpr ⟨s', hs', rfl⟩⟩, hd'⟩

/-- Every viewer of a controller is in a state that a run of its own events reaches. -/
theorem watched_of_run (linux : Bool) (now : ℕ) {ops : List Op}
    (h : exec (step F linux) (default F linux now) ops = some q) :
    ∀ u ∈ q.users, Reached F u.2.delay := by
  refine exec_invariant (I := fun q : Qos R => ∀ u ∈ q.users, Reached F u.2.delay)
    ?_ (by simp [default]) h
  intro q op q' hq hstep
  refine step_delays linux ⟨[], _, rfl, rfl⟩ ?_ ?_ ?_ hq hstep
  · exact fun d replies hd => hd.step (a := .awaitReplies replies) fun s hs =>
      ⟨_, rfl, by rw [← hs]⟩
  · intro d cap lowFps normalFps delay bitrateFirst d' reduceBitrate hd hreply
    refine hd.step (a := .reply cap lowFps normalFps delay bitrateFirst) fun s hs => ?_
    obtain ⟨d₁, d₂, fps, t, -, hexcess, -⟩ := UserDelay.reply_move hreply
    rw [Watched.step, hs, hreply, hexcess]
    refine ⟨_, rfl, ?_⟩
    split
    · rfl
    · split
      · rfl
      · rfl
  · intro d cap elapsed d' hlate hd hstall
    refine hd.step (a := .stallTick cap elapsed) fun s hs => ?_
    rw [Watched.step, if_neg (Nat.not_le.mpr hlate), hs, hstall]
    refine ⟨_, rfl, ?_⟩
    split
    · rfl
    · rfl

end Qos

end VideoQos
end BgDesk
