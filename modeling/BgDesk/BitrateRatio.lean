import Mathlib.Tactic.Linarith
import Mathlib.Tactic.NormNum
import Mathlib.Algebra.Order.Field.Rat
import BgDesk.FrameRate

/-!
# The ratio of the bitrate

`adjust_ratio` of `video_qos.rs`, over exact numbers. When a viewer calls for a reduction the ratio
is to come down, but it is clamped to a floor that follows the latest quality and the stored
bitrate, and the ratio may be below that floor.

* `Qos.Sound` — the range of the ratio and of the qualities, in every state of a controller;
* `Qos.adjustments` — the calls of `adjust_ratio` that an operation makes, and that a reply changes
  the ratio in no other way;
* `Qos.minRatio_le_targetRatio` — the clamp has its bounds in order;
* `Qos.AboveFloor`, `Qos.minRatio_le_ratio_iff` — when the floor lets a reduction reduce;
* `Qos.adjustment_reduces_iff` — the same for every call in every run.
-/

namespace BgDesk
namespace VideoQos

/-- A fold that keeps what it has or takes the next element ends with what it had or with an
element. -/
theorem mem_of_foldl_eq_some {α : Type} {f : Option α → α → Option α}
    (hf : ∀ latest x, f latest x = latest ∨ f latest x = some x) {l : List α} {start : Option α}
    {y : α} (h : l.foldl f start = some y) : start = some y ∨ y ∈ l := by
  induction l generalizing start with
  | nil => exact .inl h
  | cons x l ih =>
    rcases ih h with hstart | hy
    · rcases hf start x with hx | hx
      · exact .inl (hx.symm.trans hstart)
      · obtain rfl := Option.some.inj (hx.symm.trans hstart)
        exact .inr List.mem_cons_self
    · exact .inr (List.mem_cons_of_mem x hy)

namespace Qos

section Adjustments

variable {R : Type} (F : F32 R)

/-- The calls of `adjust_ratio` that an operation makes, each with the state it is made in. -/
def adjustments (q : Qos R) : Op → List (Qos R × Bool × ℕ)
  | .userNetworkDelay id delay now =>
    match q.user? id with
    | none => []
    | some user =>
      let (lowFps, normalFps) := qualityFps F (qualityRatio F q.latestQuality)
      match user.delay.reply F user.fpsCap lowFps normalFps delay (q.canReduceBitrate F) with
      | none => []
      | some (d, reduceBitrate) =>
        let q₁ := (q.withUser id fun user => { user with delay := d }).adjustFps now
        let first := user.delay.fps.isNone && q₁.firstReplyAdjustsRatio
        (if first && q₁.cooledDown now then [(q₁, false, now)] else []) ++
          match q₁.adjustRatioIf F first now with
          | none => []
          | some q₂ => if reduceBitrate && q₂.cooledDown now then [(q₂, false, now)] else []
  | .updateDisplayData name sendCounter now =>
    let q₁ :=
      (q.withDisplay name fun d => { d with sendCounter := d.sendCounter + sendCounter }).adjustFps
        now
    if q₁.inVbrState && q₁.cooledDown now then
      [(q₁, q₁.displays.any fun d =>
        decide (adjustRatioInterval * dynamicScreenThreshold ≤ d.2.sendCounter), now)]
    else []
  | _ => []

/-- A viewer calls for a reduction: its `ratio_reduction` is a factor. -/
def Called (q : Qos R) : Prop :=
  ∃ u ∈ q.users, ∃ factor, u.2.delay.ratioReduction F = some (some factor)

/-- A call of `adjust_ratio` comes to the clamp: a viewer calls for a reduction, or there are
viewers and all are below the threshold. -/
def Clamps (q : Qos R) : Prop :=
  q.Called F ∨ q.users ≠ [] ∧ ∀ u ∈ q.users, ∀ delay ∈ u.2.delay.avgDelay,
    delay < delayThreshold150ms

end Adjustments

variable {q q' : Qos ℚ}

/-! ## The range -/

/-- The ratio and the qualities that viewers have asked for are not below their least values. -/
structure Sound (q : Qos ℚ) : Prop where
  ratio : 1 / 10 ≤ q.ratio
  custom : ∀ u ∈ q.users, ∀ time v, u.2.quality = some (time, .custom v) → 1 / 5 ≤ v

/-- The latest quality is that of a viewer, or the default. -/
theorem latestQuality_cases (q : Qos ℚ) : q.latestQuality = .balanced ∨ ∃ u ∈ q.users, ∃ time,
      u.2.quality = some (time, q.latestQuality) := by
  unfold latestQuality
  split
  · exact .inl rfl
  · next quality h =>
    have hmem : quality ∈ q.users.filterMap (·.2.quality) := by
      refine (mem_of_foldl_eq_some (fun latest x => ?_) h).resolve_left nofun
      cases latest with
      | none => exact .inr rfl
      | some best => exact ite_eq_or_eq _ _ _
    obtain ⟨u, hu, hquality⟩ := List.mem_filterMap.mp hmem
    exact .inr ⟨u, hu, quality.1, hquality⟩

/-- `target_ratio` -/
def targetRatio (q : Qos ℚ) : ℚ := qualityRatio exactF32 q.latestQuality

/-- The ratio of a quality is at least the least ratio. -/
theorem Sound.targetRatio_ge (h : q.Sound) : 1 / 5 ≤ q.targetRatio := by
  rw [targetRatio]
  cases hlatest : q.latestQuality with
  | best => norm_num [qualityRatio, brBest, exactF32]
  | balanced => norm_num [qualityRatio, brBalanced, exactF32]
  | low => norm_num [qualityRatio, brSpeed, exactF32]
  | custom v =>
    rcases latestQuality_cases q with hbalanced | ⟨u, hu, time, hquality⟩
    · simp [hlatest] at hbalanced
    · rw [hlatest] at hquality
      exact h.custom u hu time v hquality

/-- The ratio for a megabit a second. -/
def megabit (q : Qos ℚ) : Option ℚ :=
  if 0 < q.bitrateStore then some (max (q.ratio * 1000 / q.bitrateStore) (1 / 10)) else none

theorem minRatio_eq (q : Qos ℚ) : q.minRatio exactF32 = match q.latestQuality with
      | .best => max (atMost exactF32 (3 / 5) q.megabit) (1 / 5)
      | .balanced => max (atMost exactF32 (67 / 200) q.megabit) (1 / 10)
      | .low | .custom _ => 1 / 10 := by
  have hbest : exactF32.div (brBest exactF32) (exactF32.lit (5 / 2)) = 3 / 5 := by
    norm_num [brBest, exactF32]
  have hbalanced : exactF32.min (exactF32.div (brBalanced exactF32) (exactF32.lit 2))
      (exactF32.lit (4 / 10)) = 67 / 200 := by
    norm_num [brBalanced, exactF32]
  rw [minRatio, hbest, hbalanced]
  cases q.latestQuality <;> rfl

/-- The floor is never below the least ratio for high resolutions. -/
theorem minRatio_ge (q : Qos ℚ) : 1 / 10 ≤ q.minRatio exactF32 := by
  rw [minRatio_eq]
  cases q.latestQuality with
  | best => exact le_max_of_le_right (by norm_num)
  | balanced => exact le_max_right _ _
  | low => exact le_rfl
  | custom v => exact le_rfl

theorem atMost_eq (least : ℚ) (ratio1mbps : Option ℚ) :
    atMost exactF32 least ratio1mbps = ratio1mbps.elim least (min least) := by
  cases ratio1mbps with
  | none => rfl
  | some ratio1mbps =>
    by_cases hlt : ratio1mbps < least
    · exact (if_pos (decide_eq_true hlt)).trans (min_eq_right hlt.le).symm
    · exact (if_neg (by simpa [exactF32] using hlt)).trans (min_eq_left (not_lt.mp hlt)).symm

theorem atMost_le (least : ℚ) (ratio1mbps : Option ℚ) :
    atMost exactF32 least ratio1mbps ≤ least := by
  rw [atMost_eq]
  cases ratio1mbps with
  | none => exact le_rfl
  | some ratio1mbps => exact min_le_left _ _

/-- **The clamp has its bounds in order.** -/
theorem Sound.minRatio_le_targetRatio (h : q.Sound) : q.minRatio exactF32 ≤ q.targetRatio := by
  have htarget := h.targetRatio_ge
  rw [minRatio_eq]
  rw [targetRatio] at htarget ⊢
  cases hlatest : q.latestQuality with
  | best =>
    exact max_le ((atMost_le _ _).trans (by norm_num [qualityRatio, brBest, exactF32]))
      (hlatest ▸ htarget)
  | balanced =>
    refine max_le ((atMost_le _ _).trans (by norm_num [qualityRatio, brBalanced, exactF32])) ?_
    norm_num [qualityRatio, brBalanced, exactF32]
  | low => norm_num [qualityRatio, brSpeed, exactF32]
  | custom v =>
    rw [hlatest] at htarget
    exact le_trans (by norm_num) htarget

/-! ## The floor and the ratio -/

/-- The ratio is not below the floor of the latest quality: the ratio of that quality divided, or
that of a megabit a second. -/
def AboveFloor (q : Qos ℚ) : Prop :=
  match q.latestQuality with
  | .best => 1 / 5 ≤ q.ratio ∧ (3 / 5 ≤ q.ratio ∨ 1000 ≤ q.bitrateStore)
  | .balanced => 67 / 200 ≤ q.ratio ∨ 1000 ≤ q.bitrateStore
  | .low | .custom _ => True

/-- The lower of the two is at most the ratio if one of them is; the megabit is if the bitrate is at
least that. -/
theorem atMost_le_ratio_iff (hratio : 1 / 10 ≤ q.ratio) (least : ℚ) :
    atMost exactF32 least q.megabit ≤ q.ratio ↔ least ≤ q.ratio ∨ 1000 ≤ q.bitrateStore := by
  rw [atMost_eq, megabit]
  by_cases hbitrate : 0 < q.bitrateStore
  · have hpos : (0 : ℚ) < q.bitrateStore := by exact_mod_cast hbitrate
    have hmegabit : max (q.ratio * 1000 / q.bitrateStore) (1 / 10) ≤ q.ratio ↔
        1000 ≤ q.bitrateStore := by
      rw [max_le_iff, div_le_iff₀ hpos, and_iff_left hratio, mul_le_mul_iff_right₀ (by linarith)]
      exact_mod_cast Iff.rfl
    rw [if_pos hbitrate, Option.elim_some, min_le_iff, hmegabit]
  · rw [if_neg hbitrate, Option.elim_none]
    exact ⟨.inl, fun h => h.resolve_right (by omega)⟩

/-- The floor is at most the ratio exactly when the ratio is above the floor of its quality. -/
theorem Sound.minRatio_le_ratio_iff (h : q.Sound) :
    q.minRatio exactF32 ≤ q.ratio ↔ q.AboveFloor := by
  rw [minRatio_eq, AboveFloor]
  cases q.latestQuality with
  | best =>
    exact max_le_iff.trans (and_comm.trans (and_congr_right fun _ => atMost_le_ratio_iff h.ratio _))
  | balanced =>
    exact max_le_iff.trans ((and_iff_left h.ratio).trans (atMost_le_ratio_iff h.ratio _))
  | low => exact iff_true_intro h.ratio
  | custom v => exact iff_true_intro h.ratio

/-! ## What a call does -/

/-- Every factor of a reduction is below one. -/
theorem ratioReduction_lt {d : UserDelay} {factor : ℚ}
    (h : d.ratioReduction exactF32 = some (some factor)) : factor < 1 := by
  rw [UserDelay.ratioReduction] at h
  split at h
  · obtain ⟨excess, -, h⟩ := Option.bind_eq_some_iff.mp h
    obtain rfl := Option.some.inj (Option.some.inj h)
    simp only [exactF32]
    split_ifs <;> norm_num
  · simp at h

theorem foldl_min_lt {bound : ℚ} {rest : List ℚ} {first : ℚ} (h : first < bound) :
    rest.foldl min first < bound := by
  induction rest generalizing first with
  | nil => exact h
  | cons x rest ih => exact ih (min_lt_of_left_lt h)

variable {dynamicScreen : Bool} {now : ℕ}

/-- A call leaves the ratio alone, or it clamps; with a factor below one when a viewer calls for a
reduction. -/
theorem adjustRatio_cases (h : q.adjustRatio exactF32 dynamicScreen now = some q') :
    (q'.ratio = q.ratio ∧ q'.users = q.users ∧ (q.inVbrState = true → ¬q.Clamps exactF32)) ∨
    ∃ maxDelay reduction, q.changeRatio exactF32 dynamicScreen now maxDelay reduction = some q' ∧
      (q.Called exactF32 → ∃ factor < 1, reduction = some factor) := by
  rw [adjustRatio] at h
  split at h
  · obtain ⟨delays, hdelays, h⟩ := Option.bind_eq_some_iff.mp h
    obtain ⟨hfrom, hto⟩ := mem_of_mapM_eq_some hdelays
    split at h
    · next hmax =>
      obtain rfl := Option.some.inj h
      refine .inl ⟨rfl, rfl, fun _ hclamps => ?_⟩
      have hempty : ∀ u, u ∉ q.users := by
        intro u hu
        obtain ⟨delay, hdelay, -⟩ := hto u hu
        rw [List.max?_eq_none_iff.mp hmax] at hdelay
        exact List.not_mem_nil hdelay
      rcases hclamps with ⟨u, hu, -⟩ | ⟨hne, -⟩
      · exact hempty u hu
      · exact hne (List.eq_nil_iff_forall_not_mem.mpr hempty)
    · next maxDelay hmax =>
      obtain ⟨reductions, hreductions, h⟩ := Option.bind_eq_some_iff.mp h
      obtain ⟨hfrom', hto'⟩ := mem_of_mapM_eq_some hreductions
      split at h
      · next hnone =>
        have hcalled : ¬q.Called exactF32 := by
          rintro ⟨u, hu, factor, hfactor⟩
          obtain ⟨r, hr, hur⟩ := hto' u hu
          obtain rfl := Option.some.inj (hur.symm.trans hfactor)
          have hmem : factor ∈ reductions.filterMap id :=
            List.mem_filterMap.mpr ⟨some factor, hr, rfl⟩
          rw [hnone] at hmem
          exact List.not_mem_nil hmem
        split at h
        · next helevated =>
          obtain rfl := Option.some.inj h
          refine .inl ⟨rfl, rfl, fun _ hclamps => ?_⟩
          obtain ⟨-, hbelow⟩ := hclamps.resolve_left hcalled
          obtain ⟨u, hu, hdelay⟩ := hfrom maxDelay (List.max?_mem hmax)
          exact absurd (hbelow u hu maxDelay hdelay) (Nat.not_lt.mpr helevated)
        · exact .inr ⟨maxDelay, none, h, fun hc => absurd hc hcalled⟩
      · next first rest hsome =>
        refine .inr ⟨maxDelay, _, h, fun _ => ⟨_, ?_, rfl⟩⟩
        have hmem : first ∈ reductions.filterMap id := hsome ▸ List.mem_cons_self
        obtain ⟨r, hr, hfirst⟩ := List.mem_filterMap.mp hmem
        obtain ⟨u, -, hu⟩ := hfrom' r hr
        exact foldl_min_lt (ratioReduction_lt (hu.trans (congrArg some hfirst)))
  · next hvbr =>
    obtain rfl := Option.some.inj h
    exact .inl ⟨rfl, rfl, fun h => absurd h hvbr⟩

/-- What a clamp leaves: a ratio in the bounds, that follows from what `adjust_ratio` aims at, and
the qualities. -/
theorem changeRatio_eq {maxDelay : ℕ} {reduction : Option ℚ}
    (h : q.changeRatio exactF32 dynamicScreen now maxDelay reduction = some q') :
    (∃ ratioAdd150kbps, q'.ratio = max (q.minRatio exactF32)
      (min (q.nextRatio exactF32 dynamicScreen maxDelay reduction ratioAdd150kbps) q.targetRatio)) ∧
      ∀ u ∈ q'.users, ∃ v ∈ q.users, u.2.quality = v.2.quality := by
  obtain ⟨ratioAdd150kbps, -, h⟩ := Option.bind_eq_some_iff.mp h
  obtain rfl := Option.some.inj h
  refine ⟨⟨ratioAdd150kbps, ?_⟩, ?_⟩
  · have hmost : exactF32.mul (qualityRatio exactF32 q.latestQuality) (maxBrMultiple exactF32) =
        q.targetRatio := mul_one _
    rw [← hmost]
    rfl
  · intro u hu
    dsimp only [resetSendCounters] at hu
    split at hu
    · obtain ⟨v, hv, rfl⟩ := List.mem_map.mp hu
      exact ⟨v, hv, rfl⟩
    · exact ⟨u, hu, rfl⟩

/-- A factor below one is aimed below the ratio, and the rule for a slow increase does not apply to
it. -/
theorem nextRatio_reduced (hratio : 0 ≤ q.ratio) {factor : ℚ} (hfactor : factor < 1)
    (dynamicScreen : Bool) (maxDelay : ℕ) (ratioAdd150kbps : Option ℚ) :
    q.nextRatio exactF32 dynamicScreen maxDelay (some factor) ratioAdd150kbps ≤ q.ratio := by
  have hlower : q.ratio * factor ≤ q.ratio := mul_le_of_le_one_right hratio hfactor.le
  cases ratioAdd150kbps with
  | none => exact hlower
  | some ratioAdd150kbps =>
    refine le_of_eq_of_le (if_neg fun hslow => ?_) hlower
    simp only [exactF32, Bool.and_eq_true, decide_eq_true_eq] at hslow
    exact absurd (hslow.1.1.trans_le hlower) hslow.1.2.not_gt

/-- What is promised of a call of `adjust_ratio` that took `q` to `q'`: a reduction that a viewer
calls for does not raise the ratio, the bounds of the clamp are in order, and what is clamped lies
between them. -/
structure Adjusts (q q' : Qos ℚ) : Prop where
  reduces : q.Called exactF32 → q'.ratio ≤ q.ratio
  ordered : q.minRatio exactF32 ≤ q.targetRatio
  between : q.Clamps exactF32 → q.minRatio exactF32 ≤ q'.ratio ∧ q'.ratio ≤ q.targetRatio

theorem Sound.clamped (h : q.Sound) (hvbr : q.inVbrState = true)
    (hcall : q.adjustRatio exactF32 dynamicScreen now = some q') (hclamps : q.Clamps exactF32) :
    q.minRatio exactF32 ≤ q'.ratio ∧ q'.ratio ≤ q.targetRatio := by
  rcases adjustRatio_cases hcall with ⟨-, -, hnot⟩ | ⟨maxDelay, reduction, hchange, -⟩
  · exact absurd hclamps (hnot hvbr)
  · obtain ⟨⟨ratioAdd150kbps, hratio⟩, -⟩ := changeRatio_eq hchange
    rw [hratio]
    exact ⟨le_max_left _ _, max_le h.minRatio_le_targetRatio (min_le_right _ _)⟩

/-- A call does what is promised of it exactly when the ratio is above the floor where a viewer
calls for a reduction. -/
theorem Sound.adjusts_iff (h : q.Sound) (hvbr : q.inVbrState = true)
    (hcall : q.adjustRatio exactF32 dynamicScreen now = some q') :
    q.Adjusts q' ↔ (q.Called exactF32 → q.AboveFloor) := by
  rw [← h.minRatio_le_ratio_iff]
  constructor
  · intro hadjusts hcalled
    exact (h.clamped hvbr hcall (.inl hcalled)).1.trans (hadjusts.reduces hcalled)
  · intro habove
    refine ⟨fun hcalled => ?_, h.minRatio_le_targetRatio, h.clamped hvbr hcall⟩
    rcases adjustRatio_cases hcall with ⟨hratio, -⟩ | ⟨maxDelay, reduction, hchange, hreduction⟩
    · exact hratio.le
    · obtain ⟨⟨ratioAdd150kbps, hratio⟩, -⟩ := changeRatio_eq hchange
      obtain ⟨factor, hfactor, rfl⟩ := hreduction hcalled
      rw [hratio]
      exact max_le (habove hcalled)
        ((min_le_left _ _).trans (nextRatio_reduced (by linarith [h.ratio]) hfactor _ _ _))

/-! ## Every run -/

/-- The range is kept by a ratio above the least and by viewers with the qualities there were. -/
theorem Sound.kept (h : q.Sound) (hratio : 1 / 10 ≤ q'.ratio)
    (hquality : ∀ u ∈ q'.users, ∃ v ∈ q.users, u.2.quality = v.2.quality) : q'.Sound := by
  refine ⟨hratio, fun u hu time v hcustom => ?_⟩
  obtain ⟨w, hw, hsame⟩ := hquality u hu
  exact h.custom w hw time v (hsame.symm.trans hcustom)

theorem Sound.same (h : q.Sound) (hratio : q'.ratio = q.ratio) (husers : q'.users = q.users) :
    q'.Sound :=
  h.kept (hratio.symm ▸ h.ratio) fun u hu => ⟨u, husers ▸ hu, rfl⟩

/-- A viewer was changed, but not in the quality it asked for. -/
theorem Sound.withUser (h : q.Sound) {id : ℤ} {f : UserData ℚ → UserData ℚ}
    (hf : ∀ user, (f user).quality = user.quality) : (q.withUser id f).Sound := by
  refine h.kept h.ratio fun u hu => ?_
  obtain ⟨v, hv, rfl⟩ := List.mem_map.mp hu
  refine ⟨v, hv, ?_⟩
  split
  · exact hf v.2
  · rfl

theorem Sound.adjustRatio (h : q.Sound)
    (hcall : q.adjustRatio exactF32 dynamicScreen now = some q') : q'.Sound := by
  rcases adjustRatio_cases hcall with ⟨hratio, husers, -⟩ | ⟨maxDelay, reduction, hchange, -⟩
  · exact h.same hratio husers
  · obtain ⟨⟨ratioAdd150kbps, hratio⟩, hquality⟩ := changeRatio_eq hchange
    exact h.kept (hratio ▸ le_max_of_le_left q.minRatio_ge) hquality

theorem Sound.adjustRatioIf (h : q.Sound) {reason : Bool}
    (hcall : q.adjustRatioIf exactF32 reason now = some q') : q'.Sound := by
  rw [Qos.adjustRatioIf] at hcall
  split at hcall
  · exact h.adjustRatio hcall
  · obtain rfl := Option.some.inj hcall
    exact h

theorem default_sound (linux : Bool) (now : ℕ) : (default exactF32 linux now).Sound :=
  ⟨by norm_num [default, brBalanced, exactF32], by simp [default]⟩

/-- A quality that a viewer asks for is clamped to the least ratio. -/
theorem Sound.userImageQuality (h : q.Sound) (id imageQuality time : ℤ) : (q.withUser id fun user =>
      { user with quality := some (time, convertQuality exactF32 imageQuality) }).Sound := by
  refine ⟨h.ratio, fun u hu time' v hcustom => ?_⟩
  obtain ⟨w, hw, rfl⟩ := List.mem_map.mp hu
  split at hcustom
  · have hconvert : convertQuality exactF32 imageQuality = .custom v :=
      (Prod.mk.inj (Option.some.inj hcustom)).2
    unfold convertQuality at hconvert
    split_ifs at hconvert
    obtain rfl := Quality.custom.inj hconvert
    exact le_max_left _ _
  · exact h.custom w hw time' v hcustom

/-- **Step**: every operation keeps the range. -/
theorem Sound.step (h : q.Sound) {linux : Bool} {op : Op}
    (hstep : Qos.step exactF32 linux q op = some q') : q'.Sound := by
  cases op with
  | onConnectionOpen id now abr =>
    obtain rfl := Option.some.inj hstep
    refine ⟨h.ratio, fun u hu time v hcustom => ?_⟩
    rcases List.mem_append.mp hu with hu | hu
    · exact h.custom u (List.mem_of_mem_filter hu) time v hcustom
    · rw [List.mem_singleton.mp hu] at hcustom
      cases hcustom
  | onConnectionClose id now =>
    obtain rfl := Option.some.inj hstep
    rw [onConnectionClose]
    split
    · exact default_sound linux now
    · exact h.kept h.ratio fun u hu => ⟨u, List.mem_of_mem_filter hu, rfl⟩
  | userCustomFps id fps | userAutoAdjustFps id fps =>
    rw [Qos.step] at hstep
    split at hstep
    · obtain rfl := Option.some.inj hstep
      exact h
    · obtain rfl := Option.some.inj hstep
      exact h.withUser fun _ => rfl
  | userImageQuality id imageQuality time =>
    rw [Qos.step] at hstep
    split at hstep
    · obtain rfl := Option.some.inj hstep
      exact h
    · obtain rfl := Option.some.inj hstep
      have hasked := h.userImageQuality id imageQuality time
      exact hasked.kept (le_trans (by norm_num) hasked.targetRatio_ge) fun u hu => ⟨u, hu, rfl⟩
  | userNetworkDelay id delay now =>
    simp only [Qos.step, userNetworkDelay] at hstep
    split at hstep
    · obtain rfl := Option.some.inj hstep
      exact h.same rfl rfl
    · obtain ⟨⟨d, reduceBitrate⟩, -, hstep⟩ := Option.bind_eq_some_iff.mp hstep
      obtain ⟨q₁, h₁, hstep⟩ := Option.bind_eq_some_iff.mp hstep
      have hreplied : ((q.withUser id fun user => { user with delay := d }).adjustFps now).Sound :=
        (h.withUser (f := fun user => { user with delay := d }) fun _ => rfl).same rfl rfl
      exact (hreplied.adjustRatioIf h₁).adjustRatioIf hstep
  | userDelayResponseElapsed id elapsed now =>
    simp only [Qos.step, userDelayResponseElapsed] at hstep
    split at hstep
    · obtain rfl := Option.some.inj hstep
      exact h
    · split at hstep
      · obtain rfl := Option.some.inj hstep
        exact h
      · obtain ⟨d, -, hstep⟩ := Option.bind_eq_some_iff.mp hstep
        obtain rfl := Option.some.inj hstep
        exact (h.withUser (f := fun user => { user with delay := d }) fun _ => rfl).same rfl rfl
  | updateDisplayData name sendCounter now =>
    simp only [Qos.step, updateDisplayData] at hstep
    have hcounted :
      ((q.withDisplay name fun d => { d with sendCounter := d.sendCounter + sendCounter }).adjustFps
        now).Sound :=
      h.same rfl rfl
    split at hstep
    · split at hstep
      · exact hcounted.adjustRatio hstep
      · obtain rfl := Option.some.inj hstep
        exact hcounted
    · obtain rfl := Option.some.inj hstep
      exact hcounted.kept (le_trans (by norm_num) hcounted.targetRatio_ge) fun u hu => ⟨u, hu, rfl⟩
  | readRatio =>
    obtain rfl := Option.some.inj hstep
    split
    · exact h.kept (by norm_num [brBalanced, exactF32]) fun u hu => ⟨u, hu, rfl⟩
    · exact h
  | rehash before =>
    obtain rfl := Option.some.inj hstep
    exact h.kept h.ratio fun u hu => ⟨u, List.mem_mergeSort.mp hu, rfl⟩
  | adjustFps now | newDisplay name | removeDisplay name | setSupportChangingQuality name support
    | storeBitrate bitrate =>
    obtain rfl := Option.some.inj hstep
    exact h.same rfl rfl

/-- The calls that an operation makes are made in states in range. -/
theorem Sound.adjustments (h : q.Sound) {op : Op} {call : Qos ℚ × Bool × ℕ}
    (hcall : call ∈ q.adjustments exactF32 op) : call.1.Sound := by
  cases op with
  | userNetworkDelay id delay now =>
    simp only [Qos.adjustments] at hcall
    split at hcall
    · simp at hcall
    · split at hcall
      · simp at hcall
      · next d reduceBitrate hreply =>
        have hreplied :
          ((q.withUser id fun user => { user with delay := d }).adjustFps now).Sound :=
          (h.withUser (f := fun user => { user with delay := d }) fun _ => rfl).same rfl rfl
        rcases List.mem_append.mp hcall with hfirst | hsecond
        · obtain ⟨-, hfirst⟩ := List.mem_ite_nil_right.mp hfirst
          rw [List.mem_singleton.mp hfirst]
          exact hreplied
        · split at hsecond
          · simp at hsecond
          · next q₂ hq₂ =>
            obtain ⟨-, hsecond⟩ := List.mem_ite_nil_right.mp hsecond
            rw [List.mem_singleton.mp hsecond]
            exact hreplied.adjustRatioIf hq₂
  | updateDisplayData name sendCounter now =>
    obtain ⟨-, hcall⟩ := List.mem_ite_nil_right.mp hcall
    rw [List.mem_singleton.mp hcall]
    exact h.same rfl rfl
  | _ => simp [Qos.adjustments] at hcall

/-- **When a reduction reduces**: in every run, a call of `adjust_ratio` in variable bitrate, by an
operation or on its own, does what is promised of it exactly when no viewer calls for a reduction or
the ratio is not below the floor of the latest quality. The bounds of the clamp are in order, and
the clamped ratio is between them, in all calls. -/
theorem adjustment_reduces_iff (linux : Bool) (now : ℕ) {ops : List Op}
    (hrun : exec (Qos.step exactF32 linux) (default exactF32 linux now) ops = some q) (op : Op)
    (call : Qos ℚ × Bool × ℕ) (hcall : call ∈ q.adjustments exactF32 op ∨ call.1 = q)
    (hvbr : call.1.inVbrState = true)
    (hadjust : call.1.adjustRatio exactF32 call.2.1 call.2.2 = some q') :
    (call.1.Adjusts q' ↔ (call.1.Called exactF32 → call.1.AboveFloor)) ∧
    call.1.minRatio exactF32 ≤ call.1.targetRatio ∧
    (call.1.Clamps exactF32 → call.1.minRatio exactF32 ≤ q'.ratio ∧
      q'.ratio ≤ call.1.targetRatio) := by
  have hsound : q.Sound := exec_invariant (fun q op q' hq hstep => Sound.step hq hstep)
    (default_sound linux now) hrun
  have hcalled : call.1.Sound := hcall.elim hsound.adjustments fun heq => heq ▸ hsound
  exact ⟨hcalled.adjusts_iff hvbr hadjust, hcalled.minRatio_le_targetRatio,
    hcalled.clamped hvbr hadjust⟩

/-- Two viewers, of the best and of a low quality; the second leaves, and the first has two bad
replies. -/
def loweredRun : List Op :=
  [.onConnectionOpen 1 0 true, .onConnectionOpen 2 0 true, .newDisplay "0",
    .setSupportChangingQuality "0" true,
    .userImageQuality 1 4 1, .userImageQuality 2 2 2, .storeBitrate 400, .onConnectionClose 2 1000,
    .userNetworkDelay 1 10 2000, .userNetworkDelay 1 900 3000, .userNetworkDelay 1 900 4000]

/-- One viewer of the best quality has a bad reply. -/
def slowedRun : List Op :=
  [.onConnectionOpen 1 0 true, .newDisplay "0", .setSupportChangingQuality "0" true,
    .userImageQuality 1 4 1,
    .storeBitrate 4000, .userNetworkDelay 1 10 2000, .userNetworkDelay 1 900 3000]

instance (q : Qos ℚ) : Decidable (q.Called exactF32) :=
  decidable_of_iff (∃ u ∈ q.users, (u.2.delay.ratioReduction exactF32).any Option.isSome =
    true) <| by
    simp only [Called, Option.any_eq_true, Option.isSome_iff_exists]
    exact exists_congr fun u => and_congr_right fun _ =>
      ⟨fun ⟨r, h, factor, hr⟩ => ⟨factor, hr ▸ h⟩, fun ⟨factor, h⟩ => ⟨_, h, factor, rfl⟩⟩

theorem adjustment_reduces_iff_slowed :
    ∃ q, exec (Qos.step exactF32 true) (default exactF32 true 0) slowedRun = some q ∧
      ∃ call ∈ q.adjustments exactF32 (.userNetworkDelay 1 900 4000), ∃ q',
        call.1.adjustRatio exactF32 call.2.1 call.2.2 = some q' ∧ call.1.Called exactF32 ∧
          q'.ratio < call.1.ratio ∧
        (call.1.Adjusts q' ↔ (call.1.Called exactF32 → call.1.AboveFloor)) := by
  have hrun : ((exec (Qos.step exactF32 true) (default exactF32 true 0) slowedRun).any fun q =>
      (q.adjustments exactF32 (.userNetworkDelay 1 900 4000)).any fun call =>
        (call.1.adjustRatio exactF32 call.2.1 call.2.2).any fun q' =>
          decide (call.1.inVbrState = true ∧ call.1.Called exactF32 ∧ q'.ratio < call.1.ratio)) =
            true := by decide +kernel
  obtain ⟨q, hq, hcalls⟩ := (Option.any_eq_true _ _).mp hrun
  obtain ⟨call, hcall, hadjusts⟩ := List.any_eq_true.mp hcalls
  obtain ⟨q', hadjust, hless⟩ := (Option.any_eq_true _ _).mp hadjusts
  obtain ⟨hvbr, hcalled, hless⟩ := of_decide_eq_true hless
  exact ⟨q, hq, call, hcall, q', hadjust, hcalled, hless,
    (adjustment_reduces_iff true 0 hq _ call (.inl hcall) hvbr hadjust).1⟩

/-- A call for a reduction raises the ratio: the viewer that had lowered it is gone. -/
theorem reduction_raises :
    ¬∀ (linux : Bool) (now : ℕ) (ops : List Op) (q q' : Qos ℚ) (op : Op) (call : Qos ℚ × Bool × ℕ),
      exec (Qos.step exactF32 linux) (default exactF32 linux now) ops = some q →
        call ∈ q.adjustments exactF32 op →
        call.1.inVbrState = true → call.1.adjustRatio exactF32 call.2.1 call.2.2 = some q' →
          call.1.Adjusts q' := by
  intro h
  have hrun : ((exec (Qos.step exactF32 true) (default exactF32 true 0) loweredRun).any fun q =>
      (q.adjustments exactF32 (.updateDisplayData "0" 1 5000)).any fun call =>
        (call.1.adjustRatio exactF32 call.2.1 call.2.2).any fun q' =>
          decide (call.1.inVbrState = true ∧ call.1.Called exactF32 ∧ call.1.ratio < q'.ratio)) =
            true := by decide +kernel
  obtain ⟨q, hq, hcalls⟩ := (Option.any_eq_true _ _).mp hrun
  obtain ⟨call, hcall, hadjusts⟩ := List.any_eq_true.mp hcalls
  obtain ⟨q', hadjust, hmore⟩ := (Option.any_eq_true _ _).mp hadjusts
  obtain ⟨hvbr, hcalled, hmore⟩ := of_decide_eq_true hmore
  exact absurd ((h true 0 loweredRun q q' _ call hq hcall hvbr hadjust).reduces hcalled)
    (not_le.mpr hmore)

end Qos
end VideoQos
end BgDesk
