import Mathlib.Algebra.Order.Group.Unbundled.Int
import BgDesk.Machine
import BgDesk.VideoQos

/-!
# The baseline of a connection

`RttCalculator::update` of `video_qos.rs`: the baseline falls to a lower delay at once, and rises
towards the least delay of the window when the two halves of it agree.

* `Updates` — what one update does;
* `Tracks` — the invariant: the baseline is below the window and above the least delay ever seen;
* `update_repeated` — each repetition of a delay that fills the window brings the baseline closer;
* `baseline_tracks` — both, for every sequence of delays.
-/

namespace BgDesk
namespace VideoQos
namespace RttCalculator

variable {c c' : RttCalculator} {delay : ℕ}

/-! ## One update -/

/-- The samples with the new one, after the oldest has made room for it. -/
def window (c : RttCalculator) (delay : ℕ) : List ℕ :=
  (if windowSamples ≤ c.samples.length then c.samples.tail else c.samples) ++ [delay]

/-- The baseline, or the new delay where that is lower or the first. -/
def lowered (c : RttCalculator) (delay : ℕ) : ℕ := min (c.baseline.getD delay) delay

/-- `update`, with the names for the window and for the lowered baseline. -/
theorem update_eq (c : RttCalculator) (delay : ℕ) : c.update delay =
      if (c.window delay).length < windowSamples then some ⟨some (c.lowered delay), c.window delay⟩
      else
        match ((c.window delay).take (windowSamples / 2)).min?,
          ((c.window delay).drop (windowSamples / 2)).min? with
        | some olderMin, some recentMin =>
          if min (olderMin + 10) (2 ^ 32 - 1) <
            recentMin then some ⟨some (c.lowered delay), c.window delay⟩
          else if 0 < min olderMin recentMin - c.lowered delay then do
            let half ← checkedDiv (min olderMin recentMin - c.lowered delay) 2
            let baseline ← checkedAdd 32 (c.lowered delay) (clamp half 1 maxIncreaseMs)
            return ⟨some baseline, c.window delay⟩
          else some ⟨some (c.lowered delay), c.window delay⟩
        | _, _ => some ⟨some (c.lowered delay), c.window delay⟩ :=
  rfl

/-- One update: the window moves, and the baseline falls to the delay or rises in the window; it
does rise if it is below a window of one delay only. -/
structure Updates (c : RttCalculator) (delay : ℕ) (c' : RttCalculator) : Prop where
  samples : c'.samples = c.window delay
  baseline : ∃ b, c'.baseline = some b ∧ c.lowered delay ≤ b ∧
    (b = c.lowered delay ∨ ∀ x ∈ c.window delay, b ≤ x) ∧
    (c.window delay = List.replicate windowSamples delay → c.lowered delay < delay →
      c.lowered delay < b)

/-- The least of the two halves is the least of the window. -/
theorem min_halves_le {samples : List ℕ} {n olderMin recentMin : ℕ}
    (holder : (samples.take n).min? = some olderMin)
    (hrecent : (samples.drop n).min? = some recentMin) :
    ∀ x ∈ samples, min olderMin recentMin ≤ x := by
  intro x hx
  rw [← List.take_append_drop n samples] at hx
  rcases List.mem_append.mp hx with hx | hx
  · exact (min_le_left _ _).trans ((List.min?_eq_some_iff.mp holder).2 x hx)
  · exact (min_le_right _ _).trans ((List.min?_eq_some_iff.mp hrecent).2 x hx)

/-- A step of the baseline is at least one and at most the whole rise. -/
theorem clamp_half_le {rise : ℕ} (hrise : 0 < rise) :
    1 ≤ clamp (rise / 2) 1 maxIncreaseMs ∧ clamp (rise / 2) 1 maxIncreaseMs ≤ rise := by
  unfold clamp maxIncreaseMs
  omega

/-- **Step**: an update of delays of 32 bits returns. -/
theorem update_spec (hsamples : ∀ x ∈ c.samples, x < 2 ^ 32) (hdelay : delay < 2 ^ 32) :
    Returns (c.update delay) (c.Updates delay) := by
  have hbound : ∀ x ∈ c.window delay, x < 2 ^ 32 := by
    intro x hx
    rcases List.mem_append.mp hx with hx | hx
    · refine hsamples x ?_
      split at hx
      · exact List.mem_of_mem_tail hx
      · exact hx
    · obtain rfl := List.mem_singleton.mp hx
      exact hdelay
  have hlowered : c.lowered delay ≤ delay := min_le_right _ _
  -- the baseline stays where it is unless the window is full, settled and above it
  have hstays : (c.window delay = List.replicate windowSamples delay → ¬c.lowered delay < delay) →
      Returns (some (RttCalculator.mk (some (c.lowered delay)) (c.window delay)))
        (c.Updates delay) :=
    fun h => returns_pure ⟨rfl, _, rfl, le_rfl, .inl rfl, fun hfull hlt => absurd hlt (h hfull)⟩
  rw [update_eq]
  split
  · next hshort => exact hstays fun hfull => absurd hshort (by simp [hfull])
  · split
    · next olderMin recentMin holder hrecent =>
      have hleast := min_halves_le holder hrecent
      have hmem : olderMin ∈ c.window delay := List.mem_of_mem_take (List.min?_mem holder)
      have hfull : c.window delay = List.replicate windowSamples delay → olderMin = delay ∧
          recentMin = delay := by
        intro hfull
        rw [hfull] at holder hrecent
        exact ⟨List.eq_of_mem_replicate (List.mem_of_mem_take (List.min?_mem holder)),
          List.eq_of_mem_replicate (List.mem_of_mem_drop (List.min?_mem hrecent))⟩
      split
      · next hrising =>
        refine hstays fun heq => ?_
        obtain ⟨holderMin, hrecentMin⟩ := hfull heq
        have := hdelay
        omega
      · split
        · next hrise =>
          obtain ⟨hone, hclamp⟩ := clamp_half_le hrise
          refine (checkedDiv_returns (by omega)).bind ?_
          rintro _ rfl
          have hnew : c.lowered delay + clamp ((min olderMin recentMin - c.lowered delay) / 2)
            1 maxIncreaseMs ≤
              min olderMin recentMin := by omega
          refine (checkedAdd_returns ((hnew.trans (min_le_left _ _)).trans_lt (hbound _ hmem))).bind
            ?_
          rintro _ rfl
          exact returns_pure ⟨rfl, _, rfl, Nat.le_add_right _ _,
            .inr fun x hx => hnew.trans (hleast x hx), fun _ _ => by omega⟩
        · next hrise =>
          refine hstays fun heq => ?_
          obtain ⟨holderMin, hrecentMin⟩ := hfull heq
          omega
    · next hnone =>
      refine hstays fun heq => ?_
      have holder : ((c.window delay).take (windowSamples / 2)).min? = some delay := by
        simp [heq, windowSamples]
      have hrecent : ((c.window delay).drop (windowSamples / 2)).min? = some delay := by
        simp [heq, windowSamples]
      exact absurd hrecent (hnone delay delay holder)

/-! ## Every sequence of delays -/

/-- The invariant, over the delays seen: the window holds the last of them, and the baseline is at
most every sample of the window and at least some delay. -/
structure Tracks (seen : List ℕ) (c : RttCalculator) : Prop where
  samples : c.samples = seen.drop (seen.length - windowSamples)
  known : seen ≠ [] → c.baseline.isSome
  below : ∀ b ∈ c.baseline, ∀ x ∈ c.samples, b ≤ x
  above : ∀ b ∈ c.baseline, ∃ x ∈ seen, x ≤ b

theorem start_tracks : Tracks [] ⟨none, []⟩ := ⟨rfl, fun h => absurd rfl h, nofun, nofun⟩

variable {seen : List ℕ}

/-- The window moves over the delays. -/
theorem Tracks.window (h : Tracks seen c) (delay : ℕ) :
    c.window delay = (seen ++ [delay]).drop ((seen ++ [delay]).length - windowSamples) := by
  rw [RttCalculator.window, h.samples, List.drop_append_of_le_length (by simp [windowSamples])]
  congr 1
  simp only [List.length_drop, List.length_append, List.length_singleton]
  split
  · rw [List.tail_drop]
    congr 1
    omega
  · congr 1
    omega

/-- **Step**: an update keeps the invariant. -/
theorem Tracks.update {seen : List ℕ} (h : Tracks seen c) (hupdate : c.Updates delay c') :
    Tracks (seen ++ [delay]) c' := by
  obtain ⟨b', hb', hle, hcases, -⟩ := hupdate.baseline
  refine ⟨hupdate.samples.trans (h.window delay),
    fun _ => by simp [hb'], fun b hb => ?_, fun b hb => ?_⟩
  · obtain rfl := Option.some.inj (hb'.symm.trans hb)
    rw [hupdate.samples]
    rcases hcases with rfl | hbelow
    · intro x hx
      rcases List.mem_append.mp hx with hx | hx
      · have hold : x ∈ c.samples := by
          split at hx
          · exact List.mem_of_mem_tail hx
          · exact hx
        have hseen : seen ≠ [] := by
          rintro rfl
          rw [h.samples] at hold
          exact List.not_mem_nil hold
        obtain ⟨b, hbase⟩ := Option.isSome_iff_exists.mp (h.known hseen)
        rw [lowered, hbase]
        exact (min_le_left _ _).trans (h.below b hbase x hold)
      · rw [List.mem_singleton.mp hx]
        exact min_le_right _ _
    · exact hbelow
  · obtain rfl := Option.some.inj (hb'.symm.trans hb)
    cases hbase : c.baseline with
    | none => exact ⟨delay, by simp, by simpa [lowered, hbase] using hle⟩
    | some base =>
      rw [lowered, hbase, Option.getD_some] at hle
      rcases min_le_iff.mp hle with hle | hle
      · obtain ⟨x, hx, hxb⟩ := h.above base hbase
        exact ⟨x, List.mem_append_left _ hx, hxb.trans hle⟩
      · exact ⟨delay, by simp, hle⟩

/-- **Run**: updates return, and keep the invariant. -/
theorem Tracks.exec {delays : List ℕ} (h : Tracks seen c) (hseen : ∀ x ∈ seen, x < 2 ^ 32)
    (hdelays : ∀ x ∈ delays, x < 2 ^ 32) :
    Returns (exec RttCalculator.update c delays) (Tracks (seen ++ delays)) := by
  induction delays generalizing seen c with
  | nil => exact returns_pure (by simpa using h)
  | cons delay delays ih =>
    obtain ⟨hdelay, hrest⟩ := List.forall_mem_cons.mp hdelays
    have hsamples : ∀ x ∈ c.samples, x < 2 ^ 32 := fun x hx =>
      hseen x (List.mem_of_mem_drop (h.samples ▸ hx))
    obtain ⟨c₁, hc₁, hupdate⟩ := update_spec hsamples hdelay
    obtain ⟨c', hc', htracks⟩ :=
      ih (h.update hupdate) (by simpa [or_imp, forall_and] using ⟨hseen, hdelay⟩) hrest
    exact ⟨c', exec_cons.mpr ⟨c₁, hc₁, hc'⟩, by simpa using htracks⟩

/-! ## A delay that repeats -/

/-- Each repetition after the window has filled brings the baseline closer to the delay. -/
theorem update_repeated (h : Tracks seen c) (hseen : ∀ x ∈ seen, x < 2 ^ 32)
    (hdelay : delay < 2 ^ 32) (n : ℕ) :
    Returns (exec RttCalculator.update c (List.replicate n delay)) fun c' =>
      Tracks (seen ++ List.replicate n delay) c' ∧
      delay - (delay - c.baseline.getD delay - (n + 1 - windowSamples)) ≤
        c'.baseline.getD delay := by
  induction n with
  | zero => exact returns_pure ⟨by simpa using h, by simp [windowSamples]; omega⟩
  | succ n ih =>
    obtain ⟨c₁, hc₁, htracks, hclose⟩ := ih
    have hsamples : ∀ x ∈ c₁.samples, x < 2 ^ 32 := by
      intro x hx
      rcases List.mem_append.mp (List.mem_of_mem_drop (htracks.samples ▸ hx)) with hx | hx
      · exact hseen x hx
      · exact List.eq_of_mem_replicate hx ▸ hdelay
    obtain ⟨c', hc', hupdate⟩ := update_spec hsamples hdelay
    have htracks' := htracks.update hupdate
    rw [List.append_assoc, ← List.replicate_succ'] at htracks'
    refine ⟨c', ?_, htracks', ?_⟩
    · rw [List.replicate_succ']
      exact exec_append.mpr ⟨c₁, hc₁, exec_cons.mpr ⟨c', hc', rfl⟩⟩
    · obtain ⟨b, hb, hle, -, hrises⟩ := hupdate.baseline
      rw [hb, Option.getD_some]
      have hfull : windowSamples ≤ n + 1 → c₁.window delay =
          List.replicate windowSamples delay := by
        intro hn
        rw [← hupdate.samples, htracks'.samples, List.drop_append, List.drop_replicate]
        simp only [List.length_append, List.length_replicate]
        rw [List.drop_eq_nil_of_le (by omega), List.nil_append]
        congr 1
        omega
      have hlowered : c₁.lowered delay = min (c₁.baseline.getD delay) delay := rfl
      by_cases hn : windowSamples ≤ n + 1
      · have := hrises (hfull hn)
        omega
      · omega

/-- **The baseline tracks the delays**: for every sequence of delays of 32 bits the updates return,
the window holds the last 20 delays, and the baseline is at most every one of these and at least the
least delay of all; and a delay that is then repeated is the baseline after 20 updates and as many
more as it is away, and stays it. -/
theorem baseline_tracks {delays : List ℕ} (hdelays : ∀ x ∈ delays, x < 2 ^ 32) :
    ∃ c, exec update ⟨none, []⟩ delays = some c ∧ c.samples = delays.drop (delays.length - 20) ∧
      (delays ≠ [] → ∃ b least, c.baseline = some b ∧ delays.min? = some least ∧ least ≤ b ∧
        ∀ x ∈ c.samples, b ≤ x) ∧
      ∀ d : ℕ, d < 2 ^ 32 → ∀ n, 20 + c.baseline.elim 0 (fun b => ((d : ℤ) - b).natAbs) ≤ n →
        ∃ c', exec update c (List.replicate n d) = some c' ∧ c'.baseline = some d := by
  obtain ⟨c, hrun, htracks⟩ := start_tracks.exec nofun hdelays
  rw [List.nil_append] at htracks
  refine ⟨c, hrun, htracks.samples, fun hne => ?_, fun d hd n hn => ?_⟩
  · obtain ⟨b, hb⟩ := Option.isSome_iff_exists.mp (htracks.known hne)
    obtain ⟨least, hleast⟩ := Option.isSome_iff_exists.mp (List.isSome_min?_of_ne_nil hne)
    obtain ⟨x, hx, hxb⟩ := htracks.above b hb
    exact ⟨b, least, hb, hleast, ((List.min?_eq_some_iff.mp hleast).2 x hx).trans hxb,
      htracks.below b hb⟩
  · obtain ⟨c', hrun', htracks', hclose⟩ := update_repeated htracks hdelays hd n
    obtain ⟨b, hb⟩ := Option.isSome_iff_exists.mp (htracks'.known (by simp; omega))
    have hlast : d ∈ c'.samples := by
      rw [htracks'.samples, List.drop_append]
      refine List.mem_append_right _ ?_
      rw [List.drop_replicate]
      refine List.mem_replicate.mpr ⟨?_, rfl⟩
      simp only [List.length_append, List.length_replicate, windowSamples]
      omega
    have hle := htracks'.below b hb d hlast
    rw [hb, Option.getD_some] at hclose
    have hge : d ≤ b := by
      cases hbase : c.baseline with
      | none =>
        rw [hbase, Option.getD_none] at hclose
        omega
      | some base =>
        rw [hbase] at hn hclose
        simp only [Option.elim_some, Option.getD_some, windowSamples] at hn hclose
        omega
    exact ⟨c', hrun', by rw [hb, le_antisymm hle hge]⟩

/-- A path that becomes slower, from 10 to 300 milliseconds. -/
theorem baseline_tracks_slower :
    ∃ c, exec update ⟨some 10, [10]⟩ (List.replicate 310 300) = some c ∧ c.baseline = some 300 := by
  obtain ⟨c, hrun, -, -, hrepeated⟩ := baseline_tracks (show ∀ x ∈ [10], x < 2 ^ 32 by decide)
  obtain rfl :=
    Option.some.inj ((show exec update ⟨none, []⟩ [10] = some ⟨some 10, [10]⟩ by decide).symm.trans
      hrun)
  exact hrepeated 300 (by decide) 310 (by decide)

end RttCalculator
end VideoQos
end BgDesk
