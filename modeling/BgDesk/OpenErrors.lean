import Mathlib.Data.List.Nodup
import Mathlib.Data.List.Perm.Subperm
import BgDesk.Machine

/-!
# Reports of refused channels

`first_report_at` of `src/port_forward_mux.rs`: a reason for which a channel was refused is shown to
the user unless it was shown lately, and a burst that goes on keeps it quiet. The reasons and when
they come are the peer's to choose, so no more than eight are remembered; with eight remembered,
another one is neither shown nor remembered.

* `Reported` — the map, with the time each reason came last;
* `firstReportAt` — one refusal;
* `Tracks` — what the map has to do with the refusals before it;
* `refusals_limited` — all runs of refusals on a clock that does not go back.
-/

namespace BgDesk
namespace OpenErrors

/-! ## The map -/

/-- `REPORT_AGAIN_AFTER`, in nanoseconds. -/
def reportAgainAfter : ℕ := 10 * 1000000000

/-- `MAX_REPORTED_OPEN_ERRORS`. -/
def maxReportedOpenErrors : ℕ := 8

/-- `reported`, a `HashMap` from reasons to the times they came last. -/
structure Reported where
  entries : List (String × ℕ)
  nodup : (entries.map Prod.fst).Nodup
  deriving DecidableEq

/-- The empty map. -/
def Reported.new : Reported := ⟨[], List.nodup_nil⟩

/-- `reported.retain(…)` at the time `now`. -/
def Reported.retain (reported : Reported) (now : ℕ) : Reported :=
  ⟨reported.entries.filter fun entry => now - entry.2 < reportAgainAfter,
    reported.nodup.sublist (List.filter_sublist.map Prod.fst)⟩

/-- Whether the reason is remembered. -/
def Reported.Has (reported : Reported) (message : String) : Prop :=
  message ∈ reported.entries.map Prod.fst

instance Reported.Has.decidable (reported : Reported) (message : String) :
    Decidable (reported.Has message) :=
  inferInstanceAs (Decidable (_ ∈ _))

/-- The entry of the reason with another time. -/
def touched (message : String) (now : ℕ) (entry : String × ℕ) : String × ℕ :=
  if entry.1 = message then (entry.1, now) else entry

theorem touched_fst (message : String) (now : ℕ) (entry : String × ℕ) :
    (touched message now entry).1 = entry.1 := by
  rw [touched]
  split <;> rfl

theorem map_touched (message : String) (now : ℕ) (entries : List (String × ℕ)) :
    (entries.map (touched message now)).map Prod.fst = entries.map Prod.fst := by
  rw [List.map_map]
  exact List.map_congr_left fun entry _ => touched_fst message now entry

/-- `*last = now`. -/
def Reported.touch (reported : Reported) (message : String) (now : ℕ) : Reported :=
  ⟨reported.entries.map (touched message now), by rw [map_touched]; exact reported.nodup⟩

/-- `reported.insert(…)` of a reason that is not there. -/
def Reported.insert (reported : Reported) (message : String) (now : ℕ) (h : ¬reported.Has message) :
    Reported :=
  ⟨(message, now) :: reported.entries, List.nodup_cons.mpr ⟨h, reported.nodup⟩⟩

/-- `first_report_at`: what is shown, and the map afterwards. -/
def firstReportAt (reported : Reported) (message : String) (now : ℕ) : Option String × Reported :=
  if message.isEmpty then (none, reported)
  else
    let reported := reported.retain now
    if h : reported.Has message then (none, reported.touch message now)
    else if reported.entries.length ≥ maxReportedOpenErrors then (none, reported)
    else (some message, reported.insert message now h)

/-! ## Refusals -/

/-- A refusal, and what was shown. -/
structure Event where
  message : String
  time : ℕ
  report : Option String
  deriving DecidableEq

/-- The map, and all there was. -/
structure System where
  reported : Reported
  past : List Event
  deriving DecidableEq

/-- At first. -/
def System.new : System := ⟨Reported.new, []⟩

/-- What a refusal leaves. -/
def System.refused (s : System) (refusal : String × ℕ) : System :=
  let result := firstReportAt s.reported refusal.1 refusal.2
  ⟨result.2, s.past ++ [⟨refusal.1, refusal.2, result.1⟩]⟩

/-- One refusal, not before the last one. -/
def step (s : System) (refusal : String × ℕ) : Option System :=
  if ∀ event ∈ s.past, event.time ≤ refusal.2 then some (s.refused refusal) else none

/-- The message is quiet for long enough from `a` on. -/
def Quiet (past : List Event) (message : String) (a : ℕ) : Prop :=
  ∀ event ∈ past, event.message = message → event.time ≤ a ∨ a + reportAgainAfter ≤ event.time

/-! ## The invariant -/

/-- What is remembered is no more than what may be, it has the time of the last refusal, and what
was shown is remembered until it has been quiet. -/
structure Tracks (s : System) : Prop where
  bounded : s.reported.entries.length ≤ maxReportedOpenErrors
  named : ∀ entry ∈ s.reported.entries, entry.1 ≠ ""
  last : ∀ entry ∈ s.reported.entries, ∀ event ∈ s.past, event.message = entry.1 →
    event.time ≤ entry.2
  own : ∀ event ∈ s.past, ∀ message, event.report = some message → message = event.message ∧
    message ≠ ""
  shown : ∀ event ∈ s.past, event.report.isSome →
    (∃ last, (event.message, last) ∈ s.reported.entries ∧ event.time ≤ last) ∨
    (∃ a, event.time ≤ a ∧ Quiet s.past event.message a ∧
      ∃ later ∈ s.past, a + reportAgainAfter ≤ later.time)
  apart : s.past.Pairwise fun earlier later =>
    earlier.report.isSome → later.report.isSome → earlier.message = later.message →
    ∃ a, earlier.time ≤ a ∧ a + reportAgainAfter ≤ later.time ∧ Quiet s.past earlier.message a
  few :
    ∀ x, (s.past.countP fun event =>
      event.report.isSome && decide (x ≤ event.time ∧ event.time < x + reportAgainAfter)) ≤
    maxReportedOpenErrors

theorem reportAgainAfter_pos : 0 < reportAgainAfter := by decide

theorem Quiet.append {past : List Event} {message : String} {a : ℕ} {event : Event}
    (h : Quiet past message a) (hevent : a + reportAgainAfter ≤ event.time) :
    Quiet (past ++ [event]) message a := by
  intro f hf hmessage
  rcases List.mem_append.mp hf with hf | hf
  · exact h f hf hmessage
  · obtain rfl := List.mem_singleton.mp hf
    exact .inr hevent

theorem tracks_new : Tracks System.new where
  bounded := Nat.zero_le _
  named := by
    intro entry hentry
    cases hentry
  last := by
    intro entry hentry
    cases hentry
  own := by
    intro event hevent
    cases hevent
  shown := by
    intro event hevent
    cases hevent
  apart := List.Pairwise.nil
  few := fun _ => Nat.zero_le _

/-! ## One refusal -/

section Refusal

variable {s : System} {message : String} {now : ℕ}

/-- The map at the time `now`, before the refusal is dealt with. -/
structure Kept (past : List Event) (now : ℕ) (kept : Reported) : Prop where
  bounded : kept.entries.length ≤ maxReportedOpenErrors
  named : ∀ entry ∈ kept.entries, entry.1 ≠ ""
  last : ∀ entry ∈ kept.entries, ∀ event ∈ past, event.message = entry.1 → event.time ≤ entry.2
  shown : ∀ event ∈ past, event.report.isSome →
    (∃ last, (event.message, last) ∈ kept.entries ∧ event.time ≤ last) ∨
    (∃ a, event.time ≤ a ∧ a + reportAgainAfter ≤ now ∧ Quiet past event.message a)

/-- While time passes, nothing changes. -/
theorem Tracks.kept (h : Tracks s) (hnow : ∀ event ∈ s.past, event.time ≤ now) :
    Kept s.past now s.reported where
  bounded := h.bounded
  named := h.named
  last := h.last
  shown := by
    intro event hevent hreport
    rcases h.shown event hevent hreport with hentry | ⟨a, ha, hquiet, later, hlater, hend⟩
    · exact .inl hentry
    · exact .inr ⟨a, ha, Nat.le_trans hend (hnow later hlater), hquiet⟩

/-- What is forgotten has been quiet since it came last. -/
theorem Kept.retain {past : List Event} {kept : Reported} (h : Kept past now kept) :
    Kept past now (kept.retain now) where
  bounded := Nat.le_trans (List.length_filter_le ..) h.bounded
  named := fun entry hentry => h.named entry (List.mem_of_mem_filter hentry)
  last := fun entry hentry => h.last entry (List.mem_of_mem_filter hentry)
  shown := by
    intro event hevent hreport
    rcases h.shown event hevent hreport with ⟨last, hentry, htime⟩ | hquiet
    · by_cases hfresh : now - last < reportAgainAfter
      · exact .inl ⟨last, List.mem_filter.mpr ⟨hentry, decide_eq_true hfresh⟩, htime⟩
      · have hpos := reportAgainAfter_pos
        refine .inr ⟨last, htime, by omega, ?_⟩
        exact fun f hf hmessage => .inl (h.last _ hentry f hf hmessage)
    · exact .inr hquiet

/-- The map after the refusal: the time of the reason is that of the refusal, if it is remembered,
and the others are as before. -/
structure Updates (kept : Reported) (message : String) (now : ℕ) (reported : Reported) : Prop where
  mem : ∀ entry ∈ reported.entries, (entry.1 = message ∧ entry.2 = now) ∨
    (entry.1 ≠ message ∧ entry ∈ kept.entries)
  old : ∀ entry ∈ kept.entries, entry ∈ reported.entries ∨
    (entry.1 = message ∧ (message, now) ∈ reported.entries)

theorem Updates.refl {kept : Reported} (h : ¬kept.Has message) : Updates kept message now kept where
  mem := by
    intro entry hentry
    refine .inr ⟨?_, hentry⟩
    rintro rfl
    exact h (List.mem_map_of_mem hentry)
  old := fun entry hentry => .inl hentry

theorem Updates.touch (kept : Reported) (message : String) (now : ℕ) :
    Updates kept message now (kept.touch message now) where
  mem := by
    intro entry hentry
    obtain ⟨entry, hmem, rfl⟩ := List.mem_map.mp hentry
    rw [touched]
    split
    · rename_i hmessage
      exact .inl ⟨hmessage, rfl⟩
    · rename_i hmessage
      exact .inr ⟨hmessage, hmem⟩
  old := by
    intro entry hentry
    have htouched := List.mem_map_of_mem (f := touched message now) hentry
    rw [touched] at htouched
    split at htouched
    · rename_i hmessage
      rw [hmessage] at htouched
      exact .inr ⟨hmessage, htouched⟩
    · exact .inl htouched

theorem Updates.insert {kept : Reported} (h : ¬kept.Has message) :
    Updates kept message now (kept.insert message now h) where
  mem := by
    intro entry hentry
    rcases List.mem_cons.mp hentry with rfl | hentry
    · exact .inl ⟨rfl, rfl⟩
    · exact (Updates.refl h).mem entry hentry
  old := fun entry hentry => .inl (List.mem_cons_of_mem _ hentry)

/-- What was shown within one interval is remembered at its end, each reason once. -/
theorem Kept.count_le {past : List Event} {kept : Reported} (h : Kept past now kept)
    (hapart : past.Pairwise fun earlier later => earlier.report.isSome → later.report.isSome →
    earlier.message = later.message →
      ∃ a, earlier.time ≤ a ∧ a + reportAgainAfter ≤ later.time ∧ Quiet past earlier.message a)
    {x : ℕ} (hx : now < x + reportAgainAfter) : (past.countP fun event => event.report.isSome &&
    decide (x ≤ event.time ∧ event.time < x + reportAgainAfter)) ≤
      kept.entries.length := by
  rw [List.countP_eq_length_filter, ← List.length_map (f := Event.message),
    ← List.length_map (f := Prod.fst)]
  refine (List.Nodup.subperm ?_ ?_).length_le
  · rw [List.Nodup, List.pairwise_map]
    refine (hapart.sublist List.filter_sublist).imp_of_mem ?_
    intro earlier later hearlier hlater hgap hmessage
    have he := List.of_mem_filter hearlier
    have hl := List.of_mem_filter hlater
    rw [Bool.and_eq_true, decide_eq_true_eq] at he hl
    obtain ⟨a, ha, hend, -⟩ := hgap he.1 hl.1 hmessage
    omega
  · intro reason hreason
    obtain ⟨event, hevent, rfl⟩ := List.mem_map.mp hreason
    have he := List.of_mem_filter hevent
    rw [Bool.and_eq_true, decide_eq_true_eq] at he
    rcases h.shown event (List.mem_of_mem_filter hevent)
      he.1 with ⟨last, hentry, -⟩ | ⟨a, ha, hend, -⟩
    · exact List.mem_map.mpr ⟨_, hentry, rfl⟩
    · omega

/-- What a refusal does, with the map at its time and the map afterwards: it is shown only if its
reason is not remembered and another one can be. -/
theorem Tracks.refuse {kept reported : Reported} {report : Option String} (h : Tracks s)
    (hnow : ∀ event ∈ s.past, event.time ≤ now) (hkept : Kept s.past now kept)
    (hupdates : Updates kept message now reported)
    (hbounded : reported.entries.length ≤ maxReportedOpenErrors)
    (hnamed : ∀ entry ∈ reported.entries, entry.1 ≠ "")
    (hreport : ∀ reason, report = some reason → reason = message ∧ message ≠ "" ∧
    ¬kept.Has message ∧
      kept.entries.length < maxReportedOpenErrors ∧ (message, now) ∈ reported.entries) :
    Tracks ⟨reported, s.past ++ [⟨message, now, report⟩]⟩ where
  bounded := hbounded
  named := hnamed
  last := by
    intro entry hentry event hevent hmessage
    rcases List.mem_append.mp hevent with hevent | hevent
    · rcases hupdates.mem entry hentry with ⟨-, htime⟩ | ⟨-, hentry⟩
      · rw [htime]
        exact hnow event hevent
      · exact hkept.last entry hentry event hevent hmessage
    · obtain rfl := List.mem_singleton.mp hevent
      rcases hupdates.mem entry hentry with ⟨-, htime⟩ | ⟨hother, -⟩
      · exact Nat.le_of_eq htime.symm
      · exact absurd hmessage.symm hother
  own := by
    intro event hevent reason hreason
    rcases List.mem_append.mp hevent with hevent | hevent
    · exact h.own event hevent reason hreason
    · obtain rfl := List.mem_singleton.mp hevent
      obtain ⟨rfl, hne, -⟩ := hreport reason hreason
      exact ⟨rfl, hne⟩
  shown := by
    intro event hevent hshown
    rcases List.mem_append.mp hevent with hevent | hevent
    · rcases hkept.shown event hevent hshown with ⟨last, hentry, htime⟩ | ⟨a, ha, hend, hquiet⟩
      · rcases hupdates.old _ hentry with hentry | ⟨hmessage, hentry⟩
        · exact .inl ⟨last, hentry, htime⟩
        · refine .inl ⟨now, ?_, hnow event hevent⟩
          change event.message = message at hmessage
          rwa [hmessage]
      · exact .inr ⟨a, ha, hquiet.append hend, _,
          List.mem_append_right _ (List.mem_singleton_self _), hend⟩
    · obtain rfl := List.mem_singleton.mp hevent
      obtain ⟨reason, hreason⟩ := Option.isSome_iff_exists.mp hshown
      obtain ⟨-, -, -, -, hentry⟩ := hreport reason hreason
      exact .inl ⟨now, hentry, Nat.le_refl _⟩
  apart := by
    refine List.pairwise_append.mpr ⟨?_, List.pairwise_singleton .., ?_⟩
    · refine h.apart.imp_of_mem ?_
      intro earlier later _ hlater hgap he hl hmessage
      obtain ⟨a, ha, hend, hquiet⟩ := hgap he hl hmessage
      exact ⟨a, ha, hend, hquiet.append (Nat.le_trans hend (hnow later hlater))⟩
    · intro earlier hearlier later hlater he hl hmessage
      obtain rfl := List.mem_singleton.mp hlater
      change earlier.message = message at hmessage
      obtain ⟨reason, hreason⟩ := Option.isSome_iff_exists.mp hl
      obtain ⟨-, -, hnew, -, -⟩ := hreport reason hreason
      -- a reason that is shown again is not remembered any more
      rcases hkept.shown earlier hearlier he with ⟨last, hentry, -⟩ | ⟨a, ha, hend, hquiet⟩
      · rw [hmessage] at hentry
        exact absurd (List.mem_map.mpr ⟨_, hentry, rfl⟩) hnew
      · exact ⟨a, ha, hend, hquiet.append hend⟩
  few := by
    intro x
    rw [List.countP_append, List.countP_singleton]
    split
    · rename_i hin
      rw [Bool.and_eq_true, decide_eq_true_eq] at hin
      obtain ⟨hl, -, hx⟩ := hin
      obtain ⟨reason, hreason⟩ := Option.isSome_iff_exists.mp hl
      obtain ⟨-, -, -, hroom, -⟩ := hreport reason hreason
      have hcount := hkept.count_le h.apart hx
      omega
    · exact h.few x

/-- A refusal keeps the invariant. -/
theorem Tracks.step {s' : System} {refusal : String × ℕ} (h : Tracks s)
    (hstep : step s refusal = some s') : Tracks s' := by
  obtain ⟨message, now⟩ := refusal
  rw [OpenErrors.step] at hstep
  split at hstep
  · rename_i hnow
    obtain rfl := Option.some.inj hstep
    rw [System.refused, firstReportAt]
    by_cases hempty : message.isEmpty = true
    · have hkept := h.kept hnow
      have hnot : ¬s.reported.Has message := by
        intro hhas
        obtain ⟨entry, hentry, rfl⟩ := List.mem_map.mp hhas
        exact hkept.named entry hentry (String.isEmpty_iff.mp hempty)
      rw [if_pos hempty]
      exact h.refuse hnow hkept (Updates.refl hnot) hkept.bounded hkept.named (by rintro reason ⟨⟩)
    · have hkept := (h.kept hnow).retain
      have hne : message ≠ "" := fun hnil => hempty (String.isEmpty_iff.mpr hnil)
      rw [if_neg hempty]
      by_cases hhas : (s.reported.retain now).Has message
      · have hbounded : ((s.reported.retain now).touch message now).entries.length ≤
            maxReportedOpenErrors := by
          rw [Reported.touch, List.length_map]
          exact hkept.bounded
        have hnamed : ∀ entry ∈ ((s.reported.retain now).touch message now).entries,
            entry.1 ≠ "" := by
          intro entry hentry
          obtain ⟨entry, hmem, rfl⟩ := List.mem_map.mp hentry
          rw [touched_fst]
          exact hkept.named entry hmem
        simp only [dif_pos hhas]
        exact h.refuse hnow hkept (Updates.touch ..) hbounded hnamed (by rintro reason ⟨⟩)
      · simp only [dif_neg hhas]
        by_cases hfull : (s.reported.retain now).entries.length ≥ maxReportedOpenErrors
        · simp only [if_pos hfull]
          exact h.refuse hnow hkept (Updates.refl hhas)
            hkept.bounded hkept.named (by rintro reason ⟨⟩)
        · have hroom := Nat.lt_of_not_le hfull
          have hnamed : ∀ entry ∈ ((s.reported.retain now).insert message now hhas).entries,
            entry.1 ≠ "" :=
            List.forall_mem_cons.mpr ⟨hne, hkept.named⟩
          simp only [if_neg hfull]
          refine h.refuse hnow hkept (Updates.insert hhas) hroom hnamed ?_
          intro reason hreason
          obtain rfl := Option.some.inj hreason
          exact ⟨rfl, hne, hhas, hroom, List.mem_cons_self ..⟩
  · cases hstep

end Refusal

/-! ## All runs -/

/-- Refusals that come one after the other are a run. -/
theorem exec_of_clock {refusals : List (String × ℕ)} :
    ∀ {s : System}, (∀ event ∈ s.past, ∀ refusal ∈ refusals, event.time ≤ refusal.2) →
    refusals.Pairwise (fun earlier later => earlier.2 ≤ later.2) →
      ∃ s', exec step s refusals = some s' := by
  induction refusals with
  | nil => exact fun {s} _ _ => ⟨s, rfl⟩
  | cons refusal refusals ih =>
    intro s hpast hclock
    obtain ⟨hfirst, hrest⟩ := List.pairwise_cons.mp hclock
    have hstep : step s refusal = some (s.refused refusal) := if_pos fun event hevent =>
      hpast event hevent _ (List.mem_cons_self ..)
    have hnext : ∀ event ∈ (s.refused refusal).past, ∀ later ∈ refusals, event.time ≤ later.2 := by
      intro event hevent later hlater
      rcases List.mem_append.mp hevent with hevent | hevent
      · exact hpast event hevent later (List.mem_cons_of_mem _ hlater)
      · obtain rfl := List.mem_singleton.mp hevent
        exact hfirst later hlater
    obtain ⟨s', hrun⟩ := ih hnext hrest
    exact ⟨s', exec_cons.mpr ⟨_, hstep, hrun⟩⟩

/-- The events of a run are its refusals. -/
theorem past_eq {refusals : List (String × ℕ)} {s : System}
    (h : exec step System.new refusals = some s) :
    s.past.map (fun event => (event.message, event.time)) = refusals := by
  have hpast : s.past.map (fun event => (event.message, event.time)) = [] ++ refusals := by
    refine exec_invariant_history (I := fun hist s =>
      s.past.map (fun event => (event.message, event.time)) = hist) ?_ rfl h
    intro hist s refusal s' hpast hstep
    rw [step] at hstep
    split at hstep
    · obtain rfl := Option.some.inj hstep
      change (s.past ++ _).map (fun event => (event.message, event.time)) = hist ++ [refusal]
      rw [List.map_append, hpast]
      rfl
    · cases hstep
  exact hpast

/-- **Reports of refusals are limited.** Over any refusals, on a clock that does not go back:
between two reports of one reason it has been quiet for long enough; no more reasons are remembered,
and no more are shown in such a time, than may be; what is shown is the reason of the refusal, and
is never empty. -/
theorem refusals_limited {refusals : List (String × ℕ)}
    (hclock : refusals.Pairwise fun earlier later => earlier.2 ≤ later.2) :
    ∃ s, exec step System.new refusals = some s ∧
      s.past.map (fun event => (event.message, event.time)) = refusals ∧
      (s.past.Pairwise fun earlier later => earlier.report.isSome → later.report.isSome →
        earlier.message = later.message →
        ∃ a, earlier.time ≤ a ∧ a + reportAgainAfter ≤ later.time ∧
          ∀ event ∈ s.past, event.message = earlier.message → event.time ≤ a ∨
            a + reportAgainAfter ≤ event.time) ∧
      s.reported.entries.length ≤ maxReportedOpenErrors ∧
      (∀ x, (s.past.countP fun event =>
        event.report.isSome && decide (x ≤ event.time ∧ event.time < x + reportAgainAfter)) ≤
        maxReportedOpenErrors) ∧
      ∀ event ∈ s.past, ∀ message, event.report = some message → message = event.message ∧
        message ≠ "" := by
  have hnone : ∀ event ∈ System.new.past, ∀ refusal ∈ refusals, event.time ≤ refusal.2 := by
    intro event hevent
    cases hevent
  obtain ⟨s, hrun⟩ := exec_of_clock hnone hclock
  have htracks : Tracks s := exec_invariant (fun _ _ _ h hstep => h.step hstep) tracks_new hrun
  exact ⟨s, hrun, past_eq hrun, htracks.apart, htracks.bounded, htracks.few, htracks.own⟩

/-- A reason comes twice within the ten seconds, and then again after them: it is shown the first
time and the last. -/
theorem refusals_limited_again : (exec step System.new [("no route", 0), ("no route", 5000000000),
      ("no route", 15000000000)]).map
      (fun s => s.past.map Event.report) = some [some "no route", none, some "no route"] ∧
    ∃ s, exec step System.new [("no route", 0), ("no route", 5000000000),
      ("no route", 15000000000)] = some s ∧
      s.reported.entries.length ≤ maxReportedOpenErrors := by
  refine ⟨by decide, ?_⟩
  obtain ⟨s, hrun, -, -, hbounded, -⟩ :=
    @refusals_limited [("no route", 0), ("no route", 5000000000), ("no route", 15000000000)]
      (by decide)
  exact ⟨s, hrun, hbounded⟩

end OpenErrors
end BgDesk
