import Mathlib.Algebra.Order.BigOperators.Group.List
import Mathlib.Algebra.Order.Ring.Nat
import BgDesk.Machine
import BgDesk.Threads
import BgDesk.DrmConn

/-!
# One refresh at a time

`schedule_drm_cache_refresh` of `src/ipc/drm.rs`, as far as its two flags go. Callers announce a
request and then try to run; a thread that runs takes the announcement back before it enumerates,
and looks for another one before it gives the slot away, and once more after that.

Any number of callers and of threads go on in any order, one operation on a flag at a time. A thread
that is to be spawned can be: the branch that gives the slot away where it cannot is left out. What
a run keeps of the past is `calls` and `completed`; no step looks at it.

* `step` — one operation;
* `Exclusive`, `Coming`, `Announced` — the slot, the enumeration that is to come for the last call,
  and who will see an announcement;
* `refresh_not_lost` — every run;
* `settles` — without further calls, all that was announced is enumerated;
* `Follows.step` — the refresh in the model of a connection (`Drm.Refresh`) follows this one.
-/

namespace BgDesk
namespace SingleFlight

/-- Where a thread of `drm-cache-refresh` stands. -/
inductive Worker where
  /-- before `PENDING.store(false)` -/
  | clearing
  /-- before `drm_enumerate_all_displays` -/
  | starting
  /-- within it, with the number of calls that had been announced when it started -/
  | enumerating (seen : ℕ)
  /-- before the first look at `PENDING` -/
  | checking
  /-- before the slot is released -/
  | releasing
  /-- before the second look at `PENDING` -/
  | rechecking
  /-- before the slot is taken again -/
  | retaking
  | exited
  deriving DecidableEq

namespace Worker

/-- The thread has the slot. -/
def holds : Worker → Bool
  | clearing | starting | enumerating _ | checking | releasing => true
  | rechecking | retaking | exited => false

/-- The thread enumerates. -/
def enumerates : Worker → Bool
  | enumerating _ => true
  | _ => false

/-- The thread has released the slot, and has not seen yet whether it has to take it again. -/
def between : Worker → Bool
  | rechecking | retaking => true
  | _ => false

end Worker

/-- The flags, the callers and the threads. -/
structure State where
  running : Bool
  pending : Bool
  /-- callers between `PENDING.store(true)` and `RUNNING.swap(true)` -/
  announced : ℕ
  /-- callers that were given the slot and have not spawned the thread yet -/
  spawning : ℕ
  workers : List Worker
  /-- how often `PENDING.store(true)` was reached -/
  calls : ℕ
  /-- for each enumeration that completed, how many calls had been announced when it started -/
  completed : List ℕ
  deriving DecidableEq

/-- At first. -/
def State.new : State := ⟨false, false, 0, 0, [], 0, []⟩

inductive Act where
  /-- a caller: `PENDING.store(true)` -/
  | announce
  /-- a caller: `RUNNING.swap(true)` -/
  | swap
  /-- a caller: the thread -/
  | spawn
  /-- a thread goes on -/
  | worker (i : ℕ)
  deriving DecidableEq

/-- The thread of that index is somewhere else. -/
def State.goto (s : State) (i : ℕ) (worker : Worker) : State :=
  { s with workers := s.workers.set i worker }

/-- The loop of the thread, one step. -/
def workerStep (s : State) (i : ℕ) : Worker → Option State
  | .clearing => some ({ s with pending := false }.goto i .starting)
  | .starting => some (s.goto i (.enumerating s.calls))
  | .enumerating seen => some ({ s with completed := seen :: s.completed }.goto i .checking)
  | .checking => some (s.goto i (if s.pending then .clearing else .releasing))
  | .releasing => some ({ s with running := false }.goto i .rechecking)
  | .rechecking => some (s.goto i (if s.pending then .retaking else .exited))
  | .retaking => some ({ s with running := true }.goto i (if s.running then .exited else .clearing))
  | .exited => none

/-- One step of a caller or of a thread. -/
def step (s : State) : Act → Option State
  | .announce => some { s with pending := true, announced := s.announced + 1, calls := s.calls + 1 }
  | .swap =>
    if s.announced = 0 then none
    else if s.running then some { s with announced := s.announced - 1 }
    else some { s with running := true, announced := s.announced - 1, spawning := s.spawning + 1 }
  | .spawn =>
    if s.spawning = 0 then none
    else some { s with spawning := s.spawning - 1, workers := s.workers ++ [.clearing] }
  | .worker i => s.workers[i]?.bind (workerStep s i)

/-- An enumeration has started after the call of that number was announced, and has completed. -/
def Served (s : State) (call : ℕ) : Prop := ∃ seen ∈ s.completed, call ≤ seen

instance Served.decidable (s : State) (call : ℕ) : Decidable (Served s call) :=
  inferInstanceAs (Decidable (∃ _ ∈ _, _))

/-- All calls are served. -/
def AllServed (s : State) : Prop := ∀ call, 0 < call → call ≤ s.calls → Served s call

/-! ## The invariant -/

/-- The slot is taken by one, a caller or a thread, or by none. -/
def Exclusive (s : State) : Prop := s.workers.countP Worker.holds + s.spawning = s.running.toNat

/-- The last call is announced still, an enumeration is about to start or has started since, or one
has completed. -/
def Coming (s : State) : Prop :=
  s.calls = 0 ∨ s.pending = true ∨ Worker.starting ∈ s.workers ∨
    (∃ seen, Worker.enumerating seen ∈ s.workers ∧ s.calls ≤ seen) ∨
  Served s s.calls

/-- While nobody has the slot, an announcement is still to be looked at. -/
def Announced (s : State) : Prop :=
  s.pending = true → s.running = false → 0 < s.announced ∨ ∃ worker ∈ s.workers, worker.between

structure Inv (s : State) : Prop where
  exclusive : Exclusive s
  coming : Coming s
  announced : Announced s

theorem inv_new : Inv State.new where
  exclusive := rfl
  coming := .inl rfl
  announced := by
    intro hpending
    cases hpending

section Steps

variable {s s' : State} {i : ℕ} {pc : Worker}

/-- The slot after a thread has gone on. -/
theorem Exclusive.goto (h : Exclusive s) (hi : s.workers[i]? = some pc) (next : Worker) :
    (s.workers.set i next).countP Worker.holds + s.spawning + pc.holds.toNat = s.running.toNat +
      next.holds.toNat := by
  have hcount := countP_step (p := Worker.holds) hi next
  rw [Exclusive] at h
  omega

/-- A thread that keeps the slot, or goes on without it. -/
theorem Exclusive.keep (h : Exclusive s) (hi : s.workers[i]? = some pc) {next : Worker}
    (hholds : next.holds = pc.holds) :
    (s.workers.set i next).countP Worker.holds + s.spawning = s.running.toNat := by
  have hgoto := h.goto hi next
  rw [hholds] at hgoto
  omega

/-- A thread that does not start an enumeration and is not within one has nothing to do with what is
coming. -/
theorem Coming.goto (h : Coming s) (hi : s.workers[i]? = some pc) (hstarting : pc ≠ .starting)
    (henumerating : pc.enumerates = false) (next : Worker) : Coming (s.goto i next) := by
  rcases h with hnone | hpending | hstart | ⟨seen, hseen, hle⟩ | hserved
  · exact .inl hnone
  · exact .inr (.inl hpending)
  · exact .inr (.inr (.inl (mem_set_of_ne hi hstart hstarting.symm next)))
  · refine .inr (.inr (.inr (.inl ⟨seen, mem_set_of_ne hi hseen ?_ next, hle⟩)))
    rintro rfl
    cases henumerating
  · exact .inr (.inr (.inr (.inr hserved)))

/-- A thread that was not between its release and its second look leaves to the others what was
announced. -/
theorem Announced.goto (h : Announced s) (hi : s.workers[i]? = some pc)
    (hbetween : pc.between = false) (next : Worker) : Announced (s.goto i next) := by
  intro hpending hrunning
  rcases h hpending hrunning with hannounced | ⟨other, hother, hlook⟩
  · exact .inl hannounced
  · refine .inr ⟨other, mem_set_of_ne hi hother ?_ next, hlook⟩
    rintro rfl
    rw [hbetween] at hlook
    cases hlook

/-- A thread goes on. -/
theorem Inv.worker (h : Inv s) (hi : s.workers[i]? = some pc)
    (hstep : workerStep s i pc = some s') : Inv s' := by
  cases pc with
  | clearing =>
    obtain rfl := Option.some.inj hstep
    refine ⟨h.exclusive.keep hi rfl, .inr (.inr (.inl (mem_set_self hi _))), ?_⟩
    intro hpending
    cases hpending
  | starting =>
    obtain rfl := Option.some.inj hstep
    refine ⟨h.exclusive.keep hi rfl, ?_, h.announced.goto hi rfl _⟩
    exact .inr (.inr (.inr (.inl ⟨s.calls, mem_set_self hi _, Nat.le_refl _⟩)))
  | enumerating seen =>
    obtain rfl := Option.some.inj hstep
    refine ⟨h.exclusive.keep hi rfl, ?_, Announced.goto
      (s := { s with completed := seen :: s.completed }) h.announced hi rfl _⟩
    rcases h.coming with hnone | hpending | hstart | ⟨seen', hseen, hle⟩ | ⟨seen', hseen, hle⟩
    · exact .inl hnone
    · exact .inr (.inl hpending)
    · exact .inr (.inr (.inl (mem_set_of_ne hi hstart (by rintro ⟨⟩) _)))
    · by_cases hsame : seen' = seen
      · subst hsame
        exact .inr (.inr (.inr (.inr ⟨seen', List.mem_cons_self .., hle⟩)))
      · have hne : Worker.enumerating seen' ≠ .enumerating seen := fun heq =>
          hsame (Worker.enumerating.inj heq)
        exact .inr (.inr (.inr (.inl ⟨seen', mem_set_of_ne hi hseen hne _, hle⟩)))
    · exact .inr (.inr (.inr (.inr ⟨seen', List.mem_cons_of_mem _ hseen, hle⟩)))
  | checking =>
    obtain rfl := Option.some.inj hstep
    refine ⟨h.exclusive.keep hi ?_, h.coming.goto hi (by rintro ⟨⟩) rfl _,
      h.announced.goto hi rfl _⟩
    split <;> rfl
  | releasing =>
    obtain rfl := Option.some.inj hstep
    refine ⟨?_, Coming.goto (s := { s with running := false }) h.coming hi (by rintro ⟨⟩) rfl _, ?_⟩
    · -- the one that had the slot gives it away
      have hgoto := h.exclusive.goto hi .rechecking
      have hle := Bool.toNat_le s.running
      change (s.workers.set i .rechecking).countP Worker.holds + s.spawning = 0
      change _ + 1 = _ + 0 at hgoto
      omega
    · exact fun _ _ => .inr ⟨.rechecking, mem_set_self hi _, rfl⟩
  | rechecking =>
    obtain rfl := Option.some.inj hstep
    refine ⟨h.exclusive.keep hi ?_, h.coming.goto hi (by rintro ⟨⟩) rfl _, ?_⟩
    · split <;> rfl
    · intro hpending _
      change s.pending = true at hpending
      rw [if_pos hpending]
      exact .inr ⟨.retaking, mem_set_self hi _, rfl⟩
  | retaking =>
    obtain rfl := Option.some.inj hstep
    refine ⟨?_, Coming.goto (s := { s with running := true }) h.coming hi (by rintro ⟨⟩) rfl _, ?_⟩
    · change (s.workers.set i _).countP Worker.holds + s.spawning = 1
      cases hrunning : s.running with
      | true =>
        have hkeep := h.exclusive.keep hi (rfl : Worker.exited.holds = _)
        rw [hrunning] at hkeep
        exact hkeep
      | false =>
        have hgoto := h.exclusive.goto hi .clearing
        rw [hrunning] at hgoto
        exact hgoto
    · intro _ hrunning
      cases hrunning
  | exited => cases hstep

/-- Any step. -/
theorem Inv.step (h : Inv s) {a : Act} (hstep : step s a = some s') : Inv s' := by
  cases a with
  | announce =>
    obtain rfl := Option.some.inj hstep
    exact ⟨h.exclusive, .inr (.inl rfl), fun _ _ => .inl (Nat.succ_pos _)⟩
  | swap =>
    rw [SingleFlight.step] at hstep
    split at hstep
    · cases hstep
    · split at hstep
      · rename_i hrunning
        obtain rfl := Option.some.inj hstep
        refine ⟨h.exclusive, h.coming, fun _ hnot => ?_⟩
        exact absurd (hrunning.symm.trans hnot) (by decide)
      · rename_i hrunning
        obtain rfl := Option.some.inj hstep
        refine ⟨?_, h.coming, fun _ hnot => by cases hnot⟩
        have hfree := h.exclusive
        rw [Exclusive, Bool.eq_false_of_not_eq_true hrunning] at hfree
        change s.workers.countP Worker.holds + (s.spawning + 1) = 1
        change _ = 0 at hfree
        omega
  | spawn =>
    rw [SingleFlight.step] at hstep
    split at hstep
    · cases hstep
    · rename_i hspawning
      obtain rfl := Option.some.inj hstep
      refine ⟨?_, ?_, ?_⟩
      · have hsum := h.exclusive
        rw [Exclusive] at hsum
        change (s.workers ++ [Worker.clearing]).countP Worker.holds + (s.spawning - 1) = _
        rw [List.countP_append, ← hsum]
        change _ + 1 + _ = _
        omega
      · rcases h.coming with hnone | hpending | hstart | ⟨seen, hseen, hle⟩ | hserved
        · exact .inl hnone
        · exact .inr (.inl hpending)
        · exact .inr (.inr (.inl (List.mem_append_left _ hstart)))
        · exact .inr (.inr (.inr (.inl ⟨seen, List.mem_append_left _ hseen, hle⟩)))
        · exact .inr (.inr (.inr (.inr hserved)))
      · intro hpending hrunning
        rcases h.announced hpending hrunning with hannounced | ⟨other, hother, hlook⟩
        · exact .inl hannounced
        · exact .inr ⟨other, List.mem_append_left _ hother, hlook⟩
  | worker i =>
    obtain ⟨pc, hi, hworker⟩ := Option.bind_eq_some_iff.mp hstep
    exact h.worker hi hworker

end Steps

/-! ## All runs -/

theorem inv_of_exec {as : List Act} {s : State} (h : exec step State.new as = some s) : Inv s :=
  exec_invariant (fun _ _ _ hinv hstep => hinv.step hstep) inv_new h

/-- With nobody at the slot, the last call is served or announced still, and so are those before it.
-/
theorem Inv.served {s : State} (h : Inv s) (hannounced : s.announced = 0)
    (hspawning : s.spawning = 0) (hholds : ∀ worker ∈ s.workers, worker.holds = false) :
    AllServed s ∨ s.pending = true ∧ ∃ worker ∈ s.workers, worker.between = true := by
  have hrunning : s.running = false := by
    have hexclusive := h.exclusive
    have hnone : s.workers.countP Worker.holds = 0 :=
      List.countP_eq_zero.mpr fun worker hworker => by rw [hholds worker hworker]; decide
    rw [Exclusive, hnone, hspawning] at hexclusive
    cases hrunning : s.running with
    | false => rfl
    | true =>
      rw [hrunning] at hexclusive
      cases hexclusive
  by_cases hpending : s.pending = true
  · rcases h.announced hpending hrunning with hpos | hbetween
    · exact absurd hannounced (Nat.ne_of_gt hpos)
    · exact .inr ⟨hpending, hbetween⟩
  · refine .inl fun call hpos hcall => ?_
    rcases h.coming with hnone | hpending' | hstart | ⟨seen, hseen, -⟩ | ⟨seen, hseen, hle⟩
    · omega
    · exact absurd hpending' hpending
    · exact absurd (hholds _ hstart) (by decide)
    · exact absurd (hholds _ hseen) (by rw [Worker.holds]; decide)
    · exact ⟨seen, hseen, Nat.le_trans hcall hle⟩

/-- **No request is lost.** Whatever the order of the operations of any number of callers and
threads: no two enumerations run at a time; where nobody has the slot and no caller is within a
call, every call is served, or the flag is set and a thread that has released the slot is still to
look at it or to take the slot again; and when all threads have exited, every call is served. -/
theorem refresh_not_lost {as : List Act} {s : State} (h : exec step State.new as = some s) :
    s.workers.countP Worker.enumerates ≤ 1 ∧
    (s.announced = 0 → s.spawning = 0 → (∀ worker ∈ s.workers, worker.holds = false) →
      (∀ call, 0 < call → call ≤ s.calls → Served s call) ∨ s.pending = true ∧
        ∃ worker ∈ s.workers, worker.between = true) ∧
    (s.announced = 0 → s.spawning = 0 → (∀ worker ∈ s.workers, worker = .exited) →
      ∀ call, 0 < call → call ≤ s.calls → Served s call) := by
  have hinv := inv_of_exec h
  refine ⟨?_, hinv.served, ?_⟩
  · have hexclusive := hinv.exclusive
    have hle := Bool.toNat_le s.running
    have henumerates : s.workers.countP Worker.enumerates ≤ s.workers.countP Worker.holds := by
      refine List.countP_mono_left ?_
      intro worker _ henumerates
      cases worker <;> first | rfl | cases henumerates
    rw [Exclusive] at hexclusive
    omega
  · intro hannounced hspawning hexited
    have hholds : ∀ worker ∈ s.workers, worker.holds = false :=
      fun worker hworker => by rw [hexited worker hworker]; rfl
    rcases hinv.served hannounced hspawning hholds with hserved | ⟨-, worker, hworker, hbetween⟩
    · exact hserved
    · rw [hexited worker hworker] at hbetween
      cases hbetween

/-- One call, to the end. -/
theorem refresh_not_lost_one :
    ∃ s, exec step State.new [.announce, .swap, .spawn, .worker 0, .worker 0, .worker 0, .worker 0,
      .worker 0,
    .worker 0] = some s ∧ s.calls = 1 ∧ ∀ call, 0 < call → call ≤ s.calls → Served s call :=
  ⟨⟨false, false, 0, 0, [.exited], 1, [1]⟩, by decide, rfl,
    (@refresh_not_lost [.announce, .swap, .spawn, .worker 0, .worker 0, .worker 0, .worker 0,
      .worker 0, .worker 0] _
      (by decide)).2.2 rfl rfl (by decide)⟩

/-- A second call comes after the thread has looked for one and before it releases the slot: when it
has released it, nobody has the slot, no caller is within a call, and nothing was enumerated since.
-/
theorem release_before_recheck :
    ¬∀ (as : List Act) (s : State), exec step State.new as = some s → s.announced = 0 →
      s.spawning = 0 →
    (∀ worker ∈ s.workers, worker.holds = false) → ∀ call, 0 < call → call ≤ s.calls →
      Served s call := by
  intro hall
  have hserved := hall [.announce, .swap, .spawn, .worker 0, .worker 0, .worker 0, .worker 0,
    .announce, .swap, .worker 0]
    ⟨false, true, 0, 0, [.rechecking], 2, [1]⟩ (by decide) rfl rfl (by decide) 2 (by decide)
      (by decide)
  exact absurd hserved (by decide)

/-! ## Without further calls -/

namespace Worker

/-- How many steps are left, at most, if there is no other announcement than that of now. -/
def rank (pending : Bool) : Worker → ℕ
  | clearing => 7
  | starting => if pending then 10 else 6
  | enumerating _ => if pending then 9 else 5
  | checking => if pending then 8 else 4
  | releasing => if pending then 11 else 3
  | rechecking => if pending then 10 else 2
  | retaking => 8
  | exited => 0

theorem rank_false_le (pending : Bool) (worker : Worker) :
    worker.rank false ≤ worker.rank pending := by
  cases pending
  · exact Nat.le_refl _
  · cases worker <;> exact Nat.le_of_ble_eq_true rfl

end Worker

/-- The same for all of them. -/
def State.rank (s : State) : ℕ :=
  s.announced * 9 + s.spawning * 8 + (s.workers.map (Worker.rank s.pending)).sum

section Settling

variable {s s' : State}

/-- A thread that goes on has fewer steps left. -/
theorem rank_worker {i : ℕ} {pc : Worker} (hi : s.workers[i]? = some pc)
    (hstep : workerStep s i pc = some s') : s'.rank < s.rank := by
  have hsum : ∀ next, ((s.workers.set i next).map (Worker.rank s.pending)).sum + pc.rank s.pending =
      (s.workers.map (Worker.rank s.pending)).sum + next.rank s.pending := sum_step hi
  have hrank : ∀ next, next.rank s.pending < pc.rank s.pending → s.announced * 9 + s.spawning * 8 +
      ((s.workers.set i next).map (Worker.rank s.pending)).sum < s.rank := by
    intro next hlt
    have heq := hsum next
    rw [State.rank]
    omega
  cases pc with
  | clearing =>
    obtain rfl := Option.some.inj hstep
    have hstart := sum_step (f := Worker.rank false) hi .starting
    have hle : (s.workers.map (Worker.rank false)).sum ≤
      (s.workers.map (Worker.rank s.pending)).sum :=
      List.sum_le_sum fun worker _ => Worker.rank_false_le s.pending worker
    change s.announced * 9 + s.spawning * 8 +
      ((s.workers.set i .starting).map (Worker.rank false)).sum < s.rank
    change _ + 7 = _ + 6 at hstart
    rw [State.rank]
    omega
  | starting | enumerating seen =>
    obtain rfl := Option.some.inj hstep
    refine hrank _ ?_
    rw [Worker.rank, Worker.rank]
    split <;> decide
  | checking | releasing | rechecking =>
    obtain rfl := Option.some.inj hstep
    refine hrank _ ?_
    cases s.pending <;> decide
  | retaking =>
    obtain rfl := Option.some.inj hstep
    refine hrank _ ?_
    cases s.running <;> cases s.pending <;> decide
  | exited => cases hstep

theorem rank_step {a : Act} (ha : a ≠ .announce) (hstep : step s a = some s') :
    s'.rank < s.rank := by
  cases a with
  | announce => exact absurd rfl ha
  | swap =>
    rw [step] at hstep
    split at hstep
    · cases hstep
    · split at hstep
      · obtain rfl := Option.some.inj hstep
        change (s.announced - 1) * 9 + s.spawning * 8 +
          (s.workers.map (Worker.rank s.pending)).sum < s.rank
        rw [State.rank]
        omega
      · obtain rfl := Option.some.inj hstep
        change (s.announced - 1) * 9 + (s.spawning + 1) * 8 +
          (s.workers.map (Worker.rank s.pending)).sum < s.rank
        rw [State.rank]
        omega
  | spawn =>
    rw [step] at hstep
    split at hstep
    · cases hstep
    · obtain rfl := Option.some.inj hstep
      change s.announced * 9 + (s.spawning - 1) * 8 +
        ((s.workers ++ [Worker.clearing]).map (Worker.rank s.pending)).sum < s.rank
      rw [List.map_append, List.sum_append, State.rank]
      change _ + (_ + 7) < _
      omega
  | worker i =>
    obtain ⟨pc, hi, hworker⟩ := Option.bind_eq_some_iff.mp hstep
    exact rank_worker hi hworker

/-- **Without further calls, everything comes to an end**: a run has no more steps than this, and
where nobody can go on, every call is served. -/
theorem settles {as : List Act} (h : exec step State.new as = some s) :
    (∀ bs, (∀ b ∈ bs, b ≠ .announce) → ∀ s', exec step s bs = some s' →
      bs.length + s'.rank ≤ s.rank) ∧
    ((∀ a, a ≠ .announce → step s a = none) → AllServed s) := by
  constructor
  · intro bs
    induction bs generalizing as s with
    | nil =>
      intro _ s' hrun
      obtain rfl := Option.some.inj hrun
      exact Nat.le_of_eq (Nat.zero_add _)
    | cons b bs ih =>
      intro hbs s' hrun
      obtain ⟨hb, hrest⟩ := List.forall_mem_cons.mp hbs
      obtain ⟨s₁, hstep, hrun⟩ := exec_cons.mp hrun
      have hlt := rank_step hb hstep
      have hle := ih (exec_append.mpr ⟨s, h, exec_cons.mpr ⟨s₁, hstep, exec_nil step s₁⟩⟩)
        hrest s' hrun
      rw [List.length_cons]
      omega
  · intro hstuck
    have hannounced : s.announced = 0 := by
      by_contra hne
      have hswap := hstuck .swap (by rintro ⟨⟩)
      rw [step, if_neg hne] at hswap
      split at hswap <;> cases hswap
    have hspawning : s.spawning = 0 := by
      by_contra hne
      have hspawn := hstuck .spawn (by rintro ⟨⟩)
      rw [step, if_neg hne] at hspawn
      cases hspawn
    have hexited : ∀ worker ∈ s.workers, worker = .exited := by
      intro worker hworker
      obtain ⟨i, hi⟩ := List.mem_iff_getElem?.mp hworker
      have hstay := hstuck (.worker i) (by rintro ⟨⟩)
      rw [step, hi, Option.bind_some] at hstay
      cases worker <;> first | rfl | cases hstay
    have hholds : ∀ worker ∈ s.workers, worker.holds = false :=
      fun worker hworker => by rw [hexited worker hworker]; rfl
    rcases (inv_of_exec h).served hannounced hspawning hholds with
      hserved | ⟨-, worker, hworker, hbetween⟩
    · exact hserved
    · rw [hexited worker hworker] at hbetween
      cases hbetween

/-- One call, and nobody can go on. -/
theorem settles_one :
    ∃ s, exec step State.new (.announce :: .swap :: .spawn :: List.replicate 6 (.worker 0)) =
      some s ∧ AllServed s := by
  refine ⟨⟨false, false, 0, 0, [.exited], 1, [1]⟩, by decide, ?_⟩
  refine (@settles _ (.announce :: .swap :: .spawn :: List.replicate 6 (.worker 0)) (by decide)).2
    fun a ha => ?_
  cases a with
  | announce => exact absurd rfl ha
  | swap => rfl
  | spawn => rfl
  | worker i => cases i <;> rfl

end Settling

/-! ## The refresh behind a connection -/

open Drm (Refresh RefreshPc RefreshAct)

/-- A thread of `Refresh`, which keeps what it has enumerated, and one of these. -/
inductive AtSame : RefreshPc → Worker → Prop where
  | clearing : AtSame .clearing .clearing
  | starting : AtSame .enumerating .starting
  | writing (fresh : Drm.Displays) (seen : ℕ) : AtSame (.writing fresh) (.enumerating seen)
  | bumping (changed : Bool) (seen : ℕ) : AtSame (.bumping changed) (.enumerating seen)
  | checking : AtSame .checking .checking
  | releasing : AtSame .releasing .releasing
  | rechecking : AtSame .rechecking .rechecking
  | retaking : AtSame .retaking .retaking
  | done : AtSame .done .exited

/-- **The same flags, callers and threads** in the model of a connection and in this one. There a
caller that is given the slot spawns its thread at once. -/
structure Follows (r : Refresh) (s : State) : Prop where
  running : s.running = r.running
  pending : s.pending = r.pending
  announced : s.announced = r.callers
  spawning : s.spawning = 0
  threads : List.Forall₂ AtSame r.threads s.workers

variable {r r' : Refresh} {s : State}

/-- A thread goes on in both. Over there, the cache is written before the generation is bumped; here
that is the end of the enumeration. -/
theorem Follows.thread (h : Follows r s) {i : ℕ} {pc : RefreshPc} (hi : r.threads[i]? = some pc)
    (hthread : r.thread i pc = some r') :
    ∃ acts s', exec step s acts = some s' ∧ Follows r' s' := by
  obtain ⟨worker, hworker, hsame⟩ := forall₂_getElem? h.threads hi
  have hstep : ∀ {s'}, workerStep s i worker = some s' → Follows r' s' →
      ∃ acts s', exec step s acts = some s' ∧ Follows r' s' := by
    intro s' hgo hfollows
    refine ⟨[.worker i], s', exec_cons.mpr ⟨s', ?_, exec_nil step s'⟩, hfollows⟩
    rw [step, hworker, Option.bind_some, hgo]
  have hset : ∀ {pc worker}, AtSame pc worker →
    List.Forall₂ AtSame (r.threads.set i pc) (s.workers.set i worker) :=
    fun hnext => forall₂_set_set h.threads hnext i
  cases hsame with
  | clearing =>
    obtain rfl := Option.some.inj hthread
    exact hstep rfl { h with pending := rfl, threads := hset .starting }
  | starting =>
    obtain rfl := Option.some.inj hthread
    exact hstep rfl { h with threads := hset (.writing _ _) }
  | writing fresh seen =>
    obtain rfl := Option.some.inj hthread
    -- the one here stays where it is
    obtain ⟨hlt, hself⟩ := List.getElem?_eq_some_iff.mp hworker
    have hkept := hset (.bumping (r.cache ≠ fresh) seen)
    rw [← hself, List.set_getElem_self hlt] at hkept
    exact ⟨[], s, exec_nil step s, { h with threads := hkept }⟩
  | bumping changed seen =>
    obtain rfl := Option.some.inj hthread
    exact hstep rfl { h with threads := hset .checking }
  | checking =>
    obtain rfl := Option.some.inj hthread
    refine hstep rfl { h with threads := hset ?_ }
    rw [h.pending]
    cases r.pending
    · exact .releasing
    · exact .clearing
  | releasing =>
    obtain rfl := Option.some.inj hthread
    exact hstep rfl { h with running := rfl, threads := hset .rechecking }
  | rechecking =>
    obtain rfl := Option.some.inj hthread
    refine hstep rfl { h with threads := hset ?_ }
    rw [h.pending]
    cases r.pending
    · exact .done
    · exact .retaking
  | retaking =>
    obtain rfl := Option.some.inj hthread
    refine hstep rfl { h with running := rfl, threads := hset ?_ }
    rw [h.running]
    cases r.running
    · exact .clearing
    · exact .done
  | done => cases hthread

/-- **A step of the refresh behind a connection is none, one or two steps here**, as long as a
thread that is to be spawned can be. -/
theorem Follows.step (h : Follows r s) {a : RefreshAct} (hspawned : a ≠ .swap false)
    (hstep : r.step a = some r') : ∃ acts s', exec step s acts = some s' ∧ Follows r' s' := by
  cases a with
  | hotplug topology =>
    obtain rfl := Option.some.inj hstep
    exact ⟨[], s, exec_nil _ s, { h with }⟩
  | request =>
    obtain rfl := Option.some.inj hstep
    exact ⟨[.announce], _, rfl,
      { h with pending := rfl, announced := congrArg (· + 1) h.announced }⟩
  | swap spawned =>
    cases spawned with
    | false => exact absurd rfl hspawned
    | true =>
      rw [Refresh.step] at hstep
      split at hstep
      · cases hstep
      · rename_i hcallers
        have hannounced : s.announced ≠ 0 := fun hzero => hcallers (h.announced.symm.trans hzero)
        split at hstep
        · rename_i hrunning
          obtain rfl := Option.some.inj hstep
          have hswap : SingleFlight.step s .swap =
              some { s with announced := s.announced - 1 } := by
            rw [SingleFlight.step, if_neg hannounced, if_pos (h.running.trans hrunning)]
          exact ⟨[.swap], _, exec_cons.mpr ⟨_, hswap, exec_nil _ _⟩,
            { h with announced := congrArg (· - 1) h.announced }⟩
        · rename_i hrunning
          obtain rfl := Option.some.inj hstep
          have hswap : SingleFlight.step s .swap =
              some { s with
                running := true, announced := s.announced - 1, spawning := s.spawning + 1 } := by
            rw [SingleFlight.step, if_neg hannounced, if_neg (h.running ▸ hrunning)]
          have hthreads : List.Forall₂ AtSame (r.threads ++ [.clearing])
            (s.workers ++ [.clearing]) :=
            List.rel_append h.threads (.cons .clearing .nil)
          exact ⟨[.swap, .spawn], _,
            exec_cons.mpr ⟨_, hswap, exec_cons.mpr ⟨_, rfl, exec_nil _ _⟩⟩,
            { h with
              running := rfl, announced := congrArg (· - 1) h.announced, threads := hthreads }⟩
  | thread i =>
    obtain ⟨pc, hi, hthread⟩ := Option.bind_eq_some_iff.mp hstep
    exact h.thread hi hthread

/-- So is a run of it a run here, and what holds of these flags in every run holds of those. -/
theorem Follows.run {as : List RefreshAct} (h : Follows r s) (hspawned : ∀ a ∈ as, a ≠ .swap false)
    (hrun : exec Refresh.step r as = some r') :
    ∃ acts s', exec SingleFlight.step s acts = some s' ∧ Follows r' s' := by
  induction as generalizing r s with
  | nil =>
    obtain rfl := Option.some.inj hrun
    exact ⟨[], s, exec_nil _ s, h⟩
  | cons a as ih =>
    obtain ⟨hfirst, hrest⟩ := List.forall_mem_cons.mp hspawned
    obtain ⟨r₁, hstep, hrun⟩ := exec_cons.mp hrun
    obtain ⟨acts, s₁, hacts, hfollows⟩ := h.step hfirst hstep
    obtain ⟨acts', s', hacts', hfollows'⟩ := ih hfollows hrest hrun
    exact ⟨acts ++ acts', s', exec_append.mpr ⟨s₁, hacts, hacts'⟩, hfollows'⟩

end SingleFlight
end BgDesk
