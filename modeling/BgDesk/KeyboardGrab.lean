import Mathlib.Data.List.Induction
import Mathlib.Order.Nat
import BgDesk.Machine
import BgDesk.Threads

/-!
# Who owns the keyboard grab

`change_grab_status` and `deactivate_session_input` of `keyboard.rs`, on Linux. Every session window
calls them from its own isolate. The owner changes under `GRAB_STATE`; the grab itself is switched
afterwards, under `GRAB_OP_LOCK`, and only if the owner is still the one it is switched for. A
`Wait` shortly after a `Run` is put off to a thread, which knows that it is stale by the time of the
grab that it was started for.

* `GrabOwnerState.release`, `changeGrabStatusImpl` — the critical sections under `GRAB_STATE`;
* `State`, `step` — the calls, the sleeping threads and the two locks, one acquisition at a time;
* `Owned` — the owner against the requests so far; `Synced` — the switched grab against the owner;
* `State.Ordered`, `grab_ordered` — what follows for every interleaving.

Every reading of the clock is later than the one before. A call that finds rdev disabled returns at
once and is none here.
-/

namespace BgDesk
namespace KeyboardGrab

/-! ## The owner -/

/-- The window's UUID. -/
abbrev Session : Type := ℕ

/-- Nanoseconds. -/
def fromMillis (ms : ℕ) : ℕ := ms * 1000000

def grabDebounce : ℕ := fromMillis 300

structure GrabOwnerState where
  owner : Option Session
  lastGrab : Option ℕ
  deferredPending : Bool
  deriving DecidableEq

inductive ReleaseAction where
  | ignore
  | deferred (delay snapshot : ℕ)
  | immediate
  deriving DecidableEq

namespace GrabOwnerState

def new : GrabOwnerState := ⟨none, none, false⟩

/-- `release`, at a reading of the clock. -/
def release (gs : GrabOwnerState) (sessionId : Session) (debounce : Option ℕ) (now : ℕ) :
    GrabOwnerState × ReleaseAction :=
  if gs.owner ≠ some sessionId then (gs, .ignore)
  else match debounce, gs.lastGrab with
    | some debounce, some lastGrab =>
      let elapsed := now - lastGrab
      if elapsed < debounce then
        if gs.deferredPending then (gs, .ignore)
        else ({ gs with deferredPending := true },
          .deferred (debounce - elapsed + fromMillis 50) lastGrab)
      else (⟨none, none, false⟩, .immediate)
    | _, _ => (⟨none, none, false⟩, .immediate)

/-- A release that is not debounced. -/
theorem release_none (gs : GrabOwnerState) (sessionId : Session) (now : ℕ) :
    gs.release sessionId none now = if gs.owner ≠
      some sessionId then (gs, .ignore) else (new, .immediate) := rfl

end GrabOwnerState

inductive GrabState where
  | ready
  | run
  | wait
  | exit
  deriving DecidableEq

/-- A call. `immediate` is an explicit deactivation. -/
structure Request where
  state : GrabState
  sessionId : Session
  immediate : Bool
  deriving DecidableEq

/-- What is done under `GRAB_OP_LOCK`. -/
inductive Operation where
  | applyRunGrabIfOwner (sessionId : Session) (disableFirst : Bool)
  | disableGrabIfReleased
  deriving DecidableEq

/-- What is left to do when `GRAB_STATE` is dropped. -/
inductive Afterwards where
  | return : Afterwards
  /-- a thread has been started -/
  | spawn : (delay snapshot : ℕ) → Afterwards
  | operate : Operation → Afterwards
  deriving DecidableEq

/-- The critical section of `change_grab_status_impl`: the owner, `KEYBOARD_HOOKED`, and what is
left to do. -/
def changeGrabStatusImpl (gs : GrabOwnerState) (hooked : Bool) (r : Request) (now : ℕ) :
    GrabOwnerState × Bool × Afterwards :=
  match r.state with
  | .ready => (gs, hooked, .return)
  | .run =>
    if gs.owner = some r.sessionId then ({ gs with lastGrab := some now, deferredPending := false },
      hooked, .return)
    else (⟨some r.sessionId, some now, false⟩, true,
      .operate (.applyRunGrabIfOwner r.sessionId gs.owner.isSome))
  | .wait =>
    match gs.release r.sessionId (if r.immediate then none else some grabDebounce) now with
    | (gs, .ignore) => (gs, hooked, .return)
    | (gs, .deferred delay snapshot) => (gs, hooked, .spawn delay snapshot)
    | (gs, .immediate) => (gs, false, .operate .disableGrabIfReleased)
  | .exit => (gs, hooked, .return)

/-- The critical section of the thread, and whether it has released the grab. -/
def deferredRelease (gs : GrabOwnerState) (sessionId : Session) (snapshot now : ℕ) :
    GrabOwnerState × Bool :=
  if gs.lastGrab = some snapshot then
    let (gs, action) := gs.release sessionId none now
    (gs, decide (action = .immediate))
  else (gs, false)

/-! ## The calls and the threads -/

inductive Call where
  | enableGrab
  | disableGrab
  deriving DecidableEq

/-- The calls of an operation that has found its owner. -/
def Operation.calls : Operation → List Call
  | .applyRunGrabIfOwner _ disableFirst =>
    (if disableFirst then [.disableGrab] else []) ++ [.enableGrab]
  | .disableGrabIfReleased => [.disableGrab]

/-- What an operation asks of the owner. -/
def Operation.applies (op : Operation) (gs : GrabOwnerState) : Bool :=
  match op with
  | .applyRunGrabIfOwner sessionId _ => gs.owner = some sessionId
  | .disableGrabIfReleased => gs.owner.isNone && gs.lastGrab.isNone

/-- What a thread does next. -/
inductive Task where
  /-- a call before `GRAB_STATE` -/
  | change : Request → Task
  /-- a thread that sleeps, for one who may wake at `due` -/
  | deferred : (sessionId : Session) → (snapshot due : ℕ) → Task
  /-- before `GRAB_OP_LOCK` -/
  | operate : Operation → Task
  deriving DecidableEq

/-- Everything. The code does not keep the calls or the requests. -/
structure State where
  gs : GrabOwnerState
  hooked : Bool
  tasks : List Task
  /-- who holds `GRAB_OP_LOCK`, and whether it has found its owner -/
  opLock : Option (Operation × Bool)
  calls : List Call
  clock : ℕ
  requests : List Request
  deriving DecidableEq

inductive Act where
  | call : Request → Act
  /-- the task takes `GRAB_STATE`, at a reading of the clock -/
  | enter : (i now : ℕ) → Act
  /-- the task takes `GRAB_OP_LOCK` -/
  | lock : (i : ℕ) → Act
  /-- whoever holds `GRAB_OP_LOCK` takes `GRAB_STATE` -/
  | check : Act
  /-- and makes its calls -/
  | finish : Act
  deriving DecidableEq

/-- The task after the critical section of a call. -/
def Afterwards.tasks (r : Request) (now : ℕ) : Afterwards → List Task
  | .return => []
  | .spawn delay snapshot => [.deferred r.sessionId snapshot (now + delay)]
  | .operate op => [.operate op]

namespace State

def new : State := ⟨.new, false, [], none, [], 0, []⟩

/-- The `i`-th task takes `GRAB_STATE`. -/
def enter (s : State) (i now : ℕ) : Option State :=
  if s.clock < now then
    match s.tasks[i]? with
    | some (.change r) =>
      let (gs, hooked, afterwards) := changeGrabStatusImpl s.gs s.hooked r now
      some { s with
        gs, hooked, tasks := s.tasks.eraseIdx i ++ afterwards.tasks r now, clock := now,
        requests := s.requests ++ [r] }
    | some (.deferred sessionId snapshot due) =>
      if due ≤ now then
        let (gs, released) := deferredRelease s.gs sessionId snapshot now
        some { s with
          gs
          hooked := if released then false else s.hooked
          tasks := s.tasks.eraseIdx i ++ if released then [.operate .disableGrabIfReleased] else []
          clock := now }
      else none
    | _ => none
  else none

def step (s : State) : Act → Option State
  | .call r => some { s with tasks := s.tasks ++ [.change r] }
  | .enter i now => s.enter i now
  | .lock i =>
    match s.opLock, s.tasks[i]? with
    | none, some (.operate op) =>
      some { s with opLock := some (op, false), tasks := s.tasks.eraseIdx i }
    | _, _ => none
  | .check =>
    match s.opLock with
    | some (op, false) =>
      some { s with opLock := if op.applies s.gs then some (op, true) else none }
    | _ => none
  | .finish =>
    match s.opLock with
    | some (op, true) => some { s with opLock := none, calls := s.calls ++ op.calls }
    | _ => none

/-- No call is in progress and no thread is outstanding. -/
def Quiescent (s : State) : Prop := s.tasks = [] ∧ s.opLock = none

instance (s : State) : Decidable s.Quiescent := inferInstanceAs (Decidable (_ ∧ _))

end State

/-! ## The owner against the requests -/

/-- Who should own the grab: the session of the last `Run`, until it waits. -/
def intended (requests : List Request) : Option Session :=
  requests.foldl (fun owner r => match r.state with
    | .run => some r.sessionId
    | .wait => if owner = some r.sessionId then none else owner
    | _ => owner) none

theorem intended_append_singleton (requests : List Request) (r : Request) :
    intended (requests ++ [r]) = match r.state with
      | .run => some r.sessionId
      | .wait => if intended requests = some r.sessionId then none else intended requests
      | _ => intended requests := by
  rw [intended, List.foldl_append]
  rfl

/-- What a call does under `GRAB_STATE`. -/
inductive Turn (gs : GrabOwnerState) (hooked : Bool) (r : Request) (now : ℕ) : GrabOwnerState ×
  Bool × Afterwards → Prop where
  | quiet :
    r.state ≠ .run → (r.state = .wait → gs.owner = some r.sessionId → gs.deferredPending = true) →
      Turn gs hooked r now (gs, hooked, .return)
  | refresh : r.state = .run → gs.owner = some r.sessionId →
      Turn gs hooked r now ({ gs with lastGrab := some now, deferredPending := false }, hooked,
        .return)
  | take (disableFirst : Bool) : r.state = .run → gs.owner ≠ some r.sessionId →
      Turn gs hooked r now
        (⟨some r.sessionId, some now, false⟩, true,
          .operate (.applyRunGrabIfOwner r.sessionId disableFirst))
  | defer (delay snapshot : ℕ) : r.state = .wait → gs.owner = some r.sessionId →
    gs.lastGrab = some snapshot →
      Turn gs hooked r now ({ gs with deferredPending := true }, hooked, .spawn delay snapshot)
  | release : r.state = .wait → gs.owner = some r.sessionId →
      Turn gs hooked r now (.new, false, .operate .disableGrabIfReleased)

theorem turn (gs : GrabOwnerState) (hooked : Bool) (r : Request) (now : ℕ) :
    Turn gs hooked r now (changeGrabStatusImpl gs hooked r now) := by
  rw [changeGrabStatusImpl]
  cases hr : r.state with
  | ready => exact .quiet (by simp [hr]) (by simp [hr])
  | exit => exact .quiet (by simp [hr]) (by simp [hr])
  | run =>
    by_cases howner : gs.owner = some r.sessionId
    · simp only [if_pos howner]
      exact .refresh hr howner
    · simp only [if_neg howner]
      exact .take _ hr howner
  | wait =>
    by_cases howner : gs.owner = some r.sessionId
    · have hnot : ¬gs.owner ≠ some r.sessionId := not_not_intro howner
      cases himm : r.immediate with
      | true =>
        simp only [if_true, GrabOwnerState.release_none, if_neg hnot]
        exact .release hr howner
      | false =>
        cases hlast : gs.lastGrab with
        | none =>
          simp only [Bool.false_eq_true, if_false, GrabOwnerState.release, if_neg hnot, hlast]
          exact .release hr howner
        | some lastGrab =>
          simp only [Bool.false_eq_true, if_false, GrabOwnerState.release, if_neg hnot, hlast]
          by_cases helapsed : now - lastGrab < grabDebounce
          · cases hpending : gs.deferredPending with
            | true =>
              simp only [if_pos helapsed, if_true]
              exact .quiet (by simp [hr]) fun _ _ => hpending
            | false =>
              simp only [if_pos helapsed, Bool.false_eq_true, if_false]
              rw [← hlast]
              exact .defer _ _ hr howner hlast
          · simp only [if_neg helapsed]
            exact .release hr howner
    · simp only [GrabOwnerState.release, if_pos howner]
      exact .quiet (by simp [hr]) fun _ h => absurd h howner

/-- The owner, against the requests and the threads that sleep. -/
structure Owned (s : State) : Prop where
  hooked : s.hooked = s.gs.owner.isSome
  lastGrab : s.gs.lastGrab.isSome = s.gs.owner.isSome
  past : ∀ t ∈ s.gs.lastGrab, t ≤ s.clock
  /-- a release that has been put off leaves the owner for a while -/
  owner : s.gs.owner = intended s.requests ∨ intended s.requests = none ∧
    s.gs.deferredPending = true
  pending : s.gs.deferredPending = true → ∃ sessionId snapshot due,
    .deferred sessionId snapshot due ∈ s.tasks ∧
    s.gs.owner = some sessionId ∧ s.gs.lastGrab = some snapshot
  /-- a thread that is not stale will release a grab that is to be released -/
  threads : ∀ sessionId snapshot due, .deferred sessionId snapshot due ∈ s.tasks →
    snapshot ≤ s.clock ∧
    (s.gs.lastGrab = some snapshot → intended s.requests = none)

theorem Owned.new : Owned .new where
  hooked := rfl
  lastGrab := rfl
  past := by simp [State.new, GrabOwnerState.new]
  owner := .inl rfl
  pending := by simp [State.new, GrabOwnerState.new]
  threads := by simp [State.new]

variable {s : State} {i now : ℕ} {op : Operation}

/-- The owner after the critical section of a call. -/
theorem Owned.change (h : Owned s) (hnow : s.clock < now) {r : Request}
    (hi : s.tasks[i]? = some (.change r)) {gs : GrabOwnerState} {hooked : Bool}
    {afterwards : Afterwards} (hturn : Turn s.gs s.hooked r now (gs, hooked, afterwards)) :
    Owned { s with
      gs, hooked, tasks := s.tasks.eraseIdx i ++ afterwards.tasks r now, clock := now,
      requests := s.requests ++ [r] } := by
  have hold : ∀ {sessionId snapshot due}, Task.deferred sessionId snapshot due ∈
    s.tasks.eraseIdx i →
      Task.deferred sessionId snapshot due ∈ s.tasks := fun hin => List.mem_of_mem_eraseIdx hin
  have hkeep : ∀ {sessionId snapshot due}, Task.deferred sessionId snapshot due ∈ s.tasks →
      Task.deferred sessionId snapshot due ∈ s.tasks.eraseIdx i := fun hin =>
        mem_eraseIdx_of_ne hi hin (by simp)
  have hpast : ∀ t ∈ s.gs.lastGrab, t ≤ now := fun t ht => (h.past t ht).trans hnow.le
  have hthreads := h.threads
  have hint := intended_append_singleton s.requests r
  cases hturn with
  | quiet hrun hwait =>
    have hnone : intended s.requests = none → intended (s.requests ++ [r]) = none := by
      intro hnone
      rw [hint]
      cases hr : r.state <;> simp_all
    refine ⟨h.hooked, h.lastGrab, hpast, ?_, ?_, ?_⟩
    · obtain heq | ⟨hnone', hpending⟩ := h.owner
      · change s.gs.owner = intended (s.requests ++ [r]) ∨ intended (s.requests ++ [r]) = none ∧
          s.gs.deferredPending = true
        rw [hint]
        cases hr : r.state with
        | ready => exact .inl heq
        | exit => exact .inl heq
        | run => exact absurd hr hrun
        | wait =>
          by_cases howner : s.gs.owner = some r.sessionId
          · exact .inr ⟨if_pos (heq ▸ howner), hwait hr howner⟩
          · rw [← heq, if_neg howner]
            exact .inl rfl
      · exact .inr ⟨hnone hnone', hpending⟩
    · intro hpending
      obtain ⟨sessionId, snapshot, due, hin, hrest⟩ := h.pending hpending
      exact ⟨sessionId, snapshot, due, List.mem_append_left _ (hkeep hin), hrest⟩
    · intro sessionId snapshot due hin
      obtain ⟨hle, hlast⟩ :=
        hthreads _ _ _ (hold ((List.mem_append.mp hin).resolve_right List.not_mem_nil))
      exact ⟨hle.trans hnow.le, fun hh => hnone (hlast hh)⟩
  | refresh hrun howner =>
    refine ⟨h.hooked, ?_, by simp, .inl ?_, by simp, ?_⟩
    · simp [howner]
    · rw [hint, hrun]
      exact howner
    · intro sessionId snapshot due hin
      obtain ⟨hle, -⟩ :=
        hthreads _ _ _ (hold ((List.mem_append.mp hin).resolve_right List.not_mem_nil))
      exact ⟨hle.trans hnow.le, fun hh => absurd (Option.some.inj hh) (by omega)⟩
  | take disableFirst hrun howner =>
    refine ⟨rfl, rfl, by simp, .inl ?_, by simp, ?_⟩
    · rw [hint, hrun]
    · intro sessionId snapshot due hin
      have hin := (List.mem_append.mp hin).resolve_right (by simp [Afterwards.tasks])
      obtain ⟨hle, -⟩ := hthreads _ _ _ (hold hin)
      exact ⟨hle.trans hnow.le, fun hh => absurd (Option.some.inj hh) (by omega)⟩
  | defer delay snapshot hwait howner hlast =>
    have hnone : intended (s.requests ++ [r]) = none := by
      rw [hint, hwait]
      obtain heq | ⟨hnone, -⟩ := h.owner
      · exact if_pos (heq ▸ howner)
      · simp [hnone]
    refine ⟨h.hooked, h.lastGrab, hpast, .inr ⟨hnone, rfl⟩, ?_, ?_⟩
    · exact fun _ => ⟨_, _, _, List.mem_append_right _ List.mem_cons_self, howner, hlast⟩
    · intro sessionId snapshot' due hin
      refine ⟨?_, fun _ => hnone⟩
      rcases List.mem_append.mp hin with hin | hin
      · exact (hthreads _ _ _ (hold hin)).1.trans hnow.le
      · cases List.mem_singleton.mp hin
        exact (h.past _ hlast).trans hnow.le
  | release hwait howner =>
    have hnone : intended (s.requests ++ [r]) = none := by
      rw [hint, hwait]
      obtain heq | ⟨hnone, -⟩ := h.owner
      · exact if_pos (heq ▸ howner)
      · simp [hnone]
    refine ⟨rfl, rfl, by simp [GrabOwnerState.new], .inl hnone.symm, by
      simp [GrabOwnerState.new], ?_⟩
    intro sessionId snapshot due hin
    have hin := (List.mem_append.mp hin).resolve_right (by simp [Afterwards.tasks])
    exact ⟨(hthreads _ _ _ (hold hin)).1.trans hnow.le, fun _ => hnone⟩

/-- What a thread does under `GRAB_STATE`. -/
theorem deferredRelease_cases (gs : GrabOwnerState) (sessionId : Session) (snapshot now : ℕ) :
    deferredRelease gs sessionId snapshot now = (gs, false) ∧
      (gs.lastGrab ≠ some snapshot ∨ gs.owner ≠ some sessionId) ∨
      deferredRelease gs sessionId snapshot now = (.new, true) ∧ gs.lastGrab = some snapshot ∧
        gs.owner = some sessionId := by
  rw [deferredRelease]
  by_cases hlast : gs.lastGrab = some snapshot
  · by_cases howner : gs.owner = some sessionId
    · refine .inr ⟨?_, hlast, howner⟩
      simp [hlast, GrabOwnerState.release_none, howner]
    · refine .inl ⟨?_, .inr howner⟩
      simp [hlast, GrabOwnerState.release_none, howner]
  · exact .inl ⟨if_neg hlast, .inl hlast⟩

/-- A stale thread is gone. -/
theorem Owned.wakeStale (h : Owned s) (hnow : s.clock < now) {sessionId : Session}
    {snapshot due : ℕ} (hi : s.tasks[i]? = some (.deferred sessionId snapshot due))
    (hstale : s.gs.lastGrab ≠ some snapshot ∨ s.gs.owner ≠ some sessionId) :
    Owned { s with tasks := s.tasks.eraseIdx i, clock := now } := by
  refine ⟨h.hooked, h.lastGrab, fun t ht => (h.past t ht).trans hnow.le, h.owner, ?_, ?_⟩
  · intro hpending
    obtain ⟨sessionId', snapshot', due', hin, howner, hlast⟩ := h.pending hpending
    refine ⟨sessionId', snapshot', due', mem_eraseIdx_of_ne hi hin ?_, howner, hlast⟩
    intro heq
    cases heq
    obtain hne | hne := hstale
    · exact hne hlast
    · exact hne howner
  · intro sessionId' snapshot' due' hin
    obtain ⟨hle, hlast⟩ := h.threads _ _ _ (List.mem_of_mem_eraseIdx hin)
    exact ⟨hle.trans hnow.le, hlast⟩

/-- A thread that is not stale releases the grab. -/
theorem Owned.wake (h : Owned s) (hnow : s.clock < now) {sessionId : Session} {snapshot due : ℕ}
    (hi : s.tasks[i]? = some (.deferred sessionId snapshot due))
    (hlast : s.gs.lastGrab = some snapshot) : Owned { s with
      gs := .new
      hooked := false
      tasks := s.tasks.eraseIdx i ++ [.operate .disableGrabIfReleased]
      clock := now } := by
  have hnone := (h.threads _ _ _ (List.mem_of_getElem? hi)).2 hlast
  refine ⟨rfl, rfl, by simp [GrabOwnerState.new], .inl hnone.symm, by simp [GrabOwnerState.new], ?_⟩
  intro sessionId' snapshot' due' hin
  have hin := (List.mem_append.mp hin).resolve_right (by simp)
  exact ⟨(h.threads _ _ _ (List.mem_of_mem_eraseIdx hin)).1.trans hnow.le, fun _ => hnone⟩

/-! ## The grab against the owner -/

namespace State

/-- The operation has not looked at the owner yet. -/
def Outstanding (s : State) (op : Operation) : Prop :=
  .operate op ∈ s.tasks ∨ s.opLock = some (op, false)

/-- The last call, once whoever holds `GRAB_OP_LOCK` has made its own. -/
def lastCall (s : State) : Option Call :=
  match s.opLock with
  | some (op, true) => (s.calls ++ op.calls).getLast?
  | _ => s.calls.getLast?

end State

/-- The grab is switched as the owner wants it, or will be. -/
structure Synced (s : State) : Prop where
  grabbed : ∀ sessionId, s.gs.owner = some sessionId → s.lastCall = some .enableGrab ∨
    ∃ disableFirst, s.Outstanding (.applyRunGrabIfOwner sessionId disableFirst)
  released : s.gs.owner = none → s.lastCall ≠ some .enableGrab ∨
    s.Outstanding .disableGrabIfReleased

theorem Synced.new : Synced .new where
  grabbed := by simp [State.new, GrabOwnerState.new]
  released _ := .inl (by simp [State.lastCall, State.new])

theorem getLast?_calls (calls : List Call) (op : Operation) :
    (calls ++ op.calls).getLast? = some (match op with
      | .applyRunGrabIfOwner .. => .enableGrab
      | .disableGrabIfReleased => .disableGrab) := by
  cases op with
  | applyRunGrabIfOwner sessionId disableFirst =>
    rw [Operation.calls, ← List.append_assoc, List.getLast?_concat]
  | disableGrabIfReleased => rw [Operation.calls, List.getLast?_concat]

/-- A task has gone on under `GRAB_STATE`: a new owner has an operation outstanding. -/
theorem Synced.enter {s' : State} (h : Synced s) {task : Task}
    (hi : s.tasks[i]? = some task) (htask : ∀ op, task ≠ .operate op) {tasks : List Task}
    (htasks : s'.tasks = s.tasks.eraseIdx i ++ tasks)
    (hlock : s'.opLock = s.opLock) (hcalls : s'.calls = s.calls)
    (howner : s'.gs.owner = s.gs.owner ∨
      (∃ sessionId disableFirst, s'.gs.owner = some sessionId ∧
        tasks = [.operate (.applyRunGrabIfOwner sessionId disableFirst)]) ∨
      s'.gs.owner = none ∧ tasks = [.operate .disableGrabIfReleased]) : Synced s' := by
  have hlast : s'.lastCall = s.lastCall := by rw [State.lastCall, State.lastCall, hlock, hcalls]
  have hkeep : ∀ {op}, s.Outstanding op → s'.Outstanding op := by
    intro op hop
    rw [State.Outstanding, htasks, hlock]
    exact hop.imp_left fun hin => List.mem_append_left _ (mem_eraseIdx_of_ne hi hin (htask op).symm)
  have hnew : ∀ {op}, tasks = [.operate op] → s'.Outstanding op := by
    intro op hop
    rw [State.Outstanding, htasks, hop]
    exact .inl (List.mem_append_right _ List.mem_cons_self)
  obtain hsame | ⟨sessionId, disableFirst, hsome, hop⟩ | ⟨hnone, hop⟩ := howner
  · refine ⟨?_, ?_⟩
    · intro sessionId hs
      rw [hlast]
      exact (h.grabbed sessionId (hsame ▸ hs)).imp_right fun ⟨disableFirst, hop⟩ =>
        ⟨disableFirst, hkeep hop⟩
    · intro hs
      rw [hlast]
      exact (h.released (hsame ▸ hs)).imp_right hkeep
  · refine ⟨?_, ?_⟩
    · intro sessionId' hs
      obtain rfl := Option.some.inj (hsome.symm.trans hs)
      exact .inr ⟨disableFirst, hnew hop⟩
    · intro hs
      rw [hsome] at hs
      cases hs
  · refine ⟨?_, fun _ => .inr (hnew hop)⟩
    intro sessionId hs
    rw [hnone] at hs
    cases hs

/-- A task takes `GRAB_OP_LOCK`. -/
theorem Synced.lock (h : Synced s) (hfree : s.opLock = none)
    (hi : s.tasks[i]? = some (.operate op)) :
    Synced { s with opLock := some (op, false), tasks := s.tasks.eraseIdx i } := by
  have hlast : { s with opLock := some (op, false), tasks := s.tasks.eraseIdx i }.lastCall =
      s.lastCall := by
    simp only [State.lastCall, hfree]
  have hkeep : ∀ {op'}, s.Outstanding op' →
      { s with opLock := some (op, false), tasks := s.tasks.eraseIdx i }.Outstanding op' := by
    rintro op' (hin | hheld)
    · by_cases hop : op' = op
      · subst hop
        exact .inr rfl
      · exact .inl (mem_eraseIdx_of_ne hi hin (by simpa using hop))
    · rw [hfree] at hheld
      cases hheld
  refine ⟨fun sessionId hs => ?_, fun hs => ?_⟩
  · rw [hlast]
    exact (h.grabbed sessionId hs).imp_right fun ⟨disableFirst, hop⟩ => ⟨disableFirst, hkeep hop⟩
  · rw [hlast]
    exact (h.released hs).imp_right hkeep

/-- The operation looks at the owner. If it does not apply, another one is outstanding. -/
theorem Synced.check (h : Synced s) (howned : Owned s) (hheld : s.opLock = some (op, false)) :
    Synced { s with opLock := if op.applies s.gs then some (op, true) else none } := by
  have hlast : s.lastCall = s.calls.getLast? := by simp only [State.lastCall, hheld]
  by_cases happlies : op.applies s.gs = true
  · simp only [if_pos happlies]
    have hnext : { s with opLock := some (op, true) }.lastCall = (s.calls ++ op.calls).getLast? :=
      rfl
    rw [getLast?_calls] at hnext
    cases op with
    | applyRunGrabIfOwner sessionId disableFirst =>
      refine ⟨fun _ _ => .inl hnext, fun hs => ?_⟩
      have howner : s.gs.owner = some sessionId := of_decide_eq_true happlies
      rw [howner] at hs
      cases hs
    | disableGrabIfReleased =>
      refine ⟨fun sessionId hs => ?_, fun _ => .inl (by simp [hnext])⟩
      have howner : s.gs.owner.isNone = true := (Bool.and_eq_true_iff.mp happlies).1
      rw [hs] at howner
      cases howner
  · simp only [if_neg happlies]
    have hnext : { s with opLock := none }.lastCall = s.lastCall := hlast.symm
    have hkeep : ∀ {op'}, s.Outstanding op' → op' ≠ op →
        { s with opLock := none }.Outstanding op' := by
      rintro op' (hin | hheld') hne
      · exact .inl hin
      · rw [hheld] at hheld'
        cases hheld'
        exact absurd rfl hne
    refine ⟨fun sessionId hs => ?_, fun hs => ?_⟩
    · rw [hnext]
      refine (h.grabbed sessionId hs).imp_right fun ⟨disableFirst, hop⟩ =>
        ⟨disableFirst, hkeep hop ?_⟩
      rintro rfl
      exact happlies (decide_eq_true hs)
    · rw [hnext]
      refine (h.released hs).imp_right fun hop => hkeep hop ?_
      rintro rfl
      have hgrab : s.gs.lastGrab.isNone = true := by
        have hlast := howned.lastGrab
        have hs : s.gs.owner = none := hs
        rw [hs] at hlast
        simpa using hlast
      have hs : s.gs.owner = none := hs
      exact happlies (by rw [Operation.applies, hs, hgrab]; rfl)

/-- The calls are made. -/
theorem Synced.finish (h : Synced s) (hheld : s.opLock = some (op, true)) :
    Synced { s with opLock := none, calls := s.calls ++ op.calls } := by
  have hlast : { s with opLock := none, calls := s.calls ++ op.calls }.lastCall = s.lastCall := by
    simp only [State.lastCall, hheld]
  have hkeep : ∀ {op'}, s.Outstanding op' →
      { s with opLock := none, calls := s.calls ++ op.calls }.Outstanding op' := by
    rintro op' (hin | hheld')
    · exact .inl hin
    · rw [hheld] at hheld'
      cases hheld'
  refine ⟨fun sessionId hs => ?_, fun hs => ?_⟩
  · rw [hlast]
    exact (h.grabbed sessionId hs).imp_right fun ⟨disableFirst, hop⟩ => ⟨disableFirst, hkeep hop⟩
  · rw [hlast]
    exact (h.released hs).imp_right hkeep

/-! ## Every interleaving -/

namespace State

variable {s s' : State} {i now : ℕ}

/-- What one task does under `GRAB_STATE`. -/
theorem enter_cases (h : s.enter i now = some s') : s.clock < now ∧
      ((∃ r gs hooked afterwards, s.tasks[i]? = some (.change r) ∧
        Turn s.gs s.hooked r now (gs, hooked, afterwards) ∧
        s' = { s with
          gs, hooked, tasks := s.tasks.eraseIdx i ++ afterwards.tasks r now, clock := now,
          requests := s.requests ++ [r] }) ∨
      (∃ sessionId snapshot due, s.tasks[i]? = some (.deferred sessionId snapshot due) ∧
        (s.gs.lastGrab ≠ some snapshot ∨ s.gs.owner ≠ some sessionId) ∧
        s' = { s with tasks := s.tasks.eraseIdx i, clock := now }) ∨
      ∃ sessionId snapshot due, s.tasks[i]? = some (.deferred sessionId snapshot due) ∧
        s.gs.lastGrab = some snapshot ∧ s.gs.owner = some sessionId ∧
        s' = { s with
          gs := .new, hooked := false, tasks :=
            s.tasks.eraseIdx i ++ [.operate .disableGrabIfReleased], clock := now }) := by
  obtain ⟨hnow, h⟩ := Option.ite_none_right_eq_some.mp h
  refine ⟨hnow, ?_⟩
  split at h
  · next r hi => exact .inl ⟨r, _, _, _, hi, turn s.gs s.hooked r now, (Option.some.inj h).symm⟩
  · next sessionId snapshot due hi =>
    obtain ⟨-, h⟩ := Option.ite_none_right_eq_some.mp h
    obtain ⟨heq, hstale⟩ | ⟨heq, hlast, howner⟩ := deferredRelease_cases s.gs sessionId snapshot now
    · simp only [heq, Bool.false_eq_true, if_false, List.append_nil] at h
      exact .inr (.inl ⟨_, _, _, hi, hstale, (Option.some.inj h).symm⟩)
    · simp only [heq, if_true] at h
      exact .inr (.inr ⟨_, _, _, hi, hlast, howner, (Option.some.inj h).symm⟩)
  · cases h

/-- The owner, and the grab against it. -/
structure Inv (s : State) : Prop where
  owned : Owned s
  synced : Synced s

theorem Inv.enter (h : s.Inv) (henter : s.enter i now = some s') : s'.Inv := by
  obtain ⟨hnow, ⟨r, gs, hooked, afterwards, hi, hturn, rfl⟩ | ⟨sessionId, snapshot, due, hi,
    hstale, rfl⟩ |
    ⟨sessionId, snapshot, due, hi, hlast, howner, rfl⟩⟩ := enter_cases henter
  · refine ⟨h.owned.change hnow hi hturn, h.synced.enter hi (by simp) rfl rfl rfl ?_⟩
    cases hturn with
    | quiet => exact .inl rfl
    | refresh => exact .inl rfl
    | take => exact .inr (.inl ⟨_, _, rfl, rfl⟩)
    | defer => exact .inl rfl
    | release => exact .inr (.inr ⟨rfl, rfl⟩)
  · exact ⟨h.owned.wakeStale hnow hi hstale,
      h.synced.enter hi (by simp) (List.append_nil _).symm rfl rfl (.inl rfl)⟩
  · exact ⟨h.owned.wake hnow hi hlast, h.synced.enter hi (by simp)
      rfl rfl rfl (.inr (.inr ⟨rfl, rfl⟩))⟩

/-- Tasks come and go, but none of the threads that sleep. -/
theorem Owned.retask (h : Owned s) {tasks : List Task} {opLock : Option (Operation × Bool)}
    {calls : List Call} (htasks : ∀ sessionId snapshot due,
      Task.deferred sessionId snapshot due ∈ tasks ↔
        Task.deferred sessionId snapshot due ∈ s.tasks) :
    Owned { s with tasks, opLock, calls } where
  hooked := h.hooked
  lastGrab := h.lastGrab
  past := h.past
  owner := h.owner
  pending hpending := by
    obtain ⟨sessionId, snapshot, due, hin, hrest⟩ := h.pending hpending
    exact ⟨sessionId, snapshot, due, (htasks _ _ _).mpr hin, hrest⟩
  threads _ _ _ hin := h.threads _ _ _ ((htasks _ _ _).mp hin)

theorem Inv.step (h : s.Inv) {a : Act} (hstep : s.step a = some s') : s'.Inv := by
  cases a with
  | call r =>
    obtain rfl := Option.some.inj hstep
    refine ⟨Owned.retask h.owned (by simp), ?_, ?_⟩
    · intro sessionId hs
      refine (h.synced.grabbed sessionId hs).imp_right fun ⟨disableFirst, hop⟩ => ⟨disableFirst, ?_⟩
      exact hop.imp_left (List.mem_append_left _)
    · intro hs
      exact (h.synced.released hs).imp_right fun hop => hop.imp_left (List.mem_append_left _)
  | enter i now => exact h.enter hstep
  | lock i =>
    rw [State.step] at hstep
    split at hstep
    · next op hfree hi =>
      obtain rfl := Option.some.inj hstep
      refine ⟨Owned.retask h.owned fun sessionId snapshot due => ?_, h.synced.lock hfree hi⟩
      exact ⟨List.mem_of_mem_eraseIdx, fun hin => mem_eraseIdx_of_ne hi hin (by simp)⟩
    · cases hstep
  | check =>
    rw [State.step] at hstep
    split at hstep
    · next op hheld =>
      obtain rfl := Option.some.inj hstep
      exact ⟨Owned.retask h.owned fun _ _ _ => Iff.rfl, h.synced.check h.owned hheld⟩
    · cases hstep
  | finish =>
    rw [State.step] at hstep
    split at hstep
    · next op hheld =>
      obtain rfl := Option.some.inj hstep
      exact ⟨Owned.retask h.owned fun _ _ _ => Iff.rfl, h.synced.finish hheld⟩
    · cases hstep

theorem inv_of_run {as : List Act} (h : exec step new as = some s) : s.Inv :=
  exec_invariant (I := Inv) (fun _ _ _ hI hs => hI.step hs) ⟨Owned.new, Synced.new⟩ h

/-! ### What follows -/

/-- The last `Run`, and what its session has asked for since. -/
theorem intended_last_run {pre post : List Request} {r : Request} (hr : r.state = .run)
    (hpost : ∀ r' ∈ post, r'.state ≠ .run) : intended (pre ++ r :: post) =
      if ∃ r' ∈ post, r'.state = .wait ∧ r'.sessionId =
        r.sessionId then none else some r.sessionId := by
  induction post using List.reverseRecOn with
  | nil =>
    rw [intended_append_singleton, hr]
    simp
  | append_singleton post r' ih =>
    have hr' := hpost r' (List.mem_append_right _ List.mem_cons_self)
    have ih := ih fun x hx => hpost x (List.mem_append_left _ hx)
    rw [← List.cons_append, ← List.append_assoc, intended_append_singleton, ih]
    cases hs : r'.state with
    | run => exact absurd hs hr'
    | ready => simp [or_and_right, exists_or, hs]
    | exit => simp [or_and_right, exists_or, hs]
    | wait =>
      by_cases hwaited : ∃ x ∈ post, x.state = .wait ∧ x.sessionId = r.sessionId
      · have hall : ∃ x ∈ post ++ [r'], x.state = .wait ∧ x.sessionId = r.sessionId := by
          obtain ⟨x, hx, hrest⟩ := hwaited
          exact ⟨x, List.mem_append_left _ hx, hrest⟩
        rw [if_pos hwaited, if_pos hall]
        simp
      · rw [if_neg hwaited]
        by_cases hid : r'.sessionId = r.sessionId
        · rw [if_pos (show some r.sessionId = some r'.sessionId by rw [hid]),
            if_pos ⟨r', List.mem_append_right _ List.mem_cons_self, hs, hid⟩]
        · have hne : some r.sessionId ≠ some r'.sessionId := fun h => hid (Option.some.inj h).symm
          rw [if_neg, if_neg]
          · rintro ⟨x, hx, hrest⟩
            rcases List.mem_append.mp hx with hx | hx
            · exact hwaited ⟨x, hx, hrest⟩
            · rw [List.mem_singleton.mp hx] at hrest
              exact hid hrest.2
          · exact hne

/-- Without a `Run` there is no owner. -/
theorem intended_no_run {requests : List Request} (h : ∀ r ∈ requests, r.state ≠ .run) :
    intended requests = none := by
  induction requests using List.reverseRecOn with
  | nil => rfl
  | append_singleton requests r ih =>
    have ih := ih fun x hx => h x (List.mem_append_left _ hx)
    have hr := h r (List.mem_append_right _ List.mem_cons_self)
    rw [intended_append_singleton, ih]
    cases hs : r.state with
    | run => exact absurd hs hr
    | _ => simp

/-- The task is a `Wait`, or a release put off, of a session. -/
def Releases (s : State) (i : ℕ) (sessionId : Session) : Prop :=
  (∃ immediate, s.tasks[i]? = some (.change ⟨.wait, sessionId, immediate⟩)) ∨
    ∃ snapshot due, s.tasks[i]? = some (.deferred sessionId snapshot due)

/-- Ownership of the grab is in order. -/
structure Ordered (s : State) : Prop where
  hooked : s.hooked = s.gs.owner.isSome
  /-- a release of one session does nothing to the grab of another -/
  foreign : ∀ {i now s' sessionId other}, s.Releases i sessionId → s.enter i now = some s' →
    s.gs.owner = some other →
    other ≠ sessionId → s'.gs = s.gs ∧ s'.hooked = s.hooked ∧ s'.tasks = s.tasks.eraseIdx i
  /-- where the grab is about to be disabled and there is an owner again, its own grab is still to
  come -/
  disable : ∀ {sessionId}, s.opLock = some (.disableGrabIfReleased, true) →
    s.gs.owner = some sessionId →
    ∃ disableFirst, .operate (.applyRunGrabIfOwner sessionId disableFirst) ∈ s.tasks
  /-- the session of the last `Run` owns the grab, unless it has asked for the release since -/
  lastRun : s.Quiescent → ∀ {pre : List Request} {r : Request} {post : List Request},
    s.requests = pre ++ r :: post → r.state = .run → (∀ r' ∈ post, r'.state ≠ .run) →
    s.gs.owner = if ∃ r' ∈ post, r'.state = .wait ∧
      r'.sessionId = r.sessionId then none else some r.sessionId
  noRun : s.Quiescent → (∀ r ∈ s.requests, r.state ≠ .run) → s.gs.owner = none
  /-- the grab is switched accordingly -/
  switched : s.Quiescent → (s.calls.getLast? = some .enableGrab ↔ s.gs.owner.isSome = true)

theorem Inv.owner_of_quiescent (h : s.Inv) (hq : s.Quiescent) :
    s.gs.owner = intended s.requests := by
  obtain heq | ⟨-, hpending⟩ := h.owned.owner
  · exact heq
  · -- the release that has been put off has a thread
    obtain ⟨_, _, _, hin, -⟩ := h.owned.pending hpending
    rw [hq.1] at hin
    cases hin

theorem not_outstanding (hq : s.Quiescent) (op : Operation) : ¬s.Outstanding op := by
  rintro (hin | hheld)
  · rw [hq.1] at hin
    cases hin
  · rw [hq.2] at hheld
    cases hheld

theorem enter_foreign {sessionId other : Session} (hr : s.Releases i sessionId)
    (henter : s.enter i now = some s') (howner : s.gs.owner = some other)
    (hne : other ≠ sessionId) :
    s'.gs = s.gs ∧ s'.hooked = s.hooked ∧ s'.tasks = s.tasks.eraseIdx i := by
  have hother : s.gs.owner ≠ some sessionId := by
    rw [howner]
    exact fun heq => hne (Option.some.inj heq)
  obtain ⟨-, ⟨r, gs, hooked, afterwards, hi, hturn, rfl⟩ | ⟨_, _, _, hi, -, rfl⟩ | ⟨_, _, _, hi, -,
    howner', rfl⟩⟩ :=
    enter_cases henter
  · have hr : r.state = .wait ∧ r.sessionId = sessionId := by
      obtain ⟨immediate, hi'⟩ | ⟨_, _, hi'⟩ := hr
      · cases hi.symm.trans hi'
        exact ⟨rfl, rfl⟩
      · cases hi.symm.trans hi'
    obtain ⟨hwait, rfl⟩ := hr
    cases hturn with
    | quiet => exact ⟨rfl, rfl, List.append_nil _⟩
    | refresh hrun =>
      rw [hwait] at hrun
      cases hrun
    | take _ hrun =>
      rw [hwait] at hrun
      cases hrun
    | defer _ _ _ hown => exact absurd hown hother
    | release _ hown => exact absurd hown hother
  · exact ⟨rfl, rfl, rfl⟩
  · obtain ⟨_, hi'⟩ | ⟨_, _, hi'⟩ := hr
    · cases hi.symm.trans hi'
    · cases hi.symm.trans hi'
      exact absurd howner' hother

theorem Inv.ordered (h : s.Inv) : s.Ordered where
  hooked := h.owned.hooked
  foreign hr henter howner hne := enter_foreign hr henter howner hne
  disable := by
    intro sessionId hheld howner
    obtain hlast | ⟨disableFirst, hin | hheld'⟩ := h.synced.grabbed sessionId howner
    · rw [lastCall, hheld] at hlast
      change (s.calls ++ Operation.calls .disableGrabIfReleased).getLast? = _ at hlast
      rw [getLast?_calls] at hlast
      cases hlast
    · exact ⟨disableFirst, hin⟩
    · rw [hheld] at hheld'
      cases hheld'
  lastRun hq _ _ _ hreq hr hpost := by
    rw [h.owner_of_quiescent hq, hreq, intended_last_run hr hpost]
  noRun hq hnone := by rw [h.owner_of_quiescent hq, intended_no_run hnone]
  switched hq := by
    have hlast : s.lastCall = s.calls.getLast? := by rw [lastCall, hq.2]
    rw [← hlast]
    cases howner : s.gs.owner with
    | none =>
      have hnot := (h.synced.released howner).resolve_right (not_outstanding hq _)
      simp [hnot]
    | some sessionId =>
      refine iff_of_true ((h.synced.grabbed sessionId howner).resolve_right ?_) rfl
      rintro ⟨disableFirst, hop⟩
      exact not_outstanding hq _ hop

/-- **Ownership of the keyboard grab**, for every interleaving. -/
theorem grab_ordered {as : List Act} (h : exec step new as = some s) : s.Ordered :=
  (inv_of_run h).ordered

/-- Window 1 takes the grab, window 2 takes it over, and the `Wait` of window 1 comes too late; then
window 2 waits at once, is put off, and its thread releases. -/
theorem grab_ordered_handoff : ∃ s : State, exec step new
        [.call ⟨.run, 1, false⟩, .enter 0 10, .call ⟨.run, 2, false⟩, .call ⟨.wait, 1, false⟩,
          .enter 1 20, .enter 1 30,
          .lock 0, .check, .lock 0, .check, .finish, .call ⟨.wait, 2, false⟩, .enter 0 40,
            .enter 0 400000000, .lock 0, .check,
          .finish] = some s ∧
      s.Ordered ∧ s.Quiescent ∧ s.gs.owner = none ∧
        s.calls = [.disableGrab, .enableGrab, .disableGrab] := by
  have hrun : ((exec step new
        [.call ⟨.run, 1, false⟩, .enter 0 10, .call ⟨.run, 2, false⟩, .call ⟨.wait, 1, false⟩,
          .enter 1 20, .enter 1 30,
          .lock 0, .check, .lock 0, .check, .finish, .call ⟨.wait, 2, false⟩, .enter 0 40,
            .enter 0 400000000, .lock 0, .check,
          .finish]).any fun s =>
            decide (s.Quiescent ∧ s.gs.owner = none ∧
              s.calls = [.disableGrab, .enableGrab, .disableGrab])) =
      true := by decide +kernel
  obtain ⟨s, hs, hp⟩ := (Option.any_eq_true _ _).mp hrun
  exact ⟨s, hs, grab_ordered hs, of_decide_eq_true hp⟩

end State

end KeyboardGrab
end BgDesk
