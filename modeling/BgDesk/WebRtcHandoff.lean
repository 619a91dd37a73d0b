import Mathlib.Algebra.Group.Nat.Defs
import Mathlib.Data.List.Basic
import BgDesk.Machine
import BgDesk.Threads

/-!
# Handing out a cached peer connection

`NewStreamHandoff` and `close_if_abandoned` of `libs/hbb_common/src/webrtc.rs`, for one entry of
`SESSIONS`. A connection is cached before the call that built it returns, so any number of callers
may be given it; it is to be closed when the last of them goes away and none took it. The count of
handoffs and the two flags are atomics of their own, and the handoffs touch them without the lock.

* `handoffStep` — one access to an atomic or to the lock at a time, of any caller and any close
  task;
* `Entry.Kept` — what every access preserves;
* `handoff_protocol` — no connection is closed under a caller, and none is forgotten.
-/

namespace BgDesk
namespace WebRtc

/-- `HandoffState`. -/
structure HandoffState where
  pending : ℕ
  adopted : Bool
  closing : Bool
  deriving DecidableEq

/-- A handoff: handed out; `into_inner` has stored `adopted`; `drop` has given the claim back, and
saw whether it was the last; gone. -/
inductive Handoff where
  | claimed
  | adopting
  | dropping (last : Bool)
  | gone
  deriving DecidableEq

/-- A close task with the lock: it has not looked yet; it saw no claim; nor an owner; it is done. -/
inductive CloseStage where
  | entered
  | sawNone
  | sawUnadopted
  | leaving
  deriving DecidableEq

/-- Who has the lock of `SESSIONS`: nobody; a `new_inner` that found the entry; one that may reuse
it; a close task. -/
inductive Lock where
  | free
  | looking
  | accepted
  | task (stage : CloseStage)
  deriving DecidableEq

/-- The entry, the handoffs that were ever made for it, and the close tasks that wait for the lock.
-/
structure Entry where
  state : HandoffState
  handoffs : List Handoff
  lock : Lock
  spawned : ℕ
  deriving DecidableEq

/-- The claim is not given back yet. -/
def Handoff.counts : Handoff → Bool
  | .claimed => true
  | .adopting => true
  | _ => false

def Entry.outstanding (s : Entry) : ℕ := s.handoffs.countP Handoff.counts

/-- As `new_inner` leaves the lock: the entry is inserted and claimed. -/
def Entry.inserted : Entry := ⟨⟨1, false, false⟩, [.claimed], .free, 0⟩

/-- `fetch_add` and `fetch_sub` of a `usize`, which wrap. -/
def fetchAdd (n : ℕ) : ℕ := (n + 1) % 2 ^ 64
def fetchSub (n : ℕ) : ℕ := if n = 0 then 2 ^ 64 - 1 else n - 1

/-- The accesses. `reusable` carries what `is_reusable_for` asks besides `closing`: the policy, and
the state of the connection. -/
inductive HandoffAct where
  | lookUp
  | reusable (others : Bool)
  | claim
  | adopt (i : ℕ)
  | release (i : ℕ)
  | drop (i : ℕ)
  | spawn (i : ℕ)
  | lockTask
  | loadPending
  | loadAdopted
  | storeClosing
  | unlockTask
  deriving DecidableEq

/-- One access. A handoff holds clones of the stream, and `Arc` aborts the process before there are
more than `isize::MAX` of them. -/
def handoffStep (s : Entry) : HandoffAct → Option Entry
  | .lookUp => if s.lock = .free then some { s with lock := .looking } else none
  | .reusable others =>
    if s.lock =
      .looking then some { s with lock := if !s.state.closing && others then .accepted else .free }
    else none
  | .claim =>
    if s.lock = .accepted ∧ s.outstanding < 2 ^ 63 - 1 then
      some { s with
        state := { s.state with pending := fetchAdd s.state.pending }
        handoffs := s.handoffs ++ [.claimed]
        lock := .free }
    else none
  | .adopt i =>
    if s.handoffs[i]? = some .claimed then
      some { s with
        state := { s.state with adopted := true }, handoffs := s.handoffs.set i .adopting }
    else none
  | .release i =>
    if s.handoffs[i]? = some .adopting then
      some { s with
        state := { s.state with pending := fetchSub s.state.pending }
        handoffs := s.handoffs.set i .gone }
    else none
  | .drop i =>
    if s.handoffs[i]? = some .claimed then
      some { s with
        state := { s.state with pending := fetchSub s.state.pending }
        handoffs := s.handoffs.set i (.dropping (s.state.pending == 1)) }
    else none
  | .spawn i =>
    match s.handoffs[i]? with
    | some (.dropping last) =>
      some { s with
        handoffs := s.handoffs.set i .gone
        spawned := if last && !s.state.adopted then s.spawned + 1 else s.spawned }
    | _ => none
  | .lockTask =>
    if s.lock = .free ∧ 0 < s.spawned then some { s with
      lock := .task .entered, spawned := s.spawned - 1 } else none
  | .loadPending =>
    if s.lock = .task .entered then
      some { s with lock := .task (if s.state.pending = 0 then .sawNone else .leaving) }
    else none
  | .loadAdopted =>
    if s.lock = .task .sawNone then
      some { s with lock := .task (if s.state.adopted then .leaving else .sawUnadopted) }
    else none
  | .storeClosing =>
    if s.lock = .task .sawUnadopted then
      some { s with state := { s.state with closing := true }, lock := .task .leaving }
    else none
  | .unlockTask => if s.lock = .task .leaving then some { s with lock := .free } else none

/-! ## What is kept -/

/-- A close task with the lock that has not decided yet. -/
def Lock.watching : Lock → Bool
  | .task .leaving => false
  | .task _ => true
  | _ => false

/-- A close task is still to decide, or a `drop` has yet to spawn one. -/
def Entry.Watched (s : Entry) : Prop :=
  0 < s.spawned ∨ s.lock.watching = true ∨ .dropping true ∈ s.handoffs

structure Entry.Kept (s : Entry) : Prop where
  count : s.state.pending = s.outstanding
  bound : s.outstanding < 2 ^ 63
  adopting : .adopting ∈ s.handoffs → s.state.adopted = true
  closing : s.state.closing = true → s.state.pending = 0 ∧ s.state.adopted = false ∧
    s.lock ≠ .accepted
  sawNone : s.lock = .task .sawNone → s.state.pending = 0
  sawUnadopted : s.lock = .task .sawUnadopted → s.state.pending = 0 ∧ s.state.adopted = false
  watched : s.state.pending = 0 → s.state.adopted = false → s.state.closing = false → s.Watched

theorem fetchAdd_eq {n : ℕ} (h : n < 2 ^ 63) : fetchAdd n = n + 1 := by
  unfold fetchAdd
  exact Nat.mod_eq_of_lt (by omega)

theorem fetchSub_eq {n : ℕ} (hpos : 0 < n) : fetchSub n + 1 = n := by
  rw [fetchSub, if_neg (by omega)]
  omega

/-! ## The lock -/

/-- The lock changes hands, or who has it has looked at something. -/
theorem Entry.Kept.relock {s : Entry} (h : s.Kept) {lock : Lock}
    (haccepted : lock = .accepted → s.state.closing = false)
    (hnone : lock = .task .sawNone → s.state.pending = 0)
    (hunadopted : lock = .task .sawUnadopted → s.state.pending = 0 ∧ s.state.adopted = false)
    (hwatching : s.lock.watching = true → s.state.pending = 0 → s.state.adopted = false →
    lock.watching = true) : Entry.Kept { s with lock := lock } where
  count := h.count
  bound := h.bound
  adopting := h.adopting
  closing := fun hclosing => by
    refine ⟨(h.closing hclosing).1, (h.closing hclosing).2.1, fun hlock => ?_⟩
    exact Bool.false_ne_true ((haccepted hlock).symm.trans hclosing)
  sawNone := hnone
  sawUnadopted := hunadopted
  watched := fun hpending hadopted hclosing => by
    rcases h.watched hpending hadopted hclosing with hspawned | hlock | hdropping
    · exact .inl hspawned
    · exact .inr (.inl (hwatching hlock hpending hadopted))
    · exact .inr (.inr hdropping)

/-- **A close task commits**: nobody has a claim and nobody owns the connection. -/
theorem Entry.Kept.storeClosing {s : Entry} (h : s.Kept) (hlock : s.lock = .task .sawUnadopted) :
    Entry.Kept { s with state := { s.state with closing := true }, lock := .task .leaving } where
  count := h.count
  bound := h.bound
  adopting := h.adopting
  closing := fun _ => ⟨(h.sawUnadopted hlock).1, (h.sawUnadopted hlock).2, nofun⟩
  sawNone := nofun
  sawUnadopted := nofun
  watched := nofun

theorem Entry.Kept.claim {s : Entry} (h : s.Kept) (hlock : s.lock = .accepted)
    (hbound : s.outstanding < 2 ^ 63 - 1) : Entry.Kept { s with
      state := { s.state with pending := fetchAdd s.state.pending }
      handoffs := s.handoffs ++ [.claimed]
      lock := .free } := by
  have hpending : fetchAdd s.state.pending = s.outstanding + 1 := by
    exact h.count ▸ fetchAdd_eq (h.count ▸ h.bound)
  have hcount : (s.handoffs ++ [Handoff.claimed]).countP Handoff.counts = s.outstanding + 1 := by
    rw [List.countP_append, ← Entry.outstanding]
    rfl
  refine ⟨hpending.trans hcount.symm, ?_, fun hmem => ?_, fun hclosing => ?_, nofun, nofun,
    fun hzero => ?_⟩
  · rw [Entry.outstanding, hcount]
    omega
  · rcases List.mem_append.mp hmem with hmem | hmem
    · exact h.adopting hmem
    · cases List.mem_singleton.mp hmem
  · exact absurd hlock (h.closing hclosing).2.2
  · rw [hpending] at hzero
    cases hzero

/-! ## Handoffs -/

section Steps

variable {s : Entry} {i : ℕ}

/-- While a claim is out, the connection is not being closed and no close task has seen it
abandoned. -/
theorem Entry.Kept.claimed_open (h : s.Kept) {old : Handoff} (hi : s.handoffs[i]? = some old)
    (hold : old.counts = true) :
    0 < s.state.pending ∧ s.state.closing = false ∧ s.lock ≠ .task .sawNone ∧
      s.lock ≠ .task .sawUnadopted := by
  have hpos : 0 < s.state.pending := by
    rw [h.count]
    exact countP_pos_index hi hold
  refine ⟨hpos, ?_, fun hlock => ?_, fun hlock => ?_⟩
  · by_contra hclosing
    have hzero := (h.closing (by simpa using hclosing)).1
    omega
  · have hzero := h.sawNone hlock
    omega
  · have hzero := (h.sawUnadopted hlock).1
    omega

theorem Entry.Kept.adopt (h : s.Kept) (hi : s.handoffs[i]? = some .claimed) : Entry.Kept { s with
      state := { s.state with adopted := true }, handoffs := s.handoffs.set i .adopting } := by
  obtain ⟨-, hopen, hnone, hunadopted⟩ := h.claimed_open hi rfl
  have hcount : (s.handoffs.set i .adopting).countP Handoff.counts = s.outstanding :=
    Nat.add_right_cancel (countP_step (p := Handoff.counts) hi .adopting)
  refine ⟨h.count.trans hcount.symm, lt_of_eq_of_lt hcount h.bound, fun _ => rfl,
    fun hclosing => ?_, fun hlock => absurd hlock hnone,
    fun hlock => absurd hlock hunadopted, fun _ => nofun⟩
  exact absurd hopen (by rw [hclosing]; exact nofun)

/-- A claim is given back: the count goes down by one, and does not wrap. -/
theorem Entry.Kept.fetchSub_claim (h : s.Kept) {old : Handoff} (hi : s.handoffs[i]? = some old)
    (hold : old.counts = true) (new : Handoff) (hnew : new.counts = false) :
    fetchSub s.state.pending + 1 = s.state.pending ∧
      fetchSub s.state.pending = (s.handoffs.set i new).countP Handoff.counts ∧
      (s.handoffs.set i new).countP Handoff.counts < 2 ^ 63 := by
  have hset := countP_step (p := Handoff.counts) hi new
  rw [hold, hnew, Bool.toNat_true, Bool.toNat_false, ← Entry.outstanding] at hset
  have hsub : fetchSub s.state.pending + 1 = s.state.pending :=
    fetchSub_eq (h.claimed_open hi hold).1
  have hcount := h.count
  have hbound := h.bound
  exact ⟨hsub, by omega, by omega⟩

theorem Entry.Kept.release (h : s.Kept) (hi : s.handoffs[i]? = some .adopting) : Entry.Kept { s with
      state := { s.state with pending := fetchSub s.state.pending }
      handoffs := s.handoffs.set i .gone } := by
  obtain ⟨-, hopen, hnone, hunadopted⟩ := h.claimed_open hi rfl
  obtain ⟨-, hcount, hbound⟩ := h.fetchSub_claim hi rfl .gone rfl
  have hadopted := h.adopting (List.mem_of_getElem? hi)
  refine ⟨hcount, hbound, fun _ => hadopted, fun hclosing => ?_, fun hlock => absurd hlock hnone,
    fun hlock => absurd hlock hunadopted, fun _ hadopted' => ?_⟩
  · exact absurd hopen (by rw [hclosing]; exact nofun)
  · exact absurd hadopted (by rw [hadopted']; exact nofun)

/-- **A claim is dropped**: whoever brings the count to zero knows it. -/
theorem Entry.Kept.drop (h : s.Kept) (hi : s.handoffs[i]? = some .claimed) : Entry.Kept { s with
      state := { s.state with pending := fetchSub s.state.pending }
      handoffs := s.handoffs.set i (.dropping (s.state.pending == 1)) } := by
  obtain ⟨-, hopen, hnone, hunadopted⟩ := h.claimed_open hi rfl
  obtain ⟨hsub, hcount, hbound⟩ := h.fetchSub_claim hi rfl (.dropping (s.state.pending == 1)) rfl
  obtain ⟨hlt, -⟩ := List.getElem?_eq_some_iff.mp hi
  refine ⟨hcount, hbound, fun hmem => ?_, fun hclosing => ?_, fun hlock => absurd hlock hnone,
    fun hlock => absurd hlock hunadopted, fun hzero _ _ => .inr (.inr ?_)⟩
  · rcases List.mem_or_eq_of_mem_set hmem with hmem | hmem
    · exact h.adopting hmem
    · cases hmem
  · exact absurd hopen (by rw [hclosing]; exact nofun)
  · have hlast : (s.state.pending == 1) = true := by
      rw [beq_iff_eq]
      dsimp only at hzero
      omega
    rw [hlast]
    exact List.mem_iff_getElem.mpr ⟨i, by rwa [List.length_set], List.getElem_set_self _⟩

/-- The last to drop spawns a close task, unless the connection has been adopted. -/
theorem Entry.Kept.spawn (h : s.Kept) {last : Bool} (hi : s.handoffs[i]? = some (.dropping last)) :
    Entry.Kept { s with
      handoffs := s.handoffs.set i .gone
      spawned := if last && !s.state.adopted then s.spawned + 1 else s.spawned } := by
  have hcount : (s.handoffs.set i .gone).countP Handoff.counts = s.outstanding :=
    countP_step (p := Handoff.counts) hi .gone
  refine ⟨h.count.trans hcount.symm, lt_of_eq_of_lt hcount h.bound, fun hmem => ?_, h.closing,
    h.sawNone, h.sawUnadopted,
    fun hzero hadopted hclosing => ?_⟩
  · rcases List.mem_or_eq_of_mem_set hmem with hmem | hmem
    · exact h.adopting hmem
    · cases hmem
  · cases last with
    | true =>
      refine .inl ?_
      rw [show s.state.adopted = false from hadopted]
      exact Nat.succ_pos s.spawned
    | false =>
      rcases h.watched hzero hadopted hclosing with hspawned | hlock | hdropping
      · exact .inl hspawned
      · exact .inr (.inl hlock)
      · exact .inr (.inr (mem_set_of_ne hi hdropping (by rintro ⟨⟩) _))

end Steps

/-! ## Runs -/

/-- The close task takes the lock, and is now the one that watches. -/
theorem Entry.Kept.lockTask {s s' : Entry} (h : s.Kept)
    (hstep : handoffStep s .lockTask = some s') : s'.Kept := by
  rw [handoffStep] at hstep
  split at hstep
  · rename_i hlock
    obtain rfl := Option.some.inj hstep
    have hentered : Entry.Kept { s with lock := .task .entered } :=
      h.relock nofun nofun nofun fun _ _ _ => rfl
    exact ⟨hentered.count, hentered.bound, hentered.adopting, hentered.closing, hentered.sawNone,
      hentered.sawUnadopted,
      fun _ _ _ => .inr (.inl rfl)⟩
  · cases hstep

/-- It goes on only if nothing is pending. -/
theorem Entry.Kept.loadPending {s s' : Entry} (h : s.Kept)
    (hstep : handoffStep s .loadPending = some s') : s'.Kept := by
  rw [handoffStep] at hstep
  split at hstep
  · rename_i hlock
    obtain rfl := Option.some.inj hstep
    split
    · rename_i hzero
      exact h.relock nofun (fun _ => hzero) nofun fun _ _ _ => rfl
    · rename_i hpending
      exact h.relock nofun nofun nofun fun _ hzero => absurd hzero hpending
  · cases hstep

/-- It goes on only if the connection was not adopted. -/
theorem Entry.Kept.loadAdopted {s s' : Entry} (h : s.Kept)
    (hstep : handoffStep s .loadAdopted = some s') : s'.Kept := by
  rw [handoffStep] at hstep
  split at hstep
  · rename_i hlock
    obtain rfl := Option.some.inj hstep
    split
    · rename_i hadopted
      exact h.relock nofun nofun nofun fun _ _ hun => absurd hadopted (by rw [hun]; exact nofun)
    · rename_i hunadopted
      exact h.relock nofun nofun (fun _ => ⟨h.sawNone hlock, by simpa using hunadopted⟩)
        fun _ _ _ => rfl
  · cases hstep

theorem handoffStep_kept {s s' : Entry} {act : HandoffAct} (h : s.Kept)
    (hstep : handoffStep s act = some s') : s'.Kept := by
  cases act with
  | lookUp | unlockTask =>
    rw [handoffStep] at hstep
    split at hstep
    · rename_i hlock
      obtain rfl := Option.some.inj hstep
      exact h.relock nofun nofun nofun fun hwatching => by rw [hlock] at hwatching; cases hwatching
    · cases hstep
  | reusable others =>
    rw [handoffStep] at hstep
    split at hstep
    · rename_i hlock
      obtain rfl := Option.some.inj hstep
      refine h.relock ?_ ?_ ?_ fun hwatching => by rw [hlock] at hwatching; cases hwatching
      all_goals
        split
        · rename_i hreusable
          simp at hreusable
          simp [hreusable]
        · exact nofun
    · cases hstep
  | claim =>
    rw [handoffStep] at hstep
    split at hstep
    · rename_i hlock
      obtain rfl := Option.some.inj hstep
      exact h.claim hlock.1 hlock.2
    · cases hstep
  | adopt i =>
    rw [handoffStep] at hstep
    split at hstep
    · rename_i hi
      obtain rfl := Option.some.inj hstep
      exact h.adopt hi
    · cases hstep
  | release i =>
    rw [handoffStep] at hstep
    split at hstep
    · rename_i hi
      obtain rfl := Option.some.inj hstep
      exact h.release hi
    · cases hstep
  | drop i =>
    rw [handoffStep] at hstep
    split at hstep
    · rename_i hi
      obtain rfl := Option.some.inj hstep
      exact h.drop hi
    · cases hstep
  | spawn i =>
    rw [handoffStep] at hstep
    split at hstep
    · rename_i last hi
      obtain rfl := Option.some.inj hstep
      exact h.spawn hi
    · cases hstep
  | lockTask => exact h.lockTask hstep
  | loadPending => exact h.loadPending hstep
  | loadAdopted => exact h.loadAdopted hstep
  | storeClosing =>
    rw [handoffStep] at hstep
    split at hstep
    · rename_i hlock
      obtain rfl := Option.some.inj hstep
      exact h.storeClosing hlock
    · cases hstep

theorem inserted_kept : Entry.inserted.Kept where
  count := rfl
  bound := by
    have hone : Entry.inserted.outstanding = 1 := rfl
    omega
  adopting := by decide
  closing := nofun
  sawNone := nofun
  sawUnadopted := nofun
  watched := nofun

/-- A close task has been spawned and is not through. -/
def Entry.TaskOutstanding (s : Entry) : Prop := 0 < s.spawned ∨ ∃ stage, s.lock = .task stage

/-- **Handoff protocol**: in every state that any interleaving leads to, a connection that has been
adopted is not being closed, and one that is being closed grants no claim; the count is that of the
claims that are out, and gives one back without wrapping; and where it is zero, nobody has adopted
the connection, no close task is outstanding and no `drop` is about to spawn one, the connection is
being closed. -/
theorem handoff_protocol {acts : List HandoffAct} {s : Entry}
    (h : exec handoffStep .inserted acts = some s) :
    ¬(s.state.adopted = true ∧ s.state.closing = true) ∧
      (∀ s', handoffStep s .claim = some s' → s.state.closing = false) ∧
      s.state.pending = s.outstanding ∧
      (∀ i s', handoffStep s (.release i) = some s' ∨ handoffStep s (.drop i) = some s' →
        s'.state.pending + 1 = s.state.pending) ∧
      (s.state.pending = 0 → s.state.adopted = false → ¬s.TaskOutstanding →
        .dropping true ∉ s.handoffs →
        s.state.closing = true) := by
  have hkept := exec_invariant (fun s act s' => handoffStep_kept) inserted_kept h
  refine ⟨fun ⟨hadopted, hclosing⟩ => ?_, fun s' hclaim => ?_, hkept.count, fun i s' hback => ?_,
    fun hzero hadopted htask hdropping => ?_⟩
  · exact absurd hadopted (by rw [(hkept.closing hclosing).2.1]; exact nofun)
  · rw [handoffStep] at hclaim
    split at hclaim
    · rename_i hlock
      by_contra hclosing
      exact (hkept.closing (by simpa using hclosing)).2.2 hlock.1
    · cases hclaim
  · rcases hback with hback | hback
    · rw [handoffStep] at hback
      split at hback
      · rename_i hi
        obtain rfl := Option.some.inj hback
        exact (hkept.fetchSub_claim hi rfl .gone rfl).1
      · cases hback
    · rw [handoffStep] at hback
      split at hback
      · rename_i hi
        obtain rfl := Option.some.inj hback
        exact (hkept.fetchSub_claim hi rfl .gone rfl).1
      · cases hback
  · by_contra hclosing
    rcases hkept.watched hzero hadopted (by simpa using hclosing) with hspawned | hlock | hmem
    · exact htask (.inl hspawned)
    · refine htask (.inr ?_)
      cases hs : s.lock with
      | task stage => exact ⟨stage, rfl⟩
      | _ =>
        rw [hs] at hlock
        cases hlock
    · exact hdropping hmem

/-- The builder gives its handoff up while a second caller holds one, that one goes too, and the
close task commits. -/
theorem handoff_protocol_abandoned :
    ∃ s, exec handoffStep .inserted [.lookUp, .reusable true, .claim, .drop 0, .spawn 0, .drop 1,
      .spawn 1, .lockTask,
          .loadPending, .loadAdopted, .storeClosing, .unlockTask] = some s ∧
      s.state.pending = 0 ∧ ¬(s.state.adopted = true ∧ s.state.closing = true) := by
  have hrun :
    (exec handoffStep .inserted [.lookUp, .reusable true, .claim, .drop 0, .spawn 0, .drop 1,
      .spawn 1,
      .lockTask, .loadPending, .loadAdopted, .storeClosing, .unlockTask]).any
        (fun s => decide (s.state.pending = 0)) = true := by decide +kernel
  obtain ⟨s, hexec, hs⟩ := (Option.any_eq_true _ _).mp hrun
  exact ⟨s, hexec, of_decide_eq_true hs, (handoff_protocol hexec).1⟩

/-- **Between the two halves of `drop`** the last claim is given back and nothing has been spawned:
nobody has the connection, no close task is outstanding, and it is not being closed. -/
theorem drop_not_spawned :
    ∃ s, exec handoffStep .inserted [.drop 0] = some s ∧ s.state.pending = 0 ∧
      s.state.adopted = false ∧
      ¬s.TaskOutstanding ∧ s.state.closing = false := by
  have hrun : (exec handoffStep .inserted [.drop 0]).any (fun s => decide (s.state.pending = 0 ∧
      s.state.adopted = false ∧ s.spawned = 0 ∧ s.lock = .free ∧ s.state.closing = false)) =
        true := by decide +kernel
  obtain ⟨s, hexec, hs⟩ := (Option.any_eq_true _ _).mp hrun
  obtain ⟨hpending, hadopted, hspawned, hlock, hclosing⟩ := of_decide_eq_true hs
  refine ⟨s, hexec, hpending, hadopted, ?_, hclosing⟩
  rintro (htask | ⟨stage, htask⟩)
  · omega
  · rw [hlock] at htask
    cases htask

end WebRtc
end BgDesk
