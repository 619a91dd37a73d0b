import BgDesk.Machine
import Mathlib.Data.List.Sublists
import Mathlib.Logic.Function.Basic

/-!
# Admission of unauthorized connections

`src/server/connection.rs`, `admit_unauthorized` and `UnauthorizedID`. A
connection holds a place in `UNAUTHORIZED_CONNS` from its arrival until it
authorizes or ends. The registry is bounded, an address may hold a share of it
only, and a full registry marks its oldest connection to go.

Every step of the machine below is one access to shared state: a lock
acquisition of the registry, the `swap` of the mark and the `notify_one` that
follows it while the lock is still held, and on the waiter's side the test of
the mark, each poll of the `Notified` future and its drop. A guard is owned by
one task, which awaits `evicted` at most once at a time; the future borrows the
guard, so a guard is never dropped under a wait.
-/

namespace BgDesk

/-- Connections between accept and authorization, across every transport. -/
def maxUnauthorizedConns : ℕ := 64

/-- Of those, how many one address may hold at once. -/
def maxUnauthorizedConnsPerAddr : ℕ := 16

/-- A connection id, `i32` in the source. -/
abbrev ConnId : Type := ℤ

/-! ## `Notify` with one waiter -/

/-- Where the task that owns a guard stands in `evicted().await`. -/
inductive Wait where
  /-- no wait in progress -/
  | idle
  /-- the mark was read as unset; `notified()` has not been polled yet -/
  | tested
  /-- the `Notified` future is in the list of waiters -/
  | registered
  /-- `notify_one` took it out of the list; it has not been polled since -/
  | notified
  deriving DecidableEq

/-- `UnauthorizedShared`, with the one wait that may be in progress on it. -/
structure UnauthorizedShared where
  /-- the mark: told to go -/
  evicted : Bool
  /-- the permit `notify_one` leaves when nobody is waiting -/
  permit : Bool
  wait : Wait
  deriving DecidableEq

namespace UnauthorizedShared

/-- A fresh one: not marked, no permit, no wait. -/
def new : UnauthorizedShared := ⟨false, false, .idle⟩

/-- `Notify::notify_one`: hand the notification to the waiter, or keep it as a permit. -/
def notifyOne (u : UnauthorizedShared) : UnauthorizedShared :=
  match u.wait with
  | .registered => { u with wait := .notified }
  | _ => { u with permit := true }

/-- One step of `evicted()`: the test of the mark, then the polls of `notified()`.
The flag says whether the wait resolved. -/
def pollEvicted (u : UnauthorizedShared) : UnauthorizedShared × Bool :=
  match u.wait with
  | .idle => if u.evicted then (u, true) else ({ u with wait := .tested }, false)
  | .tested =>
    if u.permit then ({ u with permit := false, wait := .idle }, true)
    else ({ u with wait := .registered }, false)
  | .registered => (u, false)
  | .notified => ({ u with wait := .idle }, true)

/-- The wait is abandoned. A notification it was handed and has not consumed goes
back, as `Notified`'s drop does it. -/
def dropWait (u : UnauthorizedShared) : UnauthorizedShared :=
  match u.wait with
  | .notified => { u with permit := true, wait := .idle }
  | _ => { u with wait := .idle }

end UnauthorizedShared

/-! ## The registry -/

variable {Addr : Type} [DecidableEq Addr]

/-- The registry, the guards handed out, and what they share. Connection ids are
distinct, so the `Arc` a guard shares with its entry is named by the id. -/
structure Admission (Addr : Type) where
  /-- `UNAUTHORIZED_CONNS`, oldest first -/
  conns : List (ConnId × Addr)
  /-- the `UnauthorizedID`s not yet dropped, with the address each was admitted for -/
  guards : List (ConnId × Addr)
  /-- what the guard and the entry of an id share -/
  shared : ConnId → UnauthorizedShared
  /-- an `admit_unauthorized` that has set this mark, holds the lock, and has yet to notify -/
  notifying : Option ConnId
  /-- ids that have arrived, oldest first -/
  arrived : List ConnId

namespace Admission

/-- Nobody has arrived. -/
def init : Admission Addr := ⟨[], [], fun _ => .new, none, []⟩

/-- How many places an address holds. -/
def held (s : Admission Addr) (ip : Addr) : ℕ := s.conns.countP fun e => e.2 = ip

/-- `admit_unauthorized`, up to the point where a newly set mark has yet to be
notified. `none` is a refusal. -/
def admitUnauthorized (s : Admission Addr) (id : ConnId) (ip : Addr) :
    Option ConnId × Admission Addr :=
  if s.held ip ≥ maxUnauthorizedConnsPerAddr then (none, s)
  else if s.conns.length ≥ maxUnauthorizedConns then
    match s.conns.head? with
    | none => (none, s)
    | some (oldest, _) =>
      if (s.shared oldest).evicted then (none, s)
      else
        (none, { s with
          shared := Function.update s.shared oldest { s.shared oldest with evicted := true }
          notifying := some oldest })
  else
    (some id, { s with
      conns := s.conns ++ [(id, ip)]
      guards := s.guards ++ [(id, ip)]
      shared := Function.update s.shared id .new })

/-- What the environment can make happen next. -/
inductive Action (Addr : Type) where
  /-- a connection arrives and calls `admit_unauthorized` -/
  | enter : ConnId → Addr → Action Addr
  /-- the call that set a mark goes on to `notify_one` and releases the lock -/
  | notify : Action Addr
  /-- a guard is dropped -/
  | drop : ConnId → Action Addr
  /-- the owner of a guard takes one step of `evicted()` -/
  | poll : ConnId → Action Addr
  /-- the owner of a guard drops the future of `evicted()` -/
  | abandon : ConnId → Action Addr
  deriving DecidableEq

/-- Apply `f` to what id `c` shares. -/
def onShared (s : Admission Addr) (c : ConnId)
    (f : UnauthorizedShared → UnauthorizedShared) : Admission Addr :=
  { s with shared := Function.update s.shared c (f (s.shared c)) }

/-- Whether `c` holds a guard. -/
def live (s : Admission Addr) (c : ConnId) : Bool := s.guards.any fun e => e.1 = c

/-- One step. `enter` and `drop` need the registry's lock; a guard outlives its waits. -/
def step (s : Admission Addr) : Action Addr → Option (Admission Addr)
  | .enter id ip =>
    if s.notifying = none ∧ id ∉ s.arrived then
      some { (s.admitUnauthorized id ip).2 with arrived := s.arrived ++ [id] }
    else none
  | .notify =>
    match s.notifying with
    | none => none
    | some c => some { s.onShared c .notifyOne with notifying := none }
  | .drop c =>
    if s.notifying = none ∧ s.live c ∧ (s.shared c).wait = .idle then
      some { s with
        conns := s.conns.filter fun e => e.1 ≠ c
        guards := s.guards.eraseP fun e => e.1 = c }
    else none
  | .poll c => if s.live c then some (s.onShared c fun u => u.pollEvicted.1) else none
  | .abandon c => if s.live c then some (s.onShared c .dropWait) else none

/-! ## The invariant -/

end Admission

/-- No wake-up is lost. Until the mark has been notified there is nothing to
consume; from then on a wait that is past its test has a permit waiting for it
or has been taken out of the list. -/
def UnauthorizedShared.WakeOk (u : UnauthorizedShared) (due : Prop) : Prop :=
  (u.evicted = false ∨ due → u.permit = false ∧ u.wait ≠ .notified) ∧
  (u.evicted = true ∧ ¬ due → (u.wait = .tested → u.permit = true) ∧ u.wait ≠ .registered)

namespace UnauthorizedShared

variable {u : UnauthorizedShared} {due : Prop}

theorem wakeOk_new : WakeOk .new due :=
  ⟨fun _ => ⟨rfl, by decide⟩, fun h => by simp [new] at h⟩

/-- Setting the mark makes the notification due. -/
theorem WakeOk.mark (h : u.WakeOk due) (hu : u.evicted = false) :
    WakeOk { u with evicted := true } True :=
  ⟨fun _ => h.1 (.inl hu), fun hd => absurd trivial hd.2⟩

/-- The notification reaches the wait wherever it stands. -/
theorem WakeOk.notifyOne (h : u.WakeOk True) (hu : u.evicted = true) :
    WakeOk u.notifyOne False := by
  obtain ⟨-, hw⟩ := h.1 (.inr trivial)
  unfold UnauthorizedShared.notifyOne
  rcases hwait : u.wait with _ | _ | _ | _ <;> simp_all [WakeOk]

theorem WakeOk.pollEvicted (h : u.WakeOk due) : WakeOk u.pollEvicted.1 due := by
  obtain ⟨h₁, h₂⟩ := h
  unfold UnauthorizedShared.pollEvicted
  rcases hwait : u.wait with _ | _ | _ | _ <;> rcases hev : u.evicted with _ | _ <;>
    rcases hp : u.permit with _ | _ <;> simp_all [WakeOk]

theorem WakeOk.dropWait (h : u.WakeOk due) : WakeOk u.dropWait due := by
  obtain ⟨h₁, h₂⟩ := h
  unfold UnauthorizedShared.dropWait
  rcases hwait : u.wait with _ | _ | _ | _ <;> rcases hev : u.evicted with _ | _ <;>
    simp_all [WakeOk]

/-- Once its mark has been notified, a wait resolves at its very next step. -/
theorem WakeOk.resolves (h : u.WakeOk due) (hu : u.evicted = true) (hd : ¬ due) :
    u.pollEvicted.2 = true := by
  obtain ⟨ht, hr⟩ := h.2 ⟨hu, hd⟩
  unfold UnauthorizedShared.pollEvicted
  rcases hwait : u.wait with _ | _ | _ | _ <;> simp_all

@[simp] theorem evicted_notifyOne : u.notifyOne.evicted = u.evicted := by
  unfold notifyOne
  split <;> rfl

@[simp] theorem evicted_pollEvicted : u.pollEvicted.1.evicted = u.evicted := by
  unfold pollEvicted
  rcases u.wait with _ | _ | _ | _ <;> simp only <;> split_ifs <;> rfl

@[simp] theorem evicted_dropWait : u.dropWait.evicted = u.evicted := by
  unfold dropWait
  split <;> rfl

end UnauthorizedShared

namespace Admission

/-- What holds in every reachable state. -/
structure Safe (s : Admission Addr) : Prop where
  /-- one entry per live guard, in the same order -/
  entries : s.conns = s.guards
  /-- in order of admission -/
  order : (s.conns.map Prod.fst).Sublist s.arrived
  arrivedOnce : s.arrived.Nodup
  total : s.conns.length ≤ maxUnauthorizedConns
  share : ∀ ip, s.held ip ≤ maxUnauthorizedConnsPerAddr
  /-- only the oldest may be marked -/
  oldest : ∀ e ∈ s.conns.tail, (s.shared e.1).evicted = false
  /-- a notification that is due is due to the oldest, which is marked -/
  due : ∀ c, s.notifying = some c →
    (∃ ip, s.conns.head? = some (c, ip)) ∧ (s.shared c).evicted = true
  wake : ∀ e ∈ s.conns, (s.shared e.1).WakeOk (s.notifying = some e.1)

variable {s : Admission Addr} {c : ConnId}

theorem Safe.nodup (h : s.Safe) : (s.conns.map Prod.fst).Nodup :=
  h.arrivedOnce.sublist h.order

theorem Safe.live_iff (h : s.Safe) : s.live c = true ↔ ∃ ip, (c, ip) ∈ s.conns := by
  rw [live, ← h.entries, List.any_eq_true]
  constructor
  · rintro ⟨⟨c', ip⟩, hm, hc⟩
    obtain rfl : c' = c := by simpa using hc
    exact ⟨ip, hm⟩
  · rintro ⟨ip, hm⟩
    exact ⟨(c, ip), hm, by simp⟩

theorem safe_init : (init : Admission Addr).Safe where
  entries := rfl
  order := List.Sublist.refl _
  arrivedOnce := List.nodup_nil
  total := by simp [init]
  share := by simp [held, init]
  oldest := by simp [init]
  due := by simp [init]
  wake := by simp [init]

/-- A step of one connection's `evicted()` changes nothing the registry relies on. -/
theorem Safe.onShared (h : s.Safe) (c : ConnId) {f : UnauthorizedShared → UnauthorizedShared}
    (hev : ∀ u, (f u).evicted = u.evicted) (hwake : ∀ u due, u.WakeOk due → (f u).WakeOk due) :
    (s.onShared c f).Safe := by
  have hshared : ∀ e, ((s.onShared c f).shared e).evicted = (s.shared e).evicted := by
    intro e
    by_cases he : e = c
    · subst he
      simp [Admission.onShared, hev]
    · simp [Admission.onShared, Function.update_of_ne he]
  refine { h with oldest := ?_, due := ?_, wake := ?_ }
  · intro e he
    rw [hshared]
    exact h.oldest e he
  · intro e he
    rw [hshared]
    exact h.due e he
  · intro e he
    by_cases hc : e.1 = c
    · subst hc
      simpa [Admission.onShared] using hwake _ _ (h.wake e he)
    · simpa [Admission.onShared, Function.update_of_ne hc] using h.wake e he

omit [DecidableEq Addr] in
/-- The head of a list with distinct ids is not in its tail. -/
theorem fst_ne_of_mem_tail {l : List (ConnId × Addr)} {ip : Addr} (hn : (l.map Prod.fst).Nodup)
    (hh : l.head? = some (c, ip)) : ∀ e ∈ l.tail, e.1 ≠ c := by
  cases l with
  | nil => simp at hh
  | cons a l =>
    obtain rfl : a = (c, ip) := by simpa using hh
    intro e he hc
    rw [List.map_cons, List.nodup_cons] at hn
    exact hn.1 (List.mem_map.mpr ⟨e, he, hc⟩)

omit [DecidableEq Addr] in
/-- Dropping a guard by predicate and dropping its entry by `retain` agree. -/
theorem filter_eq_eraseP {l : List (ConnId × Addr)} (c : ConnId) (hn : (l.map Prod.fst).Nodup) :
    (l.filter fun e => e.1 ≠ c) = l.eraseP fun e => e.1 = c := by
  induction l with
  | nil => rfl
  | cons a l ih =>
    rw [List.map_cons, List.nodup_cons] at hn
    by_cases ha : a.1 = c
    · have hall : ∀ e ∈ l, e.1 ≠ c := by
        intro e he hc
        exact hn.1 (List.mem_map.mpr ⟨e, he, hc.trans ha.symm⟩)
      have hl : (l.filter fun e => e.1 ≠ c) = l :=
        List.filter_eq_self.mpr fun e he => by simpa using hall e he
      rw [List.filter_cons_of_neg (by simp [ha]), hl, List.eraseP_cons_of_pos (by simp [ha])]
    · rw [List.filter_cons_of_pos (by simp [ha]), ih hn.2, List.eraseP_cons_of_neg (by simp [ha])]

/-- `admit_unauthorized` by cases: refused for the address's share, refused by a
full registry whose oldest is already going, refused by a full registry that
marks its oldest, or admitted. -/
theorem admitUnauthorized_cases (s : Admission Addr) (id : ConnId) (ip : Addr) :
    (maxUnauthorizedConnsPerAddr ≤ s.held ip ∧ s.admitUnauthorized id ip = (none, s)) ∨
    (maxUnauthorizedConns ≤ s.conns.length ∧ s.admitUnauthorized id ip = (none, s)) ∨
    (s.held ip < maxUnauthorizedConnsPerAddr ∧ maxUnauthorizedConns ≤ s.conns.length ∧
      ∃ c ip', s.conns.head? = some (c, ip') ∧ (s.shared c).evicted = false ∧
        s.admitUnauthorized id ip = (none, { s with
          shared := Function.update s.shared c { s.shared c with evicted := true }
          notifying := some c })) ∨
    (s.held ip < maxUnauthorizedConnsPerAddr ∧ s.conns.length < maxUnauthorizedConns ∧
      s.admitUnauthorized id ip = (some id, { s with
        conns := s.conns ++ [(id, ip)]
        guards := s.guards ++ [(id, ip)]
        shared := Function.update s.shared id .new })) := by
  by_cases hshare : s.held ip ≥ maxUnauthorizedConnsPerAddr
  · exact .inl ⟨hshare, by simp only [admitUnauthorized, hshare, if_true]⟩
  · by_cases hfull : s.conns.length ≥ maxUnauthorizedConns
    · cases hh : s.conns.head? with
      | none =>
        exact .inr (.inl ⟨hfull, by simp only [admitUnauthorized, hshare, hfull, if_true,
          if_false, hh]⟩)
      | some e =>
        cases hev : (s.shared e.1).evicted with
        | true =>
          exact .inr (.inl ⟨hfull, by simp only [admitUnauthorized, hshare, hfull, if_true,
            if_false, hh, hev]⟩)
        | false =>
          refine .inr (.inr (.inl ⟨by omega, hfull, e.1, e.2, rfl, hev, ?_⟩))
          simp only [admitUnauthorized, hshare, hfull, if_true, if_false, hh, hev,
            Bool.false_eq_true]
    · refine .inr (.inr (.inr ⟨by omega, by omega, ?_⟩))
      simp only [admitUnauthorized, hshare, hfull, if_false]

/-- An arrival extends the list of those that arrived; the rest is `admit_unauthorized`'s. -/
theorem Safe.admitted (h : s.Safe) {id : ConnId} {ip : Addr} (hn : s.notifying = none)
    (hid : id ∉ s.arrived) :
    Safe { (s.admitUnauthorized id ip).2 with arrived := s.arrived ++ [id] } := by
  have horder : (s.conns.map Prod.fst).Sublist (s.arrived ++ [id]) :=
    h.order.trans (List.sublist_append_left _ _)
  have honce : (s.arrived ++ [id]).Nodup := by
    rw [List.nodup_append]
    refine ⟨h.arrivedOnce, List.nodup_singleton id, ?_⟩
    rintro a ha b hb rfl
    exact hid (by rwa [List.mem_singleton.mp hb] at ha)
  rcases admitUnauthorized_cases s id ip with ⟨-, he⟩ | ⟨-, he⟩ |
    ⟨-, -, c, ip', hh, hev, he⟩ | ⟨hshare, hroom, he⟩
  · rw [he]
    exact { h with order := horder, arrivedOnce := honce }
  · rw [he]
    exact { h with order := horder, arrivedOnce := honce }
  · -- the oldest is marked; nobody else's shared state moves
    rw [he]
    have htail := fst_ne_of_mem_tail h.nodup hh
    refine { h with order := horder, arrivedOnce := honce, oldest := ?_, due := ?_, wake := ?_ }
    · intro e hm
      dsimp only at hm ⊢
      rw [Function.update_of_ne (htail e hm)]
      exact h.oldest e hm
    · intro c' hc'
      obtain rfl : c = c' := Option.some.inj hc'
      exact ⟨⟨ip', hh⟩, by simp⟩
    · intro e hm
      dsimp only at hm ⊢
      have hw := h.wake e hm
      by_cases hc : e.1 = c
      · subst hc
        rw [Function.update_self]
        simpa using hw.mark hev
      · rw [Function.update_of_ne hc]
        simpa [hn, Ne.symm hc] using hw
  · rw [he]
    have hnew : ∀ e ∈ s.conns, e.1 ≠ id := by
      intro e hm hc
      exact hid (hc ▸ h.order.subset (List.mem_map_of_mem hm))
    refine
      { entries := by simp [h.entries]
        order := by simpa using h.order.append (List.Sublist.refl [id])
        arrivedOnce := honce
        total := by rw [List.length_append]; exact hroom
        share := ?_
        oldest := ?_
        due := by simp [hn]
        wake := ?_ }
    · intro ip'
      have hle := h.share ip'
      simp only [held, List.countP_append, List.countP_singleton] at hle hshare ⊢
      split_ifs with hip
      · obtain rfl : ip = ip' := by simpa using hip
        omega
      · omega
    · intro e hm
      dsimp only at hm ⊢
      by_cases hc : e.1 = id
      · simp [hc, UnauthorizedShared.new]
      · rw [Function.update_of_ne hc]
        refine h.oldest e ?_
        cases hcs : s.conns with
        | nil => simp [hcs] at hm
        | cons a l =>
          simp only [hcs, List.cons_append, List.tail_cons, List.mem_append,
            List.mem_singleton] at hm
          rcases hm with hm | rfl
          · exact hm
          · exact absurd rfl hc
    · intro e hm
      dsimp only at hm ⊢
      rcases List.mem_append.mp hm with hm | hm
      · rw [Function.update_of_ne (hnew e hm)]
        simpa [hn] using h.wake e hm
      · obtain rfl := List.mem_singleton.mp hm
        simpa using UnauthorizedShared.wakeOk_new

theorem Safe.notify (h : s.Safe) (hn : s.notifying = some c) :
    Safe { s.onShared c .notifyOne with notifying := none } := by
  obtain ⟨⟨ip, hh⟩, hev⟩ := h.due c hn
  have htail := fst_ne_of_mem_tail h.nodup hh
  refine { h with oldest := ?_, due := by simp, wake := ?_ }
  · intro e hm
    dsimp only at hm ⊢
    simp only [Admission.onShared]
    rw [Function.update_of_ne (htail e hm)]
    exact h.oldest e hm
  · intro e hm
    dsimp only at hm ⊢
    have hw := h.wake e hm
    by_cases hc : e.1 = c
    · have hev' : (s.shared e.1).evicted = true := by rw [hc]; exact hev
      have hw' : (s.shared e.1).WakeOk True := by simpa [hn, hc] using hw
      simpa [Admission.onShared, hc] using hc ▸ hw'.notifyOne hev'
    · simp only [Admission.onShared]
      rw [Function.update_of_ne hc]
      simpa [hn, Ne.symm hc] using hw

theorem Safe.drop {s : Admission Addr} (h : s.Safe) {c : ConnId} (hn : s.notifying = none) :
    Safe { s with
      conns := s.conns.filter fun e => e.1 ≠ c
      guards := s.guards.eraseP fun e => e.1 = c } := by
  have hsub : (s.conns.filter fun e => e.1 ≠ c).Sublist s.conns := List.filter_sublist
  refine
    { entries := by rw [← h.entries, filter_eq_eraseP c h.nodup]
      order := (hsub.map _).trans h.order
      arrivedOnce := h.arrivedOnce
      total := hsub.length_le.trans h.total
      share := fun ip => hsub.countP_le.trans (h.share ip)
      oldest := ?_
      due := by simp [hn]
      wake := fun e hm => h.wake e (hsub.subset hm) }
  -- what follows the new oldest followed the old one too
  intro e hm
  refine h.oldest e ?_
  cases hcs : s.conns with
  | nil => simp [hcs] at hm
  | cons a l =>
    simp only [hcs, List.filter_cons] at hm
    split_ifs at hm
    · exact (List.mem_filter.mp hm).1
    · exact (List.mem_filter.mp (List.mem_of_mem_tail hm)).1

/-- **Step lemma.** -/
theorem Safe.step {s' : Admission Addr} (h : s.Safe) {a : Action Addr} (hs : s.step a = some s') :
    s'.Safe := by
  cases a with
  | enter id ip =>
    simp only [Admission.step] at hs
    split_ifs at hs with hc
    obtain rfl := Option.some.inj hs
    exact h.admitted hc.1 hc.2
  | notify =>
    simp only [Admission.step] at hs
    rcases hn : s.notifying with _ | c
    · simp [hn] at hs
    · rw [hn] at hs
      obtain rfl := Option.some.inj hs
      exact h.notify hn
  | drop c =>
    simp only [Admission.step] at hs
    split_ifs at hs with hc
    obtain rfl := Option.some.inj hs
    exact h.drop hc.1
  | poll c =>
    simp only [Admission.step] at hs
    split_ifs at hs
    obtain rfl := Option.some.inj hs
    exact h.onShared c (fun _ => UnauthorizedShared.evicted_pollEvicted)
      (fun _ _ hw => hw.pollEvicted)
  | abandon c =>
    simp only [Admission.step] at hs
    split_ifs at hs
    obtain rfl := Option.some.inj hs
    exact h.onShared c (fun _ => UnauthorizedShared.evicted_dropWait)
      (fun _ _ hw => hw.dropWait)

/-- **Run lemma.** -/
theorem safe_of_exec {as : List (Action Addr)} (hs : exec Admission.step init as = some s) :
    s.Safe :=
  exec_invariant (fun _ _ _ h hs => h.step hs) safe_init hs

/-- The connection that has been told to go. -/
def marked (s : Admission Addr) (c : ConnId) : Prop :=
  s.live c = true ∧ (s.shared c).evicted = true

/-- **Admission.** In every state any interleaving reaches: the registry is the
list of live guards, one entry each, in order of arrival, within both bounds; a
marked connection is the oldest; a refusal needs a full share or a full registry
and touches at most the oldest connection's mark, not even that when the share
is the reason; and a wait of a marked connection resolves at its next step,
wherever it stands, as soon as the call that set the mark has taken its next
one. -/
theorem admission_safe {s : Admission Addr} {as : List (Action Addr)}
    (hs : exec Admission.step init as = some s) :
    (s.conns = s.guards ∧ (s.conns.map Prod.fst).Nodup ∧
      (s.conns.map Prod.fst).Sublist s.arrived) ∧
    (s.conns.length ≤ maxUnauthorizedConns ∧ ∀ ip, s.held ip ≤ maxUnauthorizedConnsPerAddr) ∧
    (∀ c, s.marked c → s.conns.head?.map Prod.fst = some c) ∧
    (∀ id ip, (s.admitUnauthorized id ip).1 = none →
      (maxUnauthorizedConnsPerAddr ≤ s.held ip ∨ maxUnauthorizedConns ≤ s.conns.length) ∧
      (maxUnauthorizedConnsPerAddr ≤ s.held ip → (s.admitUnauthorized id ip).2 = s) ∧
      ((s.admitUnauthorized id ip).2 = s ∨
        ∃ c, s.conns.head?.map Prod.fst = some c ∧ (s.shared c).evicted = false ∧
          (s.admitUnauthorized id ip).2 = { s with
            shared := Function.update s.shared c { s.shared c with evicted := true }
            notifying := some c })) ∧
    (∀ c, s.marked c →
      (s.notifying ≠ some c → (s.shared c).pollEvicted.2 = true) ∧
      (s.notifying = some c → ∃ s', s.step .notify = some s' ∧
        s'.notifying ≠ some c ∧ s'.marked c ∧ (s'.shared c).pollEvicted.2 = true)) := by
  have h := safe_of_exec hs
  refine ⟨⟨h.entries, h.nodup, h.order⟩, ⟨h.total, h.share⟩, ?_, ?_, ?_⟩
  · rintro c ⟨hlive, hev⟩
    obtain ⟨ip, hm⟩ := h.live_iff.mp hlive
    have hold := h.oldest
    cases hcs : s.conns with
    | nil => simp [hcs] at hm
    | cons a l =>
      rw [hcs] at hm hold
      rcases List.mem_cons.mp hm with rfl | hm
      · rfl
      · have := hold (c, ip) hm
        rw [hev] at this
        cases this
  · intro id ip hnone
    rcases admitUnauthorized_cases s id ip with ⟨hshare, he⟩ | ⟨hfull, he⟩ |
      ⟨hshare, hfull, c, ip', hh, hev, he⟩ | ⟨-, -, he⟩
    · exact ⟨.inl hshare, fun _ => by rw [he], .inl (by rw [he])⟩
    · exact ⟨.inr hfull, fun _ => by rw [he], .inl (by rw [he])⟩
    · refine ⟨.inr hfull, fun hge => by omega, .inr ⟨c, by rw [hh]; rfl, hev, by rw [he]⟩⟩
    · rw [he] at hnone
      cases hnone
  · rintro c ⟨hlive, hev⟩
    obtain ⟨ip, hm⟩ := h.live_iff.mp hlive
    have hw := h.wake (c, ip) hm
    refine ⟨fun hn => hw.resolves hev hn, fun hn => ?_⟩
    have hw' : (s.shared c).WakeOk True := by simpa [hn] using hw
    refine ⟨{ s.onShared c .notifyOne with notifying := none }, ?_, by simp, ⟨hlive, ?_⟩, ?_⟩
    · simp only [Admission.step, hn]
    · simpa [onShared] using hev
    · have := (hw'.notifyOne hev).resolves (by simpa using hev) not_false
      simpa [onShared] using this

/-- The sixty-fifth of so many arrivals from different addresses is refused, marks
the oldest, and once that is notified the oldest's wait resolves. -/
theorem admission_safe_full : ∃ s : Admission ℕ,
      exec Admission.step init (((List.range 65).map fun i => .enter i i) ++ [.notify]) = some s ∧
      s.marked 0 ∧ s.conns.length ≤ maxUnauthorizedConns ∧ (s.shared 0).pollEvicted.2 = true := by
  have hrun : (exec Admission.step (init : Admission ℕ)
      (((List.range 65).map fun i => .enter i i) ++ [.notify])).any (fun s =>
        s.live 0 && (s.shared 0).evicted && s.notifying.isNone) = true := by
    decide +kernel
  obtain ⟨s, hs, hp⟩ := (Option.any_eq_true _ _).mp hrun
  obtain ⟨⟨hlive, hev⟩, hn⟩ : (s.live 0 = true ∧ (s.shared 0).evicted = true) ∧
      s.notifying.isNone = true := by simpa using hp
  have hne : s.notifying ≠ some 0 := by
    rw [Option.isNone_iff_eq_none.mp hn]
    simp
  obtain ⟨-, ⟨htotal, -⟩, -, -, hwait⟩ := admission_safe hs
  exact ⟨s, hs, ⟨hlive, hev⟩, htotal, (hwait 0 ⟨hlive, hev⟩).1 hne⟩

end Admission
end BgDesk
