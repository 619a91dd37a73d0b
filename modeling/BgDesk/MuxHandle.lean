import BgDesk.MuxTunnel
import BgDesk.Threads
import Mathlib.Data.List.Perm.Subperm

/-!
# Who has which number

`TunnelHandle` of `src/port_forward_mux.rs` on its own, against a peer that may send any frame
at any time: `open` takes numbers from a counter that wraps, `on_frame` takes entries out of the
map, and a task that returns takes out the entry under its number, whosever it is.

* `freeId_isSome` — the search of `open` comes to an end;
* `Handle.Tidy` — numbers of running tasks differ, as long as `open` is only called where the
  counter meets a free number before that of a task which has lost its entry (`Handle.Clear`);
* `Handle.identity` — what follows for `open` and for the entries tasks remove;
* `Handle.removes_a_later_channel` — what happens otherwise, once the counter has come round.
-/

namespace BgDesk

/-! ## The counter -/

theorem wrapI32_wrapI32_add (a b : ℤ) : wrapI32 (wrapI32 a + b) = wrapI32 (a + b) := by
  simp only [wrapI32]
  omega

theorem wrapI32_mem (n : ℤ) : -2 ^ 31 ≤ wrapI32 n ∧ wrapI32 n < 2 ^ 31 := by
  simp only [wrapI32]
  omega

theorem wrapI32_of_mem {n : ℤ} (h : -2 ^ 31 ≤ n ∧ n < 2 ^ 31) : wrapI32 n = n := by
  simp only [wrapI32]
  omega

/-- The steps the counter makes from one number to another. -/
def countTo (next id : ℤ) : ℕ := ((id - next) % 2 ^ 32).toNat

/-- Within one round the counter meets every number once. -/
theorem countTo_eq {next : ℤ} {j : ℕ} (hj : j < 2 ^ 32) :
    countTo next (wrapI32 (next + j)) = j := by
  simp only [countTo, wrapI32]
  omega

namespace Tunnel

variable {cs : List Chan}

/-- What the search finds: the first number, counted from `next`, without an entry. -/
theorem freeId_spec {fuel : ℕ} {next id next' : ℤ} (hnext : -2 ^ 31 ≤ next ∧ next < 2 ^ 31)
    (h : freeId cs fuel next = some (id, next')) :
    hasEntry id cs = false ∧ (-2 ^ 31 ≤ next' ∧ next' < 2 ^ 31) ∧
      ∃ j < fuel, id = wrapI32 (next + j) ∧ next' = wrapI32 (id + 1) ∧
        ∀ i < j, hasEntry (wrapI32 (next + i)) cs = true := by
  induction fuel generalizing next with
  | zero => cases h
  | succ fuel ih =>
    rw [freeId] at h
    split_ifs at h with hentry
    · obtain ⟨hfree, hmem, j, hj, hid, hnext', hbefore⟩ := ih (wrapI32_mem _) h
      refine ⟨hfree, hmem, j + 1, by omega, ?_, hnext', ?_⟩
      · rw [hid, wrapI32_wrapI32_add]
        congr 1
        push_cast
        omega
      · intro i hi
        cases i with
        | zero => simpa [wrapI32_of_mem hnext] using hentry
        | succ i =>
          have := hbefore i (by omega)
          rw [wrapI32_wrapI32_add] at this
          rw [← this]
          congr 2
          push_cast
          omega
    · obtain ⟨rfl, rfl⟩ := Prod.mk.inj (Option.some.inj h)
      refine ⟨by simpa using hentry, wrapI32_mem _, 0, by omega, ?_, rfl, by rintro _ ⟨⟩⟩
      simp [wrapI32_of_mem hnext]

/-- A search that finds nothing has found every number it tried taken. -/
theorem freeId_none {fuel : ℕ} {next : ℤ} (hnext : -2 ^ 31 ≤ next ∧ next < 2 ^ 31)
    (h : freeId cs fuel next = none) : ∀ i < fuel, hasEntry (wrapI32 (next + i)) cs = true := by
  induction fuel generalizing next with
  | zero => nofun
  | succ fuel ih =>
    rw [freeId] at h
    split_ifs at h with hentry
    intro i hi
    cases i with
    | zero => simpa [wrapI32_of_mem hnext] using hentry
    | succ i =>
      have := ih (wrapI32_mem _) h i (by omega)
      rw [wrapI32_wrapI32_add] at this
      rw [← this]
      congr 2
      push_cast
      omega

/-- **The search of `open` ends**: fewer numbers are taken than it tries. -/
theorem freeId_isSome {next : ℤ} (hnext : -2 ^ 31 ≤ next ∧ next < 2 ^ 31)
    (hcap : entries cs < 2 ^ 32) : (freeId cs (entries cs + 1) next).isSome = true := by
  by_contra hnone
  have htaken := freeId_none hnext (by simpa using hnone)
  let tried : List ℤ := (List.range (entries cs + 1)).map fun i : ℕ => wrapI32 (next + i)
  let held : List ℤ := (cs.filter Chan.entry).map Chan.id
  have hnodup : tried.Nodup := by
    refine (List.nodup_map_iff_inj_on List.nodup_range).mpr ?_
    intro i hi j hj heq
    rw [List.mem_range] at hi hj
    have := congrArg (countTo next) heq
    rwa [countTo_eq (by omega), countTo_eq (by omega)] at this
  have hsub : tried ⊆ held := by
    intro id hid
    obtain ⟨i, hi, rfl⟩ := List.mem_map.mp hid
    have := htaken i (List.mem_range.mp hi)
    obtain ⟨c, hc, hp⟩ := List.any_eq_true.mp this
    obtain ⟨hentry, hcid⟩ : c.entry = true ∧ c.id = _ := by simpa using hp
    rw [← hcid]
    exact List.mem_map_of_mem (List.mem_filter.mpr ⟨hc, hentry⟩)
  have hle := (List.subperm_of_subset hnodup hsub).length_le
  have hheld : held.length = entries cs := by
    simp [held, entries, List.countP_eq_length_filter]
  simp [tried, hheld] at hle

end Tunnel

/-! ## The handle -/

/-- `TunnelHandle` with the tasks of its channels. Channels never leave the list: one whose task
has returned stays as a record. -/
structure Handle where
  chans : List Chan
  /-- `next_id` -/
  nextId : ℤ
  teardown : Bool
  /-- the sink's receiver has been dropped -/
  gone : Bool
  deriving DecidableEq

namespace Handle

/-- The handle `set_muxed` starts with. -/
def new : Handle := ⟨[], 1, false, false⟩

/-- What can happen next. -/
inductive Act where
  /-- `open` -/
  | openChannel (host : String) (port : ℤ) (prebuf : Bytes)
  /-- task `k` takes a step -/
  | task (k : ℕ) (a : ChanAct)
  /-- task `k` removes its entry and returns -/
  | reap (k : ℕ)
  /-- `on_frame` -/
  | frame (f : Frame)
  /-- `close_all` -/
  | closeAll
  /-- the sink's receiver is dropped -/
  | hangUp
  deriving DecidableEq

/-- `open`: `none` only if its search would not end. -/
def openChannel (s : Handle) (host : String) (port : ℤ) (prebuf : Bytes) : Option Handle :=
  if s.gone then some s
  else if maxChannels ≤ entries s.chans then some s
  else
    (Tunnel.freeId s.chans (entries s.chans + 1) s.nextId).map fun (id, next) =>
      { s with chans := s.chans ++ [localChan id host port prebuf], nextId := next }

/-- One step. -/
def step (s : Handle) : Act → Option Handle
  | .openChannel host port prebuf => s.openChannel host port prebuf
  | .task k a =>
    match s.chans[k]? with
    | none => none
    | some c => (c.step .controller s.gone s.teardown a).map fun (c', _) =>
      { s with chans := s.chans.set k c' }
  | .reap k =>
    match s.chans[k]? with
    | none => none
    | some c =>
      if c.phase = .reaping then
        some { s with chans := onEntry c.id Chan.drop (s.chans.set k { c with phase := .ended }) }
      else none
  | .frame f => some { s with chans := Tunnel.onFrame s.chans f }
  | .closeAll => some { s with chans := s.chans.map Chan.drop, teardown := true }
  | .hangUp => some { s with gone := true }

/-- The counter meets a free number before that of a running task which has lost its entry. -/
def Clear (s : Handle) : Prop :=
  ∀ c ∈ s.chans, c.running = true → c.entry = false →
    ∃ j < countTo s.nextId c.id, hasEntry (wrapI32 (s.nextId + j)) s.chans = false

/-- `open` is called where the way is clear. -/
def Careful (s : Handle) : Act → Prop
  | .openChannel _ _ _ => s.Clear
  | _ => True

/-- What a step can make of a channel other than to start it: it keeps its number, does not come
back to life or into the map, and is not left in the map by a task that has returned. -/
structure Follows (c c' : Chan) : Prop where
  id : c'.id = c.id
  running : c'.running = true → c.running = true
  entry : c'.entry = true → c.entry = true
  proper : c.phase.proper .controller = true → c'.phase.proper .controller = true
  live : c.phase.proper .controller = true → c.running = true → c'.entry = true → c'.running = true

theorem Follows.refl (c : Chan) : Follows c c :=
  ⟨rfl, fun h => h, fun h => h, fun h => h, fun _ h _ => h⟩

theorem Follows.drop (c : Chan) : Follows c c.drop :=
  ⟨rfl, fun h => h, nofun, fun h => h, nofun⟩

/-- A step of a task does not return: that is left to `reap`. -/
theorem Follows.task {gone teardown : Bool} {c c' : Chan} {out : Option Frame}
    (hs : Chan.Stepped .controller gone teardown c c' out) : Follows c c' := by
  refine ⟨hs.id_eq, fun _ => hs.was_running, ?_, ?_, ?_⟩
  · rw [hs.entry_eq]
    exact fun h => h
  · intro hp
    cases hs <;> simp_all [Phase.proper, Side.afterRelay]
  · intro hp hr _
    cases hs <;> simp_all [Phase.proper, Side.afterRelay, Chan.running]

theorem Follows.hear (c : Chan) (f : Frame) :
    Follows c (if c.entry && c.id = f.id then c.hear f else c) := by
  split_ifs with hc
  · obtain ⟨hid, hp, -⟩ := c.hear_task f
    have hrun : (c.hear f).running = c.running := by rw [Chan.running, hp, Chan.running]
    refine ⟨hid, ?_, ?_, ?_, ?_⟩
    · rw [hrun]
      exact fun h => h
    · intro _
      exact (Bool.and_eq_true_iff.mp hc).1
    · rw [hp]
      exact fun h => h
    · rw [hrun]
      exact fun _ h _ => h
  · exact .refl c

end Handle

/-! ## Lists of channels, place by place -/

section Places

variable {α : Type} {R : α → α → Prop}

theorem forall₂_set (hrefl : ∀ a, R a a) {l : List α} {k : ℕ} {a b : α} (hk : l[k]? = some a)
    (hab : R a b) : List.Forall₂ R l (l.set k b) := by
  induction l generalizing k with
  | nil => cases hk
  | cons x l ih =>
    cases k with
    | zero =>
      obtain rfl := Option.some.inj hk
      exact .cons hab (List.forall₂_same.mpr fun y _ => hrefl y)
    | succ k => exact .cons (hrefl x) (ih hk)

end Places

namespace Handle

variable {cs : List Chan} {s s' : Handle} {a : Act}

theorem entries_le {cs' : List Chan} (h : List.Forall₂ Follows cs cs') :
    entries cs' ≤ entries cs := by
  induction h with
  | nil => exact le_rfl
  | @cons c c' _ _ hc _ ih =>
    rw [entries, entries, List.countP_cons, List.countP_cons]
    have hentry := hc.entry
    rw [entries, entries] at ih
    cases he : c'.entry with
    | false =>
      simp
      omega
    | true =>
      simp [hentry he]
      exact ih

/-- What holds whatever `open` finds. -/
structure Held (s : Handle) : Prop where
  counter : -2 ^ 31 ≤ s.nextId ∧ s.nextId < 2 ^ 31
  cap : entries s.chans ≤ maxChannels
  range : ∀ c ∈ s.chans, -2 ^ 31 ≤ c.id ∧ c.id < 2 ^ 31
  proper : ∀ c ∈ s.chans, c.phase.proper .controller = true
  /-- an entry is that of a running task -/
  live : ∀ c ∈ s.chans, c.entry = true → c.running = true

/-- A step opens a channel, or every channel follows from the one in its place. -/
theorem step_cases (hs : s.step a = some s') :
    (∃ host port prebuf id next, a = .openChannel host port prebuf ∧
      entries s.chans < maxChannels ∧
      Tunnel.freeId s.chans (entries s.chans + 1) s.nextId = some (id, next) ∧
      s' = { s with chans := s.chans ++ [localChan id host port prebuf], nextId := next }) ∨
    (s'.nextId = s.nextId ∧ List.Forall₂ Follows s.chans s'.chans) := by
  have hsame : List.Forall₂ Follows s.chans s.chans := List.forall₂_same.mpr fun c _ => .refl c
  cases a with
  | openChannel host port prebuf =>
    simp only [step, openChannel] at hs
    split_ifs at hs with hg hcap
    · cases hs
      exact .inr ⟨rfl, hsame⟩
    · cases hs
      exact .inr ⟨rfl, hsame⟩
    · obtain ⟨⟨id, next⟩, hid, rfl⟩ := Option.map_eq_some_iff.mp hs
      exact .inl ⟨host, port, prebuf, id, next, rfl, by omega, hid, rfl⟩
  | task k a =>
    simp only [step] at hs
    split at hs
    · cases hs
    · rename_i c hk
      obtain ⟨⟨c', out⟩, hstep, rfl⟩ := Option.map_eq_some_iff.mp hs
      exact .inr ⟨rfl, forall₂_set Follows.refl hk (.task (Chan.step_stepped hstep))⟩
  | reap k =>
    simp only [step] at hs
    split at hs
    · cases hs
    · rename_i c hk
      split_ifs at hs with hp
      cases hs
      refine .inr ⟨rfl, ?_⟩
      rw [onEntry, List.forall₂_map_right_iff]
      refine forall₂_set ?_ hk ?_
      · intro d
        split_ifs
        · exact .drop d
        · exact .refl d
      · have hgone : (if (c.entry && decide (c.id = c.id)) = true then
            ({ c with phase := .ended } : Chan).drop else { c with phase := .ended }) =
            { c with phase := .ended, entry := false } := by
          cases c.entry <;> simp [Chan.drop]
        dsimp only
        rw [hgone]
        exact ⟨rfl, fun _ => by
          simp [Chan.running, hp], by rintro ⟨⟩, fun _ => rfl, by rintro _ _ ⟨⟩⟩
  | frame f =>
    cases hs
    refine .inr ⟨rfl, ?_⟩
    rw [Tunnel.onFrame, onEntry, List.forall₂_map_right_iff, List.forall₂_same]
    exact fun c _ => .hear c f
  | closeAll =>
    cases hs
    refine .inr ⟨rfl, ?_⟩
    rw [List.forall₂_map_right_iff, List.forall₂_same]
    exact fun c _ => .drop c
  | hangUp =>
    cases hs
    exact .inr ⟨rfl, hsame⟩

/-- **What one step preserves, whatever `open` finds.** -/
theorem Held.step (h : s.Held) (hs : s.step a = some s') : s'.Held := by
  rcases step_cases hs with ⟨host, port, prebuf, id, next, -, hcap, hfree, rfl⟩ | ⟨hnext, hall⟩
  · obtain ⟨-, hcounter, j, -, hid, -⟩ := Tunnel.freeId_spec h.counter hfree
    have hnew : ∀ {P : Chan → Prop}, (∀ c ∈ s.chans, P c) → P (localChan id host port prebuf) →
        ∀ c ∈ s.chans ++ [localChan id host port prebuf], P c := by
      intro P hold hnew c hc
      rcases List.mem_append.mp hc with hc | hc
      · exact hold c hc
      · rw [List.mem_singleton.mp hc]
        exact hnew
    refine ⟨hcounter, ?_, hnew h.range ?_, hnew h.proper rfl, hnew h.live fun _ => rfl⟩
    · have hone : entries (s.chans ++ [localChan id host port prebuf]) = entries s.chans + 1 := by
        simp [entries, localChan]
      rw [hone]
      exact hcap
    · rw [localChan, hid]
      exact wrapI32_mem _
  · have hback : ∀ c' ∈ s'.chans, ∃ c ∈ s.chans, Follows c c' := by
      intro c' hc'
      obtain ⟨k, hk⟩ := List.mem_iff_getElem?.mp hc'
      obtain ⟨c, hc, hf⟩ := forall₂_getElem?_right hall hk
      exact ⟨c, List.mem_of_getElem? hc, hf⟩
    refine ⟨?_, (entries_le hall).trans h.cap, ?_, ?_, ?_⟩
    · rw [hnext]
      exact h.counter
    · intro c' hc'
      obtain ⟨c, hc, hf⟩ := hback c' hc'
      rw [hf.id]
      exact h.range c hc
    · intro c' hc'
      obtain ⟨c, hc, hf⟩ := hback c' hc'
      exact hf.proper (h.proper c hc)
    · intro c' hc' hentry
      obtain ⟨c, hc, hf⟩ := hback c' hc'
      exact hf.live (h.proper c hc) (h.live c hc (hf.entry hentry)) hentry

/-- No two running tasks share a number. -/
def Distinct (s : Handle) : Prop :=
  ∀ (i j : ℕ) (c d : Chan), s.chans[i]? = some c → s.chans[j]? = some d → c.running = true →
    d.running = true → c.id = d.id → i = j

/-- **Where the way is clear, `open` finds a number no running task has.** -/
theorem Clear.fresh (hclear : s.Clear) (h : s.Held) {id next : ℤ}
    (hfree : Tunnel.freeId s.chans (entries s.chans + 1) s.nextId = some (id, next)) :
    ∀ c ∈ s.chans, c.running = true → c.id ≠ id := by
  obtain ⟨hnone, -, j, hj, hid, -, hbefore⟩ := Tunnel.freeId_spec h.counter hfree
  intro c hc hrun hcid
  have hcap := h.cap
  have hsmall : maxChannels < 2 ^ 32 := by decide
  cases hentry : c.entry with
  | true =>
    have hheld : hasEntry id s.chans = true := by
      rw [hasEntry, List.any_eq_true]
      exact ⟨c, hc, by simp [hentry, hcid]⟩
    rw [hnone] at hheld
    cases hheld
  | false =>
    obtain ⟨i, hi, hnot⟩ := hclear c hc hrun hentry
    rw [hcid, hid, countTo_eq (by omega)] at hi
    rw [hbefore i hi] at hnot
    cases hnot

/-- And only there: otherwise it takes the number of a task which has lost its entry. -/
theorem Distinct.clear (hd : s.Distinct) (h : s.Held) {id next : ℤ}
    (hfree : Tunnel.freeId s.chans (entries s.chans + 1) s.nextId = some (id, next))
    (hfresh : ∀ c ∈ s.chans, c.running = true → c.id ≠ id) : s.Clear := by
  obtain ⟨hnone, -, j, -, hid, -, hbefore⟩ := Tunnel.freeId_spec h.counter hfree
  intro c hc hrun hentry
  have hcid : wrapI32 (s.nextId + countTo s.nextId c.id) = c.id := by
    have := h.range c hc
    simp only [wrapI32, countTo]
    omega
  rcases Nat.lt_trichotomy j (countTo s.nextId c.id) with hlt | heq | hgt
  · exact ⟨j, hlt, by rw [← hid]; exact hnone⟩
  · rw [← heq, ← hid] at hcid
    exact absurd hcid.symm (hfresh c hc hrun)
  · -- the number would be held by another running task
    have hheld := hbefore _ hgt
    rw [hcid] at hheld
    obtain ⟨d, hdmem, hp⟩ := List.any_eq_true.mp hheld
    obtain ⟨hdentry, hdid⟩ : d.entry = true ∧ d.id = c.id := by simpa using hp
    obtain ⟨i, hi⟩ := List.mem_iff_getElem?.mp hc
    obtain ⟨k, hk⟩ := List.mem_iff_getElem?.mp hdmem
    obtain rfl := hd i k c d hi hk hrun (h.live d hdmem hdentry) hdid.symm
    rw [hi] at hk
    obtain rfl := Option.some.inj hk
    rw [hentry] at hdentry
    cases hdentry

/-- **What one step preserves, if the way is clear.** -/
theorem Distinct.step (hd : s.Distinct) (h : s.Held) (hcareful : s.Careful a)
    (hs : s.step a = some s') : s'.Distinct := by
  rcases step_cases hs with ⟨host, port, prebuf, id, next, rfl, -, hfree, rfl⟩ | ⟨-, hall⟩
  · have hfresh := Clear.fresh hcareful h hfree
    -- the new channel is the last, and no running one has its number
    have hlast : ∀ {k : ℕ} {c : Chan}, (s.chans ++ [localChan id host port prebuf])[k]? = some c →
        (s.chans[k]? = some c ∧ k < s.chans.length) ∨ (k = s.chans.length ∧ c.id = id) := by
      intro k c hk
      rcases Nat.lt_trichotomy k s.chans.length with hlt | rfl | hgt
      · rw [List.getElem?_append_left hlt] at hk
        exact .inl ⟨hk, hlt⟩
      · obtain rfl : localChan id host port prebuf = c := by simpa using hk
        exact .inr ⟨rfl, rfl⟩
      · rw [List.getElem?_eq_none (by simp; omega)] at hk
        cases hk
    intro i j c d hi hj hc hd' hid
    rcases hlast hi with ⟨hi, -⟩ | ⟨rfl, hci⟩
    · rcases hlast hj with ⟨hj, -⟩ | ⟨rfl, hdi⟩
      · exact hd i j c d hi hj hc hd' hid
      · exact absurd (hid.trans hdi) (hfresh c (List.mem_of_getElem? hi) hc)
    · rcases hlast hj with ⟨hj, -⟩ | ⟨rfl, hdi⟩
      · exact absurd (hid.symm.trans hci) (hfresh d (List.mem_of_getElem? hj) hd')
      · rfl
  · intro i j c' d' hi hj hc hd' hid
    obtain ⟨c, hc₀, hfc⟩ := forall₂_getElem?_right hall hi
    obtain ⟨d, hd₀, hfd⟩ := forall₂_getElem?_right hall hj
    refine hd i j c d hc₀ hd₀ (hfc.running hc) (hfd.running hd') ?_
    rw [← hfc.id, ← hfd.id, hid]

/-- A task that returns takes no other channel's entry, where running tasks have numbers of their
own. -/
theorem Distinct.reap (hd : s.Distinct) (h : s.Held) {k : ℕ} (hs : s.step (.reap k) = some s')
    {j : ℕ} {d : Chan} (hj : s.chans[j]? = some d) (hjk : j ≠ k) : s'.chans[j]? = some d := by
  simp only [Handle.step] at hs
  split at hs
  · cases hs
  · rename_i c hk
    split_ifs at hs with hp
    cases hs
    rw [onEntry, List.getElem?_map, List.getElem?_set_ne (Ne.symm hjk), hj, Option.map_some, if_neg]
    intro hsame
    obtain ⟨hentry, hid⟩ : d.entry = true ∧ d.id = c.id := by simpa using hsame
    have hrun : c.running = true := by simp [Chan.running, hp]
    exact hjk (hd j k d c hj hk (h.live d (List.mem_of_getElem? hj) hentry) hrun hid)

theorem new_held : new.Held ∧ new.Distinct := by
  refine ⟨⟨by decide, by decide, by simp [new], by simp [new], by simp [new]⟩, ?_⟩
  intro i j c d hi
  simp [new] at hi

/-- **Channel identity.** In every state any order of steps leads to, against any peer: the
search of `open` ends, and the map has room for no more than `maxChannels`. If moreover every
`open` so far found the way clear: no two running tasks share a number, the next `open` takes one
that no running task has if and only if it finds the way clear, and a task that returns takes no
entry but its own. -/
theorem identity {as : List Act} {s : Handle} (hrun : exec step new as = some s) :
    ((∀ host port prebuf, (s.step (.openChannel host port prebuf)).isSome = true) ∧
      entries s.chans ≤ maxChannels) ∧
    (Along step Careful new as →
      s.Distinct ∧
      (∀ id next, Tunnel.freeId s.chans (entries s.chans + 1) s.nextId = some (id, next) →
        ((∀ c ∈ s.chans, c.running = true → c.id ≠ id) ↔ s.Clear)) ∧
      (∀ k s', s.step (.reap k) = some s' → ∀ (j : ℕ) (d : Chan), j ≠ k →
        s.chans[j]? = some d → s'.chans[j]? = some d)) := by
  have hheld : s.Held := exec_invariant (fun _ _ _ h hs => Held.step h hs) new_held.1 hrun
  refine ⟨⟨?_, hheld.cap⟩, ?_⟩
  · intro host port prebuf
    have hcap := hheld.cap
    have hsmall : maxChannels < 2 ^ 32 := by decide
    have hfree := Tunnel.freeId_isSome hheld.counter (show entries s.chans < 2 ^ 32 by omega)
    rw [step, openChannel]
    split_ifs
    · rfl
    · rfl
    · rw [Option.isSome_map]
      exact hfree
  · intro hcareful
    have hdistinct : s.Held ∧ s.Distinct := by
      refine exec_invariant_along (C := Careful) (I := fun s => s.Held ∧ s.Distinct) ?_ new_held
        hcareful hrun
      rintro s a s' ⟨hh, hd⟩ hc hs
      exact ⟨hh.step hs, hd.step hh hc hs⟩
    refine ⟨hdistinct.2, ?_, ?_⟩
    · intro id next hfree
      exact ⟨hdistinct.2.clear hheld hfree, fun hclear => hclear.fresh hheld hfree⟩
    · intro k s' hs j d hjk hj
      exact hdistinct.2.reap hheld hs hj hjk

/-! ## Once the counter has come round -/

/-- The first channel: the peer sends a byte and closes, and the local socket does not take it. -/
def parked : List Act :=
  [.openChannel "h" 80 [], .task 0 .announce, .frame (.data 1 [7]), .task 0 (.recv .fetch),
    .frame (.close 1)]

/-- The task of the first channel as that leaves it. -/
def parkedChan : Chan :=
  { localChan 1 "h" 80 [] with
    phase := .relaying, entry := false, inbound := [.close]
    window := ⟨channelWindow - minFrameCharge, 0⟩, recv := ⟨.writing [7] [7], [], []⟩ }

theorem exec_parked : exec step new parked = some ⟨[parkedChan], 2, false, false⟩ := by
  decide +kernel

/-- Two numbers on the way, and no running task shares one. -/
theorem identity_parked : ∃ s, exec step new (parked ++ [Act.openChannel "h" 80 []]) = some s ∧
    s.chans.map Chan.id = [1, 2] ∧ s.Distinct := by
  have hrun : exec step new (parked ++ [Act.openChannel "h" 80 []]) =
      some ⟨[parkedChan, localChan 2 "h" 80 []], 3, false, false⟩ := by
    decide +kernel
  have hcareful : Along step Careful new (parked ++ [Act.openChannel "h" 80 []]) := by
    have hclear : (⟨[parkedChan], 2, false, false⟩ : Handle).Clear := by
      intro c hc _ _
      obtain rfl := List.mem_singleton.mp hc
      exact ⟨0, by decide +kernel, by decide +kernel⟩
    refine along_append ?_ exec_parked ⟨hclear, trivial⟩
    refine ⟨?_, trivial, trivial, trivial, trivial, trivial⟩
    intro c hc
    cases hc
  exact ⟨_, hrun, by decide, ((identity hrun).2 hcareful).1⟩

/-- A task's own steps, whatever it sends. -/
def runTask (c : Chan) : List ChanAct → Option Chan :=
  exec (fun c a => (c.step .controller false false a).map Prod.fst) c

/-- A task's own steps, as the handle takes them. -/
theorem exec_task {k : ℕ} {as : List ChanAct} {n : ℤ} {c c' : Chan} (hk : cs[k]? = some c)
    (hrun : runTask c as = some c') :
    exec step ⟨cs, n, false, false⟩ (as.map (.task k)) = some ⟨cs.set k c', n, false, false⟩ := by
  induction as generalizing cs c with
  | nil =>
    obtain rfl := Option.some.inj hrun
    obtain ⟨hlt, rfl⟩ := List.getElem?_eq_some_iff.mp hk
    simp
  | cons a as ih =>
    obtain ⟨c₁, h₁, h₂⟩ := exec_cons.mp hrun
    obtain ⟨⟨c₁, out⟩, hstep, rfl⟩ := Option.map_eq_some_iff.mp h₁
    have hlt := (List.getElem?_eq_some_iff.mp hk).1
    have hs : (⟨cs, n, false, false⟩ : Handle).step (.task k a) =
        some ⟨cs.set k c₁, n, false, false⟩ := by
      simp [step, hk, hstep]
    have hrest := ih (List.getElem?_set_self hlt) h₂
    rw [List.set_set] at hrest
    exact exec_cons.mpr ⟨_, hs, hrest⟩

/-- The steps of a channel whose client has nothing to say. -/
def briefActs : List ChanAct :=
  [.announce, .send .take, .send (.read []), .send .refund, .propagate, .recv .cancel, .finish]

/-- Its task, just before it removes its entry. -/
def briefChan (id : ℤ) : Chan :=
  { localChan id "h" 80 [] with
    phase := .reaping, cancel := true, credit := .new initialWindow
    send := ⟨.done .localEof, [], []⟩, recv := ⟨.done .cancelled, [], []⟩ }

theorem runTask_brief (id : ℤ) :
    runTask (localChan id "h" 80 []) briefActs = some (briefChan id) := by
  have htake : (SendCredit.new initialWindow).take maxFrame = some (maxFrame, ⟨0⟩) := by decide
  have hadd : (⟨0⟩ : SendCredit).add maxFrame = .new initialWindow := by decide
  have hpos : 0 < maxFrame := by decide
  simp [runTask, briefActs, exec, Chan.step, localChan, briefChan, SendHalf.step, SendHalf.new,
    SendHalf.spent, SendHalf.ended, RecvHalf.step, RecvHalf.new, RecvHalf.ended, Side.afterRelay,
    htake, hadd, hpos]

/-- A channel that comes and goes. -/
def brief (k : ℕ) : List Act :=
  Act.openChannel "h" 80 [] :: briefActs.map (.task k) ++ [Act.reap k]

/-- The record it leaves. -/
def briefRecord (id : ℤ) : Chan := { briefChan id with phase := .ended, entry := false }

theorem onEntry_none (hnone : ∀ c ∈ cs, c.entry = false) (id : ℤ) (f : Chan → Chan) :
    onEntry id f cs = cs := by
  rw [onEntry]
  conv_rhs => rw [← List.map_id cs]
  apply List.map_congr_left
  intro c hc
  simp [hnone c hc]

theorem onEntry_append (id : ℤ) (f : Chan → Chan) (cs ds : List Chan) :
    onEntry id f (cs ++ ds) = onEntry id f cs ++ onEntry id f ds := List.map_append

/-- With no entry in the map `open` takes the counter as it is. -/
theorem step_open (hnone : ∀ c ∈ cs, c.entry = false) (n : ℤ) :
    (⟨cs, n, false, false⟩ : Handle).step (.openChannel "h" 80 []) =
      some ⟨cs ++ [localChan n "h" 80 []], wrapI32 (n + 1), false, false⟩ := by
  have hentries : entries cs = 0 := List.countP_eq_zero.mpr fun c hc => by simp [hnone c hc]
  have hno : hasEntry n cs = false := by
    rw [hasEntry, List.any_eq_false]
    intro c hc
    simp [hnone c hc]
  have hroom : ¬ maxChannels ≤ 0 := by decide
  simp [step, openChannel, hentries, Tunnel.freeId, hno, hroom]

theorem step_reap {k : ℕ} {c : Chan} (hk : cs[k]? = some c) (hp : c.phase = .reaping) (n : ℤ) :
    (⟨cs, n, false, false⟩ : Handle).step (.reap k) =
      some ⟨onEntry c.id Chan.drop (cs.set k { c with phase := .ended }), n, false, false⟩ := by
  simp only [step, hk, hp, if_true]

/-- A channel that comes and goes leaves its record and takes one number. -/
theorem exec_brief (hnone : ∀ c ∈ cs, c.entry = false) (n : ℤ) :
    exec step ⟨cs, n, false, false⟩ (brief cs.length) =
      some ⟨cs ++ [briefRecord n], wrapI32 (n + 1), false, false⟩ := by
  have hlast : (cs ++ [localChan n "h" 80 []])[cs.length]? = some (localChan n "h" 80 []) := by simp
  have htask := exec_task (n := wrapI32 (n + 1)) hlast (runTask_brief n)
  rw [List.set_append_right _ _ le_rfl, Nat.sub_self, List.set_cons_zero] at htask
  have hreap : (⟨cs ++ [briefChan n], wrapI32 (n + 1), false, false⟩ : Handle).step
      (.reap cs.length) = some ⟨cs ++ [briefRecord n], wrapI32 (n + 1), false, false⟩ := by
    have hget : (cs ++ [briefChan n])[cs.length]? = some (briefChan n) := by simp
    rw [step_reap hget rfl]
    rw [List.set_append_right _ _ le_rfl, Nat.sub_self, List.set_cons_zero, onEntry_append,
      onEntry_none hnone]
    simp [onEntry, briefChan, briefRecord, localChan, Chan.drop]
  rw [brief, List.cons_append]
  exact exec_cons.mpr ⟨_, step_open hnone n, exec_append.mpr
    ⟨_, htask, exec_cons.mpr ⟨_, hreap, rfl⟩⟩⟩

/-- Any number of channels that come and go. -/
def briefs (m : ℕ) : List Act := (List.range m).flatMap fun i => brief (i + 1)

/-- **Channels that come and go move the counter on**, and leave nothing in the map. -/
theorem exec_briefs (m : ℕ) : ∃ cs, cs.length = m + 1 ∧ cs[0]? = some parkedChan ∧
    (∀ c ∈ cs, c.entry = false) ∧
    exec step ⟨[parkedChan], 2, false, false⟩ (briefs m) =
      some ⟨cs, wrapI32 (2 + m), false, false⟩ := by
  induction m with
  | zero => exact ⟨[parkedChan], rfl, rfl, by simp [parkedChan], rfl⟩
  | succ m ih =>
    obtain ⟨cs, hlen, hfirst, hnone, hexec⟩ := ih
    refine ⟨cs ++ [briefRecord (wrapI32 (2 + m))], by simp [hlen], ?_, ?_, ?_⟩
    · rw [List.getElem?_append_left (by omega)]
      exact hfirst
    · intro c hc
      rcases List.mem_append.mp hc with hc | hc
      · exact hnone c hc
      · rw [List.mem_singleton.mp hc]
        rfl
    · have hnext := exec_brief hnone (wrapI32 (2 + m))
      rw [hlen, wrapI32_wrapI32_add] at hnext
      rw [briefs, List.range_succ, List.flatMap_append, List.flatMap_singleton]
      refine exec_append.mpr ⟨_, hexec, ?_⟩
      rw [hnext]
      congr 2

/-- The local socket takes the byte after all, and the first task comes to its end. -/
def letGo : List ChanAct :=
  [.recv (.write 1), .recv .wrote, .recv .fetch, .propagate, .send .cancel, .finish]

/-- The first task, just before it removes its entry. -/
def goneChan : Chan :=
  { parkedChan with
    phase := .reaping, inbound := [], window := ⟨channelWindow - minFrameCharge, minFrameCharge⟩
    cancel := true, send := ⟨.done .cancelled, [], []⟩, recv := ⟨.done .peerClosed, [], [7]⟩ }

/-- A channel is parked on its socket while the counter goes round; then another is opened, and
the first lets go. -/
def roundTrip : List Act :=
  parked ++ briefs (2 ^ 32 - 1) ++ [Act.openChannel "h" 80 []] ++ letGo.map (.task 0)

/-- **The number of a running task is given out again, and its end takes the later channel's
entry.** Channel 2³² is opened under the number of channel 0, whose task is still running; when
that task removes its entry, it is the new channel that leaves the map. -/
theorem removes_a_later_channel : (∃ s, exec step new (parked ++ briefs (2 ^ 32 - 1)) = some s ∧
      s.chans[0]? = some parkedChan ∧ parkedChan.running = true ∧
      ∃ next, Tunnel.freeId s.chans (entries s.chans + 1) s.nextId = some (parkedChan.id, next)) ∧
    ∃ (s s' : Handle) (d : Chan), exec step new roundTrip = some s ∧ s.chans[2 ^ 32]? = some d ∧
      d.entry = true ∧
      s.step (.reap 0) = some s' ∧ s'.chans[2 ^ 32]? = some d.drop := by
  obtain ⟨cs, hlen, hfirst, hnone, hexec⟩ := exec_briefs (2 ^ 32 - 1)
  have hround : wrapI32 (2 + ((2 ^ 32 - 1 : ℕ) : ℤ)) = 1 := by
    simp [wrapI32]
  rw [hround] at hexec
  have hstart := exec_append.mpr ⟨_, exec_parked, hexec⟩
  have hopen := step_open hnone 1
  refine ⟨⟨_, hstart, hfirst, rfl, ?_⟩, ?_⟩
  · refine ⟨wrapI32 (1 + 1), ?_⟩
    have hno : hasEntry 1 cs = false := by
      rw [hasEntry, List.any_eq_false]
      intro c hc
      simp [hnone c hc]
    rw [Tunnel.freeId, hno]
    rfl
  · have hzero : (cs ++ [localChan 1 "h" 80 []])[0]? = some parkedChan := by
      rw [List.getElem?_append_left (by omega)]
      exact hfirst
    have hlet : runTask parkedChan letGo = some goneChan := by decide +kernel
    have hgo := exec_task (n := wrapI32 (1 + 1)) hzero hlet
    have hrun : exec step new roundTrip = some ⟨(cs ++ [localChan 1 "h" 80 []]).set 0 goneChan,
        wrapI32 (1 + 1), false, false⟩ := by
      refine exec_append.mpr ⟨_, exec_append.mpr ⟨_, hstart, ?_⟩, hgo⟩
      exact exec_cons.mpr ⟨_, hopen, exec_nil _ _⟩
    have hfirst' : ((cs ++ [localChan 1 "h" 80 []]).set 0 goneChan)[0]? = some goneChan :=
      List.getElem?_set_self (by simp)
    have hlater : ((cs ++ [localChan 1 "h" 80 []]).set 0 goneChan)[2 ^ 32]? =
        some (localChan 1 "h" 80 []) := by
      rw [List.getElem?_set_ne (by decide), List.getElem?_append_right (by omega), hlen]
      rfl
    refine ⟨_, _, localChan 1 "h" 80 [], hrun, hlater, rfl, step_reap hfirst' rfl _, ?_⟩
    rw [onEntry, List.getElem?_map, List.getElem?_set_ne (by decide), hlater]
    rfl

end Handle
end BgDesk
