import BgDesk.Machine
import BgDesk.MuxChannel
import Mathlib.Algebra.Order.BigOperators.Group.List

/-!
# The controlled side of a tunnel

`PortForwardMux` of `src/server/port_forward_mux.rs` with its channel tasks and
the connection's one ordered queue `tx`, against a peer that may send any frame
at any time. Tasks never leave the list: one that has returned stays as a record.

* `Mux.handle` — what each frame does;
* `Mux.step` — a frame, a step of any task, a write of the connection, teardown;
* `Mux.unwritten_le` — how much target data one channel can leave in `tx`;
* `Mux.running_le` — how many tasks can be up, and how much they can hold.

Both bounds hold as long as the peer's frames meet a condition; without it neither
does, as the runs after them show.
-/

namespace BgDesk

/-- `PortForwardMux`, its tasks, and what the connection has still to write: frames with
the number of the task they come from. -/
structure Mux where
  chans : List Chan
  tx : List (Option ℕ × Frame)
  loginTarget : String
  teardown : Bool
  /-- the receiver of `tx` has been dropped -/
  gone : Bool
  deriving DecidableEq

namespace Mux

/-- `PortForwardMux::new`. -/
def new (loginTarget : String) : Mux := ⟨[], [], loginTarget, false, false⟩

/-- The channel `on_open` starts. -/
def newChan (id : ℤ) (addr : String) (isRdp : Bool) (window : ℕ) : Chan :=
  { id := id, addr := addr, isRdp := isRdp, entry := true, opened := false
    credit := .new (effectiveWindow window), window := .new initialWindow, inbound := []
    phase := .connecting 0, send := .new [], recv := .new [], cancel := false }

/-- `channels.retain(|_, e| !e.inbound.is_closed())`. -/
def retain (cs : List Chan) : List Chan := cs.map fun c => if c.inboundClosed then c.drop else c

/-- `reply`. -/
def reply (m : Mux) (f : Frame) : Mux :=
  if m.gone then m else { m with tx := m.tx ++ [(none, f)] }

/-- `on_open`. -/
def onOpen (m : Mux) (permitted : Bool) (id : ℤ) (host : String) (port : ℤ) (window : ℕ) : Mux :=
  let m := { m with chans := retain m.chans }
  if !permitted then m.reply (.opened id false "No permission of IP tunneling" 0)
  else if maxChannels ≤ entries m.chans then
    m.reply (.opened id false "Too many port forward channels" 0)
  else if hasEntry id m.chans then m
  else
    let (addr, isRdp) := normalizePortForwardTarget host port
    if addr ≠ m.loginTarget then
      m.reply (.opened id false "Port forward target not authorized" 0)
    else { m with chans := m.chans ++ [newChan id addr isRdp window] }

/-- `handle`. -/
def handle (m : Mux) (permitted : Bool) : Frame → Mux
  | .openChannel id host port window => m.onOpen permitted id host port window
  | .data id b => { m with chans := onEntry id (fun c => c.data b) m.chans }
  | .close id => { m with chans := onEntry id Chan.close m.chans }
  | .windowUpdate id add => { m with chans := onEntry id (fun c => c.windowUpdate add) m.chans }
  | .opened _ _ _ _ => m

/-- What can happen next. -/
inductive Act where
  /-- the main loop hands a frame over; `permitted` is what `tunnel_permitted` says -/
  | frame (permitted : Bool) (f : Frame)
  /-- task `k` takes a step -/
  | task (k : ℕ) (a : ChanAct)
  /-- the connection writes the head of `tx` -/
  | write
  /-- `close_all` -/
  | closeAll
  /-- the connection drops its end of `tx` -/
  | hangUp
  deriving DecidableEq

/-- One step. -/
def step (m : Mux) : Act → Option Mux
  | .frame permitted f => if m.teardown then none else some (m.handle permitted f)
  | .task k a =>
    match m.chans[k]? with
    | none => none
    | some c =>
      (c.step .controlled m.gone m.teardown a).map fun (c', out) =>
        { m with chans := m.chans.set k c', tx := m.tx ++ out.toList.map (some k, ·) }
  | .write =>
    match m.tx with
    | [] => none
    | _ :: rest => some { m with tx := rest }
  | .closeAll => some { m with chans := m.chans.map Chan.drop, teardown := true }
  | .hangUp => some { m with tx := [], gone := true }

/-- Charge of the data frames of task `k` in a queue. -/
def queued (k : ℕ) (tx : List (Option ℕ × Frame)) : ℕ :=
  ((tx.filter fun e => e.1 = some k).map fun e => Chan.frameCharge e.2).sum

/-- Charge of the data frames of task `k` that the connection has not written. -/
def unwritten (m : Mux) (k : ℕ) : ℕ := queued k m.tx

/-- Tasks that have not returned. -/
def running (m : Mux) : ℕ := m.chans.countP Chan.running

/-- The peer's bytes those tasks hold. -/
def bytesHeld (m : Mux) : ℕ := ((m.chans.filter Chan.running).map Chan.bytesHeld).sum

/-! ## What a step does to each channel -/

/-- What one step can make of a channel, apart from a step of its own task. -/
inductive Touched (c : Chan) : Chan → Prop where
  | same : Touched c c
  | data (b : Bytes) (he : c.entry = true) : Touched c (c.data b)
  | close (he : c.entry = true) : Touched c c.close
  | windowUpdate (add : ℕ) (he : c.entry = true) : Touched c (c.windowUpdate add)
  | drop : Touched c c.drop

variable {f : Chan → Chan} {cs : List Chan} {k : ℕ} {c c' : Chan} {m m' : Mux} {a : Act}

theorem touched_onEntry {id : ℤ} (h : (onEntry id f cs)[k]? = some c') :
    ∃ c, cs[k]? = some c ∧ (c' = c ∨ (c.entry = true ∧ c.id = id ∧ c' = f c)) := by
  rw [onEntry, List.getElem?_map] at h
  obtain ⟨c, hc, rfl⟩ := Option.map_eq_some_iff.mp h
  refine ⟨c, hc, ?_⟩
  split_ifs with hid
  · obtain ⟨he, hid⟩ : c.entry = true ∧ c.id = id := by simpa using hid
    exact .inr ⟨he, hid, rfl⟩
  · exact .inl rfl

theorem touched_retain (h : (retain cs)[k]? = some c') :
    ∃ c, cs[k]? = some c ∧ (c' = c ∨ c' = c.drop) := by
  rw [retain, List.getElem?_map] at h
  obtain ⟨c, hc, rfl⟩ := Option.map_eq_some_iff.mp h
  refine ⟨c, hc, ?_⟩
  split_ifs
  · exact .inr rfl
  · exact .inl rfl

/-- `on_open` answers, or starts one channel; the others at most lose a dead entry. -/
theorem onOpen_cases (m : Mux) (permitted : Bool) (id : ℤ) (host : String) (port : ℤ) (window : ℕ) :
    (∃ replies, m.onOpen permitted id host port window =
      { m with chans := retain m.chans, tx := m.tx ++ replies } ∧ ∀ e ∈ replies, e.1 = none) ∨
    (entries (retain m.chans) < maxChannels ∧ hasEntry id (retain m.chans) = false ∧
      ∃ addr isRdp, m.onOpen permitted id host port window =
        { m with chans := retain m.chans ++ [newChan id addr isRdp window] }) := by
  have hreply : ∀ (m : Mux) (f : Frame), ∃ replies,
      m.reply f = { m with tx := m.tx ++ replies } ∧ ∀ e ∈ replies, e.1 = none := by
    intro m f
    rw [reply]
    split_ifs
    · exact ⟨[], by simp, nofun⟩
    · exact ⟨[(none, f)], rfl, by simp⟩
  unfold onOpen
  dsimp only
  split_ifs with hperm hcap hdup haddr
  · exact .inl (hreply { m with chans := retain m.chans } _)
  · exact .inl (hreply { m with chans := retain m.chans } _)
  · exact .inl ⟨[], by simp, nofun⟩
  · exact .inl (hreply { m with chans := retain m.chans } _)
  · exact .inr ⟨by omega, by simpa using hdup, _, _, rfl⟩

/-- What one step does, one constructor for each kind of step. -/
inductive Stepped (m : Mux) : Act → Mux → Prop where
  | replied {permitted : Bool} {id : ℤ} {host : String} {port : ℤ} {window : ℕ}
    {replies : List (Option ℕ × Frame)} (hr : ∀ e ∈ replies, e.1 = none) :
    Stepped m (.frame permitted (.openChannel id host port window))
      { m with chans := retain m.chans, tx := m.tx ++ replies }
  | spawned {permitted : Bool} {id : ℤ} {host addr : String} {port : ℤ} {window : ℕ} {isRdp : Bool}
    (hcap : entries (retain m.chans) < maxChannels)
    (hid : hasEntry id (retain m.chans) = false) :
    Stepped m (.frame permitted (.openChannel id host port window))
      { m with chans := retain m.chans ++ [newChan id addr isRdp window] }
  | data {permitted : Bool} (id : ℤ) (b : Bytes) :
    Stepped m (.frame permitted (.data id b))
      { m with chans := onEntry id (fun c => c.data b) m.chans }
  | close {permitted : Bool} (id : ℤ) :
    Stepped m (.frame permitted (.close id)) { m with chans := onEntry id Chan.close m.chans }
  | windowUpdate {permitted : Bool} (id : ℤ) (add : ℕ) :
    Stepped m (.frame permitted (.windowUpdate id add))
      { m with chans := onEntry id (fun c => c.windowUpdate add) m.chans }
  | ignored {permitted success : Bool} {id : ℤ} {msg : String} {window : ℕ} :
    Stepped m (.frame permitted (.opened id success msg window)) m
  | task {k : ℕ} {a : ChanAct} {c c' : Chan} {out : Option Frame} (hk : m.chans[k]? = some c)
    (hs : Chan.Stepped .controlled m.gone m.teardown c c' out) :
    Stepped m (.task k a)
      { m with chans := m.chans.set k c', tx := m.tx ++ out.toList.map (some k, ·) }
  | wrote {e : Option ℕ × Frame} {rest : List (Option ℕ × Frame)} (ht : m.tx = e :: rest) :
    Stepped m .write { m with tx := rest }
  | closedAll : Stepped m .closeAll { m with chans := m.chans.map Chan.drop, teardown := true }
  | hungUp : Stepped m .hangUp { m with tx := [], gone := true }

theorem step_stepped (h : m.step a = some m') : Stepped m a m' := by
  cases a with
  | frame permitted f =>
    simp only [step] at h
    split_ifs at h
    obtain rfl := Option.some.inj h
    cases f with
    | openChannel id host port window =>
      obtain ⟨replies, heq, hr⟩ | ⟨hcap, hid, addr, isRdp, heq⟩ :=
        m.onOpen_cases permitted id host port window
      · rw [handle, heq]
        exact .replied hr
      · rw [handle, heq]
        exact .spawned hcap hid
    | data id b => exact .data id b
    | close id => exact .close id
    | windowUpdate id add => exact .windowUpdate id add
    | opened id success msg window => exact .ignored
  | task k a =>
    simp only [step] at h
    split at h
    · cases h
    · rename_i c hk
      obtain ⟨⟨c', out⟩, hs, rfl⟩ := Option.map_eq_some_iff.mp h
      exact .task hk (Chan.step_stepped hs)
  | write =>
    simp only [step] at h
    split at h
    · cases h
    · rename_i e rest ht
      cases h
      exact .wrote ht
  | closeAll =>
    cases h
    exact .closedAll
  | hangUp =>
    cases h
    exact .hungUp

/-- **Where the channels of the next state come from**: from their task's own step, from
something done to them, or from `on_open`. -/
theorem Stepped.chan (hs : Stepped m a m') (hk : m'.chans[k]? = some c') :
    (∃ c, m.chans[k]? = some c ∧ Touched c c') ∨
    (∃ c out, m.chans[k]? = some c ∧ Chan.Stepped .controlled m.gone m.teardown c c' out) ∨
    (∃ id addr isRdp window, k = m.chans.length ∧ c' = newChan id addr isRdp window) := by
  have hretain : ∀ c', (retain m.chans)[k]? = some c' →
      ∃ c, m.chans[k]? = some c ∧ Touched c c' := by
    intro c' hk
    obtain ⟨c, hc, rfl | rfl⟩ := touched_retain hk
    · exact ⟨_, hc, .same⟩
    · exact ⟨c, hc, .drop⟩
  cases hs with
  | replied hr => exact .inl (hretain _ hk)
  | @spawned _ id _ addr _ window isRdp hcap hid =>
    have hlen : (retain m.chans).length = m.chans.length := by simp [retain]
    by_cases hlt : k < (retain m.chans).length
    · rw [List.getElem?_append_left hlt] at hk
      exact .inl (hretain _ hk)
    · rw [List.getElem?_append_right (by omega), hlen] at hk
      cases hj : k - m.chans.length with
      | zero =>
        rw [hj] at hk
        obtain rfl := Option.some.inj hk
        exact .inr (.inr ⟨id, addr, isRdp, window, by omega, rfl⟩)
      | succ j =>
        rw [hj] at hk
        cases hk
  | data id b =>
    obtain ⟨c, hc, rfl | ⟨he, -, rfl⟩⟩ := touched_onEntry hk
    · exact .inl ⟨_, hc, .same⟩
    · exact .inl ⟨c, hc, .data b he⟩
  | close id =>
    obtain ⟨c, hc, rfl | ⟨he, -, rfl⟩⟩ := touched_onEntry hk
    · exact .inl ⟨_, hc, .same⟩
    · exact .inl ⟨c, hc, .close he⟩
  | windowUpdate id add =>
    obtain ⟨c, hc, rfl | ⟨he, -, rfl⟩⟩ := touched_onEntry hk
    · exact .inl ⟨_, hc, .same⟩
    · exact .inl ⟨c, hc, .windowUpdate add he⟩
  | ignored => exact .inl ⟨c', hk, .same⟩
  | @task j a c c₁ out hj hs =>
    by_cases hjk : j = k
    · subst hjk
      rw [List.getElem?_set_self (by simpa using (List.getElem?_eq_some_iff.mp hj).1)] at hk
      obtain rfl := Option.some.inj hk
      exact .inr (.inl ⟨c, out, hj, hs⟩)
    · rw [List.getElem?_set_ne hjk] at hk
      exact .inl ⟨c', hk, .same⟩
  | wrote ht => exact .inl ⟨c', hk, .same⟩
  | closedAll =>
    rw [List.getElem?_map] at hk
    obtain ⟨c, hc, rfl⟩ := Option.map_eq_some_iff.mp hk
    exact .inl ⟨c, hc, .drop⟩
  | hungUp => exact .inl ⟨c', hk, .same⟩

/-! ## Target data in the connection's queue -/

theorem queued_append (k : ℕ) (tx es : List (Option ℕ × Frame)) :
    queued k (tx ++ es) = queued k tx + queued k es := by
  simp [queued]

/-- Replies of `on_open` belong to no task. -/
theorem queued_replies {replies : List (Option ℕ × Frame)} (hr : ∀ e ∈ replies, e.1 = none)
    (k : ℕ) : queued k replies = 0 := by
  have hnone : (replies.filter fun e => e.1 = some k) = [] := by
    apply List.filter_eq_nil_iff.mpr
    intro e he
    simp [hr e he]
  rw [queued, hnone]
  rfl

theorem queued_task (j : ℕ) (out : Option Frame) (k : ℕ) :
    queued k (out.toList.map (some j, ·)) = if j = k then out.elim 0 Chan.frameCharge else 0 := by
  cases out with
  | none => simp [queued]
  | some f => by_cases hjk : j = k <;> simp [queued, hjk]

/-- Every channel's relay is honest about its allowance, and what it can still send fits
the cap together with what it has left in the queue. -/
structure Capped (m : Mux) : Prop where
  chan : ∀ k c, m.chans[k]? = some c → c.send.Wf ∧ c.owed + m.unwritten k ≤ maxSendCredit
  fresh : ∀ k, m.chans.length ≤ k → m.unwritten k = 0

/-- The peer's updates only ever give back what the connection has written: none lifts a
channel's credit past the cap less what the channel still has taken, in hand or queued. -/
def Refills (m : Mux) : Act → Prop
  | .frame _ (.windowUpdate id add) =>
    ∀ k < m.chans.length, ∀ c ∈ m.chans[k]?, c.entry = true → c.id = id →
      (c.windowUpdate add).owed + m.unwritten k ≤ maxSendCredit
  | _ => True

instance (m : Mux) : ∀ a, Decidable (m.Refills a)
  | .frame _ (.windowUpdate _ _) => inferInstanceAs (Decidable (∀ k < _, ∀ c ∈ _, _))
  | .frame _ (.openChannel _ _ _ _) | .frame _ (.data _ _) | .frame _ (.close _)
  | .frame _ (.opened _ _ _ _) | .task _ _ | .write | .closeAll | .hangUp => isTrue trivial

theorem newChan_owed (id : ℤ) (addr : String) (isRdp : Bool) (window : ℕ) :
    (newChan id addr isRdp window).owed ≤ maxSendCredit := by
  show min (effectiveWindow window) maxSendCredit + 0 + 0 ≤ maxSendCredit
  exact min_le_right _ _

theorem data_sends (c : Chan) (b : Bytes) :
    (c.data b).send = c.send ∧ (c.data b).credit = c.credit := by
  unfold Chan.data
  split
  · split_ifs <;> exact ⟨rfl, rfl⟩
  · exact ⟨rfl, rfl⟩

/-- A step that touches neither relay nor credit, and adds no data to the queue. -/
theorem Capped.keep (h : m.Capped) (hlen : m'.chans.length = m.chans.length)
    (hchan : ∀ (k : ℕ) (c' : Chan), m'.chans[k]? = some c' →
      ∃ c : Chan, m.chans[k]? = some c ∧ c'.send = c.send ∧ c'.credit = c.credit)
    (htx : ∀ k, m'.unwritten k ≤ m.unwritten k) : m'.Capped := by
  constructor
  · intro k c' hk
    obtain ⟨c, hc, hsend, hcredit⟩ := hchan k c' hk
    obtain ⟨hwf, hle⟩ := h.chan k c hc
    rw [Chan.owed, hsend, hcredit]
    exact ⟨hwf, le_trans (Nat.add_le_add_left (htx k) _) hle⟩
  · intro k hk
    have h₁ := h.fresh k (by omega)
    have h₂ := htx k
    omega

theorem length_retain (cs : List Chan) : (retain cs).length = cs.length := by
  simp [retain]

/-- An entry that goes takes no credit with it. -/
theorem retain_sends {cs : List Chan} (k : ℕ) (c' : Chan) (hk : (retain cs)[k]? = some c') :
    ∃ c : Chan, cs[k]? = some c ∧ c'.send = c.send ∧ c'.credit = c.credit := by
  obtain ⟨c, hc, rfl | rfl⟩ := touched_retain hk
  · exact ⟨_, hc, rfl, rfl⟩
  · exact ⟨c, hc, rfl, rfl⟩

/-- A channel starts below the cap. -/
theorem Capped.spawn (h : m.Capped) (id : ℤ) (addr : String) (window : ℕ) (isRdp : Bool) :
    Capped { m with chans := retain m.chans ++ [newChan id addr isRdp window] } := by
  have hkeep : ({ m with chans := retain m.chans } : Mux).Capped :=
    h.keep (length_retain _) retain_sends fun k => le_rfl
  constructor
  · intro k c' hk
    by_cases hlt : k < (retain m.chans).length
    · rw [List.getElem?_append_left hlt] at hk
      exact hkeep.chan k c' hk
    · rw [List.getElem?_append_right (by omega)] at hk
      have hzero : m.unwritten k = 0 := h.fresh k (length_retain m.chans ▸ not_lt.mp hlt)
      cases hj : k - (retain m.chans).length with
      | zero =>
        rw [hj] at hk
        obtain rfl := Option.some.inj hk
        refine ⟨SendHalf.wf_new _, ?_⟩
        show _ + m.unwritten k ≤ _
        rw [hzero]
        exact newChan_owed id addr isRdp window
      | succ j =>
        rw [hj] at hk
        cases hk
  · intro k hk
    apply h.fresh k
    simp only [List.length_append, length_retain] at hk
    omega

/-- A task takes a step: what it sends is queued. -/
theorem Capped.task (h : m.Capped) {j : ℕ} {c c₁ : Chan} {out : Option Frame}
    (hj : m.chans[j]? = some c)
    (hs : Chan.Stepped .controlled m.gone m.teardown c c₁ out) :
    Capped { m with chans := m.chans.set j c₁, tx := m.tx ++ out.toList.map (some j, ·) } := by
  have hlt : j < m.chans.length := (List.getElem?_eq_some_iff.mp hj).1
  constructor
  · intro k c' hk
    rw [unwritten, queued_append, queued_task]
    by_cases hjk : j = k
    · subst hjk
      rw [List.getElem?_set_self (by simpa using hlt)] at hk
      obtain rfl := Option.some.inj hk
      obtain ⟨hwf, hle⟩ := h.chan j c hj
      rw [unwritten] at hle
      have howed := hs.owed_le hwf (by omega)
      rw [if_pos rfl]
      exact ⟨hs.send_wf hwf, by omega⟩
    · rw [List.getElem?_set_ne hjk] at hk
      rw [if_neg hjk]
      exact h.chan k c' hk
  · intro k hk
    rw [List.length_set] at hk
    rw [unwritten, queued_append, queued_task, if_neg (by omega)]
    exact h.fresh k hk

/-- **A step that meets the condition keeps the cap.** -/
theorem Capped.step (h : m.Capped) (hr : m.Refills a) (hs : m.Stepped a m') : m'.Capped := by
  cases hs with
  | replied hreplies =>
    refine h.keep (length_retain _) retain_sends fun k => ?_
    rw [unwritten, queued_append, queued_replies hreplies, Nat.add_zero]
    exact le_rfl
  | @spawned _ id _ addr _ window isRdp hcap hid => exact h.spawn id addr window isRdp
  | data id b =>
    refine h.keep (by simp [onEntry]) ?_ fun k => le_rfl
    intro k c' hk
    obtain ⟨c, hc, rfl | ⟨-, -, rfl⟩⟩ := touched_onEntry hk
    · exact ⟨_, hc, rfl, rfl⟩
    · exact ⟨c, hc, data_sends c b⟩
  | close id =>
    refine h.keep (by simp [onEntry]) ?_ fun k => le_rfl
    intro k c' hk
    obtain ⟨c, hc, rfl | ⟨-, -, rfl⟩⟩ := touched_onEntry hk
    · exact ⟨_, hc, rfl, rfl⟩
    · exact ⟨c, hc, rfl, rfl⟩
  | windowUpdate id add =>
    constructor
    · intro k c' hk
      obtain ⟨c, hc, rfl | ⟨he, hid, rfl⟩⟩ := touched_onEntry hk
      · exact h.chan k _ hc
      · have hlt : k < m.chans.length := (List.getElem?_eq_some_iff.mp hc).1
        exact ⟨(h.chan k c hc).1, hr k hlt c hc he hid⟩
    · intro k hk
      exact h.fresh k (by simpa [onEntry] using hk)
  | ignored => exact h
  | @task j a c c₁ out hj hs => exact h.task hj hs
  | wrote ht =>
    refine h.keep rfl (fun k c' hk => ⟨c', hk, rfl, rfl⟩) ?_
    intro k
    rename_i e rest
    rw [unwritten, unwritten, ht, ← List.singleton_append, queued_append]
    exact Nat.le_add_left _ _
  | closedAll =>
    refine h.keep (by simp) ?_ fun k => le_rfl
    intro k c' hk
    rw [List.getElem?_map] at hk
    obtain ⟨c, hc, rfl⟩ := Option.map_eq_some_iff.mp hk
    exact ⟨c, hc, rfl, rfl⟩
  | hungUp => exact h.keep rfl (fun k c' hk => ⟨c', hk, rfl, rfl⟩) fun k => Nat.zero_le _

theorem new_capped (loginTarget : String) : (new loginTarget).Capped := by
  constructor
  · intro k c hk
    rw [new, List.getElem?_nil] at hk
    cases hk
  · intro k _
    rfl

/-- **Target data in the connection's queue.** In a run in which the peer's updates only
give back what the connection has written, no channel ever has more than its send credit
cap waiting in the queue. -/
theorem unwritten_le {loginTarget : String} {as : List Act} {m : Mux}
    (hrun : exec step (new loginTarget) as = some m)
    (hrefills : Along step Refills (new loginTarget) as) (k : ℕ) :
    m.unwritten k ≤ maxSendCredit := by
  have hcap : m.Capped :=
    exec_invariant_along (fun _ _ _ hI hC hs => Capped.step hI hC (step_stepped hs))
      (new_capped loginTarget) hrefills hrun
  by_cases hlt : k < m.chans.length
  · have := (hcap.chan k m.chans[k] (List.getElem?_eq_getElem hlt)).2
    omega
  · rw [hcap.fresh k (by omega)]
    exact Nat.zero_le _

/-- One read of one byte, given back in full before the connection has written it. -/
def pumpRound : List Act :=
  [.task 0 (.send .take), .task 0 (.send (.read [0])), .task 0 (.send .refund),
    .task 0 (.send .send), .frame true (.windowUpdate 1 64)]

/-- A channel up, at full credit, with this much read and queued. -/
def pumping (source : Bytes) (tx : List (Option ℕ × Frame)) : Mux :=
  { chans := [{ newChan 1 "h:1" false channelWindow with
      window := ⟨channelWindow, 0⟩, phase := .relaying, send := ⟨.taking, [], source⟩ }]
    tx := tx, loginTarget := "h:1", teardown := false, gone := false }

theorem pump_round (source : Bytes) (tx : List (Option ℕ × Frame)) :
    exec step (pumping source tx) pumpRound =
      some (pumping (source ++ [0]) (tx ++ [(some 0, Frame.data 1 [0])])) := by
  simp [exec, pumpRound, step, pumping, newChan, Chan.step, SendHalf.step, SendHalf.spent,
    SendCredit.new, SendCredit.take, SendCredit.add, saturatingAdd, handle, onEntry,
    Chan.windowUpdate, effectiveWindow, charge, channelWindow, initialWindow, maxSendCredit,
    maxFrame, minFrameCharge, u32Max]

/-- Any number of such rounds can be run. -/
theorem pump_rounds (n : ℕ) : ∀ (source : Bytes) (tx : List (Option ℕ × Frame)),
    ∃ as m, exec step (pumping source tx) as = some m ∧
      m.unwritten 0 = queued 0 tx + n * minFrameCharge := by
  induction n with
  | zero =>
    intro source tx
    exact ⟨[], _, rfl, by simp [unwritten, pumping]⟩
  | succ n ih =>
    intro source tx
    obtain ⟨as, m, hrun, hm⟩ := ih (source ++ [0]) (tx ++ [(some 0, Frame.data 1 [0])])
    refine ⟨pumpRound ++ as, m, exec_append.mpr ⟨_, pump_round source tx, hrun⟩, ?_⟩
    have hone : queued 0 [(some 0, Frame.data 1 [0])] = minFrameCharge := by decide
    rw [hm, queued_append, hone]
    ring

/-- A channel opened on a target that answers. -/
def openRun : List Act :=
  [.frame true (.openChannel 1 "h" 1 channelWindow), .task 0 (.connect true), .task 0 .grant,
    .task 0 .opened]

theorem open_run : exec step (new "h:1") openRun = some (pumping []
      [(some 0, .opened 1 true "" channelWindow)]) := by
  decide +kernel

/-- A peer that hands credit back before the connection has written anything fills the
queue past the cap: 4097 one-byte reads, each followed by an update of one frame's charge. -/
theorem unwritten_past_cap :
    ∃ as m, exec step (new "h:1") as = some m ∧ maxSendCredit < m.unwritten 0 := by
  obtain ⟨as, m, hrun, hm⟩ := pump_rounds 4097 [] [(some 0, .opened 1 true "" channelWindow)]
  refine ⟨openRun ++ as, m, exec_append.mpr ⟨_, open_run, hrun⟩, ?_⟩
  rw [hm]
  decide

/-- A run whose update comes after the connection has written the frame it pays for. -/
theorem unwritten_le_written : ∃ m, exec step (new "h:1")
        (openRun ++ [Act.task 0 (.send .take), .task 0 (.send (.read [7, 8])),
          .task 0 (.send .refund),
          .task 0 (.send .send), .write, .write, .frame true (.windowUpdate 1 64),
          .task 0 (.send .take), .task 0 (.send (.read [9])), .task 0 (.send .refund),
          .task 0 (.send .send)]) = some m ∧
      m.tx = [(some 0, .data 1 [9])] ∧ m.unwritten 0 ≤ maxSendCredit := by
  have hrun : (exec step (new "h:1")
      (openRun ++ [Act.task 0 (.send .take), .task 0 (.send (.read [7, 8])),
        .task 0 (.send .refund),
        .task 0 (.send .send), .write, .write, .frame true (.windowUpdate 1 64),
        .task 0 (.send .take), .task 0 (.send (.read [9])), .task 0 (.send .refund),
        .task 0 (.send .send)])).any (fun m => decide (m.tx = [(some 0, .data 1 [9])])) = true := by
    decide +kernel
  obtain ⟨m, hm, htx⟩ := (Option.any_eq_true _ _).mp hrun
  exact ⟨m, hm, of_decide_eq_true htx, unwritten_le hm (by decide +kernel) 0⟩

/-! ## Tasks and what they hold -/

/-- Every channel stays within the window it granted, whatever the peer sends. -/
def Accounted (m : Mux) : Prop := ∀ c ∈ m.chans, c.Accounted

theorem Accounted.step (h : m.Accounted) (hs : m.Stepped a m') : m'.Accounted := by
  intro c' hc'
  obtain ⟨k, hk⟩ := List.mem_iff_getElem?.mp hc'
  obtain ⟨c, hc, ht⟩ | ⟨c, out, hc, hstep⟩ | ⟨id, addr, isRdp, window, -, rfl⟩ := hs.chan hk
  · have hacc := h c (List.mem_of_getElem? hc)
    cases ht with
    | same => exact hacc
    | data b he => exact hacc.data b
    | close he => exact hacc.close
    | windowUpdate add he => exact hacc
    | drop => exact hacc
  · exact hstep.accounted (h c (List.mem_of_getElem? hc))
  · exact le_of_eq rfl

/-- When a channel is opened, every task still running is in the map, with its queue open:
none is on its way out behind an entry that has already gone. -/
def Attached (m : Mux) : Act → Prop
  | .frame _ (.openChannel _ _ _ _) =>
    ∀ c ∈ m.chans, c.running = true → c.entry = true ∧ c.inboundClosed = false
  | _ => True

instance (m : Mux) : ∀ a, Decidable (m.Attached a)
  | .frame _ (.openChannel _ _ _ _) => inferInstanceAs (Decidable (∀ c ∈ m.chans, _))
  | .frame _ (.windowUpdate _ _) | .frame _ (.data _ _) | .frame _ (.close _)
  | .frame _ (.opened _ _ _ _) | .task _ _ | .write | .closeAll | .hangUp => isTrue trivial

/-- Handling data neither ends nor starts a task. -/
theorem data_running (c : Chan) (b : Bytes) : (c.data b).running = c.running := by
  unfold Chan.data
  split
  · split_ifs <;> rfl
  · rfl

theorem countP_map_running (hf : ∀ c, (f c).running = c.running) (cs : List Chan) :
    (cs.map f).countP Chan.running = cs.countP Chan.running := by
  rw [List.countP_map]
  congr 1
  funext c
  exact hf c

theorem running_retain (cs : List Chan) :
    (retain cs).countP Chan.running = cs.countP Chan.running := by
  apply countP_map_running
  intro c
  split_ifs <;> rfl

theorem running_onEntry {id : ℤ} (hf : ∀ c, (f c).running = c.running) (cs : List Chan) :
    (onEntry id f cs).countP Chan.running = cs.countP Chan.running := by
  apply countP_map_running
  intro c
  split_ifs
  · exact hf c
  · rfl

/-- With every running task attached, the map counts them all. -/
theorem running_le_entries
    (h : ∀ c ∈ cs, c.running = true → c.entry = true ∧ c.inboundClosed = false) :
    cs.countP Chan.running ≤ entries (retain cs) := by
  rw [entries, retain, List.countP_map]
  apply List.countP_mono_left
  intro c hc hrun
  obtain ⟨he, hopen⟩ := h c hc hrun
  simp [hopen, he]

/-- A task's own step starts no task. -/
theorem running_set (hk : cs[k]? = some c) (hc : c.running = true) :
    (cs.set k c').countP Chan.running ≤ cs.countP Chan.running := by
  obtain ⟨hlt, rfl⟩ := List.getElem?_eq_some_iff.mp hk
  rw [List.countP_set hlt, if_pos hc]
  have hpos : 0 < cs.countP Chan.running :=
    List.countP_pos_iff.mpr ⟨cs[k], List.getElem_mem hlt, hc⟩
  split_ifs <;> omega

/-- **A step that meets the condition keeps the number of tasks within the cap.** -/
theorem running_step (h : m.running ≤ maxChannels) (hatt : m.Attached a) (hs : m.Stepped a m') :
    m'.running ≤ maxChannels := by
  rw [running] at h ⊢
  cases hs with
  | replied hr =>
    rw [running_retain]
    exact h
  | spawned hcap hid =>
    have hle := running_le_entries hatt
    rw [List.countP_append, running_retain]
    have hone : ∀ c : Chan, [c].countP Chan.running ≤ 1 := fun c => List.countP_le_length
    exact le_trans (Nat.add_le_add hle (hone _)) hcap
  | data id b =>
    exact le_of_eq_of_le (running_onEntry (fun c => data_running c b) _) h
  | close id => exact le_of_eq_of_le (running_onEntry (f := Chan.close) (fun _ => rfl) _) h
  | windowUpdate id add =>
    exact le_of_eq_of_le (running_onEntry (f := fun c => c.windowUpdate add) (fun _ => rfl) _) h
  | ignored => exact h
  | task hk hs => exact le_trans (running_set hk hs.was_running) h
  | wrote ht => exact h
  | closedAll => exact le_of_eq_of_le (countP_map_running (f := Chan.drop) (fun _ => rfl) _) h
  | hungUp => exact h

/-- **Tasks and what they hold.** In a run in which every `open` finds the running tasks
attached, no more than `maxChannels` tasks are ever up, and they hold no more than that
many windows of the peer's bytes. -/
theorem running_le {loginTarget : String} {as : List Act} {m : Mux}
    (hrun : exec step (new loginTarget) as = some m)
    (hattached : Along step Attached (new loginTarget) as) :
    m.running ≤ maxChannels ∧ m.bytesHeld ≤ maxChannels * channelWindow := by
  have hrunning : m.running ≤ maxChannels :=
    exec_invariant_along (I := fun m => m.running ≤ maxChannels)
      (fun _ _ _ hI hC hs => running_step hI hC (step_stepped hs)) (Nat.zero_le _) hattached hrun
  have hempty : (new loginTarget).Accounted := by
    intro c hc
    cases hc
  have hacc : m.Accounted :=
    exec_invariant (fun _ _ _ hI hs => Accounted.step hI (step_stepped hs)) hempty hrun
  refine ⟨hrunning, ?_⟩
  have hsum : m.bytesHeld ≤ (m.chans.filter Chan.running).length * channelWindow := by
    have := List.sum_le_card_nsmul ((m.chans.filter Chan.running).map Chan.bytesHeld) channelWindow
      (by
        intro n hn
        obtain ⟨c, hc, rfl⟩ := List.mem_map.mp hn
        exact (hacc c (List.mem_of_mem_filter hc)).bytesHeld_le)
    simpa [bytesHeld] using this
  rw [← List.countP_eq_length_filter] at hsum
  exact le_trans hsum (Nat.mul_le_mul_right _ hrunning)

/-! ### A target that never reads -/

/-- A task parked in a write of one byte, its entry taken out by the peer's `close`. -/
def parked : Chan :=
  { newChan 1 "h:1" false channelWindow with
    entry := false, window := ⟨channelWindow - minFrameCharge, 0⟩, inbound := [.close]
    phase := .relaying, recv := ⟨.writing [0] [0], [], []⟩ }

/-- This many parked tasks, and one more channel. -/
def lot (n : ℕ) (c : Chan) (tx : List (Option ℕ × Frame)) : Mux :=
  ⟨List.replicate n parked ++ [c], tx, "h:1", false, false⟩

theorem lot_task {n : ℕ} {tx : List (Option ℕ × Frame)} {a : ChanAct} {out : Option Frame}
    (h : c.step .controlled false false a = some (c', out)) :
    step (lot n c tx) (.task n a) = some (lot n c' (tx ++ out.toList.map (some n, ·))) := by
  have hget : (List.replicate n parked ++ [c])[n]? = some c := by
    rw [List.getElem?_append_right (by simp)]
    simp
  have hset : (List.replicate n parked ++ [c]).set n c' = List.replicate n parked ++ [c'] := by
    rw [List.set_append_right _ _ (by simp)]
    simp
  simp only [step, lot, hget, h, hset, Option.map_some]

theorem lot_onEntry (n : ℕ) (f : Chan → Chan) (he : c.entry = true) (hid : c.id = 1) :
    onEntry 1 f (List.replicate n parked ++ [c]) = List.replicate n parked ++ [f c] := by
  simp [onEntry, parked, he, hid]

/-- The peer opens a channel over a lot of parked tasks: none of them counts. -/
theorem lot_open (n : ℕ) (tx : List (Option ℕ × Frame)) :
    step ⟨List.replicate n parked, tx, "h:1", false, false⟩
        (.frame true (.openChannel 1 "h" 1 channelWindow)) =
      some (lot n (newChan 1 "h:1" false channelWindow) tx) := by
  have hretain : retain (List.replicate n parked) = List.replicate n parked := by
    simp [retain, Chan.drop, parked]
  have hentries : ¬ maxChannels ≤ entries (List.replicate n parked) := by
    rw [entries, List.countP_replicate, if_neg (by decide)]
    decide
  have hdup : hasEntry 1 (List.replicate n parked) = false := by
    simp [hasEntry, parked]
  have haddr : normalizePortForwardTarget "h" 1 = ("h:1", false) := by decide
  simp [step, handle, onOpen, hretain, hentries, hdup, haddr, lot]

/-- Open, let the target connect, send one byte, close. -/
def lotRound (n : ℕ) : List Act :=
  [.frame true (.openChannel 1 "h" 1 channelWindow), .task n (.connect true), .task n .grant,
    .task n .opened, .frame true (.data 1 [0]), .task n (.recv .fetch), .frame true (.close 1)]

theorem lot_round (n : ℕ) (tx : List (Option ℕ × Frame)) :
    ∃ tx', exec step ⟨List.replicate n parked, tx, "h:1", false, false⟩ (lotRound n) =
      some ⟨List.replicate (n + 1) parked, tx', "h:1", false, false⟩ := by
  let c₀ := newChan 1 "h:1" false channelWindow
  let c₃ : Chan := { c₀ with window := ⟨channelWindow, 0⟩, phase := .relaying }
  let c₅ : Chan :=
    { c₃ with
      window := ⟨channelWindow - minFrameCharge, 0⟩, recv := ⟨.writing [0] [0], [], []⟩ }
  have h₁ : c₀.step .controlled false false (.connect true) =
      some ({ c₀ with phase := .connected }, none) := by decide +kernel
  have h₂ : ({ c₀ with phase := .connected } : Chan).step .controlled false false .grant =
      some ({ c₀ with window := ⟨channelWindow, 0⟩, phase := .granted }, none) := by decide +kernel
  have h₃ : ({ c₀ with window := ⟨channelWindow, 0⟩, phase := .granted } : Chan).step
      .controlled false false .opened = some (c₃, some (.opened 1 true "" channelWindow)) := by
    decide +kernel
  have h₄ : step (lot n c₃ (tx ++ [] ++ [] ++ [(some n, Frame.opened 1 true "" channelWindow)]))
      (.frame true (.data 1 [0])) = some (lot n (c₃.data [0])
        (tx ++ [] ++ [] ++ [(some n, Frame.opened 1 true "" channelWindow)])) := by
    simp only [step, handle, lot, lot_onEntry n (fun c => c.data [0]) (c := c₃) rfl rfl]
    rfl
  have h₅ : (c₃.data [0]).step .controlled false false (.recv .fetch) = some (c₅, none) := by
    decide +kernel
  have h₆ : c₅.close = parked := by decide +kernel
  refine ⟨tx ++ [] ++ [] ++ [(some n, Frame.opened 1 true "" channelWindow)] ++ [], ?_⟩
  refine exec_cons.mpr ⟨_, lot_open n tx, exec_cons.mpr ⟨_, lot_task h₁, exec_cons.mpr
    ⟨_, lot_task h₂, exec_cons.mpr ⟨_, lot_task h₃, exec_cons.mpr ⟨_, h₄, exec_cons.mpr
      ⟨_, lot_task h₅, exec_cons.mpr ⟨_, rfl, ?_⟩⟩⟩⟩⟩⟩⟩
  simp only [exec_nil, lot, handle, lot_onEntry n Chan.close (c := c₅) rfl rfl, h₆,
    List.replicate_succ']
  rfl

/-- Any number of parked tasks can be reached, each holding its byte. -/
theorem lot_reached (n : ℕ) :
    ∃ as tx, exec step (new "h:1") as = some ⟨List.replicate n parked, tx, "h:1", false,
      false⟩ := by
  induction n with
  | zero => exact ⟨[], [], rfl⟩
  | succ n ih =>
    obtain ⟨as, tx, hrun⟩ := ih
    obtain ⟨tx', hround⟩ := lot_round n tx
    exact ⟨as ++ lotRound n, tx', exec_append.mpr ⟨_, hrun, hround⟩⟩

/-- A peer that closes each channel while the target is not reading passes both bounds:
the entry goes with the `close`, the task stays. -/
theorem running_past_cap : ∃ as m, exec step (new "h:1") as = some m ∧
      maxChannels < m.running ∧ maxChannels * channelWindow < m.bytesHeld := by
  obtain ⟨as, tx, hrun⟩ := lot_reached (maxChannels * channelWindow + 1)
  refine ⟨as, _, hrun, ?_, ?_⟩
  · rw [running, List.countP_replicate, if_pos (by decide)]
    decide
  · have hbyte : parked.bytesHeld = 1 := by decide
    rw [bytesHeld, List.filter_replicate, if_pos (by decide), List.map_replicate, hbyte,
      List.sum_replicate_nat, Nat.mul_one]
    exact Nat.lt_succ_self _

/-- Two channels opened one after the other, the first one's task having returned. -/
theorem running_le_reopened : ∃ m, exec step (new "h:1")
        (openRun ++ [Act.frame true (.close 1), .task 0 (.recv .fetch), .task 0 .propagate,
          .task 0 (.send .cancel), .task 0 .finish,
          .frame true (.openChannel 2 "h" 1 channelWindow)]) = some m ∧
      m.chans.length = 2 ∧ m.running = 1 ∧ m.bytesHeld ≤ maxChannels * channelWindow := by
  have hrun : (exec step (new "h:1")
      (openRun ++ [Act.frame true (.close 1), .task 0 (.recv .fetch), .task 0 .propagate,
        .task 0 (.send .cancel), .task 0 .finish,
        .frame true (.openChannel 2 "h" 1 channelWindow)])).any
          (fun m => decide (m.chans.length = 2 ∧ m.running = 1)) = true := by
    decide +kernel
  obtain ⟨m, hm, hp⟩ := (Option.any_eq_true _ _).mp hrun
  obtain ⟨hlen, hone⟩ := of_decide_eq_true hp
  exact ⟨m, hm, hlen, hone, (running_le hm (by decide +kernel)).2⟩

end Mux
end BgDesk
