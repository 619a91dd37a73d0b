import BgDesk.DrmConn
import BgDesk.Threads

/-!
# What a consumer knows about the displays

The first list a consumer gets is what the capture thread has enumerated for this connection. Every
later one is a copy of the cache, sent when the generation is not the one that was seen last. The
generation is looked at for the first time behind the handshake, so that nothing connects the first
list to it.

* `Refresh.Exclusive` — one thread at most writes the cache;
* `Sys.Sampled` — the generation is sampled when the list that was sent is the cache, or is about to
  differ from it;
* `Sys.Inv` — from there on, a consumer that has seen the generation has the cache;
* `no_change_missed` — every run in which the generation is sampled so.

Between the enumeration and the sample a refresh can come and go, and its change is announced to
nobody.
-/

namespace BgDesk
namespace Drm

/-! ## One thread at work -/

/-- The thread owns the slot. -/
def RefreshPc.holds : RefreshPc → Bool
  | .clearing | .enumerating | .writing _ | .bumping _ | .checking | .releasing => true
  | _ => false

namespace Refresh

/-- `RUNNING` is the slot: it is set if and only if one thread owns it. -/
def Exclusive (r : Refresh) : Prop := r.threads.countP RefreshPc.holds = if r.running then 1 else 0

/-- The generation is about to be bumped: the thread has changed the cache, or is going to. -/
def Coming (r : Refresh) : Prop :=
  .bumping true ∈ r.threads ∨ ∃ fresh, .writing fresh ∈ r.threads ∧ fresh ≠ r.cache

instance : DecidablePred Coming := fun r =>
  decidable_of_iff (r.threads.any fun
      | .bumping changed => changed
      | .writing fresh => fresh ≠ r.cache
      | _ => false) <| by
    rw [List.any_eq_true]
    constructor
    · rintro ⟨pc, hpc, htrue⟩
      split at htrue
      · exact .inl (htrue ▸ hpc)
      · next fresh => exact .inr ⟨fresh, hpc, of_decide_eq_true htrue⟩
      · cases htrue
    · rintro (hpc | ⟨fresh, hpc, hne⟩)
      · exact ⟨_, hpc, rfl⟩
      · exact ⟨_, hpc, decide_eq_true hne⟩

variable {r r' : Refresh}

theorem Exclusive.not_coming (h : r.Exclusive) (hrunning : r.running = false) : ¬r.Coming := by
  have hnone : ∀ pc ∈ r.threads, ¬pc.holds = true := by
    rw [Exclusive, hrunning] at h
    exact List.countP_eq_zero.mp h
  rintro (hpc | ⟨fresh, hpc, -⟩)
  · exact hnone _ hpc rfl
  · exact hnone _ hpc rfl

variable {i : ℕ}

/-- A thread that keeps the slot, or goes on without it. -/
theorem Exclusive.set (h : r.Exclusive) {old new : RefreshPc} (hi : r.threads[i]? = some old)
    (hholds : new.holds = old.holds) :
    (r.threads.set i new).countP RefreshPc.holds = if r.running then 1 else 0 := by
  have hset := countP_step (p := RefreshPc.holds) hi new
  rw [hholds] at hset
  rw [← h]
  omega

theorem Exclusive.thread (h : r.Exclusive) {pc : RefreshPc} (hi : r.threads[i]? = some pc)
    (hthread : r.thread i pc = some r') : r'.Exclusive := by
  cases pc with
  | clearing | enumerating | writing fresh | bumping changed =>
    obtain rfl := Option.some.inj hthread
    exact h.set hi rfl
  | checking | rechecking =>
    obtain rfl := Option.some.inj hthread
    refine h.set hi ?_
    split <;> rfl
  | releasing =>
    obtain rfl := Option.some.inj hthread
    have hset : (r.threads.set i .rechecking).countP RefreshPc.holds + 1 =
        r.threads.countP RefreshPc.holds := countP_step hi .rechecking
    have hone : r.threads.countP RefreshPc.holds ≤ 1 := by
      rw [h]
      split <;> omega
    change (r.threads.set i .rechecking).countP RefreshPc.holds = 0
    omega
  | retaking =>
    obtain rfl := Option.some.inj hthread
    rw [Exclusive] at h ⊢
    simp only [if_pos]
    split
    · next hrunning =>
      have hset : (r.threads.set i .done).countP RefreshPc.holds + 0 =
          r.threads.countP RefreshPc.holds + 0 := countP_step hi .done
      rw [h, if_pos hrunning] at hset
      exact hset
    · next hrunning =>
      have hset : (r.threads.set i .clearing).countP RefreshPc.holds + 0 =
          r.threads.countP RefreshPc.holds + 1 := countP_step hi .clearing
      rw [h, if_neg hrunning] at hset
      exact hset
  | done => cases hthread

theorem Exclusive.step (h : r.Exclusive) {a : RefreshAct} (hstep : r.step a = some r') :
    r'.Exclusive := by
  cases a with
  | hotplug topology =>
    obtain rfl := Option.some.inj hstep
    exact h
  | request =>
    obtain rfl := Option.some.inj hstep
    exact h
  | swap spawned =>
    rw [Refresh.step] at hstep
    split at hstep
    · cases hstep
    · split at hstep
      · obtain rfl := Option.some.inj hstep
        exact h
      · next hrunning =>
        split at hstep
        · obtain rfl := Option.some.inj hstep
          rw [Exclusive, if_neg hrunning] at h
          rw [Exclusive, List.countP_append, h]
          rfl
        · obtain rfl := Option.some.inj hstep
          exact h
  | thread i =>
    obtain ⟨pc, hi, hthread⟩ := Option.bind_eq_some_iff.mp hstep
    exact h.thread hi hthread

/-! ## The generation -/

/-- A thread goes on that had nothing to announce. -/
theorem Coming.set (h : r.Coming) {old : RefreshPc} (hi : r.threads[i]? = some old)
    (hbump : old ≠ .bumping true) (hwrite : ∀ fresh, old = .writing fresh → fresh = r.cache)
    (new : RefreshPc) :
    .bumping true ∈ r.threads.set i new ∨ ∃ fresh, .writing fresh ∈ r.threads.set i new ∧
      fresh ≠ r.cache := by
  have hmem : ∀ pc ∈ r.threads, pc ≠ old → pc ∈ r.threads.set i new := by
    intro pc hpc hne
    obtain ⟨j, hj⟩ := List.mem_iff_getElem?.mp hpc
    have hij : i ≠ j := by
      rintro rfl
      rw [hi] at hj
      exact hne (Option.some.inj hj).symm
    refine List.mem_iff_getElem?.mpr ⟨j, ?_⟩
    rw [List.getElem?_set_ne hij]
    exact hj
  rcases h with hpc | ⟨fresh, hpc, hne⟩
  · exact .inl (hmem _ hpc hbump.symm)
  · exact .inr ⟨fresh, hmem _ hpc fun heq => hne (hwrite fresh heq.symm), hne⟩

/-- What a step may do to the generation and to the cache: the generation is bumped, or a bump is
coming, or all is as it was. -/
def Moves (r r' : Refresh) : Prop :=
  r.generation < r'.generation ∨ r'.generation = r.generation ∧
    (r'.Coming ∨ r'.cache = r.cache ∧ ¬r.Coming)

theorem Moves.of_coming (hgeneration : r'.generation = r.generation) (hcache : r'.cache = r.cache)
    (hcoming : r.Coming → r'.Coming) : r.Moves r' := by
  refine .inr ⟨hgeneration, ?_⟩
  by_cases h : r.Coming
  · exact .inl (hcoming h)
  · exact .inr ⟨hcache, h⟩

theorem thread_moves {pc : RefreshPc} (hi : r.threads[i]? = some pc)
    (hthread : r.thread i pc = some r') : r.Moves r' := by
  cases pc with
  | clearing | enumerating | checking | releasing | rechecking | retaking =>
    obtain rfl := Option.some.inj hthread
    exact .of_coming rfl rfl fun h => h.set hi nofun nofun _
  | writing fresh =>
    obtain rfl := Option.some.inj hthread
    by_cases hfresh : r.cache = fresh
    · subst hfresh
      exact .of_coming rfl rfl fun h =>
        h.set hi nofun (fun _ heq => (RefreshPc.writing.inj heq).symm) _
    -- the cache is changed, and the thread that changed it is about to say so
    · refine .inr ⟨rfl, .inl (.inl ?_)⟩
      rw [decide_eq_true hfresh]
      exact List.mem_set (List.getElem?_eq_some_iff.mp hi).1 _
  | bumping changed =>
    obtain rfl := Option.some.inj hthread
    cases changed with
    | true => exact .inl (Nat.lt_succ_self _)
    | false => exact .of_coming rfl rfl fun h => h.set hi nofun nofun _
  | done => cases hthread

theorem step_moves {a : RefreshAct} (hstep : r.step a = some r') : r.Moves r' := by
  cases a with
  | hotplug topology | request =>
    obtain rfl := Option.some.inj hstep
    exact .of_coming rfl rfl id
  | swap spawned =>
    rw [Refresh.step] at hstep
    split at hstep
    · cases hstep
    · split at hstep
      · obtain rfl := Option.some.inj hstep
        exact .of_coming rfl rfl id
      · split at hstep
        · obtain rfl := Option.some.inj hstep
          refine .of_coming rfl rfl fun h => ?_
          rcases h with hpc | ⟨fresh, hpc, hne⟩
          · exact .inl (List.mem_append_left _ hpc)
          · exact .inr ⟨fresh, List.mem_append_left _ hpc, hne⟩
        · obtain rfl := Option.some.inj hstep
          exact .of_coming rfl rfl id
  | thread i =>
    obtain ⟨pc, hi, hthread⟩ := Option.bind_eq_some_iff.mp hstep
    exact thread_moves hi hthread

end Refresh

/-! ## The list that was sent -/

/-- The displays in a message. -/
def Sent.displays : Sent → Option Displays
  | .list displays => some displays
  | .changed displays => some displays
  | .message _ _ _ => none

/-- The list that was sent last. -/
def lastList (log : List Sent) : Option Displays := (log.filterMap Sent.displays).getLast?

theorem lastList_displays (log : List Sent) {e : Sent} {displays : Displays}
    (he : e.displays = some displays) : lastList (log ++ [e]) = some displays := by
  rw [lastList, List.filterMap_append, List.filterMap_cons, he, List.filterMap_nil,
    List.getLast?_concat]

theorem lastList_message (log : List Sent) (i t : ℕ) (m : DrmProducerMsg) :
    lastList (log ++ [Sent.message i t m]) = lastList log := by
  rw [lastList, List.filterMap_append]
  exact congrArg List.getLast? (List.append_nil _)

/-- The loop has begun, and no list is on its way. -/
def TaskPc.informed : TaskPc → Bool
  | .top _ | .gated | .chosen _ | .loading _ | .taking _ | .fetching | .handling _ | .settling _
  | .deciding => true
  | _ => false

/-- A list is on its way. -/
def TaskPc.isSending : TaskPc → Bool
  | .sending _ _ => true
  | _ => false

namespace Conn

/-- What the consumer knows, or is told next, of a cache whose generation the task has seen. -/
structure Knows (c : Conn) (cache : Displays) : Prop where
  sent : c.pc.informed = true → lastList c.log = some cache
  sending : ∀ first fresh, c.pc = .sending first fresh → fresh = cache

variable {c c' : Conn} {quiet : Prop} {generation : ℕ} {cache : Displays}

theorem Knows.of_not_informed (hpc : c.pc.informed = false) (hsending : c.pc.isSending = false) :
    c.Knows cache := by
  constructor
  · intro h
    rw [hpc] at h
    cases h
  · intro first fresh h
    rw [h] at hsending
    cases hsending

theorem Knows.of_list (hlist : lastList c.log = some cache) (hsending : c.pc.isSending = false) :
    c.Knows cache := by
  refine ⟨fun _ => hlist, fun first fresh h => ?_⟩
  rw [h] at hsending
  cases hsending

/-- One statement of the task, as far as the displays are concerned; what the consumer knows matters
when all is quiet. -/
structure Follows (c c' : Conn) (quiet : Prop) (generation : ℕ) (cache : Displays) : Prop where
  seen : c'.seenGen = c.seenGen ∨ c'.seenGen = generation
  knows : quiet → c'.seenGen = generation → c'.Knows cache

/-- The task goes on, and no list is sent. -/
theorem Follows.goto (h : quiet → c.seenGen = generation → c.Knows cache)
    (hpc : c.pc.informed = true) (hlist : lastList c'.log = lastList c.log)
    (hseen : c'.seenGen = c.seenGen) (hsending : c'.pc.isSending = false) :
    c.Follows c' quiet generation cache := by
  refine ⟨.inl hseen, fun hquiet hgen => .of_list ?_ hsending⟩
  rw [hlist]
  exact (h hquiet (hseen ▸ hgen)).sent hpc

theorem Follows.away (hseen : c'.seenGen = c.seenGen ∨ c'.seenGen = generation)
    (hpc : c'.pc.informed = false) (hsending : c'.pc.isSending = false) :
    c.Follows c' quiet generation cache :=
  ⟨hseen, fun _ _ => .of_not_informed hpc hsending⟩

theorem Follows.closed : c.Follows { c with pc := .closed } quiet generation cache :=
  .away (.inl rfl) rfl rfl

/-- The connection ends when a send fails. -/
theorem Follows.send {e : Sent} {out : ℕ} {next : Conn → Conn}
    (hnext : c.Follows (next { c with wire := c.wire ++ e.items, log := c.log ++ [e] })
    quiet generation cache) :
    c.Follows (c.send e out next) quiet generation cache := by
  rw [Conn.send]
  split
  · exact hnext
  · exact .away (.inl rfl) rfl rfl

theorem Follows.drainFrameAcks (h : quiet → c.seenGen = generation → c.Knows cache)
    (hpc : c.pc.informed = true) {reads : ℕ} {again : ℕ → TaskPc} {next : TaskPc} {act : TaskAct}
    (hnext : next.isSending = false) (hagain : ∀ n, (again n).isSending = false)
    (hdrain : c.drainFrameAcks reads again next act = some c') :
    c.Follows c' quiet generation cache := by
  cases act with
  | read n =>
    rw [Conn.drainFrameAcks] at hdrain
    split at hdrain
    · obtain ⟨b, hb, rfl⟩ := Option.map_eq_some_iff.mp hdrain
      rw [readAcks] at hb
      split at hb
      · obtain rfl := Option.some.inj hb
        refine .goto h hpc rfl rfl ?_
        split
        · exact hnext
        · exact hagain _
      · cases hb
    · cases hdrain
  | go =>
    obtain rfl := Option.some.inj hdrain
    exact .goto h hpc rfl rfl hnext
  | close =>
    obtain rfl := Option.some.inj hdrain
    exact .closed
  | start | noMessage | send => cases hdrain

theorem recv_log {m : Taken} (h : c.recv = some (m, c')) :
    c'.log = c.log ∧ c'.seenGen = c.seenGen := by
  rw [recv] at h
  split at h
  · cases h
  · obtain ⟨-, rfl⟩ := Prod.mk.inj (Option.some.inj h)
    exact ⟨rfl, rfl⟩

/-- A message is taken. -/
theorem Follows.recv (h : quiet → c.seenGen = generation → c.Knows cache)
    (hpc : c.pc.informed = true) {m : Taken} {b : Conn} (hrecv : c.recv = some (m, b)) {p : TaskPc}
    (hsending : p.isSending = false) : c.Follows { b with pc := p } quiet generation cache := by
  obtain ⟨hlog, hseen⟩ := recv_log hrecv
  exact .goto h hpc (congrArg lastList hlog) hseen hsending

/-- What the consumer asks for before the stream changes nothing. -/
theorem awaitingStart_follows {d : Displays} {act : TaskAct} (hpc : c.pc = .awaitingStart d)
    (htask : c.task generation cache act = some c') : c.Follows c' quiet generation cache := by
  rw [Conn.task.eq_def] at htask
  rw [hpc] at htask
  cases act with
  | start display needCpu =>
    simp only at htask
    split at htask
    · split at htask
      · obtain rfl := Option.some.inj htask
        exact .closed
      · obtain rfl := Option.some.inj htask
        exact .away (.inl rfl) rfl rfl
    · obtain rfl := Option.some.inj htask
      exact .closed
  | close =>
    obtain rfl := Option.some.inj htask
    exact .closed
  | go | read | noMessage | send => cases htask

/-- The frame that is due or the message that is next is taken. -/
theorem gated_follows {act : TaskAct} (hpc : c.pc = .gated)
    (htask : c.task generation cache act = some c')
    (h : quiet → c.seenGen = generation → c.Knows cache) : c.Follows c' quiet generation cache := by
  rw [Conn.task.eq_def] at htask
  have hinformed : c.pc.informed = true := by rw [hpc]; rfl
  rw [hpc] at htask
  cases act with
  | go =>
    simp only at htask
    split at htask
    · split at htask
      · next hrecv =>
        obtain rfl := Option.some.inj htask
        exact .recv h hinformed hrecv rfl
      · obtain rfl := Option.some.inj htask
        exact .goto h hinformed rfl rfl rfl
    · split at htask
      · next hrecv =>
        obtain rfl := Option.some.inj htask
        exact .recv h hinformed hrecv rfl
      · cases htask
  | noMessage =>
    simp only at htask
    split at htask
    · obtain rfl := Option.some.inj htask
      exact .goto h hinformed rfl rfl rfl
    · cases htask
  | close =>
    obtain rfl := Option.some.inj htask
    exact .closed
  | start | read | send => cases htask

/-- A cursor goes out, everything else waits. -/
theorem handling_follows {act : TaskAct} {im : ℕ × DrmProducerMsg}
    (hpc : c.pc = .handling im)
    (htask : c.task generation cache act = some c')
    (h : quiet → c.seenGen = generation → c.Knows cache) : c.Follows c' quiet generation cache := by
  rw [Conn.task.eq_def] at htask
  obtain ⟨i, m⟩ := im
  have hinformed : c.pc.informed = true := by rw [hpc]; rfl
  rw [hpc] at htask
  cases act with
  | send out =>
    cases m with
    | cursor =>
      obtain rfl := Option.some.inj htask
      exact .send (.goto h hinformed (lastList_message _ _ _ _) rfl rfl)
    | frame | frameCpu | displays =>
      obtain rfl := Option.some.inj htask
      exact .goto h hinformed rfl rfl rfl
  | go | start | read | noMessage | close => cases htask

/-- The latest frame goes out if the consumer has room for it. -/
theorem deciding_follows {act : TaskAct} (hpc : c.pc = .deciding)
    (htask : c.task generation cache act = some c')
    (h : quiet → c.seenGen = generation → c.Knows cache) : c.Follows c' quiet generation cache := by
  rw [Conn.task.eq_def] at htask
  have hinformed : c.pc.informed = true := by rw [hpc]; rfl
  rw [hpc] at htask
  cases act with
  | send out =>
    simp only at htask
    split at htask
    · obtain rfl := Option.some.inj htask
      exact .goto h hinformed rfl rfl rfl
    · split at htask
      · obtain rfl := Option.some.inj htask
        rw [Conn.send]
        split
        · exact .goto h hinformed (lastList_message _ _ _ _) rfl rfl
        · exact .away (.inl rfl) rfl rfl
      · obtain rfl := Option.some.inj htask
        exact .goto h hinformed rfl rfl rfl
  | go | start | read | noMessage | close => cases htask

/-- **One statement of the task.** Where the generation is sampled, the list that was sent must be
the cache. -/
theorem task_follows {act : TaskAct} (htask : c.task generation cache act = some c')
    (h : quiet → c.seenGen = generation → c.Knows cache)
    (hstart : quiet → c.pc = .starting → act = .go → lastList c.log = some cache) :
    c.Follows c' quiet generation cache := by
  rw [Conn.task.eq_def] at htask
  cases hpc : c.pc with
  | awaitingDisplays =>
    rw [hpc] at htask
    cases act with
    | go =>
      simp only at htask
      split at htask
      · next hrecv =>
        obtain rfl := Option.some.inj htask
        exact .away (.inl (recv_log hrecv).2) rfl rfl
      · next hrecv =>
        obtain rfl := Option.some.inj htask
        exact .away (.inl (recv_log hrecv).2) rfl rfl
      · cases htask
    | close =>
      obtain rfl := Option.some.inj htask
      exact .closed
    | start | read | noMessage | send => cases htask
  | sendingList d =>
    rw [hpc] at htask
    cases act with
    | send out =>
      obtain rfl := Option.some.inj htask
      exact .send (.away (.inl rfl) rfl rfl)
    | go | start | read | noMessage | close => cases htask
  | awaitingStart d => exact awaitingStart_follows hpc htask
  | starting =>
    rw [hpc] at htask
    cases act with
    | go =>
      obtain rfl := Option.some.inj htask
      exact ⟨.inr rfl, fun hquiet _ => .of_list (hstart hquiet hpc rfl) rfl⟩
    | start | read | noMessage | send | close => cases htask
  | top reads | settling reads =>
    rw [hpc] at htask
    exact .drainFrameAcks h (by rw [hpc]; rfl) rfl (fun _ => rfl) htask
  | gated => exact gated_follows hpc htask h
  | chosen first =>
    rw [hpc] at htask
    cases act with
    | go =>
      obtain rfl := Option.some.inj htask
      exact .goto h (by rw [hpc]; rfl) rfl rfl rfl
    | close =>
      obtain rfl := Option.some.inj htask
      exact .closed
    | start | read | noMessage | send => cases htask
  | loading first =>
    rw [hpc] at htask
    cases act with
    | go =>
      simp only at htask
      split at htask
      · obtain rfl := Option.some.inj htask
        exact .away (.inr rfl) rfl rfl
      · obtain rfl := Option.some.inj htask
        exact .goto h (by rw [hpc]; rfl) rfl rfl rfl
    | start | read | noMessage | send | close => cases htask
  | cloning first =>
    rw [hpc] at htask
    cases act with
    | go =>
      obtain rfl := Option.some.inj htask
      refine ⟨.inl rfl, fun _ _ => ⟨nofun, fun _ _ heq => ?_⟩⟩
      exact (TaskPc.sending.inj heq).2.symm
    | start | read | noMessage | send | close => cases htask
  | sending first fresh =>
    rw [hpc] at htask
    cases act with
    | send out =>
      obtain rfl := Option.some.inj htask
      refine .send ⟨.inl rfl, fun hquiet hgen => .of_list ?_ rfl⟩
      rw [← (h hquiet hgen).sending first fresh hpc]
      exact lastList_displays _ rfl
    | go | start | read | noMessage | close => cases htask
  | taking first =>
    rw [hpc] at htask
    cases act with
    | go =>
      simp only at htask
      split at htask
      · obtain rfl := Option.some.inj htask
        exact .goto h (by rw [hpc]; rfl) rfl rfl rfl
      · obtain rfl := Option.some.inj htask
        exact .goto h (by rw [hpc]; rfl) rfl rfl rfl
    | start | read | noMessage | send | close => cases htask
  | fetching =>
    rw [hpc] at htask
    cases act with
    | go =>
      simp only at htask
      split at htask
      · next hrecv =>
        obtain rfl := Option.some.inj htask
        exact .recv h (by rw [hpc]; rfl) hrecv rfl
      · obtain rfl := Option.some.inj htask
        exact .goto h (by rw [hpc]; rfl) rfl rfl rfl
    | start | read | noMessage | send | close => cases htask
  | handling im => exact handling_follows hpc htask h
  | deciding => exact deciding_follows hpc htask h
  | closed =>
    rw [hpc] at htask
    cases act <;> cases htask

/-- The capture thread has no part in what was sent. -/
theorem worker_same {topology : Displays} {act : WorkerAct} {asks : Bool}
    (h : c.worker topology act = some (c', asks)) :
    c'.pc = c.pc ∧ c'.log = c.log ∧ c'.seenGen = c.seenGen := by
  have hproduce : ∀ {b : Conn} {m : DrmProducerMsg}, c.produce m = some b →
      b.pc = c.pc ∧ b.log = c.log ∧ b.seenGen = c.seenGen := by
    intro b m hb
    rw [Conn.produce] at hb
    split at hb
    · obtain rfl := Option.some.inj hb
      exact ⟨rfl, rfl, rfl⟩
    · cases hb
  cases act with
  | enumerate | openReader | refresh =>
    rw [Conn.worker] at h
    split at h
    · obtain ⟨rfl, -⟩ := Prod.mk.inj (Option.some.inj h)
      exact ⟨rfl, rfl, rfl⟩
    · cases h
  | list =>
    rw [Conn.worker] at h
    split at h
    · obtain ⟨b, hb, heq⟩ := Option.map_eq_some_iff.mp h
      obtain ⟨rfl, -⟩ := Prod.mk.inj heq
      obtain ⟨hpc, hlog, hseen⟩ := hproduce hb
      exact ⟨hpc, hlog, hseen⟩
    · cases h
  | produce m =>
    rw [Conn.worker] at h
    split at h
    · obtain ⟨b, hb, heq⟩ := Option.map_eq_some_iff.mp h
      obtain ⟨rfl, -⟩ := Prod.mk.inj heq
      exact hproduce hb
    · cases h
  | stop =>
    obtain ⟨rfl, -⟩ := Prod.mk.inj (Option.some.inj h)
    exact ⟨rfl, rfl, rfl⟩

theorem consumer_same {act : ConsumerAct} (h : c.consumer act = some c') :
    c'.pc = c.pc ∧ c'.log = c.log ∧ c'.seenGen = c.seenGen := by
  cases act with
  | receive | ack =>
    rw [Conn.consumer] at h
    split at h
    · obtain rfl := Option.some.inj h
      exact ⟨rfl, rfl, rfl⟩
    · cases h

theorem Knows.congr (h : c.Knows cache) (hpc : c'.pc = c.pc) (hlog : c'.log = c.log) :
    c'.Knows cache := by
  refine ⟨?_, ?_⟩
  · rw [hpc, hlog]
    exact h.sent
  · rw [hpc]
    exact h.sending

end Conn

/-! ## Runs -/

namespace Sys

/-- At the end of an iteration, with no refresh running or asked for, a consumer whose generation is
the current one has the cache. -/
def UpToDate (s : Sys) : Prop :=
  s.conn.pc = .top 0 → s.refresh.running = false → s.refresh.pending = false →
    s.conn.seenGen = s.refresh.generation → lastList s.conn.log = some s.refresh.cache

/-- When the generation is sampled, the list that was sent is the cache, or the next generation is
on its way. -/
def Sampled (s : Sys) (a : Act) : Prop :=
  s.conn.pc = .starting → a = .task .go → lastList s.conn.log = some s.refresh.cache ∨
    s.refresh.Coming

instance (s : Sys) (a : Act) : Decidable (s.Sampled a) :=
  inferInstanceAs (Decidable (_ → _ → _))

structure Inv (s : Sys) : Prop where
  exclusive : s.refresh.Exclusive
  seen : s.conn.seenGen ≤ s.refresh.generation
  knows : ¬s.refresh.Coming → s.conn.seenGen = s.refresh.generation → s.conn.Knows s.refresh.cache

variable {s s' : Sys}

theorem start_inv (displays : Displays) (generation : ℕ) : (start displays generation).Inv :=
  ⟨rfl, Nat.zero_le _, fun _ _ => .of_not_informed rfl rfl⟩

theorem Inv.upToDate (h : s.Inv) : s.UpToDate := by
  intro hpc hrunning _ hgen
  have hknows := h.knows (h.exclusive.not_coming hrunning) hgen
  refine hknows.sent ?_
  rw [hpc]
  rfl

theorem Inv.refresh (h : s.Inv) {a : RefreshAct} {r : Refresh} (hstep : s.refresh.step a = some r) :
    Inv { s with refresh := r } := by
  have hseen := h.seen
  refine ⟨h.exclusive.step hstep, ?_, fun hquiet hgen => ?_⟩
  · rcases Refresh.step_moves hstep with hlt | ⟨heq, -⟩
    · exact Nat.le_of_lt (Nat.lt_of_le_of_lt hseen hlt)
    · exact heq ▸ hseen
  · rcases Refresh.step_moves hstep with hlt | ⟨heq, hcoming | ⟨hcache, hnot⟩⟩
    -- a generation nobody has seen yet
    · exact absurd (hgen ▸ hseen) (Nat.not_le_of_lt hlt)
    · exact absurd hcoming hquiet
    · change s.conn.Knows r.cache
      rw [hcache]
      exact h.knows hnot (hgen.trans heq)

/-- The task is not concerned. -/
theorem Inv.same (h : s.Inv) {c : Conn} {r : Refresh}
    (hc : c.pc = s.conn.pc ∧ c.log = s.conn.log ∧ c.seenGen = s.conn.seenGen)
    (hr : r = s.refresh ∨ r = s.refresh.request) : Inv ⟨r, c⟩ := by
  obtain ⟨hpc, hlog, hseen⟩ := hc
  have hknows : ¬s.refresh.Coming → c.seenGen = s.refresh.generation → c.Knows s.refresh.cache := by
    intro hquiet hgen
    exact (h.knows hquiet (hseen ▸ hgen)).congr hpc hlog
  have hle : c.seenGen ≤ s.refresh.generation := hseen ▸ h.seen
  rcases hr with rfl | rfl
  · exact ⟨h.exclusive, hle, hknows⟩
  · exact ⟨h.exclusive, hle, hknows⟩

theorem Inv.task (h : s.Inv) {act : TaskAct} {c : Conn} (hsampled : s.Sampled (.task act))
    (htask : s.conn.task s.refresh.generation s.refresh.cache act = some c) :
    Inv { s with conn := c } := by
  have hfollows := Conn.task_follows htask h.knows fun hquiet hpc hgo => by
    rcases hsampled hpc (hgo ▸ rfl) with hlist | hcoming
    · exact hlist
    · exact absurd hcoming hquiet
  refine ⟨h.exclusive, ?_, hfollows.knows⟩
  rcases hfollows.seen with hsame | hgen
  · exact hsame.trans_le h.seen
  · exact Nat.le_of_eq hgen

theorem step_inv {a : Act} (h : s.Inv) (hsampled : s.Sampled a) (hstep : s.step a = some s') :
    s'.Inv := by
  cases a with
  | refresh a =>
    obtain ⟨r, hr, rfl⟩ := Option.map_eq_some_iff.mp hstep
    exact h.refresh hr
  | worker a =>
    obtain ⟨⟨c, asks⟩, hworker, rfl⟩ := Option.map_eq_some_iff.mp hstep
    refine h.same (Conn.worker_same hworker) ?_
    cases asks with
    | true => exact .inr rfl
    | false => exact .inl rfl
  | task a =>
    obtain ⟨c, htask, rfl⟩ := Option.map_eq_some_iff.mp hstep
    exact h.task hsampled htask
  | consumer a =>
    obtain ⟨c, hconsumer, rfl⟩ := Option.map_eq_some_iff.mp hstep
    exact h.same (Conn.consumer_same hconsumer) (.inl rfl)

end Sys

/-- **No change of the displays is missed** in a run that samples the generation when the list that
was sent is the cache. -/
theorem no_change_missed {displays : Displays} {generation : ℕ} {acts : List Act} {s : Sys}
    (hall : Along Sys.step Sys.Sampled (Sys.start displays generation) acts)
    (hrun : exec Sys.step (Sys.start displays generation) acts = some s) : s.UpToDate :=
  (exec_invariant_along (fun _ _ _ => Sys.step_inv) (Sys.start_inv displays generation)
    hall hrun).upToDate

/-- The condition cannot be had for less: a sample at rest is right only if it is met. -/
theorem sampled_of_upToDate {s s' : Sys} (hpc : s.conn.pc = .starting)
    (hrunning : s.refresh.running = false) (hpending : s.refresh.pending = false)
    (hstep : s.step (.task .go) = some s') (hup : s'.UpToDate) : s.Sampled (.task .go) := by
  intro _ _
  left
  obtain ⟨c, htask, rfl⟩ := Option.map_eq_some_iff.mp hstep
  rw [Conn.task.eq_def, hpc] at htask
  obtain rfl := Option.some.inj htask
  exact hup rfl hrunning hpending rfl

/-- A second display. -/
def projector : DrmDisplayInfo := ⟨"HDMI-A-1", 52, 640, 0, 1024, 768, true, "", "card0", false⟩

/-- A display is plugged in, and one of the threads brings the cache up to date. -/
def plugIn (i : ℕ) (displays : Displays) : List Act :=
  [Act.refresh (.hotplug displays), .refresh .request, .refresh (.swap true)] ++
    List.replicate 7 (Act.refresh (.thread i))

/-- The same iteration when there is a list to send. -/
def informing (m : DrmProducerMsg) : List Act :=
  [.worker (.produce m), .task .go, .task .go, .task .go, .task .go, .task .go, .task (.send 1),
    .task .go, .task (.send 2),
    .task .go, .task .go, .task (.send 2)]

/-- A display that is plugged in after the handshake is announced. -/
theorem no_change_missed_announced : ∃ s, exec Sys.step (Sys.start [monitor] 0) (handshake ++
    [Act.refresh (.swap true)] ++ List.replicate 7 (Act.refresh (.thread 0)) ++
      plugIn 1 [monitor, projector] ++
    informing (picture 1)) = some s ∧ s.UpToDate ∧ s.conn.pc = .top 0 ∧ s.refresh.running = false ∧
    s.refresh.pending = false ∧ s.conn.seenGen = 1 ∧ s.refresh.generation = 1 ∧
    s.refresh.cache = [monitor, projector] := by
  have hrun : (exec Sys.step (Sys.start [monitor] 0) (handshake ++ [Act.refresh (.swap true)] ++
      List.replicate 7 (Act.refresh (.thread 0)) ++ plugIn 1 [monitor, projector] ++
        informing (picture 1))).any (fun s =>
        s.conn.pc = .top 0 ∧ s.refresh.running = false ∧ s.refresh.pending = false ∧
          s.conn.seenGen = 1 ∧
          s.refresh.generation = 1 ∧ s.refresh.cache = [monitor, projector]) = true := by
            decide +kernel
  obtain ⟨s, hs, hp⟩ := (Option.any_eq_true _ _).mp hrun
  exact ⟨s, hs, no_change_missed (by decide +kernel) hs, of_decide_eq_true hp⟩

/-- A display that is plugged in during the handshake is not: the first list is from before, the
generation from after. -/
theorem change_missed_in_handshake : ¬∀ displays generation acts s,
    exec Sys.step (Sys.start displays generation) acts = some s → s.UpToDate := by
  intro h
  have hrun :
    (exec Sys.step (Sys.start [monitor] 0) ([Act.worker .enumerate] ++
      plugIn 0 [monitor, projector] ++
      handshake.tail ++ [Act.refresh (.swap true)] ++ List.replicate 7 (Act.refresh (.thread 1)) ++
      iteration (picture 1))).any (fun s => s.conn.pc = .top 0 ∧ s.refresh.running = false ∧
        s.refresh.pending = false ∧
        s.conn.seenGen = s.refresh.generation ∧ lastList s.conn.log = some [monitor] ∧
        s.refresh.cache = [monitor, projector]) = true := by decide +kernel
  obtain ⟨s, hs, hp⟩ := (Option.any_eq_true _ _).mp hrun
  obtain ⟨hpc, hrunning, hpending, hgen, hlist, hcache⟩ := of_decide_eq_true hp
  have hup := h _ _ _ s hs hpc hrunning hpending hgen
  rw [hlist, hcache] at hup
  cases hup

end Drm
end BgDesk
