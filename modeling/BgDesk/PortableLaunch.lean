import Mathlib.Data.List.Pairwise
import BgDesk.Machine
import BgDesk.Threads

/-!
# Launching the portable service

The client side of `portable_service.rs`: `start_portable_service`, which any thread may call, its
start-up timeouts, and the IPC server, which accepts the helper process when it shows a token that
is valid once. The token is in `IPC_RUNTIME_TOKEN` and in the shared memory that the helper maps.
Every acquisition of a lock and every atomic operation is a step, with the code up to the next one;
`Shared` also keeps a record of what was issued and what was accepted.

* `Call`, `Server`, `Watchdog`, `Connection` — the threads, by what they do next;
* `State.step` — a step of one of them;
* `launch_token` — a token is accepted once, in every run; where `STARTING` is reset only while no
  call is under way, there is one call at a time, the token is the one in the shared memory, and
  tokens of earlier launches do not come back;
* `launches_overlap` — the second call takes the first for dead, because its helper process does not
  run yet.
-/

namespace BgDesk
namespace PortableService

/-- A shared memory, with what its token area holds. -/
structure SharedMemory where
  name : String
  token : Option String
  deriving DecidableEq

/-- A token, with the memory and the launch it was made for. -/
structure Issued where
  name : String
  token : String
  launch : ℕ
  deriving DecidableEq

/-- The locks that are held over several steps. -/
inductive Lock where
  | starting
  | token
  | shmem
  deriving DecidableEq

/-- What comes after `clear_runtime_shmem_state`. -/
inductive Next where
  | create
  | failed
  deriving DecidableEq

/-- A call of `start_portable_service`, with its launch number. -/
inductive Call where
  | entered : (running : Bool) → Call
  | claimed : Call
  | clear : ℕ → Next → Call
  | clearToken : ℕ → Next → Call
  | clearShmem : ℕ → Next → Call
  | create : ℕ → Call
  | created : ℕ → (name token : String) → Call
  | named : ℕ → (name token : String) → Call
  | publish : ℕ → (name token : String) → Call
  | run : ℕ → Call
  | failed : ℕ → Call
  | returned : Call
  deriving DecidableEq

/-- The part of `start_ipc_server_async` that accepts connections. -/
inductive Server where
  | listening
  | matched (token : String)
  | matchedShmem (token : String)
  | consumed (token : String) (name : Option String)
  | restoreToken (token : String) (name : Option String)
  | restoreShmem (token : String) (name : Option String)
  | rejected
  deriving DecidableEq

/-- A thread of `schedule_starting_timeout_reset`. -/
inductive Watchdog where
  | sleeping : ℕ → Watchdog
  | loaded : (current : Bool) → Watchdog
  | read : (current starting : Bool) → Watchdog
  | reset : Watchdog
  | done : Watchdog
  deriving DecidableEq

/-- The connection that is served. -/
inductive Connection where
  | none
  | open
  | ponged
  | closing
  deriving DecidableEq

/-- The variables of the module, the helper processes that are alive, and the record. -/
structure Shared where
  running : Bool
  starting : Bool
  startingToken : ℕ
  token : Option String
  shmem : Option SharedMemory
  name : Option String
  helpers : ℕ
  watchdogs : List Watchdog
  connection : Connection
  waiting : ℕ
  issued : List Issued
  authenticated : List String
  cleared : ℕ
  deriving DecidableEq

structure State where
  mem : Shared
  calls : List Call
  server : Server
  deriving DecidableEq

/-- What the environment decides in a step of a call. -/
inductive Choice where
  | go
  | create (name token : String)
  | fail (cleared : Bool)
  deriving DecidableEq

/-- What the environment decides in a step of the server. -/
inductive Reply where
  | go
  | auth (candidate : String)
  | accept
  | refuse
  | fail
  deriving DecidableEq

inductive Act where
  | start : Act
  | call : ℕ → Choice → Act
  | server : Reply → Act
  | watch : ℕ → Act
  | connect : Act
  | pong : Act
  | settle : Act
  | close : Act
  | die : Act
  deriving DecidableEq

/-! ## Locks -/

def Call.holds : Call → Lock → Bool
  | .claimed, .starting => true
  | .clearToken _ _, .token => true
  | .clearShmem _ _, .token => true
  | .clearShmem _ _, .shmem => true
  | .created _ _ _, .shmem => true
  | .named _ _ _, .shmem => true
  | _, _ => false

def Server.holds : Server → Lock → Bool
  | .matched _, .token => true
  | .matchedShmem _, .token => true
  | .matchedShmem _, .shmem => true
  | .restoreToken _ _, .token => true
  | .restoreShmem _ _, .token => true
  | .restoreShmem _ _, .shmem => true
  | _, _ => false

/-- Nobody holds a lock. -/
def State.free (s : State) (l : Lock) : Bool := !s.server.holds l && s.calls.all fun c => !c.holds l

/-! ## Steps -/

section Steps

variable (free : Lock → Bool)

def Next.call (n : ℕ) : Next → Call
  | .create => .create n
  | .failed => .failed n

/-- `start_portable_service`. -/
def Call.step (m : Shared) : Call → Choice → Option (Shared × Call)
  | .entered running, .go =>
    -- the stale state: nobody runs, and no helper process either
    let starting := m.starting && !(!running && m.helpers = 0)
    if free .starting then
      if starting || running then some ({ m with starting := starting }, .returned)
      else some ({ m with starting := true }, .claimed)
    else none
  | .claimed, .go =>
    some ({ m with startingToken := m.startingToken + 1 }, .clear (m.startingToken + 1) .create)
  -- `clear_runtime_shmem_state`
  | .clear n next, .go => if free .token then some (m, .clearToken n next) else none
  | .clearToken n next, .go =>
    if free .shmem then some ({ m with shmem := none }, .clearShmem n next) else none
  | .clearShmem n next, .go =>
    some ({ m with name := none, token := none, cleared := max m.cleared n }, next.call n)
  -- the displays, the name, the token and the memory
  | .create n, .create name token =>
    if free .shmem && m.issued.all fun e => e.name ≠ name && e.token ≠ token then
      some ({ m with shmem := some ⟨name, none⟩, issued := ⟨name, token, n⟩ :: m.issued },
        .created n name token)
    else none
  | .create n, .fail _ => if free .shmem then some (m, .failed n) else none
  | .created n name token, .go => some ({ m with name := some name }, .named n name token)
  | .named n name token, .go =>
    match m.name with
    | some _ =>
      some ({ m with shmem := m.shmem.map fun shmem => { shmem with token := some token } },
        .publish n name token)
    | none => some (m, .failed n)
  | .named n _ _, .fail _ =>
    some ({ m with shmem := m.shmem.map fun shmem => { shmem with token := none } },
      .clear n .failed)
  -- `set_runtime_ipc_token`
  | .publish n _ token, .go =>
    if free .token then some ({ m with token := some token }, .run n) else none
  -- the helper process
  | .run n, .go =>
    some ({ m with helpers := m.helpers + 1, watchdogs := m.watchdogs ++ [.sleeping n] }, .returned)
  | .run n, .fail cleared => some (m, if cleared then .clear n .failed else .failed n)
  | .failed _, .go =>
    if free .starting then some ({ m with starting := false }, .returned) else none
  | _, _ => none

/-- A handshake, with `consume_runtime_ipc_token_if_match` and
`restore_runtime_ipc_token_after_failed_handshake`. -/
def Server.step (m : Shared) : Server → Reply → Option (Shared × Server)
  | .listening, .auth candidate =>
    if free .token then some (m, if m.token =
      some candidate then .matched candidate else .listening) else none
  | .matched token, .go => if free .shmem then some (m, .matchedShmem token) else none
  | .matchedShmem token, .go =>
    some ({ m with token := none, shmem := m.shmem.map fun shmem => { shmem with token := none } },
      .consumed token m.name)
  | .consumed token _, .accept =>
    some ({ m with authenticated := token :: m.authenticated, waiting := m.waiting + 1 },
      .listening)
  | .consumed token name, .refuse =>
    if free .token then
      some (m, if m.token.any fun current =>
        current ≠ token then .rejected else .restoreToken token name)
    else none
  | .restoreToken token name, .go =>
    if free .shmem then some (m, .restoreShmem token name) else none
  | .restoreShmem token name, .go =>
    match m.shmem with
    | some shmem =>
      if m.name =
        name then some ({ m with
          token := some token, shmem := some { shmem with token := some token } }, .rejected)
      else some ({ m with token := m.token.filter (· ≠ token) }, .rejected)
    | none => some ({ m with token := m.token.filter (· ≠ token) }, .rejected)
  | .restoreShmem token _, .fail => some ({ m with token := m.token.filter (· ≠ token) }, .rejected)
  | .rejected, .go =>
    if free .starting then some ({ m with starting := false }, .listening) else none
  | _, _ => none

/-- `schedule_starting_timeout_reset`. -/
def Watchdog.step (m : Shared) : Watchdog → Option (Shared × Watchdog)
  | .sleeping n => some (m, .loaded (m.startingToken = n))
  | .loaded current => if free .starting then some (m, .read current m.starting) else none
  | .read current starting => some (m, if current && starting && !m.running then .reset else .done)
  | .reset => if free .starting then some ({ m with starting := false }, .done) else none
  | .done => none

end Steps

namespace State

def start : State :=
  ⟨⟨false, false, 0, none, none, none, 0, [], .none, 0, [], [], 0⟩, [], .listening⟩

def step (s : State) : Act → Option State
  | .start => some { s with calls := s.calls ++ [Call.entered s.mem.running] }
  | .call i choice => do
    let c ← s.calls[i]?
    let (m, c) ← c.step s.free s.mem choice
    some { s with mem := m, calls := s.calls.set i c }
  | .server reply => do
    let (m, server) ← s.server.step s.free s.mem reply
    some { s with mem := m, server := server }
  | .watch k => do
    let w ← s.mem.watchdogs[k]?
    let (m, w) ← w.step s.free s.mem
    some { s with mem := { m with watchdogs := m.watchdogs.set k w } }
  | .connect =>
    if s.mem.connection = .none ∧ 0 < s.mem.waiting then
      some { s with mem := { s.mem with connection := .open, waiting := s.mem.waiting - 1 } }
    else none
  | .pong =>
    if s.mem.connection = .open then some { s with
      mem := { s.mem with connection := .ponged, running := true } } else none
  | .close =>
    if s.mem.connection = .open then some { s with
      mem := { s.mem with connection := .closing, running := false } }
    else none
  | .settle =>
    if s.free .starting then
      match s.mem.connection with
      | .ponged => some { s with mem := { s.mem with connection := .open, starting := false } }
      | .closing => some { s with mem := { s.mem with connection := .none, starting := false } }
      | .none | .open => none
    else none
  | .die =>
    if 0 < s.mem.helpers then some { s with
      mem := { s.mem with helpers := s.mem.helpers - 1 } } else none

end State

/-! ## What is asked of a launch -/

/-- A call is between claiming `STARTING` and returning. -/
def Call.inProgress : Call → Bool
  | .entered _ => false
  | .returned => false
  | .claimed | .clear _ _ | .clearToken _ _ | .clearShmem _ _ | .create _ | .created _ _
    _ | .named _ _ _
  | .publish _ _ _ | .run _ | .failed _ => true

/-- The token is the one in the memory that has the name. -/
def Shared.Consistent (m : Shared) : Prop :=
  ∀ t, m.token = some t → ∃ shmem, m.shmem = some shmem ∧ m.name = some shmem.name ∧
    shmem.token = some t

/-- The token was not made for a launch before one that has cleared the state. -/
def Shared.Current (m : Shared) : Prop :=
  ∀ e ∈ m.issued, m.token = some e.token → m.cleared ≤ e.launch

/-- A step that sets `STARTING` to false for another call: a state that is taken for stale, a
timeout, a handshake that failed, or a connection. -/
def State.resets (s : State) : Act → Bool
  | .call i .go =>
    match s.calls[i]? with
    | some (.entered running) => s.mem.starting && !running && s.mem.helpers = 0
    | _ => false
  | .server .go => s.server = .rejected
  | .watch k => s.mem.watchdogs[k]? = some .reset
  | .settle => true
  | _ => false

/-- `STARTING` is reset only when no call is in progress. -/
def State.Undisturbed (s : State) (a : Act) : Prop :=
  s.resets a = true → s.calls.all (!·.inProgress) = true

instance State.Undisturbed.decidable (s : State) (a : Act) : Decidable (s.Undisturbed a) :=
  inferInstanceAs (Decidable (_ → _))

/-! ## What a step can do -/

/-- What a step of a call does to the variables. -/
inductive Call.Transition (free : Lock → Bool) (m : Shared) : Call → Shared → Call → Prop
  | bail {running : Bool} : Transition free m (.entered running) m .returned
  | claim {running : Bool} (hfree : free .starting = true)
    (hstale : m.starting = true → running = false ∧ m.helpers = 0) :
      Transition free m (.entered running) { m with starting := true } .claimed
  | number : Transition free m .claimed { m with startingToken := m.startingToken + 1 }
    (.clear (m.startingToken + 1) .create)
  | clear {n : ℕ} {next : Next} (hfree : free .token = true) :
    Transition free m (.clear n next) m (.clearToken n next)
  | clearToken {n : ℕ} {next : Next} (hfree : free .shmem = true) :
      Transition free m (.clearToken n next) { m with shmem := none } (.clearShmem n next)
  | clearShmem {n : ℕ} {next : Next} : Transition free m (.clearShmem n next)
      { m with name := none, token := none, cleared := max m.cleared n } (next.call n)
  | create {n : ℕ} {name token : String} (hfree : free .shmem = true)
      (hfresh : ∀ e ∈ m.issued, e.name ≠ name ∧ e.token ≠ token) : Transition free m (.create n)
      { m with shmem := some ⟨name, none⟩, issued := ⟨name, token, n⟩ :: m.issued }
        (.created n name token)
  | createFails {n : ℕ} : Transition free m (.create n) m (.failed n)
  | setName {n : ℕ} {name token : String} :
      Transition free m (.created n name token) { m with name := some name } (.named n name token)
  | writeToken {n : ℕ} {name token : String} : Transition free m (.named n name token)
      { m with shmem := m.shmem.map fun shmem => { shmem with token := some token } }
        (.publish n name token)
  | unnamed {n : ℕ} {name token : String} : Transition free m (.named n name token) m (.failed n)
  | writeFails {n : ℕ} {name token : String} : Transition free m (.named n name token)
      { m with shmem := m.shmem.map fun shmem => { shmem with token := none } } (.clear n .failed)
  | setToken {n : ℕ} {name token : String} (hfree : free .token = true) :
      Transition free m (.publish n name token) { m with token := some token } (.run n)
  | launched {n : ℕ} : Transition free m (.run n)
      { m with helpers := m.helpers + 1, watchdogs := m.watchdogs ++ [.sleeping n] } .returned
  | launchFails {n : ℕ} : Transition free m (.run n) m (.clear n .failed)
  | noProgram {n : ℕ} : Transition free m (.run n) m (.failed n)
  | reset {n : ℕ} : Transition free m (.failed n) { m with starting := false } .returned

variable {m m' : Shared} {c : Call} {choice : Choice} {reply : Reply} {s s' : State} {a : Act}
  {l : Lock}

/-- Inversion of a step of a call. -/
theorem Call.step_transition {free : Lock → Bool} {c' : Call}
    (h : c.step free m choice = some (m', c')) : c.Transition free m m' c' := by
  revert h
  fun_cases Call.step free m c choice
  all_goals intro h
  all_goals cases h
  case case1.refl running starting hfree hbail =>
    -- who finds a stale state does not give up
    have hkept : starting = m.starting := by
      cases running <;> cases hs : m.starting <;> simp_all [starting]
    rw [hkept]
    exact .bail
  case case2.refl running starting hfree hbail =>
    refine .claim hfree fun hs => ?_
    cases running <;> simp_all [starting]
  case case4.refl => exact .number
  case case5.refl hfree => exact .clear hfree
  case case7.refl hfree => exact .clearToken hfree
  case case9.refl => exact .clearShmem
  case case10.refl hfree =>
    rw [Bool.and_eq_true, List.all_eq_true] at hfree
    exact .create hfree.1 fun e he => by simpa using hfree.2 e he
  case case12.refl => exact .createFails
  case case14.refl => exact .setName
  case case15.refl => exact .writeToken
  case case16.refl => exact .unnamed
  case case17.refl => exact .writeFails
  case case18.refl hfree => exact .setToken hfree
  case case20.refl => exact .launched
  case case21.refl n cleared =>
    cases cleared
    · exact .noProgram
    · exact .launchFails
  case case22.refl => exact .reset

/-- What a step of the server does to the variables. -/
inductive Server.Transition (free : Lock → Bool) (m : Shared) : Server → Shared → Server → Prop
  | deny : Transition free m .listening m .listening
  | auth {t : String} (hfree : free .token = true) (hmatch : m.token = some t) :
      Transition free m .listening m (.matched t)
  | lockShmem {t : String} (hfree : free .shmem = true) :
    Transition free m (.matched t) m (.matchedShmem t)
  | consume {t : String} : Transition free m (.matchedShmem t)
      { m with token := none, shmem := m.shmem.map fun shmem => { shmem with token := none } }
        (.consumed t m.name)
  | accept {t : String} {name : Option String} : Transition free m (.consumed t name)
      { m with authenticated := t :: m.authenticated, waiting := m.waiting + 1 } .listening
  | skip {t : String} {name : Option String} : Transition free m (.consumed t name) m .rejected
  | refuse {t : String} {name : Option String} (hfree : free .token = true) :
      Transition free m (.consumed t name) m (.restoreToken t name)
  | restoreToken {t : String} {name : Option String} (hfree : free .shmem = true) :
      Transition free m (.restoreToken t name) m (.restoreShmem t name)
  | restore {t : String} {shmem : SharedMemory} (hshmem : m.shmem = some shmem) :
    Transition free m (.restoreShmem t m.name)
      { m with token := some t, shmem := some { shmem with token := some t } } .rejected
  | drop {t : String} {name : Option String} :
      Transition free m (.restoreShmem t name) { m with token := m.token.filter (· ≠ t) } .rejected
  | reset : Transition free m .rejected { m with starting := false } .listening

/-- Inversion of a step of the server. -/
theorem Server.step_transition {free : Lock → Bool} {c c' : Server}
    (h : c.step free m reply = some (m', c')) : c.Transition free m m' c' := by
  revert h
  fun_cases Server.step free m c reply
  all_goals intro h
  all_goals cases h
  case case1.refl candidate hfree =>
    split
    · next hmatch => exact .auth hfree hmatch
    · exact .deny
  case case3.refl hfree => exact .lockShmem hfree
  case case5.refl => exact .consume
  case case6.refl => exact .accept
  case case7.refl hfree =>
    split
    · exact .skip
    · exact .refuse hfree
  case case9.refl hfree => exact .restoreToken hfree
  case case11.refl hshmem => exact .restore hshmem
  case case12.refl | case13.refl | case14.refl => exact .drop
  case case15.refl => exact .reset

/-- The tokens and the memory are as they were. -/
def Shared.SameMemory (m m' : Shared) : Prop :=
  m'.token = m.token ∧ m'.shmem = m.shmem ∧ m'.name = m.name ∧ m'.startingToken = m.startingToken ∧
    m'.issued = m.issued ∧ m'.cleared = m.cleared

theorem Watchdog.step_sameMemory {free : Lock → Bool} {w w' : Watchdog}
    (h : w.step free m = some (m', w')) : m.SameMemory m' ∧ m'.authenticated = m.authenticated ∧
      (m'.starting = m.starting ∨ m'.starting = false ∧ w = .reset) := by
  revert h
  fun_cases Watchdog.step free m w
  all_goals intro h
  all_goals cases h
  case case5.refl => exact ⟨⟨rfl, rfl, rfl, rfl, rfl, rfl⟩, rfl, .inr ⟨rfl, rfl⟩⟩
  all_goals exact ⟨⟨rfl, rfl, rfl, rfl, rfl, rfl⟩, rfl, .inl rfl⟩

/-- A step is one of a call, or one of the server, or it does not touch the tokens and the memory.
-/
inductive State.Transition (s : State) (a : Act) : State → Prop
  | call {i : ℕ} {choice : Choice} {c c' : Call} {m : Shared} (ha : a = .call i choice)
    (hi : s.calls[i]? = some c)
      (hstep : c.step s.free s.mem choice = some (m, c')) :
        Transition s a ⟨m, s.calls.set i c', s.server⟩
  | server {reply : Reply} {server : Server} {m : Shared} (ha : a = .server reply)
      (hstep : s.server.step s.free s.mem reply = some (m, server)) :
        Transition s a ⟨m, s.calls, server⟩
  | start : Transition s a ⟨s.mem, s.calls ++ [Call.entered s.mem.running], s.server⟩
  | other {m : Shared} (hsame : s.mem.SameMemory m)
    (hauthenticated : m.authenticated = s.mem.authenticated)
      (hstarting : m.starting = s.mem.starting ∨ m.starting = false ∧ s.resets a = true) :
      Transition s a ⟨m, s.calls, s.server⟩

/-- Inversion of a step. -/
theorem State.step_transition (h : s.step a = some s') : s.Transition a s' := by
  cases a with
  | start =>
    obtain rfl := Option.some.inj h
    exact .start
  | call i choice =>
    simp only [State.step, Option.bind_eq_bind, Option.bind_eq_some_iff] at h
    obtain ⟨c, hi, ⟨m, c'⟩, hstep, h⟩ := h
    obtain rfl := Option.some.inj h
    exact .call rfl hi hstep
  | server reply =>
    simp only [State.step, Option.bind_eq_bind, Option.bind_eq_some_iff] at h
    obtain ⟨⟨m, server⟩, hstep, h⟩ := h
    obtain rfl := Option.some.inj h
    exact .server rfl hstep
  | watch k =>
    simp only [State.step, Option.bind_eq_bind, Option.bind_eq_some_iff] at h
    obtain ⟨w, hk, ⟨m, w'⟩, hstep, h⟩ := h
    obtain rfl := Option.some.inj h
    obtain ⟨hsame, hauthenticated, hstarting⟩ := Watchdog.step_sameMemory hstep
    refine .other hsame hauthenticated (hstarting.imp_right fun ⟨hfalse, hreset⟩ => ⟨hfalse, ?_⟩)
    rw [hreset] at hk
    exact decide_eq_true hk
  | settle =>
    rw [State.step] at h
    split at h
    · split at h
      all_goals cases h
      all_goals exact .other ⟨rfl, rfl, rfl, rfl, rfl, rfl⟩ rfl (.inr ⟨rfl, rfl⟩)
    · cases h
  | connect | pong | close | die =>
    rw [State.step] at h
    split at h
    · obtain rfl := Option.some.inj h
      exact .other ⟨rfl, rfl, rfl, rfl, rfl, rfl⟩ rfl (.inl rfl)
    · cases h

/-! ## Locks are exclusive -/

/-- How many threads hold a lock. -/
def State.holders (s : State) (l : Lock) : ℕ :=
  (s.server.holds l).toNat + s.calls.countP (·.holds l)

def State.Exclusive (s : State) : Prop := ∀ l, s.holders l ≤ 1

theorem State.holders_of_free (h : s.free l = true) : s.holders l = 0 := by
  rw [free, Bool.and_eq_true, Bool.not_eq_true', List.all_eq_true] at h
  rw [holders, h.1, List.countP_eq_zero.mpr fun c hc => by simpa using h.2 c hc]
  rfl

theorem Call.step_holds {free : Lock → Bool} {c' : Call} (h : c.Transition free m m' c')
    (hc : c'.holds l = true) : c.holds l = true ∨ free l = true := by
  cases h with
  | clear hfree | clearToken hfree | create hfree =>
    cases l <;> first | exact .inr hfree | exact .inl rfl | cases hc
  | claim hfree => cases l <;> first | exact .inr hfree | cases hc
  | @clearShmem n next => cases next <;> cases l <;> cases hc
  | setName => cases l <;> first | exact .inl rfl | cases hc
  | bail | number | createFails | writeToken | unnamed | writeFails | setToken | launched
    | launchFails | noProgram | reset =>
    cases l <;> cases hc

theorem Server.step_holds {free : Lock → Bool} {c c' : Server} (h : c.Transition free m m' c')
    (hc : c'.holds l = true) : c.holds l = true ∨ free l = true := by
  cases h with
  | auth hfree | lockShmem hfree | refuse hfree | restoreToken hfree =>
    cases l <;> first | exact .inr hfree | exact .inl rfl | cases hc
  | deny | consume | accept | skip | restore | drop | reset => cases l <;> cases hc

/-- No lock is ever held twice. -/
theorem State.Exclusive.step (hs : s.Exclusive) (h : s.step a = some s') : s'.Exclusive := by
  intro l
  have hone := hs l
  cases State.step_transition h with
  | @call i choice c c' m ha hi hstep =>
    have hcount := countP_step (p := (·.holds l)) hi c'
    have hholds := Call.step_holds (Call.step_transition hstep) (l := l)
    cases hc' : c'.holds l with
    | false =>
      simp only [holders, hc', Bool.toNat_false] at hone hcount ⊢
      omega
    | true =>
      rcases hholds hc' with hc | hfree
      · simp only [holders, hc', hc] at hone hcount ⊢
        omega
      · have hzero := State.holders_of_free hfree
        simp only [holders, hc', Bool.toNat_true] at hzero hcount ⊢
        omega
  | @server reply server m ha hstep =>
    have hholds := Server.step_holds (Server.step_transition hstep) (l := l)
    cases hc' : server.holds l with
    | false =>
      simp only [holders, hc', Bool.toNat_false] at hone ⊢
      omega
    | true =>
      rcases hholds hc' with hc | hfree
      · simp only [holders, hc', hc] at hone ⊢
        omega
      · have hzero := State.holders_of_free hfree
        simp only [holders, hc', Bool.toNat_true] at hzero ⊢
        omega
  | start =>
    simp only [holders, List.countP_append] at hone ⊢
    exact hone
  | other hsame hauthenticated hstarting => exact hone

/-! ## A token is accepted once -/

/-- A call is going to publish a token. -/
def Call.keeps (t : String) : Call → Bool
  | .created _ _ token | .named _ _ token | .publish _ _ token => token = t
  | .entered _ | .claimed | .clear _ _ | .clearToken _ _ | .clearShmem _ _ | .create _ | .run
    _ | .failed _
  | .returned => false

/-- The server has taken a token and may put it back. -/
def Server.keeps (t : String) : Server → Bool
  | .consumed token _ | .restoreToken token _ | .restoreShmem token _ => token = t
  | .listening | .matched _ | .matchedShmem _ | .rejected => false

/-- The server has compared a token and holds the lock. -/
def Server.compared : Server → Option String
  | .matched token | .matchedShmem token => some token
  | .listening | .consumed _ _ | .restoreToken _ _ | .restoreShmem _ _ | .rejected => none

/-- In how many places among the variables a token is. -/
def Shared.places (m : Shared) (t : String) : ℕ :=
  (decide (m.token = some t)).toNat + m.authenticated.count t

/-- In how many places a token is. -/
def State.places (s : State) (t : String) : ℕ :=
  s.mem.places t + (s.server.keeps t).toNat + s.calls.countP (·.keeps t)

def Shared.wasIssued (m : Shared) (t : String) : ℕ := (m.issued.any fun e => e.token = t).toNat

/-- A token is in one place at most, and only if it was issued. -/
structure State.Once (s : State) : Prop where
  exclusive : s.Exclusive
  compared : ∀ t, s.server.compared = some t → s.mem.token = some t
  places : ∀ t, s.places t ≤ s.mem.wasIssued t

/-- Without the lock a call does not touch the token. -/
theorem Call.step_token {free : Lock → Bool} {c' : Call} (h : c.Transition free m m' c') :
    m'.token = m.token ∨ c.holds .token = true ∨ free .token = true := by
  cases h with
  | clearShmem => exact .inr (.inl rfl)
  | setToken hfree => exact .inr (.inr hfree)
  | bail | claim | number | clear | clearToken | create | createFails | setName | writeToken
    | unnamed | writeFails
  | launched | launchFails | noProgram | reset => exact .inl rfl

theorem State.Exclusive.server_call (hs : s.Exclusive) (hserver : s.server.holds l = true) {i : ℕ}
    (hi : s.calls[i]? = some c) : c.holds l = false := by
  by_contra hc
  rw [Bool.not_eq_false] at hc
  have hpos : 0 < s.calls.countP (·.holds l) := countP_pos_index hi hc
  have hone := hs l
  rw [holders, hserver, Bool.toNat_true] at hone
  omega

theorem Server.holds_of_compared {c : Server} {t : String} (h : c.compared = some t) :
    c.holds .token = true := by
  cases c <;> first | rfl | cases h

theorem Server.step_compared {free : Lock → Bool} {c c' : Server} (h : c.Transition free m m' c')
    {t : String} (hm : c.compared = some t → m.token = some t) (ht : c'.compared = some t) :
    m'.token = some t := by
  cases h with
  | auth hfree hmatch =>
    obtain rfl := Option.some.inj ht
    exact hmatch
  | lockShmem hfree => exact hm ht
  | deny | consume | accept | skip | refuse | restoreToken | restore | drop | reset => cases ht

theorem State.Once.step_compared (hs : s.Once) (h : s.step a = some s') (t : String)
    (ht : s'.server.compared = some t) : s'.mem.token = some t := by
  cases State.step_transition h with
  | @call i choice c c' m ha hi hstep =>
    have hserver := Server.holds_of_compared ht
    have hold : s.mem.token = some t := hs.compared t ht
    rcases Call.step_token (Call.step_transition hstep) with hkept | hholds | hfree
    · exact hkept.trans hold
    · rw [hs.exclusive.server_call hserver hi] at hholds
      cases hholds
    · have hzero := State.holders_of_free hfree
      rw [holders, hserver, Bool.toNat_true] at hzero
      omega
  | server ha hstep => exact Server.step_compared (Server.step_transition hstep) (hs.compared t) ht
  | start => exact hs.compared t ht
  | other hsame hauthenticated hstarting => exact hsame.1.trans (hs.compared t ht)

/-- A call moves a token from one place to another, or issues it. -/
theorem Call.step_places {free : Lock → Bool} {c' : Call} (h : c.Transition free m m' c')
    (t : String) :
    m'.places t + (c'.keeps t).toNat + m.wasIssued t ≤ m.places t + (c.keeps t).toNat +
      m'.wasIssued t := by
  cases h with
  | @create n name token hfree hfresh =>
    simp only [Shared.places, Shared.wasIssued, Call.keeps, List.any_cons]
    by_cases ht : token = t
    · have hnone : (m.issued.any fun e => e.token = t) = false :=
        List.any_eq_false.mpr fun e he => by simpa [ht] using (hfresh e he).2
      simp [ht, hnone]
    · simp [ht]
  | @clearShmem n next =>
    have hkeeps : (next.call n).keeps t = false := by cases next <;> rfl
    rw [hkeeps]
    simp only [Shared.places, Shared.wasIssued]
    simp
    omega
  | @setToken n name token hfree =>
    simp only [Shared.places, Shared.wasIssued, Call.keeps, Bool.toNat_false, Option.some.injEq]
    omega
  | bail | claim | number | clear | clearToken | createFails | setName | writeToken | launched
    | launchFails | noProgram
  | reset => exact Nat.le_refl _
  | unnamed | writeFails => exact Nat.add_le_add_right (Nat.add_le_add_left (Nat.zero_le _) _) _

/-- The server takes a token, and accepts it or puts it back. -/
theorem Server.step_places {free : Lock → Bool} {c c' : Server} (h : c.Transition free m m' c')
    (hm : ∀ t, c.compared = some t → m.token = some t) (t : String) :
    m'.places t + (c'.keeps t).toNat ≤ m.places t + (c.keeps t).toNat := by
  cases h with
  | @consume t' =>
    have htoken := hm t' rfl
    simp [Shared.places, Server.keeps, htoken]
    omega
  | @accept t' name =>
    simp only [Shared.places, Server.keeps, List.count_cons, beq_iff_eq]
    by_cases ht : t' = t
    · simp [ht, Nat.add_assoc]
    · simp [ht]
  | @restore t' shmem hshmem =>
    simp only [Shared.places, Server.keeps, Option.some.injEq, Bool.toNat_false]
    omega
  | @drop t' name =>
    have hle : (decide (m.token.filter (· ≠ t') = some t)).toNat ≤
        (decide (m.token = some t)).toNat := by
      by_cases ht : m.token.filter (· ≠ t') = some t
      · rw [decide_eq_true (Option.filter_eq_some_iff.mp ht).1]
        exact Bool.toNat_le _
      · rw [decide_eq_false ht]
        exact Nat.zero_le _
    simp only [Shared.places, Server.keeps, Bool.toNat_false]
    omega
  | deny | auth | lockShmem | refuse | restoreToken | reset => exact Nat.le_refl _
  | skip => exact Nat.add_le_add_left (Nat.zero_le _) _

theorem Server.step_issued {free : Lock → Bool} {c c' : Server} (h : c.Transition free m m' c') :
    m'.issued = m.issued ∧ m'.cleared = m.cleared ∧ m'.startingToken = m.startingToken ∧
      m'.name = m.name := by
  cases h <;> exact ⟨rfl, rfl, rfl, rfl⟩

/-- A step lets nobody in twice. -/
theorem State.Once.step (hs : s.Once) (h : s.step a = some s') : s'.Once := by
  refine ⟨hs.exclusive.step h, hs.step_compared h, fun t => ?_⟩
  have hplaces := hs.places t
  cases State.step_transition h with
  | @call i choice c c' m ha hi hstep =>
    have hcall := Call.step_places (Call.step_transition hstep) t
    have hcount := countP_step (p := (·.keeps t)) hi c'
    simp only [State.places] at hplaces ⊢
    omega
  | @server reply server m ha hstep =>
    have hserver := Server.step_places (Server.step_transition hstep) hs.compared t
    have hissued := (Server.step_issued (Server.step_transition hstep)).1
    simp only [State.places, Shared.wasIssued, hissued] at hplaces ⊢
    omega
  | start =>
    simp only [State.places, List.countP_append] at hplaces ⊢
    exact hplaces
  | @other m hsame hauthenticated hstarting =>
    obtain ⟨htoken, -, -, -, hissued, -⟩ := hsame
    simp only [State.places, Shared.places, Shared.wasIssued, htoken, hissued,
      hauthenticated] at hplaces ⊢
    exact hplaces

theorem State.start_once : State.start.Once := by
  refine ⟨fun l => ?_, nofun, fun t => ?_⟩
  · cases l <;> decide
  · exact Nat.zero_le _

theorem exec_once {acts : List Act} (h : exec State.step .start acts = some s) : s.Once :=
  exec_invariant (fun _ _ _ hs hstep => hs.step hstep) State.start_once h

theorem State.Once.authenticated (hs : s.Once) : s.mem.authenticated.Nodup := by
  refine List.nodup_iff_count.mpr fun t => ?_
  have hplaces := hs.places t
  have hissued := Bool.toNat_le (s.mem.issued.any fun e => e.token = t)
  rw [State.places, Shared.places] at hplaces
  rw [Shared.wasIssued] at hplaces
  omega

/-! ## One launch at a time -/

/-- What a call that is under way relies on. -/
def Call.Knows (m : Shared) : Call → Prop
  | .entered _ | .claimed | .returned => True
  | .clear n _ | .clearToken n _ | .clearShmem n _ | .run n | .failed n => n = m.startingToken
  | .create n => n = m.startingToken ∧ m.cleared = n ∧ m.token = none ∧ m.name = none
  | .created n name token =>
    n = m.startingToken ∧ m.cleared = n ∧ m.token = none ∧ m.name = none ∧
      m.shmem = some ⟨name, none⟩ ∧
      ⟨name, token, n⟩ ∈ m.issued
  | .named n name token =>
    n = m.startingToken ∧ m.cleared = n ∧ m.token = none ∧ m.name = some name ∧
      m.shmem = some ⟨name, none⟩ ∧
      ⟨name, token, n⟩ ∈ m.issued
  | .publish n name token =>
    n = m.startingToken ∧ m.cleared = n ∧ m.token = none ∧ m.name = some name ∧
      m.shmem = some ⟨name, some token⟩ ∧ ⟨name, token, n⟩ ∈ m.issued

/-- A call has taken the memory away and not yet the name and the token. -/
def Call.clearing : Call → Bool
  | .clearShmem _ _ => true
  | .entered _ | .claimed | .clear _ _ | .clearToken _ _ | .create _ | .created _ _ _
  | .named _ _ _ | .publish _ _ _ | .run _ | .failed _ | .returned => false

/-- What holds of the variables. -/
structure Shared.Ordered (m : Shared) : Prop where
  cleared : m.cleared ≤ m.startingToken
  issued : m.issued.Pairwise fun e e' => e.name ≠ e'.name ∧ e.token ≠ e'.token
  name : ∀ name, m.name = some name → ∃ e ∈ m.issued, e.name = name ∧ e.launch = m.cleared
  token : ∀ t, m.token = some t → ∃ name, m.name = some name ∧ ⟨name, t, m.cleared⟩ ∈ m.issued

/-- The name is that of the memory, and the token the one in it. -/
structure Shared.Whole (m : Shared) : Prop where
  name : ∀ name, m.name = some name → ∃ shmem, m.shmem = some shmem ∧ shmem.name = name
  consistent : m.Consistent

/-- What the server holds was issued with the name it holds. -/
def Server.Knows (m : Shared) : Server → Prop
  | .consumed token name | .restoreToken token name | .restoreShmem token name =>
    ∃ n launch, name = some n ∧ ⟨n, token, launch⟩ ∈ m.issued
  | .listening | .matched _ | .matchedShmem _ | .rejected => True

/-- There is one launch at a time, and everybody finds what they rely on. -/
structure State.Orderly (s : State) : Prop where
  once : s.Once
  one : s.calls.countP Call.inProgress ≤ 1
  starting : ∀ c ∈ s.calls, c.inProgress = true → s.mem.starting = true
  calls : ∀ c ∈ s.calls, c.Knows s.mem
  server : s.server.Knows s.mem
  ordered : s.mem.Ordered
  whole : (∀ c ∈ s.calls, c.clearing = false) → s.mem.Whole

theorem Shared.Ordered.ne (hm : m.Ordered) {e e' : Issued} (he : e ∈ m.issued) (he' : e' ∈ m.issued)
    (hne : e ≠ e') : e.name ≠ e'.name ∧ e.token ≠ e'.token := by
  have hsymm : Std.Symm fun e e' : Issued => e.name ≠ e'.name ∧ e.token ≠ e'.token :=
    ⟨fun _ _ h => ⟨Ne.symm h.1, Ne.symm h.2⟩⟩
  exact hm.issued.forall he he' hne

theorem Shared.Ordered.eq_of_name (hm : m.Ordered) {e e' : Issued} (he : e ∈ m.issued)
    (he' : e' ∈ m.issued) (hname : e.name = e'.name) : e = e' := by
  by_contra hne
  exact (hm.ne he he' hne).1 hname

theorem Shared.Ordered.current (hm : m.Ordered) : m.Current := by
  intro e he htoken
  obtain ⟨name, -, hissued⟩ := hm.token e.token htoken
  by_cases heq : e = ⟨name, e.token, m.cleared⟩
  · exact Nat.le_of_eq (congrArg Issued.launch heq).symm
  · exact absurd rfl (hm.ne he hissued heq).2

/-- What is known stays true while the variables it is about stay the same. -/
theorem Call.Knows.same {m m' : Shared} (h : m.SameMemory m') {c : Call} (hc : c.Knows m) :
    c.Knows m' := by
  obtain ⟨htoken, hshmem, hname, hstarting, hissued, hcleared⟩ := h
  cases c <;>
    simp only [Call.Knows, htoken, hshmem, hname, hstarting, hissued, hcleared] at hc ⊢ <;>
    exact hc

theorem Server.Knows.mono (h : m.issued ⊆ m'.issued) {c : Server} (hc : c.Knows m) :
    c.Knows m' := by
  cases c with
  | consumed | restoreToken | restoreShmem =>
    obtain ⟨n, launch, hname, hissued⟩ := hc
    exact ⟨n, launch, hname, h hissued⟩
  | listening | matched | matchedShmem | rejected => exact hc

theorem Shared.Ordered.same {m m' : Shared} (h : m.SameMemory m') (hm : m.Ordered) :
    m'.Ordered := by
  obtain ⟨htoken, hshmem, hname, hstarting, hissued, hcleared⟩ := h
  constructor
  · rw [hcleared, hstarting]
    exact hm.cleared
  · rw [hissued]
    exact hm.issued
  · rw [hname, hissued, hcleared]
    exact hm.name
  · rw [htoken, hname, hissued, hcleared]
    exact hm.token

theorem Shared.Whole.same {m m' : Shared} (h : m.SameMemory m') (hm : m.Whole) : m'.Whole := by
  obtain ⟨htoken, hshmem, hname, -⟩ := h
  constructor
  · rw [hname, hshmem]
    exact hm.name
  · rw [Shared.Consistent, htoken, hname, hshmem]
    exact hm.consistent

/-- A step of the call that is under way. -/
theorem Call.step_knows {free : Lock → Bool} {c' : Call} (h : c.Transition free m m' c')
    (hc : c.inProgress = true) (hknows : c.Knows m) (hm : m.Ordered)
    (hwhole : c.clearing = false → m.Whole) :
    c'.Knows m' ∧ m'.Ordered ∧ (c'.clearing = false → m'.Whole) ∧ m.issued ⊆ m'.issued := by
  cases h with
  | bail | claim => cases hc
  | number =>
    have hordered : Shared.Ordered { m with startingToken := m.startingToken + 1 } :=
      ⟨Nat.le_succ_of_le hm.cleared, hm.issued, hm.name, hm.token⟩
    exact ⟨rfl, hordered, fun _ => ⟨(hwhole rfl).name, (hwhole rfl).consistent⟩, List.Subset.refl _⟩
  | clear => exact ⟨hknows, hm, fun _ => hwhole rfl, List.Subset.refl _⟩
  | clearToken =>
    exact ⟨hknows, ⟨hm.cleared, hm.issued, hm.name, hm.token⟩, nofun, List.Subset.refl _⟩
  | @clearShmem n next =>
    have hn : n = m.startingToken := hknows
    have hcleared : max m.cleared n = n := Nat.max_eq_right (hn ▸ hm.cleared)
    refine ⟨?_, ⟨?_, hm.issued, nofun, nofun⟩, fun _ => ⟨nofun, nofun⟩, List.Subset.refl _⟩
    · cases next with
      | create => exact ⟨hn, hcleared, rfl, rfl⟩
      | failed => exact hn
    · exact Nat.le_of_eq (hcleared.trans hn)
  | @create n name token hfree hfresh =>
    obtain ⟨hn, hcleared, htoken, hname⟩ := hknows
    refine ⟨⟨hn, hcleared, htoken, hname, rfl, List.mem_cons_self⟩, ⟨hm.cleared, ?_, ?_, ?_⟩,
      fun _ => ⟨?_, ?_⟩,
      List.subset_cons_self _ _⟩
    · exact List.pairwise_cons.mpr ⟨fun e he => ⟨Ne.symm (hfresh e he).1, Ne.symm (hfresh e he).2⟩,
        hm.issued⟩
    · exact fun n hsome => absurd (hname.symm.trans hsome) nofun
    · exact fun t hsome => absurd (htoken.symm.trans hsome) nofun
    · exact fun n hsome => absurd (hname.symm.trans hsome) nofun
    · exact fun t hsome => absurd (htoken.symm.trans hsome) nofun
  | createFails | unnamed => exact ⟨hknows.1, hm, fun _ => hwhole rfl, List.Subset.refl _⟩
  | @setName n name token =>
    obtain ⟨hn, hcleared, htoken, -, hshmem, hissued⟩ := hknows
    refine ⟨⟨hn, hcleared, htoken, rfl, hshmem, hissued⟩, ⟨hm.cleared, hm.issued, ?_, ?_⟩,
      fun _ => ⟨?_, ?_⟩,
      List.Subset.refl _⟩
    · rintro _ ⟨⟩
      exact ⟨_, hissued, rfl, hcleared.symm⟩
    · exact fun t hsome => absurd (htoken.symm.trans hsome) nofun
    · rintro _ ⟨⟩
      exact ⟨_, hshmem, rfl⟩
    · exact fun t hsome => absurd (htoken.symm.trans hsome) nofun
  | @writeToken n name token =>
    obtain ⟨hn, hcleared, htoken, hname, hshmem, hissued⟩ := hknows
    have hwritten : m.shmem.map (fun shmem => { shmem with token := some token }) =
        some ⟨name, some token⟩ := by
      rw [hshmem]
      rfl
    refine ⟨⟨hn, hcleared, htoken, hname, hwritten, hissued⟩,
      ⟨hm.cleared, hm.issued, hm.name, hm.token⟩,
      fun _ => ⟨fun n hsome => ⟨_, hwritten, ?_⟩, ?_⟩, List.Subset.refl _⟩
    · exact Option.some.inj (hname.symm.trans hsome)
    · exact fun t hsome => absurd (htoken.symm.trans hsome) nofun
  | @writeFails n name token =>
    obtain ⟨hn, -, htoken, hname, hshmem, -⟩ := hknows
    refine ⟨hn, ⟨hm.cleared, hm.issued, hm.name, hm.token⟩, fun _ => ⟨fun n hsome => ?_, ?_⟩,
      List.Subset.refl _⟩
    · refine ⟨⟨name, none⟩, ?_, Option.some.inj (hname.symm.trans hsome)⟩
      change m.shmem.map _ = _
      rw [hshmem]
      rfl
    · exact fun t hsome => absurd (htoken.symm.trans hsome) nofun
  | @setToken n name token hfree =>
    obtain ⟨hn, hcleared, -, hname, hshmem, hissued⟩ := hknows
    refine ⟨hn, ⟨hm.cleared, hm.issued, hm.name, ?_⟩, fun _ => ⟨(hwhole rfl).name, ?_⟩,
      List.Subset.refl _⟩
    · rintro _ ⟨⟩
      exact ⟨name, hname, hcleared.symm ▸ hissued⟩
    · rintro _ ⟨⟩
      exact ⟨_, hshmem, hname, rfl⟩
  | launched | reset =>
    exact ⟨True.intro, @Shared.Ordered.same m _ ⟨rfl, rfl, rfl, rfl, rfl, rfl⟩ hm,
      fun _ => @Shared.Whole.same m _ ⟨rfl, rfl, rfl, rfl, rfl, rfl⟩ (hwhole rfl),
        List.Subset.refl _⟩
  | launchFails | noProgram => exact ⟨hknows, hm, fun _ => hwhole rfl, List.Subset.refl _⟩

/-- The variables after a step of the server. It must hold the memory when it changes it. -/
theorem Server.step_knows {free : Lock → Bool} {c c' : Server} (h : c.Transition free m m' c')
    (hcompared : ∀ t, c.compared = some t → m.token = some t) (hknows : c.Knows m) (hm : m.Ordered)
    (hwhole : c.holds .shmem = true → m.Whole) :
    c'.Knows m' ∧ m'.Ordered ∧ (m.Whole → m'.Whole) := by
  cases h with
  | deny | auth => exact ⟨True.intro, hm, id⟩
  | lockShmem => exact ⟨True.intro, hm, id⟩
  | @consume t =>
    have htoken := hcompared t rfl
    obtain ⟨name, hname, hissued⟩ := hm.token t htoken
    refine ⟨⟨name, _, hname, hissued⟩, ⟨hm.cleared, hm.issued, hm.name, nofun⟩,
      fun hwhole => ⟨fun n hsome => ?_, nofun⟩⟩
    obtain ⟨shmem, hshmem, hn⟩ := hwhole.name n hsome
    refine ⟨{ shmem with token := none }, ?_, hn⟩
    change m.shmem.map _ = _
    rw [hshmem]
    rfl
  | accept | reset =>
    exact ⟨True.intro, @Shared.Ordered.same m _ ⟨rfl, rfl, rfl, rfl, rfl, rfl⟩ hm,
      @Shared.Whole.same m _ ⟨rfl, rfl, rfl, rfl, rfl, rfl⟩⟩
  | skip => exact ⟨True.intro, hm, id⟩
  | refuse | restoreToken => exact ⟨hknows, hm, id⟩
  | @restore t shmem hshmem =>
    -- the name is still that of the memory the token was made for, so no launch has cleared the
    -- state since
    obtain ⟨name, launch, hname, hissued⟩ := hknows
    obtain ⟨e, he, hen, hlaunch⟩ := hm.name name hname
    obtain rfl : e = ⟨name, t, launch⟩ := hm.eq_of_name he hissued hen
    obtain ⟨shmem', hshmem', hn⟩ := (hwhole rfl).name name hname
    obtain rfl := Option.some.inj (hshmem.symm.trans hshmem')
    refine ⟨True.intro, ⟨hm.cleared, hm.issued, hm.name, ?_⟩, fun _ => ⟨fun n hsome => ?_, ?_⟩⟩
    · rintro _ ⟨⟩
      exact ⟨name, hname, hlaunch ▸ hissued⟩
    · exact ⟨_, rfl, hn.trans (Option.some.inj (hname.symm.trans hsome))⟩
    · rintro _ ⟨⟩
      exact ⟨_, rfl, hname.trans (congrArg some hn.symm), rfl⟩
  | @drop t name =>
    have hkept : ∀ t', m.token.filter (· ≠ t) = some t' → m.token = some t' := fun t' h =>
      (Option.filter_eq_some_iff.mp h).1
    refine ⟨True.intro, ⟨hm.cleared, hm.issued, hm.name, fun t' h => hm.token t' (hkept t' h)⟩,
      fun hwhole => ⟨hwhole.name, fun t' h => hwhole.consistent t' (hkept t' h)⟩⟩

/-- A call that is under way does not notice a step of the server: the tokens the server touches are
not the one that is about to be published. -/
theorem Call.knows_server {free : Lock → Bool} {c c' : Server} (h : c.Transition free m m' c')
    (hcompared : ∀ t, c.compared = some t → m.token = some t) (hknows : c.Knows m) (hm : m.Ordered)
    {d : Call} (hd : d.Knows m) (hplaces : ∀ t, c.keeps t = true → d.keeps t = false) :
    d.Knows m' := by
  cases h with
  | deny | auth | lockShmem | skip | refuse | restoreToken => exact hd
  | accept | reset => exact @Call.Knows.same m _ ⟨rfl, rfl, rfl, rfl, rfl, rfl⟩ d hd
  | @consume t =>
    have htoken := hcompared t rfl
    cases d with
    | create | created | named | publish => exact absurd (htoken.symm.trans hd.2.2.1) nofun
    | entered | claimed | returned | clear | clearToken | clearShmem | run | failed => exact hd
  | @restore t shmem hshmem =>
    obtain ⟨name, launch, hname, hissued⟩ := hknows
    have hkeeps : Server.keeps t (.restoreShmem t m.name) = true := decide_eq_true rfl
    cases d with
    | create => exact absurd (hname.symm.trans hd.2.2.2) nofun
    | created => exact absurd (hname.symm.trans hd.2.2.2.1) nofun
    | named n name' token | publish n name' token =>
      obtain ⟨-, -, -, hname', -, hissued'⟩ := hd
      obtain rfl := Option.some.inj (hname.symm.trans hname')
      cases hm.eq_of_name hissued hissued' rfl
      exact absurd ((hplaces _ hkeeps).symm.trans (decide_eq_true rfl)) nofun
    | entered | claimed | returned | clear | clearToken | clearShmem | run | failed => exact hd
  | @drop t name =>
    cases d with
    | create | created | named | publish =>
      obtain ⟨hn, hcleared, htoken, hrest⟩ := hd
      refine ⟨hn, hcleared, ?_, hrest⟩
      change m.token.filter _ = none
      rw [htoken]
      rfl
    | entered | claimed | returned | clear | clearToken | clearShmem | run | failed => exact hd

theorem Call.Knows.of_idle (h : c.inProgress = false) : c.Knows m := by
  cases c <;> first | exact True.intro | cases h

theorem Call.clearing_of_idle (h : c.inProgress = false) : c.clearing = false := by
  cases c <;> first | rfl | cases h

theorem Call.holds_of_clearing (h : c.clearing = true) : c.holds .shmem = true := by
  cases c <;> first | rfl | cases h

/-- A call that is under way leaves `STARTING` alone until it gives up. -/
theorem Call.step_starting {free : Lock → Bool} {c' : Call} (h : c.Transition free m m' c')
    (hc : c.inProgress = true) (hc' : c'.inProgress = true) : m'.starting = m.starting := by
  cases h with
  | bail | claim => cases hc
  | reset => cases hc'
  | number | clear | clearToken | clearShmem | create | createFails | setName | writeToken | unnamed
    | writeFails
  | setToken | launched | launchFails | noProgram => rfl

/-- Who claims `STARTING` while it is set resets it. -/
theorem State.resets_of_stale {i : ℕ} {running : Bool} (hi : s.calls[i]? = some (.entered running))
    (hstep : (Call.entered running).step s.free s.mem choice = some (m, c))
    (hstarting : s.mem.starting = true) (hrunning : running = false)
    (hhelpers : s.mem.helpers = 0) : s.resets (.call i choice) = true := by
  cases choice with
  | go =>
    rw [State.resets, hi]
    simp [hstarting, hrunning, hhelpers]
  | create | fail => cases hstep

theorem Server.resets_of_rejected {c : Server} (hs : s.server = .rejected)
    (hstep : s.server.step s.free s.mem reply = some (m, c)) : s.resets (.server reply) = true := by
  rw [hs] at hstep
  cases reply with
  | go => exact decide_eq_true hs
  | auth | accept | refuse | fail => cases hstep

theorem Server.step_starting {free : Lock → Bool} {c c' : Server} (h : c.Transition free m m' c') :
    m'.starting = m.starting ∨ c = .rejected := by
  cases h with
  | reset => exact .inr rfl
  | deny | auth | lockShmem | consume | accept | skip | refuse | restoreToken | restore | drop =>
    exact .inl rfl

/-- A launch that is under way goes on. -/
theorem State.Orderly.step_inProgress (hs : s.Orderly) {i : ℕ} {c' : Call}
    (hi : s.calls[i]? = some c) (htrans : c.Transition s.free s.mem m c')
    (hc : c.inProgress = true) (honce : State.Once ⟨m, s.calls.set i c', s.server⟩) :
    State.Orderly ⟨m, s.calls.set i c', s.server⟩ := by
  have hmem : c ∈ s.calls := List.mem_of_getElem? hi
  have hcount := countP_step (p := Call.inProgress) hi c'
  have hone := hs.one
  -- the others are idle
  have hidle : ∀ d, (∃ j, j ≠ i ∧ s.calls[j]? = some d) → d.inProgress = false := by
    rintro d ⟨j, hne, hj⟩
    by_contra hd
    rw [Bool.not_eq_false] at hd
    exact hne (countP_le_one_index hs.one hj hd hi hc)
  have hwhole : c.clearing = false → s.mem.Whole := by
    refine fun hclear => hs.whole fun d hd => ?_
    obtain ⟨j, hj⟩ := List.mem_iff_getElem?.mp hd
    by_cases hij : j = i
    · rw [hij, hi] at hj
      exact Option.some.inj hj ▸ hclear
    · exact Call.clearing_of_idle (hidle d ⟨j, hij, hj⟩)
  obtain ⟨hknows, hordered, hwhole', hissued⟩ :=
    Call.step_knows htrans hc (hs.calls c hmem) hs.ordered hwhole
  refine ⟨honce, ?_, fun d hd hprogress => ?_, fun d hd => ?_, hs.server.mono hissued, hordered,
    fun hclear => ?_⟩
  · have hle := Bool.toNat_le c'.inProgress
    rw [hc, Bool.toNat_true] at hcount
    change (s.calls.set i c').countP Call.inProgress ≤ 1
    omega
  · rcases mem_step hd with rfl | hother
    · exact (Call.step_starting htrans hc hprogress).trans (hs.starting c hmem hc)
    · rw [hidle d hother] at hprogress
      cases hprogress
  · rcases mem_step hd with rfl | hother
    · exact hknows
    · exact .of_idle (hidle d hother)
  · have hlt := (List.getElem?_eq_some_iff.mp hi).1
    exact hwhole' (hclear c' (List.mem_set hlt c'))

/-- A step of a call keeps the order. -/
theorem State.Orderly.step_call (hs : s.Orderly) {i : ℕ} (hquiet : s.Undisturbed (.call i choice))
    {c' : Call} (hi : s.calls[i]? = some c) (hstep : c.step s.free s.mem choice = some (m, c'))
    (honce : State.Once ⟨m, s.calls.set i c', s.server⟩) :
    State.Orderly ⟨m, s.calls.set i c', s.server⟩ := by
  have htrans := Call.step_transition hstep
  have hcount := countP_step (p := Call.inProgress) hi c'
  have hone := hs.one
  cases hc : c.inProgress with
  | true => exact hs.step_inProgress hi htrans hc honce
  | false =>
    rw [hc, Bool.toNat_false] at hcount
    -- the other calls, and this one before the step
    have hothers : ∀ d, d ∈ s.calls.set i c' → d = c' ∨ d ∈ s.calls := fun d hd =>
      (mem_step hd).imp_right fun ⟨_, _, hj⟩ => List.mem_of_getElem? hj
    have hclear : (∀ d ∈ s.calls.set i c', d.clearing = false) →
        ∀ d ∈ s.calls, d.clearing = false := by
      intro h d hd
      obtain ⟨j, hj⟩ := List.mem_iff_getElem?.mp hd
      by_cases hij : i = j
      · rw [← hij, hi] at hj
        exact Option.some.inj hj ▸ Call.clearing_of_idle hc
      · refine h d (List.mem_of_getElem? (i := j) ?_)
        rw [List.getElem?_set_ne hij, hj]
    cases htrans with
    | bail =>
      refine ⟨honce, ?_, fun d hd hprogress => ?_, fun d hd => ?_, hs.server, hs.ordered,
        fun h => hs.whole (hclear h)⟩
      · exact Nat.le_trans (Nat.le_of_eq hcount) hone
      · rcases hothers d hd with rfl | hd
        · cases hprogress
        · exact hs.starting d hd hprogress
      · rcases hothers d hd with rfl | hd
        · exact True.intro
        · exact hs.calls d hd
    | @claim running hfree hstale =>
      -- nobody is under way: either `STARTING` is not set, or the stale state is allowed to be
      -- reset
      have hnone : ∀ d ∈ s.calls, d.inProgress = false := by
        intro d hd
        by_contra hprogress
        rw [Bool.not_eq_false] at hprogress
        have hstarting := hs.starting d hd hprogress
        obtain ⟨hrunning, hhelpers⟩ := hstale hstarting
        have hall := hquiet (State.resets_of_stale hi hstep hstarting hrunning hhelpers)
        have hd' := List.all_eq_true.mp hall d hd
        rw [hprogress] at hd'
        cases hd'
      have hzero : s.calls.countP Call.inProgress = 0 := List.countP_eq_zero.mpr fun d hd => by
        simp [hnone d hd]
      have hsame : s.mem.SameMemory { s.mem with starting := true } :=
        ⟨rfl, rfl, rfl, rfl, rfl, rfl⟩
      refine ⟨honce, ?_, fun d hd _ => rfl, fun d hd => ?_, hs.server.mono (List.Subset.refl _),
        hs.ordered.same hsame,
        fun h => (hs.whole (hclear h)).same hsame⟩
      · change (s.calls.set i .claimed).countP Call.inProgress ≤ 1
        rw [hzero] at hcount
        exact Nat.le_of_eq hcount
      · rcases hothers d hd with rfl | hd
        · exact True.intro
        · exact .of_idle (hnone d hd)
    | number | clear | clearToken | clearShmem | create | createFails | setName | writeToken
      | unnamed | writeFails
    | setToken | launched | launchFails | noProgram | reset => cases hc

/-- So does a step of the server. -/
theorem State.Orderly.step_server (hs : s.Orderly) (hquiet : s.Undisturbed (.server reply))
    {server : Server} (hstep : s.server.step s.free s.mem reply = some (m, server))
    (honce : State.Once ⟨m, s.calls, server⟩) : State.Orderly ⟨m, s.calls, server⟩ := by
  have htrans := Server.step_transition hstep
  have hwhole : s.server.holds .shmem = true → s.mem.Whole := by
    refine fun hserver => hs.whole fun d hd => ?_
    obtain ⟨j, hj⟩ := List.mem_iff_getElem?.mp hd
    by_contra hclear
    rw [Bool.not_eq_false] at hclear
    have hnot := hs.once.exclusive.server_call hserver hj
    rw [Call.holds_of_clearing hclear] at hnot
    cases hnot
  obtain ⟨hknows, hordered, hwhole'⟩ :=
    Server.step_knows htrans hs.once.compared hs.server hs.ordered hwhole
  refine ⟨honce, hs.one, fun d hd hprogress => ?_, fun d hd => ?_, hknows, hordered,
    fun h => hwhole' (hs.whole h)⟩
  · rcases Server.step_starting htrans with hkept | hrejected
    · exact hkept.trans (hs.starting d hd hprogress)
    · have hd' := List.all_eq_true.mp (hquiet (Server.resets_of_rejected hrejected hstep)) d hd
      rw [hprogress] at hd'
      cases hd'
  · refine Call.knows_server htrans hs.once.compared hs.server hs.ordered (hs.calls d hd)
      fun t hkeeps => ?_
    -- a token is in one place only
    by_contra hd'
    rw [Bool.not_eq_false] at hd'
    have hpos : 0 < s.calls.countP (·.keeps t) := List.countP_pos_iff.mpr ⟨d, hd, hd'⟩
    have hplaces := hs.once.places t
    have hissued := Bool.toNat_le (s.mem.issued.any fun e => e.token = t)
    rw [State.places, hkeeps, Bool.toNat_true] at hplaces
    rw [Shared.wasIssued] at hplaces
    omega

/-- **A step that disturbs nobody keeps the order.** -/
theorem State.Orderly.step (hs : s.Orderly) (hquiet : s.Undisturbed a) (h : s.step a = some s') :
    s'.Orderly := by
  have honce := hs.once.step h
  cases State.step_transition h with
  | call ha hi hstep =>
    subst ha
    exact hs.step_call hquiet hi hstep honce
  | server ha hstep =>
    subst ha
    exact hs.step_server hquiet hstep honce
  | start =>
    have hmem : ∀ d ∈ s.calls ++ [Call.entered s.mem.running], d ∈ s.calls ∨
        d = .entered s.mem.running := fun d hd =>
      (List.mem_append.mp hd).imp_right List.mem_singleton.mp
    refine ⟨honce, ?_, fun d hd hprogress => ?_, fun d hd => ?_, hs.server, hs.ordered,
      fun hclear => ?_⟩
    · change (s.calls ++ [_]).countP Call.inProgress ≤ 1
      rw [List.countP_append]
      exact hs.one
    · rcases hmem d hd with hd | rfl
      · exact hs.starting d hd hprogress
      · cases hprogress
    · rcases hmem d hd with hd | rfl
      · exact hs.calls d hd
      · exact True.intro
    · exact hs.whole fun d hd => hclear d (List.mem_append_left _ hd)
  | other hsame hauthenticated hstarting =>
    refine ⟨honce, hs.one, fun d hd hprogress => ?_, fun d hd => (hs.calls d hd).same hsame, ?_,
      hs.ordered.same hsame,
      fun hclear => (hs.whole hclear).same hsame⟩
    · rcases hstarting with hkept | ⟨-, hresets⟩
      · exact hkept.trans (hs.starting d hd hprogress)
      · have hd' := List.all_eq_true.mp (hquiet hresets) d hd
        rw [hprogress] at hd'
        cases hd'
    · exact hs.server.mono (hsame.2.2.2.2.1 ▸ List.Subset.refl _)

/-! ## Runs -/

theorem State.start_orderly : State.start.Orderly :=
  ⟨start_once, Nat.zero_le _, nofun, nofun, True.intro,
    ⟨Nat.le_refl _, List.Pairwise.nil, nofun, nofun⟩,
    fun _ => ⟨nofun, nofun⟩⟩

theorem State.Orderly.consistent (hs : s.Orderly) (hidle : s.calls.all (!·.inProgress) = true) :
    s.mem.Consistent := by
  refine (hs.whole fun d hd => Call.clearing_of_idle ?_).consistent
  have hd' := List.all_eq_true.mp hidle d hd
  rwa [Bool.not_eq_true'] at hd'

/-- In every run a token is accepted once. If `STARTING` is reset for another call only while none
is in progress, there is at most one call in progress; between calls and handshakes the runtime
token is the one in the memory of the runtime name; and it was not made for a launch before one that
has cleared the state. -/
theorem launch_token {acts : List Act} {s : State} (hrun : exec State.step .start acts = some s) :
    s.mem.authenticated.Nodup ∧
    (Along State.step State.Undisturbed .start acts →
      s.calls.countP Call.inProgress ≤ 1 ∧
      (s.calls.all (!·.inProgress) = true → s.server = .listening → s.mem.Consistent) ∧
      s.mem.Current) := by
  refine ⟨(exec_once hrun).authenticated, fun halong => ?_⟩
  have hs : s.Orderly :=
    exec_invariant_along (fun _ _ _ hs hquiet hstep => hs.step hquiet hstep)
      State.start_orderly halong hrun
  exact ⟨hs.one, fun hidle _ => hs.consistent hidle, hs.ordered.current⟩

/-- A launch, and a handshake that fails and one that does not. -/
theorem launch_token_one :
    ∃ s, exec State.step .start (.start :: .call 0 .go :: .call 0 .go :: .call 0 .go ::
      .call 0 .go :: .call 0 .go ::
        .call 0 (.create "n" "t") :: .call 0 .go :: .call 0 .go :: .call 0 .go :: .call 0 .go ::
          .server (.auth "t") ::
        .server .go :: .server .go :: .server .refuse :: .server .go :: .server .go ::
          .server .go ::
        .server (.auth "t") :: .server .go :: .server .go :: .server .accept :: .connect :: .pong ::
          .settle :: []) = some s ∧
      s.mem.authenticated = ["t"] ∧ s.mem.authenticated.Nodup ∧
        s.calls.countP Call.inProgress ≤ 1 := by
  have hrun :
    ((exec State.step .start (.start :: .call 0 .go :: .call 0 .go :: .call 0 .go :: .call 0 .go ::
      .call 0 .go ::
      .call 0 (.create "n" "t") :: .call 0 .go :: .call 0 .go :: .call 0 .go :: .call 0 .go ::
        .server (.auth "t") ::
      .server .go :: .server .go :: .server .refuse :: .server .go :: .server .go :: .server .go ::
      .server (.auth "t") :: .server .go :: .server .go :: .server .accept :: .connect :: .pong ::
        .settle :: [])).any fun s =>
      s.mem.authenticated = ["t"]) = true := by decide +kernel
  obtain ⟨s, hs, hauthenticated⟩ := (Option.any_eq_true _ _).mp hrun
  obtain ⟨hnodup, hrest⟩ := launch_token hs
  exact ⟨s, hs, of_decide_eq_true hauthenticated, hnodup, (hrest (by decide +kernel)).1⟩

/-- While a call prepares its launch there is no helper process, so a second call resets `STARTING`
and goes on as well. In the end the token is that of the first launch, and the memory that of the
second. -/
theorem launches_overlap :
    ∃ s s', exec State.step .start (.start :: .call 0 .go :: .call 0 .go :: .call 0 .go ::
      .call 0 .go :: .call 0 .go ::
        .call 0 (.create "n" "t") :: .call 0 .go :: .call 0 .go :: .start :: .call 1 .go :: []) =
          some s ∧
      s.calls.countP Call.inProgress = 2 ∧
      exec State.step s (.call 1 .go :: .call 1 .go :: .call 1 .go :: .call 1 .go ::
        .call 1 (.create "n'" "t'") ::
        .call 1 .go :: .call 1 .go :: .call 1 .go :: .call 0 .go :: .call 0 .go :: .call 1 .go ::
          []) = some s' ∧
      s'.calls.all (!·.inProgress) = true ∧ s'.server = .listening ∧ ¬s'.mem.Consistent ∧
        ¬s'.mem.Current := by
  have hrun :
    ((exec State.step .start (.start :: .call 0 .go :: .call 0 .go :: .call 0 .go :: .call 0 .go ::
      .call 0 .go ::
      .call 0 (.create "n" "t") :: .call 0 .go :: .call 0 .go :: .start :: .call 1 .go :: [])).any
        fun s =>
      s.calls.countP Call.inProgress = 2 ∧
        (exec State.step s (.call 1 .go :: .call 1 .go :: .call 1 .go :: .call 1 .go ::
        .call 1 (.create "n'" "t'") :: .call 1 .go :: .call 1 .go :: .call 1 .go :: .call 0 .go ::
          .call 0 .go ::
        .call 1 .go :: [])).any fun s' =>
      s'.calls.all (!·.inProgress) = true ∧ s'.server = .listening ∧ s'.mem.token = some "t" ∧
        s'.mem.shmem = some ⟨"n'", some "t'"⟩ ∧ s'.mem.issued = [⟨"n'", "t'", 2⟩, ⟨"n", "t", 1⟩] ∧
        s'.mem.cleared = 2) = true := by decide +kernel
  obtain ⟨s, hs, hstate⟩ := (Option.any_eq_true _ _).mp hrun
  obtain ⟨htwo, hrun'⟩ := of_decide_eq_true hstate
  obtain ⟨s', hs', hstate'⟩ := (Option.any_eq_true _ _).mp hrun'
  obtain ⟨hidle, hlistening, htoken, hshmem, hissued, hcleared⟩ := of_decide_eq_true hstate'
  refine ⟨s, s', hs, htwo, hs', hidle, hlistening, fun hconsistent => ?_, fun hcurrent => ?_⟩
  · obtain ⟨shmem, hmem, -, htoken'⟩ := hconsistent "t" htoken
    obtain rfl := Option.some.inj (hshmem.symm.trans hmem)
    exact absurd htoken' (by decide)
  · have hle := hcurrent ⟨"n", "t", 1⟩ (by simp [hissued]) htoken
    rw [hcleared] at hle
    exact absurd hle (by decide)

end PortableService
end BgDesk
