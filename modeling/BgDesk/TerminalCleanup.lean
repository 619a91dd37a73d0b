import Mathlib.Data.List.AList
import Mathlib.Data.List.GetD
import BgDesk.Machine

/-!
# Terminals that have ended

The clean-up of `read_outputs` in `server/terminal_service.rs`, together with `handle_open` and
`handle_close`. A poll collects the sessions, looks at each of them under its own lock and marks
those whose shell has ended; then it takes a copy of the map and looks the marked ones up again, by
their number. In between, clients may open and close terminals, and an open after a reconnect may
move a session to another number.

* `serviceStep` — one critical section under the lock of the service or of a session at a time;
* `Service.Cleaned` — what the clean-up is for;
* `undisturbed` — the numbers still stand for the sessions that were marked, when the clean-up uses
  them;
* `cleanup_exact` — a run in which they do removes the dead sessions and no others.
-/

namespace BgDesk
namespace Terminal

/-- `sessions`: the session under each terminal number. A session is the allocation behind its
`Arc`. -/
abbrev SessionMap : Type := AList (fun _ : ℤ => ℕ)

/-- The sessions in the map. -/
def SessionMap.sessions (m : SessionMap) : List ℕ := m.entries.map Sigma.snd

/-- What the clean-up reads and writes of a session. -/
structure Shell where
  child : Bool
  closedMessageSent : Bool
  deriving DecidableEq

/-- How far a poll is: the sessions it has yet to look at; its copy of the map, the terminals it has
yet to clean up, and, between the two critical sections of one, the session and the exit code; done.
A terminal is listed with the session that was marked under it, which the code does not keep. -/
inductive PollPhase where
  | processing (todo : List (ℤ × ℕ))
  | cleaning (copy : SessionMap) (todo : List (ℤ × ℕ)) (midway : Option (ℕ × ℤ))
  | done
  deriving DecidableEq

/-- A call of `read_outputs`: its `closed_terminals`, what it has removed from the map and whose
child it has taken, and its `TerminalClosed` responses. -/
structure Poll where
  isPersistent : Bool
  phase : PollPhase
  closedTerminals : List (ℤ × ℕ)
  removed : List ℕ
  tookChild : List ℕ
  responses : List (ℤ × ℤ)
  deriving DecidableEq

/-- The service, the sessions that were ever made, and the latest poll. -/
structure Service where
  sessions : SessionMap
  needsSessionSync : Bool
  shells : List Shell
  poll : Option Poll
  deriving DecidableEq

def Service.new : Service := ⟨∅, false, [], none⟩

/-- The critical sections of a poll. `process` has what `is_finished` and `try_wait` say, the others
the exit status, if there is one. -/
inductive PollAct where
  | busy
  | process (readerFinished exited : Bool)
  | copySessions
  | clean (status : Option ℤ)
  | finish (status : Option ℤ)
  deriving DecidableEq

inductive ServiceAct where
  | collect (isPersistent : Bool) (order : List (ℤ × ℕ))
  | poll (act : PollAct)
  | handleOpen (terminalId : ℤ) (spawns : Bool)
  | handleClose (terminalId : ℤ)
  | resetStatus
  deriving DecidableEq

def Service.shell (s : Service) (x : ℕ) : Shell := s.shells.getD x ⟨false, false⟩

/-- The child of a session is taken, if it is there; with the exit code. -/
def Service.takeChild (s : Service) (p : Poll) (x : ℕ) (status : Option ℤ) :
    List Shell × List ℕ × ℤ :=
  if (s.shell x).child then
    (s.shells.set x { s.shell x with child := false }, p.tookChild ++ [x], status.getD 0)
  else (s.shells, p.tookChild, 0)

/-- A terminal is done with, and answered. -/
def Poll.next (p : Poll) (copy : SessionMap) (terminalId : ℤ) (exitCode : ℤ) (todo : List (ℤ × ℕ)) :
    Poll :=
  { p with
    phase := if todo = [] then .done else .cleaning copy todo none
    responses := p.responses ++ [(terminalId, exitCode)] }

/-- One critical section of a poll. -/
def pollStep (s : Service) (p : Poll) : PollAct → Option Service
  | .busy =>
    match p.phase with
    | .processing (_ :: todo) => some { s with poll := some { p with phase := .processing todo } }
    | _ => none
  | .process readerFinished exited =>
    match p.phase with
    | .processing ((terminalId, x) :: todo) =>
      let shell := s.shell x
      if !shell.closedMessageSent && (readerFinished || (shell.child && exited)) then
        some { s with
          shells := s.shells.set x { shell with closedMessageSent := true }
          poll := some { p with
            phase := .processing todo
            closedTerminals := p.closedTerminals ++ [(terminalId, x)] } }
      else some { s with poll := some { p with phase := .processing todo } }
    | _ => none
  | .copySessions =>
    match p.phase with
    | .processing [] =>
      some { s with poll := some { p with
        phase :=
          if p.closedTerminals = [] then .done else .cleaning s.sessions p.closedTerminals none } }
    | _ => none
  | .clean status =>
    match p.phase with
    | .cleaning copy ((terminalId, marked) :: todo) none =>
      match copy.lookup terminalId with
      | none => some { s with poll := some (p.next copy terminalId 0 todo) }
      | some x =>
        if p.isPersistent then
          let (shells, tookChild, exitCode) := s.takeChild p x status
          let p := { p with tookChild := tookChild }
          let s := { s with shells := shells }
          if (s.shell x).closedMessageSent then
            some { s with poll := some { p with
              phase := .cleaning copy ((terminalId, marked) :: todo) (some (x, exitCode)) } }
          else some { s with poll := some (p.next copy terminalId exitCode todo) }
        else
          some { s with
            sessions := s.sessions.erase terminalId
            poll := some { p with
              phase := .cleaning (copy.erase terminalId) ((terminalId, marked) :: todo)
                (some (x, 0))
              removed := p.removed ++ (s.sessions.lookup terminalId).toList } }
    | _ => none
  | .finish status =>
    match p.phase with
    | .cleaning copy ((terminalId, _) :: todo) (some (x, exitCode)) =>
      if p.isPersistent then
        some { s with
          sessions := s.sessions.erase terminalId
          poll :=
            some (Poll.next { p with removed := p.removed ++ (s.sessions.lookup terminalId).toList }
            (copy.erase terminalId) terminalId exitCode todo) }
      else
        let (shells, tookChild, exitCode) := s.takeChild p x status
        some { s with
          shells := shells
          poll := some (Poll.next { p with tookChild := tookChild } copy terminalId exitCode todo) }
    | _ => none

/-- `handle_open`: the session with the lowest number is moved, the first time after a reconnect;
then the terminal is there, or a shell is spawned. -/
def Service.handleOpen (s : Service) (terminalId : ℤ) (spawns : Bool) : Service :=
  let sessions :=
    if terminalId ∉ s.sessions ∧ s.needsSessionSync then
      match s.sessions.keys.min? with
      | none => s.sessions
      | some lowestId =>
        match s.sessions.lookup lowestId with
        | none => s.sessions
        | some x => (s.sessions.erase lowestId).insert terminalId x
    else s.sessions
  if terminalId ∈ sessions then { s with sessions := sessions, needsSessionSync := false }
  else if spawns then
    { s with
      sessions := sessions.insert terminalId s.shells.length
      needsSessionSync := false
      shells := s.shells ++ [⟨true, false⟩] }
  else s

/-- `handle_close`. -/
def Service.handleClose (s : Service) (terminalId : ℤ) : Service :=
  match s.sessions.lookup terminalId with
  | none => s
  | some x =>
    { s with
      sessions := s.sessions.erase terminalId, shells :=
        s.shells.set x { s.shell x with child := false } }

/-- The poll is between two calls. -/
def Service.idle (s : Service) : Bool :=
  match s.poll with
  | none => true
  | some p => p.phase = .done

def serviceStep (s : Service) : ServiceAct → Option Service
  | .collect isPersistent order =>
    -- the map is iterated in any order
    if s.idle ∧ order.Perm (s.sessions.entries.map fun e => (e.1, e.2)) then
      some { s with poll := some ⟨isPersistent, .processing order, [], [], [], []⟩ }
    else none
  | .poll act => s.poll.bind fun p => pollStep s p act
  | .handleOpen terminalId spawns => some (s.handleOpen terminalId spawns)
  | .handleClose terminalId => some (s.handleClose terminalId)
  | .resetStatus => some { s with needsSessionSync := true }

/-! ## What the clean-up is for -/

/-- **Exactly the dead sessions**: what a poll has removed or taken the child of, it had found
ended; and once it is through, what it found ended is not in the map. -/
def Service.Cleaned (s : Service) : Prop :=
  ∀ p, s.poll = some p →
    (∀ x ∈ p.removed ++ p.tookChild, x ∈ p.closedTerminals.map Prod.snd) ∧
      (p.phase = .done → ∀ x ∈ p.closedTerminals.map Prod.snd, x ∉ s.sessions.sessions)

instance Service.Cleaned.decidable (s : Service) : Decidable s.Cleaned :=
  match h : s.poll with
  | none => isTrue fun _ hp => absurd (h.symm.trans hp) nofun
  | some p =>
    decidable_of_iff ((∀ x ∈ p.removed ++ p.tookChild, x ∈ p.closedTerminals.map Prod.snd) ∧
        (p.phase = .done → ∀ x ∈ p.closedTerminals.map Prod.snd, x ∉ s.sessions.sessions))
      ⟨fun hp _ hq => Option.some.inj (h.symm.trans hq) ▸ hp, fun hs => hs p h⟩

/-- The number stands for the session that was marked under it, or for none and the session has left
the map. -/
def aligned (m : SessionMap) (entry : ℤ × ℕ) : Bool :=
  m.lookup entry.1 = some entry.2 ∨ m.lookup entry.1 = none ∧ entry.2 ∉ m.sessions

/-- The numbers that the clean-up is about to use, for its copy of the map or for a removal, are
aligned. -/
def undisturbed (s : Service) : ServiceAct → Bool
  | .poll act =>
    match s.poll with
    | none => true
    | some p =>
      match act, p.phase with
      | .copySessions, .processing [] => p.closedTerminals.all (aligned s.sessions)
      | .clean _, .cleaning copy (entry :: _) none =>
        p.isPersistent || (copy.lookup entry.1).isNone || aligned s.sessions entry
      | .finish _, .cleaning _ (entry :: _) (some _) => !p.isPersistent || aligned s.sessions entry
      | _, _ => true
  | _ => true

/-! ## The map -/

theorem mem_sessions {m : SessionMap} {x : ℕ} : x ∈ m.sessions ↔ ∃ id, m.lookup id = some x := by
  constructor
  · intro hx
    obtain ⟨e, he, rfl⟩ := List.mem_map.mp hx
    exact ⟨e.1, AList.mem_lookup_iff.mpr he⟩
  · rintro ⟨id, hid⟩
    exact List.mem_map.mpr ⟨⟨id, x⟩, AList.mem_lookup_iff.mp hid, rfl⟩

/-- Each session is under one number. -/
def SessionMap.Distinct (m : SessionMap) : Prop :=
  ∀ i j x, m.lookup i = some x → m.lookup j = some x → i = j

section Map

variable {m : SessionMap} {i j : ℤ} {x : ℕ}

theorem lookup_of_erase (h : (m.erase i).lookup j = some x) : j ≠ i ∧ m.lookup j = some x := by
  have hne : j ≠ i := by
    rintro rfl
    rw [AList.lookup_erase] at h
    cases h
  exact ⟨hne, by rwa [AList.lookup_erase_ne hne] at h⟩

theorem mem_sessions_of_erase (h : x ∈ SessionMap.sessions (m.erase i)) : x ∈ m.sessions := by
  obtain ⟨j, hj⟩ := mem_sessions.mp h
  exact mem_sessions.mpr ⟨j, (lookup_of_erase hj).2⟩

theorem SessionMap.Distinct.erase (h : m.Distinct) (i : ℤ) :
    SessionMap.Distinct (m.erase i) := fun j k x hj hk =>
  h j k x (lookup_of_erase hj).2 (lookup_of_erase hk).2

/-- What is erased is not there any more. -/
theorem notMem_erase (h : m.Distinct) (hi : m.lookup i = some x) :
    x ∉ SessionMap.sessions (m.erase i) := by
  intro hx
  obtain ⟨j, hj⟩ := mem_sessions.mp hx
  obtain ⟨hne, hj⟩ := lookup_of_erase hj
  exact hne (h j i x hj hi)

theorem lookup_of_insert {y : ℕ} (h : (m.insert i y).lookup j = some x) :
    (j = i ∧ x = y) ∨ (j ≠ i ∧ m.lookup j = some x) := by
  by_cases hne : j = i
  · subst hne
    rw [AList.lookup_insert] at h
    exact .inl ⟨rfl, (Option.some.inj h).symm⟩
  · rw [AList.lookup_insert_ne hne] at h
    exact .inr ⟨hne, h⟩

/-- A session that is not there is put under a number. -/
theorem SessionMap.Distinct.insert (h : m.Distinct) {y : ℕ} (hy : y ∉ m.sessions) (i : ℤ) :
    SessionMap.Distinct (m.insert i y) := by
  intro j k x hj hk
  rcases lookup_of_insert hj with ⟨rfl, rfl⟩ | ⟨-, hold⟩
  · rcases lookup_of_insert hk with ⟨rfl, -⟩ | ⟨-, hk⟩
    · rfl
    · exact absurd (mem_sessions.mpr ⟨k, hk⟩) hy
  · rcases lookup_of_insert hk with ⟨rfl, rfl⟩ | ⟨-, hk⟩
    · exact absurd (mem_sessions.mpr ⟨j, hold⟩) hy
    · exact h j k x hold hk

end Map

/-! ## What a step may do to the sessions -/

structure Service.Sound (s : Service) : Prop where
  distinct : s.sessions.Distinct
  bounded : ∀ x ∈ s.sessions.sessions, x < s.shells.length

/-- Sessions come new, are marked for good, and leave the map for good. -/
structure Service.Later (s s' : Service) : Prop where
  shells : s.shells.length ≤ s'.shells.length
  sent : ∀ x < s.shells.length, (s.shell x).closedMessageSent = true →
    (s'.shell x).closedMessageSent = true
  gone : ∀ x < s.shells.length, x ∉ s.sessions.sessions → x ∉ s'.sessions.sessions

section Steps

variable {s : Service}

variable {s' : Service}

theorem Service.Sound.erase (h : s.Sound) {i : ℤ} (hsessions : s'.sessions = s.sessions.erase i)
    (hshells : s.shells.length ≤ s'.shells.length) : s'.Sound where
  distinct := hsessions ▸ h.distinct.erase i
  bounded := fun x hx => by
    rw [hsessions] at hx
    exact lt_of_lt_of_le (h.bounded x (mem_sessions_of_erase hx)) hshells

theorem Service.Sound.same (h : s.Sound) {s' : Service} (hsessions : s'.sessions = s.sessions)
    (hshells : s.shells.length ≤ s'.shells.length) : s'.Sound where
  distinct := hsessions ▸ h.distinct
  bounded := fun x hx => lt_of_lt_of_le (h.bounded x (hsessions ▸ hx)) hshells

/-- A shell is changed, and stays marked if it was. -/
theorem shell_set_sent {shells : List Shell} {x : ℕ} {new : Shell}
    (hnew : (shells.getD x ⟨false, false⟩).closedMessageSent = true → new.closedMessageSent = true)
    {y : ℕ}
    (hy : y < shells.length) (hsent : (shells.getD y ⟨false, false⟩).closedMessageSent = true) :
    ((shells.set x new).getD y ⟨false, false⟩).closedMessageSent = true := by
  rw [List.getD_eq_getElem?_getD, List.getElem?_set]
  split
  · rename_i hxy
    subst hxy
    rw [if_pos hy, Option.getD_some]
    exact hnew hsent
  · rwa [← List.getD_eq_getElem?_getD]

theorem Service.Later.of_eq (hshells : s'.shells = s.shells)
    (hsessions : ∀ x ∈ s'.sessions.sessions, x ∈ s.sessions.sessions) : s.Later s' where
  shells := by rw [hshells]
  sent := fun x _ hsent => by rwa [Service.shell, hshells]
  gone := fun x _ hx hx' => hx (hsessions x hx')

theorem Service.Later.of_set {x : ℕ} {new : Shell} (hshells : s'.shells = s.shells.set x new)
    (hnew : (s.shell x).closedMessageSent = true → new.closedMessageSent = true)
    (hsessions : ∀ x ∈ s'.sessions.sessions, x ∈ s.sessions.sessions) : s.Later s' where
  shells := by rw [hshells, List.length_set]
  sent := fun y hy hsent => by
    rw [Service.shell, hshells]
    exact shell_set_sent hnew hy hsent
  gone := fun y _ hy hy' => hy (hsessions y hy')

theorem handleClose_later (h : s.Sound) (terminalId : ℤ) :
    (s.handleClose terminalId).Sound ∧ s.Later (s.handleClose terminalId) := by
  rw [Service.handleClose]
  split
  · exact ⟨h, .of_eq rfl fun _ hx => hx⟩
  · exact ⟨h.erase rfl (by simp), .of_set rfl (fun hsent => hsent) fun _ hx =>
      mem_sessions_of_erase hx⟩

/-- The sessions after the move of the lowest are those before it. -/
theorem remap_sessions {m : SessionMap} (h : m.Distinct) {terminalId lowestId : ℤ} {x : ℕ}
    (hx : m.lookup lowestId = some x) :
    SessionMap.Distinct ((m.erase lowestId).insert terminalId x) ∧
      ∀ y ∈ SessionMap.sessions ((m.erase lowestId).insert terminalId x), y ∈ m.sessions := by
  refine ⟨(h.erase lowestId).insert (notMem_erase h hx) terminalId, fun y hy => ?_⟩
  obtain ⟨j, hj⟩ := mem_sessions.mp hy
  rcases lookup_of_insert hj with ⟨-, rfl⟩ | ⟨-, hj⟩
  · exact mem_sessions.mpr ⟨lowestId, hx⟩
  · exact mem_sessions.mpr ⟨j, (lookup_of_erase hj).2⟩

theorem handleOpen_later (h : s.Sound) (terminalId : ℤ) (spawns : Bool) :
    (s.handleOpen terminalId spawns).Sound ∧ s.Later (s.handleOpen terminalId spawns) := by
  rw [Service.handleOpen]
  generalize hmap : (if terminalId ∉ s.sessions ∧ s.needsSessionSync then
      match s.sessions.keys.min? with
      | none => s.sessions
      | some lowestId =>
        match s.sessions.lookup lowestId with
        | none => s.sessions
        | some x => (s.sessions.erase lowestId).insert terminalId x
    else s.sessions) = sessions
  have hsessions : sessions.Distinct ∧ ∀ x ∈ sessions.sessions, x ∈ s.sessions.sessions := by
    rw [← hmap]
    split
    · split
      · exact ⟨h.distinct, fun _ hx => hx⟩
      · split
        · exact ⟨h.distinct, fun _ hx => hx⟩
        · rename_i hx
          exact remap_sessions h.distinct hx
    · exact ⟨h.distinct, fun _ hx => hx⟩
  obtain ⟨hdistinct, hsub⟩ := hsessions
  split
  · exact ⟨⟨hdistinct, fun x hx => h.bounded x (hsub x hx)⟩, .of_eq rfl hsub⟩
  · split
    · have hfresh : s.shells.length ∉ sessions.sessions := fun hx =>
        absurd (h.bounded _ (hsub _ hx)) (lt_irrefl _)
      have hold : ∀ x ∈ SessionMap.sessions (sessions.insert terminalId s.shells.length),
          x = s.shells.length ∨ x ∈ s.sessions.sessions := by
        intro x hx
        obtain ⟨j, hj⟩ := mem_sessions.mp hx
        rcases lookup_of_insert hj with ⟨-, rfl⟩ | ⟨-, hj⟩
        · exact .inl rfl
        · exact .inr (hsub x (mem_sessions.mpr ⟨j, hj⟩))
      refine ⟨⟨hdistinct.insert hfresh terminalId, fun x hx => ?_⟩,
        ⟨by simp, fun x hx hsent => ?_, fun x hlt hx hx' => ?_⟩⟩
      · rw [List.length_append, List.length_singleton]
        rcases hold x hx with rfl | hx
        · omega
        · have := h.bounded x hx
          omega
      · rwa [Service.shell, List.getD_append _ _ _ _ hx]
      · rcases hold x hx' with rfl | hx'
        · exact lt_irrefl _ hlt
        · exact hx hx'
    · exact ⟨h, .of_eq rfl fun _ hx => hx⟩

end Steps

/-! ## What a poll keeps -/

/-- The copy of the map has the session under its number, or nothing and the session has left the
map. -/
def Found (s : Service) (copy : SessionMap) (entry : ℤ × ℕ) : Prop :=
  copy.lookup entry.1 = some entry.2 ∨ copy.lookup entry.1 = none ∧ entry.2 ∉ s.sessions.sessions

/-- Between the two critical sections of a terminal: the session is the one that was marked, and it
has left the map if the first section was to remove it. -/
def Midway (s : Service) (p : Poll) (copy : SessionMap) (todo : List (ℤ × ℕ)) :
    Option (ℕ × ℤ) → Prop
  | none => ∀ entry ∈ todo, Found s copy entry
  | some (x, _) => ∃ entry rest, todo = entry :: rest ∧ x = entry.2 ∧
      (p.isPersistent = false → entry.2 ∉ s.sessions.sessions) ∧ ∀ other ∈ rest, Found s copy other

/-- What holds of a poll in each phase. -/
def PhaseKept (s : Service) (p : Poll) : PollPhase → Prop
  | .processing todo =>
    (∀ entry ∈ todo, entry.2 < s.shells.length) ∧ ((p.closedTerminals ++ todo).map Prod.fst).Nodup
  | .cleaning copy todo midway =>
    (todo.map Prod.fst).Nodup ∧ (∀ entry ∈ todo, entry ∈ p.closedTerminals) ∧
      (∀ entry ∈ p.closedTerminals, entry ∈ todo ∨ entry.2 ∉ s.sessions.sessions) ∧
        Midway s p copy todo midway
  | .done => ∀ entry ∈ p.closedTerminals, entry.2 ∉ s.sessions.sessions

structure Poll.Kept (s : Service) (p : Poll) : Prop where
  dead : ∀ x ∈ p.removed ++ p.tookChild, x ∈ p.closedTerminals.map Prod.snd
  marked : ∀ entry ∈ p.closedTerminals, entry.2 < s.shells.length ∧
    (s.shell entry.2).closedMessageSent = true
  phase : PhaseKept s p p.phase

section Kept

variable {s s' : Service} {p : Poll}

variable {copy : SessionMap} {entry : ℤ × ℕ}

theorem Found.later (hlater : s.Later s') (hentry : entry.2 < s.shells.length)
    (h : Found s copy entry) : Found s' copy entry := by
  rcases h with hcopy | ⟨hcopy, hgone⟩
  · exact .inl hcopy
  · exact .inr ⟨hcopy, hlater.gone _ hentry hgone⟩

/-- Whatever the others do, a poll keeps what it has. -/
theorem Poll.Kept.later (h : p.Kept s) (hlater : s.Later s') : p.Kept s' where
  dead := h.dead
  marked := fun entry hentry => by
    obtain ⟨hlt, hsent⟩ := h.marked entry hentry
    exact ⟨lt_of_lt_of_le hlt hlater.shells, hlater.sent _ hlt hsent⟩
  phase := by
    have hphase := h.phase
    cases hp : p.phase with
    | processing todo =>
      rw [hp] at hphase
      exact ⟨fun entry hentry => lt_of_lt_of_le (hphase.1 entry hentry) hlater.shells, hphase.2⟩
    | cleaning copy todo midway =>
      rw [hp] at hphase
      obtain ⟨hnodup, hsub, hleft, hmidway⟩ := hphase
      have hlt : ∀ entry ∈ todo, entry.2 < s.shells.length := fun entry hentry =>
        (h.marked entry (hsub entry hentry)).1
      refine ⟨hnodup, hsub, fun entry hentry => ?_, ?_⟩
      · rcases hleft entry hentry with htodo | hgone
        · exact .inl htodo
        · exact .inr (hlater.gone _ (h.marked entry hentry).1 hgone)
      · cases midway with
        | none => exact fun entry hentry => (hmidway entry hentry).later hlater (hlt entry hentry)
        | some mid =>
          obtain ⟨entry, rest, rfl, hx, hgone, hrest⟩ := hmidway
          refine ⟨entry, rest, rfl, hx, fun hp => ?_, fun other hother => ?_⟩
          · exact hlater.gone _ (hlt entry (List.mem_cons_self ..)) (hgone hp)
          · exact (hrest other hother).later hlater (hlt other (List.mem_cons_of_mem _ hother))
    | done =>
      rw [hp] at hphase
      exact fun entry hentry => hlater.gone _ (h.marked entry hentry).1 (hphase entry hentry)

/-- What a poll keeps is about the sessions, not about the poll that the service has. -/
theorem Poll.Kept.withPoll (h : p.Kept s) {poll : Option Poll} : p.Kept { s with poll := poll } :=
  h.later (.of_eq rfl fun _ hx => hx)

/-- A terminal is done with: its session has left the map. -/
theorem Poll.Kept.next (h : p.Kept s) (entry : ℤ × ℕ) {todo : List (ℤ × ℕ)}
    {terminalId exitCode : ℤ} (hnodup : (todo.map Prod.fst).Nodup)
    (hsub : ∀ other ∈ todo, other ∈ p.closedTerminals)
    (hleft : ∀ other ∈ p.closedTerminals, other ∈ entry :: todo ∨ other.2 ∉ s.sessions.sessions)
    (hgone : entry.2 ∉ s.sessions.sessions) (hfound : ∀ other ∈ todo, Found s copy other) :
    (p.next copy terminalId exitCode todo).Kept s := by
  have hleft' : ∀ other ∈ p.closedTerminals, other ∈ todo ∨ other.2 ∉ s.sessions.sessions :=
    fun other hother => by
    rcases hleft other hother with hmem | hout
    · rcases List.mem_cons.mp hmem with rfl | hmem
      · exact .inr hgone
      · exact .inl hmem
    · exact .inr hout
  refine ⟨h.dead, h.marked, ?_⟩
  rw [Poll.next]
  dsimp only
  split
  · rename_i hempty
    intro other hother
    rcases hleft' other hother with hmem | hout
    · rw [hempty] at hmem
      cases hmem
    · exact hout
  · exact ⟨hnodup, hsub, hleft', hfound⟩

/-! ## The sections of a poll -/

theorem process_kept (hs : s.Sound) (hp : p.Kept s) {readerFinished exited : Bool}
    (hstep : pollStep s p (.process readerFinished exited) = some s') :
    s'.Sound ∧ ∃ p', s'.poll = some p' ∧ p'.Kept s' := by
  rw [pollStep] at hstep
  split at hstep
  · rename_i terminalId x todo hphase
    have hkept := hp.phase
    rw [hphase] at hkept
    obtain ⟨hlt, hnodup⟩ := hkept
    obtain ⟨hx, htodo⟩ := List.forall_mem_cons.mp hlt
    dsimp only at hstep
    split at hstep
    · obtain rfl := Option.some.inj hstep
      have hlater :
        s.Later { s with shells := s.shells.set x { s.shell x with closedMessageSent := true } } :=
        .of_set rfl (fun _ => rfl) fun _ hmem => hmem
      have hmarked := (hp.later hlater).marked
      refine ⟨hs.same rfl (by simp), _, rfl, ?_, fun entry hentry => ?_, ?_⟩
      · intro y hy
        rw [List.map_append]
        exact List.mem_append_left _ (hp.dead y hy)
      · rcases List.mem_append.mp hentry with hentry | hentry
        · exact hmarked entry hentry
        · rw [List.mem_singleton.mp hentry]
          refine ⟨by simpa using hx, ?_⟩
          rw [Service.shell, List.getD_eq_getElem?_getD, List.getElem?_set_self hx]
          rfl
      · refine ⟨fun entry hentry => ?_, ?_⟩
        · rw [List.length_set]
          exact htodo entry hentry
        · rwa [List.append_assoc]
    · obtain rfl := Option.some.inj hstep
      refine ⟨hs.same rfl (le_refl _), _, rfl, hp.dead, hp.marked, htodo, ?_⟩
      refine hnodup.sublist (List.Sublist.map _ ?_)
      exact (List.sublist_cons_self ..).append_left _
  · cases hstep

theorem busy_kept (hs : s.Sound) (hp : p.Kept s) (hstep : pollStep s p .busy = some s') :
    s'.Sound ∧ ∃ p', s'.poll = some p' ∧ p'.Kept s' := by
  rw [pollStep] at hstep
  split at hstep
  · rename_i entry todo hphase
    obtain rfl := Option.some.inj hstep
    have hkept := hp.phase
    rw [hphase] at hkept
    refine ⟨hs.same rfl (le_refl _), _, rfl, hp.dead, hp.marked,
      (List.forall_mem_cons.mp hkept.1).2, ?_⟩
    refine hkept.2.sublist (List.Sublist.map _ ?_)
    exact (List.sublist_cons_self ..).append_left _
  · cases hstep

theorem aligned_iff {m : SessionMap} :
    aligned m entry = true ↔ m.lookup entry.1 = some entry.2 ∨ m.lookup entry.1 = none ∧
      entry.2 ∉ m.sessions := by
  rw [aligned, decide_eq_true_eq]

theorem copySessions_kept (hs : s.Sound) (hp : p.Kept s) (hpoll : s.poll = some p)
    (hund : undisturbed s (.poll .copySessions) = true)
    (hstep : pollStep s p .copySessions = some s') :
    s'.Sound ∧ ∃ p', s'.poll = some p' ∧ p'.Kept s' := by
  rw [pollStep] at hstep
  split at hstep
  · rename_i hphase
    obtain rfl := Option.some.inj hstep
    have hkept := hp.phase
    rw [hphase] at hkept
    rw [undisturbed, hpoll] at hund
    dsimp only at hund
    rw [hphase] at hund
    refine ⟨hs.same rfl (le_refl _), _, rfl, hp.dead, hp.marked, ?_⟩
    dsimp only
    split
    · rename_i hnone
      intro entry hentry
      dsimp only at hentry
      rw [hnone] at hentry
      cases hentry
    · refine ⟨?_, fun _ hentry => hentry, fun _ hentry => .inl hentry, fun entry hentry => ?_⟩
      · have hnodup := hkept.2
        rwa [List.append_nil] at hnodup
      · exact aligned_iff.mp (List.all_eq_true.mp hund entry hentry)
  · cases hstep

/-- The child of a session that was found ended is taken. -/
theorem takeChild_kept (hs : s.Sound) (hp : p.Kept s) {x : ℕ}
    (hx : x ∈ p.closedTerminals.map Prod.snd) (status : Option ℤ) (poll : Option Poll) :
    Service.Sound { s with shells := (s.takeChild p x status).1, poll := poll } ∧
      Poll.Kept { s with shells := (s.takeChild p x status).1, poll := poll }
        { p with tookChild := (s.takeChild p x status).2.1 } := by
  rw [Service.takeChild]
  split
  · have hlater :
      s.Later { s with shells := s.shells.set x { s.shell x with child := false }, poll := poll } :=
      .of_set rfl (fun hsent => hsent) fun _ hmem => hmem
    have hkept := hp.later hlater
    refine ⟨hs.same rfl (by simp), fun y hy => ?_, hkept.marked, hkept.phase⟩
    dsimp only at hy
    rw [← List.append_assoc] at hy
    rcases List.mem_append.mp hy with hy | hy
    · exact hp.dead y hy
    · rw [List.mem_singleton.mp hy]
      exact hx
  · exact ⟨hs.same rfl (le_refl _), hp.withPoll⟩

/-- A number that is aligned is removed: if there was a session under it, it was the one marked. -/
theorem erase_kept (hs : s.Sound) (hp : p.Kept s) (hentry : entry ∈ p.closedTerminals)
    (haligned : aligned s.sessions entry = true) (poll : Option Poll) :
    Service.Sound { s with sessions := s.sessions.erase entry.1, poll := poll } ∧
      Poll.Kept { s with sessions := s.sessions.erase entry.1, poll := poll }
        { p with removed := p.removed ++ (s.sessions.lookup entry.1).toList } ∧
      entry.2 ∉ SessionMap.sessions (s.sessions.erase entry.1) := by
  have hlater : s.Later { s with sessions := s.sessions.erase entry.1, poll := poll } :=
    .of_eq rfl fun _ hmem => mem_sessions_of_erase hmem
  have hkept := hp.later hlater
  rcases aligned_iff.mp haligned with hsome | ⟨hnone, hgone⟩
  · refine ⟨hs.erase rfl (le_refl _), ⟨fun x hx => ?_, hkept.marked, hkept.phase⟩,
      notMem_erase hs.distinct hsome⟩
    rw [hsome] at hx
    rcases List.mem_append.mp hx with hx | hx
    · rcases List.mem_append.mp hx with hx | hx
      · exact hp.dead x (List.mem_append_left _ hx)
      · rw [List.mem_singleton.mp hx]
        exact List.mem_map.mpr ⟨entry, hentry, rfl⟩
    · exact hp.dead x (List.mem_append_right _ hx)
  · refine ⟨hs.erase rfl (le_refl _), ⟨fun x hx => ?_, hkept.marked, hkept.phase⟩,
      fun hmem => hgone (mem_sessions_of_erase hmem)⟩
    rw [hnone] at hx
    rcases List.mem_append.mp hx with hx | hx
    · rw [Option.toList_none, List.append_nil] at hx
      exact hp.dead x (List.mem_append_left _ hx)
    · exact hp.dead x (List.mem_append_right _ hx)

/-- The other numbers of the copy stay. -/
theorem Found.erase {terminalId : ℤ} {other : ℤ × ℕ} (hne : other.1 ≠ terminalId)
    (h : Found s copy other) : Found s (copy.erase terminalId) other := by
  rw [Found, AList.lookup_erase_ne hne]
  exact h

/-- The first section of a terminal. -/
theorem clean_kept (hs : s.Sound) (hp : p.Kept s) (hpoll : s.poll = some p) {status : Option ℤ}
    (hund : undisturbed s (.poll (.clean status)) = true)
    (hstep : pollStep s p (.clean status) = some s') :
    s'.Sound ∧ ∃ p', s'.poll = some p' ∧ p'.Kept s' := by
  rw [pollStep] at hstep
  split at hstep
  · rename_i copy terminalId marked todo hphase
    have hkept := hp.phase
    rw [hphase] at hkept
    obtain ⟨hnodup, hsub, hleft, hfound⟩ := hkept
    obtain ⟨hhead, hrest⟩ := List.forall_mem_cons.mp hfound
    obtain ⟨hentry, hothers⟩ := List.forall_mem_cons.mp hsub
    have hmarked : marked ∈ p.closedTerminals.map Prod.snd := List.mem_map.mpr ⟨_, hentry, rfl⟩
    obtain ⟨hfresh, hids⟩ := List.nodup_cons.mp hnodup
    cases hcopy : copy.lookup terminalId with
    | none =>
      rw [hcopy] at hstep
      obtain rfl := Option.some.inj hstep
      have hgone : marked ∉ s.sessions.sessions := by
        rcases hhead with hsome | ⟨-, hgone⟩
        · exact absurd (hcopy.symm.trans hsome) nofun
        · exact hgone
      exact ⟨hs.same rfl (le_refl _), _, rfl,
        Poll.Kept.withPoll (hp.next (terminalId, marked) hids hothers hleft hgone hrest)⟩
    | some x =>
      rw [hcopy] at hstep
      have hx : x = marked := by
        rcases hhead with hsome | ⟨hnone, -⟩
        · exact Option.some.inj (hcopy.symm.trans hsome)
        · exact absurd (hcopy.symm.trans hnone) nofun
      subst hx
      dsimp only at hstep
      split at hstep
      · rename_i hpersistent
        obtain ⟨hs', hp'⟩ := takeChild_kept hs hp hmarked status s.poll
        have hsent := (hp'.marked _ hentry).2
        rw [if_pos hsent] at hstep
        obtain rfl := Option.some.inj hstep
        refine ⟨hs'.same rfl (le_refl _), _, rfl, hp'.dead, hp'.marked, hnodup, hsub, hleft,
          (terminalId, x), todo, rfl, rfl, ?_, hrest⟩
        exact fun hfalse => absurd (hpersistent.symm.trans hfalse) nofun
      · rename_i hpersistent
        obtain rfl := Option.some.inj hstep
        have haligned : aligned s.sessions (terminalId, x) = true := by
          rw [undisturbed, hpoll] at hund
          dsimp only at hund
          rw [hphase] at hund
          simpa [hpersistent, hcopy] using hund
        obtain ⟨hs', hp', hgone⟩ := erase_kept hs hp hentry haligned _
        have hlater : s.Later { s with sessions := s.sessions.erase terminalId } :=
          .of_eq rfl fun _ hmem => mem_sessions_of_erase hmem
        refine ⟨hs', _, rfl, hp'.dead, hp'.marked, hnodup, hsub, fun other hother => ?_,
          (terminalId, x), todo, rfl, rfl,
          fun _ => hgone, fun other hother => ?_⟩
        · rcases hleft other hother with hmem | hout
          · exact .inl hmem
          · exact .inr (hlater.gone _ (hp.marked other hother).1 hout)
        · have hne : other.1 ≠ terminalId := fun heq =>
            hfresh (List.mem_map.mpr ⟨other, hother, heq⟩)
          have hlt := (hp.marked other (hothers other hother)).1
          exact ((hrest other hother).later hlater hlt).erase hne
  · cases hstep

/-- The second section of a terminal. -/
theorem finish_kept (hs : s.Sound) (hp : p.Kept s) (hpoll : s.poll = some p) {status : Option ℤ}
    (hund : undisturbed s (.poll (.finish status)) = true)
    (hstep : pollStep s p (.finish status) = some s') :
    s'.Sound ∧ ∃ p', s'.poll = some p' ∧ p'.Kept s' := by
  rw [pollStep] at hstep
  split at hstep
  · rename_i copy terminalId marked todo x exitCode hphase
    have hkept := hp.phase
    rw [hphase] at hkept
    obtain ⟨hnodup, hsub, hleft, hmidway⟩ := hkept
    obtain ⟨entry, rest, heq, hx, hgone, hrest⟩ := hmidway
    obtain ⟨rfl, rfl⟩ := List.cons.inj heq
    obtain ⟨hentry, hothers⟩ := List.forall_mem_cons.mp hsub
    have hmarked : x ∈ p.closedTerminals.map Prod.snd := List.mem_map.mpr ⟨_, hentry, hx.symm⟩
    obtain ⟨hfresh, hids⟩ := List.nodup_cons.mp hnodup
    split at hstep
    · rename_i hpersistent
      obtain rfl := Option.some.inj hstep
      have haligned : aligned s.sessions (terminalId, marked) = true := by
        rw [undisturbed, hpoll] at hund
        dsimp only at hund
        rw [hphase] at hund
        simpa [hpersistent] using hund
      obtain ⟨hs', hp', hout⟩ := erase_kept hs hp hentry haligned _
      have hlater : s.Later { s with sessions := s.sessions.erase terminalId } :=
        .of_eq rfl fun _ hmem => mem_sessions_of_erase hmem
      refine ⟨hs', _, rfl, hp'.next (terminalId, marked) hids hothers (fun other hother => ?_)
        hout fun other hother => ?_⟩
      · rcases hleft other hother with hmem | hout
        · exact .inl hmem
        · exact .inr (hlater.gone _ (hp.marked other hother).1 hout)
      · have hne : other.1 ≠ terminalId := fun heq => hfresh (List.mem_map.mpr ⟨other, hother, heq⟩)
        have hlt := (hp.marked other (hothers other hother)).1
        exact ((hrest other hother).later hlater hlt).erase hne
    · rename_i hpersistent
      dsimp only at hstep
      obtain rfl := Option.some.inj hstep
      obtain ⟨hs', hp'⟩ := takeChild_kept hs hp hmarked status _
      exact ⟨hs', _, rfl, hp'.next (terminalId, marked)
        hids hothers hleft (hgone (by simpa using hpersistent)) hrest⟩
  · cases hstep

theorem pollStep_kept (hs : s.Sound) (hp : p.Kept s) (hpoll : s.poll = some p) {act : PollAct}
    (hund : undisturbed s (.poll act) = true) (hstep : pollStep s p act = some s') :
    s'.Sound ∧ ∃ p', s'.poll = some p' ∧ p'.Kept s' := by
  cases act with
  | busy => exact busy_kept hs hp hstep
  | process readerFinished exited => exact process_kept hs hp hstep
  | copySessions => exact copySessions_kept hs hp hpoll hund hstep
  | clean status => exact clean_kept hs hp hpoll hund hstep
  | finish status => exact finish_kept hs hp hpoll hund hstep

end Kept

/-! ## Runs -/

structure Service.Kept (s : Service) : Prop where
  sound : s.Sound
  poll : ∀ p, s.poll = some p → p.Kept s

theorem Service.Kept.later {s s' : Service} (h : s.Kept) (hsound : s'.Sound) (hlater : s.Later s')
    (hpoll : s'.poll = s.poll) : s'.Kept where
  sound := hsound
  poll := fun p hp => (h.poll p (hpoll ▸ hp)).later hlater

theorem handleOpen_poll (s : Service) (terminalId : ℤ) (spawns : Bool) :
    (s.handleOpen terminalId spawns).poll = s.poll := by
  rw [Service.handleOpen]
  split_ifs <;> rfl

theorem handleClose_poll (s : Service) (terminalId : ℤ) :
    (s.handleClose terminalId).poll = s.poll := by
  rw [Service.handleClose]
  split <;> rfl

theorem serviceStep_kept {s s' : Service} {act : ServiceAct} (h : s.Kept)
    (hund : undisturbed s act = true) (hstep : serviceStep s act = some s') : s'.Kept := by
  cases act with
  | collect isPersistent order =>
    rw [serviceStep] at hstep
    split at hstep
    · rename_i horder
      obtain rfl := Option.some.inj hstep
      refine ⟨h.sound.same rfl (le_refl _), fun p hp => ?_⟩
      obtain rfl := Option.some.inj hp
      refine ⟨nofun, nofun, fun entry hentry => ?_, ?_⟩
      · obtain ⟨e, he, rfl⟩ := List.mem_map.mp (horder.2.mem_iff.mp hentry)
        exact h.sound.bounded e.2 (List.mem_map.mpr ⟨e, he, rfl⟩)
      · rw [List.nil_append]
        refine (horder.2.map Prod.fst).nodup_iff.mpr ?_
        rw [List.map_map]
        exact s.sessions.keys_nodup
    · cases hstep
  | poll act =>
    rw [serviceStep] at hstep
    obtain ⟨p, hp, hpoll⟩ := Option.bind_eq_some_iff.mp hstep
    obtain ⟨hsound, p', hp', hkept⟩ := pollStep_kept h.sound (h.poll p hp) hp hund hpoll
    exact ⟨hsound, fun q hq => Option.some.inj (hp'.symm.trans hq) ▸ hkept⟩
  | handleOpen terminalId spawns =>
    obtain rfl := Option.some.inj hstep
    obtain ⟨hsound, hlater⟩ := handleOpen_later h.sound terminalId spawns
    exact h.later hsound hlater (handleOpen_poll ..)
  | handleClose terminalId =>
    obtain rfl := Option.some.inj hstep
    obtain ⟨hsound, hlater⟩ := handleClose_later h.sound terminalId
    exact h.later hsound hlater (handleClose_poll ..)
  | resetStatus =>
    obtain rfl := Option.some.inj hstep
    exact h.later (h.sound.same rfl (le_refl _)) (.of_eq rfl fun _ hx => hx) rfl

theorem Service.Kept.cleaned {s : Service} (h : s.Kept) : s.Cleaned := by
  intro p hp
  have hkept := h.poll p hp
  refine ⟨hkept.dead, fun hdone x hx => ?_⟩
  obtain ⟨entry, hentry, rfl⟩ := List.mem_map.mp hx
  have hphase := hkept.phase
  rw [hdone] at hphase
  exact hphase entry hentry

/-- **The clean-up removes exactly the dead sessions** in every run in which the numbers it uses
stand for the sessions it marked. -/
theorem cleanup_exact {acts : List ServiceAct} {s : Service}
    (hund : Along serviceStep (fun s act => undisturbed s act = true) .new acts)
    (h : exec serviceStep .new acts = some s) : s.Cleaned := by
  have hnew : Service.new.Kept := ⟨⟨nofun, nofun⟩, nofun⟩
  exact (exec_invariant_along (fun s act s' hs hund hstep => serviceStep_kept hs hund hstep)
    hnew hund h).cleaned

/-- Two terminals, of which the first ends. -/
theorem cleanup_exact_one_ended : ∃ s, exec serviceStep .new
        [.handleOpen 1 true, .handleOpen 2 true, .collect true [(2, 1), (1, 0)],
          .poll (.process false false),
          .poll (.process false true), .handleOpen 3 true, .poll .copySessions,
            .poll (.clean (some 3)), .poll (.finish none)] = some s ∧
      s.Cleaned ∧ s.poll.map Poll.removed = some [0] ∧ s.sessions.keys = [3, 2] := by
  have hrun : (exec serviceStep .new
      [.handleOpen 1 true, .handleOpen 2 true, .collect true [(2, 1), (1, 0)],
        .poll (.process false false),
        .poll (.process false true), .handleOpen 3 true, .poll .copySessions,
          .poll (.clean (some 3)), .poll (.finish none)]).any
      (fun s => decide (s.poll.map Poll.removed = some [0] ∧ s.sessions.keys = [3, 2])) = true := by
        decide +kernel
  obtain ⟨s, hs, hp⟩ := (Option.any_eq_true _ _).mp hrun
  exact ⟨s, hs, cleanup_exact (by decide +kernel) hs, of_decide_eq_true hp⟩

/-- The marked terminal 2 is opened as terminal 1 before the copy. Nothing is under 2 any more; the
dead session stays under 1, and no later poll marks it again. -/
def remappedRun : List ServiceAct :=
  [.handleOpen 2 true, .resetStatus, .collect true [(2, 0)], .poll (.process true true),
    .handleOpen 1 true,
    .poll .copySessions, .poll (.clean none)]

/-- The marked terminal 1 is closed and opened anew before the copy. The new session loses its
child, and is removed if the service is not persistent. -/
def reopenedRun (isPersistent : Bool) : List ServiceAct :=
  [.handleOpen 1 true, .collect isPersistent [(1, 0)], .poll (.process true true), .handleClose 1,
    .handleOpen 1 true,
    .poll .copySessions, .poll (.clean none)]

/-- A number that was marked may stand for another session by the time the clean-up uses it. -/
theorem cleanup_by_number :
    (∃ s, exec serviceStep .new remappedRun = some s ∧ ¬s.Cleaned ∧ s.idle = true ∧
      s.sessions.lookup 1 = some 0) ∧
      (∃ s, exec serviceStep .new (reopenedRun true) = some s ∧ ¬s.Cleaned ∧
        s.poll.map Poll.tookChild = some [1]) ∧
      (∃ s, exec serviceStep .new (reopenedRun false) = some s ∧ ¬s.Cleaned ∧
        s.poll.map Poll.removed = some [1]) := by
  have hremapped : (exec serviceStep .new remappedRun).any
      (fun s => decide (¬s.Cleaned ∧ s.idle = true ∧ s.sessions.lookup 1 = some 0)) = true := by
        decide +kernel
  have htaken : (exec serviceStep .new (reopenedRun true)).any
      (fun s => decide (¬s.Cleaned ∧ s.poll.map Poll.tookChild = some [1])) = true := by
        decide +kernel
  have hremoved : (exec serviceStep .new (reopenedRun false)).any
      (fun s => decide (¬s.Cleaned ∧ s.poll.map Poll.removed = some [1])) = true := by
        decide +kernel
  refine ⟨?_, ?_, ?_⟩
  · obtain ⟨s, hs, hp⟩ := (Option.any_eq_true _ _).mp hremapped
    exact ⟨s, hs, of_decide_eq_true hp⟩
  · obtain ⟨s, hs, hp⟩ := (Option.any_eq_true _ _).mp htaken
    exact ⟨s, hs, of_decide_eq_true hp⟩
  · obtain ⟨s, hs, hp⟩ := (Option.any_eq_true _ _).mp hremoved
    exact ⟨s, hs, of_decide_eq_true hp⟩

end Terminal
end BgDesk
