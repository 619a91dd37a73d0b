import BgDesk.Authorization

/-!
# One-time passwords

All connections of one device, and what they share: the table of sessions and the temporary
password. `log` says which session was let in on which temporary password, at once
(`LoginRequest`) or after its code (`Auth2fa`).

A session remembers the temporary password from the moment it is checked, and the password is
replaced only when somebody is authorized. So two sessions can hold one password: both have
shown it, and neither was in yet. `Desk.Alone` says that this does not happen to a password
somebody is let in on, and then no password lets two sessions in.
-/

namespace BgDesk
namespace Login

/-! ## Who holds a password -/

/-- A session of the table remembers the password. -/
def World.Holds (w : World) (key : SessionKey) (v : ℕ) : Prop :=
  ∃ q ∈ w.sessions, q.1 = key ∧ q.2.randomPassword = some v

namespace World

variable {w : World} {key key' : SessionKey} {v : ℕ}

theorem Shrunk.holds {w' : World} (h : w.Shrunk w') (hv : w'.Holds key v) : w.Holds key v := by
  obtain ⟨q, hq, hk⟩ := hv
  exact ⟨q, h.sessions hq, hk⟩

/-- The password a session is found with. -/
theorem holds_of_session {s : Session} (h : w.session key = some s)
    (hv : s.randomPassword = some v) : w.Holds key v := by
  rw [session, Option.map_eq_some_iff] at h
  obtain ⟨q, hq, rfl⟩ := h
  exact ⟨q, List.mem_of_find?_eq_some hq, by simpa using List.find?_some hq, hv⟩

/-- An entry put into the table brings its own password and no other. -/
theorem holds_insertSession {s : Session} (h : (w.insertSession key s).Holds key' v) :
    key' = key ∧ s.randomPassword = some v ∨ w.Holds key' v := by
  obtain ⟨q, hq, hk, hv⟩ := h
  rcases List.mem_cons.mp hq with rfl | hq
  · exact .inl ⟨hk.symm, hv⟩
  · exact .inr ⟨q, (List.mem_filter.mp hq).1, hk, hv⟩

theorem holds_setSession2fa (h : (w.setSession2fa key).Holds key' v) : w.Holds key' v := by
  rcases holds_insertSession h with ⟨rfl, hv⟩ | h
  · cases hs : w.session key' with
    | none => simp [hs] at hv
    | some s =>
      simp only [hs] at hv
      exact holds_of_session hs hv
  · exact h

theorem holds_updateOrInsertSession {p : ℕ}
    (h : (w.updateOrInsertSession key (some p) (some false)).Holds key' v) :
    key' = key ∧ v = p ∨ w.Holds key' v := by
  rcases holds_insertSession h with ⟨rfl, hv⟩ | h
  · refine .inl ⟨rfl, ?_⟩
    cases hs : w.session key' <;> simp_all
  · exact .inr h

end World

namespace Connection

variable {D : Type}

/-- The temporary password a request is accepted on, if it is one: the one its session
remembers, or the current one. -/
def basis (w : World) (e : Env) (lr : LoginRequest) : Option ℕ :=
  if (isRecentSession w e lr false).2 then (w.retain.session lr.key).bind Session.randomPassword
  else if e.temporaryEnabled && validatePasswordPlain e lr (some w.temporary) then some w.temporary
  else none

/-- A request lets its connection in: it is proper and accepted, no second factor is missing,
and what it is for can be had. -/
structure LetsIn [DecidableEq D] (digest : List Bytes → D) (w : World) (e : Env) (c : Connection D)
    (lr : LoginRequest) : Prop where
  proper : c.Proper digest e lr
  accepted : Accepted w e lr
  factor : (c.require2fa && !trusted e lr) = false ∨ (isRecentSession w e lr true).2 = true ∨
    c.fromSwitch = true
  prepared : lr.isTerminal = true → e.prepareTerminal = none
  up : c.portForward = true ∨ targetUp e lr = true

instance (w : World) (e : Env) (lr : LoginRequest) : Decidable (Accepted w e lr) :=
  inferInstanceAs (Decidable (_ ∧ _ ∧ (_ ∨ _ ∧ _)))

instance [DecidableEq D] (digest : List Bytes → D) (w : World) (e : Env) (c : Connection D)
    (lr : LoginRequest) : Decidable (c.LetsIn digest w e lr) :=
  decidable_of_iff (c.Proper digest e lr ∧ Accepted w e lr ∧
      ((c.require2fa && !trusted e lr) = false ∨ (isRecentSession w e lr true).2 = true ∨
        c.fromSwitch = true) ∧
      (lr.isTerminal = true → e.prepareTerminal = none) ∧
        (c.portForward = true ∨ targetUp e lr = true))
    ⟨fun ⟨h₁, h₂, h₃, h₄, h₅⟩ => ⟨h₁, h₂, h₃, h₄, h₅⟩, fun h => ⟨h.1, h.2, h.3, h.4, h.5⟩⟩

/-- A code lets its connection in: it is waited for and right, and what the connection is for
can be had. -/
structure CodeLetsIn (e : Env) (c : Connection D) (code : Bytes) : Prop where
  awaiting : c.awaiting2fa = true
  factor : c.require2fa = true
  unblocked : e.checkFailure 1 = none
  right : e.checkCurrent code = some true
  prepared : c.terminal = true → e.prepareTerminal = none
  up : c.portForward = true ∨ targetUp e c.lr = true

instance (e : Env) (c : Connection D) (code : Bytes) : Decidable (c.CodeLetsIn e code) :=
  decidable_of_iff (c.awaiting2fa = true ∧ c.require2fa = true ∧ e.checkFailure 1 = none ∧
      e.checkCurrent code = some true ∧ (c.terminal = true → e.prepareTerminal = none) ∧
      (c.portForward = true ∨ targetUp e c.lr = true))
    ⟨fun ⟨h₁, h₂, h₃, h₄, h₅, h₆⟩ => ⟨h₁, h₂, h₃, h₄, h₅, h₆⟩,
      fun h => ⟨h.1, h.2, h.3, h.4, h.5, h.6⟩⟩

variable {w : World} {e : Env} {c : Connection D} {h : Handled D}

/-- A request is accepted on what its session remembers, or on the current password. -/
theorem basis_cases {lr : LoginRequest} {v : ℕ} (h : basis w e lr = some v) :
    w.retain.Holds lr.key v ∨ v = w.temporary := by
  rw [basis] at h
  split at h
  · obtain ⟨s, hs, hv⟩ := Option.bind_eq_some_iff.mp h
    exact .inl (World.holds_of_session hs hv)
  · split at h
    · exact .inr (Option.some.inj h).symm
    · cases h

theorem validatePassword_temporary (w : World) (e : Env) (lr : LoginRequest) :
    (validatePassword w e lr).1.temporary = w.temporary := by
  rw [validatePassword]
  split <;> rfl

theorem holds_validatePassword {lr : LoginRequest} {key : SessionKey} {v : ℕ}
    (h : (validatePassword w e lr).1.Holds key v) :
    w.Holds key v ∨ key = lr.key ∧ v = w.temporary := by
  rw [validatePassword] at h
  split at h
  · exact (World.holds_updateOrInsertSession h).symm
  · exact .inl h

/-- What an authorization at once says about the connection before it, and about the
password: it is replaced. -/
theorem Logon.authorized (hl : Logon w e c h) (hc : c.authorized = false)
    (ha : h.conn.authorized = true) :
    (c.require2fa = false ∨ (isRecentSession w e c.lr true).2 = true ∨ c.fromSwitch = true) ∧
    (c.terminal = true → e.prepareTerminal = none) ∧
      (c.portForward = true ∨ targetUp e c.lr = true) ∧
    w.temporary < h.world.temporary := by
  cases hl with
  | pending c' _ _ _ same => simp [same.authorized, hc] at ha
  | letIn c' factor prepared up =>
    exact ⟨factor, prepared, up, Nat.lt_succ_of_le (ite_retain_shrunk w _).temporary⟩
  | closed c' hu => simp [hu] at ha

theorem Logon.keep (hl : Logon w e c h) (ha : h.conn.authorized = true) : h.keep = true := by
  cases hl with
  | pending => rfl
  | letIn => rfl
  | closed c' hu => simp [hu] at ha

theorem Logon.lr (hl : Logon w e c h) (hk : h.keep = true) : h.conn.lr = c.lr := by
  cases hl with
  | pending c' _ _ _ same => exact same.lr
  | letIn c' _ _ _ same => exact same.lr
  | closed => cases hk

/-- What a request leaves behind: its session may have come to remember the current password,
and the connection carries the request. -/
structure Requested (w : World) (lr : LoginRequest) (h : Handled D) : Prop where
  temporary : w.temporary ≤ h.world.temporary
  holds : ∀ key v, h.world.Holds key v → w.Holds key v ∨ v = w.temporary
  lr : h.keep = true → h.conn.lr = lr

/-- What a request that is let in leaves behind. -/
structure Entered [DecidableEq D] (digest : List Bytes → D) (w : World) (e : Env) (c : Connection D)
    (lr : LoginRequest) (h : Handled D) : Prop where
  letsIn : c.LetsIn digest w e lr
  keep : h.keep = true
  temporary : w.temporary < h.world.temporary
  holds : ∀ key v, h.world.Holds key v → w.retain.Holds key v ∨ key = lr.key ∧ v = w.temporary

theorem onLoginRequest_requested [DecidableEq D] (digest : List Bytes → D) (w : World) (e : Env)
    (lr : LoginRequest) (hc : c.authorized = false) :
    Requested w lr (c.onLoginRequest digest w e lr) := by
  obtain ⟨hk, -, hw⟩ | ⟨-, scope, hd⟩ := onLoginRequest_cases digest w e lr hc
  · refine ⟨by rw [hw], fun key v hv => .inl (by rwa [hw] at hv), fun hk' => ?_⟩
    rw [hk] at hk'
    cases hk'
  generalize c.onLoginRequest digest w e lr = h at hd
  cases hd with
  | waits shrunk same =>
    exact ⟨shrunk.temporary, fun key v hv => .inl (shrunk.holds hv), fun _ => same.lr⟩
  | recent =>
    have hl := sendLogonResponse_logon w.retain e (c := c.takenOver e lr scope) hc
    refine ⟨?_, fun key v hv => .inl ?_, fun hk => (thenStartCm_same _).lr.trans (hl.lr ?_)⟩
    · rw [thenStartCm_world]
      exact hl.shrunk.temporary
    · rw [thenStartCm_world] at hv
      exact w.retain_shrunk.holds (hl.shrunk.holds hv)
    · rwa [thenStartCm_keep] at hk
  | valid =>
    have hl := sendLogonResponse_logon (validatePassword w.retain e lr).1 e
      (c := c.takenOver e lr scope) hc
    refine ⟨?_, fun key v hv => ?_, fun hk => (thenStartCm_same _).lr.trans (hl.lr ?_)⟩
    · rw [thenStartCm_world]
      exact (validatePassword_temporary w.retain e lr).symm.le.trans hl.shrunk.temporary
    · rw [thenStartCm_world] at hv
      exact (holds_validatePassword (hl.shrunk.holds hv)).imp w.retain_shrunk.holds And.right
    · rwa [thenStartCm_keep] at hk

theorem onLoginRequest_entered [DecidableEq D] (digest : List Bytes → D) (w : World) (e : Env)
    (lr : LoginRequest) (hc : c.authorized = false)
    (ha : (c.onLoginRequest digest w e lr).conn.authorized = true) :
    Entered digest w e c lr (c.onLoginRequest digest w e lr) := by
  obtain ⟨-, hu, -⟩ | ⟨hproper, scope, hd⟩ := onLoginRequest_cases digest w e lr hc
  · rw [hu] at ha
    cases ha
  generalize c.onLoginRequest digest w e lr = h at hd ha
  cases hd with
  | waits _ same =>
    rw [same.authorized.trans hc] at ha
    cases ha
  | recent hclick hr =>
    have hl := sendLogonResponse_logon w.retain e (c := c.takenOver e lr scope) hc
    rw [(thenStartCm_same _).authorized] at ha
    obtain ⟨factor, prepared, up, htemp⟩ := hl.authorized hc ha
    rw [isRecentSession_retain] at factor
    refine ⟨⟨hproper, ⟨hclick, password_of_isRecentSession hr, .inl hr⟩, factor, prepared, up⟩, ?_,
      ?_,
      fun key v hv => .inl ?_⟩
    · rw [thenStartCm_keep]
      exact hl.keep ha
    · rwa [thenStartCm_world]
    · rw [thenStartCm_world] at hv
      exact hl.shrunk.holds hv
  | valid hclick _ hp hf hv =>
    have hl := sendLogonResponse_logon (validatePassword w.retain e lr).1 e
      (c := c.takenOver e lr scope) hc
    rw [(thenStartCm_same _).authorized] at ha
    obtain ⟨factor, prepared, up, htemp⟩ := hl.authorized hc ha
    refine ⟨⟨hproper, ⟨hclick, hp, .inr ⟨hf, hv⟩⟩,
      factor.imp_right (Or.imp_left isRecentSession_validatePassword), prepared, up⟩, ?_, ?_,
      fun key v hv => ?_⟩
    · rw [thenStartCm_keep]
      exact hl.keep ha
    · rw [thenStartCm_world]
      exact (validatePassword_temporary w.retain e lr).symm.le.trans_lt htemp
    · rw [thenStartCm_world] at hv
      exact holds_validatePassword (hl.shrunk.holds hv)

end Connection

/-! ## The machine -/

/-- A connection, and the temporary password its latest request was accepted on. -/
structure Peer (D : Type) where
  conn : Connection D
  isOpen : Bool
  basis : Option ℕ

/-- All connections, what they share, and who was let in on which temporary password. -/
structure Desk (D : Type) where
  world : World
  peers : List (Peer D)
  log : List (SessionKey × ℕ)

/-- A step of one connection, or of what they share. -/
inductive DeskAct where
  | connect (require2fa : Bool)
  | message (i : ℕ) (e : Env) (registered : Option ℕ) (m : Msg)
  | authorize (i : ℕ) (e : Env)
  | close (i : ℕ)
  | tick (seconds : ℕ)
  /-- the session is heard of, by any of its connections -/
  | heard (key : SessionKey)
  /-- `check_remove_session` of a connection that ends -/
  | forget (key : SessionKey)
  /-- a new temporary password, for any other reason -/
  | rotate

namespace Peer

variable {D : Type}

/-- The connection waits for its code, having shown the password. -/
def Holds (p : Peer D) (key : SessionKey) (v : ℕ) : Prop :=
  p.isOpen = true ∧ p.conn.authorized = false ∧ p.conn.awaiting2fa = true ∧
    p.conn.sessionKey = key ∧ p.basis = some v

instance (p : Peer D) (key : SessionKey) (v : ℕ) : Decidable (p.Holds key v) :=
  inferInstanceAs (Decidable (_ ∧ _ ∧ _ ∧ _ ∧ _))

/-- The basis after a message: a new request has one of its own. -/
def basisAfter (p : Peer D) (w : World) (e : Env) : Msg → Option ℕ
  | .loginRequest lr => if p.conn.authorized then p.basis else Connection.basis w e lr
  | _ => p.basis

/-- What a message puts into the log: a request or a code that authorizes its connection. -/
def entry (p : Peer D) (c' : Connection D) (basis : Option ℕ) : Msg → Option (SessionKey × ℕ)
  | .loginRequest _ | .auth2fa _ _ =>
    if p.conn.authorized || !c'.authorized then none else basis.map fun v => (c'.sessionKey, v)
  | _ => none

/-- Only a message that authorizes its connection on a temporary password is logged. -/
theorem entry_some {p : Peer D} {c' : Connection D} {basis : Option ℕ} {m : Msg}
    {kv : SessionKey × ℕ} (h : p.entry c' basis m = some kv) :
    p.conn.authorized = false ∧ c'.authorized = true ∧ ∃ v, basis = some v ∧
      (c'.sessionKey, v) = kv := by
  cases m with
  | loginRequest | auth2fa =>
    simp only [entry] at h
    split at h
    · cases h
    · next hn =>
      rw [Bool.or_eq_true, not_or, Bool.not_eq_true, Bool.not_eq_true', Bool.not_eq_false] at hn
      exact ⟨hn.1, hn.2, Option.map_eq_some_iff.mp h⟩
  | _ => cases h

end Peer

namespace Desk

variable {D : Type}

/-- No connection yet. -/
def start (D : Type) (temporary : ℕ) : Desk D := ⟨⟨0, [], temporary⟩, [], []⟩

/-- An open connection does something. -/
def atPeer (s : Desk D) (i : ℕ) (f : Peer D → Option (Desk D)) : Option (Desk D) :=
  match s.peers[i]? with
  | some p => if p.isOpen then f p else none
  | none => none

/-- Somebody holds the password: a session of the table, or a connection that waits for its
code. -/
def Holds (s : Desk D) (key : SessionKey) (v : ℕ) : Prop :=
  s.world.Holds key v ∨ ∃ p ∈ s.peers, p.Holds key v

/-- No session of the table and no other connection holds the password under another key. -/
def HeldOnlyBy (s : Desk D) (w : World) (i : ℕ) (key : SessionKey) (v : ℕ) : Prop :=
  (∀ q ∈ w.sessions, q.2.randomPassword = some v → q.1 = key) ∧
  ∀ j < s.peers.length, j ≠ i → ∀ q ∈ s.peers[j]?, q.Holds q.conn.sessionKey v →
    q.conn.sessionKey = key

instance (s : Desk D) (w : World) (i : ℕ) (key : SessionKey) (v : ℕ) :
    Decidable (s.HeldOnlyBy w i key v) :=
  inferInstanceAs (Decidable (_ ∧ _))

section Step

variable [DecidableEq D] (digest : List Bytes → D)

def step (s : Desk D) : DeskAct → Option (Desk D)
  | .connect require2fa => some { s with peers := s.peers ++ [⟨.start D require2fa, true, none⟩] }
  | .message i e registered m => s.atPeer i fun p =>
    let h := p.conn.onMessage digest s.world e registered m
    let basis := p.basisAfter s.world e m
    some { world := h.world
           peers := s.peers.set i ⟨h.conn, h.keep, basis⟩
           log := s.log ++ (p.entry h.conn basis m).toList }
  | .authorize i e => s.atPeer i fun p =>
    if p.conn.cmTold then
      let h := p.conn.onAuthorize s.world e
      some { s with world := h.world, peers := s.peers.set i ⟨h.conn, h.keep, p.basis⟩ }
    else none
  | .close i =>
    s.atPeer i fun p => some { s with peers := s.peers.set i { p with isOpen := false } }
  | .tick seconds => some { s with world := { s.world with now := s.world.now + seconds } }
  | .heard key => some { s with world := { s.world with
      sessions := s.world.sessions.map fun q =>
        if q.1 = key then (q.1, { q.2 with lastRecvTime := s.world.now }) else q } }
  | .forget key => some { s with world := s.world.removeSession key }
  | .rotate => some { s with world := s.world.updateTemporaryPassword }

/-- Whenever a request or a code lets its connection in on a temporary password, nobody else
holds that password. A request purges the table before it looks. -/
def Alone (s : Desk D) : DeskAct → Prop
  | .message i e _ (.loginRequest lr) =>
    ∀ p ∈ s.peers[i]?, p.conn.authorized = false → p.conn.LetsIn digest s.world e lr →
      ∀ v ∈ Connection.basis s.world e lr, s.HeldOnlyBy s.world.retain i lr.key v
  | .message i e _ (.auth2fa code _) =>
    ∀ p ∈ s.peers[i]?, p.conn.authorized = false → p.conn.CodeLetsIn e code →
      ∀ v ∈ p.basis, s.HeldOnlyBy s.world i p.conn.sessionKey v
  | _ => True

instance (s : Desk D) : ∀ a, Decidable (s.Alone digest a)
  | .message i e _ (.loginRequest lr) => inferInstanceAs (Decidable (∀ p ∈ s.peers[i]?,
      p.conn.authorized = false → p.conn.LetsIn digest s.world e lr →
        ∀ v ∈ Connection.basis s.world e lr, s.HeldOnlyBy s.world.retain i lr.key v))
  | .message i e _ (.auth2fa code _) => inferInstanceAs (Decidable (∀ p ∈ s.peers[i]?,
      p.conn.authorized = false → p.conn.CodeLetsIn e code →
        ∀ v ∈ p.basis, s.HeldOnlyBy s.world i p.conn.sessionKey v))
  | .message _ _ _ .closeReason | .message _ _ _ (.switchSidesResponse _ _) | .message _ _ _ .other
  | .connect _ | .authorize _ _ | .close _ | .tick _ | .heard _ | .forget _ | .rotate =>
    inferInstanceAs (Decidable True)

end Step

/-! ## The invariant -/

/-- Every password in hand is one there has been, a password somebody was let in on is no
longer the current one, and only the session that was let in on it holds it. -/
structure Inv (s : Desk D) : Prop where
  bounded : ∀ key v, s.Holds key v → v ≤ s.world.temporary
  spent : ∀ key v, (key, v) ∈ s.log → v < s.world.temporary
  alone : ∀ key v, (key, v) ∈ s.log → ∀ key', s.Holds key' v → key' = key
  agree : ∀ key key' v, (key, v) ∈ s.log → (key', v) ∈ s.log → key = key'

theorem start_inv (D : Type) (temporary : ℕ) : Inv (start D temporary) where
  bounded := by
    rintro key v (⟨q, hq, -⟩ | ⟨p, hp, -⟩)
    · cases hq
    · cases hp
  spent := by
    intro key v h
    cases h
  alone := by
    intro key v h
    cases h
  agree := by
    intro key key' v h
    cases h

/-- Passwords in hand were in hand before, or are the current one. -/
structure Follows (s s' : Desk D) : Prop where
  temporary : s.world.temporary ≤ s'.world.temporary
  holds : ∀ key v, s'.Holds key v → s.Holds key v ∨ v = s.world.temporary

variable {s s' : Desk D} {key : SessionKey} {i v : ℕ} {e : Env} {registered : Option ℕ} {p : Peer D}

theorem Inv.of_follows (hI : Inv s) (h : Follows s s') (hlog : s'.log = s.log) : Inv s' where
  bounded key v hv := by
    rcases h.holds key v hv with hv | rfl
    · exact (hI.bounded key v hv).trans h.temporary
    · exact h.temporary
  spent key v hl := by
    rw [hlog] at hl
    exact (hI.spent key v hl).trans_le h.temporary
  alone key v hl key' hv := by
    rw [hlog] at hl
    rcases h.holds key' v hv with hv | rfl
    · exact hI.alone key v hl key' hv
    · exact absurd (hI.spent key _ hl) (lt_irrefl _)
  agree key key' v hl hl' := by
    rw [hlog] at hl hl'
    exact hI.agree key key' v hl hl'

/-- Somebody is let in on a password that was in hand under its key, or is the current one,
and nobody else holds it afterwards. -/
theorem Inv.of_entry (hI : Inv s) (h : Follows s s') (hlog : s'.log = s.log ++ [(key, v)])
    (htemp : s.world.temporary < s'.world.temporary) (hv : s.Holds key v ∨ v = s.world.temporary)
    (honly : ∀ key', s'.Holds key' v → key' = key) : Inv s' := by
  have hle : v ≤ s.world.temporary := hv.elim (hI.bounded key v) le_of_eq
  -- the old entries for the password are of the same session
  have hold : ∀ key', (key', v) ∈ s.log → key' = key := by
    intro key' hl
    rcases hv with hv | rfl
    · exact (hI.alone key' v hl key hv).symm
    · exact absurd (hI.spent key' _ hl) (lt_irrefl _)
  have hcases : ∀ key' v', (key', v') ∈ s'.log → (key', v') ∈ s.log ∨ key' = key ∧ v' = v := by
    intro key' v' hl
    rw [hlog, List.mem_append, List.mem_singleton, Prod.mk.injEq] at hl
    exact hl
  refine ⟨?_, ?_, ?_, ?_⟩
  · intro key' v' hv'
    rcases h.holds key' v' hv' with hv' | rfl
    · exact (hI.bounded key' v' hv').trans h.temporary
    · exact h.temporary
  · intro key' v' hl
    rcases hcases key' v' hl with hl | ⟨-, rfl⟩
    · exact (hI.spent key' v' hl).trans htemp
    · exact hle.trans_lt htemp
  · intro key' v' hl key'' hv''
    rcases hcases key' v' hl with hl | ⟨rfl, rfl⟩
    · rcases h.holds key'' v' hv'' with hv'' | rfl
      · exact hI.alone key' v' hl key'' hv''
      · exact absurd (hI.spent key' _ hl) (lt_irrefl _)
    · exact honly key'' hv''
  · intro key₁ key₂ v' h₁ h₂
    rcases hcases key₁ v' h₁ with h₁ | ⟨rfl, rfl⟩
    · rcases hcases key₂ v' h₂ with h₂ | ⟨rfl, rfl⟩
      · exact hI.agree key₁ key₂ v' h₁ h₂
      · exact hold key₁ h₁
    · rcases hcases key₂ v' h₂ with h₂ | ⟨rfl, -⟩
      · exact (hold key₂ h₂).symm
      · rfl

theorem atPeer_some {f : Peer D → Option (Desk D)} (h : s.atPeer i f = some s') :
    ∃ p, s.peers[i]? = some p ∧ p.isOpen = true ∧ f p = some s' := by
  rw [atPeer] at h
  split at h
  · next p hp =>
    split at h
    · next ho => exact ⟨p, hp, ho, h⟩
    · cases h
  · cases h

/-- After one connection has done something, the passwords in hand are those of the world, of
that connection, and of the others. -/
theorem follows_set {p' : Peer D} {w : World} {log : List (SessionKey × ℕ)}
    (htemp : s.world.temporary ≤ w.temporary)
    (hworld : ∀ key v, w.Holds key v → s.world.Holds key v ∨ v = s.world.temporary)
    (hpeer : ∀ key v, p'.Holds key v → s.Holds key v ∨ v = s.world.temporary) :
    Follows s ⟨w, s.peers.set i p', log⟩ := by
  refine ⟨htemp, ?_⟩
  rintro key v (hv | ⟨q, hq, hv⟩)
  · exact (hworld key v hv).imp_left .inl
  · rcases List.mem_or_eq_of_mem_set hq with hq | rfl
    · exact .inl (.inr ⟨q, hq, hv⟩)
    · exact hpeer key v hv

/-- What a message leaves in the world, whatever it is. -/
theorem onMessage_holds [DecidableEq D] (digest : List Bytes → D) (w : World) (e : Env)
    (registered : Option ℕ) (c : Connection D) (m : Msg) :
    w.temporary ≤ (c.onMessage digest w e registered m).world.temporary ∧
    ∀ key v, (c.onMessage digest w e registered m).world.Holds key v →
      w.Holds key v ∨ v = w.temporary := by
  have shrunk : ∀ {w'}, w.Shrunk w' →
      w.temporary ≤ w'.temporary ∧ ∀ key v, w'.Holds key v → w.Holds key v ∨ v = w.temporary :=
    fun h => ⟨h.temporary, fun _ _ hv => .inl (h.holds hv)⟩
  unfold Connection.onMessage
  split
  · split
    · exact shrunk (w.removeSession_shrunk _)
    · exact shrunk (.of_eq rfl)
  · next lr =>
    cases hc : c.authorized with
    | false =>
      have h := Connection.onLoginRequest_requested digest w e lr hc
      exact ⟨h.temporary, h.holds⟩
    | true =>
      rw [Connection.onLoginRequest, if_pos hc]
      exact shrunk (.of_eq rfl)
  · exact shrunk (.of_eq rfl)
  · next code _ _ =>
    obtain ⟨-, -, hw⟩ | ⟨-, heq⟩ := Connection.onAuth2fa_cases w e (c := c) code
    · exact shrunk (.of_eq hw)
    · rw [heq, Connection.thenStartCm_world]
      have hs := Connection.sendLogonResponse_shrunk (w.setSession2fa c.sessionKey) e
        { c with require2fa := false }
      exact ⟨hs.temporary, fun key v hv => .inl (World.holds_setSession2fa (hs.holds hv))⟩
  · split
    · exact shrunk (Connection.onSwitchSides_shrunk w e c _)
    · exact shrunk (.of_eq rfl)
  · exact shrunk (.of_eq rfl)
  · exact shrunk (.of_eq rfl)

/-- A connection that holds a password after a message held it before, or has just shown it. -/
theorem onMessage_peer [DecidableEq D] (digest : List Bytes → D) {w : World}
    {m : Msg} (ho : p.isOpen = true) (hv : (⟨(p.conn.onMessage digest w e registered m).conn,
      (p.conn.onMessage digest w e registered m).keep, p.basisAfter w e m⟩ : Peer D).Holds key v) :
    p.Holds key v ∨ w.Holds key v ∨ v = w.temporary := by
  obtain ⟨hk, hun', hawait, hkey, hbasis⟩ := hv
  have hun : p.conn.authorized = false := by
    rw [← Bool.not_eq_true]
    intro ha
    rw [Connection.onMessage_authorized digest w e registered m ha] at hun'
    cases hun'
  have hout := Connection.onMessage_outcome digest w e registered m hun
  generalize hh : p.conn.onMessage digest w e registered m = h at hk hun' hawait hkey hout
  have login : ∀ lr, m = .loginRequest lr → w.Holds key v ∨ v = w.temporary := by
    rintro lr rfl
    rw [Peer.basisAfter, hun] at hbasis
    have hlr : h.conn.lr = lr := by
      rw [← hh]
      refine (Connection.onLoginRequest_requested digest w e lr hun).lr ?_
      exact (congrArg Handled.keep hh).trans hk
    have hkey : lr.key = key := by
      rw [← hkey, Connection.sessionKey, hlr]
    rw [← hkey]
    exact (Connection.basis_cases hbasis).imp_left w.retain_shrunk.holds
  cases hout with
  | same notLogin same =>
    refine .inl ⟨ho, hun, same.awaiting2fa.symm.trans hawait, ?_, ?_⟩
    · rw [← hkey, Connection.sessionKey, Connection.sessionKey, same.lr]
    · cases m with
      | loginRequest lr => exact absurd rfl (notLogin lr)
      | _ => exact hbasis
  | closed keep => simp [keep] at hk
  | waits => exact .inr (login _ rfl)
  | byPassword ha | byCode ha | bySwitch ha => simp [ha] at hun'

theorem message_follows [DecidableEq D] (digest : List Bytes → D) (e : Env) (registered : Option ℕ)
    (m : Msg) (hp : s.peers[i]? = some p) (ho : p.isOpen = true) (log : List (SessionKey × ℕ)) :
    Follows s
      ⟨(p.conn.onMessage digest s.world e registered m).world,
        s.peers.set i ⟨(p.conn.onMessage digest s.world e registered m).conn,
          (p.conn.onMessage digest s.world e registered m).keep, p.basisAfter s.world e m⟩,
            log⟩ := by
  obtain ⟨htemp, hworld⟩ := onMessage_holds digest s.world e registered p.conn m
  refine follows_set htemp hworld fun key v hv => ?_
  rcases onMessage_peer digest ho hv with hv | hv | hv
  · exact .inl (.inr ⟨p, List.mem_of_getElem? hp, hv⟩)
  · exact .inl (.inl hv)
  · exact .inr hv

/-- Once a connection is authorized on a password that nobody else held, nobody else holds
it. -/
theorem HeldOnlyBy.after {w w' : World} {p' : Peer D} {log : List (SessionKey × ℕ)}
    (h : s.HeldOnlyBy w i key v) (ha : p'.conn.authorized = true)
    (hw : ∀ key', w'.Holds key' v → w.Holds key' v ∨ key' = key) :
    ∀ key', (⟨w', s.peers.set i p', log⟩ : Desk D).Holds key' v → key' = key := by
  rintro key' (hv | ⟨q, hq, hv⟩)
  · rcases hw key' hv with ⟨q, hq, rfl, hq'⟩ | hk
    · exact h.1 q hq hq'
    · exact hk
  · obtain ⟨j, hj⟩ := List.mem_iff_getElem?.mp hq
    by_cases hij : j = i
    · subst hij
      rw [List.getElem?_set_self'] at hj
      obtain ⟨_, -, rfl⟩ := Option.map_eq_some_iff.mp hj
      have hun := hv.2.1
      rw [Function.const_apply, ha] at hun
      cases hun
    · rw [List.getElem?_set_ne (Ne.symm hij)] at hj
      obtain ⟨hlt, -⟩ := List.getElem?_eq_some_iff.mp hj
      have hkey := hv.2.2.2.1
      subst hkey
      exact h.2 j hlt hij q hj hv

/-- Somebody comes in on a password that was in hand under its key or is the current one, and
that nobody else holds. -/
structure Enters (s : Desk D) (i : ℕ) (key : SessionKey) (v : ℕ) (w' : World) : Prop where
  temporary : s.world.temporary < w'.temporary
  shown : s.Holds key v ∨ v = s.world.temporary
  only : ∃ w, s.HeldOnlyBy w i key v ∧ ∀ key', w'.Holds key' v → w.Holds key' v ∨ key' = key

theorem onLoginRequest_enters [DecidableEq D] (digest : List Bytes → D) {lr : LoginRequest}
    (halone : s.Alone digest (.message i e registered (.loginRequest lr)))
    (hp : s.peers[i]? = some p) (hun : p.conn.authorized = false)
    (ha : (p.conn.onLoginRequest digest s.world e lr).conn.authorized = true)
    (hb : Connection.basis s.world e lr = some v) :
    s.Enters i (p.conn.onLoginRequest digest s.world e lr).conn.sessionKey v
      (p.conn.onLoginRequest digest s.world e lr).world := by
  have hent := Connection.onLoginRequest_entered digest s.world e lr hun ha
  have hlr := (Connection.onLoginRequest_requested digest s.world e lr hun).lr hent.keep
  rw [Connection.sessionKey, hlr]
  refine ⟨hent.temporary, ?_, s.world.retain, halone p hp hun hent.letsIn v hb, fun key' hv => ?_⟩
  · exact (Connection.basis_cases hb).imp_left fun h => .inl (s.world.retain_shrunk.holds h)
  · exact (hent.holds key' v hv).imp_right And.left

theorem onAuth2fa_enters [DecidableEq D] (digest : List Bytes → D) {code hwid : Bytes}
    (halone : s.Alone digest (.message i e registered (.auth2fa code hwid)))
    (hp : s.peers[i]? = some p) (ho : p.isOpen = true) (hun : p.conn.authorized = false)
    (ha : (p.conn.onAuth2fa s.world e code).conn.authorized = true) (hb : p.basis = some v) :
    s.Enters i (p.conn.onAuth2fa s.world e code).conn.sessionKey v
      (p.conn.onAuth2fa s.world e code).world := by
  obtain ⟨-, same, -⟩ | ⟨⟨hawait, h2, hblock, hcode⟩, heq⟩ :=
    Connection.onAuth2fa_cases s.world e (c := p.conn) code
  · rw [same.authorized, hun] at ha
    cases ha
  have hl := Connection.sendLogonResponse_logon (s.world.setSession2fa p.conn.sessionKey) e
    (c := { p.conn with require2fa := false }) hun
  rw [heq] at ha ⊢
  rw [(Connection.thenStartCm_same _).authorized] at ha
  obtain ⟨-, hprep, hup, htemp⟩ := hl.authorized hun ha
  rw [Connection.thenStartCm_world, Connection.sessionKey, (Connection.thenStartCm_same _).lr,
    hl.lr (hl.keep ha)]
  refine ⟨htemp, ?_, s.world, halone p hp hun ⟨hawait, h2, hblock, hcode, hprep, hup⟩ v hb,
    fun key' hv => ?_⟩
  · exact .inl (.inr ⟨p, List.mem_of_getElem? hp, ho, hun, hawait, rfl, hb⟩)
  · exact .inl (World.holds_setSession2fa (hl.shrunk.holds hv))

theorem message_inv [DecidableEq D] (digest : List Bytes → D) {m : Msg} (hI : Inv s)
    (halone : s.Alone digest (.message i e registered m)) (hp : s.peers[i]? = some p)
    (ho : p.isOpen = true) : Inv ⟨(p.conn.onMessage digest s.world e registered m).world,
      s.peers.set i ⟨(p.conn.onMessage digest s.world e registered m).conn,
        (p.conn.onMessage digest s.world e registered m).keep, p.basisAfter s.world e m⟩,
      s.log ++ (p.entry (p.conn.onMessage digest s.world e registered m).conn
        (p.basisAfter s.world e m) m).toList⟩ := by
  have hf := message_follows digest e registered m hp ho
  cases hentry : p.entry (p.conn.onMessage digest s.world e registered m).conn
      (p.basisAfter s.world e m) m with
  | none =>
    rw [Option.toList_none, List.append_nil]
    exact hI.of_follows (hf _) rfl
  | some kv =>
    obtain ⟨hun, ha, v, hb, rfl⟩ := Peer.entry_some hentry
    -- only a request or a code is entered into the log
    have henters : s.Enters i (p.conn.onMessage digest s.world e registered m).conn.sessionKey v
        (p.conn.onMessage digest s.world e registered m).world := by
      unfold Connection.onMessage at ha ⊢
      rw [if_neg (by simp [hun])] at ha ⊢
      cases m with
      | loginRequest lr =>
        rw [Peer.basisAfter, hun] at hb
        exact onLoginRequest_enters digest halone hp hun ha hb
      | auth2fa code hwid => exact onAuth2fa_enters digest halone hp ho hun ha hb
      | _ => cases hentry
    obtain ⟨w, honly, hw⟩ := henters.only
    exact hI.of_entry (hf _) rfl henters.temporary henters.shown (honly.after ha hw)

theorem step_inv [DecidableEq D] (digest : List Bytes → D) {a : DeskAct} (hI : Inv s)
    (halone : s.Alone digest a) (h : s.step digest a = some s') : Inv s' := by
  cases a with
  | connect require2fa =>
    obtain rfl := Option.some.inj h
    refine hI.of_follows ⟨le_refl _, ?_⟩ rfl
    rintro key v (hv | ⟨q, hq, hv⟩)
    · exact .inl (.inl hv)
    · rcases List.mem_append.mp hq with hq | hq
      · exact .inl (.inr ⟨q, hq, hv⟩)
      · obtain rfl := List.mem_singleton.mp hq
        exact absurd hv.2.2.1 (by simp [Connection.start])
  | message i e registered m =>
    obtain ⟨p, hp, ho, h⟩ := atPeer_some h
    obtain rfl := Option.some.inj h
    exact message_inv digest hI halone hp ho
  | authorize i e =>
    obtain ⟨p, hp, ho, h⟩ := atPeer_some h
    rw [Option.ite_none_right_eq_some] at h
    obtain rfl := Option.some.inj h.2
    have hs := Connection.onAuthorize_shrunk s.world e p.conn
    refine hI.of_follows (follows_set hs.temporary (fun key v hv => .inl (hs.holds hv)) ?_) rfl
    -- the connection is authorized or closed
    rintro key v ⟨hk, hun', -⟩
    exfalso
    cases hun : p.conn.authorized with
    | false =>
      rcases Connection.onAuthorize_settled s.world e hun with ⟨hk', -⟩ | ha
      · exact absurd hk (by simp [hk'])
      · exact absurd hun' (by simp [ha])
    | true => exact absurd hun' (by simp [Connection.onAuthorize_authorized s.world e hun])
  | close i =>
    obtain ⟨p, hp, ho, h⟩ := atPeer_some h
    obtain rfl := Option.some.inj h
    exact hI.of_follows (follows_set (le_refl _) (fun _ _ hv => .inl hv) fun _ _ hv => nomatch hv.1)
      rfl
  | tick seconds =>
    obtain rfl := Option.some.inj h
    exact hI.of_follows ⟨le_refl _, fun _ _ hv => .inl hv⟩ rfl
  | heard key =>
    obtain rfl := Option.some.inj h
    refine hI.of_follows ⟨le_refl _, ?_⟩ rfl
    rintro key' v (⟨q, hq, hk, hv⟩ | hv)
    · obtain ⟨q', hq', rfl⟩ := List.mem_map.mp hq
      refine .inl (.inl ⟨q', hq', ?_⟩)
      split at hk <;> simp_all
    · exact .inl (.inr hv)
  | forget key =>
    obtain rfl := Option.some.inj h
    refine hI.of_follows ⟨le_refl _, ?_⟩ rfl
    rintro key' v (hv | hv)
    · exact .inl (.inl ((s.world.removeSession_shrunk key).holds hv))
    · exact .inl (.inr hv)
  | rotate =>
    obtain rfl := Option.some.inj h
    exact hI.of_follows ⟨Nat.le_succ _, fun _ _ hv => .inl hv⟩ rfl

/-- **A one-time password lets in one session.** In every run in which nobody else holds a
temporary password while a session is let in on it, no password lets in two sessions. -/
theorem one_time [DecidableEq D] (digest : List Bytes → D) {temporary : ℕ} {as : List DeskAct}
    {s : Desk D} (hrun : exec (step digest) (start D temporary) as = some s)
    (halone : Along (step digest) (Alone digest) (start D temporary) as) :
    ∀ key key' v, (key, v) ∈ s.log → (key', v) ∈ s.log → key = key' :=
  (exec_invariant_along (fun _ _ _ hI hC h => step_inv digest hI hC h) (start_inv D temporary)
    halone hrun).agree

/-- Two sessions come in on two passwords, the second with a code, and the first comes back on
its own. -/
theorem one_time_return : ∃ s : Desk (List Bytes),
      exec (step id) (start _ 7)
        [.connect false, .message 0 Env.plain none (.loginRequest (LoginRequest.plain "a" 7)),
         .connect true, .message 1 Env.plain none (.loginRequest (LoginRequest.plain "b" 8)),
         .message 1 Env.plain none (.auth2fa [1, 2] []),
         .connect false, .message 2 Env.plain none (.loginRequest (LoginRequest.plain "a" 7))] =
           some s ∧
      s.log.map Prod.snd = [7, 8, 7] ∧
      ∀ key key' v, (key, v) ∈ s.log → (key', v) ∈ s.log → key = key' := by
  have halone : Along (step id) (Alone id) (start (List Bytes) 7)
      [.connect false, .message 0 Env.plain none (.loginRequest (LoginRequest.plain "a" 7)),
       .connect true, .message 1 Env.plain none (.loginRequest (LoginRequest.plain "b" 8)),
       .message 1 Env.plain none (.auth2fa [1, 2] []),
       .connect false, .message 2 Env.plain none (.loginRequest (LoginRequest.plain "a" 7))] := by
    decide +kernel
  have hrun : (exec (step id) (start (List Bytes) 7)
      [.connect false, .message 0 Env.plain none (.loginRequest (LoginRequest.plain "a" 7)),
       .connect true, .message 1 Env.plain none (.loginRequest (LoginRequest.plain "b" 8)),
       .message 1 Env.plain none (.auth2fa [1, 2] []),
       .connect false, .message 2 Env.plain none (.loginRequest (LoginRequest.plain "a" 7))]).any
        (fun s => decide (s.log.map Prod.snd = [7, 8, 7])) = true := by
    decide +kernel
  obtain ⟨s, hs, hp⟩ := (Option.any_eq_true _ _).mp hrun
  exact ⟨s, hs, of_decide_eq_true hp, one_time id hs halone⟩

/-- A tunnel asked for with the current password, whose target does not answer. -/
def refusedTunnel : DeskAct :=
  .message 0 { Env.plain with targetReachable := false } none
    (.loginRequest { LoginRequest.plain "a" 7 with union := some (.portForward "" 80 false) })

/-- One password lets in two sessions. The first shows it for a tunnel whose target does not
answer: it is not authorized, the password stays, and its session remembers it. The second
comes in on the password. The first tries again, and comes in on what its session remembers. -/
theorem one_time_twice :
    ∃ (as : List DeskAct) (s : Desk (List Bytes)), exec (step id) (start _ 7) as = some s ∧
      ∃ key key' v, (key, v) ∈ s.log ∧ (key', v) ∈ s.log ∧ key ≠ key' := by
  have hrun : (exec (step id) (start (List Bytes) 7)
      [.connect false, refusedTunnel,
       .connect false, .message 1 Env.plain none (.loginRequest (LoginRequest.plain "b" 7)),
       .connect false, .message 2 Env.plain none (.loginRequest (LoginRequest.plain "a" 7))]).any
        (fun s => decide ((⟨"b", "", 0⟩, 7) ∈ s.log ∧ (⟨"a", "", 0⟩, 7) ∈ s.log)) = true := by
    decide +kernel
  obtain ⟨s, hs, hp⟩ := (Option.any_eq_true _ _).mp hrun
  obtain ⟨hb, ha⟩ := of_decide_eq_true hp
  exact ⟨_, s, hs, _, _, 7, hb, ha, by decide⟩

end Desk
end Login
end BgDesk
