import BgDesk.BytesCodec

/-!
# Logging in to a connection

`src/server/connection.rs`, from the arrival of a message to `authorized`:
`on_message` for `LoginRequest`, `Auth2fa` and `SwitchSidesResponse`, the
`Authorize` of the connection manager, and what they call.

What a handler reads and writes beside its connection is the `World`: the table
of sessions and the temporary password, here a number that grows with every new
one. Everything else it asks about is an answer of the environment (`Env`), which
may be different at every step: options, permissions, throttles, the stored
permanent password, the TOTP clock, the trusted devices, the target of a tunnel.

Every handler returns the world, the connection, and whether the connection is
kept. `sent` collects the login errors a connection has been sent.
-/

namespace BgDesk

/-! ## Targets of a tunnel -/

/-- `normalize_port_forward_target`: the address, and whether it was asked for as RDP. -/
def normalizePortForwardTarget (host : String) (port : ℤ) : String × Bool :=
  let isRdp := host = "RDP" ∧ port = 0
  let host' := if isRdp then "localhost" else host
  let port' := if isRdp then 3389 else port
  let host'' := if host'.isEmpty then "localhost" else host'
  (host'' ++ ":" ++ toString port', decide isRdp)

/-- `unreachable_message`, which is also what a plain tunnel's login is answered with. -/
def unreachableMessage (addr : String) (isRdp : Bool) : String :=
  "Failed to access remote " ++ (if isRdp then "RDP" else addr) ++
    ". Please make sure it is reachable/open."

namespace Login

/-! ## Requests -/

/-- `login_request::Union`. -/
inductive LoginUnion where
  | fileTransfer (dir : String) (showHidden : Bool)
  | viewCamera
  | terminal (serviceId : String)
  | portForward (host : String) (port : ℤ) (multiplex : Bool)
  /-- a variant this build does not know -/
  | unknown
  deriving DecidableEq

/-- `LoginRequest`, as far as logging in reads it. -/
structure LoginRequest where
  username : String
  /-- the response to the challenge; empty when no password was entered -/
  password : Bytes
  myId : String
  myName : String
  myPlatform : String
  sessionId : ℕ
  hwid : Bytes
  union : Option LoginUnion
  /-- `os_login.username` -/
  osUsername : String
  /-- `get_version_number(version)` -/
  version : ℕ
  deriving DecidableEq

/-- A request nobody has sent, which a connection starts with. -/
def LoginRequest.default : LoginRequest := ⟨"", [], "", "", "", 0, [], none, "", 0⟩

/-- The request is for a terminal. -/
def LoginRequest.isTerminal (lr : LoginRequest) : Bool :=
  match lr.union with
  | some (.terminal _) => true
  | _ => false

/-- A request for the desktop, with a number for its password. -/
def LoginRequest.plain (id : String) (password : ℕ) : LoginRequest :=
  { LoginRequest.default with myId := id, password := [UInt8.ofNat password] }

/-- `SessionKey`. -/
structure SessionKey where
  peerId : String
  name : String
  sessionId : ℕ
  deriving DecidableEq

def LoginRequest.key (lr : LoginRequest) : SessionKey := ⟨lr.myId, lr.myName, lr.sessionId⟩

/-- A message of the peer. -/
inductive Msg where
  | closeReason
  | loginRequest (lr : LoginRequest)
  | auth2fa (code hwid : Bytes)
  /-- `none` is a uuid of the wrong length -/
  | switchSidesResponse (uuid : Option ℕ) (lr : Option LoginRequest)
  | other
  deriving DecidableEq

/-! ## World and environment -/

/-- `Session`: the temporary password it came in on (`none` is the empty string), whether
it has passed the second factor, and when it was last heard of. -/
structure Session where
  randomPassword : Option ℕ
  tfa : Bool
  lastRecvTime : ℕ
  deriving DecidableEq

/-- `SESSION_TIMEOUT`, in seconds. -/
def sessionTimeout : ℕ := 30

/-- What all connections share: `SESSIONS` and `TEMPORARY_PASSWORD`. -/
structure World where
  now : ℕ
  sessions : List (SessionKey × Session)
  temporary : ℕ
  deriving DecidableEq

namespace World

/-- `SESSIONS.get(..)`. -/
def session (w : World) (key : SessionKey) : Option Session :=
  (w.sessions.find? fun p => p.1 = key).map Prod.snd

/-- `SESSIONS.remove(..)`. -/
def removeSession (w : World) (key : SessionKey) : World :=
  { w with sessions := w.sessions.filter fun p => p.1 ≠ key }

/-- Put a session under its key, over the one that is there. -/
def insertSession (w : World) (key : SessionKey) (s : Session) : World :=
  { w with sessions := (key, s) :: (w.removeSession key).sessions }

/-- `SESSIONS.retain(..)`: sessions not heard of for too long go. -/
def retain (w : World) : World :=
  { w with sessions := w.sessions.filter fun p => w.now - p.2.lastRecvTime < sessionTimeout }

/-- `update_or_insert_session`. -/
def updateOrInsertSession (w : World) (key : SessionKey) (password : Option ℕ) (tfa : Option Bool) :
    World :=
  w.insertSession key <| match w.session key with
    | some s =>
      { s with randomPassword := if password.isSome then password else s.randomPassword
               tfa := tfa.getD s.tfa }
    | none => ⟨password, tfa.getD false, w.now⟩

/-- `set_session_2fa`. -/
def setSession2fa (w : World) (key : SessionKey) : World :=
  w.insertSession key <| match w.session key with
    | some s => { s with tfa := true }
    | none => ⟨none, true, w.now⟩

/-- `update_temporary_password`: a new one, never there before. -/
def updateTemporaryPassword (w : World) : World := { w with temporary := w.temporary + 1 }

/-- A later world with no session that was not there. -/
structure Shrunk (w w' : World) : Prop where
  sessions : w'.sessions ⊆ w.sessions
  temporary : w.temporary ≤ w'.temporary

theorem Shrunk.of_eq {w w' : World} (h : w' = w) : w.Shrunk w' := by
  subst h
  exact ⟨List.Subset.refl _, le_refl _⟩

theorem Shrunk.trans {w₁ w₂ w₃ : World} (h : w₁.Shrunk w₂) (h' : w₂.Shrunk w₃) : w₁.Shrunk w₃ :=
  ⟨List.Subset.trans h'.sessions h.sessions, h.temporary.trans h'.temporary⟩

/-- To drop what has expired adds nothing. -/
theorem retain_shrunk (w : World) : w.Shrunk w.retain :=
  ⟨List.filter_subset_self _, le_refl _⟩

theorem removeSession_shrunk (w : World) (key : SessionKey) : w.Shrunk (w.removeSession key) :=
  ⟨List.filter_subset_self _, le_refl _⟩

/-- A new temporary password comes with no session. -/
theorem updateTemporaryPassword_shrunk (w : World) : w.Shrunk w.updateTemporaryPassword :=
  ⟨List.Subset.refl _, Nat.le_succ _⟩

end World

/-- `ApproveMode`. -/
inductive ApproveMode where
  | both
  | password
  | click
  deriving DecidableEq

/-- `TrustedDevice`, and whether it is out of date. -/
structure TrustedDevice where
  hwid : Bytes
  id : String
  name : String
  platform : String
  outdate : Bool
  deriving DecidableEq

/-- What the environment answers while one message or event is handled. -/
structure Env where
  approveMode : ApproveMode
  hasValidPassword : Bool
  allowLogonScreenPassword : Bool
  temporaryEnabled : Bool
  permanentEnabled : Bool
  /-- whether the response fits a plain password, by number -/
  verify : ℕ → Bytes → Bool
  /-- whether the response fits the permanent password, local or preset -/
  permanentMatches : Bytes → Bool
  /-- `check_id_whitelist`: `some` refuses, with the error it sends -/
  checkIdWhitelist : LoginRequest → Option String
  /-- `permission` of the option a request needs -/
  permission : Option LoginUnion → Bool
  /-- `check_privacy_mode_on` -/
  checkPrivacyModeOn : Bool
  /-- not Windows, or an installed version, where the credentials of a user can be taken -/
  osLoginSupported : Bool
  /-- not Windows, or somebody is logged on at the console -/
  consoleUser : Bool
  /-- the request names this device -/
  addressed : LoginRequest → Bool
  /-- `should_use_terminal_os_login_scope` -/
  terminalOsLogin : LoginRequest → Bool
  /-- `check_failure` of the password (0) or the second-factor (1) bucket: `some` blocks the
  attempt, with the error it sends -/
  checkFailure : ℕ → Option String
  /-- this wrong password makes `check_update_temporary_password` rotate -/
  rotates : Bool
  /-- `totp.check_current`; `none` is an error -/
  checkCurrent : Bytes → Option Bool
  enableTrustedDevices : Bool
  trustedDevices : List TrustedDevice
  /-- `prepare_terminal_login_for_authorization` on a terminal: `some` refuses, with the
  errors it sends -/
  prepareTerminal : Option (List String)
  /-- the target of a plain tunnel answers -/
  targetReachable : Bool
  /-- `authorized_scope_violation` of a message, and whether the connection survives it -/
  scopeViolation : Msg → Option Bool
  /-- whether a message beyond logging in keeps an authorized connection -/
  keepOther : Bool
  /-- `check_remove_session` takes the session with the connection -/
  forgets : Bool

/-- An environment that refuses nothing, where a password fits if it is the number itself and
the code is 1, 2. -/
def Env.plain : Env where
  approveMode := .both
  hasValidPassword := true
  allowLogonScreenPassword := false
  temporaryEnabled := true
  permanentEnabled := false
  verify p response := response = [UInt8.ofNat p]
  permanentMatches _ := false
  checkIdWhitelist _ := none
  permission _ := true
  checkPrivacyModeOn := true
  osLoginSupported := true
  consoleUser := true
  addressed _ := true
  terminalOsLogin _ := false
  checkFailure _ := none
  rotates := false
  checkCurrent code := some (code = [1, 2])
  enableTrustedDevices := false
  trustedDevices := []
  prepareTerminal := none
  targetReachable := true
  scopeViolation _ := none
  keepOther := true
  forgets := false

/-! ## The connection -/

/-- `Connection`, as far as logging in reads and writes it. `D` is the type of scope
digests. -/
structure Connection (D : Type) where
  authorized : Bool
  /-- a second factor is asked for -/
  require2fa : Bool
  awaiting2fa : Bool
  fromSwitch : Bool
  loginScope : Option D
  lr : LoginRequest
  terminal : Bool
  /-- `is_port_forward` -/
  portForward : Bool
  /-- the connection manager has been told of this connection -/
  cmTold : Bool
  sent : List String

/-- A connection as it starts, with the second factor configured or not. -/
def Connection.start (D : Type) (require2fa : Bool) : Connection D :=
  ⟨false, require2fa, false, false, none, .default, false, false, false, []⟩

/-- World and connection after a handler, and whether the connection is kept. -/
structure Handled (D : Type) where
  world : World
  conn : Connection D
  keep : Bool

/-- `try_start_cm`: the connection manager is told of the connection. -/
def Connection.tryStartCm {D : Type} (c : Connection D) : Connection D := { c with cmTold := true }

/-- `if !.. { return false; } self.try_start_cm(..)`. -/
def Handled.thenStartCm {D : Type} (h : Handled D) : Handled D :=
  if h.keep then { h with conn := h.conn.tryStartCm } else h

namespace Connection

variable {D : Type}

/-- `session_key`. -/
def sessionKey (c : Connection D) : SessionKey := c.lr.key

/-- `send_login_error`. -/
def sendLoginError (c : Connection D) (err : String) : Connection D :=
  { c with sent := c.sent ++ [err] }

/-- `prepare_terminal_login_for_authorization`: `none` goes on, `some` closes. -/
def prepareTerminalLogin (e : Env) (c : Connection D) : Option (Connection D) :=
  if c.terminal then e.prepareTerminal.map fun errs => { c with sent := c.sent ++ errs } else none

/-- `validate_password_plain`, of the request `self.lr`. -/
def validatePasswordPlain (e : Env) (lr : LoginRequest) (password : Option ℕ) : Bool :=
  match password with
  | none => false
  | some p => e.verify p lr.password

/-- `is_recent_session`, of the request `self.lr`, with the table it leaves. -/
def isRecentSession (w : World) (e : Env) (lr : LoginRequest) (tfa : Bool) : World × Bool :=
  let w := w.retain
  match w.session lr.key with
  | some session =>
    (w, !lr.password.isEmpty &&
      (tfa && session.tfa || !tfa && validatePasswordPlain e lr session.randomPassword))
  | none => (w, false)

/-- `validate_password`, of the request `self.lr`, with the world it leaves. -/
def validatePassword (w : World) (e : Env) (lr : LoginRequest) : World × Bool :=
  if e.temporaryEnabled && validatePasswordPlain e lr (some w.temporary) then
    (w.updateOrInsertSession lr.key (some w.temporary) (some false), true)
  else (w, (e.permanentEnabled || e.allowLogonScreenPassword) && e.permanentMatches lr.password)

/-- The target of a request can be had: it is no plain tunnel, or it answers. -/
def targetUp (e : Env) (lr : LoginRequest) : Bool :=
  match lr.union with
  | some (.portForward _ _ multiplex) => multiplex || e.targetReachable
  | _ => true

/-- `connect_port_forward_if_needed`. -/
def connectPortForwardIfNeeded (e : Env) (c : Connection D) : Connection D × Bool :=
  if c.portForward then (c, true)
  else
    match c.lr.union with
    | some (.portForward host port _) =>
      if targetUp e c.lr then ({ c with portForward := true }, true)
      else
        let (addr, isRdp) := normalizePortForwardTarget host port
        (c.sendLoginError (unreachableMessage addr isRdp), false)
    | _ => (c, true)

/-- `send_logon_response_and_keep_alive` once no second factor is missing: the only place
that sets `authorized`. -/
def finishLogon (w : World) (e : Env) (c : Connection D) : Handled D :=
  match c.prepareTerminalLogin e with
  | some c => ⟨w, c, false⟩
  | none =>
    let (c, up) := c.connectPortForwardIfNeeded e
    if up then ⟨w.updateTemporaryPassword, { c with authorized := true }, true⟩ else ⟨w, c, false⟩

/-- `send_logon_response_and_keep_alive`. -/
def sendLogonResponse (w : World) (e : Env) (c : Connection D) : Handled D :=
  if c.authorized then ⟨w, c, true⟩
  else if c.require2fa then
    let (w, recent) := isRecentSession w e c.lr true
    if !recent && !c.fromSwitch then
      ⟨w, { c with awaiting2fa := true }.sendLoginError "2FA Required", true⟩
    else { c with awaiting2fa := false }.finishLogon w e
  else { c with awaiting2fa := false }.finishLogon w e

/-- The device the request comes from is a trusted one, and current. -/
def trusted (e : Env) (lr : LoginRequest) : Bool :=
  !lr.hwid.isEmpty && e.enableTrustedDevices &&
    match e.trustedDevices.find? fun d => d.hwid = lr.hwid with
    | some d => !d.outdate && d.id = lr.myId && d.name = lr.myName && d.platform = lr.myPlatform
    | none => false

/-- `handle_login_request_without_validation`. -/
def handleLoginRequestWithoutValidation (e : Env) (c : Connection D) (lr : LoginRequest) :
    Connection D :=
  { c with lr := lr, require2fa := c.require2fa && !trusted e lr }

/-- `reset_session_scope_for_login`. -/
def resetSessionScopeForLogin (c : Connection D) : Connection D := { c with terminal := false }

/-- What `on_message` refuses the scope of a request with. -/
def scopeError (e : Env) (lr : LoginRequest) : Option String :=
  match lr.union with
  | some (.fileTransfer _ _) =>
    if e.permission lr.union then none else some "No permission of file transfer"
  | some .viewCamera =>
    if e.permission lr.union then none else some "No permission of viewing camera"
  | some (.terminal _) =>
    if !e.permission lr.union then some "No permission of terminal"
    else if !lr.osUsername.isEmpty && !e.osLoginSupported then
      some "Supported only in the installed version."
    else none
  | some (.portForward _ _ _) =>
    if e.permission lr.union then none else some "No permission of IP tunneling"
  | _ =>
    if e.checkPrivacyModeOn then none else some "Someone turns on privacy mode, exit"

/-- The part of `on_message` that sets the scope of the session. -/
def sessionScope (e : Env) (c : Connection D) (lr : LoginRequest) : Except String (Connection D) :=
  match scopeError e lr with
  | some err => .error err
  | none => .ok { c with terminal := c.terminal || lr.isTerminal }

/-- A terminal login with the credentials of a user is prepared before it waits. -/
def waitForApproval (w : World) (e : Env) (c : Connection D) (lr : LoginRequest) : Handled D :=
  match if e.terminalOsLogin lr then c.prepareTerminalLogin e else none with
  | some c => ⟨w, c, false⟩
  | none => ⟨w, c.tryStartCm, true⟩

/-- Passwords do not let anybody in: somebody has to click. -/
def clickOnly (e : Env) : Bool :=
  (e.approveMode = .click && !e.allowLogonScreenPassword) ||
    (e.approveMode = .both && !e.hasValidPassword)

/-- The branch of `on_message` that decides how a request is let in. -/
def admitLogin (w : World) (e : Env) (c : Connection D) (lr : LoginRequest) : Handled D :=
  if clickOnly e then
    let h := c.waitForApproval w e lr
    -- only a peer from 1.2.0 on understands the message
    if h.keep && 1002000 ≤ lr.version then
      { h with conn := h.conn.sendLoginError "No Password Access" }
    else h
  else
    let (w, recent) := isRecentSession w e c.lr false
    if recent then
      (c.sendLogonResponse w e).thenStartCm
    else if lr.password.isEmpty then c.waitForApproval w e lr
    else
      match e.checkFailure 0 with
      | some err => ⟨w, c.sendLoginError err, true⟩
      | none =>
        let (w, valid) := validatePassword w e c.lr
        if valid then
          (c.sendLogonResponse w e).thenStartCm
        else
          let w := if e.rotates then w.updateTemporaryPassword else w
          ⟨w, (c.sendLoginError "Wrong Password").tryStartCm, true⟩

/-- The bytes of a string. -/
def utf8 (s : String) : Bytes := s.toUTF8.toList

/-- `to_le_bytes` of an `i32`. -/
def leBytes (n : ℤ) : Bytes :=
  (List.range 4).map fun i => UInt8.ofNat ((n % 2 ^ 32).toNat / 256 ^ i)

/-- The fields `login_scope_digest` hashes, each with its length before it. -/
def loginScopeFields (lr : LoginRequest) : List Bytes :=
  utf8 lr.myId :: match lr.union with
    | some (.fileTransfer dir showHidden) =>
      [utf8 "file_transfer", utf8 dir, [if showHidden then 1 else 0]]
    | some .viewCamera => [utf8 "view_camera"]
    | some (.terminal serviceId) => [utf8 "terminal", utf8 serviceId]
    | some (.portForward host port multiplex) =>
      [utf8 "port_forward", utf8 host, leBytes port, [if multiplex then 1 else 0]]
    -- variants this build does not know execute as remote
    | some .unknown | none => [utf8 "remote"]

section Messages

variable [DecidableEq D] (digest : List Bytes → D)

/-- `check_login_scope`: the first request latches the scope, a later one may not change
it. -/
def checkLoginScope (c : Connection D) (lr : LoginRequest) : Option (Connection D) :=
  match c.loginScope with
  | some initial => if initial = digest (loginScopeFields lr) then some c else none
  | none => some { c with loginScope := some (digest (loginScopeFields lr)) }

/-- `on_message` for a `LoginRequest`. -/
def onLoginRequest (w : World) (e : Env) (c : Connection D) (lr : LoginRequest) : Handled D :=
  if c.authorized then ⟨w, c, true⟩
  else
    match c.checkLoginScope digest lr with
    | none => ⟨w, c.sendLoginError "Connection not allowed", false⟩
    | some c =>
      let c := { c with awaiting2fa := false }
      let c := c.handleLoginRequestWithoutValidation e lr
      let c := c.resetSessionScopeForLogin
      match e.checkIdWhitelist lr with
      | some err => ⟨w, c.sendLoginError err, false⟩
      | none =>
        match c.sessionScope e lr with
        | .error err => ⟨w, c.sendLoginError err, false⟩
        | .ok c =>
          if !e.addressed lr then ⟨w, c.sendLoginError "Offline", false⟩
          else if c.terminal && lr.osUsername.trimAscii.isEmpty && !e.consoleUser then
            ⟨w, c.sendLoginError
              "No active console user logged on, please connect and logon first.", false⟩
          else c.admitLogin w e lr

/-- `on_message` for an `Auth2fa`. -/
def onAuth2fa (w : World) (e : Env) (c : Connection D) (code : Bytes) : Handled D :=
  if !c.awaiting2fa then ⟨w, c, true⟩
  else
    match e.checkFailure 1 with
    | some err => ⟨w, c.sendLoginError err, true⟩
    | none =>
      if c.require2fa then
        match e.checkCurrent code with
        | none => ⟨w, c, true⟩
        | some false => ⟨w, c.sendLoginError "Wrong 2FA Code", true⟩
        | some true =>
          ({ c with require2fa := false }.sendLogonResponse (w.setSession2fa c.sessionKey)
            e).thenStartCm
      else ⟨w, c, true⟩

/-- `on_message` for a `SwitchSidesResponse` whose `uuid` is the registered one. -/
def onSwitchSides (w : World) (e : Env) (c : Connection D) (lr : LoginRequest) : Handled D :=
  if lr.union.isSome then ⟨w, c.sendLoginError "Connection not allowed", false⟩
  else
    let c := c.resetSessionScopeForLogin
    let c := c.handleLoginRequestWithoutValidation e lr
    match e.checkIdWhitelist lr with
    | some err => ⟨w, c.sendLoginError err, false⟩
    | none =>
      ({ c with fromSwitch := true }.sendLogonResponse w e).thenStartCm

/-- `on_message`. `registered` is the uuid found, and taken, under the id of a
`SwitchSidesResponse`. -/
def onMessage (w : World) (e : Env) (registered : Option ℕ) (c : Connection D) (m : Msg) :
    Handled D :=
  match if c.authorized then e.scopeViolation m else none, m with
  | _, .closeReason => ⟨if e.forgets then w.removeSession c.sessionKey else w, c, false⟩
  | _, .loginRequest lr => c.onLoginRequest digest w e lr
  | some keep, _ => ⟨w, c, keep⟩
  | none, .auth2fa code _ => c.onAuth2fa w e code
  | none, .switchSidesResponse (some uuid) (some lr) =>
    if registered = some uuid then c.onSwitchSides w e lr else ⟨w, c, true⟩
  | none, .switchSidesResponse _ _ => ⟨w, c, true⟩
  | none, .other => ⟨w, c, !c.authorized || e.keepOther⟩

/-- The `Authorize` of the connection manager. -/
def onAuthorize (w : World) (e : Env) (c : Connection D) : Handled D :=
  { c with require2fa := false }.sendLogonResponse w e

end Messages

/-! ## What the handlers do

One inversion lemma for each of them. What they do to a connection that is not
authorized is all that is asked: an authorized one stays authorized. -/

/-- The request was let in on its password: by the session that remembers it, or by
`validate_password`. -/
def Accepted (w : World) (e : Env) (lr : LoginRequest) : Prop :=
  clickOnly e = false ∧ lr.password ≠ [] ∧
    ((isRecentSession w e lr false).2 = true ∨
      e.checkFailure 0 = none ∧ (validatePassword w.retain e lr).2 = true)

/-- Two connections stand at the same point of logging in: they differ in what has been
sent, and in what the connection manager knows. -/
structure SameLogin (c c' : Connection D) : Prop where
  authorized : c'.authorized = c.authorized
  require2fa : c'.require2fa = c.require2fa
  awaiting2fa : c'.awaiting2fa = c.awaiting2fa
  fromSwitch : c'.fromSwitch = c.fromSwitch
  lr : c'.lr = c.lr

theorem SameLogin.refl (c : Connection D) : SameLogin c c := ⟨rfl, rfl, rfl, rfl, rfl⟩

/-- Sessions that have expired are dropped first, whatever comes of it. -/
theorem isRecentSession_fst (w : World) (e : Env) (lr : LoginRequest) (tfa : Bool) :
    (isRecentSession w e lr tfa).1 = w.retain := by
  rw [isRecentSession]
  cases w.retain.session lr.key <;> simp

variable {w : World} {e : Env} {lr : LoginRequest} {c c' : Connection D}

/-- No session is recent for an empty password. -/
theorem password_of_isRecentSession {tfa : Bool} (h : (isRecentSession w e lr tfa).2 = true) :
    lr.password ≠ [] := by
  rw [isRecentSession] at h
  cases hs : w.retain.session lr.key with
  | none => simp [hs] at h
  | some session =>
    simp only [hs, Bool.and_eq_true] at h
    simpa using h.1

theorem retain_retain (w : World) : w.retain.retain = w.retain := by
  simp only [World.retain, List.filter_filter]
  congr 1
  exact List.filter_congr fun _ _ => Bool.and_self _

/-- The second factor a session has shown is looked up in a table that was purged before. -/
theorem isRecentSession_retain (w : World) (e : Env) (lr : LoginRequest) (tfa : Bool) :
    isRecentSession w.retain e lr tfa = isRecentSession w e lr tfa := by
  rw [isRecentSession, isRecentSession, retain_retain]

/-- A session that has just been given its password has shown no second factor. -/
theorem isRecentSession_validatePassword
    (h : (isRecentSession (validatePassword w.retain e lr).1 e lr true).2 = true) :
    (isRecentSession w e lr true).2 = true := by
  rw [validatePassword] at h
  split at h
  · exfalso
    -- the entry of the session says `tfa = false`, and there is no other under its key
    rw [isRecentSession] at h
    cases hs : ((w.retain.updateOrInsertSession lr.key (some w.retain.temporary)
        (some false)).retain).session lr.key with
    | none => simp [hs] at h
    | some session =>
      have htfa : session.tfa = false := by
        rw [World.session, Option.map_eq_some_iff] at hs
        obtain ⟨⟨k, s⟩, hfind, rfl⟩ := hs
        have hmem := List.mem_of_find?_eq_some hfind
        have hk : k = lr.key := by simpa using List.find?_some hfind
        have hmem := (List.mem_filter.mp hmem).1
        rw [World.updateOrInsertSession, World.insertSession, List.mem_cons] at hmem
        rcases hmem with heq | hmem
        · obtain ⟨-, rfl⟩ := Prod.mk.inj heq
          split <;> rfl
        · exact absurd hk (by simpa using (List.mem_filter.mp hmem).2)
      simp [hs, htfa] at h
  · rwa [isRecentSession_retain] at h

/-- Outcomes of `send_logon_response_and_keep_alive` for a connection that is not
authorized: a second factor is asked for, or the connection is authorized, or it is
closed. -/
inductive Logon (w : World) (e : Env) (c : Connection D) : Handled D → Prop where
  | pending (c' : Connection D) (factor : c.require2fa = true)
      (notRecent : (isRecentSession w e c.lr true).2 = false) (notSwitch : c.fromSwitch = false)
      (same : SameLogin { c with awaiting2fa := true } c') : Logon w e c ⟨w.retain, c', true⟩
  | letIn (c' : Connection D)
      (factor : c.require2fa = false ∨ (isRecentSession w e c.lr true).2 = true ∨
        c.fromSwitch = true)
      (prepared : c.terminal = true → e.prepareTerminal = none)
      (up : c.portForward = true ∨ targetUp e c.lr = true)
      (same : SameLogin { c with awaiting2fa := false, authorized := true } c') :
      Logon w e c ⟨(if c.require2fa then w.retain else w).updateTemporaryPassword, c', true⟩
  | closed (c' : Connection D) (same : c'.authorized = false) :
      Logon w e c ⟨if c.require2fa then w.retain else w, c', false⟩

theorem connectPortForwardIfNeeded_same (e : Env) (c : Connection D) :
    SameLogin c (c.connectPortForwardIfNeeded e).1 := by
  rw [connectPortForwardIfNeeded]
  split
  · exact .refl c
  · split
    · split <;> exact ⟨rfl, rfl, rfl, rfl, rfl⟩
    · exact .refl c

/-- A tunnel is up if it was before, or if its target can be reached. -/
theorem connectPortForwardIfNeeded_up (h : (c.connectPortForwardIfNeeded e).2 = true) :
    c.portForward = true ∨ targetUp e c.lr = true := by
  rw [connectPortForwardIfNeeded] at h
  split at h
  · next hp => exact .inl hp
  · refine .inr ?_
    split at h
    · split at h
      · assumption
      · cases h
    · next hu =>
      rw [targetUp]
      split
      · next heq => exact absurd heq (hu _ _ _)
      · rfl

theorem prepareTerminalLogin_none (h : c.prepareTerminalLogin e = none) (ht : c.terminal = true) :
    e.prepareTerminal = none := by
  rw [prepareTerminalLogin, if_pos ht] at h
  exact Option.map_eq_none_iff.mp h

theorem prepareTerminalLogin_same (h : c.prepareTerminalLogin e = some c') : SameLogin c c' := by
  rw [prepareTerminalLogin] at h
  split at h
  · obtain ⟨errs, -, rfl⟩ := Option.map_eq_some_iff.mp h
    exact ⟨rfl, rfl, rfl, rfl, rfl⟩
  · cases h

/-- The end of a login: no second factor is needed, a recent session has given it, or the sides were
switched. -/
theorem finishLogon_logon {w' : World} (hc : c.authorized = false)
    (hw : w' = if c.require2fa then w.retain else w)
    (hf : c.require2fa = false ∨ (isRecentSession w e c.lr true).2 = true ∨ c.fromSwitch = true) :
    Logon w e c ({ c with awaiting2fa := false }.finishLogon w' e) := by
  subst hw
  rw [finishLogon]
  cases ht : { c with awaiting2fa := false }.prepareTerminalLogin e with
  | some c' => exact .closed c' ((prepareTerminalLogin_same ht).authorized.trans hc)
  | none =>
    have hs := connectPortForwardIfNeeded_same e { c with awaiting2fa := false }
    dsimp only
    split
    · next hup =>
      have hprep := prepareTerminalLogin_none ht
      have hup := connectPortForwardIfNeeded_up hup
      exact .letIn _ hf hprep hup
        ⟨rfl, hs.require2fa, hs.awaiting2fa, hs.fromSwitch, hs.lr⟩
    · exact .closed _ (hs.authorized.trans hc)

theorem sendLogonResponse_logon (w : World) (e : Env) (hc : c.authorized = false) :
    Logon w e c (c.sendLogonResponse w e) := by
  rw [sendLogonResponse, if_neg (by simp [hc])]
  by_cases h2 : c.require2fa = true
  · rw [if_pos h2]
    simp only [isRecentSession_fst]
    split
    · next hp =>
      rw [Bool.and_eq_true, Bool.not_eq_true', Bool.not_eq_true'] at hp
      exact .pending _ h2 hp.1 hp.2 ⟨rfl, rfl, rfl, rfl, rfl⟩
    · next hp =>
      refine finishLogon_logon hc (by rw [if_pos h2]) (.inr ?_)
      simpa [imp_iff_not_or] using hp
  · rw [if_neg h2]
    exact finishLogon_logon hc (by rw [if_neg h2]) (.inl (by simpa using h2))

theorem thenStartCm_same (h : Handled D) : SameLogin h.conn h.thenStartCm.conn := by
  rw [Handled.thenStartCm]
  split <;> exact ⟨rfl, rfl, rfl, rfl, rfl⟩

@[simp] theorem thenStartCm_world (h : Handled D) : h.thenStartCm.world = h.world := by
  rw [Handled.thenStartCm]
  split <;> rfl

@[simp] theorem thenStartCm_keep (h : Handled D) : h.thenStartCm.keep = h.keep := by
  rw [Handled.thenStartCm]
  split <;> rfl

/-- How a request is decided: nobody is let in, or it is let in on the password its session
remembers, or on one that `validate_password` accepts. -/
inductive Decision (w : World) (e : Env) (c : Connection D) (lr : LoginRequest) : Handled D →
  Prop where
  | waits {h : Handled D} (shrunk : w.Shrunk h.world) (same : SameLogin c h.conn) :
    Decision w e c lr h
  | recent (passwords : clickOnly e = false) (recent : (isRecentSession w e lr false).2 = true) :
      Decision w e c lr (c.sendLogonResponse w.retain e).thenStartCm
  | valid (passwords : clickOnly e = false) (notRecent : (isRecentSession w e lr false).2 = false)
      (entered : lr.password ≠ []) (unblocked : e.checkFailure 0 = none)
      (valid : (validatePassword w.retain e lr).2 = true) :
      Decision w e c lr (c.sendLogonResponse (validatePassword w.retain e lr).1 e).thenStartCm

/-- To wait for a click changes no login. -/
theorem waitForApproval_same (w : World) (e : Env) (c : Connection D) (lr : LoginRequest) :
    SameLogin c (c.waitForApproval w e lr).conn ∧ (c.waitForApproval w e lr).world = w := by
  rw [waitForApproval]
  split
  · next h =>
    split at h
    · exact ⟨prepareTerminalLogin_same h, rfl⟩
    · cases h
  · exact ⟨⟨rfl, rfl, rfl, rfl, rfl⟩, rfl⟩

/-- A password that is refused leaves the world alone. -/
theorem validatePassword_false (h : (validatePassword w e lr).2 = false) :
    (validatePassword w e lr).1 = w := by
  rw [validatePassword] at h ⊢
  split
  · next ht => simp [ht] at h
  · rfl

/-- **What becomes of a login** once its scope is accepted. -/
theorem admitLogin_decision (w : World) (e : Env) (hlr : c.lr = lr) :
    Decision w e c lr (c.admitLogin w e lr) := by
  subst hlr
  rw [admitLogin]
  split
  · obtain ⟨hs, hw⟩ := waitForApproval_same w e c c.lr
    dsimp only
    split
    · exact .waits (.of_eq hw) ⟨hs.authorized, hs.require2fa, hs.awaiting2fa, hs.fromSwitch, hs.lr⟩
    · exact .waits (.of_eq hw) hs
  · next hclick =>
    have hclick : clickOnly e = false := by simpa using hclick
    simp only [isRecentSession_fst]
    split
    · next hr => exact .recent hclick hr
    · next hr =>
      have hr : (isRecentSession w e c.lr false).2 = false := by simpa using hr
      split
      · obtain ⟨hs, hw⟩ := waitForApproval_same w.retain e c c.lr
        exact .waits (by rw [hw]; exact w.retain_shrunk) hs
      · next hp =>
        have hp : c.lr.password ≠ [] := by simpa using hp
        cases hf : e.checkFailure 0 with
        | some err => exact .waits w.retain_shrunk ⟨rfl, rfl, rfl, rfl, rfl⟩
        | none =>
          dsimp only
          split
          · next hv => exact .valid hclick hr hp hf hv
          · next hv =>
            have hv : (validatePassword w.retain e c.lr).2 = false := by simpa using hv
            rw [validatePassword_false hv]
            refine .waits ?_ ⟨rfl, rfl, rfl, rfl, rfl⟩
            dsimp only
            split
            · exact w.retain_shrunk.trans w.retain.updateTemporaryPassword_shrunk
            · exact w.retain_shrunk

/-- A scope that is accepted sets the terminal flag, and nothing else. -/
theorem sessionScope_ok (h : c.sessionScope e lr = .ok c') :
    scopeError e lr = none ∧ c' = { c with terminal := c.terminal || lr.isTerminal } := by
  rw [sessionScope] at h
  split at h
  · cases h
  · next hs =>
    cases h
    exact ⟨hs, rfl⟩

theorem checkLoginScope_some [DecidableEq D] {digest : List Bytes → D}
    (h : c.checkLoginScope digest lr = some c') : c' = { c with loginScope := c'.loginScope } := by
  rw [checkLoginScope] at h
  repeat' split at h
  all_goals cases h
  all_goals rfl

/-- A request that is not refused before its password is looked at. -/
structure Proper [DecidableEq D] (digest : List Bytes → D) (e : Env) (c : Connection D)
    (lr : LoginRequest) : Prop where
  scope : (c.checkLoginScope digest lr).isSome = true
  whitelist : e.checkIdWhitelist lr = none
  permitted : scopeError e lr = none
  addressed : e.addressed lr = true
  console : (lr.isTerminal && lr.osUsername.trimAscii.isEmpty && !e.consoleUser) = false

instance [DecidableEq D] (digest : List Bytes → D) (e : Env) (c : Connection D)
    (lr : LoginRequest) : Decidable (c.Proper digest e lr) :=
  decidable_of_iff ((c.checkLoginScope digest lr).isSome = true ∧ e.checkIdWhitelist lr = none ∧
      scopeError e lr = none ∧ e.addressed lr = true ∧
      (lr.isTerminal && lr.osUsername.trimAscii.isEmpty && !e.consoleUser) = false)
    ⟨fun ⟨h₁, h₂, h₃, h₄, h₅⟩ => ⟨h₁, h₂, h₃, h₄, h₅⟩, fun h => ⟨h.1, h.2, h.3, h.4, h.5⟩⟩

/-- The connection that has taken over a request. -/
def takenOver (e : Env) (c : Connection D) (lr : LoginRequest) (scope : Option D) : Connection D :=
  { c with lr := lr, awaiting2fa := false, require2fa := c.require2fa && !trusted e lr
           terminal := lr.isTerminal, loginScope := scope }

/-- A `LoginRequest` closes the connection, or is decided on the connection that has taken it
over. -/
theorem onLoginRequest_cases [DecidableEq D] (digest : List Bytes → D) (w : World) (e : Env)
    (lr : LoginRequest) (hc : c.authorized = false) :
    ((c.onLoginRequest digest w e lr).keep = false ∧
      (c.onLoginRequest digest w e lr).conn.authorized = false ∧
      (c.onLoginRequest digest w e lr).world = w) ∨
    c.Proper digest e lr ∧ ∃ scope, Decision w e (c.takenOver e lr scope) lr
      (c.onLoginRequest digest w e lr) := by
  rw [onLoginRequest, if_neg (by simp [hc])]
  split
  · exact .inl ⟨rfl, hc, rfl⟩
  · next c₁ hscope =>
    have h₁ := checkLoginScope_some hscope
    have ha : c₁.authorized = false := by
      rw [h₁]
      exact hc
    dsimp only
    split
    · exact .inl ⟨rfl, ha, rfl⟩
    · next hwhite =>
      split
      · exact .inl ⟨rfl, ha, rfl⟩
      · next c₂ hs =>
        obtain ⟨hperm, rfl⟩ := sessionScope_ok hs
        split
        · exact .inl ⟨rfl, ha, rfl⟩
        · next haddr =>
          split
          · exact .inl ⟨rfl, ha, rfl⟩
          · next hconsole =>
            refine .inr ⟨⟨by rw [hscope]; rfl, hwhite, hperm, by simpa using haddr, ?_⟩,
              c₁.loginScope, ?_⟩
            · have hterm : (false || lr.isTerminal) = lr.isTerminal := Bool.false_or _
              rw [← hterm]
              exact Bool.eq_false_of_not_eq_true hconsole
            · rw [h₁]
              exact admitLogin_decision w e rfl

/-- An `Auth2fa` changes nothing, or its code was asked for and is right. -/
theorem onAuth2fa_cases (w : World) (e : Env) (code : Bytes) :
    ((c.onAuth2fa w e code).keep = true ∧ SameLogin c (c.onAuth2fa w e code).conn ∧
      (c.onAuth2fa w e code).world = w) ∨
    ((c.awaiting2fa = true ∧ c.require2fa = true ∧ e.checkFailure 1 = none ∧
        e.checkCurrent code = some true) ∧
      c.onAuth2fa w e code =
        ({ c with require2fa := false }.sendLogonResponse (w.setSession2fa c.sessionKey)
          e).thenStartCm) := by
  rw [onAuth2fa]
  split
  · exact .inl ⟨rfl, .refl c, rfl⟩
  · next ha =>
    have ha : c.awaiting2fa = true := by simpa using ha
    split
    · exact .inl ⟨rfl, ⟨rfl, rfl, rfl, rfl, rfl⟩, rfl⟩
    · next hblock =>
      split
      · next h2 =>
        split
        · exact .inl ⟨rfl, .refl c, rfl⟩
        · exact .inl ⟨rfl, ⟨rfl, rfl, rfl, rfl, rfl⟩, rfl⟩
        · next hcode => exact .inr ⟨⟨ha, h2, hblock, hcode⟩, rfl⟩
      · exact .inl ⟨rfl, .refl c, rfl⟩

theorem ite_retain_shrunk (w : World) (b : Bool) : w.Shrunk (if b then w.retain else w) := by
  split
  · exact w.retain_shrunk
  · exact .of_eq rfl

/-- Whatever becomes of a logon, the table of sessions does not grow. -/
theorem Logon.shrunk {h : Handled D} (hl : Logon w e c h) : w.Shrunk h.world := by
  cases hl with
  | pending => exact w.retain_shrunk
  | letIn => exact (ite_retain_shrunk w _).trans (World.updateTemporaryPassword_shrunk _)
  | closed => exact ite_retain_shrunk w _

/-- A logon that waits for no second factor authorizes the connection or closes it. -/
theorem Logon.settled {h : Handled D} (hl : Logon w e c h)
    (hs : c.require2fa = false ∨ c.fromSwitch = true) :
    h.keep = false ∧ h.conn.authorized = false ∨ h.conn.authorized = true := by
  cases hl with
  | pending c' h2 _ hn =>
    rcases hs with hs | hs
    · exact absurd h2 (by simp [hs])
    · exact absurd hn (by simp [hs])
  | letIn c' _ _ _ same => exact .inr same.authorized
  | closed c' ha => exact .inl ⟨rfl, ha⟩

theorem sendLogonResponse_shrunk (w : World) (e : Env) (c : Connection D) :
    w.Shrunk (c.sendLogonResponse w e).world := by
  cases hc : c.authorized with
  | false => exact (sendLogonResponse_logon w e hc).shrunk
  | true =>
    rw [sendLogonResponse, if_pos hc]
    exact .of_eq rfl

theorem onAuthorize_shrunk (w : World) (e : Env) (c : Connection D) :
    w.Shrunk (c.onAuthorize w e).world :=
  sendLogonResponse_shrunk w e _

theorem onSwitchSides_shrunk (w : World) (e : Env) (c : Connection D) (lr : LoginRequest) :
    w.Shrunk (c.onSwitchSides w e lr).world := by
  rw [onSwitchSides]
  split
  · exact .of_eq rfl
  · dsimp only
    split
    · exact .of_eq rfl
    · rw [thenStartCm_world]
      exact sendLogonResponse_shrunk w e _

/-- A `SwitchSidesResponse` with the right uuid authorizes the connection or closes it. -/
theorem onSwitchSides_settled (w : World) (e : Env) (lr : LoginRequest)
    (hc : c.authorized = false) :
    (c.onSwitchSides w e lr).keep = false ∧ (c.onSwitchSides w e lr).conn.authorized = false ∨
      (c.onSwitchSides w e lr).conn.authorized = true := by
  rw [onSwitchSides]
  split
  · exact .inl ⟨rfl, hc⟩
  · dsimp only
    split
    · exact .inl ⟨rfl, hc⟩
    · rw [thenStartCm_keep, (thenStartCm_same _).authorized]
      have hl := sendLogonResponse_logon w e
        (c := { (c.resetSessionScopeForLogin.handleLoginRequestWithoutValidation e lr) with
          fromSwitch := true }) hc
      exact hl.settled (.inr rfl)

/-- An `Authorize` authorizes the connection or closes it. -/
theorem onAuthorize_settled (w : World) (e : Env) (hc : c.authorized = false) :
    (c.onAuthorize w e).keep = false ∧ (c.onAuthorize w e).conn.authorized = false ∨
      (c.onAuthorize w e).conn.authorized = true :=
  (sendLogonResponse_logon w e (c := { c with require2fa := false }) hc).settled (.inl rfl)

/-- An authorization is not taken back. -/
theorem sendLogonResponse_authorized (w : World) (e : Env) (h : c.authorized = true) :
    (c.sendLogonResponse w e).conn.authorized = true := by
  rw [sendLogonResponse, if_pos h]
  exact h

/-- Nothing takes an authorization back, short of closing the connection. -/
theorem onMessage_authorized [DecidableEq D] (digest : List Bytes → D) (w : World) (e : Env)
    (registered : Option ℕ) (m : Msg) (h : c.authorized = true) :
    (c.onMessage digest w e registered m).conn.authorized = true := by
  unfold onMessage
  split
  · exact h
  · rw [onLoginRequest, if_pos h]
    exact h
  · exact h
  · next code _ _ =>
    obtain ⟨-, hs, -⟩ | ⟨-, heq⟩ := onAuth2fa_cases w e (c := c) code
    · exact hs.authorized.trans h
    · rw [heq, (thenStartCm_same _).authorized]
      exact sendLogonResponse_authorized _ e h
  · split
    · rw [onSwitchSides]
      split
      · exact h
      · dsimp only
        split
        · exact h
        · rw [(thenStartCm_same _).authorized]
          exact sendLogonResponse_authorized w e h
    · exact h
  · exact h
  · exact h

theorem onAuthorize_authorized (w : World) (e : Env) (h : c.authorized = true) :
    (c.onAuthorize w e).conn.authorized = true := by
  rw [onAuthorize]
  exact sendLogonResponse_authorized w e h

end Connection
end Login
end BgDesk
