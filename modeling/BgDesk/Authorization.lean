import BgDesk.Machine
import BgDesk.Login

/-!
# Who gets authorized

One connection from its start to its end, and the table `SWITCH_SIDES_UUID` it shares with
the rest of the program. The peer sends what it likes in any order, the connection manager
answers, and at every step the environment (`World`, `Env`) may be another one.

* `Gate.step` — a message, an event of the connection manager, a registration of a uuid,
  another connection that takes one, time passing;
* `Gate.Inv` — what the history says about a connection that is open and not authorized:
  while it waits for a second factor its latest request was accepted, and its second factor
  is gone only when one of its requests came from a trusted device.
-/

namespace BgDesk
namespace Login

/-! ## The machine -/

/-- `SWITCH_SIDES_UUID_TTL`, in seconds. -/
def switchSidesUuidTtl : ℕ := 10

/-- An entry of `SWITCH_SIDES_UUID`. -/
structure SwitchUuid where
  time : ℕ
  uuid : ℕ
  deriving DecidableEq

/-- What the connection manager sends to a connection. -/
inductive CmEvent where
  | authorize
  | close
  | other
  deriving DecidableEq

/-- A step of the connection or of what is around it. -/
inductive Act where
  /-- a message of the peer is handled -/
  | message (w : World) (e : Env) (m : Msg)
  /-- an event of the connection manager is handled -/
  | cm (w : World) (e : Env) (ev : CmEvent)
  /-- `insert_switch_sides_uuid` -/
  | register (id : String) (uuid : ℕ)
  /-- another connection takes the uuid registered under an id -/
  | elsewhere (id : String)
  /-- time passes -/
  | tick (seconds : ℕ)

/-- A connection, and the table of uuids. -/
structure Gate (D : Type) where
  conn : Connection D
  closed : Bool
  now : ℕ
  switchSides : String → Option SwitchUuid

namespace Gate

variable {D : Type}

/-- A connection as it starts. -/
def start (D : Type) (require2fa : Bool) : Gate D :=
  ⟨.start D require2fa, false, 0, fun _ => none⟩

/-- `SWITCH_SIDES_UUID.retain(..)`. -/
def freshUuid (s : Gate D) (id : String) : Option SwitchUuid :=
  (s.switchSides id).filter fun r => s.now - r.time < switchSidesUuidTtl

/-- `SWITCH_SIDES_UUID.retain(..)`, then `remove(id)`. -/
def takeUuid (s : Gate D) (id : String) : Gate D :=
  { s with switchSides := Function.update s.freshUuid id none }

/-- The connection after a handler. -/
def after (s : Gate D) (h : Handled D) : Gate D := { s with conn := h.conn, closed := !h.keep }

variable [DecidableEq D] (digest : List Bytes → D)

/-- A message is handled. A `SwitchSidesResponse` with a request takes the uuid of its id
whether or not it is the right one, unless the message is out of the connection's scope. -/
def message (s : Gate D) (w : World) (e : Env) (m : Msg) : Gate D :=
  match m with
  | .switchSidesResponse _ (some lr) =>
    let h := s.conn.onMessage digest w e ((s.freshUuid lr.myId).map SwitchUuid.uuid) m
    if s.conn.authorized && (e.scopeViolation m).isSome then s.after h
    else (s.takeUuid lr.myId).after h
  | m => s.after (s.conn.onMessage digest w e none m)

/-- The connection manager sends `Authorize` for connections it was told of. -/
def step (s : Gate D) : Act → Option (Gate D)
  | .message w e m => if s.closed then none else some (s.message digest w e m)
  | .cm w e .authorize =>
    if s.closed || !s.conn.cmTold then none else some (s.after (s.conn.onAuthorize w e))
  | .cm _ _ .close => if s.closed then none else some { s with closed := true }
  | .cm _ _ .other => if s.closed then none else some s
  | .register id uuid =>
    some { s with switchSides := Function.update s.switchSides id (some ⟨s.now, uuid⟩) }
  | .elsewhere id => some (s.takeUuid id)
  | .tick seconds => some { s with now := s.now + seconds }

end Gate

/-! ## What a message does to a connection that is not authorized -/

namespace Connection

variable {D : Type}

/-- Everything a message can do to a connection that is not authorized. -/
inductive Outcome (w : World) (e : Env) (registered : Option ℕ) (c : Connection D) :
    Msg → Handled D → Prop where
  | same {m : Msg} {h : Handled D} (notLogin : ∀ lr, m ≠ .loginRequest lr)
    (same : SameLogin c h.conn) :
      Outcome w e registered c m h
  | closed {m : Msg} {h : Handled D} (keep : h.keep = false)
    (unauthorized : h.conn.authorized = false) :
      Outcome w e registered c m h
  | waits {lr : LoginRequest} {h : Handled D} (unauthorized : h.conn.authorized = false)
      (factor : h.conn.require2fa = (c.require2fa && !trusted e lr))
      (accepted : h.conn.awaiting2fa = true → Accepted w e lr)
      (switch : h.conn.fromSwitch = c.fromSwitch) :
      Outcome w e registered c (.loginRequest lr) h
  | byPassword {lr : LoginRequest} {h : Handled D} (authorized : h.conn.authorized = true)
      (accepted : Accepted w e lr)
      (factor : (c.require2fa && !trusted e lr) = false ∨ (isRecentSession w e lr true).2 = true ∨
        c.fromSwitch = true) :
      Outcome w e registered c (.loginRequest lr) h
  | byCode {code hwid : Bytes} {h : Handled D} (authorized : h.conn.authorized = true)
      (awaiting : c.awaiting2fa = true) (code_ok : e.checkCurrent code = some true) :
      Outcome w e registered c (.auth2fa code hwid) h
  | bySwitch {uuid : ℕ} {lr : LoginRequest} {h : Handled D} (authorized : h.conn.authorized = true)
      (registered_eq : registered = some uuid) :
      Outcome w e registered c (.switchSidesResponse (some uuid) (some lr)) h

variable {c : Connection D}

/-- A logon on an accepted password asks for a second factor, authorizes or closes. -/
theorem Logon.outcome {w w' : World} {e : Env} {lr : LoginRequest} {scope : Option D}
    {h : Handled D} {registered : Option ℕ} (hc : c.authorized = false) (hacc : Accepted w e lr)
    (hrec : (isRecentSession w' e lr true).2 = true → (isRecentSession w e lr true).2 = true)
    (hl : Logon w' e (c.takenOver e lr scope) h) :
    Outcome w e registered c (.loginRequest lr) h.thenStartCm := by
  have ht := thenStartCm_same h
  cases hl with
  | pending c'' h2 hr hs same =>
    exact .waits (ht.authorized.trans (same.authorized.trans hc))
      (ht.require2fa.trans same.require2fa)
      (fun _ => hacc) (ht.fromSwitch.trans same.fromSwitch)
  | letIn c'' factor _ _ same =>
    exact .byPassword (ht.authorized.trans same.authorized)
      hacc (factor.imp_right (Or.imp_left hrec))
  | closed c'' ha =>
    exact .closed (thenStartCm_keep _) (ht.authorized.trans ha)

theorem onLoginRequest_outcome [DecidableEq D] (digest : List Bytes → D) (w : World) (e : Env)
    (registered : Option ℕ) (lr : LoginRequest) (hc : c.authorized = false) :
    Outcome w e registered c (.loginRequest lr) (c.onLoginRequest digest w e lr) := by
  obtain ⟨hk, ha, -⟩ | ⟨-, scope, hd⟩ := onLoginRequest_cases digest w e lr hc
  · exact .closed hk ha
  generalize c.onLoginRequest digest w e lr = h at hd
  cases hd with
  | waits _ same =>
    refine .waits (same.authorized.trans hc) same.require2fa ?_ same.fromSwitch
    intro ha
    rw [same.awaiting2fa] at ha
    cases ha
  | recent hclick hr =>
    refine (sendLogonResponse_logon w.retain e (c := c.takenOver e lr scope) hc).outcome hc
      ⟨hclick, password_of_isRecentSession hr, .inl hr⟩ ?_
    rw [isRecentSession_retain]
    exact id
  | valid hclick _ hp hf hv =>
    exact (sendLogonResponse_logon _ e (c := c.takenOver e lr scope) hc).outcome hc
      ⟨hclick, hp, .inr ⟨hf, hv⟩⟩
      isRecentSession_validatePassword

theorem onMessage_outcome [DecidableEq D] (digest : List Bytes → D) (w : World) (e : Env)
    (registered : Option ℕ) (m : Msg) (hc : c.authorized = false) :
    Outcome w e registered c m (c.onMessage digest w e registered m) := by
  unfold onMessage
  rw [if_neg (by simp [hc])]
  cases m with
  | closeReason => exact .closed rfl hc
  | loginRequest lr => exact onLoginRequest_outcome digest w e registered lr hc
  | auth2fa code hwid =>
    obtain ⟨-, hs, -⟩ | ⟨⟨ha, -, -, hcode⟩, heq⟩ := onAuth2fa_cases w e (c := c) code
    · exact .same nofun hs
    · have hl := sendLogonResponse_logon (w.setSession2fa c.sessionKey) e
        (c := { c with require2fa := false }) hc
      dsimp only
      rw [heq]
      rcases hl.settled (.inl rfl) with ⟨hk, hu⟩ | hu
      · exact .closed ((thenStartCm_keep _).trans hk) ((thenStartCm_same _).authorized.trans hu)
      · exact .byCode ((thenStartCm_same _).authorized.trans hu) ha hcode
  | switchSidesResponse uuid lr =>
    cases uuid with
    | none => exact .same nofun (.refl c)
    | some uuid =>
      cases lr with
      | none => exact .same nofun (.refl c)
      | some lr =>
        dsimp only
        split
        · next hr =>
          rcases onSwitchSides_settled w e lr hc with ⟨hk, hu⟩ | hu
          · exact .closed hk hu
          · exact .bySwitch hu hr
        · exact .same nofun (.refl c)
  | other => exact .same nofun (.refl c)

end Connection

/-! ## What a history says -/

/-- A `LoginRequest`, and the environment that it was handled in. -/
structure Attempt where
  world : World
  env : Env
  lr : LoginRequest

namespace Act

def attempt : Act → Option Attempt
  | .message w e (.loginRequest lr) => some ⟨w, e, lr⟩
  | _ => none

def seconds : Act → ℕ
  | .tick n => n
  | _ => 0

/-- The action registers a uuid under the id, or takes the one that is there. -/
def Touches (a : Act) (id : String) : Prop :=
  match a with
  | .register id' _ => id' = id
  | .elsewhere id' => id' = id
  | .message _ _ (.switchSidesResponse _ (some lr)) => lr.myId = id
  | _ => False

end Act

/-- The `LoginRequest`s of a history. -/
def attempts (hist : List Act) : List Attempt := hist.filterMap Act.attempt

/-- The time a history took. -/
def elapsed (hist : List Act) : ℕ := (hist.map Act.seconds).sum

/-- The latest `LoginRequest` had a password, and it was accepted. -/
def LatestAccepted (hist : List Act) : Prop :=
  ∃ l, (attempts hist).getLast? = some l ∧ Connection.Accepted l.world l.env l.lr

/-- Some `LoginRequest` came from a trusted device that is current. -/
def FromTrustedDevice (hist : List Act) : Prop :=
  ∃ l ∈ attempts hist, Connection.trusted l.env l.lr = true

/-- The uuid was registered under the id at time `t`, and nobody has taken it or put another
in its place. -/
def Registered (hist : List Act) (id : String) (uuid t : ℕ) : Prop :=
  ∃ pre post, hist = pre ++ Act.register id uuid :: post ∧ elapsed pre = t ∧
    ∀ a ∈ post, ¬ a.Touches id

/-- The action shows a uuid that was registered under the id of its request, less than
`SWITCH_SIDES_UUID_TTL` ago, and that nobody has taken since. -/
def SwitchesSides (hist : List Act) (a : Act) : Prop :=
  ∃ w e uuid lr t, a = .message w e (.switchSidesResponse (some uuid) (some lr)) ∧
    Registered hist lr.myId uuid t ∧ elapsed hist - t < switchSidesUuidTtl

/-- A second factor was there: a trusted device, the right code in this action, or a session
that has shown one and is still remembered. -/
def SecondFactor (hist : List Act) (a : Act) : Prop :=
  FromTrustedDevice (hist ++ [a]) ∨
  (∃ w e code hwid, a = .message w e (.auth2fa code hwid) ∧ e.checkCurrent code = some true) ∨
  (∃ w e lr, a = .message w e (.loginRequest lr) ∧
    (Connection.isRecentSession w e lr true).2 = true)

theorem attempts_append (hist : List Act) (a : Act) :
    attempts (hist ++ [a]) = attempts hist ++ a.attempt.toList := by
  rw [attempts, List.filterMap_append]
  cases h : a.attempt <;> simp [attempts, h]

theorem attempts_append_login (hist : List Act) (w : World) (e : Env) (lr : LoginRequest) :
    attempts (hist ++ [Act.message w e (.loginRequest lr)]) = attempts hist ++ [⟨w, e, lr⟩] :=
  attempts_append hist _

variable {hist : List Act}

theorem attempts_append_of_none {a : Act} (h : a.attempt = none) :
    attempts (hist ++ [a]) = attempts hist := by
  rw [attempts_append, h]
  exact List.append_nil _

theorem FromTrustedDevice.append (h : FromTrustedDevice hist) (a : Act) :
    FromTrustedDevice (hist ++ [a]) := by
  obtain ⟨l, hl, ht⟩ := h
  refine ⟨l, ?_, ht⟩
  rw [attempts_append]
  exact List.mem_append_left _ hl

theorem elapsed_append (hist : List Act) (a : Act) :
    elapsed (hist ++ [a]) = elapsed hist + a.seconds := by
  simp [elapsed]

theorem Registered.append {id : String} {uuid t : ℕ} (h : Registered hist id uuid t) {a : Act}
    (ha : ¬ a.Touches id) : Registered (hist ++ [a]) id uuid t := by
  obtain ⟨pre, post, rfl, ht, hpost⟩ := h
  refine ⟨pre, post ++ [a], by simp, ht, ?_⟩
  intro b hb
  rcases List.mem_append.mp hb with hb | hb
  · exact hpost b hb
  · obtain rfl := List.mem_singleton.mp hb
    exact ha

/-! ## The invariant -/

namespace Gate

variable {D : Type}

/-- What the history says about a connection that is open and not authorized. -/
structure Waiting (configured : Bool) (hist : List Act) (s : Gate D) : Prop where
  uuids : ∀ id r, s.switchSides id = some r → Registered hist id r.uuid r.time
  awaiting : s.conn.awaiting2fa = true → LatestAccepted hist
  factor : configured = true → s.conn.require2fa = false → FromTrustedDevice hist
  notSwitch : s.conn.fromSwitch = false

/-- The clock is that of the history, and a connection that can still log in is as the
history says. -/
structure Inv (configured : Bool) (hist : List Act) (s : Gate D) : Prop where
  now : s.now = elapsed hist
  waiting : s.closed = false → s.conn.authorized = false → s.Waiting configured hist

theorem start_inv (D : Type) (configured : Bool) : Inv configured [] (start D configured) where
  now := rfl
  waiting _ _ :=
    { uuids := fun _ _ h => nomatch h
      awaiting := fun h => nomatch h
      factor := fun h h' => by
        rw [h] at h'
        cases h'
      notSwitch := rfl }

variable {s : Gate D} {hist : List Act} {a : Act} {w : World} {e : Env} {m : Msg}
  {configured : Bool}

theorem freshUuid_some {id : String} {r : SwitchUuid} (h : s.freshUuid id = some r) :
    s.switchSides id = some r ∧ s.now - r.time < switchSidesUuidTtl := by
  rw [freshUuid, Option.filter_eq_some_iff] at h
  exact ⟨h.1, by simpa using h.2⟩

/-- Taking a uuid leaves those of the other ids. -/
theorem takeUuid_uuids {id : String}
    (h : ∀ id r, s.switchSides id = some r → Registered hist id r.uuid r.time)
    (ha : ∀ id', a.Touches id' → id' = id) : ∀ id' r, (s.takeUuid id).switchSides id' = some r →
      Registered (hist ++ [a]) id' r.uuid r.time := by
  intro id' r hr
  by_cases hid : id' = id
  · simp [takeUuid, hid] at hr
  · simp only [takeUuid, Function.update_of_ne hid] at hr
    exact (h id' r (freshUuid_some hr).1).append fun ht => hid (ha id' ht)

/-- The uuids in the table after a message. -/
theorem message_uuids [DecidableEq D] (digest : List Bytes → D) (hun : s.conn.authorized = false)
    (h : ∀ id r, s.switchSides id = some r → Registered hist id r.uuid r.time) :
    ∀ id r, (s.message digest w e m).switchSides id = some r →
      Registered (hist ++ [Act.message w e m]) id r.uuid r.time := by
  cases m with
  | switchSidesResponse uuid lr =>
    cases lr with
    | some lr =>
      rw [message]
      simp only [hun, Bool.false_and]
      exact takeUuid_uuids h fun id' ht => ht.symm
    | none => exact fun id r hr => (h id r hr).append fun ht => ht
  | _ => exact fun id r hr => (h id r hr).append fun ht => ht

/-- What a message does to the connection. -/
theorem message_outcome [DecidableEq D] (digest : List Bytes → D)
    (hun : s.conn.authorized = false) :
    ∃ registered h, Connection.Outcome w e registered s.conn m h ∧
      (s.message digest w e m).conn = h.conn ∧ (s.message digest w e m).closed = !h.keep ∧
      ∀ u lr uuid, m = .switchSidesResponse u (some lr) → registered = some uuid →
        ∃ r, s.freshUuid lr.myId = some r ∧ r.uuid = uuid := by
  have hout := fun registered => Connection.onMessage_outcome digest w e registered m hun
  cases m with
  | switchSidesResponse u lr =>
    cases lr with
    | some lr =>
      refine ⟨_, _, hout ((s.freshUuid lr.myId).map SwitchUuid.uuid), ?_⟩
      simp only [message, hun, Bool.false_and]
      refine ⟨rfl, rfl, ?_⟩
      rintro u' lr' uuid heq hreg
      cases heq
      exact Option.map_eq_some_iff.mp hreg
    | none => exact ⟨none, _, hout none, rfl, rfl, by rintro u' lr' uuid - ⟨⟩⟩
  | _ => exact ⟨none, _, hout none, rfl, rfl, by rintro u' lr' uuid - ⟨⟩⟩

theorem message_inv [DecidableEq D] (digest : List Bytes → D) (hun : s.conn.authorized = false)
    (hw : s.Waiting configured hist) (hopen : (s.message digest w e m).closed = false)
    (hun' : (s.message digest w e m).conn.authorized = false) :
    (s.message digest w e m).Waiting configured (hist ++ [Act.message w e m]) := by
  obtain ⟨registered, h, hout, hconn, hclosed, -⟩ :=
    message_outcome digest (w := w) (e := e) (m := m) hun
  refine ⟨message_uuids digest hun hw.uuids, ?_, ?_, ?_⟩ <;> rw [hconn]
  all_goals
    rw [hconn] at hun'
    rw [hclosed] at hopen
  · intro hawait
    cases hout with
    | same notLogin same =>
      obtain ⟨l, hl, hacc⟩ := hw.awaiting (same.awaiting2fa.symm.trans hawait)
      refine ⟨l, ?_, hacc⟩
      rw [attempts_append_of_none, hl]
      cases m with
      | loginRequest lr => exact absurd rfl (notLogin lr)
      | _ => rfl
    | closed hk => simp [hk] at hopen
    | waits _ _ accepted =>
      refine ⟨⟨w, e, _⟩, ?_, accepted hawait⟩
      rw [attempts_append_login, List.getLast?_append]
      rfl
    | byPassword ha | byCode ha | bySwitch ha => simp [ha] at hun'
  · intro hconf h2
    cases hout with
    | same _ same => exact (hw.factor hconf (same.require2fa.symm.trans h2)).append _
    | closed hk => simp [hk] at hopen
    | @waits lr _ _ factor =>
      -- the second factor was gone before, or this request took it away
      rw [factor, Bool.and_eq_false_iff, Bool.not_eq_false'] at h2
      rcases h2 with h2 | h2
      · exact (hw.factor hconf h2).append _
      · exact ⟨⟨w, e, lr⟩, by rw [attempts_append_login]; simp, h2⟩
    | byPassword ha | byCode ha | bySwitch ha => simp [ha] at hun'
  · cases hout with
    | same _ same => exact same.fromSwitch.trans hw.notSwitch
    | closed hk => simp [hk] at hopen
    | waits _ _ _ switch => exact switch.trans hw.notSwitch
    | byPassword ha | byCode ha | bySwitch ha => simp [ha] at hun'

/-- A step that leaves the connection as it is. -/
theorem Waiting.of_conn {s' : Gate D} (hw : s.Waiting configured hist) (ha : a.attempt = none)
    (hconn : s'.conn = s.conn)
    (huuids : ∀ id r, s'.switchSides id = some r → Registered (hist ++ [a]) id r.uuid r.time) :
    s'.Waiting configured (hist ++ [a]) where
  uuids := huuids
  awaiting h := by
    obtain ⟨l, hl, hacc⟩ := hw.awaiting (by rwa [hconn] at h)
    exact ⟨l, by rw [attempts_append_of_none ha, hl], hacc⟩
  factor h h' := (hw.factor h (by rwa [hconn] at h')).append a
  notSwitch := by rw [hconn, hw.notSwitch]

theorem message_authorized [DecidableEq D] (digest : List Bytes → D)
    (ha : s.conn.authorized = true) : (s.message digest w e m).conn.authorized = true := by
  have hall := fun registered => Connection.onMessage_authorized digest w e registered m ha
  unfold message
  split
  · dsimp only
    split <;> exact hall _
  · exact hall none

theorem step_inv [DecidableEq D] (digest : List Bytes → D) {s' : Gate D}
    (hI : Inv configured hist s) (h : s.step digest a = some s') :
    Inv configured (hist ++ [a]) s' := by
  cases a with
  | message w e m =>
    rw [step, Option.ite_none_left_eq_some] at h
    obtain ⟨hopen, h⟩ := h
    obtain rfl := Option.some.inj h
    refine ⟨?_, ?_⟩
    · rw [elapsed_append, ← hI.now]
      unfold message
      split
      · dsimp only
        split <;> rfl
      · rfl
    · intro hopen' hun'
      have hun : s.conn.authorized = false := by
        rw [← Bool.not_eq_true]
        intro ha
        rw [message_authorized digest ha] at hun'
        cases hun'
      exact message_inv digest hun (hI.waiting (by simpa using hopen) hun) hopen' hun'
  | cm w e ev =>
    cases ev with
    | authorize =>
      rw [step, Option.ite_none_left_eq_some] at h
      obtain ⟨-, h⟩ := h
      obtain rfl := Option.some.inj h
      refine ⟨by rw [elapsed_append]; exact hI.now, ?_⟩
      -- the connection is authorized or closed
      intro hopen' hun'
      exfalso
      cases hun : s.conn.authorized with
      | false =>
        rcases Connection.onAuthorize_settled w e hun with ⟨hk, -⟩ | ha
        · simp [after, hk] at hopen'
        · simp [after, ha] at hun'
      | true => simp [after, Connection.onAuthorize_authorized w e hun] at hun'
    | close =>
      rw [step, Option.ite_none_left_eq_some] at h
      obtain ⟨-, h⟩ := h
      obtain rfl := Option.some.inj h
      exact ⟨by rw [elapsed_append]; exact hI.now, fun hopen' => nomatch hopen'⟩
    | other =>
      rw [step, Option.ite_none_left_eq_some] at h
      obtain ⟨-, h⟩ := h
      obtain rfl := Option.some.inj h
      refine ⟨by rw [elapsed_append]; exact hI.now, fun hopen hun => ?_⟩
      have hw := hI.waiting hopen hun
      exact hw.of_conn rfl rfl fun id r hr => (hw.uuids id r hr).append fun ht => ht
  | register id uuid =>
    obtain rfl := Option.some.inj h
    refine ⟨by rw [elapsed_append]; exact hI.now, fun hopen hun => ?_⟩
    have hw := hI.waiting hopen hun
    refine hw.of_conn rfl rfl fun id' r hr => ?_
    by_cases hid : id' = id
    · subst hid
      obtain rfl : ⟨s.now, uuid⟩ = r := by simpa using hr
      exact ⟨hist, [], rfl, hI.now.symm, by simp⟩
    · simp only [Function.update_of_ne hid] at hr
      exact (hw.uuids id' r hr).append fun ht => hid (Eq.symm ht)
  | elsewhere id =>
    obtain rfl := Option.some.inj h
    refine ⟨by rw [elapsed_append]; exact hI.now, fun hopen hun => ?_⟩
    have hw := hI.waiting hopen hun
    exact hw.of_conn rfl rfl (takeUuid_uuids hw.uuids fun id' ht => Eq.symm ht)
  | tick seconds =>
    obtain rfl := Option.some.inj h
    refine ⟨by rw [elapsed_append, ← hI.now]; rfl, fun hopen hun => ?_⟩
    have hw := hI.waiting hopen hun
    exact hw.of_conn rfl rfl fun id r hr => (hw.uuids id r hr).append fun ht => ht

/-- **Authorization soundness.** In every run of a connection, with any environment at every
step, a step that authorizes the connection is an `Authorize` of a connection manager that was
told of it, or a `SwitchSidesResponse` with the uuid registered under its id, fresh and never
taken; or the latest `LoginRequest` had a password that was accepted while it was handled and,
where a second factor was configured, it was there: some request came from a trusted device
that is current, or this step shows the right code, or this request's session has shown one
and is still remembered. -/
theorem authorization_sound [DecidableEq D] (digest : List Bytes → D) {configured : Bool}
    {hist : List Act} {s s' : Gate D} {a : Act}
    (hrun : exec (step digest) (start D configured) hist = some s)
    (hstep : s.step digest a = some s') (hbefore : s.conn.authorized = false)
    (hafter : s'.conn.authorized = true) :
    (∃ w e, a = .cm w e .authorize ∧ s.conn.cmTold = true) ∨ SwitchesSides hist a ∨
      LatestAccepted (hist ++ [a]) ∧ (configured = true → SecondFactor hist a) := by
  have hI : Inv configured hist s :=
    exec_invariant_history (fun _ _ _ _ hI h => step_inv digest hI h) (start_inv D configured) hrun
  cases a with
  | message w e m =>
    rw [step, Option.ite_none_left_eq_some] at hstep
    obtain ⟨hopen, hstep⟩ := hstep
    obtain rfl := Option.some.inj hstep
    have hw := hI.waiting (by simpa using hopen) hbefore
    obtain ⟨registered, h, hout, hconn, -, huuid⟩ :=
      message_outcome digest (w := w) (e := e) (m := m) hbefore
    rw [hconn] at hafter
    cases hout with
    | same _ same => simp [same.authorized, hbefore] at hafter
    | closed _ hu => simp [hu] at hafter
    | waits hu => simp [hu] at hafter
    | @byPassword lr _ _ accepted factor =>
      refine .inr (.inr ⟨⟨⟨w, e, lr⟩, ?_, accepted⟩, fun hconf => ?_⟩)
      · rw [attempts_append_login, List.getLast?_append]
        rfl
      rw [Bool.and_eq_false_iff, Bool.not_eq_false'] at factor
      rcases factor with (h2 | ht) | hr | hs
      · exact .inl ((hw.factor hconf h2).append _)
      · exact .inl ⟨⟨w, e, lr⟩, by rw [attempts_append_login]; simp, ht⟩
      · exact .inr (.inr ⟨w, e, lr, rfl, hr⟩)
      · exact absurd hs (by simp [hw.notSwitch])
    | @byCode code hwid _ _ awaiting code_ok =>
      obtain ⟨l, hl, hacc⟩ := hw.awaiting awaiting
      exact .inr (.inr ⟨⟨l, by rw [attempts_append_of_none rfl, hl], hacc⟩,
        fun _ => .inr (.inl ⟨w, e, code, hwid, rfl, code_ok⟩)⟩)
    | @bySwitch uuid lr _ _ hreg =>
      obtain ⟨r, hr, rfl⟩ := huuid _ lr uuid rfl hreg
      obtain ⟨hr, hfresh⟩ := freshUuid_some hr
      exact .inr (.inl ⟨w, e, r.uuid, lr, r.time, rfl, hw.uuids _ _ hr, by rwa [← hI.now]⟩)
  | cm w e ev =>
    cases ev with
    | authorize =>
      rw [step, Option.ite_none_left_eq_some] at hstep
      have htold : s.closed = false ∧ s.conn.cmTold = true := by simpa using hstep.1
      exact .inl ⟨w, e, rfl, htold.2⟩
    | close | other =>
      rw [step, Option.ite_none_left_eq_some] at hstep
      obtain rfl := Option.some.inj hstep.2
      simp [hbefore] at hafter
  | register | elsewhere | tick =>
    obtain rfl := Option.some.inj hstep
    simp [takeUuid, hbefore] at hafter

/-- A connection with a second factor: a login with the temporary password waits for the code,
and the code lets it in. -/
theorem authorization_sound_code : ∃ s s' : Gate (List Bytes),
      exec (step id) (start _ true)
        [.tick 3, .message ⟨3, [], 7⟩ Env.plain (.loginRequest (LoginRequest.plain "peer" 7))] =
          some s ∧
      s.step id (.message ⟨3, [], 7⟩ Env.plain (.auth2fa [1, 2] [])) = some s' ∧
      s.conn.awaiting2fa = true ∧ s'.conn.authorized = true ∧
      LatestAccepted [.tick 3, .message ⟨3, [], 7⟩ Env.plain
        (.loginRequest (LoginRequest.plain "peer" 7)),
        .message ⟨3, [], 7⟩ Env.plain (.auth2fa [1, 2] [])] := by
  have hrun : (exec (step id) (start (List Bytes) true)
      [.tick 3, .message ⟨3, [], 7⟩ Env.plain (.loginRequest (LoginRequest.plain "peer" 7))]).any
        (fun s => decide (s.conn.authorized = false ∧ s.conn.awaiting2fa = true ∧
          ((s.step id (.message ⟨3, [], 7⟩ Env.plain (.auth2fa [1, 2] []))).any
            fun s' => s'.conn.authorized) = true)) = true := by
    decide +kernel
  obtain ⟨s, hs, hp⟩ := (Option.any_eq_true _ _).mp hrun
  obtain ⟨hbefore, hawait, hp⟩ := of_decide_eq_true hp
  obtain ⟨s', hs', hafter⟩ := (Option.any_eq_true _ _).mp hp
  refine ⟨s, s', hs, hs', hawait, hafter, ?_⟩
  rcases authorization_sound id hs hs' hbefore hafter with
    ⟨w, e, heq, -⟩ | ⟨w, e, uuid, lr, t, heq, -⟩ | ⟨h, -⟩
  · cases heq
  · cases heq
  · exact h

end Gate
end Login
end BgDesk
