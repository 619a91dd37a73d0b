import Mathlib.Data.List.Chain
import Mathlib.Logic.Function.Basic
import Mathlib.Order.Nat
import BgDesk.Machine

/-!
# Registering with the rendezvous servers

`start_udp` of `src/rendezvous_mediator.rs`, once for each server, with what it calls:
`register_peer`, `register_pk`, `handle_uuid_mismatch` and the two answers that belong to them.
Every loop has its own timers; whether the key is confirmed, who solves a mismatch, and the throttle
of a device that is not deployed are shared by all of them.

A loop is somewhere in its code, `Task`, and between two of its steps the others go on. An instant
is a number of nanoseconds. What a loop did before is kept for the statements: `attempts`,
`rebinds`, `permits` and `changed` are read by no step. The loops of `start_tcp`, which pass the
same throttle, are left out.

* `updateLatency`, `timerTick`, `go` — the code; `step` — a run of all the loops;
* `Paced` — what a loop keeps to; `Throttled`, `Solving` — what they keep to together;
* `registration_paced`, `registration_shared`.
-/

namespace BgDesk
namespace Registration

/-! ## The code -/

/-- `MIN_REG_TIMEOUT`, in milliseconds as the others -/
def minRegTimeout : ℕ := 3000

/-- `MAX_REG_TIMEOUT` -/
def maxRegTimeout : ℕ := 30000

/-- `MAX_FAILS1` -/
def maxFails1 : ℕ := 2

/-- `MAX_FAILS2` -/
def maxFails2 : ℕ := 4

/-- `DNS_INTERVAL` -/
def dnsInterval : ℕ := 60000

/-- `REG_INTERVAL` -/
def regInterval : ℕ := 15000

/-- `DEPLOY_RETRY_INTERVAL` -/
def deployRetryInterval : ℕ := 30000

/-- `using_public_server` -/
def usingPublicServer : Bool := false

/-- `elapsed().as_millis()` -/
def millis (now since : ℕ) : ℕ := (now - since) / 1000000

/-- `elapsed().as_micros()` -/
def micros (now since : ℕ) : ℕ := (now - since) / 1000

/-- Where a loop is. With an instant it came from the timer, which began then. -/
inductive Task where
  | idle : Task
  /-- in `rebind_udp_for` -/
  | rebind : ℕ → Task
  /-- `register_peer`, before the lock -/
  | peer : ℕ → Task
  /-- before `get_key_confirmed` -/
  | key : ℕ → Task
  /-- before `get_host_key_confirmed` -/
  | hostKey : ℕ → Task
  | sendPeer : ℕ → Task
  /-- `register_pk`, before it looks whether the device needs to be deployed -/
  | pk : Option ℕ → Task
  /-- before the lock, with what it saw -/
  | gate : Bool → Option ℕ → Task
  | sendPk : Option ℕ → Task
  /-- `RegisterPkResponse` with `OK`: the key, the key of the host, the mismatch, the deployment -/
  | okKey : Task
  | okHostKey : Task
  | okSolving : Task
  | okDeploy : Task
  /-- with `UUID_MISMATCH` -/
  | mismatch : Task
  /-- with `NOT_DEPLOYED`: the deployment, the key, the key of the host -/
  | deploy : Task
  | deployKey : Task
  | deployHostKey : Task
  deriving DecidableEq

/-- The variables of `start_udp`. A latency is never negative. -/
structure Loop where
  task : Task
  regTimeout : ℕ
  fails : ℕ
  lastRegisterResp : Option ℕ
  lastRegisterSent : Option ℕ
  lastDnsCheck : ℕ
  oldLatency : ℕ
  emaLatency : ℕ
  /-- the ticks of the timer that were for `register_peer`, newest first; where the name is looked
  up before, the call itself comes later -/
  attempts : List ℕ
  /-- those that were for `rebind_udp_for` -/
  rebinds : List ℕ
  deriving DecidableEq

namespace Loop

/-- A loop begins. -/
def new (now : ℕ) : Loop := ⟨.idle, minRegTimeout, 0, none, none, now, 0, 0, [], []⟩

/-- `update_latency`, with what it passes to `Config::update_latency`. -/
def updateLatency (now : ℕ) (l : Loop) : Loop × Option ℤ :=
  let latency := (l.lastRegisterSent.map (micros now)).getD 0
  let l :=
    { l with
      lastRegisterResp := some now, fails := 0, regTimeout :=
        minRegTimeout, lastRegisterSent := none }
  if latency > 1000000 then (l, none)
  else
    let ema := if l.emaLatency = 0 then latency else latency / 30 + l.emaLatency * 29 / 30
    let latency := if l.emaLatency = 0 then latency else ema
    let l := { l with emaLatency := ema }
    if ((latency : ℤ) - l.oldLatency).natAbs > max (latency / 5) 3000 ∨ l.oldLatency = 0 then
      ({ l with oldLatency := latency }, some latency)
    else (l, none)

/-- The branch of the timer up to its first wait, unless it is throttled. -/
def timerTick (now : ℕ) (l : Loop) : Loop × Option ℤ :=
  let expired := (l.lastRegisterResp.map fun t => decide (regInterval ≤ millis now t)).getD true
  let timeout := (l.lastRegisterSent.map fun t => decide (l.regTimeout ≤ millis now t)).getD false
  let l := if usingPublicServer && timeout && l.regTimeout <
    maxRegTimeout then { l with regTimeout := l.regTimeout + minRegTimeout } else l
  if timeout || l.lastRegisterSent.isNone && expired then
    let l := { l with task := .peer now, attempts := now :: l.attempts }
    if timeout then
      let l := { l with fails := l.fails + 1 }
      if maxFails2 ≤ l.fails then
        let l := { l with oldLatency := 0 }
        if millis now l.lastDnsCheck >
          dnsInterval then ({ l with task := .rebind now, rebinds := now :: l.rebinds }, some (-1))
        else (l, some (-1))
      else if maxFails1 ≤ l.fails then ({ l with oldLatency := 0 }, some 0)
      else (l, none)
    else (l, none)
  else (l, none)

/-- The end of what a loop does at once; after the timer, `last_register_sent` is set. -/
def done (tick : Option ℕ) (l : Loop) : Loop :=
  match tick with
  | some t => { l with task := .idle, lastRegisterSent := some t }
  | none => { l with task := .idle }

end Loop

/-- The loops, and what they share. -/
structure State where
  now : ℕ
  loops : ℕ → Loop
  /-- `key_confirmed`, `keys_confirmed` -/
  keyConfirmed : Bool
  keysConfirmed : ℕ → Bool
  /-- `SOLVING_PK_MISMATCH` -/
  solving : Option ℕ
  /-- `NEEDS_DEPLOY` -/
  needsDeploy : Bool
  /-- `LAST_NOT_DEPLOYED_REGISTER` -/
  lastNotDeployedRegister : Option ℕ
  /-- how often `update_id` made another id -/
  id : ℕ
  /-- `ONLINE` -/
  online : ℕ → ℤ
  /-- when `register_pk` went through, newest first, and whether the device was known to need a
  deployment -/
  permits : List (ℕ × Bool)
  /-- who made another id since a registration was last confirmed or the loops began -/
  changed : List ℕ

namespace State

/-- Every server has its loop, all of them idle. -/
def start (keyConfirmed : Bool) (keysConfirmed : ℕ → Bool) : State :=
  ⟨0, fun _ => .new 0, keyConfirmed, keysConfirmed, none, false, none, 0, fun _ => 0, [], []⟩

def setLoop (h : ℕ) (l : Loop) (s : State) : State :=
  { s with loops := Function.update s.loops h l }

/-- A part of a loop that may report a latency. -/
def report (h : ℕ) (r : Loop × Option ℤ) (s : State) : State :=
  match r.2 with
  | some latency => { s.setLoop h r.1 with online := Function.update s.online h latency }
  | none => s.setLoop h r.1

/-- `deploy_register_throttled` -/
def deployRegisterThrottled (s : State) : Bool :=
  s.needsDeploy && s.lastNotDeployedRegister.any fun t => millis s.now t < deployRetryInterval

/-- `set_key_confirmed` -/
def setKeyConfirmed (v : Bool) (s : State) : State :=
  { s with
    keyConfirmed := v, keysConfirmed :=
      if s.keyConfirmed = v ∨ v = true then s.keysConfirmed else fun _ => false }

/-- `set_host_key_confirmed` -/
def setHostKeyConfirmed (host : ℕ) (v : Bool) (s : State) : State :=
  { s with keysConfirmed := Function.update s.keysConfirmed host v }

/-- One loop goes on by one step; `hostOf` is the prefix of the name of its server. -/
def go (hostOf : ℕ → ℕ) (h : ℕ) (s : State) : Option State :=
  let l := s.loops h
  let goto (task : Task) (s : State) : Option State := some (s.setLoop h { l with task := task })
  match l.task with
  | .idle => none
  | .rebind tick => some (s.setLoop h { l with task := .peer tick, lastDnsCheck := s.now })
  | .peer tick =>
    if s.solving = none ∨ s.solving = some h then goto (.key tick)
      s else some (s.setLoop h (l.done (some tick)))
  | .key tick => goto (if s.keyConfirmed then .hostKey tick else .pk (some tick)) s
  | .hostKey tick => goto (if s.keysConfirmed (hostOf h) then .sendPeer tick else .pk (some tick)) s
  | .sendPeer tick => some (s.setLoop h (l.done (some tick)))
  | .pk tick => goto (.gate s.needsDeploy tick) s
  | .gate true tick =>
    if s.lastNotDeployedRegister.any fun t =>
      millis s.now t < deployRetryInterval then some (s.setLoop h (l.done tick))
    else goto (.sendPk tick)
      { s with lastNotDeployedRegister := some s.now, permits := (s.now, true) :: s.permits }
  | .gate false tick =>
    goto (.sendPk tick)
      { s with lastNotDeployedRegister := none, permits := (s.now, false) :: s.permits }
  | .sendPk tick => some (s.setLoop h (l.done tick))
  | .okKey => goto .okHostKey (s.setKeyConfirmed true)
  | .okHostKey => goto .okSolving (s.setHostKeyConfirmed (hostOf h) true)
  | .okSolving => goto .okDeploy { s with solving := none, changed := [] }
  | .okDeploy => goto .idle { s with needsDeploy := false }
  | .mismatch =>
    if s.solving = none ∨ s.solving = some h then
      let s := s.setKeyConfirmed false
      goto (.pk none) { s with id := s.id + 1, solving := some h, changed := h :: s.changed }
    else goto .idle s
  | .deploy => goto .deployKey { s with needsDeploy := true }
  | .deployKey => goto .deployHostKey (s.setKeyConfirmed false)
  | .deployHostKey => goto .idle (s.setHostKeyConfirmed (hostOf h) false)

end State

/-! ## A run -/

/-- The answers of a server. -/
inductive Response where
  /-- `RegisterPeerResponse`, with `request_pk` -/
  | peer : Bool → Response
  | ok : Response
  | uuidMismatch : Response
  | notDeployed : Response
  | other : Response
  deriving DecidableEq

/-- What a loop does with an answer, after `update_latency`. -/
def Response.task : Response → Task
  | peer requestPk => if requestPk then .pk none else .idle
  | ok => .okKey
  | uuidMismatch => .mismatch
  | notDeployed => .deploy
  | other => .idle

inductive Act where
  /-- time passes -/
  | pass : ℕ → Act
  | timer : ℕ → Act
  | response : ℕ → Response → Act
  /-- a loop goes on -/
  | go : ℕ → Act
  /-- the device was deployed on this machine -/
  | deployed : Act
  /-- the loops ended, and begin anew -/
  | restart : Act
  deriving DecidableEq

def step (hostOf : ℕ → ℕ) (s : State) : Act → Option State
  | .pass d => some { s with now := s.now + d }
  | .timer h =>
    if (s.loops h).task = .idle then
      if s.deployRegisterThrottled then some s else some (s.report h ((s.loops h).timerTick s.now))
    else none
  | .response h r =>
    if (s.loops h).task = .idle then
      let (l, latency) := (s.loops h).updateLatency s.now
      some (s.report h ({ l with task := r.task }, latency))
    else none
  | .go h => s.go hostOf h
  | .deployed => some { s with needsDeploy := false }
  | .restart =>
    some { s with
      loops := fun _ => .new s.now, solving := none, online := fun _ => 0, changed := [] }

/-! ## One loop -/

/-- When the timer began, for what it does. -/
def Task.tick : Task → Option ℕ
  | .rebind t | .peer t | .key t | .hostKey t | .sendPeer t => some t
  | .pk t | .gate _ t | .sendPk t => t
  | _ => none

/-- Nanoseconds. -/
def nanos (millis : ℕ) : ℕ := millis * 1000000

variable {now : ℕ} {l : Loop}

theorem le_of_millis {since m : ℕ} (hm : 0 < m) (h : m ≤ millis now since) :
    since + nanos m ≤ now := by
  rw [millis, Nat.le_div_iff_mul_le (by decide)] at h
  unfold nanos
  omega

/-- **What a loop keeps to.** -/
structure Paced (now : ℕ) (l : Loop) : Prop where
  timeout : minRegTimeout ≤ l.regTimeout
  attempts : l.attempts.IsChain fun later earlier => earlier + nanos minRegTimeout ≤ later
  past : ∀ t ∈ l.attempts.head?, t ≤ now
  /-- what the timer began is the last attempt -/
  begun : l.task.tick.isSome → l.task.tick = l.attempts.head?
  /-- what was sent was, and what was answered was before -/
  sent : l.task.tick = none → ∀ t, l.lastRegisterSent = some t → l.attempts.head? = some t
  answered : l.task.tick = none → l.lastRegisterSent = none → ∀ t ∈ l.attempts.head?, ∃ r,
    l.lastRegisterResp = some r ∧ t ≤ r
  rebinds : l.rebinds.IsChain fun later earlier => earlier + nanos dnsInterval < later
  checked : ∀ t ∈ l.rebinds.head?, t ≤ now ∧ (t ≤ l.lastDnsCheck ∨ l.task = .rebind t)
  ema : l.emaLatency ≤ 1000000
  old : l.oldLatency ≤ 1000000

theorem paced_new (now : ℕ) : Paced now (.new now) where
  timeout := le_rfl
  attempts := .nil
  past := by rintro t ⟨⟩
  begun := by rintro ⟨⟩
  sent := by rintro - t ⟨⟩
  answered := by rintro - - t ⟨⟩
  rebinds := .nil
  checked := by rintro t ⟨⟩
  ema := Nat.zero_le _
  old := Nat.zero_le _

theorem Paced.mono {now' : ℕ} (h : Paced now l) (hle : now ≤ now') : Paced now' l :=
  { h with
    past := fun t ht => (h.past t ht).trans hle
    checked := fun t ht => ⟨(h.checked t ht).1.trans hle, (h.checked t ht).2⟩ }

/-- A loop that is not about to look up the name has done so. -/
theorem Paced.looked_up (h : Paced now l) (here : ∀ t, l.task ≠ .rebind t) :
    ∀ t ∈ l.rebinds.head?, t ≤ now ∧ t ≤ l.lastDnsCheck :=
  fun t ht => ⟨(h.checked t ht).1, (h.checked t ht).2.resolve_right (here t)⟩

/-- An answer, to a loop that waits for one. -/
theorem Paced.updateLatency (h : Paced now l) (hidle : l.task = .idle) {task : Task}
    (htask : task.tick = none) :
    Paced now { (l.updateLatency now).1 with task := task } ∧ ∀ latency ∈ (l.updateLatency now).2,
      0 ≤ latency ∧ latency ≤ 1000000 := by
  have hchecked := h.looked_up fun t ht => by rw [hidle] at ht; cases ht
  have hpaced : ∀ ema old, ema ≤ 1000000 → old ≤ 1000000 →
      Paced now
        { l with
          lastRegisterResp := some now, fails := 0, regTimeout := minRegTimeout, lastRegisterSent :=
            none, emaLatency := ema,
          oldLatency := old, task := task } := by
    intro ema old hema hold
    refine ⟨le_rfl, h.attempts, h.past, ?_, ?_, ?_, h.rebinds,
      fun t ht => ⟨(hchecked t ht).1, .inl (hchecked t ht).2⟩, hema, hold⟩
    · intro hsome
      rw [show task.tick = none from htask] at hsome
      cases hsome
    · rintro - t ⟨⟩
    · exact fun _ _ t ht => ⟨now, rfl, h.past t ht⟩
  unfold Loop.updateLatency
  dsimp only
  generalize (l.lastRegisterSent.map (micros now)).getD 0 = latency
  have hema := h.ema
  split
  · exact ⟨hpaced _ _ h.ema h.old, by rintro latency ⟨⟩⟩
  · next hlatency =>
    have hnew : (if l.emaLatency = 0 then latency else latency / 30 + l.emaLatency * 29 / 30) ≤
        1000000 := by
      split <;> omega
    have hreported : (if l.emaLatency = 0 then latency
        else if l.emaLatency = 0 then latency else latency / 30 + l.emaLatency * 29 / 30) ≤
          1000000 := by
      split <;> omega
    generalize (if l.emaLatency = 0 then latency else latency / 30 + l.emaLatency * 29 / 30) =
      ema at hnew hreported
    generalize (if l.emaLatency = 0 then latency else ema) = shown at hreported
    split
    · refine ⟨hpaced _ _ hnew hreported, ?_⟩
      rintro latency ⟨⟩
      omega
    · exact ⟨hpaced _ _ hnew h.old, by rintro latency ⟨⟩⟩

/-- The timer attempts nothing before it is time. -/
theorem Paced.timerTick (h : Paced now l) (hidle : l.task = .idle) :
    Paced now (l.timerTick now).1 ∧ ∀ latency ∈ (l.timerTick now).2, -1 ≤ latency ∧
      latency ≤ 0 := by
  have htick : l.task.tick = none := by
    rw [hidle]
    rfl
  have hchecked := h.looked_up fun t ht => by rw [hidle] at ht; cases ht
  unfold Loop.timerTick
  simp only [usingPublicServer, Bool.false_and, Bool.false_eq_true, if_false]
  generalize htimeout : (l.lastRegisterSent.map fun t => decide (l.regTimeout ≤ millis now t)).getD
    false = timeout
  generalize hexpired : (l.lastRegisterResp.map fun t => decide (regInterval ≤ millis now t)).getD
    true = expired
  split
  · next hdue =>
    -- either the last attempt timed out, or its answer is older still
    have hlate : ∀ t ∈ l.attempts.head?, t + nanos minRegTimeout ≤ now := by
      intro t ht
      cases hsent : l.lastRegisterSent with
      | some t' =>
        have hlast := h.sent htick t' hsent
        rw [hlast] at ht
        obtain rfl := Option.some.inj ht
        rw [hsent] at htimeout hdue
        obtain rfl : timeout = true := by simpa using hdue
        have hle : l.regTimeout ≤ millis now t' := by simpa using htimeout
        exact le_of_millis (by decide) (h.timeout.trans hle)
      | none =>
        obtain ⟨r, hr, hle⟩ := h.answered htick hsent t ht
        rw [hsent] at htimeout hdue
        obtain rfl : timeout = false := by simpa using htimeout.symm
        obtain rfl : expired = true := by simpa using hdue
        rw [hr] at hexpired
        have hmillis : regInterval ≤ millis now r := by simpa using hexpired
        have hlong := le_of_millis (by decide) hmillis
        unfold nanos regInterval at hlong
        unfold nanos minRegTimeout
        omega
    have hattempts : (now :: l.attempts).IsChain fun later earlier =>
        earlier + nanos minRegTimeout ≤ later := by
      rw [List.isChain_cons]
      exact ⟨fun t ht => hlate t ht, h.attempts⟩
    have hpaced : ∀ fails old, old ≤ 1000000 →
        Paced now
          { l with
            task := .peer now, attempts := now :: l.attempts, fails := fails, oldLatency :=
              old } := by
      intro fails old hold
      refine ⟨h.timeout, hattempts, ?_, fun _ => rfl, by rintro ⟨⟩, by rintro ⟨⟩, h.rebinds,
        fun t ht => ⟨(hchecked t ht).1, .inl (hchecked t ht).2⟩, h.ema, hold⟩
      rintro t ⟨⟩
      exact le_rfl
    split
    · split
      · split
        · next hdns =>
          have hlong := le_of_millis (by decide) (Nat.succ_le_of_lt hdns)
          refine ⟨⟨h.timeout, hattempts, ?_, fun _ => rfl, by
            rintro ⟨⟩, by rintro ⟨⟩, ?_, ?_, h.ema, Nat.zero_le _⟩, ?_⟩
          · rintro t ⟨⟩
            exact le_rfl
          · change (now :: l.rebinds).IsChain _
            rw [List.isChain_cons]
            refine ⟨fun t ht => ?_, h.rebinds⟩
            have hle := (hchecked t ht).2
            unfold nanos dnsInterval at hlong ⊢
            omega
          · rintro t ⟨⟩
            exact ⟨le_rfl, .inr rfl⟩
          · rintro latency ⟨⟩
            decide
        · refine ⟨hpaced _ _ (Nat.zero_le _), ?_⟩
          rintro latency ⟨⟩
          decide
      · split
        · refine ⟨hpaced _ _ (Nat.zero_le _), ?_⟩
          rintro latency ⟨⟩
          decide
        · exact ⟨hpaced _ _ h.old, by rintro latency ⟨⟩⟩
    · exact ⟨hpaced _ _ h.old, by rintro latency ⟨⟩⟩
  · exact ⟨h, by rintro latency ⟨⟩⟩

/-- What one step of a loop makes of it. -/
inductive Goes (now : ℕ) (l : Loop) : Loop → Prop where
  | on (task : Task) (here : ∀ t, l.task ≠ .rebind t) (tick : task.tick = l.task.tick) :
    Goes now l { l with task := task }
  | done (tick : Option ℕ) (here : ∀ t, l.task ≠ .rebind t) (same : l.task.tick = tick) :
    Goes now l (l.done tick)
  | rebound (tick : ℕ) (here : l.task = .rebind tick) :
    Goes now l { l with task := .peer tick, lastDnsCheck := now }

theorem Paced.goes {l' : Loop} (h : Paced now l) (hgoes : Goes now l l') : Paced now l' := by
  cases hgoes with
  | on task here tick =>
    refine ⟨h.timeout, h.attempts, h.past, ?_, ?_, ?_, h.rebinds, ?_, h.ema, h.old⟩
    · change task.tick.isSome → task.tick = _
      rw [tick]
      exact h.begun
    · change task.tick = none → _
      rw [tick]
      exact h.sent
    · change task.tick = none → _
      rw [tick]
      exact h.answered
    · exact fun t ht => ⟨(h.checked t ht).1, .inl (h.looked_up here t ht).2⟩
  | done tick here same =>
    subst same
    have hchecked : ∀ t ∈ l.rebinds.head?, t ≤ now ∧ (t ≤ l.lastDnsCheck ∨ Task.idle = .rebind t) :=
      fun t ht => ⟨(h.checked t ht).1, .inl (h.looked_up here t ht).2⟩
    unfold Loop.done
    cases htick : l.task.tick with
    | none =>
      exact ⟨h.timeout, h.attempts, h.past, by
        rintro ⟨⟩, fun _ => h.sent htick, fun _ =>
          h.answered htick, h.rebinds, hchecked, h.ema, h.old⟩
    | some t =>
      have hlast : some t = l.attempts.head? := by
        rw [← htick]
        exact h.begun (by rw [htick]; rfl)
      refine ⟨h.timeout, h.attempts, h.past, by
        rintro ⟨⟩, ?_, by rintro - ⟨⟩, h.rebinds, hchecked, h.ema, h.old⟩
      rintro - t' ⟨⟩
      exact hlast.symm
  | rebound tick here =>
    have hbegun : some tick = l.attempts.head? := by
      have htick := h.begun (by rw [here]; rfl)
      rw [here] at htick
      exact htick
    refine ⟨h.timeout, h.attempts, h.past, fun _ => hbegun, by
      rintro ⟨⟩, by rintro ⟨⟩, h.rebinds, ?_, h.ema, h.old⟩
    intro t ht
    have hle := (h.checked t ht).1
    exact ⟨hle, .inl hle⟩

/-! ## What they share -/

/-- Of two registrations of a device that needs a deployment, one after the other, the second waits
for its time. -/
structure Throttled (s : State) : Prop where
  permits : s.permits.IsChain fun later earlier =>
    later.2 = true → earlier.2 = true → earlier.1 + nanos deployRetryInterval ≤ later.1
  last : ∀ t, s.permits.head? = some (t, true) → s.lastNotDeployedRegister = some t

/-- Only the one who solves the mismatch makes ids. -/
def Solving (s : State) : Prop := ∀ h ∈ s.changed, s.solving = some h

namespace State

variable {hostOf : ℕ → ℕ} {h : ℕ} {s s' : State}

/-- One loop goes, and the others stay. -/
theorem go_loops (hgo : s.go hostOf h = some s') :
    s'.now = s.now ∧ s'.online = s.online ∧ ∃ l, s'.loops = Function.update s.loops h l ∧
      Goes s.now (s.loops h) l := by
  unfold go at hgo
  dsimp only at hgo
  split at hgo <;> rename_i htask
  -- the loops that are where they were not before, or at their end
  case h_1 => cases hgo
  case h_2 =>
    obtain rfl := Option.some.inj hgo
    exact ⟨rfl, rfl, _, rfl, .rebound _ htask⟩
  case h_3 | h_8 | h_15 =>
    split at hgo
    all_goals
      obtain rfl := Option.some.inj hgo
      first
      | exact ⟨rfl, rfl, _, rfl, .on _ (by rw [htask]; rintro t ⟨⟩) (by rw [htask]; rfl)⟩
      | exact ⟨rfl, rfl, _, rfl, .done _ (by rw [htask]; rintro t ⟨⟩) (by rw [htask]; rfl)⟩
  case h_4 | h_5 =>
    obtain rfl := Option.some.inj hgo
    exact ⟨rfl, rfl, _, rfl, .on _ (by rw [htask]; rintro t ⟨⟩) (by rw [htask]; split <;> rfl)⟩
  case h_6 | h_10 =>
    obtain rfl := Option.some.inj hgo
    exact ⟨rfl, rfl, _, rfl, .done _ (by rw [htask]; rintro t ⟨⟩) (by rw [htask]; rfl)⟩
  all_goals
    obtain rfl := Option.some.inj hgo
    exact ⟨rfl, rfl, _, rfl, .on _ (by rw [htask]; rintro t ⟨⟩) (by rw [htask]; rfl)⟩

/-- A step keeps to what they share, which it changes only under the lock of `register_pk` and the
two of the mismatch. -/
theorem go_shared (hthrottled : Throttled s) (hsolving : Solving s)
    (hgo : s.go hostOf h = some s') : Throttled s' ∧ Solving s' := by
  unfold go at hgo
  dsimp only at hgo
  split at hgo
  case h_1 => cases hgo
  case h_3 =>
    split at hgo
    all_goals
      obtain rfl := Option.some.inj hgo
      exact ⟨⟨hthrottled.permits, hthrottled.last⟩, hsolving⟩
  case h_8 =>
    split at hgo
    · obtain rfl := Option.some.inj hgo
      exact ⟨⟨hthrottled.permits, hthrottled.last⟩, hsolving⟩
    · next hlate =>
      -- the throttle lets it through
      obtain rfl := Option.some.inj hgo
      refine ⟨⟨List.isChain_cons.mpr ⟨?_, hthrottled.permits⟩, ?_⟩, hsolving⟩
      · rintro ⟨t, needs⟩ hhead - hneeds
        obtain rfl : needs = true := hneeds
        rw [hthrottled.last t hhead] at hlate
        exact le_of_millis (by decide) (by simpa using hlate)
      · rintro t ⟨⟩
        rfl
  case h_9 =>
    obtain rfl := Option.some.inj hgo
    exact ⟨⟨List.isChain_cons.mpr ⟨by rintro permit - ⟨⟩, hthrottled.permits⟩, by rintro t ⟨⟩⟩,
      hsolving⟩
  case h_13 =>
    obtain rfl := Option.some.inj hgo
    exact ⟨⟨hthrottled.permits, hthrottled.last⟩, by rintro h' ⟨⟩⟩
  case h_15 =>
    split at hgo
    · next hown =>
      -- another id: who solved before is the same
      obtain rfl := Option.some.inj hgo
      refine ⟨⟨hthrottled.permits, hthrottled.last⟩, fun h' hh' => ?_⟩
      rcases List.mem_cons.mp hh' with rfl | hh'
      · rfl
      · have hbefore := hsolving h' hh'
        rcases hown with hnone | hsame
        · rw [hnone] at hbefore
          cases hbefore
        · exact hsame.symm.trans hbefore
    · obtain rfl := Option.some.inj hgo
      exact ⟨⟨hthrottled.permits, hthrottled.last⟩, hsolving⟩
  all_goals
    obtain rfl := Option.some.inj hgo
    exact ⟨⟨hthrottled.permits, hthrottled.last⟩, hsolving⟩

end State

/-! ## Every run -/

/-- What the loops keep to, one by one and together. -/
structure Sound (s : State) : Prop where
  paced : ∀ h, Paced s.now (s.loops h)
  online : ∀ h, -1 ≤ s.online h ∧ s.online h ≤ 1000000
  throttled : Throttled s
  solving : Solving s

theorem online_zero : (-1 : ℤ) ≤ 0 ∧ (0 : ℤ) ≤ 1000000 := by decide

theorem start_sound (keyConfirmed : Bool) (keysConfirmed : ℕ → Bool) :
    Sound (.start keyConfirmed keysConfirmed) where
  paced _ := paced_new 0
  online _ := online_zero
  throttled := ⟨.nil, by rintro t ⟨⟩⟩
  solving := by rintro h ⟨⟩

namespace Sound

variable {hostOf : ℕ → ℕ} {s s' : State}

/-- A loop that reports a latency. -/
theorem report (hs : Sound s) (h : ℕ) {r : Loop × Option ℤ} (hpaced : Paced s.now r.1)
    (hlatency : ∀ latency ∈ r.2, -1 ≤ latency ∧ latency ≤ 1000000) : Sound (s.report h r) := by
  have hpaced' : ∀ h', Paced s.now (Function.update s.loops h r.1 h') := by
    intro h'
    rw [Function.update_apply]
    split
    · exact hpaced
    · exact hs.paced h'
  unfold State.report
  split
  · next latency hsome =>
    refine ⟨hpaced', fun h' => ?_, ⟨hs.throttled.permits, hs.throttled.last⟩, hs.solving⟩
    change -1 ≤ Function.update s.online h latency h' ∧
      Function.update s.online h latency h' ≤ 1000000
    rw [Function.update_apply]
    split
    · exact hlatency latency hsome
    · exact hs.online h'
  · exact ⟨hpaced', hs.online, ⟨hs.throttled.permits, hs.throttled.last⟩, hs.solving⟩

theorem go (hs : Sound s) {h : ℕ} (hgo : s.go hostOf h = some s') : Sound s' := by
  obtain ⟨hnow, honline, l, hloops, hgoes⟩ := State.go_loops hgo
  have hpaced : ∀ h', Paced s'.now (s'.loops h') := by
    intro h'
    rw [hnow, hloops, Function.update_apply]
    split
    · exact (hs.paced h).goes hgoes
    · exact hs.paced h'
  obtain ⟨hthrottled, hsolving⟩ := State.go_shared hs.throttled hs.solving hgo
  exact ⟨hpaced, honline ▸ hs.online, hthrottled, hsolving⟩

theorem step {a : Act} (hs : Sound s) (hstep : step hostOf s a = some s') : Sound s' := by
  cases a with
  | pass d =>
    obtain rfl := Option.some.inj hstep
    exact ⟨fun h => (hs.paced h).mono (Nat.le_add_right _ _), hs.online,
      ⟨hs.throttled.permits, hs.throttled.last⟩, hs.solving⟩
  | timer h =>
    unfold Registration.step at hstep
    dsimp only at hstep
    split at hstep
    · next hidle =>
      split at hstep
      · obtain rfl := Option.some.inj hstep
        exact hs
      · obtain rfl := Option.some.inj hstep
        obtain ⟨hpaced, hlatency⟩ := (hs.paced h).timerTick hidle
        exact hs.report h hpaced fun latency hmem =>
          ⟨(hlatency latency hmem).1, Int.le_trans (hlatency latency hmem).2 online_zero.2⟩
    · cases hstep
  | response h r =>
    unfold Registration.step at hstep
    dsimp only at hstep
    split at hstep
    · next hidle =>
      obtain rfl := Option.some.inj hstep
      have htick : r.task.tick = none := by
        cases r with
        | peer requestPk => cases requestPk <;> rfl
        | ok | uuidMismatch | notDeployed | other => rfl
      obtain ⟨hpaced, hlatency⟩ := (hs.paced h).updateLatency hidle htick
      exact hs.report h hpaced fun latency hmem =>
        ⟨Int.le_trans online_zero.1 (hlatency latency hmem).1, (hlatency latency hmem).2⟩
    · cases hstep
  | go h => exact hs.go hstep
  | deployed =>
    obtain rfl := Option.some.inj hstep
    exact ⟨hs.paced, hs.online, ⟨hs.throttled.permits, hs.throttled.last⟩, hs.solving⟩
  | restart =>
    obtain rfl := Option.some.inj hstep
    exact ⟨fun _ => paced_new s.now, fun _ => online_zero,
      ⟨hs.throttled.permits, hs.throttled.last⟩, by rintro h ⟨⟩⟩

end Sound

theorem exec_sound {hostOf : ℕ → ℕ} {keyConfirmed : Bool} {keysConfirmed : ℕ → Bool}
    {acts : List Act} {s : State}
    (h : exec (step hostOf) (.start keyConfirmed keysConfirmed) acts = some s) : Sound s :=
  exec_invariant (fun _ _ _ hs hstep => hs.step hstep) (start_sound keyConfirmed keysConfirmed) h

/-- **Every loop is paced**, whatever the servers answer and however the loops take turns: two ticks
at which it attempts to register are three seconds apart or more, two at which it looks the name up
more than a minute, and a latency that is reported is one, or says that there is none. -/
theorem registration_paced {hostOf : ℕ → ℕ} {keyConfirmed : Bool} {keysConfirmed : ℕ → Bool}
    {acts : List Act} {s : State}
    (h : exec (step hostOf) (.start keyConfirmed keysConfirmed) acts = some s) (host : ℕ) :
    ((s.loops host).attempts.Pairwise fun later earlier => earlier + nanos minRegTimeout ≤ later) ∧
    ((s.loops host).rebinds.Pairwise fun later earlier => earlier + nanos dnsInterval < later) ∧
    -1 ≤ s.online host ∧ s.online host ≤ 1000000 := by
  have hsound := exec_sound h
  have hpaced := hsound.paced host
  have : IsTrans ℕ fun later earlier => earlier + nanos minRegTimeout ≤ later :=
    ⟨fun a b c hab hbc => by omega⟩
  have : IsTrans ℕ fun later earlier => earlier + nanos dnsInterval < later :=
    ⟨fun a b c hab hbc => by omega⟩
  exact ⟨hpaced.attempts.pairwise, hpaced.rebinds.pairwise, hsound.online host⟩

/-- Two attempts without an answer, and one after an answer. -/
theorem registration_paced_three : ∃ s, exec (step id) (.start true fun _ => true)
        [.timer 0, .go 0, .go 0, .go 0, .go 0, .pass (nanos 3000), .timer 0, .go 0, .go 0, .go 0,
          .go 0, .response 0 (.peer false),
          .pass (nanos 15000), .timer 0] = some s ∧
      (s.loops 0).attempts.length = 3 ∧ (s.loops 0).attempts.Pairwise fun later earlier =>
        earlier + nanos minRegTimeout ≤ later := by
  have hrun : exec (step id) (.start true fun _ => true)
      [.timer 0, .go 0, .go 0, .go 0, .go 0, .pass (nanos 3000), .timer 0, .go 0, .go 0, .go 0,
        .go 0, .response 0 (.peer false),
        .pass (nanos 15000), .timer 0] = some _ := rfl
  exact ⟨_, hrun, by decide, (registration_paced hrun 0).1⟩

/-- **What the loops share**: of two registrations of a key, one after the other, while a deployment
was known to be needed, the second is half a minute later or more, whichever loops they were of; and
between two ids that different loops made, a registration was confirmed or the loops began anew. -/
theorem registration_shared {hostOf : ℕ → ℕ} {keyConfirmed : Bool} {keysConfirmed : ℕ → Bool}
    {acts : List Act} {s : State}
    (h : exec (step hostOf) (.start keyConfirmed keysConfirmed) acts = some s) :
    (s.permits.IsChain fun later earlier =>
      later.2 = true → earlier.2 = true → earlier.1 + nanos deployRetryInterval ≤ later.1) ∧
    ∀ h ∈ s.changed, ∀ h' ∈ s.changed, h = h' := by
  have hsound := exec_sound h
  refine ⟨hsound.throttled.permits, fun h hh h' hh' => ?_⟩
  have hsame := (hsound.solving h hh).symm.trans (hsound.solving h' hh')
  exact Option.some.inj hsame

/-- The device is to be deployed, and of the two servers that are asked again only one sees a
registration within half a minute. -/
theorem registration_shared_throttled : ∃ s, exec (step id) (.start true fun _ => true)
        [.response 0 .notDeployed, .go 0, .go 0, .go 0, .pass (nanos 15000), .timer 0, .go 0, .go 0,
          .go 0, .go 0, .go 0,
          .response 1 (.peer true), .go 1, .go 1, .pass (nanos 30000), .response 1 (.peer true),
            .go 1, .go 1, .go 1] = some s ∧
      s.permits.length = 2 ∧ s.permits.IsChain fun later earlier =>
        later.2 = true → earlier.2 = true → earlier.1 + nanos deployRetryInterval ≤ later.1 := by
  have hrun : exec (step id) (.start true fun _ => true)
      [.response 0 .notDeployed, .go 0, .go 0, .go 0, .pass (nanos 15000), .timer 0, .go 0, .go 0,
        .go 0, .go 0, .go 0,
        .response 1 (.peer true), .go 1, .go 1, .pass (nanos 30000), .response 1 (.peer true),
          .go 1, .go 1, .go 1] = some _ := rfl
  exact ⟨_, hrun, by decide, (registration_shared hrun).1⟩

end Registration
end BgDesk
