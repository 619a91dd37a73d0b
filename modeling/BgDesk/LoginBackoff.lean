import Mathlib.Algebra.Order.Ring.Int
import Mathlib.Algebra.Order.GroupWithZero.Basic
import BgDesk.Machine
import BgDesk.VersionNumber

/-!
# The back-off of logins to the operating system

`login_failure_check.rs`: after the second failure, a login with the credentials of the operating
system has to wait, longer after each further failure, until two hours have gone by without one. The
counter, the end of the wait and the time of the last failure are one state; nothing changes it when
time passes, but what has expired is cleared whenever the policy is asked and whenever a failure is
recorded.

* `evaluate`, `record` — the two operations; the sums that could overflow are checked;
* `System` — attempts one at a time, on a clock that does not go back, with the times of all
  failures;
* `Tracks` — what the state has to do with these times;
* `login_backoff_bound` — how far failures are apart, and that nothing but time ends a wait.
-/

namespace BgDesk
namespace LoginBackoff

/-! ## The policy -/

/-- `OS_CREDENTIAL_LOGIN_TOTAL_IDLE_RESET_MS`. -/
def totalIdleResetMs : ℤ := 120 * 60 * 1000

/-- `OS_CREDENTIAL_LOGIN_BACKOFF_BASE_SECONDS`. -/
def backoffBaseSeconds : ℤ := 15

/-- `OS_CREDENTIAL_LOGIN_BACKOFF_MAX_SECONDS`. -/
def backoffMaxSeconds : ℤ := 30 * 60

/-- `FailureScope`. -/
inductive FailureScope where
  | default
  | terminalOsLogin
  deriving DecidableEq

/-- `AlarmAuditType`, that of this policy. -/
inductive AlarmAuditType where
  | terminalOsLoginBackoff
  deriving DecidableEq

/-- `OsCredentialPolicyDecision`. -/
structure Decision where
  allowed : Bool
  loginError : Option String
  audit : Option AlarmAuditType
  deriving DecidableEq

/-- `OsCredentialFailureState`. -/
structure FailureState where
  totalFailures : ℤ
  backoffUntilMs : Option ℤ
  lastFailureMs : Option ℤ
  deriving DecidableEq

/-- `OsCredentialFailureState::default`. -/
def FailureState.default : FailureState := ⟨0, none, none⟩

/-- `backoff_audit_type_for_scope`. -/
def backoffAuditType : FailureScope → Option AlarmAuditType
  | .terminalOsLogin => some .terminalOsLoginBackoff
  | .default => none

/-- `os_credential_login_backoff_seconds`. -/
def backoffSeconds (totalFailures : ℤ) : ℤ :=
  if totalFailures ≤ 2 then 0
  else
    let exp := min (totalFailures - 3) 7
    let seconds := backoffBaseSeconds * 2 ^ exp.toNat
    min seconds backoffMaxSeconds

/-- `normalize_backoff`. -/
def normalizeBackoff (state : FailureState) (nowMs : ℤ) : FailureState :=
  match state.backoffUntilMs with
  | none => state
  | some untilMs => if untilMs ≤ nowMs then { state with backoffUntilMs := none } else state

/-- `i64::saturating_sub`. -/
def saturatingSub (a b : ℤ) : ℤ := max (-9223372036854775808) (min 9223372036854775807 (a - b))

/-- `reset_totals_on_idle`. -/
def resetTotalsOnIdle (state : FailureState) (nowMs : ℤ) : FailureState :=
  match state.lastFailureMs with
  | none => state
  | some lastMs =>
    if totalIdleResetMs ≤ saturatingSub nowMs lastMs then
      { totalFailures := 0, backoffUntilMs := none, lastFailureMs := none }
    else state

/-- `allow_decision`. -/
def allowDecision : Decision := ⟨true, none, none⟩

/-- `block_decision`. -/
def blockDecision (loginError : String) (alarmType : Option AlarmAuditType) : Decision :=
  ⟨false, some loginError, alarmType⟩

/-- What both operations start with. -/
def settle (state : FailureState) (nowMs : ℤ) : FailureState :=
  normalizeBackoff (resetTotalsOnIdle state nowMs) nowMs

/-- `evaluate_os_credential_policy`: the decision, and the state afterwards. -/
def evaluate (scope : FailureScope) (state : FailureState) (nowMs : ℤ) :
    Option (Decision × FailureState) :=
  match scope with
  | .default => some (allowDecision, state)
  | .terminalOsLogin =>
    let state := settle state nowMs
    match state.backoffUntilMs with
    | none => some (allowDecision, state)
    | some untilMs => do
      let remaining ← VersionNumber.i64 (untilMs - nowMs)
      let remainingMs := max remaining 0
      let rounded ← VersionNumber.i64 (remainingMs + 999)
      let remainingSeconds := max (rounded / 1000) 1
      let secondsLabel := if remainingSeconds = 1 then "second" else "seconds"
      return (blockDecision s!"Please try again in {remainingSeconds} {secondsLabel}."
        (backoffAuditType scope), state)

/-- `i32::MAX`. -/
def i32Max : ℤ := 2147483647

/-- `record_os_credential_failure`. -/
def record (scope : FailureScope) (state : FailureState) (nowMs : ℤ) : Option FailureState :=
  match scope with
  | .default => some state
  | .terminalOsLogin => do
    let state := settle state nowMs
    let totalFailures := min (state.totalFailures + 1) i32Max
    let state := { state with totalFailures, lastFailureMs := some nowMs }
    let seconds := backoffSeconds totalFailures
    if 0 < seconds then
      let untilMs ← VersionNumber.i64 (nowMs + seconds * 1000)
      return { state with backoffUntilMs := some untilMs }
    else return state

/-! ## Runs -/

/-- The policy in use: the clock, the state, whether an attempt is under way, and the times of all
failures, newest first. -/
structure System where
  now : ℤ
  policy : FailureState
  attempt : Bool
  failures : List ℤ
  deriving DecidableEq

/-- What happens. A time at which the policy is asked may have been read before something else has
happened. -/
inductive Act where
  | clock (now : ℤ)
  | evaluate (scope : FailureScope) (nowMs : ℤ)
  | attempt (nowMs : ℤ)
  | fail
  | succeed
  deriving DecidableEq

namespace System

def start (now : ℤ) : System := ⟨now, .default, false, []⟩

/-- One step. An attempt begins when the policy allows it, and ends before another one begins. -/
def step (s : System) : Act → Option System
  | .clock now => if s.now ≤ now then some { s with now } else none
  | .evaluate scope nowMs =>
    if nowMs ≤ s.now then (LoginBackoff.evaluate scope s.policy nowMs).map fun (_, policy) =>
      { s with policy }
    else none
  | .attempt nowMs =>
    if nowMs ≤ s.now ∧ s.attempt = false then do
      let (decision, policy) ← LoginBackoff.evaluate .terminalOsLogin s.policy nowMs
      if decision.allowed then some { s with policy, attempt := true } else none
    else none
  | .fail =>
    if s.attempt then
      (record .terminalOsLogin s.policy s.now).map fun policy =>
        { s with policy, attempt := false, failures := s.now :: s.failures }
    else none
  | .succeed => if s.attempt then some { s with attempt := false } else none

end System

/-- The number of failures since the last gap that was long enough, newest first. -/
def streak : List ℤ → ℕ
  | [] => 0
  | [_] => 1
  | t :: u :: earlier => if totalIdleResetMs ≤ t - u then 1 else streak (u :: earlier) + 1

/-! ## The back-off -/

theorem backoffSeconds_nonneg (n : ℤ) : 0 ≤ backoffSeconds n := by
  rw [backoffSeconds]
  split
  · exact le_rfl
  · exact le_min (mul_nonneg (by decide) (pow_nonneg (by decide) _)) (by decide)

theorem backoffSeconds_le_max (n : ℤ) : backoffSeconds n ≤ backoffMaxSeconds := by
  rw [backoffSeconds]
  split
  · decide
  · exact min_le_right _ _

theorem backoffSeconds_mono {m n : ℤ} (h : m ≤ n) : backoffSeconds m ≤ backoffSeconds n := by
  by_cases hm : m ≤ 2
  · rw [backoffSeconds, if_pos hm]
    exact backoffSeconds_nonneg n
  · rw [backoffSeconds, backoffSeconds, if_neg hm, if_neg (by omega)]
    have hexp : (min (m - 3) 7).toNat ≤ (min (n - 3) 7).toNat := by omega
    exact min_le_min_right _ (mul_le_mul_of_nonneg_left (pow_le_pow_right₀ (by decide) hexp)
      (by decide))

/-- From the tenth failure on, the back-off is the longest. -/
theorem backoffSeconds_min (n : ℤ) : backoffSeconds (min n i32Max) = backoffSeconds n := by
  obtain hle | hlt := le_or_gt n i32Max
  · rw [min_eq_left hle]
  · rw [min_eq_right hlt.le, backoffSeconds, backoffSeconds, i32Max]
    rw [i32Max] at hlt
    have hexp : min (n - 3) 7 = min (2147483647 - 3) 7 := by omega
    rw [if_neg (by decide), if_neg (by omega), hexp]

theorem idle_iff (a b : ℤ) : totalIdleResetMs ≤ saturatingSub a b ↔ totalIdleResetMs ≤ a - b := by
  rw [totalIdleResetMs, saturatingSub]
  omega

/-! ## What the state has to do with the failures -/

/-- The wait after these failures, in milliseconds. -/
def wait (failures : List ℤ) : ℤ := 1000 * backoffSeconds (streak failures)

theorem wait_lt_idle (failures : List ℤ) : wait failures < totalIdleResetMs := by
  have hmax := backoffSeconds_le_max (streak failures)
  rw [backoffMaxSeconds] at hmax
  rw [wait, totalIdleResetMs]
  omega

/-- The wait after the failures so far is over. -/
def Free (failures : List ℤ) (now : ℤ) : Prop := ∀ last ∈ failures.head?, wait failures ≤ now - last

/-- The state of the policy: as at the start, when there was no failure for long enough; else the
number of failures of the streak, and the end of the wait for as long as nobody has seen it over. -/
inductive Tracks (failures : List ℤ) (now : ℤ) : FailureState → Prop where
  | idle : (∀ last ∈ failures.head?, totalIdleResetMs ≤ now - last) →
    Tracks failures now ⟨0, none, none⟩
  | free (last : ℤ) : failures.head? = some last → wait failures ≤ now - last →
    Tracks failures now ⟨min (streak failures) i32Max, none, some last⟩
  | waiting (last : ℤ) : failures.head? = some last → 0 < wait failures →
    Tracks failures now ⟨min (streak failures) i32Max, some (last + wait failures), some last⟩

section
variable {failures : List ℤ} {now t : ℤ} {state : FailureState}

theorem Tracks.later (h : Tracks failures now state) (ht : now ≤ t) : Tracks failures t state := by
  cases h with
  | idle h => exact .idle fun last hlast => by have := h last hlast; omega
  | free last hlast h => exact .free last hlast (by omega)
  | waiting last hlast h => exact .waiting last hlast h

theorem normalizeBackoff_some (total untilMs : ℤ) (last : Option ℤ) :
    normalizeBackoff ⟨total, some untilMs, last⟩ t =
      if untilMs ≤ t then ⟨total, none, last⟩ else ⟨total, some untilMs, last⟩ := rfl

theorem resetTotalsOnIdle_some (total last : ℤ) (untilMs : Option ℤ) :
    resetTotalsOnIdle ⟨total, untilMs, some last⟩ t =
      if totalIdleResetMs ≤ t - last then ⟨0, none, none⟩ else ⟨total, untilMs, some last⟩ := by
  rw [resetTotalsOnIdle]
  exact if_congr (idle_iff t last) rfl rfl

/-- The state of a policy that has just been settled: what has expired is gone. -/
inductive Settled (failures : List ℤ) (now t : ℤ) : FailureState → Prop where
  | idle : (∀ last ∈ failures.head?, totalIdleResetMs ≤ now - last) →
    Settled failures now t ⟨0, none, none⟩
  | free (last : ℤ) : failures.head? = some last → t - last < totalIdleResetMs →
    wait failures ≤ now - last →
    Settled failures now t ⟨min (streak failures) i32Max, none, some last⟩
  | waiting (last : ℤ) : failures.head? = some last → 0 < wait failures → t < last + wait failures →
    Settled failures now t ⟨min (streak failures) i32Max, some (last + wait failures), some last⟩

theorem Settled.tracks (h : Settled failures now t state) : Tracks failures now state := by
  cases h with
  | idle h => exact .idle h
  | free last hlast _ h => exact .free last hlast h
  | waiting last hlast h _ => exact .waiting last hlast h

theorem Tracks.settle (h : Tracks failures now state) (ht : t ≤ now) :
    Settled failures now t (settle state t) := by
  rw [LoginBackoff.settle]
  cases h with
  | idle h => exact .idle h
  | free last hlast h =>
    rw [resetTotalsOnIdle_some]
    split
    · next hidle =>
      refine .idle fun last' hlast' => ?_
      obtain rfl := Option.some.inj (hlast.symm.trans hlast')
      omega
    · next hidle => exact .free last hlast (not_le.mp hidle) h
  | waiting last hlast h =>
    rw [resetTotalsOnIdle_some]
    split
    · next hidle =>
      refine .idle fun last' hlast' => ?_
      obtain rfl := Option.some.inj (hlast.symm.trans hlast')
      omega
    · next hidle =>
      rw [normalizeBackoff_some]
      split
      · next hover => exact .free last hlast (not_le.mp hidle) (by omega)
      · next hpending => exact .waiting last hlast h (not_le.mp hpending)

/-- Where a settled policy has no wait, the wait is over. -/
theorem Settled.free_of_none (h : Settled failures now t state)
    (hnone : state.backoffUntilMs = none) : Free failures now := by
  intro last hlast
  cases h with
  | idle h =>
    have hidle := h last hlast
    have hwait := wait_lt_idle failures
    omega
  | free last' hlast' _ h =>
    obtain rfl := Option.some.inj (hlast.symm.trans hlast')
    exact h
  | waiting last' hlast' _ _ => cases hnone

/-- **Asking the policy**: the state still tells of the failures, and where the answer is to go on,
the wait is over. -/
theorem evaluate_tracks {scope : FailureScope} {decision : Decision} {state' : FailureState}
    (h : Tracks failures now state) (ht : t ≤ now)
    (heval : evaluate scope state t = some (decision, state')) :
    Tracks failures now state' ∧ (scope = .terminalOsLogin → decision.allowed = true →
      Free failures now) := by
  have hsettled := h.settle ht
  cases scope with
  | default =>
    obtain ⟨rfl, rfl⟩ := Prod.mk.inj (Option.some.inj heval)
    exact ⟨h, by rintro ⟨⟩⟩
  | terminalOsLogin =>
    rw [evaluate] at heval
    dsimp only at heval
    split at heval
    · next hnone =>
      obtain ⟨rfl, rfl⟩ := Prod.mk.inj (Option.some.inj heval)
      exact ⟨hsettled.tracks, fun _ _ => hsettled.free_of_none hnone⟩
    · obtain ⟨remaining, -, heval⟩ := Option.bind_eq_some_iff.mp heval
      obtain ⟨rounded, -, heval⟩ := Option.bind_eq_some_iff.mp heval
      obtain ⟨rfl, rfl⟩ := Prod.mk.inj (Option.some.inj heval)
      exact ⟨hsettled.tracks, by rintro - ⟨⟩⟩

theorem streak_cons {last : ℤ} (hlast : failures.head? = some last) (t : ℤ) :
    streak (t :: failures) = if totalIdleResetMs ≤ t - last then 1 else streak failures + 1 := by
  cases failures with
  | nil => cases hlast
  | cons u earlier =>
    obtain rfl := Option.some.inj hlast
    rfl

theorem i64_eq_some {x y : ℤ} (h : VersionNumber.i64 x = some y) : x = y := by
  rw [VersionNumber.i64] at h
  split at h
  · exact Option.some.inj h
  · cases h

/-- A settled policy whose wait is over counts one failure more, and has no end of a wait. -/
theorem Settled.count (h : Settled failures now now state) (hfree : Free failures now) :
    state.backoffUntilMs = none ∧ min (state.totalFailures + 1)
      i32Max = min (streak (now :: failures) : ℤ) i32Max := by
  cases h with
  | idle h =>
    refine ⟨rfl, ?_⟩
    cases failures with
    | nil => rfl
    | cons last earlier => rw [streak_cons rfl, if_pos (h last rfl)]; rfl
  | free last hlast hidle _ =>
    refine ⟨rfl, ?_⟩
    rw [streak_cons hlast, if_neg (not_le.mpr hidle)]
    dsimp only
    omega
  | waiting last hlast _ hpending =>
    have hover := hfree last hlast
    omega

/-- **Recording a failure**, at the end of an attempt: the state tells of it too. -/
theorem record_tracks {state' : FailureState} (h : Tracks failures now state)
    (hfree : Free failures now) (hrecord : record .terminalOsLogin state now = some state') :
    Tracks (now :: failures) now state' := by
  obtain ⟨hnone, hcount⟩ := (h.settle le_rfl).count hfree
  have hseconds : 1000 * backoffSeconds (min ((settle state now).totalFailures + 1) i32Max) =
      wait (now :: failures) := by
    rw [hcount, backoffSeconds_min, wait]
  rw [record] at hrecord
  dsimp only at hrecord
  rw [hnone, hcount] at hrecord
  rw [hcount] at hseconds
  split at hrecord
  · next hpositive =>
    obtain ⟨untilMs, hadd, heq⟩ := Option.bind_eq_some_iff.mp hrecord
    obtain rfl := Option.some.inj heq
    have huntil : untilMs = now + wait (now :: failures) := by
      rw [← i64_eq_some hadd, ← hseconds, mul_comm]
    rw [huntil]
    exact .waiting now rfl (by omega)
  · next hzero =>
    obtain rfl := Option.some.inj hrecord
    exact .free now rfl (by omega)

/-- Each failure is as far from the one before it as the failures of the streak before it demand. -/
def Spaced (failures : List ℤ) : Prop :=
  ∀ (later : List ℤ) (t u : ℤ) (earlier : List ℤ), failures = later ++ t :: u :: earlier →
    1000 * backoffSeconds (streak (t :: u :: earlier) - 1) ≤ t - u

theorem Spaced.cons (h : Spaced failures) (hfree : Free failures now) :
    Spaced (now :: failures) := by
  intro later t u earlier heq
  cases later with
  | nil =>
    obtain ⟨rfl, rfl⟩ := List.cons.inj heq
    rw [streak_cons rfl]
    split
    · next hidle =>
      have hnone : backoffSeconds (((1 : ℕ) : ℤ) - 1) = 0 := by decide
      rw [totalIdleResetMs] at hidle
      rw [hnone]
      omega
    · have hstreak : ((streak (u :: earlier) + 1 : ℕ) : ℤ) - 1 = streak (u :: earlier) := by omega
      rw [hstreak]
      exact hfree u rfl
  | cons t' later => exact h later t u earlier (List.cons.inj heq).2

end

/-! ## The bound -/

/-- What holds in every state. -/
structure Invariant (s : System) : Prop where
  tracks : Tracks s.failures s.now s.policy
  free : s.attempt = true → Free s.failures s.now
  spaced : Spaced s.failures

theorem invariant_start (now : ℤ) : Invariant (.start now) where
  tracks := .idle (by rintro _ ⟨⟩)
  free := by rintro ⟨⟩
  spaced := by
    intro later t u earlier h
    cases later <;> cases h

/-- **One step** keeps it. -/
theorem step_invariant (s : System) (act : Act) (s' : System) (h : Invariant s)
    (hstep : s.step act = some s') : Invariant s' := by
  cases act with
  | clock now =>
    rw [System.step] at hstep
    split at hstep
    · next hle =>
      obtain rfl := Option.some.inj hstep
      refine ⟨h.tracks.later hle, fun hattempt last hlast => ?_, h.spaced⟩
      have hfree := h.free hattempt last hlast
      dsimp only at hlast ⊢
      omega
    · cases hstep
  | evaluate scope nowMs =>
    rw [System.step] at hstep
    split at hstep
    · next hle =>
      obtain ⟨⟨decision, policy⟩, heval, rfl⟩ := Option.map_eq_some_iff.mp hstep
      exact ⟨(evaluate_tracks h.tracks hle heval).1, h.free, h.spaced⟩
    · cases hstep
  | attempt nowMs =>
    rw [System.step] at hstep
    split at hstep
    · next hle =>
      obtain ⟨⟨decision, policy⟩, heval, hstep⟩ := Option.bind_eq_some_iff.mp hstep
      obtain ⟨htracks, hfree⟩ := evaluate_tracks h.tracks hle.1 heval
      dsimp only at hstep
      split at hstep
      · next hallowed =>
        obtain rfl := Option.some.inj hstep
        exact ⟨htracks, fun _ => hfree rfl hallowed, h.spaced⟩
      · cases hstep
    · cases hstep
  | fail =>
    rw [System.step] at hstep
    split at hstep
    · next hattempt =>
      obtain ⟨policy, hrecord, rfl⟩ := Option.map_eq_some_iff.mp hstep
      have hfree := h.free hattempt
      exact ⟨record_tracks h.tracks hfree hrecord, by rintro ⟨⟩, h.spaced.cons hfree⟩
    · cases hstep
  | succeed =>
    rw [System.step] at hstep
    split at hstep
    · obtain rfl := Option.some.inj hstep
      exact ⟨h.tracks, by rintro ⟨⟩, h.spaced⟩
    · cases hstep

/-- A wait that is not over is not shortened by settling. -/
theorem settle_pending {failures : List ℤ} {now t untilMs : ℤ} {state : FailureState}
    (h : Tracks failures now state) (hpending : state.backoffUntilMs = some untilMs)
    (ht : t < untilMs) : resetTotalsOnIdle state t = state ∧ settle state t = state := by
  cases h with
  | idle h => cases hpending
  | free last hlast h => cases hpending
  | waiting last hlast h =>
    obtain rfl := Option.some.inj hpending
    have hshort := wait_lt_idle failures
    have hreset : resetTotalsOnIdle ⟨min (streak failures : ℤ) i32Max, some (last + wait failures),
      some last⟩ t =
        ⟨min (streak failures : ℤ) i32Max, some (last + wait failures), some last⟩ := by
      rw [resetTotalsOnIdle_some, if_neg (by omega)]
    refine ⟨hreset, ?_⟩
    rw [settle, hreset, normalizeBackoff_some, if_neg (by omega)]

/-- **The back-off is kept.** In every run, the k-th failure since the last gap of two hours comes
no sooner after the one before it than k - 1 failures demand, which is more with every failure and
never more than half an hour; and nothing but time ends a wait. -/
theorem login_backoff_bound :
    (∀ (start : ℤ) (acts : List Act) (s : System), exec System.step (.start start) acts = some s →
      (∀ (later : List ℤ) (t u : ℤ) (earlier : List ℤ), s.failures = later ++ t :: u :: earlier →
        1000 * backoffSeconds (streak (t :: u :: earlier) - 1) ≤ t - u) ∧
      ∀ nowMs untilMs, s.policy.backoffUntilMs = some untilMs → nowMs < untilMs →
        (∀ scope decision policy, evaluate scope s.policy nowMs = some (decision, policy) →
          policy.backoffUntilMs = some untilMs) ∧
        (resetTotalsOnIdle s.policy nowMs).backoffUntilMs = some untilMs) ∧
    (∀ m n : ℤ, m ≤ n → backoffSeconds m ≤ backoffSeconds n) ∧
    ∀ n : ℤ, backoffSeconds n ≤ backoffMaxSeconds := by
  refine ⟨fun start acts s hrun => ?_, fun _ _ => backoffSeconds_mono, backoffSeconds_le_max⟩
  have h := exec_invariant step_invariant (invariant_start start) hrun
  refine ⟨h.spaced, fun nowMs untilMs hpending hlt => ?_⟩
  obtain ⟨hreset, hsettle⟩ := settle_pending h.tracks hpending hlt
  refine ⟨fun scope decision policy heval => ?_, by rw [hreset, hpending]⟩
  cases scope with
  | default =>
    obtain ⟨-, rfl⟩ := Prod.mk.inj (Option.some.inj heval)
    exact hpending
  | terminalOsLogin =>
    rw [evaluate, hsettle] at heval
    dsimp only at heval
    split at heval
    · next hnone =>
      rw [hpending] at hnone
      cases hnone
    · obtain ⟨remaining, -, heval⟩ := Option.bind_eq_some_iff.mp heval
      obtain ⟨rounded, -, heval⟩ := Option.bind_eq_some_iff.mp heval
      obtain ⟨-, rfl⟩ := Prod.mk.inj (Option.some.inj heval)
      exact hpending

/-- Three failures at once, and a fourth when the wait of fifteen seconds is over. -/
theorem login_backoff_bound_fourth : ∃ s, exec System.step (.start 1000)
        [.attempt 1000, .fail, .attempt 1000, .fail, .attempt 1000, .fail, .clock 16000,
          .attempt 16000, .fail] = some s ∧
      s.failures = [16000, 1000, 1000, 1000] ∧
        1000 * backoffSeconds (streak [16000, 1000, 1000, 1000] - 1) ≤ 16000 - 1000 := by
  have hrun : ∃ s, exec System.step (.start 1000)
      [.attempt 1000, .fail, .attempt 1000, .fail, .attempt 1000, .fail, .clock 16000,
        .attempt 16000, .fail] = some s ∧
      s.failures = [16000, 1000, 1000, 1000] := by
    refine ⟨⟨16000, ⟨4, some 46000, some 16000⟩, false, [16000, 1000, 1000, 1000]⟩, ?_, rfl⟩
    decide
  obtain ⟨s, hexec, hfailures⟩ := hrun
  exact ⟨s, hexec, hfailures, (login_backoff_bound.1 1000 _ s hexec).1 [] 16000 1000 [1000, 1000]
    hfailures⟩

end LoginBackoff
end BgDesk
