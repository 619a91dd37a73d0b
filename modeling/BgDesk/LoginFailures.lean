import BgDesk.Machine
import Mathlib.Data.List.TakeWhile

/-!
# Throttling of failed logins

`src/server/connection.rs`: `LOGIN_FAILURES`, with `check_failure`,
`update_failure` and `check_update_temporary_password`. A failed attempt is
recorded under the address it came from and, for IPv6, under its /64, /56 and
/48 prefixes; a check refuses an attempt once one of these keys has too many
failures.

Check and update are separate critical sections: any number of connections can
stand between them. So an attempt is a value here, with the stage it has
reached, and every lock it takes is a step of its own (`Throttle.step`).
At most `c` attempts are under way at any time, from the start of an attempt's
check to the last of its updates.

The state keeps a log of what has happened (newest first), which the source does
not: it is what the counts below are taken from.

* `Throttle.throttled` — totals are exact, failed validations are bounded per
  address and prefix, per minute, and per temporary password.
-/

namespace BgDesk

/-! ## Keys -/

/-- The address of a connection, `self.ip`; an IPv6 address may carry a zone id. -/
inductive Addr where
  | v4 (bits : BitVec 32)
  | v6 (bits : BitVec 128) (zone : Option String)
  deriving DecidableEq

/-- A key of `LOGIN_FAILURES`: an address, or the masked bits of a prefix. -/
inductive FailureKey where
  | ip (a : Addr)
  | p64 (bits : BitVec 128)
  | p56 (bits : BitVec 128)
  | p48 (bits : BitVec 128)
  deriving DecidableEq

/-- `mask_u128`. -/
def maskU128 (addr : BitVec 128) (len : ℕ) : BitVec 128 :=
  if len = 0 ∨ 128 < len then 0 else addr &&& (BitVec.allOnes 128 <<< (128 - len))

/-- `get_ipv6_prefixes`. The zone id does not count. -/
def getIpv6Prefixes : Addr → Option (FailureKey × FailureKey × FailureKey)
  | .v4 _ => none
  | .v6 bits _ => some (.p64 (maskU128 bits 64), .p56 (maskU128 bits 56), .p48 (maskU128 bits 48))

/-- The keys an address is recorded under, in the order they are checked. -/
def Addr.keys (a : Addr) : List FailureKey :=
  match getIpv6Prefixes a with
  | some (p64, p56, p48) => [p64, p56, p48, .ip a]
  | none => [.ip a]

/-- Failures a key may have for an attempt still to be let through. -/
def FailureKey.thresh : FailureKey → ℕ
  | .ip _ => 30
  | .p64 _ => 60
  | .p56 _ => 80
  | .p48 _ => 100

/-- An address is the only one recorded under itself. -/
theorem Addr.ip_mem_keys {a b : Addr} : FailureKey.ip a ∈ b.keys ↔ b = a := by
  cases b with
  | v4 bits =>
    simp only [keys, getIpv6Prefixes, List.mem_singleton, FailureKey.ip.injEq]
    exact eq_comm
  | v6 bits zone =>
    simp only [keys, getIpv6Prefixes, List.mem_cons, reduceCtorEq, List.not_mem_nil,
      FailureKey.ip.injEq, false_or, or_false]
    exact eq_comm

/-- The address itself is checked last. -/
theorem Addr.keys_ip {a b : Addr} {n : ℕ} (h : a.keys[n]? = some (.ip b)) :
    b = a ∧ n + 1 = a.keys.length := by
  have hb : a = b := Addr.ip_mem_keys.mp (List.mem_of_getElem? h)
  refine ⟨hb.symm, ?_⟩
  cases a with
  | v4 bits =>
    obtain ⟨hlt, -⟩ := List.getElem?_eq_some_iff.mp h
    simp only [keys, getIpv6Prefixes, List.length_singleton] at hlt ⊢
    omega
  | v6 bits zone =>
    simp only [keys, getIpv6Prefixes, List.length_cons, List.length_nil] at h ⊢
    match n, h with
    | 3, _ => rfl

/-! ## Entries -/

/-- An entry: the minute of the last failure, the failures in it, and all of them. -/
structure Failure where
  minute : ℕ
  perMinute : ℕ
  total : ℕ
  deriving DecidableEq

/-- What an absent entry counts as. -/
def Failure.none : Failure := ⟨0, 0, 0⟩

/-- `bump_failure_entry`. -/
def bumpFailureEntry (cur : Failure) (time : ℕ) : Failure :=
  if cur.minute = time then ⟨cur.minute, cur.perMinute + 1, cur.total + 1⟩
  else ⟨time, 1, cur.total + 1⟩

@[simp] theorem bumpFailureEntry_total (cur : Failure) (time : ℕ) :
    (bumpFailureEntry cur time).total = cur.total + 1 := by
  rw [bumpFailureEntry]
  split_ifs <;> rfl

@[simp] theorem bumpFailureEntry_minute (cur : Failure) (time : ℕ) :
    (bumpFailureEntry cur time).minute = time := by
  rw [bumpFailureEntry]
  split_ifs with h
  · exact h
  · rfl

/-- The two buckets of `LOGIN_FAILURES`. -/
inductive Bucket where
  | password
  | twoFactor
  deriving DecidableEq

/-! ## Attempts -/

/-- How far an attempt has got. -/
inductive Stage where
  /-- in `check_failure`, past this many of its keys -/
  | checking (n : ℕ)
  /-- let through; `failure` is what it saw under its address -/
  | checked (failure : Failure)
  /-- found wrong, while this temporary password was the current one -/
  | failed (against : ℕ)
  /-- recorded, with the temporary password's counter still to be told -/
  | recorded (against : ℕ)
  /-- the temporary password matched, with its counter still to be told -/
  | matched (failure : Failure)
  /-- accepted, with the keys still to be removed -/
  | succeeded (failure : Failure)
  deriving DecidableEq

/-- An attempt under way, with the minute its check captured. -/
structure Attempt where
  addr : Addr
  time : ℕ
  stage : Stage
  deriving DecidableEq

/-- What a validation can say. -/
inductive Verdict where
  | wrong
  /-- the temporary password matched -/
  | temporary
  /-- another password, or the second factor, was right -/
  | accepted
  deriving DecidableEq

/-- What has happened. -/
inductive Event where
  /-- a validation failed: the minutes of its check and of itself, and the temporary
  password of the time -/
  | failed (a : Addr) (checked made against : ℕ)
  | recorded (a : Addr) (time : ℕ)
  | removed (a : Addr)
  /-- a match cleared the counter of this temporary password -/
  | cleared (against : ℕ)
  deriving DecidableEq

/-- State of `TEMPORARY_PASSWORD_FAILURES`. -/
structure TempFailures where
  password : Option ℕ
  failures : ℕ
  deriving DecidableEq

/-- One bucket, with the temporary password (values are numbered as they are generated). -/
structure Throttle where
  /-- the current minute -/
  clock : ℕ
  entries : FailureKey → Option Failure
  attempts : List Attempt
  current : ℕ
  counter : TempFailures
  log : List Event

/-- `check_update_temporary_password`: the current temporary password and the counter
after it. -/
def checkUpdateTemporaryPassword (success : Bool) (current : ℕ) (st : TempFailures) :
    ℕ × TempFailures :=
  let failures := if st.password = some current then st.failures else 0
  if success then (current, ⟨some current, 0⟩)
  else if failures + 1 < 10 then (current, ⟨some current, failures + 1⟩)
  else (current + 1, ⟨some (current + 1), 0⟩)

/-- Replace element `i` of a list, or take it out. -/
def put {α : Type} (i : ℕ) (o : Option α) (l : List α) : List α :=
  l.take i ++ o.toList ++ l.drop (i + 1)

variable {i : ℕ}

theorem put_split {α : Type} {l : List α} {x : α} (h : l[i]? = some x) :
    ∃ pre post, l = pre ++ x :: post ∧ ∀ o : Option α, put i o l = pre ++ o.toList ++ post := by
  obtain ⟨hlt, rfl⟩ := List.getElem?_eq_some_iff.mp h
  refine ⟨l.take i, l.drop (i + 1), ?_, fun _ => rfl⟩
  rw [List.getElem_cons_drop, List.take_append_drop]

/-- Counting after one element has been replaced or taken out. -/
theorem countP_put {α : Type} {p : α → Bool} {l : List α} {x : α} (h : l[i]? = some x)
    (o : Option α) : (put i o l).countP p + [x].countP p = l.countP p + o.toList.countP p := by
  obtain ⟨pre, post, rfl, hput⟩ := put_split h
  have hcons : (x :: post).countP p = [x].countP p + post.countP p := by
    rw [← List.countP_append, List.singleton_append]
  rw [hput]
  simp only [List.countP_append, hcons]
  omega

theorem length_put_le {α : Type} {l : List α} {x : α} (h : l[i]? = some x) (o : Option α) :
    (put i o l).length ≤ l.length := by
  have hcount := countP_put (p := fun _ => true) h o
  have hone : o.toList.length ≤ 1 := by cases o <;> simp
  simp only [List.countP_true, List.length_singleton] at hcount
  omega

theorem filter_put_other {α : Type} {p : α → Bool} {l : List α} {x : α} {o : Option α}
    (h : l[i]? = some x) (hx : p x = false) (ho : ∀ y, o = some y → p y = false) :
    (put i o l).filter p = l.filter p := by
  obtain ⟨pre, post, rfl, hput⟩ := put_split h
  have hnone : o.toList.filter p = [] := by
    apply List.filter_eq_nil_iff.mpr
    intro y hy
    simp [ho y (by simpa using hy)]
  rw [hput]
  simp [hx, hnone]

/-- The only element that meets `p` is replaced. -/
theorem filter_put_only {α : Type} {p : α → Bool} {l : List α} {x : α} (o : Option α)
    (h : l[i]? = some x) (hx : p x = true) (hone : (l.filter p).length ≤ 1) :
    l.filter p = [x] ∧ (put i o l).filter p = o.toList.filter p := by
  obtain ⟨pre, post, rfl, hput⟩ := put_split h
  simp only [List.filter_append, List.filter_cons, hx, if_true, List.length_append,
    List.length_cons] at hone
  have h₁ : pre.filter p = [] := List.length_eq_zero_iff.mp (by omega)
  have h₂ : post.filter p = [] := List.length_eq_zero_iff.mp (by omega)
  rw [hput]
  simp [h₁, h₂, hx]

namespace Throttle

def init (clock : ℕ) : Throttle := ⟨clock, fun _ => none, [], 0, ⟨none, 0⟩, []⟩

/-- What is stored under a key. -/
def entry (s : Throttle) (k : FailureKey) : Failure := (s.entries k).getD .none

/-- What can happen next. -/
inductive Act where
  /-- a minute passes -/
  | tick
  /-- an attempt captures the minute and enters its check -/
  | start (a : Addr)
  /-- attempt `i` reads its next key -/
  | check (i : ℕ)
  /-- attempt `i` ends without a validation -/
  | abandon (i : ℕ)
  | validate (i : ℕ) (v : Verdict)
  /-- `update_failure` of attempt `i` -/
  | update (i : ℕ)
  /-- `check_update_temporary_password` of attempt `i` -/
  | settle (i : ℕ)
  /-- the temporary password is replaced from elsewhere -/
  | rotate
  deriving DecidableEq

/-- Attempt `i` goes on as `o`. -/
def goOn (s : Throttle) (i : ℕ) (o : Option Attempt) : Throttle :=
  { s with attempts := put i o s.attempts }

/-- `check_failure`, one key at a time: `none` if the attempt is refused. -/
def check (s : Throttle) (t : Attempt) (n : ℕ) (k : FailureKey) : Option Attempt :=
  let failure := s.entry k
  if k.thresh < failure.total then none
  else
    match k with
    | .ip _ =>
      if t.time = failure.minute ∧ 6 < failure.perMinute then none
      else some { t with stage := .checked failure }
    | _ => some { t with stage := .checking (n + 1) }

/-- The inserts of `update_failure`. The keys of an address are pairwise different, so
each is bumped once. -/
def record (s : Throttle) (t : Attempt) : Throttle :=
  { s with
    entries := fun k =>
      if k ∈ t.addr.keys then some (bumpFailureEntry (s.entry k) t.time) else s.entries k
    log := .recorded t.addr t.time :: s.log }

/-- The removals of `update_failure`, made only if the check saw an entry. -/
def remove (s : Throttle) (t : Attempt) (failure : Failure) : Throttle :=
  if failure.minute ≠ 0 then
    { s with
      entries := fun k => if k ∈ t.addr.keys then none else s.entries k
      log := .removed t.addr :: s.log }
  else s

/-- One step of bucket `b`, with at most `c` attempts under way. -/
def step (b : Bucket) (c : ℕ) (s : Throttle) : Act → Option Throttle
  | .tick => some { s with clock := s.clock + 1 }
  | .start a =>
    if s.attempts.length < c then
      some { s with attempts := s.attempts ++ [⟨a, s.clock, .checking 0⟩] }
    else none
  | .check i =>
    match s.attempts[i]? with
    | some t =>
      match t.stage with
      | .checking n => (t.addr.keys[n]?).map fun k => s.goOn i (s.check t n k)
      | _ => none
    | none => none
  | .abandon i =>
    match s.attempts[i]? with
    | some t =>
      match t.stage with
      | .checked _ => some (s.goOn i none)
      | _ => none
    | none => none
  | .validate i v =>
    match s.attempts[i]? with
    | some t =>
      match t.stage, v with
      | .checked _, .wrong =>
        some { s.goOn i (some { t with stage := .failed s.current }) with
          log := .failed t.addr t.time s.clock s.current :: s.log }
      | .checked failure, .temporary =>
        if b = .password then some (s.goOn i (some { t with stage := .matched failure })) else none
      | .checked failure, .accepted => some (s.goOn i (some { t with stage := .succeeded failure }))
      | _, _ => none
    | none => none
  | .update i =>
    match s.attempts[i]? with
    | some t =>
      match t.stage with
      | .failed v =>
        match b with
        | .password => some ((s.record t).goOn i (some { t with stage := .recorded v }))
        | .twoFactor => some ((s.record t).goOn i none)
      | .succeeded failure => some ((s.remove t failure).goOn i none)
      | _ => none
    | none => none
  | .settle i =>
    match s.attempts[i]? with
    | some t =>
      match t.stage with
      | .recorded _ =>
        let (current, counter) := checkUpdateTemporaryPassword false s.current s.counter
        some { s.goOn i none with current := current, counter := counter }
      | .matched failure =>
        let (current, counter) := checkUpdateTemporaryPassword true s.current s.counter
        some { s.goOn i (some { t with stage := .succeeded failure }) with
          current := current, counter := counter, log := .cleared s.current :: s.log }
      | _ => none
    | none => none
  | .rotate => some { s with current := s.current + 1 }

/-- What a step can do, one constructor for each way through an attempt. -/
inductive Stepped (b : Bucket) (c : ℕ) (s : Throttle) : Act → Throttle → Prop where
  | ticked : Stepped b c s .tick { s with clock := s.clock + 1 }
  | started {a : Addr} (hlt : s.attempts.length < c) :
    Stepped b c s (.start a) { s with attempts := s.attempts ++ [⟨a, s.clock, .checking 0⟩] }
  | passed {i n : ℕ} {t : Attempt} {k : FailureKey} (hi : s.attempts[i]? = some t)
    (hst : t.stage = .checking n) (hk : t.addr.keys[n]? = some k)
    (hle : (s.entry k).total ≤ k.thresh) (hip : ∀ a, k ≠ .ip a) :
    Stepped b c s (.check i) (s.goOn i (some { t with stage := .checking (n + 1) }))
  | letThrough {i n : ℕ} {t : Attempt} (hi : s.attempts[i]? = some t)
    (hst : t.stage = .checking n) (hk : t.addr.keys[n]? = some (.ip t.addr))
    (hle : (s.entry (.ip t.addr)).total ≤ (FailureKey.ip t.addr).thresh)
    (hmin : t.time = (s.entry (.ip t.addr)).minute → (s.entry (.ip t.addr)).perMinute ≤ 6) :
    Stepped b c s (.check i)
      (s.goOn i (some { t with stage := .checked (s.entry (.ip t.addr)) }))
  | gaveUp {x : Act} {i : ℕ} {t : Attempt} (hi : s.attempts[i]? = some t)
    (hst : (∃ n, t.stage = .checking n) ∨ ∃ failure, t.stage = .checked failure) :
    Stepped b c s x (s.goOn i none)
  | wrong {i : ℕ} {t : Attempt} {failure : Failure} (hi : s.attempts[i]? = some t)
    (hst : t.stage = .checked failure) :
    Stepped b c s (.validate i .wrong) { s.goOn i (some { t with stage := .failed s.current }) with
      log := .failed t.addr t.time s.clock s.current :: s.log }
  | matched {i : ℕ} {t : Attempt} {failure : Failure} (hi : s.attempts[i]? = some t)
    (hst : t.stage = .checked failure) :
    Stepped b c s (.validate i .temporary) (s.goOn i (some { t with stage := .matched failure }))
  | accepted {i : ℕ} {t : Attempt} {failure : Failure} (hi : s.attempts[i]? = some t)
    (hst : t.stage = .checked failure) :
    Stepped b c s (.validate i .accepted)
      (s.goOn i (some { t with stage := .succeeded failure }))
  | recorded {i v : ℕ} {t : Attempt} {o : Option Attempt} (hi : s.attempts[i]? = some t)
    (hst : t.stage = .failed v)
    (ho : o = match b with
      | .password => some { t with stage := .recorded v }
      | .twoFactor => none) :
    Stepped b c s (.update i) ((s.record t).goOn i o)
  | removed {i : ℕ} {t : Attempt} {failure : Failure} (hi : s.attempts[i]? = some t)
    (hst : t.stage = .succeeded failure) :
    Stepped b c s (.update i) ((s.remove t failure).goOn i none)
  | counted {i v : ℕ} {t : Attempt} (hi : s.attempts[i]? = some t)
    (hst : t.stage = .recorded v) :
    Stepped b c s (.settle i) { s.goOn i none with
      current := (checkUpdateTemporaryPassword false s.current s.counter).1
      counter := (checkUpdateTemporaryPassword false s.current s.counter).2 }
  | cleared {i : ℕ} {t : Attempt} {failure : Failure} (hi : s.attempts[i]? = some t)
    (hst : t.stage = .matched failure) :
    Stepped b c s (.settle i) { s.goOn i (some { t with stage := .succeeded failure }) with
      counter := ⟨some s.current, 0⟩, log := .cleared s.current :: s.log }
  | rotated : Stepped b c s .rotate { s with current := s.current + 1 }

/-- Inversion of a step. -/
theorem step_stepped {b : Bucket} {c : ℕ} {s s' : Throttle} {a : Act}
    (h : s.step b c a = some s') : Stepped b c s a s' := by
  cases a with
  | tick =>
    cases h
    exact .ticked
  | start a =>
    simp only [step] at h
    split_ifs at h with hlt
    cases h
    exact .started hlt
  | check i =>
    simp only [step] at h
    split at h
    · rename_i t hi
      split at h
      · rename_i n hst
        obtain ⟨k, hk, rfl⟩ := Option.map_eq_some_iff.mp h
        cases k with
        | ip a =>
          obtain rfl := (Addr.keys_ip hk).1
          simp only [check]
          split_ifs with hle hmin
          · exact .gaveUp hi (.inl ⟨n, hst⟩)
          · exact .gaveUp hi (.inl ⟨n, hst⟩)
          · exact .letThrough hi hst hk (not_lt.mp hle)
              fun heq => not_lt.mp fun hlt => hmin ⟨heq, hlt⟩
        | p64 | p56 | p48 =>
          simp only [check]
          split_ifs with hle
          · exact .gaveUp hi (.inl ⟨n, hst⟩)
          · exact .passed hi hst hk (not_lt.mp hle) nofun
      · cases h
    · cases h
  | abandon i =>
    simp only [step] at h
    split at h
    · rename_i t hi
      split at h
      · rename_i failure hst
        cases h
        exact .gaveUp hi (.inr ⟨failure, hst⟩)
      · cases h
    · cases h
  | validate i v =>
    simp only [step] at h
    split at h
    · rename_i t hi
      split at h
      · rename_i hst
        cases h
        exact .wrong hi hst
      · rename_i hst
        split_ifs at h
        cases h
        exact .matched hi hst
      · rename_i hst
        cases h
        exact .accepted hi hst
      · cases h
    · cases h
  | update i =>
    simp only [step] at h
    split at h
    · rename_i t hi
      split at h
      · rename_i v hst
        cases b with
        | password =>
          cases h
          exact .recorded hi hst rfl
        | twoFactor =>
          cases h
          exact .recorded hi hst rfl
      · rename_i failure hst
        cases h
        exact .removed hi hst
      · cases h
    · cases h
  | settle i =>
    simp only [step] at h
    split at h
    · rename_i t hi
      split at h
      · rename_i v hst
        cases h
        exact .counted hi hst
      · rename_i failure hst
        cases h
        exact .cleared hi hst
      · cases h
    · cases h
  | rotate =>
    cases h
    exact .rotated

/-! ## Counts over the log -/

end Throttle

namespace Event

/-- Whether the event takes key `k` out of the map. -/
def removes (k : FailureKey) : Event → Bool
  | .removed a => k ∈ a.keys
  | _ => false

/-- Whether the event records a failure under `k`. -/
def records (k : FailureKey) : Event → Bool
  | .recorded a _ => k ∈ a.keys
  | _ => false

/-- Whether the event is a failed validation from an address under `k`. -/
def fails (k : FailureKey) : Event → Bool
  | .failed a _ _ _ => k ∈ a.keys
  | _ => false

/-- Whether the event is a failed validation from `a` that was checked in minute `m`. -/
def failsChecked (a : Addr) (m : ℕ) : Event → Bool
  | .failed b checked _ _ => b = a ∧ checked = m
  | _ => false

/-- Whether the event is a failed validation from `a` made in minute `m`. -/
def failsMade (a : Addr) (m : ℕ) : Event → Bool
  | .failed b _ made _ => b = a ∧ made = m
  | _ => false

/-- Whether the event is a password tried and found wrong against temporary password `v`. -/
def tries (v : ℕ) : Event → Bool
  | .failed _ _ _ against => against = v
  | _ => false

end Event

namespace Throttle

/-- What has happened since key `k` was last removed. -/
def since (k : FailureKey) (log : List Event) : List Event := log.takeWhile fun e => !e.removes k

/-- What has happened since a match last cleared the counter of temporary password `v`. -/
def sinceCleared (v : ℕ) (log : List Event) : List Event := log.takeWhile fun e => e ≠ .cleared v

theorem since_cons (k : FailureKey) (e : Event) (log : List Event) :
    since k (e :: log) = if e.removes k then [] else e :: since k log := by
  rw [since, List.takeWhile_cons]
  cases e.removes k <;> rfl

theorem sinceCleared_cons (v : ℕ) (e : Event) (log : List Event) :
    sinceCleared v (e :: log) = if e = .cleared v then [] else e :: sinceCleared v log := by
  rw [sinceCleared, List.takeWhile_cons]
  by_cases h : e = .cleared v <;> simp [h, sinceCleared]

/-- Failures recorded under `k` since it was last removed. -/
def recordedSince (k : FailureKey) (log : List Event) : ℕ := (since k log).countP (Event.records k)

/-- Failed validations from addresses under `k` since it was last removed. -/
def failedSince (k : FailureKey) (log : List Event) : ℕ := (since k log).countP (Event.fails k)

/-- Of those from `a`, the ones checked in minute `m`. -/
def checkedIn (a : Addr) (m : ℕ) (log : List Event) : ℕ :=
  (since (.ip a) log).countP (Event.failsChecked a m)

/-- Of those from `a`, the ones made in minute `m`. -/
def madeIn (a : Addr) (m : ℕ) (log : List Event) : ℕ :=
  (since (.ip a) log).countP (Event.failsMade a m)

/-- Wrong passwords tried against temporary password `v` since a match last cleared its
counter. -/
def triedSince (v : ℕ) (log : List Event) : ℕ := (sinceCleared v log).countP (Event.tries v)

/-! ## Totals are exact -/

/-- The stored total of every key is the number of failures recorded under it. -/
def Exact (s : Throttle) : Prop := ∀ k, (s.entry k).total = recordedSince k s.log

theorem entry_record (s : Throttle) (t : Attempt) (k : FailureKey) : (s.record t).entry k =
      if k ∈ t.addr.keys then bumpFailureEntry (s.entry k) t.time else s.entry k := by
  rw [entry, record]
  dsimp only
  split_ifs <;> rfl

theorem recordedSince_cons (k : FailureKey) (e : Event) (log : List Event) :
    recordedSince k (e :: log) =
      if e.removes k then 0 else recordedSince k log + if e.records k then 1 else 0 := by
  rw [recordedSince, since_cons]
  split_ifs with h₁ h₂
  · rfl
  · rw [List.countP_cons, if_pos h₂, recordedSince]
  · rw [List.countP_cons, if_neg h₂, recordedSince]

/-- No update is lost. -/
theorem Exact.step {b : Bucket} {c : ℕ} {s s' : Throttle} {x : Act} (h : s.Exact)
    (hs : Stepped b c s x s') : s'.Exact := by
  intro k
  have hk := h k
  cases hs with
  | wrong hi hst | cleared hi hst =>
    show (s.entry k).total = recordedSince k (_ :: s.log)
    rw [recordedSince_cons]
    exact hk
  | @recorded i v t o hi hst ho =>
    show ((s.record t).entry k).total = recordedSince k (.recorded t.addr t.time :: s.log)
    rw [entry_record, recordedSince_cons]
    simp only [Event.removes, Event.records, decide_eq_true_eq, Bool.false_eq_true, if_false]
    split_ifs with hmem
    · rw [bumpFailureEntry_total, hk]
    · exact hk
  | @removed i t failure hi hst =>
    show ((s.remove t failure).entry k).total = recordedSince k (s.remove t failure).log
    rw [remove]
    split_ifs with hm
    · rw [recordedSince_cons, entry]
      simp only [Event.removes, Event.records, decide_eq_true_eq, Bool.false_eq_true, if_false]
      split_ifs with hmem
      · rfl
      · exact hk
    · exact hk
  | ticked | started | passed | letThrough | gaveUp | matched | accepted | counted | rotated =>
    exact hk

/-! ## Failed validations of a key -/

end Throttle

namespace Attempt

/-- The attempt has been let past key `k` and its failure, if it is one, is not yet
recorded. -/
def passed (k : FailureKey) (t : Attempt) : Bool :=
  match t.stage with
  | .checking n => k ∈ t.addr.keys.take n
  | .recorded _ => false
  | _ => k ∈ t.addr.keys

/-- The attempt has failed and is still to be recorded under `k`. -/
def unrecorded (k : FailureKey) (t : Attempt) : Bool :=
  match t.stage with
  | .failed _ => k ∈ t.addr.keys
  | _ => false

theorem passed_of_unrecorded {k : FailureKey} {t : Attempt} (h : t.unrecorded k = true) :
    t.passed k = true := by
  unfold unrecorded at h
  split at h
  · rename_i v hst
    simpa [passed, hst] using h
  · cases h

end Attempt

theorem Addr.mem_take_succ {a : Addr} {n : ℕ} {k k₀ : FailureKey} (h : a.keys[n]? = some k₀) :
    k ∈ a.keys.take (n + 1) ↔ k ∈ a.keys.take n ∨ k = k₀ := by
  rw [List.take_add_one, h, List.mem_append]
  simp

namespace Throttle

/-- What bounds the failures of every key, with at most `c` attempts under way. -/
structure Bounded (c : ℕ) (s : Throttle) : Prop where
  few : s.attempts.length ≤ c
  /-- recorded failures and those still to come from attempts let past the key -/
  within : ∀ k, (s.entry k).total + s.attempts.countP (Attempt.passed k) ≤ k.thresh + c
  /-- a failed validation is recorded, or its attempt is still under way -/
  made : ∀ k, failedSince k s.log ≤ (s.entry k).total + s.attempts.countP (Attempt.unrecorded k)

theorem failedSince_cons (k : FailureKey) (e : Event) (log : List Event) :
    failedSince k (e :: log) =
      if e.removes k then 0 else failedSince k log + if e.fails k then 1 else 0 := by
  rw [failedSince, since_cons]
  split_ifs with h₁ h₂
  · rfl
  · rw [List.countP_cons, if_pos h₂, failedSince]
  · rw [List.countP_cons, if_neg h₂, failedSince]

variable {c : ℕ} {s : Throttle}

/-- An attempt goes on, past no key it was not past before and with nothing to record. -/
theorem Bounded.goOn (h : s.Bounded c) {i : ℕ} {t : Attempt} {o : Option Attempt}
    (hi : s.attempts[i]? = some t)
    (hpassed : ∀ k, o.toList.countP (Attempt.passed k) ≤ [t].countP (Attempt.passed k))
    (hun : ∀ k, [t].countP (Attempt.unrecorded k) ≤ o.toList.countP (Attempt.unrecorded k)) :
    (s.goOn i o).Bounded c := by
  refine ⟨le_trans (length_put_le hi o) h.few, ?_, ?_⟩
  · intro k
    have hput := countP_put (p := Attempt.passed k) hi o
    have hle := h.within k
    have hnew := hpassed k
    show (s.entry k).total + (put i o s.attempts).countP (Attempt.passed k) ≤ _
    omega
  · intro k
    have hput := countP_put (p := Attempt.unrecorded k) hi o
    have hle := h.made k
    have hnew := hun k
    show failedSince k s.log ≤ (s.entry k).total +
      (put i o s.attempts).countP (Attempt.unrecorded k)
    omega

/-- An attempt is let past one more key. -/
theorem Bounded.pass (h : s.Bounded c) {i n : ℕ} {t t' : Attempt} {k₀ : FailureKey}
    (hi : s.attempts[i]? = some t) (hst : t.stage = .checking n) (hk : t.addr.keys[n]? = some k₀)
    (hle : (s.entry k₀).total ≤ k₀.thresh)
    (hpassed : ∀ k, t'.passed k = true → k ∈ t.addr.keys.take (n + 1))
    (hun : ∀ k, t'.unrecorded k = false) : (s.goOn i (some t')).Bounded c := by
  have hlen : (put i (some t') s.attempts).length ≤ c := le_trans (length_put_le hi _) h.few
  refine ⟨hlen, ?_, ?_⟩
  · intro k
    show (s.entry k).total + (put i (some t') s.attempts).countP (Attempt.passed k) ≤ _
    by_cases hkk : k = k₀
    · -- the key just checked: under its threshold, with no more than `c` on their way
      subst hkk
      exact Nat.add_le_add hle (le_trans List.countP_le_length hlen)
    · have hput := countP_put (p := Attempt.passed k) hi (some t')
      have hold := h.within k
      have hnew : [t'].countP (Attempt.passed k) ≤ [t].countP (Attempt.passed k) := by
        by_cases hp : t'.passed k = true
        · have hmem := (Addr.mem_take_succ hk).mp (hpassed k hp)
          have ht : t.passed k = true := by
            simpa [Attempt.passed, hst] using hmem.resolve_right hkk
          simp [hp, ht]
        · simp [hp]
      simp only [Option.toList_some] at hput
      omega
  · intro k
    show failedSince k s.log ≤
      (s.entry k).total + (put i (some t') s.attempts).countP (Attempt.unrecorded k)
    have hput := countP_put (p := Attempt.unrecorded k) hi (some t')
    have hold := h.made k
    have ht : t.unrecorded k = false := by simp [Attempt.unrecorded, hst]
    simp only [Option.toList_some, List.countP_singleton, ht, hun k] at hput
    simp only [Bool.false_eq_true, if_false] at hput
    omega

/-- An attempt fails: its failure is still to be recorded. -/
theorem Bounded.wrong (h : s.Bounded c) {i : ℕ} {t : Attempt} {failure : Failure}
    (hi : s.attempts[i]? = some t) (hst : t.stage = .checked failure) :
    Bounded c { s.goOn i (some { t with stage := .failed s.current }) with
      log := .failed t.addr t.time s.clock s.current :: s.log } := by
  refine ⟨le_trans (length_put_le hi _) h.few, ?_, ?_⟩
  · intro k
    have hput := countP_put (p := Attempt.passed k)
      hi (some { t with stage := .failed s.current })
    have hold := h.within k
    simp only [Option.toList_some, List.countP_singleton, Attempt.passed, hst,
      decide_eq_true_eq] at hput
    show (s.entry k).total + (put i _ s.attempts).countP (Attempt.passed k) ≤ _
    omega
  · intro k
    have hput :=
      countP_put (p := Attempt.unrecorded k) hi (some { t with stage := .failed s.current })
    have hold := h.made k
    simp only [Option.toList_some, List.countP_singleton, Attempt.unrecorded, hst,
      decide_eq_true_eq, Bool.false_eq_true, if_false] at hput
    show failedSince k (_ :: s.log) ≤ (s.entry k).total + (put i _ s.attempts).countP _
    rw [failedSince_cons]
    simp only [Event.removes, Event.fails, decide_eq_true_eq, Bool.false_eq_true, if_false]
    omega

/-- A failure moves from the attempt to the total of each of its keys. -/
theorem Bounded.recorded (h : s.Bounded c) {i v : ℕ} {t : Attempt} {o : Option Attempt}
    (hi : s.attempts[i]? = some t) (hst : t.stage = .failed v)
    (hnone : ∀ k, o.toList.countP (Attempt.passed k) = 0) : ((s.record t).goOn i o).Bounded c := by
  have htotal : ∀ k, ((s.record t).entry k).total =
      (s.entry k).total + if k ∈ t.addr.keys then 1 else 0 := by
    intro k
    rw [entry_record]
    split_ifs
    · exact bumpFailureEntry_total _ _
    · rfl
  refine ⟨le_trans (length_put_le hi _) h.few, ?_, ?_⟩
  · intro k
    have hput := countP_put (p := Attempt.passed k) hi o
    have hold := h.within k
    simp only [List.countP_singleton, Attempt.passed, hst, decide_eq_true_eq] at hput
    show ((s.record t).entry k).total + (put i o s.attempts).countP (Attempt.passed k) ≤ _
    rw [htotal]
    have := hnone k
    omega
  · intro k
    have hput := countP_put (p := Attempt.unrecorded k) hi o
    have hold := h.made k
    simp only [List.countP_singleton, Attempt.unrecorded, hst, decide_eq_true_eq] at hput
    show failedSince k (_ :: s.log) ≤
      ((s.record t).entry k).total + (put i o s.attempts).countP (Attempt.unrecorded k)
    rw [htotal, failedSince_cons]
    simp only [Event.removes, Event.fails, Bool.false_eq_true, if_false]
    omega

/-- An accepted login takes the keys of its address away. -/
theorem Bounded.removed (h : s.Bounded c) {i : ℕ} {t : Attempt} {failure : Failure}
    (hi : s.attempts[i]? = some t) (hst : t.stage = .succeeded failure) :
    ((s.remove t failure).goOn i none).Bounded c := by
  have hgo : (s.goOn i none).Bounded c := by
    refine h.goOn hi (fun k => Nat.zero_le _) ?_
    intro k
    simp [Attempt.unrecorded, hst]
  rw [remove]
  split_ifs
  · refine ⟨hgo.few, ?_, ?_⟩
    · intro k
      have hold := hgo.within k
      show (Option.getD (if k ∈ t.addr.keys then none else s.entries k) .none).total +
        (put i none s.attempts).countP _ ≤ _
      split_ifs
      · exact le_trans (Nat.add_le_add_right (Nat.zero_le _) _) hold
      · exact hold
    · intro k
      have hold := hgo.made k
      show failedSince k (.removed t.addr :: s.log) ≤
        (Option.getD (if k ∈ t.addr.keys then none else s.entries k) .none).total +
          (put i none s.attempts).countP _
      rw [failedSince_cons]
      simp only [Event.removes, Event.fails, decide_eq_true_eq, Bool.false_eq_true, if_false]
      split_ifs
      · exact Nat.zero_le _
      · exact hold
  · exact hgo

/-- **A step keeps the bounds.** -/
theorem Bounded.step {b : Bucket} {s' : Throttle} {x : Act} (h : s.Bounded c)
    (hs : Stepped b c s x s') : s'.Bounded c := by
  cases hs with
  | ticked => exact ⟨h.few, h.within, h.made⟩
  | @started a hlt =>
    refine ⟨?_, ?_, ?_⟩
    · simp only [List.length_append, List.length_singleton]
      omega
    · intro k
      rw [List.countP_append]
      have hnew : [(⟨a, s.clock, .checking 0⟩ : Attempt)].countP (Attempt.passed k) = 0 := by
        simp [Attempt.passed]
      rw [hnew]
      exact h.within k
    · intro k
      rw [List.countP_append]
      exact le_trans (h.made k) (Nat.add_le_add_left (Nat.le_add_right _ _) _)
  | passed hi hst hk hle hip =>
    refine h.pass hi hst hk hle ?_ ?_
    · intro k hp
      simpa [Attempt.passed] using hp
    · intro k
      rfl
  | @letThrough i n t hi hst hk hle hmin =>
    refine h.pass hi hst hk hle ?_ ?_
    · intro k hp
      have hlen := (Addr.keys_ip hk).2
      rw [hlen, List.take_length]
      simpa [Attempt.passed] using hp
    · intro k
      rfl
  | @gaveUp _ i t hi hst =>
    refine h.goOn hi ?_ ?_
    · intro k
      exact Nat.zero_le _
    · intro k
      obtain ⟨n, hst⟩ | ⟨failure, hst⟩ := hst <;> simp [Attempt.unrecorded, hst]
  | @wrong i t failure hi hst => exact h.wrong hi hst
  | matched hi hst | accepted hi hst =>
    refine h.goOn hi ?_ ?_
    · intro k
      simp [Attempt.passed, hst]
    · intro k
      simp [Attempt.unrecorded, hst]
  | @recorded i v t o hi hst ho =>
    refine h.recorded hi hst ?_
    intro k
    cases b <;> simp [ho, Attempt.passed]
  | @removed i t failure hi hst => exact h.removed hi hst
  | counted hi hst =>
    have hgo := h.goOn (o := none) hi (fun k => Nat.zero_le _)
      (by intro k; simp [Attempt.unrecorded, hst])
    exact ⟨hgo.few, hgo.within, hgo.made⟩
  | @cleared i t failure hi hst =>
    have hgo := h.goOn (o := some { t with stage := .succeeded failure }) hi
      (by intro k; simp [Attempt.passed, hst]) (by intro k; simp [Attempt.unrecorded, hst])
    refine ⟨hgo.few, hgo.within, ?_⟩
    intro k
    show failedSince k (_ :: s.log) ≤ _
    rw [failedSince_cons]
    exact hgo.made k
  | rotated => exact ⟨h.few, h.within, h.made⟩

theorem init_bounded (c clock : ℕ) : (init clock).Bounded c :=
  ⟨Nat.zero_le _, fun _ => Nat.zero_le _, fun _ => le_rfl⟩

/-- The bound on a key's failed validations. -/
theorem Bounded.failedSince_le (h : s.Bounded c) (k : FailureKey) :
    failedSince k s.log ≤ k.thresh + c := by
  have hmono : s.attempts.countP (Attempt.unrecorded k) ≤ s.attempts.countP (Attempt.passed k) :=
    List.countP_mono_left fun t _ ht => Attempt.passed_of_unrecorded ht
  have h₁ := h.within k
  have h₂ := h.made k
  omega

/-! ## Wrong passwords against one temporary password -/

end Throttle

/-- The attempt was found wrong against temporary password `v`, and its counter is still to
be told. -/
def Attempt.untold (v : ℕ) (t : Attempt) : Bool :=
  match t.stage with
  | .failed against | .recorded against => against = v
  | _ => false

namespace Throttle

/-- Failures the counter has for the current temporary password. -/
def counted (s : Throttle) : ℕ :=
  if s.counter.password = some s.current then s.counter.failures else 0

/-- What bounds the wrong passwords tried against each temporary password. -/
structure Guarded (c : ℕ) (s : Throttle) : Prop where
  low : s.counter.failures ≤ 9
  known : ∀ v, s.counter.password = some v → v ≤ s.current
  /-- a wrong password is counted, or its attempt is still under way -/
  now : triedSince s.current s.log ≤ s.counted + s.attempts.countP (Attempt.untold s.current)
  fresh : ∀ v, s.current < v → triedSince v s.log = 0
  past : ∀ v, v < s.current → triedSince v s.log ≤ 9 + c

theorem triedSince_cons (v : ℕ) (e : Event) (log : List Event) : triedSince v (e :: log) =
      if e = .cleared v then 0 else triedSince v log + if e.tries v then 1 else 0 := by
  rw [triedSince, sinceCleared_cons]
  split_ifs with h₁ h₂
  · rfl
  · rw [List.countP_cons, if_pos h₂, triedSince]
  · rw [List.countP_cons, if_neg h₂, triedSince]

variable {c : ℕ} {s : Throttle}

theorem counted_le (h : s.Guarded c) : s.counted ≤ 9 := by
  rw [counted]
  split_ifs
  · exact h.low
  · exact Nat.zero_le _

/-- A wrong password is added to the count, or makes it ten and rotates the password. -/
theorem counted_check (s : Throttle) :
    (s.counted + 1 < 10 ∧ checkUpdateTemporaryPassword false s.current s.counter =
      (s.current, ⟨some s.current, s.counted + 1⟩)) ∨
    checkUpdateTemporaryPassword false s.current s.counter =
      (s.current + 1, ⟨some (s.current + 1), 0⟩) := by
  rw [checkUpdateTemporaryPassword]
  simp only [Bool.false_eq_true, if_false]
  by_cases hlow : s.counted + 1 < 10
  · exact .inl ⟨hlow, if_pos hlow⟩
  · exact .inr (if_neg hlow)

/-- The bound holds for every temporary password there has been. -/
theorem Guarded.triedSince_le (h : s.Guarded c) (hfew : s.attempts.length ≤ c) (v : ℕ) :
    triedSince v s.log ≤ 9 + c := by
  rcases Nat.lt_trichotomy v s.current with hlt | rfl | hgt
  · exact h.past v hlt
  · have hcount : s.attempts.countP (Attempt.untold s.current) ≤ s.attempts.length :=
      List.countP_le_length
    have h₁ := h.now
    have h₂ := counted_le h
    omega
  · rw [h.fresh v hgt]
    exact Nat.zero_le _

/-- An attempt goes on, with nothing untold lost. -/
theorem Guarded.goOn (h : s.Guarded c) {i : ℕ} {t : Attempt} {o : Option Attempt}
    (hi : s.attempts[i]? = some t)
    (huntold : [t].countP (Attempt.untold s.current) ≤ o.toList.countP (Attempt.untold s.current)) :
    (s.goOn i o).Guarded c := by
  refine ⟨h.low, h.known, ?_, h.fresh, h.past⟩
  have hput := countP_put (p := Attempt.untold s.current) hi o
  have hnow := h.now
  show triedSince s.current s.log ≤
    s.counted + (put i o s.attempts).countP (Attempt.untold s.current)
  omega

/-- An event that is neither a wrong password nor a match changes nothing here. -/
theorem Guarded.note (h : s.Guarded c) {e : Event} {entries : FailureKey → Option Failure}
    (he : ∀ v, triedSince v (e :: s.log) = triedSince v s.log) :
    ({ s with entries := entries, log := e :: s.log } : Throttle).Guarded c := by
  refine ⟨h.low, h.known, le_of_eq_of_le (he _) h.now, ?_, ?_⟩
  · intro v hv
    exact (he v).trans (h.fresh v hv)
  · intro v hv
    exact le_of_eq_of_le (he v) (h.past v hv)

/-- The temporary password is replaced. -/
theorem Guarded.rotate (h : s.Guarded c) (hfew : s.attempts.length ≤ c) {attempts : List Attempt}
    {counter : TempFailures}
    (hcounter : counter = s.counter ∨ counter = ⟨some (s.current + 1), 0⟩) :
    ({ s with attempts := attempts, current := s.current + 1, counter := counter } :
      Throttle).Guarded c := by
  refine ⟨?_, ?_, ?_, ?_, ?_⟩
  · obtain rfl | rfl := hcounter
    · exact h.low
    · exact Nat.zero_le _
  · intro v hv
    obtain rfl | rfl := hcounter
    · exact le_trans (h.known v hv) (Nat.le_succ _)
    · exact le_of_eq (Option.some.inj hv).symm
  · show triedSince (s.current + 1) s.log ≤ _
    rw [h.fresh _ (Nat.lt_succ_self _)]
    exact Nat.zero_le _
  · intro v hv
    exact h.fresh v (lt_trans (Nat.lt_succ_self _) hv)
  · intro v hv
    exact h.triedSince_le hfew v

/-- **A step keeps the count honest.** -/
theorem Guarded.step {s' : Throttle} {x : Act} (h : s.Guarded c) (hfew : s.attempts.length ≤ c)
    (hs : Stepped .password c s x s') : s'.Guarded c := by
  cases hs with
  | ticked => exact ⟨h.low, h.known, h.now, h.fresh, h.past⟩
  | started hlt =>
    refine ⟨h.low, h.known, ?_, h.fresh, h.past⟩
    rw [List.countP_append]
    exact le_trans h.now (Nat.add_le_add_left (Nat.le_add_right _ _) _)
  | passed hi hst => exact h.goOn hi (by simp [Attempt.untold, hst])
  | letThrough hi hst => exact h.goOn hi (by simp [Attempt.untold, hst])
  | gaveUp hi hst =>
    refine h.goOn hi ?_
    obtain ⟨n, hst⟩ | ⟨failure, hst⟩ := hst <;> simp [Attempt.untold, hst]
  | @wrong i t failure hi hst =>
    refine ⟨h.low, h.known, ?_, ?_, ?_⟩
    · have hput :=
        countP_put (p := Attempt.untold s.current) hi (some { t with stage := .failed s.current })
      have hnow := h.now
      simp only [Option.toList_some, List.countP_singleton, Attempt.untold, hst, decide_true,
        Bool.false_eq_true, if_false, if_true] at hput
      show triedSince s.current (_ :: s.log) ≤
        s.counted + (put i _ s.attempts).countP (Attempt.untold s.current)
      rw [triedSince_cons]
      simp only [Event.tries, decide_true, reduceCtorEq, if_false, if_true]
      omega
    · intro v hv
      show triedSince v (_ :: s.log) = 0
      rw [triedSince_cons]
      have hne : s.current ≠ v := Nat.ne_of_lt hv
      simp only [Event.tries, hne, decide_false, Bool.false_eq_true, reduceCtorEq, if_false]
      exact h.fresh v hv
    · intro v hv
      show triedSince v (_ :: s.log) ≤ _
      rw [triedSince_cons]
      have hne : s.current ≠ v := Nat.ne_of_gt hv
      simp only [Event.tries, hne, decide_false, Bool.false_eq_true, reduceCtorEq, if_false]
      exact h.past v hv
  | matched hi hst => exact h.goOn hi (by simp [Attempt.untold, hst])
  | accepted hi hst => exact h.goOn hi (by simp [Attempt.untold, hst])
  | @recorded i v t o hi hst ho =>
    have hgo := h.goOn (o := o) hi (by simp [ho, Attempt.untold, hst])
    exact hgo.note fun v => triedSince_cons v _ _
  | @removed i t failure hi hst =>
    have hgo := h.goOn (o := none) hi (by simp [Attempt.untold, hst])
    rw [remove]
    split_ifs
    · exact hgo.note fun v => triedSince_cons v _ _
    · exact hgo
  | @counted i v t hi hst =>
    have hput := countP_put (p := Attempt.untold s.current) hi none
    have hnow := h.now
    have hone : [t].countP (Attempt.untold s.current) ≤ 1 := List.countP_le_length
    have hcounted := counted_le h
    obtain ⟨hlow, hcheck⟩ | hcheck := s.counted_check
    · rw [hcheck]
      refine ⟨?_, ?_, ?_, h.fresh, h.past⟩
      · show s.counted + 1 ≤ 9
        omega
      · intro v hv
        exact le_of_eq (Option.some.inj hv).symm
      · have hnew : counted { s.goOn i none with counter := ⟨some s.current, s.counted + 1⟩ } =
            s.counted + 1 := if_pos rfl
        show triedSince s.current s.log ≤
          counted { s.goOn i none with counter := ⟨some s.current, s.counted + 1⟩ } +
            (put i none s.attempts).countP (Attempt.untold s.current)
        rw [hnew]
        simp only [Option.toList_none, List.countP_nil] at hput
        omega
    · rw [hcheck]
      exact h.rotate hfew (.inr rfl)
  | @cleared i t failure hi hst =>
    have hle : ∀ v, triedSince v (.cleared s.current :: s.log) ≤ triedSince v s.log := by
      intro v
      rw [triedSince_cons]
      simp only [Event.tries, Bool.false_eq_true, if_false]
      split_ifs
      · exact Nat.zero_le _
      · exact le_rfl
    refine ⟨Nat.zero_le _, ?_, ?_, ?_, ?_⟩
    · intro v hv
      exact le_of_eq (Option.some.inj hv).symm
    · show triedSince s.current (_ :: s.log) ≤ _
      rw [triedSince_cons, if_pos rfl]
      exact Nat.zero_le _
    · intro v hv
      exact Nat.le_zero.mp (le_trans (hle v) (le_of_eq (h.fresh v hv)))
    · intro v hv
      exact le_trans (hle v) (h.past v hv)
  | rotated => exact h.rotate hfew (.inl rfl)

/-! ## Failed validations of an address in one minute -/

end Throttle

namespace Event

/-- Whether the event is about address `a`. -/
def about (a : Addr) : Event → Bool
  | .failed b _ _ _ | .recorded b _ | .removed b => b = a
  | .cleared _ => false

/-- Whether the event records a failure of `a` that was checked in minute `m`. -/
def recordsAt (a : Addr) (m : ℕ) : Event → Bool
  | .recorded b time => b = a ∧ time = m
  | _ => false

/-- Whether the event is a failed validation of `a` made in minute `m` on an earlier check. -/
def late (a : Addr) (m : ℕ) : Event → Bool
  | .failed b checked made _ => b = a ∧ made = m ∧ checked < m
  | _ => false

end Event

namespace Attempt

/-- The attempt has failed on a check of minute `m` and is not recorded. -/
def failedAt (m : ℕ) (t : Attempt) : Bool :=
  match t.stage with
  | .failed _ => t.time = m
  | _ => false

/-- The attempt has been let through and is not recorded. -/
def through (t : Attempt) : Bool :=
  match t.stage with
  | .checking _ | .recorded _ => false
  | _ => true

/-- The attempt has not been validated. -/
def unvalidated (t : Attempt) : Bool :=
  match t.stage with
  | .checking _ | .checked _ => true
  | _ => false

end Attempt

namespace Throttle

/-- The events about `a` since its key was last removed. -/
def view (a : Addr) (log : List Event) : List Event := (since (.ip a) log).filter (Event.about a)

/-- Attempts of address `a` that do not overlap: a new one starts when none is under way. -/
def Apart (a : Addr) (s : Throttle) : Act → Prop
  | .start b => b = a → ∀ t ∈ s.attempts, t.addr ≠ a
  | _ => True

instance (a : Addr) (s : Throttle) : ∀ x, Decidable (s.Apart a x)
  | .start b => inferInstanceAs (Decidable (b = a → ∀ t ∈ s.attempts, t.addr ≠ a))
  | .tick | .check _ | .abandon _ | .validate _ _ | .update _ | .settle _ | .rotate =>
    isTrue trivial

/-- What paces one address: `e` is what is stored under it, `V` the events about it and `M`
its attempts under way. -/
structure Paced (a : Addr) (clock : ℕ) (e : Failure) (V : List Event) (M : List Attempt) :
  Prop where
  alone : M.length ≤ 1
  /-- a failed validation is recorded under the minute of its check, or its attempt is still
  under way -/
  seen : ∀ m, V.countP (Event.failsChecked a m) ≤
    V.countP (Event.recordsAt a m) + M.countP (Attempt.failedAt m)
  per : ∀ m, V.countP (Event.recordsAt a m) ≤ 7
  last : V.countP (Event.recordsAt a e.minute) ≤ e.perMinute
  later : ∀ m, e.minute < m → V.countP (Event.recordsAt a m) = 0
  past : e.minute ≤ clock
  mine : ∀ t ∈ M, t.time ≤ clock ∧ e.minute ≤ t.time ∧
    (t.through = true → V.countP (Event.recordsAt a t.time) ≤ 6)
  made : ∀ c m v, Event.failed a c m v ∈ V → c ≤ m ∧ m ≤ clock ∧
    ∀ t ∈ M, t.unvalidated = true → m ≤ t.time
  late : ∀ m, V.countP (Event.late a m) ≤ 1

variable {a : Addr} {s : Throttle} {t : Attempt}

theorem view_other {e : Event} (he : e.about a = false) (log : List Event) :
    view a (e :: log) = view a log := by
  have hr : e.removes (.ip a) = false := by
    cases e with
    | removed b =>
      simp only [Event.about, decide_eq_false_iff_not] at he
      simp only [Event.removes, decide_eq_false_iff_not, Addr.ip_mem_keys]
      exact he
    | failed | recorded | cleared => rfl
  rw [view, since_cons, hr, view]
  simp [he]

theorem view_failed (a : Addr) (c m v : ℕ) (log : List Event) :
    view a (.failed a c m v :: log) = .failed a c m v :: view a log := by
  simp [view, since_cons, Event.removes, Event.about]

theorem view_recorded (a : Addr) (m : ℕ) (log : List Event) :
    view a (.recorded a m :: log) = .recorded a m :: view a log := by
  simp [view, since_cons, Event.removes, Event.about]

theorem view_removed (a : Addr) (log : List Event) : view a (.removed a :: log) = [] := by
  have : FailureKey.ip a ∈ a.keys := Addr.ip_mem_keys.mpr rfl
  simp [view, since_cons, Event.removes, this]

/-- Counting events about `a` in its view is counting them since the removal. -/
theorem countP_view {p : Event → Bool} (hp : ∀ e, p e = true → e.about a = true)
    (log : List Event) : (view a log).countP p = (since (.ip a) log).countP p := by
  rw [view, List.countP_filter]
  congr 1
  funext e
  cases h : p e with
  | true => simp [hp e h]
  | false => rfl

theorem checkedIn_eq (a : Addr) (m : ℕ) (log : List Event) :
    checkedIn a m log = (view a log).countP (Event.failsChecked a m) := by
  rw [checkedIn, countP_view]
  intro e he
  cases e <;> simp_all [Event.failsChecked, Event.about]

theorem madeIn_eq (a : Addr) (m : ℕ) (log : List Event) :
    madeIn a m log = (view a log).countP (Event.failsMade a m) := by
  rw [madeIn, countP_view]
  intro e he
  cases e <;> simp_all [Event.failsMade, Event.about]

/-- At most seven failed validations checked in one minute. -/
theorem Paced.checked_le {clock : ℕ} {e : Failure} {V : List Event} {M : List Attempt}
    (h : Paced a clock e V M) (m : ℕ) : V.countP (Event.failsChecked a m) ≤ 7 := by
  have hseen := h.seen m
  have hper := h.per m
  by_cases hzero : M.countP (Attempt.failedAt m) = 0
  · omega
  · obtain ⟨t, ht, hf⟩ := List.countP_pos_iff.mp (Nat.pos_of_ne_zero hzero)
    have hone : M.countP (Attempt.failedAt m) ≤ 1 := le_trans List.countP_le_length h.alone
    -- the one still to be recorded was let through on at most six
    have hsix : V.countP (Event.recordsAt a m) ≤ 6 := by
      unfold Attempt.failedAt at hf
      split at hf
      · rename_i v hst
        obtain rfl : t.time = m := by simpa using hf
        exact (h.mine t ht).2.2 (by simp [Attempt.through, hst])
      · cases hf
    omega

/-- At most eight made in one minute: one of them may have been checked before it. -/
theorem Paced.made_le {clock : ℕ} {e : Failure} {V : List Event} {M : List Attempt}
    (h : Paced a clock e V M) (m : ℕ) : V.countP (Event.failsMade a m) ≤ 8 := by
  have hsplit : ∀ l : List Event, (∀ c n v, Event.failed a c n v ∈ l → c ≤ n) →
      l.countP (Event.failsMade a m) ≤
        l.countP (Event.failsChecked a m) + l.countP (Event.late a m) := by
    intro l
    induction l with
    | nil => exact fun _ => le_rfl
    | cons x l ih =>
      intro hl
      have hrest := ih fun c n v hm => hl c n v (List.mem_cons_of_mem _ hm)
      simp only [List.countP_cons]
      have hx : x.failsMade a m = true → x.failsChecked a m = true ∨ x.late a m = true := by
        cases x with
        | failed b c n v =>
          intro hm
          obtain ⟨rfl, rfl⟩ : b = a ∧ n = m := by simpa [Event.failsMade] using hm
          rcases Nat.lt_or_ge c n with hlt | hge
          · exact .inr (by simp [Event.late, hlt])
          · have hle := hl c n v (List.mem_cons_self ..)
            exact .inl (by simp [Event.failsChecked, Nat.le_antisymm hle hge])
        | recorded | removed | cleared => nofun
      split_ifs with h₁ h₂ h₃ <;>
        first | omega | (exfalso; rcases hx h₁ with h | h <;> contradiction)
  have h₁ := hsplit V fun c n v hm => (h.made c n v hm).1
  have h₂ := h.checked_le m
  have h₃ := h.late m
  omega

section Pace

variable {a : Addr} {clock : ℕ} {e : Failure} {V : List Event} {t : Attempt}

theorem Paced.tick {M : List Attempt} (h : Paced a clock e V M) : Paced a (clock + 1) e V M := by
  refine ⟨h.alone, h.seen, h.per, h.last, h.later, Nat.le_succ_of_le h.past, ?_, ?_, h.late⟩
  · intro t ht
    obtain ⟨h₁, h₂⟩ := h.mine t ht
    exact ⟨Nat.le_succ_of_le h₁, h₂⟩
  · intro c m v hm
    obtain ⟨h₁, h₂, h₃⟩ := h.made c m v hm
    exact ⟨h₁, Nat.le_succ_of_le h₂, h₃⟩

theorem Paced.start (h : Paced a clock e V []) : Paced a clock e V [⟨a, clock, .checking 0⟩] := by
  refine ⟨le_rfl, ?_, h.per, h.last, h.later, h.past, ?_, ?_, h.late⟩
  · intro m
    exact le_trans (h.seen m) (Nat.add_le_add_left (Nat.zero_le _) _)
  · intro t ht
    obtain rfl := List.mem_singleton.mp ht
    exact ⟨le_rfl, h.past, nofun⟩
  · intro c m v hm
    obtain ⟨h₁, h₂, -⟩ := h.made c m v hm
    refine ⟨h₁, h₂, ?_⟩
    intro t ht _
    obtain rfl := List.mem_singleton.mp ht
    exact h₂

/-- The attempt under way goes on within its check, or ends. -/
theorem Paced.goOn {o : Option Attempt} (h : Paced a clock e V [t])
    (hfail : ∀ m, t.failedAt m = false)
    (ho : ∀ t', o = some t' → t'.time = t.time ∧ (t'.unvalidated = true → t.unvalidated = true) ∧
      (t'.through = true → V.countP (Event.recordsAt a t.time) ≤ 6)) :
    Paced a clock e V o.toList := by
  refine ⟨by cases o <;> simp, ?_, h.per, h.last, h.later, h.past, ?_, ?_, h.late⟩
  · intro m
    have hseen := h.seen m
    simp only [List.countP_singleton, hfail m, Bool.false_eq_true, if_false] at hseen
    omega
  · intro t' ht'
    obtain ⟨htime, -, hthrough⟩ := ho t' (by simpa using ht')
    obtain ⟨h₁, h₂, -⟩ := h.mine t (List.mem_singleton.mpr rfl)
    rw [htime]
    exact ⟨h₁, h₂, hthrough⟩
  · intro c m v hm
    obtain ⟨h₁, h₂, h₃⟩ := h.made c m v hm
    refine ⟨h₁, h₂, ?_⟩
    intro t' ht' hun
    obtain ⟨htime, hun', -⟩ := ho t' (by simpa using ht')
    rw [htime]
    exact h₃ t (List.mem_singleton.mpr rfl) (hun' hun)

/-- The validation fails. -/
theorem Paced.wrong {failure : Failure} (v : ℕ) (h : Paced a clock e V [t])
    (hst : t.stage = .checked failure) :
    Paced a clock e (.failed a t.time clock v :: V) [{ t with stage := .failed v }] := by
  obtain ⟨htime, hmin, hsix⟩ := h.mine t (List.mem_singleton.mpr rfl)
  have hbefore : ∀ c m v, Event.failed a c m v ∈ V → m ≤ t.time := by
    intro c m v hm
    exact (h.made c m v hm).2.2 t (List.mem_singleton.mpr rfl) (by simp [Attempt.unvalidated, hst])
  refine ⟨le_rfl, ?_, h.per, h.last, h.later, h.past, ?_, ?_, ?_⟩
  · intro m
    have hseen := h.seen m
    simp only [List.countP_singleton, Attempt.failedAt, hst, Bool.false_eq_true, if_false] at hseen
    simp only [List.countP_cons, List.countP_nil, Event.failsChecked, Event.recordsAt,
      Attempt.failedAt, true_and, decide_eq_true_eq, Bool.false_eq_true, if_false]
    omega
  · intro t' ht'
    obtain rfl := List.mem_singleton.mp ht'
    refine ⟨htime, hmin, ?_⟩
    intro _
    exact hsix (by simp [Attempt.through, hst])
  · intro c m v' hm
    rcases List.mem_cons.mp hm with hm | hm
    · cases hm
      refine ⟨htime, le_rfl, ?_⟩
      intro t' ht' hun
      obtain rfl := List.mem_singleton.mp ht'
      cases hun
    · obtain ⟨h₁, h₂, -⟩ := h.made c m v' hm
      refine ⟨h₁, h₂, ?_⟩
      intro t' ht' hun
      obtain rfl := List.mem_singleton.mp ht'
      cases hun
  · intro m
    have hlate := h.late m
    rw [List.countP_cons]
    split_ifs with hnew
    · -- all earlier ones were made before this check, so none in the same minute
      obtain ⟨rfl, hlt⟩ : clock = m ∧ t.time < m := by simpa [Event.late] using hnew
      have hzero : V.countP (Event.late a clock) = 0 := by
        apply List.countP_eq_zero.mpr
        intro x hx hl
        cases x with
        | failed b c n v' =>
          obtain ⟨rfl, rfl, -⟩ : b = a ∧ n = clock ∧ c < clock := by simpa [Event.late] using hl
          have := hbefore c n v' hx
          omega
        | recorded | removed | cleared => cases hl
      omega
    · exact hlate

/-- The failure is recorded. -/
theorem Paced.record {v : ℕ} {o : Option Attempt} (h : Paced a clock e V [t])
    (hst : t.stage = .failed v)
    (ho : ∀ t', o = some t' → t'.time = t.time ∧ t'.unvalidated = false ∧ t'.through = false) :
    Paced a clock (bumpFailureEntry e t.time) (.recorded a t.time :: V) o.toList := by
  obtain ⟨htime, hmin, hsix⟩ := h.mine t (List.mem_singleton.mpr rfl)
  have hsix := hsix (by simp [Attempt.through, hst])
  have hcount : ∀ m, (Event.recorded a t.time :: V).countP (Event.recordsAt a m) =
      V.countP (Event.recordsAt a m) + if t.time = m then 1 else 0 := by
    intro m
    simp [List.countP_cons, Event.recordsAt]
  refine ⟨by cases o <;> simp, ?_, ?_, ?_, ?_, ?_, ?_, ?_, ?_⟩
  · intro m
    have hseen := h.seen m
    rw [hcount]
    simp only [List.countP_singleton, Attempt.failedAt, hst, decide_eq_true_eq] at hseen
    simp only [List.countP_cons, Event.failsChecked, Bool.false_eq_true, if_false]
    omega
  · intro m
    have hper := h.per m
    rw [hcount]
    split_ifs with hm
    · subst hm
      omega
    · omega
  · rw [bumpFailureEntry_minute, hcount, if_pos rfl, bumpFailureEntry]
    have hlast := h.last
    split_ifs with heq
    · rw [heq] at hlast
      dsimp only
      omega
    · have hlater := h.later t.time (by omega)
      dsimp only
      omega
  · intro m hm
    rw [bumpFailureEntry_minute] at hm
    rw [hcount, if_neg (by omega), h.later m (by omega)]
  · rw [bumpFailureEntry_minute]
    exact htime
  · intro t' ht'
    obtain ⟨ht, -, hthrough⟩ := ho t' (by simpa using ht')
    rw [bumpFailureEntry_minute, ht]
    refine ⟨htime, le_rfl, ?_⟩
    intro h'
    rw [hthrough] at h'
    cases h'
  · intro c m v' hm
    rcases List.mem_cons.mp hm with hm | hm
    · cases hm
    · obtain ⟨h₁, h₂, -⟩ := h.made c m v' hm
      refine ⟨h₁, h₂, ?_⟩
      intro t' ht' hun
      obtain ⟨-, hun', -⟩ := ho t' (by simpa using ht')
      rw [hun'] at hun
      cases hun
  · intro m
    simpa [List.countP_cons, Event.late] using h.late m

/-- The key is removed. -/
theorem paced_removed (a : Addr) (clock : ℕ) : Paced a clock .none [] [] := by
  refine ⟨Nat.zero_le _, fun _ => le_rfl, fun _ => Nat.zero_le _, Nat.zero_le _, fun _ _ => rfl,
    Nat.zero_le _, ?_, ?_, fun _ => Nat.zero_le _⟩
  · intro t ht
    cases ht
  · intro c m v hm
    cases hm

end Pace

/-- What paces address `a`, in a state of the bucket. -/
def PacedAt (a : Addr) (s : Throttle) : Prop :=
  Paced a s.clock (s.entry (.ip a)) (view a s.log) (s.attempts.filter fun t => t.addr = a)

/-- An attempt of another address goes on. -/
theorem filter_other {i : ℕ} {o : Option Attempt} (hi : s.attempts[i]? = some t) (ha : t.addr ≠ a)
    (ho : ∀ t', o = some t' → t'.addr = t.addr) :
    (put i o s.attempts).filter (fun t => t.addr = a) =
      s.attempts.filter fun t => t.addr = a := by
  refine filter_put_other hi (by simpa using ha) ?_
  intro t' ht'
  rw [ho t' ht']
  simpa using ha

/-- The attempt of `a` goes on: it is the only one. -/
theorem filter_own (h : s.PacedAt a) {i : ℕ} (o : Option Attempt) (hi : s.attempts[i]? = some t)
    (ha : t.addr = a) (ho : ∀ t', o = some t' → t'.addr = t.addr) :
    (s.attempts.filter fun t => t.addr = a) = [t] ∧
      (put i o s.attempts).filter (fun t => t.addr = a) = o.toList := by
  obtain ⟨h₁, h₂⟩ := filter_put_only o hi (by simpa using ha) h.alone
  refine ⟨h₁, ?_⟩
  rw [h₂]
  apply List.filter_eq_self.mpr
  intro t' ht'
  simpa [ho t' (by simpa using ht')] using ha

/-- A step that leaves log and entries alone. -/
theorem PacedAt.goOn (h : s.PacedAt a) {i : ℕ}
    {o : Option Attempt} (hi : s.attempts[i]? = some t) (hfail : ∀ m, t.failedAt m = false)
    (hsame : ∀ t', o = some t' → t'.addr = t.addr ∧ t'.time = t.time)
    (hun : ∀ t', o = some t' → t'.unvalidated = true → t.unvalidated = true)
    (hthrough : ∀ t', o = some t' → t'.through = true → t.through = true ∨
      (t.time = (s.entry (.ip t.addr)).minute → (s.entry (.ip t.addr)).perMinute ≤ 6)) :
    (s.goOn i o).PacedAt a := by
  show Paced a s.clock (s.entry (.ip a)) (view a s.log) ((put i o s.attempts).filter _)
  by_cases ha : t.addr = a
  · obtain ⟨h₁, h₂⟩ := filter_own h o hi ha fun t' ht' => (hsame t' ht').1
    rw [PacedAt, h₁] at h
    rw [h₂]
    refine h.goOn hfail fun t' ht' => ⟨(hsame t' ht').2, hun t' ht', fun hth => ?_⟩
    obtain ⟨-, hmin, hsix⟩ := h.mine t (List.mem_singleton.mpr rfl)
    rcases hthrough t' ht' hth with hold | hnew
    · exact hsix hold
    · -- let through just now: the entry is of an earlier minute, or has at most six in it
      rw [ha] at hnew
      rcases Nat.lt_or_ge (s.entry (.ip a)).minute t.time with hlt | hge
      · rw [h.later t.time hlt]
        exact Nat.zero_le _
      · have heq : t.time = (s.entry (.ip a)).minute := by omega
        rw [heq]
        exact le_trans h.last (hnew heq)
  · rw [filter_other hi ha fun t' ht' => (hsame t' ht').1]
    exact h

/-- An attempt starts. One of `a` starts alone. -/
theorem PacedAt.started (h : s.PacedAt a) {a' : Addr} (hapart : s.Apart a (.start a')) :
    PacedAt a { s with attempts := s.attempts ++ [⟨a', s.clock, .checking 0⟩] } := by
  show Paced a s.clock (s.entry (.ip a)) (view a s.log)
    ((s.attempts ++ [(⟨a', s.clock, .checking 0⟩ : Attempt)]).filter fun t => t.addr = a)
  rw [List.filter_append]
  by_cases ha : a' = a
  · subst ha
    have hnone : s.attempts.filter (fun t => t.addr = a') = [] := by
      apply List.filter_eq_nil_iff.mpr
      intro t ht
      simpa using hapart rfl t ht
    rw [PacedAt, hnone] at h
    rw [hnone]
    simpa using h.start
  · rw [PacedAt] at h
    simpa [ha] using h

/-- A validation fails. -/
theorem PacedAt.wrong (h : s.PacedAt a) {i : ℕ} {failure : Failure}
    (hi : s.attempts[i]? = some t) (hst : t.stage = .checked failure) :
    PacedAt a { s.goOn i (some { t with stage := .failed s.current }) with
      log := .failed t.addr t.time s.clock s.current :: s.log } := by
  show Paced a s.clock (s.entry (.ip a)) (view a (_ :: s.log)) ((put i _ s.attempts).filter _)
  by_cases ha : t.addr = a
  · subst ha
    obtain ⟨h₁, h₂⟩ := filter_own h (some { t with stage := .failed s.current }) hi rfl
      (by rintro t' ⟨⟩; rfl)
    rw [PacedAt, h₁] at h
    rw [h₂, view_failed]
    exact h.wrong s.current hst
  · rw [filter_other hi ha (by rintro t' ⟨⟩; rfl), view_other (by simpa [Event.about] using ha)]
    exact h

/-- A failure is recorded, and its attempt has nothing left to validate. -/
theorem PacedAt.recorded (h : s.PacedAt a) {i v : ℕ} {o : Option Attempt}
    (hi : s.attempts[i]? = some t) (hst : t.stage = .failed v)
    (hsame : ∀ t', o = some t' →
      t'.addr = t.addr ∧ t'.time = t.time ∧ t'.unvalidated = false ∧ t'.through = false) :
    ((s.record t).goOn i o).PacedAt a := by
  show Paced a s.clock ((s.record t).entry (.ip a)) (view a (.recorded t.addr t.time :: s.log))
    ((put i o s.attempts).filter _)
  rw [entry_record]
  by_cases ha : t.addr = a
  · subst ha
    obtain ⟨h₁, h₂⟩ := filter_own h o hi rfl fun t' ht' => (hsame t' ht').1
    rw [PacedAt, h₁] at h
    rw [if_pos (Addr.ip_mem_keys.mpr rfl), h₂, view_recorded]
    exact h.record hst fun t' ht' => (hsame t' ht').2
  · rw [if_neg fun hmem => ha (Addr.ip_mem_keys.mp hmem),
      filter_other hi ha fun t' ht' => (hsame t' ht').1,
      view_other (by simpa [Event.about] using ha)]
    exact h

/-- An accepted login takes the keys of its address away. -/
theorem PacedAt.removed (h : s.PacedAt a) {i : ℕ} {failure : Failure}
    (hi : s.attempts[i]? = some t) (hst : t.stage = .succeeded failure) :
    ((s.remove t failure).goOn i none).PacedAt a := by
  have hgo : (s.goOn i none).PacedAt a :=
    h.goOn hi (by simp [Attempt.failedAt, hst]) nofun nofun nofun
  rw [remove]
  split_ifs
  · show Paced a s.clock
      (Option.getD (if .ip a ∈ t.addr.keys then none else s.entries (.ip a)) .none)
      (view a (.removed t.addr :: s.log)) ((put i none s.attempts).filter _)
    by_cases ha : t.addr = a
    · subst ha
      obtain ⟨-, h₂⟩ := filter_own h none hi rfl nofun
      rw [if_pos (Addr.ip_mem_keys.mpr rfl), h₂, view_removed]
      exact paced_removed t.addr s.clock
    · rw [if_neg fun hmem => ha (Addr.ip_mem_keys.mp hmem),
        view_other (by simpa [Event.about] using ha)]
      exact hgo
  · exact hgo

/-- **A step of the bucket keeps the pace of an address whose attempts do not overlap.** -/
theorem PacedAt.step {b : Bucket} {c : ℕ} {s' : Throttle} {x : Act} (h : s.PacedAt a)
    (hapart : s.Apart a x) (hs : Stepped b c s x s') : s'.PacedAt a := by
  cases hs with
  | ticked => exact h.tick
  | @started a' hlt => exact h.started hapart
  | passed hi hst hk hle hip =>
    refine h.goOn hi (by simp [Attempt.failedAt, hst]) ?_ ?_ ?_
    · rintro t' ⟨⟩
      exact ⟨rfl, rfl⟩
    · rintro t' ⟨⟩ _
      simp [Attempt.unvalidated, hst]
    · rintro t' ⟨⟩ hth
      cases hth
  | letThrough hi hst hk hle hmin =>
    refine h.goOn hi (by simp [Attempt.failedAt, hst]) ?_ ?_ ?_
    · rintro t' ⟨⟩
      exact ⟨rfl, rfl⟩
    · rintro t' ⟨⟩ _
      simp [Attempt.unvalidated, hst]
    · rintro t' ⟨⟩ _
      exact .inr hmin
  | gaveUp hi hst =>
    refine h.goOn hi ?_ nofun nofun nofun
    intro m
    obtain ⟨n, hst⟩ | ⟨failure, hst⟩ := hst <;> simp [Attempt.failedAt, hst]
  | @wrong i t failure hi hst => exact h.wrong hi hst
  | matched hi hst | accepted hi hst =>
    refine h.goOn hi (by simp [Attempt.failedAt, hst]) ?_ ?_ ?_
    · rintro t' ⟨⟩
      exact ⟨rfl, rfl⟩
    · rintro t' ⟨⟩ hun
      cases hun
    · rintro t' ⟨⟩ _
      exact .inl (by simp [Attempt.through, hst])
  | @recorded i v t o hi hst ho =>
    refine h.recorded hi hst ?_
    subst ho
    cases b with
    | password =>
      rintro t' ⟨⟩
      exact ⟨rfl, rfl, rfl, rfl⟩
    | twoFactor => nofun
  | @removed i t failure hi hst => exact h.removed hi hst
  | counted hi hst =>
    exact h.goOn (o := none) hi (by simp [Attempt.failedAt, hst]) nofun nofun nofun
  | @cleared i t failure hi hst =>
    have hgo : (s.goOn i (some { t with stage := .succeeded failure })).PacedAt a := by
      refine h.goOn hi (by simp [Attempt.failedAt, hst]) ?_ ?_ ?_
      · rintro t' ⟨⟩
        exact ⟨rfl, rfl⟩
      · rintro t' ⟨⟩ hun
        cases hun
      · rintro t' ⟨⟩ _
        exact .inl (by simp [Attempt.through, hst])
    show Paced a s.clock _ (view a (.cleared s.current :: s.log)) _
    rw [view_other rfl]
    exact hgo
  | rotated => exact h

/-! ## The throttle -/

/-- **Brute-force throttling.** In every state any interleaving leads to, with at most `c`
attempts under way at any time: the total of every key is the number of failures recorded
under it since it was last removed; the failed validations from addresses under a key since
then are at most its threshold and `c`; if the attempts of an address do not overlap, at
most seven of its failed validations were checked in one minute, and at most eight made in
one; and at most nine wrong passwords and `c` were tried against one temporary password
since a match last cleared its counter. -/
theorem throttled {b : Bucket} {c clock : ℕ} {as : List Act} {s : Throttle}
    (h : exec (step b c) (init clock) as = some s) :
    (∀ k, (s.entry k).total = recordedSince k s.log) ∧
    (∀ k, failedSince k s.log ≤ k.thresh + c) ∧
    (∀ a, Along (step b c) (Apart a) (init clock) as →
      ∀ m, checkedIn a m s.log ≤ 7 ∧ madeIn a m s.log ≤ 8) ∧
    (b = .password → ∀ v, triedSince v s.log ≤ 9 + c) := by
  have hexact : s.Exact :=
    exec_invariant (fun _ _ _ hI hs => Exact.step hI (step_stepped hs)) (fun _ => rfl) h
  have hbounded : s.Bounded c :=
    exec_invariant (fun _ _ _ hI hs => Bounded.step hI (step_stepped hs)) (init_bounded c clock) h
  refine ⟨hexact, hbounded.failedSince_le, ?_, ?_⟩
  · intro a hapart m
    have hinit : (init clock).PacedAt a := paced_removed a clock
    have hpaced : s.PacedAt a :=
      exec_invariant_along (fun _ _ _ hI hC hs => PacedAt.step hI hC (step_stepped hs)) hinit
        hapart h
    rw [checkedIn_eq, madeIn_eq]
    exact ⟨hpaced.checked_le m, hpaced.made_le m⟩
  · rintro rfl v
    have hguarded : s.Bounded c ∧ s.Guarded c := by
      refine exec_invariant (I := fun s => s.Bounded c ∧ s.Guarded c)
        ?_ ⟨init_bounded c clock, ?_⟩ h
      · intro s₁ x s₂ hI hs
        have hst := step_stepped hs
        exact ⟨hI.1.step hst, hI.2.step hI.1.few hst⟩
      · exact ⟨Nat.zero_le _, nofun, Nat.zero_le _, fun _ _ => rfl, fun _ _ => Nat.zero_le _⟩
    exact hguarded.2.triedSince_le hbounded.few v

/-- One failed attempt after another, from an address with no prefixes. -/
def failing (i : ℕ) (a : Addr) : List Act :=
  [.start a, .check i, .validate i .wrong, .update i, .settle i]

/-- Eight failed validations of one address in one minute, one after the other: the first
of them was checked in the minute before. -/
theorem made_eight_in_a_minute : ∃ as s, exec (step .password 1) (init 5) as = some s ∧
      Along (step .password 1) (Apart (.v4 1)) (init 5) as ∧
      since (.ip (.v4 1)) s.log = s.log ∧ madeIn (.v4 1) 6 s.log = 8 := by
  have hrun : (exec (step .password 1) (init 5)
      ([Act.start (.v4 1), .check 0, .tick, .validate 0 .wrong, .update 0, .settle 0] ++
        (List.replicate 7 (failing 0 (.v4 1))).flatten)).any
      (fun s => decide (since (.ip (.v4 1)) s.log = s.log ∧ madeIn (.v4 1) 6 s.log = 8)) =
        true := by
    decide +kernel
  obtain ⟨s, hs, hp⟩ := (Option.any_eq_true _ _).mp hrun
  obtain ⟨hsince, hmade⟩ := of_decide_eq_true hp
  exact ⟨_, s, hs, by decide +kernel, hsince, hmade⟩

/-- Two failures from one /64, by different addresses, the second checked before the first
was recorded. -/
theorem throttled_crossing : ∃ s, exec (step .password 2) (init 5)
        [.start (.v6 1 none), .check 0, .check 0, .start (.v6 2 none), .check 1, .check 1, .check 0,
          .check 0, .check 1, .check 1, .validate 0 .wrong, .validate 1 .wrong, .update 1,
            .update 0,
          .settle 0] = some s ∧
      (s.entry (.p64 0)).total = 2 ∧ failedSince (.p64 0) s.log = 2 ∧
        checkedIn (.v6 1 none) 5 s.log ≤ 7 := by
  have hrun : (exec (step .password 2) (init 5)
      [.start (.v6 1 none), .check 0, .check 0, .start (.v6 2 none), .check 1, .check 1, .check 0,
        .check 0, .check 1, .check 1, .validate 0 .wrong, .validate 1 .wrong, .update 1, .update 0,
        .settle 0]).any
      (fun s => decide (recordedSince (.p64 0) s.log = 2 ∧ failedSince (.p64 0) s.log = 2)) =
        true := by
    decide +kernel
  obtain ⟨s, hs, hp⟩ := (Option.any_eq_true _ _).mp hrun
  obtain ⟨hrec, hfail⟩ := of_decide_eq_true hp
  obtain ⟨htotal, -, hpace, -⟩ := throttled hs
  refine ⟨s, hs, ?_, hfail, (hpace (.v6 1 none) (by decide +kernel) 5).1⟩
  rw [htotal, hrec]

end Throttle
end BgDesk
