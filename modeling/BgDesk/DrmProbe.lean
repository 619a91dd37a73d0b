import Mathlib.Data.List.Basic
import BgDesk.DrmConn
import BgDesk.Threads

/-!
# Verdicts on DRM capture

`DRM_STATE` of `drm_capturer.rs` says whether displays can be captured through DRM, and which. It is
filled in by queries of the service, which take seconds and run without the lock; `DRM_STATE_GEN`
counts what has been published, so that the result of a slow query can be dropped, and
`DRM_PROBE_IN_FLIGHT` lets one of the queries run that are made for `availability`.

* `Memory` — the variables; `Memory.store` is what each operation does with its result;
* `Call.step`, `State.step` — a critical section, an atomic operation, or the begin or the end of a
  query;
* `verdict_order` — in every run, a result is stored only if nothing has been published since its
  query began, except by `probe_and_publish`, which does not look.
-/

namespace BgDesk
namespace DrmProbe

open Drm (Displays DrmDisplayInfo)

/-- `ProbeState`; times are in milliseconds. -/
inductive ProbeState where
  | unknown : ProbeState
  | unavailable : (since : ℕ) → ProbeState
  | available : (since : ℕ) → Displays → ProbeState
  deriving DecidableEq

namespace ProbeState

def negativeTtl : ℕ := 30000

def positiveTtl : ℕ := 15000

/-- What is known, without the time since when it is. -/
def verdict : ProbeState → Option (Option Displays)
  | unknown => none
  | unavailable _ => some none
  | available _ list => some (some list)

def isAvailable : ProbeState → Bool
  | available _ _ => true
  | _ => false

end ProbeState

/-- `RefreshOutcome`. -/
inductive RefreshOutcome where
  | publish
  | unavailable
  | restamp
  | giveUp
  deriving DecidableEq

def drmProbeMaxFailures : UInt32 := 5

def drmRefreshMaxFailures : UInt32 := 3

/-- `refresh_outcome`. -/
def refreshOutcome (probe : Option ℕ) (failures : UInt32) : RefreshOutcome :=
  match probe with
  | some 0 => .unavailable
  | some _ => .publish
  | none => if drmRefreshMaxFailures ≤ failures then .giveUp else .restamp

/-- The variables, the displays that the service has had so far, and how many verdicts have been
published, in all and by operations that do not take `DRM_PROBE_IN_FLIGHT`. -/
structure Memory where
  state : ProbeState
  gen : UInt64
  inFlight : Bool
  probeFailures : UInt32
  refreshFailures : UInt32
  now : ℕ
  topologies : List Displays
  published : ℕ
  outside : ℕ
  deriving DecidableEq

/-- A generation that was loaded, and how many verdicts had been published then. -/
structure Sample where
  gen : UInt64
  published : ℕ
  deriving DecidableEq

/-- A query, by the operation that makes it: `probe_and_publish`, the two refreshes,
`warm_availability` with the attempts that are left, and `refresh_displays_for_login`. -/
inductive Probe where
  | settle : Probe
  | unavailable : Sample → Probe
  | available : Sample → Probe
  | warm : Sample → (attempts : ℕ) → Probe
  | login : Sample → Probe
  deriving DecidableEq

namespace Probe

/-- It runs with `DRM_PROBE_IN_FLIGHT`. -/
def guarded : Probe → Bool
  | settle => true
  | unavailable _ => true
  | available _ => true
  | warm _ _ => false
  | login _ => false

/-- The generation its result is compared with. -/
def sample? : Probe → Option Sample
  | settle => none
  | unavailable sample => some sample
  | available sample => some sample
  | warm sample _ => some sample
  | login sample => some sample

end Probe

namespace Memory

/-- `publish_probe_state`. -/
def publish (m : Memory) (next : ProbeState) : Memory :=
  { m with state := next, gen := m.gen + 1, published := m.published + 1 }

/-- `publish_probe_state`, by an operation without `DRM_PROBE_IN_FLIGHT`. -/
def publishOutside (m : Memory) (next : ProbeState) : Memory :=
  { m.publish next with outside := m.outside + 1 }

def sample (m : Memory) : Sample := ⟨m.gen, m.published⟩

/-- The end of `probe_and_publish`. -/
def storeSettled (m : Memory) : Option Displays → Memory
  | some [] => m.publish (.unavailable m.now)
  | some list => { m with probeFailures := 0 }.publish (.available m.now list)
  | none =>
    if drmProbeMaxFailures ≤ m.probeFailures + 1 then
      { m with probeFailures := m.probeFailures + 1 }.publish (.unavailable m.now)
    else { m with probeFailures := m.probeFailures + 1 }

/-- The end of the thread of `refresh_unavailable_async`. -/
def storeUnavailable (m : Memory) (sampledGen : UInt64) (result : Option Displays) : Memory :=
  if m.gen ≠ sampledGen then m
  else match result with
    | some (d :: list) => { m with probeFailures := 0 }.publish (.available m.now (d :: list))
    | _ => m.publish (.unavailable m.now)

/-- The end of the thread of `refresh_available_async`. -/
def storeAvailable (m : Memory) (sampledGen : UInt64) (result : Option Displays) : Memory :=
  if m.gen ≠ sampledGen then m
  else
    let failures := if result.isSome then 0 else m.refreshFailures + 1
    let m := { m with refreshFailures := failures }
    match refreshOutcome (result.map List.length) failures with
    | .publish => m.publish (.available m.now (result.getD []))
    | .unavailable => m.publish (.unavailable m.now)
    | .restamp =>
      match m.state with
      | .available _ list => { m with state := .available m.now list }
      | _ => m
    | .giveUp => { m with refreshFailures := 0 }.publish .unknown

/-- The end of an attempt of `warm_availability`. -/
def storeWarm (m : Memory) (sampledGen : UInt64) : Option Displays → Memory
  | some (d :: list) =>
    if m.gen = sampledGen then m.publishOutside (.available m.now (d :: list)) else m
  | _ => m

/-- The end of `refresh_displays_for_login`. -/
def storeLogin (m : Memory) (sampledGen : UInt64) : Option Displays → Memory
  | some (d :: list) =>
    if m.gen ≠ sampledGen then m
    else if m.state.isAvailable then m.publishOutside (.available m.now (d :: list)) else m
  | _ => m

/-- What an operation does with its result, under the lock. -/
def store (m : Memory) (p : Probe) (result : Option Displays) : Memory :=
  match p with
  | .settle => m.storeSettled result
  | .unavailable sample => m.storeUnavailable sample.gen result
  | .available sample => m.storeAvailable sample.gen result
  | .warm sample _ => m.storeWarm sample.gen result
  | .login sample => m.storeLogin sample.gen result

/-- `swap_available_displays`. -/
def swap (m : Memory) (list : Displays) : Memory :=
  if m.state.isAvailable then
    if list = [] then m.publishOutside (.unavailable m.now) else m.publishOutside
      (.available m.now list)
  else m

end Memory

/-- When a query began: after how many verdicts, and with which displays. -/
structure Begun where
  published : ℕ
  outside : ℕ
  topology : ℕ
  deriving DecidableEq

/-- What an operation claims `DRM_PROBE_IN_FLIGHT` for. -/
inductive Claim where
  | settle (blocking : Bool)
  | unavailable
  | available
  deriving DecidableEq

/-- A call, or the thread it has spawned, by what it does next. -/
inductive Call where
  /-- `availability`, or `availability_cached`, before its look at the state -/
  | looking : (blocking : Bool) → Call
  /-- before `DRM_PROBE_IN_FLIGHT.swap` -/
  | claiming : Claim → Call
  /-- `availability`, while another probe is under way -/
  | rereading : Call
  /-- a refresh, before it samples the generation -/
  | sampling : (positive : Bool) → Call
  | spawning : Probe → Call
  | starting : Probe → Call
  | querying : Probe → Begun → Call
  | storing : Probe → Begun → (result : Option Displays) → Call
  /-- before `DRM_PROBE_IN_FLIGHT.store` -/
  | releasing : Call
  /-- `warm_availability`, with the attempts that are left -/
  | warming : (attempts : ℕ) → Call
  | warmLooking : (attempts : ℕ) → Call
  | loginLooking : Call
  | swapping : Displays → Call
  | returned : Call
  deriving DecidableEq

namespace Call

/-- It has the guard of `DRM_PROBE_IN_FLIGHT`. -/
def owns : Call → Bool
  | sampling _ => true
  | spawning p => p.guarded
  | starting p => p.guarded
  | querying p _ => p.guarded
  | storing p _ _ => p.guarded
  | releasing => true
  | _ => false

end Call

/-- What is decided outside: that a thread cannot be spawned, that the seat runs X11, and the answer
of a query. -/
inductive Choice where
  | go
  | fail
  | x11
  | answer (result : Option Displays)
  deriving DecidableEq

/-- After the result of a query has been dealt with: a guarded probe drops its guard, and an attempt
that failed is repeated. -/
def Probe.next (p : Probe) (result : Option Displays) : Call :=
  match p with
  | .settle => .releasing
  | .unavailable _ => .releasing
  | .available _ => .releasing
  | .warm _ attempts => if result.isNone then .warming attempts else .returned
  | .login _ => .returned

/-- The displays at some moment since the query began, or an error. -/
def Memory.canAnswer (m : Memory) (begun : Begun) : Option Displays → Bool
  | some list => list ∈ m.topologies.drop begun.topology
  | none => true

/-- The operation after `DRM_PROBE_IN_FLIGHT.swap`. -/
def Claim.claimed : Claim → Call
  | .settle true => .starting .settle
  | .settle false => .spawning .settle
  | .unavailable => .sampling false
  | .available => .sampling true

/-- The operation when the flag was set already. -/
def Claim.refused : Claim → Call
  | .settle true => .rereading
  | _ => .returned

/-- What `availability` and `availability_cached` do about the state. -/
def Memory.look (m : Memory) (blocking : Bool) : Call :=
  match m.state with
  | .available since _ =>
    if ProbeState.positiveTtl ≤ m.now - since then .claiming .available else .returned
  | .unavailable since =>
    if ProbeState.negativeTtl ≤ m.now - since then .claiming .unavailable else .returned
  | .unknown => .claiming (.settle blocking)

/-- What a refresh does about the state. -/
def Memory.sampled (m : Memory) (positive : Bool) : Call :=
  match m.state with
  | .available _ _ => if positive then .spawning (.available m.sample) else .releasing
  | .unavailable since =>
    if ¬positive ∧ ProbeState.negativeTtl ≤ m.now -
      since then .spawning (.unavailable m.sample) else .releasing
  | .unknown => .releasing

/-- One step of a call. -/
def Call.step (m : Memory) : Call → Choice → Option (Memory × Call)
  | looking blocking, .go => some (m, m.look blocking)
  | claiming claim, .go =>
    if m.inFlight then some (m, claim.refused) else some ({ m with inFlight := true },
      claim.claimed)
  | rereading, .go => some (m, returned)
  | sampling positive, .go => some (m, m.sampled positive)
  | spawning p, .go => some (m, starting p)
  | spawning p, .fail => some (m, if p.guarded then releasing else returned)
  | starting p, .go => some (m, querying p ⟨m.published, m.outside, m.topologies.length - 1⟩)
  | querying p begun, .answer result =>
    if m.canAnswer begun result then some (m, storing p begun result) else none
  | storing p _ result, .go => some (m.store p result, p.next result)
  | releasing, .go => some ({ m with inFlight := false }, returned)
  | warming 0, .go => some (m, returned)
  | warming (attempts + 1), .x11 => some (m, warming attempts)
  | warming (attempts + 1), .go => some (m, warmLooking attempts)
  | warmLooking attempts, .go =>
    some (m, if m.state.isAvailable then returned else starting (.warm m.sample attempts))
  | loginLooking, .go =>
    some (m, if m.state.isAvailable then starting (.login m.sample) else returned)
  | swapping list, .go => some (m.swap list, returned)
  | _, _ => none

structure State where
  mem : Memory
  calls : List Call
  deriving DecidableEq

/-- The operations, as they are called. -/
inductive Entry where
  | availability : Entry
  | availabilityCached : Entry
  | refreshAvailableAsync : Entry
  | refreshUnavailableAsync : Entry
  | warmAvailability : Entry
  | refreshDisplaysForLogin : Entry
  | swapAvailableDisplays : Displays → Entry
  deriving DecidableEq

/-- How many times `warm_availability` tries. -/
def warmAttempts : ℕ := 10

def Entry.call : Entry → Call
  | availability => .looking true
  | availabilityCached => .looking false
  | refreshAvailableAsync => .claiming .available
  | refreshUnavailableAsync => .claiming .unavailable
  | warmAvailability => .warming warmAttempts
  | refreshDisplaysForLogin => .loginLooking
  | swapAvailableDisplays list => .swapping list

inductive Act where
  | call : Entry → Act
  | go : ℕ → Choice → Act
  | tick : (ms : ℕ) → Act
  | hotplug : Displays → Act
  deriving DecidableEq

/-- Before anything has been called. -/
def State.start (displays : Displays) : State :=
  ⟨⟨.unknown, 0, false, 0, 0, 0, [displays], 0, 0⟩, []⟩

def State.step (s : State) : Act → Option State
  | .call entry => some { s with calls := s.calls ++ [entry.call] }
  | .go i choice => do
    let c ← s.calls[i]?
    let (m, c') ← c.step s.mem choice
    some ⟨m, s.calls.set i c'⟩
  | .tick ms => some { s with mem := { s.mem with now := s.mem.now + ms } }
  | .hotplug displays =>
    some { s with mem := { s.mem with topologies := s.mem.topologies ++ [displays] } }

/-! ## What a step does to the memory -/

namespace Memory

/-- What an operation can do to the generation and the verdict, with the flag or without it. -/
inductive Change (guarded : Bool) (m m' : Memory) : Prop where
  | kept : m'.gen = m.gen → m'.published = m.published → m'.outside = m.outside →
    m'.state.verdict = m.state.verdict →
      Change guarded m m'
  | published : m'.gen = m.gen + 1 → m'.published = m.published + 1 →
      m'.outside = m.outside + (if guarded then 0 else 1) → Change guarded m m'

theorem Change.refl (guarded : Bool) (m : Memory) : Change guarded m m := .kept rfl rfl rfl rfl

/-- A verdict that is published by the owner of the flag. -/
theorem publish_change (m : Memory) (next : ProbeState) : Change true m (m.publish next) :=
  .published rfl rfl rfl

/-- And one that is published without it, which is counted. -/
theorem publishOutside_change (m : Memory) (next : ProbeState) :
    Change false m (m.publishOutside next) :=
  .published rfl rfl rfl

/-- What each of the probes does to the memory when it stores its result. -/
theorem storeSettled_change (m : Memory) (result : Option Displays) :
    Change true m (m.storeSettled result) := by
  fun_cases storeSettled m result with
  | case1 => exact publish_change m _
  | case2 => exact .published rfl rfl rfl
  | case3 => exact .published rfl rfl rfl
  | case4 => exact .kept rfl rfl rfl rfl

theorem storeUnavailable_change (m : Memory) (sampledGen : UInt64) (result : Option Displays) :
    Change true m (m.storeUnavailable sampledGen result) := by
  fun_cases storeUnavailable m sampledGen result with
  | case1 => exact .refl _ m
  | case2 => exact .published rfl rfl rfl
  | case3 => exact publish_change m _

theorem storeAvailable_change (m : Memory) (sampledGen : UInt64) (result : Option Displays) :
    Change true m (m.storeAvailable sampledGen result) := by
  rw [storeAvailable]
  split
  · exact .refl _ m
  simp only
  split
  · exact .published rfl rfl rfl
  · exact .published rfl rfl rfl
  · cases hstate : m.state with
    | unknown => exact .kept rfl rfl rfl (by rw [hstate])
    | unavailable since => exact .kept rfl rfl rfl (by rw [hstate])
    | available since list => exact .kept rfl rfl rfl (by rw [hstate]; rfl)
  · exact .published rfl rfl rfl

theorem storeWarm_change (m : Memory) (sampledGen : UInt64) (result : Option Displays) :
    Change false m (m.storeWarm sampledGen result) := by
  fun_cases storeWarm m sampledGen result with
  | case1 => exact publishOutside_change m _
  | case2 => exact .refl _ m
  | case3 => exact .refl _ m

theorem storeLogin_change (m : Memory) (sampledGen : UInt64) (result : Option Displays) :
    Change false m (m.storeLogin sampledGen result) := by
  fun_cases storeLogin m sampledGen result with
  | case1 => exact .refl _ m
  | case2 => exact publishOutside_change m _
  | case3 => exact .refl _ m
  | case4 => exact .refl _ m

theorem store_change (m : Memory) (p : Probe) (result : Option Displays) :
    Change p.guarded m (m.store p result) := by
  cases p with
  | settle => exact storeSettled_change m result
  | unavailable sample => exact storeUnavailable_change m sample.gen result
  | available sample => exact storeAvailable_change m sample.gen result
  | warm sample attempts => exact storeWarm_change m sample.gen result
  | login sample => exact storeLogin_change m sample.gen result

theorem swap_change (m : Memory) (list : Displays) : Change false m (m.swap list) := by
  fun_cases swap m list with
  | case1 => exact publishOutside_change m _
  | case2 => exact publishOutside_change m _
  | case3 => exact .refl _ m

/-- What is compared with an older generation is dropped. -/
theorem store_of_gen_ne {m : Memory} {p : Probe} {sample : Sample} (hp : p.sample? = some sample)
    (hgen : m.gen ≠ sample.gen) (result : Option Displays) : m.store p result = m := by
  cases p with
  | settle => cases hp
  | unavailable sample =>
    cases hp
    exact if_pos hgen
  | available sample =>
    cases hp
    exact if_pos hgen
  | warm sample attempts =>
    cases hp
    rw [store]
    fun_cases storeWarm m sample.gen result with
    | case1 d list heq => exact absurd heq hgen
    | case2 => rfl
    | case3 => rfl
  | login sample =>
    cases hp
    rw [store]
    fun_cases storeLogin m sample.gen result with
    | case1 => rfl
    | case2 d list heq => exact absurd hgen heq
    | case3 => rfl
    | case4 => rfl

/-- The result of `probe_and_publish` is a verdict, and not another attempt to come. -/
def settles (m : Memory) (result : Option Displays) : Bool :=
  result.isSome || drmProbeMaxFailures ≤ m.probeFailures + 1

theorem storeSettled_published (m : Memory) (result : Option Displays) :
    (m.storeSettled result).published = m.published + (m.settles result).toNat := by
  fun_cases storeSettled m result with
  | case1 => rfl
  | case2 => rfl
  | case3 hmany => rw [settles, decide_eq_true hmany]; rfl
  | case4 hfew => rw [settles, decide_eq_false hfew]; rfl

/-- A result that settles nothing leaves the state alone. -/
theorem storeSettled_state {m : Memory} {result : Option Displays} (h : m.settles result = false) :
    (m.storeSettled result).state = m.state := by
  fun_cases storeSettled m result with
  | case1 => cases h
  | case2 => cases h
  | case3 hmany =>
    rw [settles, decide_eq_true hmany] at h
    cases h
  | case4 => rfl

end Memory

variable {m m' : Memory} {c c' : Call} {choice : Choice} {s s' : State} {a : Act} {begun : Begun}

/-- A step of a call changes the verdict as the call may. -/
theorem Call.step_change (h : c.step m choice = some (m', c')) : Memory.Change c.owns m m' := by
  revert h
  fun_cases Call.step m c choice
  all_goals intro h
  all_goals cases h
  case case11.refl p _ result => exact m.store_change p result
  case case18.refl list => exact m.swap_change list
  all_goals exact .kept rfl rfl rfl rfl

/-! ## The flag -/

theorem Claim.refused_owns (claim : Claim) : claim.refused.owns = false := by
  fun_cases refused claim <;> rfl

theorem Claim.claimed_owns (claim : Claim) : claim.claimed.owns = true := by
  fun_cases claimed claim <;> rfl

theorem Probe.next_owns (p : Probe) (result : Option Displays) :
    (p.next result).owns = p.guarded := by
  cases p with
  | warm sample attempts => cases result <;> rfl
  | _ => rfl

theorem Memory.look_owns (m : Memory) (blocking : Bool) : (m.look blocking).owns = false := by
  fun_cases look m blocking <;> rfl

theorem Memory.sampled_owns (m : Memory) (positive : Bool) : (m.sampled positive).owns = true := by
  fun_cases sampled m positive <;> rfl

/-- The flag is given back after the store, not by it. -/
theorem Memory.store_inFlight (m : Memory) (p : Probe) (result : Option Displays) :
    (m.store p result).inFlight = m.inFlight := by
  cases p with
  | settle =>
    rw [store]
    fun_cases storeSettled m result <;> rfl
  | unavailable sample =>
    rw [store]
    fun_cases storeUnavailable m sample.gen result <;> rfl
  | available sample =>
    simp only [store, storeAvailable]
    repeat' split
    all_goals rfl
  | warm sample attempts =>
    rw [store]
    fun_cases storeWarm m sample.gen result <;> rfl
  | login sample =>
    rw [store]
    fun_cases storeLogin m sample.gen result <;> rfl

theorem Memory.swap_inFlight (m : Memory) (list : Displays) :
    (m.swap list).inFlight = m.inFlight := by
  fun_cases swap m list <;> rfl

/-- A step sets the flag when the call gets the guard, and clears it when the guard is dropped. -/
theorem Call.step_inFlight (howner : c.owns = true → m.inFlight = true)
    (h : c.step m choice = some (m', c')) :
    m'.inFlight.toNat + c.owns.toNat = m.inFlight.toNat + c'.owns.toNat := by
  revert h
  fun_cases Call.step m c choice
  all_goals intro h
  all_goals cases h
  case case1.refl blocking => rw [m.look_owns]; rfl
  case case2.refl claim _ => rw [claim.refused_owns]; rfl
  case case3.refl claim hfree =>
    rw [claim.claimed_owns, Bool.eq_false_iff.mpr hfree]
    rfl
  case case5.refl positive => rw [m.sampled_owns]; rfl
  case case7.refl p => cases hp : p.guarded <;> simp [owns, hp]
  case case11.refl p begun result => rw [m.store_inFlight, p.next_owns]; rfl
  case case12.refl => rw [howner rfl]; rfl
  case case16.refl => cases m.state.isAvailable <;> rfl
  case case17.refl => cases m.state.isAvailable <;> rfl
  case case18.refl list => rw [m.swap_inFlight]; rfl
  all_goals rfl

/-- The flag is set exactly while a call has its guard, and one at most has. -/
def State.Exclusive (s : State) : Prop := s.calls.countP Call.owns = s.mem.inFlight.toNat

/-- A call that owns the flag has set it. -/
theorem State.Exclusive.owner (hs : s.Exclusive) {i : ℕ} (hc : s.calls[i]? = some c)
    (howns : c.owns = true) : s.mem.inFlight = true := by
  have hpos : 0 < s.calls.countP Call.owns := countP_pos_index hc howns
  rw [hs] at hpos
  cases hflag : s.mem.inFlight with
  | false =>
    rw [hflag] at hpos
    cases hpos
  | true => rfl

/-- Two owners are the same call. -/
theorem State.Exclusive.unique (hs : s.Exclusive) {i j : ℕ} {d : Call} (hc : s.calls[i]? = some c)
    (hcowns : c.owns = true) (hd : s.calls[j]? = some d) (hdowns : d.owns = true) : i = j := by
  refine countP_le_one_index ?_ hc hcowns hd hdowns
  rw [hs]
  exact Bool.toNat_le _

theorem Entry.call_owns (entry : Entry) : entry.call.owns = false := by
  cases entry <;> rfl

/-- A step of the call at an index. -/
theorem State.step_go {i : ℕ} (h : s.step (.go i choice) = some s') :
    ∃ c c' m, s.calls[i]? = some c ∧ c.step s.mem choice = some (m, c') ∧
      s' = ⟨m, s.calls.set i c'⟩ := by
  simp only [step, Option.bind_eq_bind, Option.bind_eq_some_iff] at h
  obtain ⟨c, hc, ⟨m, c'⟩, hstep, heq⟩ := h
  cases heq
  exact ⟨c, c', m, hc, hstep, rfl⟩

/-- **One step**: the flag is set by one owner, or has none and is clear. -/
theorem State.Exclusive.step (hs : s.Exclusive) (h : s.step a = some s') : s'.Exclusive := by
  cases a with
  | call entry =>
    cases h
    rw [Exclusive, List.countP_append, List.countP_cons, entry.call_owns]
    exact hs
  | go i choice =>
    obtain ⟨c, c', m, hc, hstep, rfl⟩ := State.step_go h
    have hflag := Call.step_inFlight (fun howns => hs.owner hc howns) hstep
    have hcount := @countP_step _ Call.owns _ _ _ hc c'
    rw [Exclusive] at hs ⊢
    simp only
    omega
  | tick ms =>
    cases h
    exact hs
  | hotplug displays =>
    cases h
    exact hs

/-! ## Generations and queries -/

/-- The generation is the number of verdicts, as far as 64 bits go. -/
def Sample.Sound (sample : Sample) : Prop := sample.gen = UInt64.ofNat sample.published

/-- A sample from the past. -/
def Sample.Past (sample : Sample) (m : Memory) : Prop :=
  sample.Sound ∧ sample.published ≤ m.published

/-- A query began after the generation was sampled. A query of `probe_and_publish` keeps the other
guarded operations off, so that whatever has been published since was published without the guard.
-/
structure Begun.Dated (begun : Begun) (m : Memory) (p : Probe) : Prop where
  published : begun.published ≤ m.published
  sampled : ∀ sample, p.sample? = some sample → sample.published ≤ begun.published
  settle : p = .settle → m.published + begun.outside = begun.published + m.outside

/-- What is known of a call that carries a sample or a query. -/
def Call.Dated (m : Memory) : Call → Prop
  | spawning p => ∀ sample, p.sample? = some sample → sample.Past m
  | starting p => ∀ sample, p.sample? = some sample → sample.Past m
  | querying p begun => (∀ sample, p.sample? = some sample → sample.Past m) ∧ begun.Dated m p
  | storing p begun _ => (∀ sample, p.sample? = some sample → sample.Past m) ∧ begun.Dated m p
  | _ => True

/-- The count of the verdicts never falls. -/
theorem Memory.Change.published_le {guarded : Bool} (h : m.Change guarded m') :
    m.published ≤ m'.published := by
  cases h with
  | kept _ hpublished => omega
  | published _ hpublished => omega

/-- A sample from the past stays one. -/
theorem Sample.Past.change {guarded : Bool} {sample : Sample} (h : sample.Past m)
    (hm : m.Change guarded m') : sample.Past m' :=
  ⟨h.1, Nat.le_trans h.2 hm.published_le⟩

/-- While a call of `probe_and_publish` waits for its query, another call that changes the verdict
has no guard. -/
theorem Begun.Dated.change {guarded : Bool} {p : Probe} (h : begun.Dated m p)
    (hm : m.Change guarded m') (hother : p.guarded = true → guarded = false) :
    begun.Dated m' p := by
  refine ⟨Nat.le_trans h.published hm.published_le, h.sampled, fun hp => ?_⟩
  have hsettle := h.settle hp
  subst hp
  cases hm with
  | kept _ hpublished houtside => omega
  | published _ hpublished houtside =>
    rw [hother rfl] at houtside
    simp only [Bool.false_eq_true, if_false] at houtside
    omega

/-- A call stays dated while others change the memory. -/
theorem Call.Dated.change {guarded : Bool} (h : c.Dated m) (hm : m.Change guarded m')
    (hother : c.owns = true → guarded = false) : c.Dated m' := by
  cases c with
  | spawning p => exact fun sample hp => (h sample hp).change hm
  | starting p => exact fun sample hp => (h sample hp).change hm
  | querying p begun | storing p begun result =>
    exact ⟨fun sample hp => (h.1 sample hp).change hm, h.2.change hm hother⟩
  | _ => trivial

theorem Memory.sample_past (hgen : m.sample.Sound) : m.sample.Past m := ⟨hgen, Nat.le_refl _⟩

theorem Memory.sampled_dated (hgen : m.sample.Sound) (positive : Bool) :
    (m.sampled positive).Dated m := by
  have hpast := Memory.sample_past hgen
  fun_cases sampled m positive
  all_goals first
    | trivial
    | exact fun sample hp => Option.some.inj hp ▸ hpast

theorem Memory.look_dated (m : Memory) (blocking : Bool) : (m.look blocking).Dated m := by
  fun_cases look m blocking <;> trivial

theorem Claim.refused_dated (m : Memory) (claim : Claim) : claim.refused.Dated m := by
  fun_cases refused claim <;> trivial

theorem Claim.claimed_dated (m : Memory) (claim : Claim) : claim.claimed.Dated m := by
  fun_cases claimed claim
  all_goals first
    | trivial
    | exact fun sample hp => nomatch hp

theorem Probe.next_dated (m : Memory) (p : Probe) (result : Option Displays) :
    (p.next result).Dated m := by
  cases p with
  | warm sample attempts => cases result <;> trivial
  | _ => trivial

/-- A call that goes on knows when it sampled the generation and when its query began. -/
theorem Call.step_dated (hgen : m.sample.Sound) (hc : c.Dated m)
    (h : c.step m choice = some (m', c')) : c'.Dated m' := by
  have hpast := Memory.sample_past hgen
  revert h
  fun_cases Call.step m c choice
  all_goals intro h
  all_goals cases h
  case case1.refl blocking => exact m.look_dated blocking
  case case2.refl claim _ => exact claim.refused_dated m
  case case3.refl claim _ => exact claim.claimed_dated _
  case case5.refl positive => exact Memory.sampled_dated hgen positive
  case case6.refl p => exact hc
  case case7.refl p => cases p <;> trivial
  case case8.refl p => exact ⟨hc, Nat.le_refl _, fun sample hp => (hc sample hp).2, fun _ => rfl⟩
  case case9.refl p begun result _ => exact hc
  case case11.refl p begun result => exact p.next_dated _ result
  case case16.refl attempts =>
    cases m.state.isAvailable with
    | true => trivial
    | false => exact fun sample hp => Option.some.inj hp ▸ hpast
  case case17.refl =>
    cases m.state.isAvailable with
    | true => exact fun sample hp => Option.some.inj hp ▸ hpast
    | false => trivial
  all_goals trivial

/-- The invariant of runs. -/
structure State.Orderly (s : State) : Prop where
  exclusive : s.Exclusive
  gen : s.mem.sample.Sound
  dated : ∀ (i : ℕ) (c : Call), s.calls[i]? = some c → c.Dated s.mem

/-- The generation is the count of the verdicts, up to its wrap. -/
theorem Memory.Change.sound {guarded : Bool} (hm : m.Change guarded m') (hgen : m.sample.Sound) :
    m'.sample.Sound := by
  have hgen' : m.gen = UInt64.ofNat m.published := hgen
  show m'.gen = UInt64.ofNat m'.published
  cases hm with
  | kept hkept hpublished => rw [hkept, hpublished, hgen']
  | published hnext hpublished =>
    rw [hnext, hpublished, hgen', UInt64.ofNat_add]
    rfl

theorem Entry.call_dated (m : Memory) (entry : Entry) : entry.call.Dated m := by
  cases entry <;> trivial

/-- **One step** keeps all calls dated, and the flag with one owner. -/
theorem State.Orderly.step (hs : s.Orderly) (h : s.step a = some s') : s'.Orderly := by
  refine ⟨hs.exclusive.step h, ?_, ?_⟩
  · cases a with
    | go i choice =>
      obtain ⟨c, c', m, hc, hstep, rfl⟩ := State.step_go h
      exact (Call.step_change hstep).sound hs.gen
    | call entry | tick ms | hotplug displays =>
      cases h
      exact hs.gen
  · intro j d hd
    cases a with
    | call entry =>
      cases h
      rcases List.mem_append.mp (List.mem_of_getElem? hd) with hd | hd
      · obtain ⟨i, hi⟩ := List.mem_iff_getElem?.mp hd
        exact hs.dated i d hi
      · rw [List.mem_singleton.mp hd]
        exact entry.call_dated _
    | go i choice =>
      obtain ⟨c, c', m, hc, hstep, rfl⟩ := State.step_go h
      by_cases hij : i = j
      · subst hij
        rw [List.getElem?_set_self (List.getElem?_eq_some_iff.mp hc).1] at hd
        cases hd
        exact Call.step_dated hs.gen (hs.dated i c hc) hstep
      · rw [List.getElem?_set_ne hij] at hd
        refine (hs.dated j d hd).change (Call.step_change hstep) fun howns => ?_
        by_contra hguarded
        exact hij (hs.exclusive.unique hc (Bool.not_eq_false _ ▸ hguarded) hd howns)
    | tick ms | hotplug displays =>
      cases h
      exact (hs.dated j d hd).change (@Memory.Change.kept false s.mem _ rfl rfl rfl rfl) fun _ =>
        rfl

theorem State.start_orderly (displays : Displays) : (State.start displays).Orderly :=
  ⟨rfl, rfl, nofun⟩

/-! ## What is stored -/

/-- A step that stores the result of a query, and does so while nothing has been published since the
query began. -/
def State.Fresh (s : State) (a : Act) (s' : State) : Prop :=
  ∀ i choice p begun result, a = .go i choice → s.calls[i]? = some (.storing p begun result) →
    (s'.mem.published ≠ s.mem.published ∨ s'.mem.state ≠ s.mem.state) →
      begun.published = s.mem.published

/-- A verdict of `probe_and_publish`, when `warm_availability`, `refresh_displays_for_login` or
`swap_available_displays` has published since its query began. -/
def State.overtaken (s : State) : Act → Bool
  | .go i _ =>
    match s.calls[i]? with
    | some (.storing .settle begun result) => s.mem.settles result && begun.outside ≠ s.mem.outside
    | _ => false
  | _ => false

/-- The generation has gone once around since it was sampled. -/
def State.wrapped (s : State) : Act → Bool
  | .go i _ =>
    match s.calls[i]? with
    | some (.storing p _ _) =>
      p.sample?.any fun sample => sample.published + 2 ^ 64 ≤ s.mem.published
    | _ => false
  | _ => false

/-- A generation that is still the same, unless it has gone around, is the one of the sample. -/
theorem Sample.Past.eq_of_gen {sample : Sample} (h : sample.Past m) (hsound : m.sample.Sound)
    (hgen : m.gen = sample.gen) (hlt : m.published < sample.published + 2 ^ 64) :
    sample.published = m.published := by
  have hsound' : m.gen = UInt64.ofNat m.published := hsound
  have hmod : m.published % 2 ^ 64 = sample.published % 2 ^ 64 := by
    have hnat := congrArg UInt64.toNat (hsound'.symm.trans (hgen.trans h.1))
    simpa only [UInt64.toNat_ofNat'] using hnat
  have hle := h.2
  omega

/-- What is compared is stored only in time. -/
theorem Begun.Dated.compared {p : Probe} {sample : Sample} (h : begun.Dated m p)
    (hp : p.sample? = some sample) (hpast : sample.Past m) (hsound : m.sample.Sound)
    (hlt : m.published < sample.published + 2 ^ 64) (result : Option Displays)
    (hstores : (m.store p result).published ≠ m.published ∨ (m.store p result).state ≠ m.state) :
    begun.published = m.published := by
  have hgen : m.gen = sample.gen := by
    by_contra hgen
    rw [Memory.store_of_gen_ne hp hgen] at hstores
    exact hstores.elim (· rfl) (· rfl)
  have heq := hpast.eq_of_gen hsound hgen hlt
  have hsampled := h.sampled sample hp
  have hpublished := h.published
  omega

/-- `probe_and_publish` stores in time unless it has been overtaken. -/
theorem Begun.Dated.settled (h : begun.Dated m .settle) (result : Option Displays) :
    ((m.storeSettled result).published ≠ m.published ∨ (m.storeSettled result).state ≠ m.state →
      begun.published = m.published) ↔ (m.settles result && begun.outside ≠ m.outside) = false := by
  have hsettle := h.settle rfl
  have hpublished := Memory.storeSettled_published m result
  cases hsettles : m.settles result with
  | false =>
    rw [hsettles] at hpublished
    refine ⟨fun _ => rfl, fun _ hstores => ?_⟩
    exact hstores.elim (absurd hpublished) (absurd (Memory.storeSettled_state hsettles))
  | true =>
    rw [hsettles] at hpublished
    have hstores : (m.storeSettled result).published ≠ m.published := by
      rw [hpublished]
      exact Nat.succ_ne_self _
    rw [Bool.true_and, decide_eq_false_iff_not, not_not]
    constructor
    · intro hfresh
      have heq := hfresh (.inl hstores)
      omega
    · intro houtside _
      omega

theorem State.Orderly.fresh_iff (hs : s.Orderly) (h : s.step a = some s')
    (hwrapped : s.wrapped a = false) : s.Fresh a s' ↔ s.overtaken a = false := by
  cases a with
  | call entry | tick ms | hotplug displays => exact ⟨fun _ => rfl, fun _ => nofun⟩
  | go i choice =>
    obtain ⟨c, c', m, hc, hstep, rfl⟩ := State.step_go h
    have hdated := hs.dated i c hc
    cases c with
    | storing p begun result =>
      obtain ⟨hpast, hbegun⟩ := hdated
      have hm : m = s.mem.store p result := by
        cases choice <;> cases hstep
        rfl
      subst hm
      have hfresh : s.Fresh (.go i choice) ⟨s.mem.store p result, s.calls.set i c'⟩ ↔
          ((s.mem.store p result).published ≠ s.mem.published ∨
            (s.mem.store p result).state ≠ s.mem.state →
            begun.published = s.mem.published) := by
        refine ⟨fun hfresh => hfresh i choice p begun result rfl hc, fun hfresh => ?_⟩
        rintro j choice' p' begun' result' hj hc'
        cases hj
        rw [hc] at hc'
        cases hc'
        exact hfresh
      rw [hfresh]
      simp only [overtaken, wrapped, hc] at hwrapped ⊢
      cases hp : p.sample? with
      | none =>
        cases p with
        | settle => exact hbegun.settled result
        | _ => cases hp
      | some sample =>
        rw [hp, Option.any_some, decide_eq_false_iff_not, not_le] at hwrapped
        have hcompared := hbegun.compared hp (hpast sample hp) hs.gen hwrapped result
        cases p with
        | settle => cases hp
        | _ => exact ⟨fun _ => rfl, fun _ => hcompared⟩
    | _ =>
      constructor
      · intro _
        simp only [overtaken, hc]
      · rintro _ j choice' p begun result hj hc'
        cases hj
        rw [hc] at hc'
        cases hc'

/-- Another verdict comes with another generation. -/
theorem Memory.Change.gen_ne {guarded : Bool} (hm : m.Change guarded m')
    (hverdict : m'.state.verdict ≠ m.state.verdict) : m'.gen ≠ m.gen := by
  cases hm with
  | kept _ _ _ hsame => exact absurd hsame hverdict
  | published hnext =>
    rw [hnext]
    intro heq
    have hnat := congrArg UInt64.toNat heq
    have hlt := m.gen.toNat_lt
    simp only [UInt64.toNat_add, UInt64.reduceToNat] at hnat
    omega

/-- In every run: the flag is set while one of the guarded operations is under way, and at most one
is; a step stores a result only if nothing has been published since the query began, unless it is
the verdict of a `probe_and_publish` that has been overtaken (the generations that are compared not
having gone around); and the generation changes with the verdict and with the displays. -/
theorem verdict_order (displays : Displays) {acts : List Act} {s : State}
    (hrun : exec State.step (.start displays) acts = some s) :
    s.calls.countP Call.owns = s.mem.inFlight.toNat ∧
    ∀ a s', s.step a = some s' →
      (s.wrapped a = false → (s.Fresh a s' ↔ s.overtaken a = false)) ∧
      (s'.mem.state.verdict ≠ s.mem.state.verdict → s'.mem.gen ≠ s.mem.gen) := by
  have hs : s.Orderly := exec_invariant (fun _ _ _ hs hstep => hs.step hstep)
    (State.start_orderly displays) hrun
  refine ⟨hs.exclusive, fun a s' h => ⟨hs.fresh_iff h, fun hverdict => ?_⟩⟩
  cases a with
  | go i choice =>
    obtain ⟨c, c', m, hc, hstep, rfl⟩ := State.step_go h
    exact (Call.step_change hstep).gen_ne hverdict
  | call entry | tick ms | hotplug displays =>
    cases h
    exact absurd rfl hverdict

/-- A first verdict, with nothing else under way. -/
theorem verdict_order_first : ∃ s s', exec State.step (.start [Drm.monitor])
      [.call .availability, .go 0 .go, .go 0 .go, .go 0 .go,
        .go 0 (.answer (some [Drm.monitor]))] = some s ∧
      s.step (.go 0 .go) = some s' ∧ s.Fresh (.go 0 .go) s' ∧ s'.mem.gen ≠ s.mem.gen := by
  have hrun :
    ((exec State.step (.start [Drm.monitor]) [.call .availability, .go 0 .go, .go 0 .go, .go 0 .go,
      .go 0 (.answer (some [Drm.monitor]))]).any fun s =>
      s.wrapped (.go 0 .go) = false ∧ s.overtaken (.go 0 .go) = false ∧
        (s.step (.go 0 .go)).any fun s' => s'.mem.state.verdict ≠ s.mem.state.verdict) = true := by
          decide +kernel
  obtain ⟨s, hs, hstate⟩ := (Option.any_eq_true _ _).mp hrun
  obtain ⟨hwrapped, hovertaken, hnext⟩ := of_decide_eq_true hstate
  obtain ⟨s', hs', hverdict⟩ := (Option.any_eq_true _ _).mp hnext
  obtain ⟨hfresh, hgen⟩ := (verdict_order [Drm.monitor] hs).2 _ s' hs'
  exact ⟨s, s', hs, hs', (hfresh hwrapped).mpr hovertaken, hgen (of_decide_eq_true hverdict)⟩

def replug : Displays := [{ Drm.monitor with name := "HDMI-A-1" }]

/-- A login probes from the old displays on, the warm-up finds the new ones and publishes them, and
then the probe stores the old ones over them. -/
theorem older_verdict_stored : ∃ s s', exec State.step (.start [Drm.monitor])
      [.call .availability, .go 0 .go, .go 0 .go, .go 0 .go,
        .call .warmAvailability, .go 1 .go, .go 1 .go, .hotplug replug, .go 1 .go,
          .go 1 (.answer (some replug)), .go 1 .go,
        .go 0 (.answer (some [Drm.monitor]))] = some s ∧
      s.step (.go 0 .go) = some s' ∧ ¬s.Fresh (.go 0 .go) s' ∧
      s.mem.state.verdict = some (some replug) ∧
        s'.mem.state.verdict = some (some [Drm.monitor]) := by
  have hrun :
    ((exec State.step (.start [Drm.monitor]) [.call .availability, .go 0 .go, .go 0 .go, .go 0 .go,
      .call .warmAvailability, .go 1 .go, .go 1 .go, .hotplug replug, .go 1 .go,
        .go 1 (.answer (some replug)), .go 1 .go,
      .go 0 (.answer (some [Drm.monitor]))]).any fun s =>
      s.calls[0]? = some (Call.storing .settle ⟨0, 0, 0⟩ (some [Drm.monitor])) ∧
        s.mem.published = 1 ∧
        s.mem.state.verdict = some (some replug) ∧
        (s.step (.go 0 .go)).any fun s' =>
          s'.mem.published = 2 ∧ s'.mem.state.verdict = some (some [Drm.monitor])) = true := by
    decide +kernel
  obtain ⟨s, hs, hstate⟩ := (Option.any_eq_true _ _).mp hrun
  obtain ⟨hcall, hpublished, hverdict, hnext⟩ := of_decide_eq_true hstate
  obtain ⟨s', hs', hafter⟩ := (Option.any_eq_true _ _).mp hnext
  obtain ⟨hpublished', hverdict'⟩ := of_decide_eq_true hafter
  refine ⟨s, s', hs, hs', fun hfresh => ?_, hverdict, hverdict'⟩
  have hstale := hfresh 0 .go _ _ _ rfl hcall (.inl (by rw [hpublished, hpublished']; decide))
  rw [hpublished] at hstale
  cases hstale

end DrmProbe
end BgDesk
