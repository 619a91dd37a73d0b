import Mathlib.Data.Int.Notation
import Mathlib.Algebra.Order.Ring.Unbundled.Rat
import BgDesk.Machine
import BgDesk.Checked

/-!
# Video QoS

`src/server/video_qos.rs`: every viewer has a frame rate of its own that follows the delay of its
replies, and the stream follows the slowest viewer. Numbers of 32 bits are natural numbers, and
every addition, subtraction and division on them is a checked one: `none` is an overflow or a
division by zero. Floating point numbers are of any type with any operations, `F32`.

* `UserDelay.reply` — a reply to a probe of one viewer, from `user_network_delay`;
* `UserDelay.stall` — a probe that stays out, from `user_delay_response_elapsed`;
* `Qos.step` — the operations of `VideoQoS`.
-/

namespace BgDesk
namespace VideoQos

/-! ## Constants -/

def fpsDefault : ℕ := 30
def minFps : ℕ := 1
def maxFps : ℕ := 120
def initFps : ℕ := 15
def minAutoFps : ℕ := 5
def historyDelayLen : ℕ := 2
def adjustRatioInterval : ℕ := 3
def dynamicScreenThreshold : ℕ := 2
def delayThreshold150ms : ℕ := 150
def restoreGuardSamples : ℕ := 5
def windowSamples : ℕ := 20
def maxIncreaseMs : ℕ := 50

/-- `u8::MAX`. -/
def u8Max : ℕ := 255

/-- `clamp`, for bounds in order. -/
def clamp (x lo hi : ℕ) : ℕ := max lo (min x hi)

/-- What the controller uses of `f32`. -/
structure F32 (R : Type) where
  ofNat : ℕ → R
  lit : ℚ → R
  mul : R → R → R
  div : R → R → R
  max : R → R → R
  min : R → R → R
  clamp : R → R → R → R
  lt : R → R → Bool
  le : R → R → Bool
  /-- `ceil() as u32` -/
  ceilU32 : R → ℕ

section Constants

variable {R : Type} (F : F32 R)

def brBest : R := F.lit (3 / 2)
def brBalanced : R := F.lit (67 / 100)
def brSpeed : R := F.lit (1 / 2)
def brMax : R := F.lit 40
def brMin : R := F.lit (1 / 5)
def brMinHighResolution : R := F.lit (1 / 10)
def maxBrMultiple : R := F.lit 1

end Constants

/-! ## The baseline of a connection -/

/-- `RttCalculator`. -/
structure RttCalculator where
  baseline : Option ℕ
  samples : List ℕ
  deriving DecidableEq

namespace RttCalculator

/-- `RttCalculator::update`. -/
def update (c : RttCalculator) (delay : ℕ) : Option RttCalculator :=
  let samples := (if windowSamples ≤ c.samples.length then c.samples.tail else c.samples) ++ [delay]
  let baseline := min (c.baseline.getD delay) delay
  if samples.length < windowSamples then some ⟨some baseline, samples⟩
  else
    match (samples.take (windowSamples / 2)).min?, (samples.drop (windowSamples / 2)).min? with
    | some olderMin, some recentMin =>
      if min (olderMin + 10) (2 ^ 32 - 1) < recentMin then some ⟨some baseline, samples⟩
      else
        let rise := min olderMin recentMin - baseline
        if 0 < rise then do
          let half ← checkedDiv rise 2
          let baseline ← checkedAdd 32 baseline (clamp half 1 maxIncreaseMs)
          return ⟨some baseline, samples⟩
        else some ⟨some baseline, samples⟩
    | _, _ => some ⟨some baseline, samples⟩

/-- `get_rtt`. -/
def getRtt (c : RttCalculator) : Option ℕ := c.baseline

end RttCalculator

/-! ## The delay of a viewer -/

/-- `UserDelay`. -/
structure UserDelay where
  stallTicks : ℕ
  delayHistory : List ℕ
  fps : Option ℕ
  rttCalculator : RttCalculator
  quickIncreaseFpsCount : ℕ
  increaseFpsCount : ℕ
  consecutiveBadSamples : ℕ
  /-- fresh bad replies since the last reduction -/
  fpsBadSamples : ℕ
  /-- since the last reduction -/
  goodSamples : ℕ
  repliesAfterBitrateReduction : Option ℕ
  /-- the level to return to once replies are good again -/
  fpsBeforeCongestion : Option ℕ
  /-- set by a restore, cleared once it proved stable -/
  samplesSinceRestore : Option ℕ
  /-- the rate when the outstanding probe passed two seconds -/
  stallReferenceFps : Option ℕ
  /-- `u8::MAX` ends the acceleration at the start for good -/
  startupGoodSamples : ℕ
  deriving DecidableEq

namespace UserDelay

/-- `UserDelay::default`. -/
def empty : UserDelay := ⟨0, [], none, ⟨none, []⟩, 0, 0, 0, 0, 0, none, none, none, none, 0⟩

/-- The baseline, where there is one. -/
def base (d : UserDelay) : ℕ := d.rttCalculator.getRtt.getD 0

/-- `add_delay`. -/
def addDelay (d : UserDelay) (delay : ℕ) : UserDelay :=
  { d with delayHistory :=
      (if historyDelayLen ≤ d.delayHistory.length then d.delayHistory.tail else d.delayHistory) ++
        [delay] }

/-- `avg_delay`. -/
def avgDelay (d : UserDelay) : Option ℕ :=
  if d.delayHistory = [] then some delayThreshold150ms
  else do
    let sum ← checkedSum 32 0 d.delayHistory
    let avg ← checkedDiv sum d.delayHistory.length
    return avg - d.base

/-- `on_reduction`. -/
def onReduction (d : UserDelay) (currentFps : ℕ) : UserDelay :=
  { d with startupGoodSamples := u8Max, goodSamples := 0, fpsBadSamples := 0
           fpsBeforeCongestion :=
             if d.fpsBeforeCongestion = none then some currentFps else d.fpsBeforeCongestion }

/-- `recover`. -/
def recover (d : UserDelay) (currentFps fps : ℕ) : Option (UserDelay × ℕ) := do
  let tenth ← checkedDiv currentFps 10
  let gradual ← checkedAdd 32 currentFps (max tenth 1)
  match d.goodSamples, d.fpsBeforeCongestion.filter (currentFps < ·) with
  | 2, some level | 3, some level =>
    return ({ d with fpsBeforeCongestion := none, samplesSinceRestore := some 0 }, max fps level)
  | 3, none => do
    let fifth ← checkedDiv currentFps 5
    let raised ← checkedAdd 32 currentFps (max fifth 2)
    return ({ d with fpsBeforeCongestion := none }, max fps raised)
  | _, _ => return (d, gradual)

/-- A restore was recent. -/
def restored (d : UserDelay) : Bool := d.samplesSinceRestore.any (· ≤ restoreGuardSamples)

/-- A reply after a reduction of the bitrate is counted. -/
def countReply : Option ℕ → Option (Option ℕ)
  | none => some none
  | some replies => do
    let replies ← checkedAdd 8 replies 1
    return some (min replies 2)

/-- A bad reply is counted. -/
def countBad (d : UserDelay) : Option UserDelay := do
  let bad ← checkedAdd 8 d.fpsBadSamples 1
  let replies ← countReply d.repliesAfterBitrateReduction
  return { d with
    consecutiveBadSamples := min (d.consecutiveBadSamples + 1) 3, fpsBadSamples := min bad 3
    repliesAfterBitrateReduction := replies }

/-- A level that congests right after it was restored is not the level to return to. -/
def lowerLevel (d : UserDelay) (currentFps : ℕ) (failedRestore : Bool) : Option UserDelay :=
  if d.restored && (failedRestore || decide (3 ≤ d.consecutiveBadSamples)) then do
    let quarter ← checkedDiv currentFps 4
    let level ← checkedSub currentFps quarter
    return { d with fpsBeforeCongestion := some level, samplesSinceRestore := none }
  else some d

/-- The end of `limit_fps_change`: the rate goes down, unless there is a reason to wait. -/
def reduce (d : UserDelay) (currentFps fps excess : ℕ) (bitrateFirst braked failedRestore : Bool) :
    Option (UserDelay × ℕ) :=
  if currentFps ≤ fps ∨ braked then some (d, currentFps)
  else if !failedRestore ∧ excess < 1000 ∧
      (d.fpsBadSamples < 3 ∨ bitrateFirst ∧ d.repliesAfterBitrateReduction.getD 0 < 2) then
    some (d, currentFps)
  else do
    let part ← checkedDiv currentFps (if 1000 ≤ excess ∨ failedRestore then 2 else 5)
    return (d.onReduction currentFps, max fps (currentFps - max part 1))

/-- `limit_fps_change`. -/
def limitFpsChange (d : UserDelay) (currentFps fps delay : ℕ) (bitrateFirst braked : Bool) :
    Option (UserDelay × ℕ) :=
  let excess := delay - d.base
  let d :=
    { d with
      samplesSinceRestore := d.samplesSinceRestore.map fun samples => min (samples + 1) u8Max }
  if excess < delayThreshold150ms then
    { d with consecutiveBadSamples := 0, fpsBadSamples := 0, repliesAfterBitrateReduction := none
             goodSamples := min (d.goodSamples + 1) 3 }.recover currentFps fps
  else do
    let d ← d.countBad
    let failedRestore := decide (600 ≤ excess) && d.restored
    let d ← d.lowerLevel currentFps failedRestore
    d.reduce currentFps fps excess bitrateFirst braked failedRestore

/-- `accelerate_startup`. -/
def accelerateStartup (d : UserDelay) (currentFps fps cap delay : ℕ) (braked : Bool) :
    Option (UserDelay × ℕ) :=
  if d.startupGoodSamples = u8Max then some (d, fps)
  else if braked ∨ 50 ≤ delay - d.base ∨ cap ≤ currentFps then
    some ({ d with startupGoodSamples := u8Max }, fps)
  else do
    let samples ← checkedAdd 8 d.startupGoodSamples 1
    if samples < 2 then return ({ d with startupGoodSamples := samples }, fps)
    else
      let accelerated := min (max fps (min (currentFps * 2) (2 ^ 32 - 1))) cap
      return ({ d with startupGoodSamples := if cap ≤ accelerated then u8Max else 0 }, accelerated)

/-- `needs_bitrate_reduction`. -/
def needsBitrateReduction (d : UserDelay) : Bool :=
  decide (2 ≤ d.consecutiveBadSamples) || decide (2 ≤ d.stallTicks)

/-- `ratio_reduction`. -/
def ratioReduction {R : Type} (F : F32 R) (d : UserDelay) : Option (Option R) :=
  if d.needsBitrateReduction then do
    let excess ← d.avgDelay
    let confirmed := decide (3 ≤ d.consecutiveBadSamples)
    return some (
      if excess < 200 then F.lit (95 / 100)
      else if excess < 300 then F.lit (9 / 10)
      else if excess < 500 then (if confirmed then F.lit (7 / 10) else F.lit (85 / 100))
      else if confirmed then F.lit (1 / 2)
      else F.lit (8 / 10))
  else some none

/-- The rate for an average delay, from `user_network_delay`. The division of floating point
numbers is in `F`. -/
def adapt {R : Type} (F : F32 R) (d : UserDelay) (lowFps normalFps avgDelay oldAvgDelay fps : ℕ) :
    Option (UserDelay × ℕ) :=
  let dividendMs := delayThreshold150ms * lowFps
  let devideFps :=
    F.ceilU32 (F.div (F.ofNat fps) (F.div (F.ofNat avgDelay) (F.ofNat delayThreshold150ms)))
  if avgDelay < 50 then do
    let quick := decide (3 ≤ d.quickIncreaseFpsCount + 1)
    let raised ← checkedAdd 32 fps (if quick then 5 else if fps < normalFps then 1 else 0)
    return ({ d with quickIncreaseFpsCount := if quick then 0 else d.quickIncreaseFpsCount + 1 },
      max lowFps raised)
  else if avgDelay < 100 then do
    let raised ← checkedAdd 32 fps (if avgDelay <
      oldAvgDelay then (if fps < normalFps then 1 else 0) else 0)
    return (d, max lowFps raised)
  else if avgDelay < delayThreshold150ms then some (d, max lowFps fps)
  else if avgDelay < 200 then some (d, max lowFps devideFps)
  else if avgDelay < 300 then some (d, min lowFps devideFps)
  else do
    let product ← checkedDiv dividendMs avgDelay
    return (d, if avgDelay < 600 then product else min product devideFps)

/-- The counters of `user_network_delay`: one more after three stable replies. -/
def settle (d : UserDelay) (avgDelay fps : ℕ) : Option (UserDelay × ℕ) := do
  let count := if avgDelay < delayThreshold150ms then d.increaseFpsCount + 1 else 0
  let d := { d with quickIncreaseFpsCount := if 50 < avgDelay then 0 else d.quickIncreaseFpsCount }
  if 3 ≤ count then
    let raised ← checkedAdd 32 fps 1
    return ({ d with increaseFpsCount := 0 }, raised)
  else return ({ d with increaseFpsCount := count }, fps)

/-- The start of a reply: the outstanding probe is closed, and the delay goes into the history
and, if nothing was braked, into the baseline. -/
def record (d : UserDelay) (delay : ℕ) (braked : Bool) : Option UserDelay :=
  let d := { d with stallTicks := 0, stallReferenceFps := none }
  if braked then some (d.addDelay delay)
  else do
    let rtt ← d.rttCalculator.update delay
    return { d with rttCalculator := rtt }.addDelay delay

/-- A reply, from `user_network_delay`: the rate of the viewer, and whether the bitrate has to come
down. -/
def reply {R : Type} (F : F32 R) (d : UserDelay) (cap lowFps normalFps delay : ℕ)
    (bitrateFirst : Bool) : Option (UserDelay × Bool) := do
  let delay := max delay 10
  let braked := d.stallReferenceFps.isSome
  let oldAvgDelay ← d.avgDelay
  let d ← d.record delay braked
  let avgDelay ← d.avgDelay
  let avgDelay := max avgDelay 10
  let currentFps := d.fps.getD (min initFps cap)
  let (d, fps) ← d.adapt F lowFps normalFps avgDelay oldAvgDelay currentFps
  let (d, fps) ← d.settle avgDelay fps
  let fps := if bitrateFirst then max fps lowFps else fps
  let fps := max fps (min minAutoFps cap)
  let (d, fps) ← d.limitFpsChange currentFps fps delay bitrateFirst braked
  let (d, fps) ← d.accelerateStartup currentFps fps cap delay braked
  let reduceBitrate :=
    bitrateFirst && d.needsBitrateReduction && d.repliesAfterBitrateReduction.isNone
  return ({ d with fps := some (clamp fps minFps cap) }, reduceBitrate)

/-- The start of a stall: what the rate was is remembered. -/
def brake (d : UserDelay) (cap : ℕ) : UserDelay × ℕ :=
  match d.stallReferenceFps with
  | some reference => (d, reference)
  | none =>
    let reference := d.fps.getD (min initFps cap)
    ({ d with stallReferenceFps := some reference }.onReduction reference, reference)

/-- A probe that has been out for more than two seconds, from `user_delay_response_elapsed`. -/
def stall (d : UserDelay) (cap elapsed : ℕ) : Option UserDelay := do
  let d := { d with stallTicks := min (d.stallTicks + 1) u8Max }.addDelay (elapsed % 2 ^ 32)
  let (d, reference) := d.brake cap
  let part ← checkedDiv reference (2 ^ min (elapsed / 1000 % 2 ^ 32 - 1) 5)
  let current := d.fps.getD reference
  return { d with fps := some (min (clamp part (min minAutoFps cap) cap) current) }

end UserDelay
/-! ## Viewers, displays and the controller -/

/-- `Quality`. -/
inductive Quality (R : Type) where
  | best
  | balanced
  | low
  | custom (v : R)
  deriving DecidableEq

/-- `UserData`, as far as the controller reads it. -/
structure UserData (R : Type) where
  autoAdjustFps : Option ℕ
  customFps : Option ℕ
  quality : Option (ℤ × Quality R)
  delay : UserDelay
  joinedAt : Option ℕ
  deriving DecidableEq

/-- `fps_cap`. -/
def UserData.fpsCap {R : Type} (user : UserData R) : ℕ :=
  let fps := user.customFps.getD fpsDefault
  let fps := match user.autoAdjustFps with
    | none => fps
    | some autoAdjustFps => if fps = 0 ∨ autoAdjustFps < fps then autoAdjustFps else fps
  clamp fps minFps maxFps

/-- `DisplayData`. -/
structure DisplayData where
  sendCounter : ℕ
  supportChangingQuality : Bool
  deriving DecidableEq

/-- `VideoQoS`. Times are in milliseconds. -/
structure Qos (R : Type) where
  fps : ℕ
  ratio : R
  users : List (ℤ × UserData R)
  displays : List (String × DisplayData)
  bitrateStore : ℕ
  adjustRatioInstant : ℕ
  abrConfig : Bool
  firstReplyAdjustsRatio : Bool
  deriving DecidableEq

/-- The operations. Each carries the time it happens at where it reads the clock, and what it reads
from elsewhere: the option `enable-abr`, and the wall clock. `rehash` stands for the order in which
a map happens to be iterated. -/
inductive Op where
  | onConnectionOpen (id : ℤ) (now : ℕ) (abr : Bool)
  | onConnectionClose (id : ℤ) (now : ℕ)
  | userCustomFps (id : ℤ) (fps : ℕ)
  | userAutoAdjustFps (id : ℤ) (fps : ℕ)
  | userImageQuality (id : ℤ) (imageQuality : ℤ) (time : ℤ)
  | userNetworkDelay (id : ℤ) (delay now : ℕ)
  | userDelayResponseElapsed (id : ℤ) (elapsed now : ℕ)
  | newDisplay (name : String)
  | removeDisplay (name : String)
  | setSupportChangingQuality (name : String) (support : Bool)
  | updateDisplayData (name : String) (sendCounter now : ℕ)
  | storeBitrate (bitrate : ℕ)
  | readRatio
  | adjustFps (now : ℕ)
  | rehash (before : ℤ → ℤ → Bool)

namespace Qos

variable {R : Type} (F : F32 R)

/-- `Quality::ratio`. -/
def qualityRatio : Quality R → R
  | .best => brBest F
  | .balanced => brBalanced F
  | .low => brSpeed F
  | .custom v => v

/-- `VideoQoS::default`. -/
def default (linux : Bool) (now : ℕ) : Qos R :=
  ⟨fpsDefault, brBalanced F, [], [], 0, now, true, !linux⟩

/-- The viewer with this number. -/
def user? (q : Qos R) (id : ℤ) : Option (UserData R) := (q.users.find? (·.1 = id)).map Prod.snd

/-- The viewer with this number is changed. -/
def withUser (q : Qos R) (id : ℤ) (f : UserData R → UserData R) : Qos R :=
  { q with users := q.users.map fun u => if u.1 = id then (u.1, f u.2) else u }

/-- The display with this name is changed. -/
def withDisplay (q : Qos R) (name : String) (f : DisplayData → DisplayData) : Qos R :=
  { q with displays := q.displays.map fun d => if d.1 = name then (d.1, f d.2) else d }

/-- `in_vbr_state`. -/
def inVbrState (q : Qos R) : Bool := q.abrConfig && q.displays.all (·.2.supportChangingQuality)

/-- `latest_quality`: of the viewers with the latest time, the last. -/
def latestQuality (q : Qos R) : Quality R :=
  match (q.users.filterMap (·.2.quality)).foldl
    (fun latest quality => match latest with
      | none => some quality
      | some best => if quality.1 < best.1 then some best else some quality) none with
  | none => .balanced
  | some quality => quality.2

/-- The lower of `min` and the ratio for a megabit a second. -/
def atMost (least : R) : Option R → R
  | none => least
  | some ratio1mbps => if F.lt ratio1mbps least then ratio1mbps else least

/-- `min_ratio`. -/
def minRatio (q : Qos R) : R :=
  let ratio1mbps := if 0 < q.bitrateStore then
    some (F.max (F.div (F.mul q.ratio (F.lit 1000)) (F.ofNat q.bitrateStore))
      (brMinHighResolution F)) else none
  match q.latestQuality with
  | .best => F.max (atMost F (F.div (brBest F) (F.lit (5 / 2))) ratio1mbps) (brMin F)
  | .balanced =>
    F.max (atMost F (F.min (F.div (brBalanced F) (F.lit 2)) (F.lit (4 / 10))) ratio1mbps)
      (brMinHighResolution F)
  | .low | .custom _ => brMinHighResolution F

/-- `can_reduce_bitrate`. -/
def canReduceBitrate (q : Qos R) : Bool :=
  q.inVbrState && !q.displays.isEmpty && F.lt (F.mul (q.minRatio F) (F.lit (102 / 100))) q.ratio

/-- `highest_fps`. -/
def highestFps (q : Qos R) : ℕ :=
  clamp ((q.users.map (·.2.fpsCap)).min?.getD fpsDefault) minFps maxFps

/-- `adjust_fps`. -/
def adjustFps (q : Qos R) (now : ℕ) : Qos R :=
  let fps := (q.users.map (·.2.delay.fps.getD initFps)).min?.getD initFps
  let fps :=
    if q.users.any (fun u => u.2.joinedAt.any fun joined => decide ((now - joined) / 1000 < 1)) then
    min fps initFps else fps
  { q with fps := clamp fps minFps q.highestFps }

/-- `reset_send_counters`. -/
def resetSendCounters (q : Qos R) : Qos R :=
  { q with displays := q.displays.map fun d => (d.1, { d.2 with sendCounter := 0 }) }

/-- The ratio `adjust_ratio` aims at. -/
def nextRatio (q : Qos R) (dynamicScreen : Bool) (maxDelay : ℕ) (reduction : Option R)
    (ratioAdd150kbps : Option R) : R :=
  let v := match reduction with
    | some factor => F.mul q.ratio factor
    | none =>
      if dynamicScreen then
        F.mul q.ratio (F.lit (if maxDelay < 50 then 115 / 100 else if maxDelay < 100 then 11 /
          10 else 105 / 100))
      else q.ratio
  match ratioAdd150kbps with
  | none => v
  | some ratioAdd150kbps =>
    if F.lt ratioAdd150kbps v && F.lt q.ratio ratioAdd150kbps && F.le (brSpeed F)
      q.ratio then ratioAdd150kbps
    else v

/-- A viewer whose bitrate was reduced waits for the replies after that. -/
def awaitReplies (d : UserDelay) (replies : ℕ) : UserDelay :=
  if d.needsBitrateReduction && d.repliesAfterBitrateReduction.isNone then
    { d with repliesAfterBitrateReduction := some replies }
  else d

/-- The ratio for 150 kilobits a second more. -/
def ratioAdd150kbps (q : Qos R) : Option (Option R) :=
  if 0 < q.bitrateStore then do
    let sum ← checkedAdd 32 q.bitrateStore 150
    return some (F.div (F.mul (F.ofNat sum) q.ratio) (F.ofNat q.bitrateStore))
  else some none

/-- `adjust_ratio`, once the delays of the viewers are known. -/
def changeRatio (q : Qos R) (dynamicScreen : Bool) (now maxDelay : ℕ) (reduction : Option R) :
    Option (Qos R) := do
  let ratioAdd150kbps ← q.ratioAdd150kbps F
  let least := q.minRatio F
  let most := F.mul (qualityRatio F q.latestQuality) (maxBrMultiple F)
  let ratio := F.clamp (q.nextRatio F dynamicScreen maxDelay reduction ratioAdd150kbps) least most
  let users := if reduction.isSome then
      q.users.map fun u =>
        (u.1, { u.2 with delay := awaitReplies u.2.delay (if F.lt ratio q.ratio then 0 else 2) })
    else q.users
  return { { q with users := users, ratio := ratio }.resetSendCounters with
    adjustRatioInstant := now }

/-- `adjust_ratio`. -/
def adjustRatio (q : Qos R) (dynamicScreen : Bool) (now : ℕ) : Option (Qos R) :=
  if q.inVbrState then do
    let delays : List ℕ ← q.users.mapM (·.2.delay.avgDelay)
    match delays.max? with
    | none => return q
    | some maxDelay => do
      let reductions ← q.users.mapM (·.2.delay.ratioReduction F)
      match reductions.filterMap id with
      | [] =>
        if delayThreshold150ms ≤ maxDelay then return q.resetSendCounters
        else q.changeRatio F dynamicScreen now maxDelay none
      | first :: rest => q.changeRatio F dynamicScreen now maxDelay (some (rest.foldl F.min first))
  else some q

/-- The cooldown of the ratio is over. -/
def cooledDown (q : Qos R) (now : ℕ) : Bool :=
  decide (adjustRatioInterval ≤ (now - q.adjustRatioInstant) / 1000)

/-- `adjust_ratio`, if there is a reason for it and the cooldown is over. -/
def adjustRatioIf (q : Qos R) (reason : Bool) (now : ℕ) : Option (Qos R) :=
  if reason && q.cooledDown now then q.adjustRatio F false now else some q

/-- The rates that go with the quality in `user_network_delay`. -/
def qualityFps (targetRatio : R) : ℕ × ℕ :=
  if F.le (brBest F) targetRatio then (8, 16)
  else if F.le (brBalanced F) targetRatio then (10, 20)
  else (12, 24)

/-- `user_network_delay`. -/
def userNetworkDelay (q : Qos R) (id : ℤ) (delay now : ℕ) : Option (Qos R) := do
  let (lowFps, normalFps) := qualityFps F (qualityRatio F q.latestQuality)
  let bitrateFirst := q.canReduceBitrate F
  match q.user? id with
  | none => return q.adjustFps now
  | some user => do
    let (d, reduceBitrate) ← user.delay.reply F user.fpsCap lowFps normalFps delay bitrateFirst
    let first := user.delay.fps.isNone
    let q := (q.withUser id fun user => { user with delay := d }).adjustFps now
    let q ← q.adjustRatioIf F (first && q.firstReplyAdjustsRatio) now
    q.adjustRatioIf F reduceBitrate now

/-- `user_delay_response_elapsed`. -/
def userDelayResponseElapsed (q : Qos R) (id : ℤ) (elapsed now : ℕ) : Option (Qos R) :=
  match q.user? id with
  | none => some q
  | some user =>
    if elapsed ≤ 2000 then some q
    else do
      let d ← user.delay.stall user.fpsCap elapsed
      return (q.withUser id fun user => { user with delay := d }).adjustFps now

/-- `update_display_data`. -/
def updateDisplayData (q : Qos R) (name : String) (sendCounter now : ℕ) : Option (Qos R) :=
  let q :=
    (q.withDisplay name fun d => { d with sendCounter := d.sendCounter + sendCounter }).adjustFps
      now
  if q.inVbrState then
    if q.cooledDown now then
      q.adjustRatio F (q.displays.any fun d =>
        decide (adjustRatioInterval * dynamicScreenThreshold ≤ d.2.sendCounter)) now
    else some q
  else some { q with ratio := qualityRatio F q.latestQuality }

/-- The quality a number stands for, from `user_image_quality`. -/
def convertQuality (imageQuality : ℤ) : Quality R :=
  if imageQuality = 3 then .balanced
  else if imageQuality = 2 then .low
  else if imageQuality = 4 then .best
  else .custom (F.clamp (F.div (F.ofNat ((imageQuality / 256 % 4096).toNat * 2)) (F.lit 100))
    (brMin F) (brMax F))

/-- `on_connection_close`. -/
def onConnectionClose (q : Qos R) (linux : Bool) (id : ℤ) (now : ℕ) : Qos R :=
  let q := { q with users := q.users.filter (·.1 ≠ id) }
  if q.users = [] then default F linux now else q.adjustFps now

/-- One operation. -/
def step (linux : Bool) (q : Qos R) : Op → Option (Qos R)
  | .onConnectionOpen id now abr =>
    some { q with users := q.users.filter (·.1 ≠ id) ++ [(id, ⟨none, none, none, .empty, some now⟩)]
                  abrConfig := abr }
  | .onConnectionClose id now => some (q.onConnectionClose F linux id now)
  | .userCustomFps id fps =>
    if fps < minFps ∨ maxFps < fps then some q
    else some (q.withUser id fun user => { user with customFps := some fps })
  | .userAutoAdjustFps id fps =>
    if fps < minFps ∨ maxFps < fps then some q
    else some (q.withUser id fun user => { user with autoAdjustFps := some fps })
  | .userImageQuality id imageQuality time =>
    match q.user? id with
    | none => some q
    | some _ =>
      let q := q.withUser id fun user =>
        { user with quality := some (time, convertQuality F imageQuality) }
      some { q with ratio := qualityRatio F q.latestQuality }
  | .userNetworkDelay id delay now => q.userNetworkDelay F id delay now
  | .userDelayResponseElapsed id elapsed now => q.userDelayResponseElapsed id elapsed now
  | .newDisplay name =>
    some { q with displays := q.displays.filter (·.1 ≠ name) ++ [(name, ⟨0, false⟩)] }
  | .removeDisplay name => some { q with displays := q.displays.filter (·.1 ≠ name) }
  | .setSupportChangingQuality name support =>
    some (q.withDisplay name fun d => { d with supportChangingQuality := support })
  | .updateDisplayData name sendCounter now => q.updateDisplayData F name sendCounter now
  | .storeBitrate bitrate => some { q with bitrateStore := bitrate }
  | .readRatio =>
    some (if F.lt q.ratio (brMinHighResolution F) || F.lt (brMax F)
      q.ratio then { q with ratio := brBalanced F }
      else q)
  | .adjustFps now => some (q.adjustFps now)
  | .rehash before => some { q with users := q.users.mergeSort fun a b => before a.1 b.1 }

end Qos
end VideoQos
end BgDesk
