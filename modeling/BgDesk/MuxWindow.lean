import BgDesk.BytesCodec
import Mathlib.Algebra.BigOperators.Group.List.Basic

/-!
# Windows and credit of the port-forward multiplexer

`src/port_forward_mux.rs`, the accounting every channel rests on. A `data` frame
costs its channel's window its length, and at least `minFrameCharge`. The
receiver keeps what the peer may still send and what it has drained since its
last update (`RecvWindow`); the sender keeps what it may still send
(`SendCredit`).

All the counters are `u32` in the source: here they are natural numbers, with
`saturating_add`, `checked_sub` and the clamp to `maxSendCredit` written out.
-/

namespace BgDesk

/-! ## Constants of the protocol -/

/-- What the controller may have in flight on a channel before `opened`. -/
def initialWindow : ℕ := 64 * 1024

/-- The window a `data` frame costs at minimum. -/
def minFrameCharge : ℕ := 64

/-- The window both sides advertise. -/
def channelWindow : ℕ := 256 * 1024

/-- Most bytes one `data` frame carries. -/
def maxFrame : ℕ := 64 * 1024

/-- How much must have been drained before a `window_update` goes out. -/
def updateThreshold : ℕ := channelWindow / 2

/-- Channels one tunnel may have. -/
def maxChannels : ℕ := 256

/-- Clamp of the sender's credit. -/
def maxSendCredit : ℕ := channelWindow

/-- `u32::MAX`. -/
def u32Max : ℕ := 2 ^ 32 - 1

/-- `u32::saturating_add`. -/
def saturatingAdd (a b : ℕ) : ℕ := min (a + b) u32Max

/-- `effective_window`. -/
def effectiveWindow (advertised : ℕ) : ℕ := max advertised initialWindow

/-- What a `data` frame of this length costs its channel's window. -/
def charge (len : ℕ) : ℕ := max (min len u32Max) minFrameCharge

/-- What a list of frames costs. -/
def chargeAll (frames : List Bytes) : ℕ := (frames.map fun f => charge f.length).sum

@[simp] theorem chargeAll_nil : chargeAll [] = 0 := rfl

@[simp] theorem chargeAll_cons (f : Bytes) (fs : List Bytes) :
    chargeAll (f :: fs) = charge f.length + chargeAll fs := by
  simp [chargeAll]

@[simp] theorem chargeAll_append (fs gs : List Bytes) :
    chargeAll (fs ++ gs) = chargeAll fs + chargeAll gs := by
  simp [chargeAll]

/-- A frame within an allowance is charged within it. -/
theorem charge_le {len allow : ℕ} (hlen : len ≤ allow) (hmin : minFrameCharge ≤ allow) :
    charge len ≤ allow :=
  max_le (le_trans (min_le_left _ _) hlen) hmin

/-- Below `u32::MAX` the charge covers the length. -/
theorem le_charge {len : ℕ} (h : charge len < u32Max) : len ≤ charge len := by
  unfold charge at h ⊢
  rcases le_total len u32Max with hle | hge
  · rw [min_eq_left hle]
    exact le_max_left _ _
  · rw [min_eq_right hge] at h
    exact absurd (lt_of_le_of_lt (le_max_left _ _) h) (lt_irrefl _)

theorem saturatingAdd_eq {a b : ℕ} (h : a + b ≤ u32Max) : saturatingAdd a b = a + b :=
  min_eq_left h

/-! ## The receiver's window -/

/-- `RecvWindow`: the credit the peer still has, and what has been drained to the
local socket since the last `window_update`. -/
structure RecvWindow where
  remaining : ℕ
  drainedSinceUpdate : ℕ
  deriving DecidableEq

namespace RecvWindow

/-- `RecvWindow::new`. -/
def new (granted : ℕ) : RecvWindow := ⟨effectiveWindow granted, 0⟩

/-- `accept`: false means the peer overran the window, which then stays as it is. -/
def accept (w : RecvWindow) (len : ℕ) : Bool × RecvWindow :=
  if charge len ≤ w.remaining then (true, { w with remaining := w.remaining - charge len })
  else (false, w)

/-- `grant`: widens the window without advertising. -/
def grant (w : RecvWindow) (n : ℕ) : RecvWindow :=
  { w with remaining := saturatingAdd w.remaining n }

/-- `drained`: the amount to advertise once enough has been drained, which is then
credited back. -/
def drained (w : RecvWindow) (n : ℕ) : Option ℕ × RecvWindow :=
  let d := saturatingAdd w.drainedSinceUpdate (charge n)
  if d < updateThreshold then (none, { w with drainedSinceUpdate := d })
  else (some d, ⟨saturatingAdd w.remaining d, 0⟩)

@[simp] theorem grant_drainedSinceUpdate (w : RecvWindow) (n : ℕ) :
    (w.grant n).drainedSinceUpdate = w.drainedSinceUpdate := rfl

theorem accept_true {w : RecvWindow} {len : ℕ} (h : charge len ≤ w.remaining) :
    w.accept len = (true, ⟨w.remaining - charge len, w.drainedSinceUpdate⟩) := by
  rw [accept, if_pos h]

/-- `drained` without saturation: what was drained is kept, or given back in full. -/
theorem drained_cases {w : RecvWindow} {n : ℕ} (hd : w.drainedSinceUpdate + charge n ≤ u32Max)
    (hr : w.remaining + (w.drainedSinceUpdate + charge n) ≤ u32Max) :
    w.drained n = (none, ⟨w.remaining, w.drainedSinceUpdate + charge n⟩) ∨
    w.drained n = (some (w.drainedSinceUpdate + charge n),
      ⟨w.remaining + (w.drainedSinceUpdate + charge n), 0⟩) := by
  unfold drained
  rw [saturatingAdd_eq hd]
  dsimp only
  rw [saturatingAdd_eq hr]
  split_ifs
  · exact .inl rfl
  · exact .inr rfl

end RecvWindow

/-! ## The sender's credit -/

/-- `SendCredit`: the counter under its lock. The `Notify` beside it only says when
a parked `take` should look again. -/
structure SendCredit where
  credit : ℕ
  deriving DecidableEq

namespace SendCredit

/-- `SendCredit::new`. -/
def new (initial : ℕ) : SendCredit := ⟨min initial maxSendCredit⟩

/-- `take`: what it returns and leaves; `none` while it parks, with less than a whole
minimum charge there. -/
def take (c : SendCredit) (max : ℕ) : Option (ℕ × SendCredit) :=
  if minFrameCharge ≤ c.credit then some (min c.credit max, ⟨c.credit - min c.credit max⟩)
  else none

/-- `add`, clamped. -/
def add (c : SendCredit) (n : ℕ) : SendCredit :=
  ⟨min (saturatingAdd c.credit n) maxSendCredit⟩

/-- `raise_initial`: re-bases to the window `opened` advertises. -/
def raiseInitial (c : SendCredit) (total : ℕ) : SendCredit :=
  let extra := effectiveWindow total - initialWindow
  if extra > 0 then c.add extra else c

variable {c : SendCredit}

/-- What `take` hands out is at least a minimum charge, within its bound, and paid
for in full. -/
theorem take_spec {c' : SendCredit} {n : ℕ} (h : c.take maxFrame = some (n, c')) :
    minFrameCharge ≤ n ∧ n ≤ maxFrame ∧ c.credit = c'.credit + n := by
  unfold take at h
  split_ifs at h with hmin
  obtain ⟨rfl, rfl⟩ : min c.credit maxFrame = n ∧ (⟨_⟩ : SendCredit) = c' := by simpa using h
  have hmm : minFrameCharge ≤ maxFrame := by decide
  refine ⟨le_min hmin hmm, min_le_right _ _, ?_⟩
  have := min_le_left c.credit maxFrame
  dsimp only
  omega

/-- Below the clamp, `add` is addition. -/
theorem add_eq {n : ℕ} (h : c.credit + n ≤ maxSendCredit) : c.add n = ⟨c.credit + n⟩ := by
  have hu : c.credit + n ≤ u32Max := le_trans h (by decide)
  rw [add, saturatingAdd_eq hu, min_eq_left h]

theorem raiseInitial_eq {total : ℕ}
    (h : c.credit + (effectiveWindow total - initialWindow) ≤ maxSendCredit) :
    c.raiseInitial total = ⟨c.credit + (effectiveWindow total - initialWindow)⟩ := by
  unfold raiseInitial
  dsimp only
  split_ifs with hpos
  · exact add_eq h
  · have : effectiveWindow total - initialWindow = 0 := by omega
    rw [this, Nat.add_zero]

end SendCredit
end BgDesk
