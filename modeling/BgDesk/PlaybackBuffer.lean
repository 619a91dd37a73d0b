import Mathlib.Algebra.Field.Rat
import Mathlib.Data.List.ReduceOption
import BgDesk.Checked
import BgDesk.Frames

/-!
# The playback buffer

`AudioBuffer` of `client.rs` and `client/audio_playback.rs`. The decoder puts samples into a ring,
the callback of the sound card takes whole frames out of it. What the ring cannot hold any more is
discarded, and once in twelve seconds a part of what has been in it all the time. A discard moves a
generation on, so that the reader goes over smoothly to what follows.

* `AudioBuffer.appendPcm2`, `AudioBuffer.tryShrink`, `AudioBuffer.shrink` — the side of the decoder;
* `AudioPlaybackRecovery`, `AudioPlaybackWriter` — the side of the callback;
* `Mark`, `AudioBuffer.tryShrink_returns` — what the statistics choose.

Nothing is returned where the code would panic. A counter that moves by one at a time is a natural
number.
-/

namespace BgDesk
namespace Playback

variable {F : Type}

/-! ## The ring -/

/-- `ringbuf::HeapRb`. -/
structure HeapRb (F : Type) where
  capacity : ℕ
  contents : List F
  fits : contents.length ≤ capacity
  deriving DecidableEq

namespace HeapRb

def new (capacity : ℕ) : HeapRb F := ⟨capacity, [], Nat.zero_le _⟩

def occupiedLen (ring : HeapRb F) : ℕ := ring.contents.length

/-- What no longer fits in goes out at the front. -/
def pushSliceOverwrite (ring : HeapRb F) (elems : List F) : HeapRb F where
  capacity := ring.capacity
  contents := (ring.contents ++ elems).drop (ring.occupiedLen + elems.length - ring.capacity)
  fits := by
    rw [List.length_drop, List.length_append, occupiedLen]
    omega

def skip (ring : HeapRb F) (count : ℕ) : HeapRb F where
  capacity := ring.capacity
  contents := ring.contents.drop count
  fits := by
    rw [List.length_drop]
    exact Nat.le_trans (Nat.sub_le _ _) ring.fits

/-- `pop_slice` into a slice of `count` samples. -/
def popSlice (ring : HeapRb F) (count : ℕ) : List F × HeapRb F :=
  (ring.contents.take count, ring.skip count)

/-- A push fills the ring up to its capacity; the oldest samples make room. -/
theorem pushSliceOverwrite_occupiedLen (ring : HeapRb F) (elems : List F) :
    (ring.pushSliceOverwrite elems).occupiedLen = min (ring.occupiedLen + elems.length)
      ring.capacity := by
  simp only [occupiedLen, pushSliceOverwrite, List.length_drop, List.length_append]
  omega

theorem skip_occupiedLen (ring : HeapRb F) (count : ℕ) :
    (ring.skip count).occupiedLen = ring.occupiedLen - count := List.length_drop ..

end HeapRb

/-! ## The side of the decoder -/

def AUDIO_BUFFER_MS : ℕ := 3000

/-- `AudioBuffer`: the ring, the samples of a second, how often the ring was how full, and the
generation. -/
structure AudioBuffer (F : Type) where
  ring : HeapRb F
  perSecond : ℕ
  histogram : List ℕ
  generation : ℕ
  deriving DecidableEq

/-- One round of the loop of `try_shrink`, with the histogram, `zero` (here `safe`) and `max`. -/
def markStep : List ℕ × ℕ × ℕ → ℕ → Option (List ℕ × ℕ × ℕ)
  | (histogram, safe, max), i => do
    let count ← histogram[i]?
    let peak ← histogram[max]?
    let safe := if count = 0 ∧ safe = i then safe + 1 else safe
    if peak < count then some (histogram.set max 0, safe, i) else some (histogram.set i 0,
      safe, max)

/-- The loop of `try_shrink`. -/
def waterMarks (histogram : List ℕ) : Option (List ℕ × ℕ × ℕ) :=
  (List.range 30).foldlM markStep (histogram, 0, 0)

/-- The part of `try_shrink` between the clock and the lock: the histogram, and the mark it goes on
with. -/
def chooseMark (histogram : List ℕ) : Option (List ℕ × Option ℕ) := do
  let (histogram, safe, max) ← waterMarks histogram
  let safe := safe * 2 / 3
  let _ ← histogram[max]?
  let histogram := histogram.set max 0
  if max < 6 then some (histogram, none)
  else if safe * 4 < max then some (histogram, some (safe * 4))
  else some (histogram, some max)

/-- The number of samples that a shrink takes out. -/
def shrinkSkip (capacity mark : ℕ) : ℕ := (capacity * mark / (30 * 4) + 1) / 2 * 2

/-- Twelve seconds have passed since the evaluation before. -/
def due (tms now : ℤ) : Bool := tms ≠ 0 ∧ ¬ now < tms + 12000

namespace AudioBuffer

def default : AudioBuffer F where
  ring := HeapRb.new (48000 * 2 * AUDIO_BUFFER_MS / 1000)
  perSecond := 48000 * 2
  histogram := List.replicate 30 0
  generation := 0

def resize (b : AudioBuffer F) (sampleRate channels : ℕ) : AudioBuffer F :=
  let capacity := sampleRate * channels * AUDIO_BUFFER_MS / 1000
  if capacity ≠ b.ring.capacity then { b with
    ring := HeapRb.new capacity, perSecond := sampleRate * channels } else b

/-- `append_pcm2`, with what it returns and the number of samples that it discards. -/
def appendPcm2 (b : AudioBuffer F) (buffer : List F) : Option (AudioBuffer F × ℕ × ℕ) := do
  let having ← checkedAdd 64 b.ring.occupiedLen buffer.length
  let ring := b.ring.pushSliceOverwrite buffer
  if b.ring.capacity < having then
    let discarded ← checkedSub having b.ring.capacity
    some ({ b with ring, generation := b.generation + 1 }, ring.occupiedLen, discarded)
  else some ({ b with ring }, ring.occupiedLen, 0)

/-- The interval of the histogram that a level belongs to. -/
def interval (b : AudioBuffer F) (having : ℕ) : ℕ := min (having * 10 / b.perSecond) 29

/-- The beginning of `try_shrink`. -/
def record (b : AudioBuffer F) (having : ℕ) : Option (AudioBuffer F) := do
  let i ← checkedDiv (← checkedMul 64 having 10) b.perSecond
  let i := if 29 < i then 29 else i
  let count ← b.histogram[i]?
  some { b with histogram := b.histogram.set i (count + 1) }

/-- `try_shrink` up to where it takes the lock: the time of the last evaluation, and the mark it
goes on with. -/
def tryShrink (b : AudioBuffer F) (tms : ℤ) (having : ℕ) (now : ℤ) :
    Option (AudioBuffer F × ℤ × Option ℕ) := do
  let b ← b.record having
  if tms = 0 then some (b, now, none)
  else if now < tms + 12000 then some (b, tms, none)
  else do
    let (histogram, mark) ← chooseMark b.histogram
    some ({ b with histogram }, now, mark)

/-- The rest of `try_shrink`, under the lock. -/
def shrink (b : AudioBuffer F) (mark : ℕ) : Option (AudioBuffer F) := do
  let _ ← checkedMul 64 b.ring.capacity mark
  let skip := shrinkSkip b.ring.capacity mark
  let least ← checkedMul 64 skip 3
  if least < b.ring.occupiedLen ∧ 0 < skip then
    some { b with ring := b.ring.skip skip, generation := b.generation + 1 }
  else some b

end AudioBuffer

/-! ### What the statistics choose -/

/-- The histogram has an entry in the interval. -/
def Seen (histogram : List ℕ) (i : ℕ) : Prop := ∃ count, histogram[i]? = some (count + 1)

/-- The histogram after one more fill level in the interval. -/
def counted (histogram : List ℕ) (i : ℕ) : List ℕ := histogram.set i (histogram[i]?.getD 0 + 1)

/-- An interval with an entry keeps it when one more level is counted. -/
theorem Seen.counted {histogram : List ℕ} {i j : ℕ} (h : Seen histogram j)
    (hi : i < histogram.length) : Seen (counted histogram i) j := by
  obtain ⟨before, hbefore⟩ := h
  by_cases hij : i = j
  · subst hij
    exact ⟨_, List.getElem?_set_self hi⟩
  · exact ⟨before, by rwa [Playback.counted, List.getElem?_set_ne hij]⟩

variable {histogram : List ℕ}

theorem seen_counted_self {i : ℕ} (hi : i < histogram.length) : Seen (counted histogram i) i :=
  ⟨_, List.getElem?_set_self hi⟩

/-- What the loop of `try_shrink` has found before its round `i`: from there on the histogram is
still as it was. -/
structure MarksBefore (histogram : List ℕ) (i : ℕ) (marks : List ℕ × ℕ × ℕ) : Prop where
  length : marks.1.length = 30
  rest : ∀ j, i ≤ j → marks.1[j]? = histogram[j]?
  max_le : marks.2.2 ≤ i - 1
  safe_le : marks.2.1 ≤ i
  safe : ∀ j, j < marks.2.1 → ¬ Seen histogram j

/-- One round of the loop: no index is out of range, and the marks are those before the next round.
-/
theorem markStep_returns {i : ℕ} {marks : List ℕ × ℕ × ℕ} (hi : i < 30)
    (h : MarksBefore histogram i marks) :
    Returns (markStep marks i) (MarksBefore histogram (i + 1)) := by
  obtain ⟨now, safe, max⟩ := marks
  obtain ⟨hlength, hrest, hmax, hsafe, hempty⟩ := h
  simp only at hlength hrest hmax hsafe hempty
  have hcount : now[i]? = some now[i] := List.getElem?_eq_getElem (by omega)
  have hpeak : now[max]? = some now[max] := List.getElem?_eq_getElem (by omega)
  have hsafe' : (if now[i] = 0 ∧ safe = i then safe + 1 else safe) ≤ i + 1 := by
    split <;> omega
  have hempty' : ∀ j, j < (if now[i] = 0 ∧ safe = i then safe + 1 else safe) →
      ¬ Seen histogram j := by
    intro j hj
    split at hj
    · rename_i hzero
      obtain hlt | rfl := Nat.lt_succ_iff_lt_or_eq.mp hj
      · exact hempty j hlt
      · -- the interval `i` is empty, and the loop has not changed it yet
        obtain ⟨hnone, rfl⟩ := hzero
        rintro ⟨count, hseen⟩
        rw [← hrest _ le_rfl, hcount, hnone] at hseen
        cases hseen
    · exact hempty j hj
  have hkept : ∀ k, k ≤ i → ∀ j, i + 1 ≤ j → (now.set k 0)[j]? = histogram[j]? := by
    intro k hk j hj
    rw [List.getElem?_set_ne (by omega)]
    exact hrest j (by omega)
  rw [markStep, hcount, hpeak]
  simp only [Option.bind_eq_bind, Option.bind_some]
  split
  · exact returns_pure ⟨by rwa [List.length_set], hkept max (by omega), by simp, hsafe', hempty'⟩
  · exact returns_pure ⟨by rwa [List.length_set], hkept i le_rfl, by
      simp only; omega, hsafe', hempty'⟩

/-- The loop over all thirty intervals. -/
theorem waterMarks_returns (h : histogram.length = 30) :
    Returns (waterMarks histogram) (MarksBefore histogram 30) := by
  refine returns_foldlM_range ⟨h, fun _ _ => rfl, Nat.zero_le _, le_rfl, by simp⟩ ?_
  intro i marks hi hmarks
  exact markStep_returns hi hmarks

/-- The marks that the statistics can choose. -/
def Mark (mark : ℕ) : Prop := mark = 0 ∨ mark = 4 ∨ 6 ≤ mark ∧ mark < 30

instance (mark : ℕ) : Decidable (Mark mark) := inferInstanceAs (Decidable (_ ∨ _ ∨ _))

/-- The mark is at most eight thirds of the lowest interval that was seen. -/
theorem chooseMark_returns (h : histogram.length = 30) :
    Returns (chooseMark histogram) fun (histogram', mark) => histogram'.length = 30 ∧
      ∀ m, mark = some m → Mark m ∧ ∀ i, Seen histogram i → 3 * m ≤ 8 * i := by
  refine (waterMarks_returns h).bind ?_
  rintro ⟨after, safe, max⟩ ⟨hlength, -, hmax, hsafe, hempty⟩
  simp only at hlength hmax hsafe hempty
  have hpeak := List.getElem?_eq_getElem (l := after) (show max < after.length by omega)
  have hlength' : (after.set max 0).length = 30 := by rwa [List.length_set]
  have hbelow : ∀ i, Seen histogram i → safe ≤ i := fun i hi => Nat.le_of_not_lt fun hlt =>
    hempty i hlt hi
  simp only [hpeak, Option.bind_eq_bind, Option.bind_some]
  split
  · exact returns_pure ⟨hlength', nofun⟩
  · split
    · refine returns_pure ⟨hlength', ?_⟩
      rintro _ ⟨⟩
      refine ⟨by rw [Mark]; omega, ?_⟩
      intro i hi
      have := hbelow i hi
      omega
    · refine returns_pure ⟨hlength', ?_⟩
      rintro _ ⟨⟩
      refine ⟨by rw [Mark]; omega, ?_⟩
      intro i hi
      have := hbelow i hi
      omega

namespace AudioBuffer

/-- The ring holds three seconds, and the histogram has thirty intervals. -/
structure Fit (b : AudioBuffer F) : Prop where
  perSecond_pos : 0 < b.perSecond
  perSecond_lt : b.perSecond < 2 ^ 48
  capacity : b.ring.capacity = 3 * b.perSecond
  intervals : b.histogram.length = 30

variable {b : AudioBuffer F} {having mark : ℕ}

theorem Fit.occupiedLen_le (hb : b.Fit) : b.ring.occupiedLen ≤ 3 * b.perSecond := by
  rw [← hb.capacity]
  exact b.ring.fits

/-- The sum of the lengths does not overflow. -/
theorem appendPcm2_eq {buffer : List F} (hb : b.ring.occupiedLen + buffer.length < 2 ^ 64) :
    b.appendPcm2 buffer = some
      ({ b with
          ring := b.ring.pushSliceOverwrite buffer
          generation := if b.ring.capacity < b.ring.occupiedLen + buffer.length then b.generation +
            1 else b.generation },
        (b.ring.pushSliceOverwrite buffer).occupiedLen,
          b.ring.occupiedLen + buffer.length - b.ring.capacity) := by
  simp only [appendPcm2, checkedAdd, if_pos hb, Option.bind_eq_bind, Option.bind_some]
  split
  · rename_i hover
    simp only [checkedSub, if_pos (Nat.le_of_lt hover), Option.bind_some]
  · rename_i hover
    rw [Nat.sub_eq_zero_of_le (Nat.le_of_not_lt hover)]

theorem interval_lt (hb : b.Fit) (having : ℕ) : b.interval having < b.histogram.length := by
  rw [hb.intervals, interval]
  omega

/-- The interval of a level that the ring can have is in the histogram. -/
theorem record_eq (hb : b.Fit) (h : having ≤ b.ring.capacity) :
    b.record having = some { b with histogram := counted b.histogram (b.interval having) } := by
  have hsmall := hb.perSecond_lt
  have hcapacity := hb.capacity
  have hi : (if 29 < having * 10 / b.perSecond then 29 else having * 10 / b.perSecond) =
      b.interval having := by
    rw [interval]
    split <;> omega
  have hcount := List.getElem?_eq_getElem (interval_lt hb having)
  simp only [record, checkedMul, if_pos (show having * 10 < 2 ^ 64 by omega), checkedDiv,
    if_neg (Nat.ne_of_gt hb.perSecond_pos), Option.bind_eq_bind, Option.bind_some, hi, hcount,
      counted, Option.getD_some]

/-- What `try_shrink` does before it takes the lock. -/
theorem tryShrink_eq {tms now : ℤ} (hb : b.Fit) (h : having ≤ b.ring.capacity) :
    b.tryShrink tms having now =
      if due tms now then
        (chooseMark (counted b.histogram (b.interval having))).map fun (histogram, mark) =>
          ({ b with histogram }, now, mark)
      else
        some ({ b with histogram := counted b.histogram (b.interval having) },
          if tms = 0 then now else tms, none) := by
  rw [tryShrink, record_eq hb h, due]
  simp only [Option.bind_eq_bind, Option.bind_some]
  by_cases htms : tms = 0
  · simp [htms]
  · by_cases hnow : now < tms + 12000
    · simp [htms, hnow]
    · simp only [htms, hnow, if_false, ne_eq, not_false_eq_true, and_self, decide_true, if_true]
      cases chooseMark (counted b.histogram (b.interval having)) <;> rfl

theorem Fit.counted {b : AudioBuffer F} (hb : b.Fit) (i : ℕ) :
    Fit { b with histogram := counted b.histogram i } where
  perSecond_pos := hb.perSecond_pos
  perSecond_lt := hb.perSecond_lt
  capacity := hb.capacity
  intervals := by
    rw [Playback.counted, List.length_set]
    exact hb.intervals

/-- Only an evaluation leads to a mark, and then to one for the levels that were seen. -/
theorem tryShrink_returns {tms now : ℤ} (hb : b.Fit) (h : having ≤ b.ring.capacity) :
    Returns (b.tryShrink tms having now) fun (b', _, mark) =>
      (∃ histogram, b' = { b with histogram }) ∧ b'.Fit ∧
        (due tms now = false → mark = none ∧
          ∀ i, i = b.interval having ∨ Seen b.histogram i → Seen b'.histogram i) ∧
        ∀ m, mark = some m → Mark m ∧ ∀ i, i = b.interval having ∨ Seen b.histogram i →
          3 * m ≤ 8 * i := by
  have hseen : ∀ i, i = b.interval having ∨ Seen b.histogram i →
      Seen (Playback.counted b.histogram (b.interval having)) i := by
    rintro i (rfl | hseen)
    · exact seen_counted_self (interval_lt hb having)
    · exact hseen.counted (interval_lt hb having)
  rw [tryShrink_eq hb h]
  split
  · rename_i hdue
    obtain ⟨⟨histogram, mark⟩, hchoice, hlength, hmark⟩ :=
      chooseMark_returns (hb.counted (b.interval having)).intervals
    simp only at hchoice
    rw [hchoice]
    refine returns_pure ⟨⟨_, rfl⟩, ⟨hb.perSecond_pos, hb.perSecond_lt, hb.capacity, hlength⟩, ?_,
      ?_⟩
    · intro hquiet
      rw [hdue] at hquiet
      cases hquiet
    · intro m hm
      exact ⟨(hmark m hm).1, fun i hi => (hmark m hm).2 i (hseen i hi)⟩
  · exact returns_pure ⟨⟨_, rfl⟩, hb.counted _, fun _ => ⟨rfl, hseen⟩, nofun⟩

/-- The ring holds three seconds, so a step of the mark is a fortieth of a second, rounded to an
even number. -/
theorem Fit.shrinkSkip_eq (hb : b.Fit) (mark : ℕ) :
    shrinkSkip b.ring.capacity mark = (b.perSecond * mark / 40 + 1) / 2 * 2 := by
  rw [shrinkSkip, hb.capacity, Nat.mul_assoc, Nat.mul_div_mul_left _ 40 (by decide : 0 < 3)]

theorem Fit.shrinkSkip_lt (hb : b.Fit) (hmark : Mark mark) :
    shrinkSkip b.ring.capacity mark < 2 ^ 53 := by
  have hproduct : b.perSecond * mark ≤ 2 ^ 48 * 30 :=
    Nat.mul_le_mul (Nat.le_of_lt hb.perSecond_lt) (by rw [Mark] at hmark; omega)
  rw [hb.shrinkSkip_eq]
  omega

/-- A shrink never takes out more than two thirds of a level that its mark is right for, and one
sample. -/
theorem Fit.shrinkSkip_le (hb : b.Fit) {level : ℕ} (h : 3 * mark ≤ 8 * b.interval level) :
    3 * shrinkSkip b.ring.capacity mark ≤ 2 * level + 3 := by
  have hlevel : b.perSecond * b.interval level ≤ level * 10 :=
    Nat.le_trans (Nat.mul_le_mul_left _ (Nat.min_le_left ..)) (Nat.mul_div_le ..)
  have hmark : b.perSecond * (3 * mark) ≤ b.perSecond * (8 * b.interval level) :=
    Nat.mul_le_mul_left _ h
  rw [Nat.mul_left_comm, Nat.mul_left_comm _ 8] at hmark
  rw [hb.shrinkSkip_eq]
  omega

/-- Neither product overflows for a mark that the statistics can choose. -/
theorem shrink_eq (hb : b.Fit) (hmark : Mark mark) : b.shrink mark = some
      (if shrinkSkip b.ring.capacity mark * 3 < b.ring.occupiedLen ∧
        0 < shrinkSkip b.ring.capacity mark then
        { b with
          ring := b.ring.skip (shrinkSkip b.ring.capacity mark), generation := b.generation + 1 }
      else b) := by
  have hproduct : b.ring.capacity * mark < 2 ^ 64 := by
    have h : b.perSecond * mark ≤ 2 ^ 48 * 30 :=
      Nat.mul_le_mul (Nat.le_of_lt hb.perSecond_lt) (by rw [Mark] at hmark; omega)
    rw [hb.capacity, Nat.mul_assoc]
    omega
  have hskip := hb.shrinkSkip_lt hmark
  have hleast : shrinkSkip b.ring.capacity mark * 3 < 2 ^ 64 := by omega
  simp only [shrink, checkedMul, if_pos hproduct, if_pos hleast, Option.bind_eq_bind,
    Option.bind_some]
  split <;> rfl

end AudioBuffer

/-! ## The side of the callback -/

def UNDERRUN_DECLICK_MS : ℕ := 5

structure AudioPlaybackConfig where
  sampleRate : ℕ
  channels : ℕ
  deriving DecidableEq

inductive AudioPlaybackError where
  | invalidConfig : AudioPlaybackConfig → AudioPlaybackError
  | incompleteFrame : (samples channels : ℕ) → AudioPlaybackError
  | frameCountOverflow : AudioPlaybackError
  deriving DecidableEq

structure AudioPlaybackRecovery (F : Type) where
  channels : ℕ
  transitionFrames : ℕ
  transitionFrame : ℕ
  hadInput : Bool
  transitionStart : List F
  outputFrame : List F
  deriving DecidableEq

/-- `copy_from_slice`, which panics if the lengths differ. -/
def copyFromSlice (target source : List F) : Option (List F) :=
  if target.length = source.length then some source else none

/-- The slice from `start` to `stop`. -/
def slice (l : List F) (start stop : ℕ) : Option (List F) :=
  if start ≤ stop ∧ stop ≤ l.length then some ((l.drop start).take (stop - start)) else none

namespace AudioPlaybackRecovery

def new [Zero F] (config : AudioPlaybackConfig) :
    Except AudioPlaybackError (AudioPlaybackRecovery F) :=
  if config.sampleRate = 0 ∨ config.channels = 0 then .error (.invalidConfig config)
  else match checkedMul 64 config.sampleRate UNDERRUN_DECLICK_MS with
    | none => .error .frameCountOverflow
    | some product =>
      let transitionFrames := product / 1000
      if transitionFrames = 0 then .error (.invalidConfig config)
      else .ok {
        channels := config.channels
        transitionFrames := transitionFrames
        transitionFrame := transitionFrames
        hadInput := false
        transitionStart := List.replicate config.channels 0
        outputFrame := List.replicate config.channels 0 }

def beginDiscontinuity (r : AudioPlaybackRecovery F) : Option (AudioPlaybackRecovery F) := do
  let start ← copyFromSlice r.transitionStart r.outputFrame
  some { r with transitionStart := start, transitionFrame := 0 }

def beginTransition (r : AudioPlaybackRecovery F) (hasInput : Bool) :
    Option (AudioPlaybackRecovery F) :=
  if hasInput = r.hadInput then some r
  else do
    let r ← r.beginDiscontinuity
    some { r with hadInput := hasInput }

section

variable [Zero F] [One F] [Add F] [Sub F] [Mul F] [Div F] [NatCast F]

def advanceTransition (r : AudioPlaybackRecovery F) : AudioPlaybackRecovery F × F :=
  if r.transitionFrames ≤ r.transitionFrame then (r, 1)
  else ({ r with transitionFrame := r.transitionFrame + 1 },
    ((r.transitionFrame + 1 : ℕ) : F) / (r.transitionFrames : F))

/-- What `process_frame` computes for one channel. -/
def sample (r : AudioPlaybackRecovery F) (input : Option (List F)) (weight : F) (channel : ℕ) :
    Option F := do
  let target ← match input with
    | none => some 0
    | some frame => frame[channel]?
  let start ← r.transitionStart[channel]?
  let _ ← r.outputFrame[channel]?
  some (start * (1 - weight) + target * weight)

def processFrame (r : AudioPlaybackRecovery F) (input : Option (List F)) :
    Option (Except AudioPlaybackError (AudioPlaybackRecovery F)) :=
  if input.any fun frame => frame.length ≠ r.channels then
    some (.error (.incompleteFrame (input.elim 0 List.length) r.channels))
  else do
    let r ← r.beginTransition input.isSome
    let (r, weight) := r.advanceTransition
    let samples ← (List.range r.channels).mapM (r.sample input weight)
    some (.ok { r with outputFrame := samples ++ r.outputFrame.drop r.channels })

end

/-- The two frames have a sample for every channel. -/
structure Fit (r : AudioPlaybackRecovery F) : Prop where
  transitionStart : r.transitionStart.length = r.channels
  outputFrame : r.outputFrame.length = r.channels

variable {r : AudioPlaybackRecovery F}

/-- A stream has at least two hundred frames a second, and a channel. -/
theorem new_ok [Zero F] {config : AudioPlaybackConfig} (h : new config = .ok r) :
    200 ≤ config.sampleRate ∧ 0 < config.channels ∧ r.channels = config.channels ∧ r.Fit := by
  unfold new at h
  split at h
  · cases h
  · rename_i hpositive
    split at h
    · cases h
    · rename_i product hproduct
      obtain ⟨-, hvalue⟩ := Option.ite_none_right_eq_some.mp hproduct
      obtain rfl := Option.some.inj hvalue
      simp only at h
      split at h
      · cases h
      · rename_i hframes
        obtain rfl := Except.ok.inj h
        rw [UNDERRUN_DECLICK_MS] at hframes
        exact ⟨by omega, by omega, rfl, ⟨List.length_replicate, List.length_replicate⟩⟩

theorem exists_new_ok [Zero F] {config : AudioPlaybackConfig} (hrate : 200 ≤ config.sampleRate)
    (hsmall : config.sampleRate < 2 ^ 32) (hchannels : 0 < config.channels) :
    ∃ r : AudioPlaybackRecovery F, new config = .ok r := by
  have hproduct : config.sampleRate * UNDERRUN_DECLICK_MS < 2 ^ 64 := by
    rw [UNDERRUN_DECLICK_MS]
    omega
  have hframes : config.sampleRate * UNDERRUN_DECLICK_MS / 1000 ≠ 0 := by
    rw [UNDERRUN_DECLICK_MS]
    omega
  simp only [new, if_neg (show ¬ (config.sampleRate = 0 ∨ config.channels = 0) by omega),
    checkedMul, if_pos hproduct,
    if_neg hframes]
  exact ⟨_, rfl⟩

/-- The two frames have one length, so that the copy does not panic. -/
theorem beginDiscontinuity_eq (hr : r.Fit) : r.beginDiscontinuity =
      some { r with transitionStart := r.outputFrame, transitionFrame := 0 } := by
  rw [beginDiscontinuity, copyFromSlice, if_pos (hr.transitionStart.trans hr.outputFrame.symm)]
  rfl

theorem beginTransition_returns (hr : r.Fit) (hasInput : Bool) :
    Returns (r.beginTransition hasInput) fun r' => r'.Fit ∧ r'.channels = r.channels := by
  rw [beginTransition]
  split
  · exact returns_pure ⟨hr, rfl⟩
  · rw [beginDiscontinuity_eq hr]
    exact returns_pure ⟨⟨hr.outputFrame, hr.outputFrame⟩, rfl⟩

theorem advanceTransition_fit [One F] [Div F] [NatCast F] (hr : r.Fit) :
    r.advanceTransition.1.Fit ∧ r.advanceTransition.1.channels = r.channels := by
  rw [advanceTransition]
  split
  · exact ⟨hr, rfl⟩
  · exact ⟨⟨hr.transitionStart, hr.outputFrame⟩, rfl⟩

/-- No channel is read beyond the end of a frame. -/
theorem sample_returns [Zero F] [One F] [Add F] [Sub F] [Mul F] (hr : r.Fit)
    {input : Option (List F)} (hinput : ∀ frame, input = some frame → frame.length = r.channels)
    (weight : F) {channel : ℕ} (h : channel < r.channels) :
    Returns (r.sample input weight channel) fun _ => True := by
  have hstart := List.getElem?_eq_getElem (l := r.transitionStart) (hr.transitionStart.symm ▸ h)
  have houtput := List.getElem?_eq_getElem (l := r.outputFrame) (hr.outputFrame.symm ▸ h)
  cases input with
  | none =>
    simp only [sample, hstart, houtput]
    exact ⟨_, rfl, trivial⟩
  | some frame =>
    have hframe := List.getElem?_eq_getElem (l := frame) ((hinput frame rfl).symm ▸ h)
    simp only [sample, hframe, hstart, houtput]
    exact ⟨_, rfl, trivial⟩

section

variable [Zero F] [One F] [Add F] [Sub F] [Mul F] [Div F] [NatCast F]

/-- A frame with a sample for every channel is processed. -/
theorem processFrame_returns {r : AudioPlaybackRecovery F} (hr : r.Fit) {input : Option (List F)}
    (hinput : ∀ frame, input = some frame → frame.length = r.channels) :
    Returns (r.processFrame input) fun result =>
      ∃ r', result = .ok r' ∧ r'.Fit ∧ r'.channels = r.channels := by
  have hwhole : ¬ (input.any fun frame => frame.length ≠ r.channels) = true := by
    cases input with
    | none => exact Bool.false_ne_true
    | some frame => simp [hinput frame rfl]
  rw [processFrame, if_neg hwhole]
  refine (beginTransition_returns hr _).bind ?_
  rintro r₁ ⟨hfit₁, hchannels₁⟩
  have hfit₂ := advanceTransition_fit hfit₁
  rcases hadvance : r₁.advanceTransition with ⟨r₂, weight⟩
  rw [hadvance] at hfit₂
  obtain ⟨hfit₂, hchannels₂⟩ := hfit₂
  have hchannels := hchannels₂.trans hchannels₁
  rw [← hchannels] at hinput
  have hsamples : Returns ((List.range r₂.channels).mapM (r₂.sample input weight)) fun samples =>
      samples.length = (List.range r₂.channels).length :=
    returns_mapM_length fun channel h => sample_returns hfit₂ hinput weight (List.mem_range.mp h)
  refine hsamples.bind ?_
  intro samples hlength
  rw [List.length_range] at hlength
  refine returns_pure ⟨_, rfl, ⟨hfit₂.transitionStart, ?_⟩, hchannels⟩
  rw [List.length_append, List.length_drop, hlength, hfit₂.outputFrame]
  exact Nat.add_sub_of_le le_rfl

end

end AudioPlaybackRecovery

/-- `AudioPlaybackStatus`, without the throttle of its log. -/
structure AudioPlaybackStatus where
  ready : Bool
  contentions : ℕ
  bufferPoisoned : Bool
  deriving DecidableEq

structure AudioPlaybackWriter (F : Type) where
  observedDiscontinuityGeneration : ℕ
  bufferedInput : List F
  recovery : AudioPlaybackRecovery F
  status : AudioPlaybackStatus
  bufferFailed : Bool
  deriving DecidableEq

/-- What `try_lock` answers. -/
inductive TryLock where
  | acquired
  | wouldBlock
  | poisoned
  deriving DecidableEq

namespace AudioPlaybackWriter

def new [Zero F] (config : AudioPlaybackConfig) (b : AudioBuffer F) :
    Except AudioPlaybackError (AudioPlaybackWriter F) := do
  let recovery ← AudioPlaybackRecovery.new config
  .ok {
    observedDiscontinuityGeneration := b.generation
    bufferedInput := List.replicate b.ring.capacity 0
    recovery := recovery
    status := ⟨false, 0, false⟩
    bufferFailed := false }

/-- The reading of `read_buffer` with the lock. -/
def readLocked (w : AudioPlaybackWriter F) (b : AudioBuffer F) (requested : ℕ) :
    Option (AudioBuffer F × AudioPlaybackWriter F × ℕ) := do
  let samples := (← checkedDiv (min b.ring.occupiedLen requested) w.recovery.channels) *
    w.recovery.channels
  let _ ← slice w.bufferedInput 0 samples
  let (popped, ring) := b.ring.popSlice samples
  let w := { w with bufferedInput := popped ++ w.bufferedInput.drop popped.length }
  let b' := { b with ring }
  if b.generation ≠ w.observedDiscontinuityGeneration then
    let recovery ← w.recovery.beginDiscontinuity
    some (b', { w with recovery, observedDiscontinuityGeneration := b.generation }, samples)
  else some (b', w, samples)

/-- `read_buffer`. -/
def readBuffer (w : AudioPlaybackWriter F) (b : AudioBuffer F) (lock : TryLock) (requested : ℕ) :
    Option (AudioBuffer F × AudioPlaybackWriter F × ℕ) :=
  if w.bufferFailed then some (b, w, 0)
  else match lock with
    | .acquired => w.readLocked b requested
    | .wouldBlock =>
      some (b, { w with status := { w.status with contentions := w.status.contentions + 1 } }, 0)
    | .poisoned =>
      some (b,
        { w with
          bufferFailed := true, status :=
            { w.status with ready := false, bufferPoisoned := true } }, 0)

/-- The frame that `write_output` hands on for the place `frameIndex`. -/
def input (w : AudioPlaybackWriter F) (availableFrames frameIndex : ℕ) : Option (Option (List F)) :=
  if frameIndex < availableFrames then do
    let start := frameIndex * w.recovery.channels
    let frame ← slice w.bufferedInput start (start + w.recovery.channels)
    some (some frame)
  else some none

section

variable [Zero F] [One F] [Add F] [Sub F] [Mul F] [Div F] [NatCast F]

/-- One round of the loop of `write_output`: the recovery, and what has been written. -/
def play : AudioPlaybackRecovery F × List (List F) → Option (List F) →
      Option (AudioPlaybackRecovery F × List (List F))
  | (r, output), input => do
    match ← r.processFrame input with
    | .ok r => some (r, output ++ [r.outputFrame])
    | .error _ => some (r, output ++ [List.replicate r.channels 0])

/-- The store at the beginning of `write_output`. -/
def storeReady (w : AudioPlaybackWriter F) : AudioPlaybackWriter F :=
  { w with status := { w.status with ready := !w.bufferFailed } }

/-- `write_output` for `outputLen` samples, before they are converted: what it changes, the frames
that it handed to `process_frame`, and what it wrote. -/
def writeOutput (w : AudioPlaybackWriter F) (b : AudioBuffer F) (lock : TryLock) (outputLen : ℕ) :
    Option (AudioBuffer F × AudioPlaybackWriter F × List (List F) × List (List F)) := do
  let w := w.storeReady
  let (b, w, availableSamples) ← w.readBuffer b lock (min outputLen w.bufferedInput.length)
  let availableFrames ← checkedDiv availableSamples w.recovery.channels
  let inputs ← (List.range ((outputLen + w.recovery.channels - 1) / w.recovery.channels)).mapM
    (w.input availableFrames)
  let (recovery, output) ← inputs.foldlM play (w.recovery, [])
  some (b, { w with recovery }, inputs.reduceOption, output)

end

/-- A call of `read_buffer` that gets the lock. -/
def Reads (w : AudioPlaybackWriter F) (lock : TryLock) : Prop :=
  w.bufferFailed = false ∧ lock = .acquired

instance (w : AudioPlaybackWriter F) (lock : TryLock) : Decidable (w.Reads lock) :=
  inferInstanceAs (Decidable (_ ∧ _))

/-- The samples that `read_buffer` takes. -/
def taken (w : AudioPlaybackWriter F) (b : AudioBuffer F) (lock : TryLock) (requested : ℕ) : ℕ :=
  if w.Reads lock then min b.ring.occupiedLen requested / w.recovery.channels *
    w.recovery.channels else 0

/-- The buffer for the input is as long as the ring, and the recovery fits the frames. -/
structure Fit (w : AudioPlaybackWriter F) (b : AudioBuffer F) : Prop where
  channels_pos : 0 < w.recovery.channels
  bufferedInput : w.bufferedInput.length = b.ring.capacity
  recovery : w.recovery.Fit

/-- The transition begins anew, from what was written last. -/
def Restarted (w w' : AudioPlaybackWriter F) : Prop :=
  w'.recovery.transitionFrame = 0 ∧ w'.recovery.transitionStart = w.recovery.outputFrame

/-- Whole frames are taken. -/
theorem dvd_taken (w : AudioPlaybackWriter F) (b : AudioBuffer F) (lock : TryLock) (requested : ℕ) :
    w.recovery.channels ∣ w.taken b lock requested := by
  rw [taken]
  split
  · exact Nat.dvd_mul_left ..
  · exact Nat.dvd_zero ..

theorem taken_le_requested (w : AudioPlaybackWriter F) (b : AudioBuffer F) (lock : TryLock)
    (requested : ℕ) : w.taken b lock requested ≤ requested := by
  rw [taken]
  split
  · exact Nat.le_trans (Nat.div_mul_le_self ..) (Nat.min_le_right ..)
  · exact Nat.zero_le _

/-- What `read_buffer` does to the ring and to the writer. -/
structure Read (w : AudioPlaybackWriter F) (b : AudioBuffer F) (lock : TryLock) (requested : ℕ)
    (result : AudioBuffer F × AudioPlaybackWriter F × ℕ) : Prop where
  samples : result.2.2 = w.taken b lock requested
  buffer : result.1 = { b with ring := b.ring.skip (w.taken b lock requested) }
  input : result.2.1.bufferedInput.take (w.taken b lock requested) =
    b.ring.contents.take (w.taken b lock requested)
  fit : result.2.1.Fit b
  channels : result.2.1.recovery.channels = w.recovery.channels
  observed : result.2.1.observedDiscontinuityGeneration =
    if w.Reads lock then b.generation else w.observedDiscontinuityGeneration
  restarted : w.Reads lock → b.generation ≠ w.observedDiscontinuityGeneration →
    w.Restarted result.2.1

variable {w : AudioPlaybackWriter F} {availableFrames : ℕ}

/-- With the lock, and a buffer that has not failed: no panic, and what `Read` says. -/
theorem readLocked_returns {b : AudioBuffer F} {lock : TryLock} {requested : ℕ} (hw : w.Fit b)
    (hreads : w.Reads lock) : Returns (w.readLocked b requested) (w.Read b lock requested) := by
  have htaken : min b.ring.occupiedLen requested / w.recovery.channels * w.recovery.channels =
      w.taken b lock requested := by
    rw [taken, if_pos hreads]
  have hoccupied : w.taken b lock requested ≤ b.ring.contents.length := by
    rw [← htaken]
    exact Nat.le_trans (Nat.div_mul_le_self ..) (Nat.min_le_left ..)
  have hroom : w.taken b lock requested ≤ w.bufferedInput.length := by
    rw [hw.bufferedInput]
    exact hoccupied.trans b.ring.fits
  have hpopped : (b.ring.contents.take (w.taken b lock requested)).length =
    w.taken b lock requested :=
    List.length_take_of_le hoccupied
  have hinput :
    (b.ring.contents.take (w.taken b lock requested) ++
      w.bufferedInput.drop (w.taken b lock requested)).length =
      b.ring.capacity := by
    rw [List.length_append, hpopped, List.length_drop, ← hw.bufferedInput]
    exact Nat.add_sub_of_le hroom
  refine (checkedDiv_returns hw.channels_pos).bind ?_
  rintro _ rfl
  simp only [htaken, slice, if_pos (And.intro (Nat.zero_le _) hroom), HeapRb.popSlice, hpopped,
    Option.bind_eq_bind, Option.bind_some]
  split
  · rw [AudioPlaybackRecovery.beginDiscontinuity_eq hw.recovery]
    refine returns_pure ⟨rfl, rfl, ?_, ⟨hw.channels_pos, hinput,
      ⟨hw.recovery.outputFrame, hw.recovery.outputFrame⟩⟩, rfl,
      ?_, ?_⟩
    · exact List.take_left' hpopped
    · rw [if_pos hreads]
    · exact fun _ _ => ⟨rfl, rfl⟩
  · rename_i hsame
    refine returns_pure ⟨rfl, rfl, ?_, ⟨hw.channels_pos, hinput, hw.recovery⟩, rfl, ?_, ?_⟩
    · exact List.take_left' hpopped
    · rw [if_pos hreads]
      exact (not_not.mp hsame).symm
    · exact fun _ hdiffer => absurd hdiffer hsame

/-- The same whatever becomes of the lock. -/
theorem readBuffer_returns {b : AudioBuffer F} {lock : TryLock} {requested : ℕ} (hw : w.Fit b) :
    Returns (w.readBuffer b lock requested) (w.Read b lock requested) := by
  by_cases hreads : w.Reads lock
  · have hread : w.readBuffer b lock requested = w.readLocked b requested := by
      simp [readBuffer, hreads.1, hreads.2]
    rw [hread]
    exact readLocked_returns hw hreads
  · have htaken : w.taken b lock requested = 0 := by rw [taken, if_neg hreads]
    have hnothing : ∀ w' : AudioPlaybackWriter F, w'.bufferedInput = w.bufferedInput →
      w'.recovery = w.recovery →
        w'.observedDiscontinuityGeneration = w.observedDiscontinuityGeneration →
          w.Read b lock requested (b, w', 0) := by
      intro w' hinput hrecovery hobserved
      refine ⟨htaken.symm, ?_, ?_, ⟨?_, ?_, ?_⟩, ?_, ?_, fun h => absurd h hreads⟩
      · rw [htaken]
        rfl
      · rw [htaken, List.take_zero, List.take_zero]
      · simpa only [hrecovery] using hw.channels_pos
      · simpa only [hinput] using hw.bufferedInput
      · simpa only [hrecovery] using hw.recovery
      · simp only [hrecovery]
      · rw [if_neg hreads]
        exact hobserved
    unfold readBuffer
    split
    · exact returns_pure (hnothing w rfl rfl rfl)
    · rename_i hfailed
      cases lock with
      | acquired => exact absurd ⟨Bool.eq_false_iff.mpr hfailed, rfl⟩ hreads
      | wouldBlock => exact returns_pure (hnothing _ rfl rfl rfl)
      | poisoned => exact returns_pure (hnothing _ rfl rfl rfl)

/-- What `write_output` does to the ring and to the writer, and what it hands to `process_frame`. -/
structure Wrote (w : AudioPlaybackWriter F) (b : AudioBuffer F) (lock : TryLock) (requested : ℕ)
    (result : AudioBuffer F × AudioPlaybackWriter F × List (List F) × List (List F)) : Prop where
  buffer : result.1 = { b with ring := b.ring.skip (w.taken b lock requested) }
  handed :
    result.2.2.1 = frames w.recovery.channels (b.ring.contents.take (w.taken b lock requested))
  fit : result.2.1.Fit b
  channels : result.2.1.recovery.channels = w.recovery.channels
  observed : result.2.1.observedDiscontinuityGeneration =
    if w.Reads lock then b.generation else w.observedDiscontinuityGeneration

/-- The frame at a place, where it lies in the buffer. -/
def frameAt (w : AudioPlaybackWriter F) (availableFrames i : ℕ) : Option (List F) :=
  if i < availableFrames then some ((w.bufferedInput.drop (i * w.recovery.channels)).take
    w.recovery.channels) else none

theorem input_eq (h : availableFrames * w.recovery.channels ≤ w.bufferedInput.length) (i : ℕ) :
    w.input availableFrames i = some (w.frameAt availableFrames i) := by
  rw [input, frameAt]
  split
  · rename_i hi
    have hend : (i + 1) * w.recovery.channels ≤ availableFrames * w.recovery.channels :=
      Nat.mul_le_mul_right _ hi
    rw [Nat.add_mul, Nat.one_mul] at hend
    simp only [slice, if_pos (And.intro (Nat.le_add_right ..) (hend.trans h)),
      Nat.add_sub_cancel_left]
    rfl
  · rfl

theorem length_of_frameAt {i : ℕ} {frame : List F}
    (h : availableFrames * w.recovery.channels ≤ w.bufferedInput.length)
    (hframe : w.frameAt availableFrames i = some frame) : frame.length = w.recovery.channels := by
  rw [frameAt] at hframe
  split at hframe
  · rename_i hi
    have hend : (i + 1) * w.recovery.channels ≤ availableFrames * w.recovery.channels :=
      Nat.mul_le_mul_right _ hi
    rw [Nat.add_mul, Nat.one_mul] at hend
    obtain rfl := Option.some.inj hframe
    rw [List.length_take, List.length_drop]
    omega
  · cases hframe

/-- The frames that are handed on are those at the front of the buffer. -/
theorem reduceOption_frameAt {count : ℕ} (hchannels : 0 < w.recovery.channels)
    (h : availableFrames * w.recovery.channels ≤ w.bufferedInput.length)
    (hcount : availableFrames ≤ count) :
    ((List.range count).map (w.frameAt availableFrames)).reduceOption =
      frames w.recovery.channels (w.bufferedInput.take
        (availableFrames * w.recovery.channels)) := by
  obtain ⟨rest, rfl⟩ := Nat.exists_eq_add_of_le hcount
  rw [List.range_add, List.map_append, List.reduceOption_append, ← frames_take_eq hchannels h]
  have hfirst : (List.range availableFrames).map (w.frameAt availableFrames) =
      ((List.range availableFrames).map fun i =>
        (w.bufferedInput.drop (i * w.recovery.channels)).take w.recovery.channels).map some := by
    rw [List.map_map]
    apply List.map_congr_left
    intro i hi
    rw [frameAt, if_pos (List.mem_range.mp hi)]
    rfl
  have hlast : ((List.range rest).map (availableFrames + ·)).map (w.frameAt availableFrames) =
      List.replicate rest none := by
    rw [List.map_map]
    refine List.eq_replicate_iff.mpr ⟨by rw [List.length_map, List.length_range], ?_⟩
    intro frame hframe
    obtain ⟨i, -, rfl⟩ := List.mem_map.mp hframe
    rw [Function.comp_apply, frameAt, if_neg (by omega)]
  rw [hfirst, hlast, List.reduceOption_replicate_none, List.append_nil, List.reduceOption,
    List.filterMap_map]
  exact List.filterMap_some

section

variable [Zero F] [One F] [Add F] [Sub F] [Mul F] [Div F] [NatCast F]

theorem play_returns {channels : ℕ} {played : AudioPlaybackRecovery F × List (List F)}
    {input : Option (List F)} (h : played.1.Fit ∧ played.1.channels = channels)
    (hinput : ∀ frame, input = some frame → frame.length = channels) :
    Returns (play played input) fun played => played.1.Fit ∧ played.1.channels = channels := by
  obtain ⟨r, output⟩ := played
  obtain ⟨hfit, rfl⟩ := h
  refine (AudioPlaybackRecovery.processFrame_returns hfit hinput).bind ?_
  rintro _ ⟨r', rfl, hfit', hchannels'⟩
  exact returns_pure ⟨hfit', hchannels'⟩

/-- **One callback** returns, whatever becomes of the lock, and does what `Wrote` says. -/
theorem writeOutput_returns {w : AudioPlaybackWriter F} {b : AudioBuffer F} {lock : TryLock}
    {outputLen : ℕ} (hw : w.Fit b) : Returns (w.writeOutput b lock outputLen)
      (w.Wrote b lock (min outputLen w.bufferedInput.length)) := by
  have hready : w.storeReady.Fit b := ⟨hw.channels_pos, hw.bufferedInput, hw.recovery⟩
  refine (readBuffer_returns hready).bind ?_
  rintro ⟨b₁, w₁, samples⟩ ⟨hsamples, hbuffer, hinput, hfit, hchannels, hobserved, -⟩
  -- the status has no part in what is read
  change samples = w.taken b lock (min outputLen w.bufferedInput.length) at hsamples
  change b₁ =
    { b with
      ring := b.ring.skip (w.taken b lock (min outputLen w.bufferedInput.length)) } at hbuffer
  change w₁.bufferedInput.take (w.taken b lock (min outputLen w.bufferedInput.length)) =
    b.ring.contents.take (w.taken b lock (min outputLen w.bufferedInput.length)) at hinput
  change w₁.recovery.channels = w.recovery.channels at hchannels
  rw [← hsamples] at hinput hbuffer
  have hdvd : w₁.recovery.channels ∣ samples := by
    rw [hchannels, hsamples]
    exact w.dvd_taken ..
  have hwhole : samples / w₁.recovery.channels * w₁.recovery.channels = samples :=
    Nat.div_mul_cancel hdvd
  have hle : samples ≤ min outputLen w.bufferedInput.length := hsamples ▸ w.taken_le_requested ..
  have hroom : samples / w₁.recovery.channels * w₁.recovery.channels ≤ w₁.bufferedInput.length := by
    rw [hwhole, hfit.bufferedInput, ← hw.bufferedInput]
    exact hle.trans (Nat.min_le_right ..)
  have hcount : samples / w₁.recovery.channels ≤ (outputLen + w₁.recovery.channels - 1) /
    w₁.recovery.channels :=
    Nat.div_le_div_right ((hle.trans (Nat.min_le_left ..)).trans
      (Nat.le_sub_one_of_lt (Nat.lt_add_of_pos_right hfit.channels_pos)))
  refine (checkedDiv_returns hfit.channels_pos).bind ?_
  rintro _ rfl
  rw [mapM_eq_some_map fun i _ => input_eq hroom i]
  have hplayed :
    Returns (((List.range ((outputLen + w₁.recovery.channels - 1) / w₁.recovery.channels)).map
      (w₁.frameAt (samples / w₁.recovery.channels))).foldlM play (w₁.recovery, []))
      fun played => played.1.Fit ∧ played.1.channels = w₁.recovery.channels := by
    refine returns_foldlM ⟨hfit.recovery, rfl⟩ ?_
    intro played input hkept hin
    refine play_returns hkept ?_
    intro frame hframe
    obtain ⟨i, -, hi⟩ := List.mem_map.mp hin
    exact length_of_frameAt hroom (hi.trans hframe)
  refine hplayed.bind ?_
  rintro ⟨recovery, output⟩ ⟨hrecovery, hkept⟩
  refine returns_pure ⟨?_, ?_, ⟨?_, hfit.bufferedInput, hrecovery⟩, hkept.trans hchannels,
    hobserved⟩
  · rw [← hsamples]
    exact hbuffer
  · rw [reduceOption_frameAt hfit.channels_pos hroom hcount, hwhole, hinput, hchannels, hsamples]
  · rw [hkept]
    exact hfit.channels_pos

end

end AudioPlaybackWriter

end Playback
end BgDesk
