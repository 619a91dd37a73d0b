import Mathlib.Algebra.Group.Nat.Defs
import Mathlib.Data.List.Basic
import BgDesk.Machine

/-!
# Frames in shared memory

The helper process of `portable_service.rs` captures the screen into a memory that it shares with
the main process: `run_capture` writes a frame and increases a counter, `CapturerPortable::frame`
sets the reader's counter to the writer's and gives out the frame where it is, and
`CapturerPortable::new` starts again with an empty memory.

* `Counter` — the pair of counters; `counterEqual_increaseCounter` says when a new frame is not
  noticed;
* `Producer`, `Consumer`, `State.step` — the two processes;
* `frame_handoff` — what is given out is one frame as it was written, if the helper goes past its
  test only while the main process has no frame, and has taken the last one;
* `frame_overwritten` — the counters are equal as soon as a frame is given out, and the next frame
  is written over it.
-/

namespace BgDesk
namespace PortableFrames

/-! ## The counters -/

/-- The counter of the writer and the one of the reader. -/
structure Counter where
  w : Int32
  r : Int32
  deriving DecidableEq

/-- The value after a counter. -/
def nextCount (iw : Int32) : Int32 := if iw = Int32.maxValue then 0 else iw + 1

def counterReady (c : Counter) : Bool × Counter :=
  if c.r ≠ c.w then (true, ⟨c.w, c.w⟩) else (false, c)

def counterEqual (c : Counter) : Bool := c.w = c.r

def increaseCounter (c : Counter) : Counter :=
  let iw := c.w
  let ir := c.w
  let iwPlus1 := nextCount iw
  if ir = iwPlus1 then ⟨iwPlus1, iw⟩ else ⟨iwPlus1, c.r⟩

/-! ## The memory -/

structure FrameInfo where
  length : ℕ
  width : ℕ
  height : ℕ
  deriving DecidableEq

structure CapturerPara where
  recreate : Bool
  currentDisplay : ℕ
  timeoutMs : ℕ
  deriving DecidableEq

/-- The shared memory. -/
structure Memory where
  para : CapturerPara
  info : FrameInfo
  wouldBlock : Bool
  counter : Counter
  area : List UInt8
  deriving DecidableEq

/-- An image, with the size of the display it was captured from. -/
structure Image where
  data : List UInt8
  width : ℕ
  height : ℕ
  deriving DecidableEq

def Image.info (image : Image) : FrameInfo := ⟨image.data.length, image.width, image.height⟩

/-- `SharedMemory::write` at the frame area. -/
def Memory.writeArea (m : Memory) (data : List UInt8) : Memory :=
  { m with area := data ++ m.area.drop data.length }

/-- The memory after the `memset` of `CapturerPortable::new`. It is one step here, as is each other
access of the memory: the helper process does not take the lock of the client, and what it would
write while the zeros go in is not modelled. -/
def Memory.zero (capacity : ℕ) : Memory :=
  ⟨⟨false, 0, 0⟩, ⟨0, 0, 0⟩, false, ⟨0, 0⟩, List.replicate capacity 0⟩

/-! ## The processes -/

/-- Where `run_capture` is. -/
inductive Phase where
  | top : Phase
  | began : (recreate : Bool) → (currentDisplay : ℕ) → Phase
  | test : Phase
  | capture : Phase
  | info : List UInt8 → Phase
  | area : List UInt8 → Phase
  | flag : Phase
  | increase : Phase
  | exited : Phase
  deriving DecidableEq

/-- The variables of `run_capture`; `capturer` is the size of the display it captures. -/
structure Producer where
  phase : Phase
  capturer : Bool
  displayWidth : ℕ
  displayHeight : ℕ
  lastCurrentDisplay : ℕ
  firstFrameCaptured : Bool
  dxgiFailedTimes : ℕ
  deriving DecidableEq

inductive ErrorKind where
  | wouldBlock
  | invalidData
  | other
  deriving DecidableEq

/-- Where the main process is. It holds the lock of the memory but in `idle`. -/
inductive Use where
  | idle : Option ErrorKind → Use
  | setPara : CapturerPara → Use
  | check : Use
  | ready : Use
  | creating : (currentDisplay width height : ℕ) → Use
  deriving DecidableEq

/-- A `CapturerPortable`, and the frame it has given out. -/
structure Consumer where
  use : Use
  held : Option FrameInfo
  width : ℕ
  height : ℕ
  deriving DecidableEq

/-- Both processes, with a record of the images that were written. -/
structure State where
  mem : Memory
  producer : Producer
  consumer : Consumer
  written : List Image
  deriving DecidableEq

/-- What the system tells `run_capture`. -/
inductive Outcome where
  | go : Outcome
  | exit : Outcome
  | create : (width height : ℕ) → Outcome
  | createFails : Outcome
  | frame : List UInt8 → Outcome
  | texture : Outcome
  | desktopChanged : Outcome
  | wouldBlock : Outcome
  | failed : (gdi : Bool) → Outcome
  deriving DecidableEq

inductive Act where
  | produce : Outcome → Act
  | frame : (timeoutMs : ℕ) → Act
  | new : (currentDisplay width height : ℕ) → Act
  | consume : Act
  deriving DecidableEq

/-- `MAX_DXGI_FAIL_TIME`. -/
def maxDxgiFailTime : ℕ := 5

section Steps

variable (capacity : ℕ)

/-- `run_capture`. -/
def produce (m : Memory) (p : Producer) : Outcome → Option (Memory × Producer)
  | .go =>
    match p.phase with
    | .top => some (m, { p with phase := .began m.para.recreate m.para.currentDisplay })
    | .began recreate currentDisplay =>
      if p.capturer then
        if recreate || currentDisplay ≠ p.lastCurrentDisplay then some (m,
          { p with capturer := false, phase := .top })
        else some (m, { p with phase := .test })
      else none
    | .test =>
      if p.firstFrameCaptured && !counterEqual m.counter then some (m, { p with phase := .top })
      else some (m, { p with phase := .capture })
    | .info data =>
      some ({ m with info := ⟨data.length, p.displayWidth, p.displayHeight⟩ },
        { p with phase := .area data })
    | .area data => some (m.writeArea data, { p with phase := .flag })
    | .flag => some ({ m with wouldBlock := true }, { p with phase := .increase })
    | .increase =>
      some ({ m with counter := increaseCounter m.counter },
        { p with firstFrameCaptured := true, dxgiFailedTimes := 0, phase := .top })
    | .capture | .exited => none
  | .exit =>
    match p.phase with
    | .top => some (m, { p with phase := .exited })
    | .began _ _ => if p.capturer then none else some (m, { p with phase := .exited })
    | _ => none
  | .create width height =>
    match p.phase with
    | .began _ currentDisplay =>
      if p.capturer then none
      else
        some ({ m with para := { m.para with recreate := false } },
          { p with
            capturer := true, displayWidth := width, displayHeight := height, lastCurrentDisplay :=
              currentDisplay,
            firstFrameCaptured := false,
            dxgiFailedTimes := if p.dxgiFailedTimes > maxDxgiFailTime then 0 else p.dxgiFailedTimes,
            phase := .test })
    | _ => none
  | .createFails =>
    match p.phase with
    | .began _ _ => if p.capturer then none else some (m, { p with phase := .top })
    | _ => none
  | .frame data =>
    if p.phase = .capture then some (m, { p with
      phase := if data.length > capacity then .exited else .info data })
    else none
  | .texture => if p.phase = .capture then some (m, { p with phase := .top }) else none
  | .desktopChanged =>
    if p.phase = .capture then some (m, { p with capturer := false, phase := .top }) else none
  | .wouldBlock =>
    if p.phase = .capture then some ({ m with wouldBlock := true },
      { p with phase := .top }) else none
  | .failed gdi =>
    if p.phase = .capture then
      let dxgiFailedTimes := if gdi then p.dxgiFailedTimes else p.dxgiFailedTimes + 1
      if dxgiFailedTimes > maxDxgiFailTime then
        some ({ m with wouldBlock := false },
          { p with capturer := false, dxgiFailedTimes := dxgiFailedTimes, phase := .top })
      else some (m, { p with dxgiFailedTimes := dxgiFailedTimes, phase := .top })
    else none

/-- `CapturerPortable::frame` from its call to the test of the counters. The frame before is given
back. -/
def frame (m : Memory) (c : Consumer) (timeoutMs : ℕ) : Option Consumer :=
  match c.use with
  | .idle _ =>
    if timeoutMs ≠ m.para.timeoutMs then
      some { c with use := .setPara { m.para with timeoutMs := timeoutMs }, held := none }
    else some { c with use := .check, held := none }
  | _ => none

/-- `is_valid_capture_frame_length`. -/
def isValidCaptureFrameLength (frameLen : ℕ) : Bool := frameLen > 0 && frameLen ≤ capacity

/-- The rest of `CapturerPortable::frame`, and of `CapturerPortable::new`. -/
def consume (m : Memory) (c : Consumer) : Option (Memory × Consumer) :=
  match c.use with
  | .setPara para => some ({ m with para := para }, { c with use := .check })
  | .check =>
    let (ready, counter) := counterReady m.counter
    if ready then some ({ m with counter := counter }, { c with use := .ready })
    else some (m, { c with use := .idle (some (if m.wouldBlock then .wouldBlock else .other)) })
  | .ready =>
    if !isValidCaptureFrameLength capacity m.info.length then some (m,
      { c with use := .idle (some .invalidData) })
    else if m.info.width ≠ c.width || m.info.height ≠
      c.height then some (m, { c with use := .idle (some .wouldBlock) })
    else some (m, { c with use := .idle none, held := some m.info })
  | .creating currentDisplay width height =>
    some ({ m with para := ⟨true, currentDisplay, 33⟩, wouldBlock := true },
      { c with use := .idle none, width := width, height := height })
  | .idle _ => none

namespace State

/-- Nothing is captured yet. -/
def start : State :=
  ⟨Memory.zero capacity, ⟨.top, false, 0, 0, 2 ^ 64 - 1, false, 0⟩, ⟨.idle none, none, 0, 0⟩, []⟩

/-- The images that were written whole. -/
def record (s : State) : List Image :=
  match s.producer.phase with
  | .area data => ⟨data, s.producer.displayWidth, s.producer.displayHeight⟩ :: s.written
  | _ => s.written

def step (s : State) : Act → Option State
  | .produce outcome =>
    (produce capacity s.mem s.producer outcome).map fun (m, p) => ⟨m, p, s.consumer, s.record⟩
  | .frame timeoutMs =>
    (PortableFrames.frame s.mem s.consumer timeoutMs).map fun c => { s with consumer := c }
  | .new currentDisplay width height =>
    match s.consumer.use with
    | .idle _ =>
      some { s with mem := .zero capacity, consumer :=
        { s.consumer with use := .creating currentDisplay width height } }
    | _ => none
  | .consume =>
    (PortableFrames.consume capacity s.mem s.consumer).map fun (m, c) =>
      { s with mem := m, consumer := c }

end State

end Steps

/-! ## What is asked of the hand-off -/

/-- The main process has taken a frame, and has not given it back. -/
def Consumer.has (c : Consumer) : Bool := c.use = .ready || c.held.isSome

/-- A step writes the frame or its size. -/
def State.writes (s : State) : Act → Bool
  | .produce .go =>
    match s.producer.phase with
    | .info _ | .area _ => true
    | .top | .began _ _ | .test | .capture | .flag | .increase | .exited => false
  | _ => false

/-- A step goes past the test of `run_capture`. -/
def State.passes (s : State) (a : Act) : Bool :=
  a = .produce .go && s.producer.phase = .test &&
    !(s.producer.firstFrameCaptured && !counterEqual s.mem.counter)

/-- A step clears the memory. -/
def Act.clears : Act → Bool
  | .new _ _ _ => true
  | .produce _ | .frame _ | .consume => false

/-- The test is passed only while the main process has no frame and has taken the last one; and the
memory is not cleared while it has a frame. -/
def State.Undisturbed (s : State) (a : Act) : Prop :=
  (s.passes a = true → s.consumer.has = false ∧ counterEqual s.mem.counter = true) ∧
  (a.clears = true → s.consumer.has = false)

instance State.Undisturbed.decidable (s : State) (a : Act) : Decidable (s.Undisturbed a) :=
  inferInstanceAs (Decidable (_ ∧ _))

/-- A frame is an image that was written whole. -/
def State.Intact (s : State) (info : FrameInfo) : Prop :=
  ∃ image ∈ s.written, image.info = info ∧ s.mem.area.take info.length = image.data

/-! ## The counters tell frames apart -/

theorem nextCount_ne (iw : Int32) : nextCount iw ≠ iw := by
  rw [nextCount]
  split
  · next h =>
    rw [h]
    decide
  · intro h
    simp at h

theorem increaseCounter_eq (c : Counter) : increaseCounter c = ⟨nextCount c.w, c.r⟩ := by
  rw [increaseCounter]
  exact if_neg (Ne.symm (nextCount_ne c.w))

/-- A new frame is noticed, if the reader's counter is not the next one already. -/
theorem counterEqual_increaseCounter (c : Counter) :
    counterEqual (increaseCounter c) = false ↔ c.r ≠ nextCount c.w := by
  rw [increaseCounter_eq, counterEqual, decide_eq_false_iff_not]
  exact ne_comm

theorem counterReady_eq (c : Counter) : counterReady c = (!counterEqual c, ⟨c.w, c.w⟩) := by
  obtain ⟨w, r⟩ := c
  rw [counterReady, counterEqual]
  by_cases h : r = w
  · simp [h]
  · simp [h, Ne.symm h]

/-! ## One step -/

/-- Between the test and the counter. -/
def Phase.past : Phase → Bool
  | .capture | .info _ | .area _ | .flag | .increase => true
  | .top | .began _ _ | .test | .exited => false

/-- What holds between the steps. -/
structure State.Handed (s : State) : Prop where
  past : s.producer.phase.past = true → s.consumer.has = false ∧ counterEqual s.mem.counter = true
  info : ∀ data, s.producer.phase = .area data →
    s.mem.info = ⟨data.length, s.producer.displayWidth, s.producer.displayHeight⟩ ∨
      s.mem.info.length = 0
  whole : (∀ data, s.producer.phase ≠ .area data) → s.mem.info.length = 0 ∨ s.Intact s.mem.info
  held : ∀ info, s.consumer.held = some info → s.Intact info

/-- What a step of `run_capture` does to the memory. -/
inductive Produced (m : Memory) (p : Producer) (outcome : Outcome) : Memory → Producer → Prop
  | other {m' : Memory} {p' : Producer} (hinfo : m'.info = m.info) (harea : m'.area = m.area)
    (hcounter : m'.counter = m.counter)
      (hp : ∀ data, p.phase ≠ .area data) (hp' : ∀ data, p'.phase ≠ .area data)
      (hpast : p'.phase.past = true → p.phase.past = true) : Produced m p outcome m' p'
  | pass (hgo : outcome = .go) (hp : p.phase = .test)
    (htest : (p.firstFrameCaptured && !counterEqual m.counter) = false) :
      Produced m p outcome m { p with phase := .capture }
  | info {data : List UInt8} (hp : p.phase = .info data) :
      Produced m p outcome { m with info := ⟨data.length, p.displayWidth, p.displayHeight⟩ }
        { p with phase := .area data }
  | area {data : List UInt8} (hp : p.phase = .area data) :
    Produced m p outcome (m.writeArea data) { p with phase := .flag }
  | increase (hp : p.phase = .increase) :
    Produced m p outcome { m with counter := increaseCounter m.counter }
      { p with firstFrameCaptured := true, dxgiFailedTimes := 0, phase := .top }

variable {capacity : ℕ}

theorem produced_of_produce {m m' : Memory} {p p' : Producer} {outcome : Outcome}
    (h : produce capacity m p outcome = some (m', p')) : Produced m p outcome m' p' := by
  revert h
  fun_cases produce capacity m p outcome
  all_goals intro h
  all_goals cases h
  case case6.refl hphase htest => exact .pass rfl hphase (Bool.not_eq_true _ ▸ htest)
  case case7.refl data hphase => exact .info hphase
  case case8.refl data hphase => exact .area hphase
  case case10.refl hphase => exact .increase hphase
  case case1.refl hphase | case13.refl hphase =>
    exact .other rfl rfl rfl (fun _ h => by rw [hphase] at h; cases h) nofun nofun
  case case2.refl hphase _ _ | case3.refl hphase _ _ =>
    exact .other rfl rfl rfl (fun _ h => by rw [hphase] at h; cases h) nofun nofun
  case case5.refl hphase _ | case15.refl hphase _ | case21.refl hphase _ =>
    exact .other rfl rfl rfl (fun _ h => by rw [hphase] at h; cases h) nofun nofun
  case case18.refl =>
    rename_i hphase _
    exact .other rfl rfl rfl (fun _ h => by rw [hphase] at h; cases h) nofun nofun
  case case9.refl hphase =>
    exact .other rfl rfl rfl (fun _ h => by rw [hphase] at h; cases h) nofun fun _ => by
      rw [hphase]; rfl
  case case23.refl data hphase =>
    -- a frame that is too long ends the process
    refine .other rfl rfl rfl (fun _ h => by rw [hphase] at h; cases h) (fun _ h => ?_) fun _ => by
      rw [hphase]; rfl
    dsimp only at h
    split at h <;> cases h
  case case25.refl hphase | case27.refl hphase | case29.refl hphase =>
    exact .other rfl rfl rfl (fun _ h => by rw [hphase] at h; cases h) nofun nofun
  case case31.refl hphase _ _ | case32.refl hphase _ _ =>
    exact .other rfl rfl rfl (fun _ h => by rw [hphase] at h; cases h) nofun nofun

variable {s : State}

theorem State.held_none (h : s.consumer.has = false) : s.consumer.held = none := by
  rw [Consumer.has, Bool.or_eq_false_iff] at h
  cases hheld : s.consumer.held with
  | none => rfl
  | some info =>
    rw [hheld] at h
    cases h.2

theorem State.Intact.mono {m : Memory} {p : Producer} {c : Consumer} {info : FrameInfo}
    (hm : m.area = s.mem.area) (h : s.Intact info) : State.Intact ⟨m, p, c, s.written⟩ info := by
  obtain ⟨image, himage, hinfo, hdata⟩ := h
  exact ⟨image, himage, hinfo, hm.symm ▸ hdata⟩

theorem State.record_eq (h : ∀ data, s.producer.phase ≠ .area data) : s.record = s.written := by
  rw [State.record]
  split
  · next data hphase => exact absurd hphase (h data)
  · rfl

theorem State.Handed.produce (hs : s.Handed) {outcome : Outcome}
    (hquiet : s.Undisturbed (.produce outcome)) {m : Memory} {p : Producer}
    (h : Produced s.mem s.producer outcome m p) : State.Handed ⟨m, p, s.consumer, s.record⟩ := by
  cases h with
  | other hinfo harea hcounter hp hp' hpast =>
    rw [State.record_eq hp]
    refine ⟨fun h => ?_, fun data h => absurd h (hp' data), fun _ => ?_,
      fun info h => (hs.held info h).mono harea⟩
    · obtain ⟨hhas, hequal⟩ := hs.past (hpast h)
      exact ⟨hhas, hcounter.symm ▸ hequal⟩
    · change m.info.length = 0 ∨ State.Intact _ m.info
      rw [hinfo]
      exact (hs.whole hp).imp_right (·.mono harea)
  | pass hgo hp htest =>
    have hphase : ∀ data, s.producer.phase ≠ .area data := fun data h => by rw [hp] at h; cases h
    have hpasses : s.passes (.produce outcome) = true := by
      rw [State.passes, hgo, hp, htest]
      rfl
    rw [State.record_eq hphase]
    exact ⟨fun _ => hquiet.1 hpasses, nofun, fun _ => (hs.whole hphase).imp_right (·.mono rfl),
      fun info h => (hs.held info h).mono rfl⟩
  | @info data hp =>
    have hphase : ∀ data, s.producer.phase ≠ .area data := fun data h => by rw [hp] at h; cases h
    have hpast := hs.past (by rw [hp]; rfl)
    rw [State.record_eq hphase]
    refine ⟨fun _ => hpast, ?_, fun h => absurd rfl (h data),
      fun info h => (hs.held info h).mono rfl⟩
    rintro _ ⟨⟩
    exact .inl rfl
  | @area data hp =>
    have hpast := hs.past (by rw [hp]; rfl)
    have hrecord : s.record = ⟨data, s.producer.displayWidth, s.producer.displayHeight⟩ ::
        s.written := by
      rw [State.record, hp]
    rw [hrecord]
    refine ⟨fun _ => hpast, nofun, fun _ => ?_, fun info h => ?_⟩
    · rcases hs.info data hp with hinfo | hzero
      · refine .inr ⟨_, List.mem_cons_self, hinfo.symm, ?_⟩
        change (data ++ s.mem.area.drop data.length).take s.mem.info.length = data
        rw [hinfo, List.take_left]
      · exact .inl hzero
    · -- nobody holds a frame
      have hnone := State.held_none hpast.1
      exact absurd (hnone.symm.trans h) nofun
  | increase hp =>
    have hphase : ∀ data, s.producer.phase ≠ .area data := fun data h => by rw [hp] at h; cases h
    rw [State.record_eq hphase]
    exact ⟨nofun, nofun, fun _ => (hs.whole hphase).imp_right (·.mono rfl),
      fun info h => (hs.held info h).mono rfl⟩

/-- The main process does something that is not about the frame. -/
theorem State.Handed.same {s : State} (hs : s.Handed) {m : Memory} {c : Consumer}
    (hinfo : m.info = s.mem.info) (harea : m.area = s.mem.area)
    (hheld : ∀ info, c.held = some info → s.consumer.held = some info)
    (hpast : s.producer.phase.past = true → c.has = false ∧ counterEqual m.counter = true) :
    State.Handed ⟨m, s.producer, c, s.written⟩ := by
  refine ⟨hpast, fun data h => ?_, fun h => ?_,
    fun info h => (hs.held info (hheld info h)).mono harea⟩
  · change m.info = _ ∨ m.info.length = 0
    rw [hinfo]
    exact hs.info data h
  · change m.info.length = 0 ∨ State.Intact _ m.info
    rw [hinfo]
    exact (hs.whole h).imp_right (·.mono harea)

/-- Without a frame the use does not matter. -/
theorem Consumer.has_eq_false {c c' : Consumer} (h : c.has = false) (hheld : c'.held = c.held)
    (huse : c'.use ≠ .ready) : c'.has = false := by
  rw [Consumer.has, Bool.or_eq_false_iff] at h ⊢
  exact ⟨decide_eq_false huse, hheld.symm ▸ h.2⟩

theorem State.Handed.consume {s : State} (hs : s.Handed) {m : Memory} {c : Consumer}
    (h : PortableFrames.consume capacity s.mem s.consumer = some (m, c)) :
    State.Handed ⟨m, s.producer, c, s.written⟩ := by
  have hkept : ∀ {m : Memory} {c : Consumer}, m.info = s.mem.info → m.area = s.mem.area →
    m.counter = s.mem.counter →
      c.held = s.consumer.held → c.use ≠ .ready → State.Handed ⟨m, s.producer, c, s.written⟩ := by
    intro m c hinfo harea hcounter hheld huse
    refine hs.same hinfo harea (fun info h => hheld.symm.trans h) fun h => ?_
    obtain ⟨hhas, hequal⟩ := hs.past h
    exact ⟨Consumer.has_eq_false hhas hheld huse, hcounter.symm ▸ hequal⟩
  -- whoever has a frame keeps the helper before its test
  have hbefore : s.consumer.use = .ready → s.producer.phase.past = false := by
    intro huse
    by_contra hpast
    rw [Bool.not_eq_false] at hpast
    have hhas := (hs.past hpast).1
    rw [Consumer.has, huse] at hhas
    cases hhas
  revert h
  fun_cases PortableFrames.consume capacity s.mem s.consumer
  all_goals intro h
  all_goals cases h
  case case1.refl | case3.refl | case4.refl | case5.refl | case7.refl =>
    exact hkept rfl rfl rfl rfl nofun
  case case2.refl huse counter hready =>
    refine hs.same rfl rfl (fun info h => h) fun hpast => ?_
    -- there is a new frame, so the helper is not past its test
    have hequal := (hs.past hpast).2
    rw [counterReady_eq, hequal] at hready
    cases hready
  case case6.refl huse hvalid hsize =>
    have hphase : ∀ data, s.producer.phase ≠ .area data := by
      intro data h
      have hpast := hbefore huse
      rw [h] at hpast
      cases hpast
    have hlength : s.mem.info.length ≠ 0 := by
      intro hzero
      rw [hzero] at hvalid
      exact hvalid rfl
    have hintact := (hs.whole hphase).resolve_left hlength
    refine ⟨fun h => ?_, fun data h => absurd h (hphase data), fun _ => .inr (hintact.mono rfl), ?_⟩
    · rw [hbefore huse] at h
      cases h
    · rintro _ ⟨⟩
      exact hintact.mono rfl

theorem State.Handed.step {s' : State} {a : Act} (hs : s.Handed) (hquiet : s.Undisturbed a)
    (h : s.step capacity a = some s') : s'.Handed := by
  cases a with
  | produce outcome =>
    obtain ⟨⟨m, p⟩, hproduce, rfl⟩ := Option.map_eq_some_iff.mp h
    exact hs.produce hquiet (produced_of_produce hproduce)
  | consume =>
    obtain ⟨⟨m, c⟩, hconsume, rfl⟩ := Option.map_eq_some_iff.mp h
    exact hs.consume hconsume
  | frame timeoutMs =>
    obtain ⟨c, hframe, rfl⟩ := Option.map_eq_some_iff.mp h
    have hfree : c.held = none ∧ c.use ≠ .ready := by
      rw [PortableFrames.frame] at hframe
      split at hframe
      · split at hframe <;> cases hframe <;> exact ⟨rfl, nofun⟩
      · cases hframe
    have hhas : c.has = false := by
      rw [Consumer.has, hfree.1, decide_eq_false hfree.2]
      rfl
    refine hs.same rfl rfl (fun info h => ?_) fun hpast => ⟨hhas, (hs.past hpast).2⟩
    rw [hfree.1] at h
    cases h
  | new currentDisplay width height =>
    have hnone := State.held_none (hquiet.2 rfl)
    rw [State.step] at h
    split at h
    · obtain rfl := Option.some.inj h
      refine ⟨fun _ => ⟨?_, rfl⟩, fun _ _ => .inr rfl, fun _ => .inl rfl, fun info h => ?_⟩
      · change (false || s.consumer.held.isSome) = false
        rw [hnone]
        rfl
      · exact absurd (hnone.symm.trans h) nofun
    · cases h

theorem State.start_handed : (State.start capacity).Handed :=
  ⟨nofun, nofun, fun _ => .inl rfl, nofun⟩

theorem State.past_of_writes {a : Act} (h : s.writes a = true) : s.producer.phase.past = true := by
  revert h
  fun_cases State.writes s a
  case case1 hphase | case2 hphase =>
    intro _
    rw [hphase]
    rfl
  all_goals exact nofun

/-- A new frame is noticed whatever the counters are, but for one value of the reader's. And in
every run in which the helper goes past its test only while the main process has no frame and has
taken the last one, and in which the memory is not cleared while it has a frame: the helper does not
write while the main process has a frame, a frame that is given out is one image that was written
whole, with its own size, and every new frame is noticed. -/
theorem frame_handoff (capacity : ℕ) :
    (∀ c, counterEqual (increaseCounter c) = false ↔ c.r ≠ nextCount c.w) ∧
    ∀ acts s, exec (State.step capacity) (.start capacity) acts = some s →
      Along (State.step capacity) State.Undisturbed (.start capacity) acts →
      (s.consumer.has = true → ∀ a, s.writes a = false) ∧
      (∀ info, s.consumer.held = some info → s.Intact info) ∧
      (s.producer.phase = .increase → counterEqual (increaseCounter s.mem.counter) = false) := by
  refine ⟨counterEqual_increaseCounter, fun acts s hrun halong => ?_⟩
  have hs : s.Handed :=
    exec_invariant_along (fun _ _ _ hs hquiet hstep => hs.step hquiet hstep)
      State.start_handed halong hrun
  refine ⟨fun hhas a => ?_, hs.held, fun hphase => ?_⟩
  · by_contra hwrites
    rw [Bool.not_eq_false] at hwrites
    rw [(hs.past (State.past_of_writes hwrites)).1] at hhas
    cases hhas
  · have hequal : s.mem.counter.w = s.mem.counter.r :=
      of_decide_eq_true (hs.past (by rw [hphase]; rfl)).2
    rw [counterEqual_increaseCounter, ← hequal]
    exact Ne.symm (nextCount_ne _)

/-- A capturer, and a frame that is captured, noticed and given back before the helper goes on. -/
theorem frame_handoff_one :
    ∃ s, exec (State.step 64) (.start 64) (.new 0 1 1 :: .consume :: .produce .go ::
      .produce (.create 1 1) ::
        .produce .go :: .produce (.frame [1, 2, 3, 4]) :: .produce .go :: .produce .go ::
          .produce .go :: .produce .go ::
        .frame 33 :: .consume :: .consume :: []) = some s ∧
      s.consumer.held = some ⟨4, 1, 1⟩ ∧ s.Intact ⟨4, 1, 1⟩ := by
  have hrun :
    ((exec (State.step 64) (.start 64) (.new 0 1 1 :: .consume :: .produce .go ::
      .produce (.create 1 1) ::
      .produce .go :: .produce (.frame [1, 2, 3, 4]) :: .produce .go :: .produce .go ::
        .produce .go :: .produce .go ::
      .frame 33 :: .consume :: .consume :: [])).any fun s => s.consumer.held = some ⟨4, 1, 1⟩) =
        true := by
    decide +kernel
  obtain ⟨s, hs, hheld⟩ := (Option.any_eq_true _ _).mp hrun
  have hheld' := of_decide_eq_true hheld
  exact ⟨s, hs, hheld', ((frame_handoff 64).2 _ s hs (by decide +kernel)).2.1 _ hheld'⟩

/-- The frame that was given out is written over at once: the counters are equal as soon as it is
taken. And with the reader's counter at 0 the frame after `i32::MAX` is not noticed. -/
theorem frame_overwritten : (∃ s s', exec (State.step 64) (.start 64)
      (.new 0 1 1 :: .consume :: .produce .go :: .produce (.create 1 1) ::
        .produce .go :: .produce (.frame [1, 2, 3, 4]) :: .produce .go :: .produce .go ::
          .produce .go :: .produce .go ::
        .frame 33 :: .consume :: .consume :: .produce .go :: .produce .go :: .produce .go ::
          .produce (.frame [5, 6, 7, 8]) ::
        .produce .go :: []) = some s ∧
      s.consumer.held = some ⟨4, 1, 1⟩ ∧ s.writes (.produce .go) = true ∧
        s.step 64 (.produce .go) = some s' ∧
      s.mem.area.take 4 = [1, 2, 3, 4] ∧ s'.mem.area.take 4 = [5, 6, 7, 8]) ∧
    counterEqual (increaseCounter ⟨Int32.maxValue, 0⟩) = true := by
  refine ⟨?_, by decide⟩
  have hrun :
    ((exec (State.step 64) (.start 64) (.new 0 1 1 :: .consume :: .produce .go ::
      .produce (.create 1 1) ::
      .produce .go :: .produce (.frame [1, 2, 3, 4]) :: .produce .go :: .produce .go ::
        .produce .go :: .produce .go ::
      .frame 33 :: .consume :: .consume :: .produce .go :: .produce .go :: .produce .go ::
        .produce (.frame [5, 6, 7, 8]) ::
      .produce .go :: [])).any fun s =>
      s.consumer.held = some ⟨4, 1, 1⟩ ∧ s.writes (.produce .go) = true ∧
        s.mem.area.take 4 = [1, 2, 3, 4] ∧
        (s.step 64 (.produce .go)).any fun s' => s'.mem.area.take 4 = [5, 6, 7, 8]) = true := by
          decide +kernel
  obtain ⟨s, hs, hstate⟩ := (Option.any_eq_true _ _).mp hrun
  obtain ⟨hheld, hwrites, hbefore, hstep⟩ := of_decide_eq_true hstate
  obtain ⟨s', hs', hafter⟩ := (Option.any_eq_true _ _).mp hstep
  exact ⟨s, s', hs, hheld, hwrites, hs', hbefore, of_decide_eq_true hafter⟩

end PortableFrames
end BgDesk
