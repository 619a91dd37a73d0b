import Mathlib.Data.List.Basic
import BgDesk.DisplayGeometry
import BgDesk.Machine
import BgDesk.Threads

/-!
# Capturers and the layout of the compositor

A capturer turns its frames and moves the pointer by the layout it found when it was built. A poll
of `display_service.rs` looks for a layout that differs from the one that the capturers were built
on, and tells them to rebuild by raising the generation of the snapshot. Meanwhile outputs are
rearranged, capturers are built from a snapshot that is cached, sessions begin, and DRM comes and
goes.

* `WaylandLayout` — what the poll remembers, with `edge`, `observe`, `noteCapturer` and
  `resetBaseline`;
* `State.pollStep`, `State.step` — the poll and all others, one access of a shared variable at a
  time;
* `stale_capturers_rebuilt` — a capturer on another layout is told by the next poll that no build
  runs into, and once the layout stays as it is the generation is raised a few times more and no
  capturer is told without need.
-/

namespace BgDesk
namespace Wayland

/-! ## Rectangles -/

/-- `DisplayRect`. -/
structure DisplayRect where
  name : String
  x : Int32
  y : Int32
  w : Int32
  h : Int32
  transform : Int32
  deriving DecidableEq

/-- `oriented_physical`. -/
def orientedPhysical (d : WaylandDisplayInfo) : Int32 × Int32 :=
  if d.transform = 90 ∨ d.transform = 270 then (d.height, d.width) else (d.width, d.height)

/-- `logical_rects_of`: a single display has its physical size. -/
def logicalRectsOf (displays : List WaylandDisplayInfo) : List DisplayRect :=
  displays.map fun d =>
    let size :=
      if displays.length = 1 then orientedPhysical d else d.logicalSize.getD (orientedPhysical d)
    ⟨d.name, d.x, d.y, size.1, size.2, d.transform⟩

/-! ## What the poll remembers -/

/-- `WaylandLayout`. -/
structure WaylandLayout where
  baseline : List DisplayRect
  live : List DisplayRect
  seen : List DisplayRect
  unseenBuild : Option ℕ
  deriving DecidableEq

namespace WaylandLayout

def default : WaylandLayout := ⟨[], [], [], none⟩

/-- `reset_baseline`. -/
def resetBaseline (l : WaylandLayout) (baseline : List DisplayRect) : WaylandLayout :=
  { l with seen := if l.seen = [] then l.baseline else l.seen, baseline := baseline, live := [] }

/-- `edge`. -/
def edge (l : WaylandLayout) (live : List DisplayRect) (snapshotMissing : Bool) (generation : ℕ) :
    Bool :=
  if l.unseenBuild = some generation then true
  else if l.seen ≠ [] then l.seen ≠ live
  else if l.baseline = [] then snapshotMissing
  else l.baseline ≠ live

/-- `observe`. -/
def observe (l : WaylandLayout) (live : List DisplayRect) : WaylandLayout :=
  { l with live := live, seen := live, unseenBuild := none }

/-- `note_capturer`. -/
def noteCapturer (l : WaylandLayout) (builtOn : List DisplayRect) (builtGen : ℕ) : WaylandLayout :=
  if builtOn = [] then l
  else if l.seen = [] then { l with seen := builtOn }
  else if l.seen ≠ builtOn then { l with
    unseenBuild := some (l.unseenBuild.elim builtGen fun g => max g builtGen) }
  else l

end WaylandLayout

/-! ## The parties -/

/-- `IpcDrmCapturer::new`, from its look at the generation on. -/
inductive Build where
  | read (gen : ℕ)
  | taken (gen : ℕ) (displays : List WaylandDisplayInfo)
  | finished
  deriving DecidableEq

/-- A capturer, with the generation and the snapshot it was built with. -/
structure Capturer where
  gen : ℕ
  displays : List WaylandDisplayInfo
  deriving DecidableEq

/-- Where `refresh_wayland_uinput_rect_if_changed` stands. -/
inductive Poll where
  | idle
  | queried (live : List DisplayRect)
  | observed (live : List DisplayRect) (changed : Bool)
  | latched (live : List DisplayRect)
  | promoting (live : List DisplayRect)
  | cleared (live : List DisplayRect)
  | bumped (live : List DisplayRect)
  | rebased (live : List DisplayRect)
  deriving DecidableEq

/-- The outputs, what the service has in its variables, and who is under way. `undisturbed`,
`unmoved` and `told` are for the record: no build has run into the poll so far, the outputs have
stayed as they were since its query, and how often a capturer has been told to rebuild. -/
structure State where
  layout : List WaylandDisplayInfo
  available : Bool
  cache : Option (List WaylandDisplayInfo)
  /-- the `u64` wraps around after `2 ^ 64` bumps; a run is taken to have fewer -/
  generation : ℕ
  memory : WaylandLayout
  pending : Bool
  owed : Bool
  poll : Poll
  builds : List Build
  capturers : List Capturer
  undisturbed : Bool
  unmoved : Bool
  told : ℕ
  deriving DecidableEq

inductive Act where
  | relayout : List WaylandDisplayInfo → Act
  | drm : (available : Bool) → Act
  | poll : (ok : Bool) → Act
  | build : Act
  | go : ℕ → (ok : Bool) → Act
  | frame : ℕ → Act
  | drop : ℕ → Act
  | getDisplays : (ok : Bool) → Act
  | clearCache : Act
  | setBaseline : List DisplayRect → Act
  deriving DecidableEq

namespace State

def start (layout : List WaylandDisplayInfo) : State :=
  ⟨layout, false, none, 0, .default, false, false, .idle, [], [], false, false, 0⟩

/-- `get_displays`: a snapshot that could not be taken is empty, and is not cached. -/
def getDisplays (s : State) (ok : Bool) : List WaylandDisplayInfo :=
  match s.cache with
  | some displays => displays
  | none => if ok then s.layout else []

/-- The cache after `get_displays`. -/
def fill (s : State) (ok : Bool) : Option (List WaylandDisplayInfo) :=
  match s.cache with
  | some displays => some displays
  | none => if ok then some s.layout else none

/-- One step of the poll. -/
def pollStep (s : State) (ok : Bool) : State :=
  match s.poll with
  | .idle =>
    if ok ∧ s.layout ≠ [] then
      { s with
        poll := .queried (logicalRectsOf s.layout), undisturbed :=
          s.builds.all (· = .finished), unmoved := true }
    else s
  | .queried live =>
    { s with
      poll := .observed live (s.memory.edge live s.cache.isNone s.generation)
      memory := s.memory.observe live }
  | .observed live changed =>
    { s with poll := .latched live, pending := false, owed := s.owed || changed || s.pending }
  | .latched live =>
    if s.owed && s.available then { s with poll := .promoting live, owed := false } else { s with
      poll := .idle }
  | .promoting live => { s with poll := .cleared live, cache := none }
  | .cleared live => { s with poll := .bumped live, generation := s.generation + 1 }
  | .bumped live => { s with poll := .rebased live, memory := s.memory.resetBaseline live }
  | .rebased live => { s with poll := .idle, memory := { s.memory with live := live } }

/-- A build that has its snapshot: `transform_and_origin` notes that there is none, or
`note_capturer_layout` what there is, and the capturer is there. -/
def record (s : State) (gen : ℕ) (displays : List WaylandDisplayInfo) : State :=
  { s with
    pending := s.pending || displays.isEmpty
    memory := s.memory.noteCapturer (logicalRectsOf displays) gen
    capturers := s.capturers ++ [⟨gen, displays⟩] }

/-- One step of a build. -/
def buildStep (s : State) (i : ℕ) (ok : Bool) : Build → Option State
  | .read gen =>
    some { s with cache := s.fill ok, builds := s.builds.set i (.taken gen (s.getDisplays ok)) }
  | .taken gen displays => some { s.record gen displays with builds := s.builds.set i .finished }
  | .finished => none

/-- A capturer that has a frame looks at the generation first. -/
def frameStep (s : State) (i : ℕ) (c : Capturer) : State :=
  if c.gen ≠
    s.generation then { s with capturers := s.capturers.eraseIdx i, told := s.told + 1 } else s

def step (s : State) : Act → Option State
  | .relayout displays => some { s with layout := displays, unmoved := false }
  | .drm available => some { s with available := available }
  | .poll ok => some (s.pollStep ok)
  | .build => some { s with builds := s.builds ++ [.read s.generation], undisturbed := false }
  | .go i ok => s.builds[i]?.bind (s.buildStep i ok)
  | .frame i => s.capturers[i]?.map (s.frameStep i)
  | .drop i => some { s with capturers := s.capturers.eraseIdx i }
  | .getDisplays ok => some { s with cache := s.fill ok }
  | .clearCache => some { s with cache := none }
  | .setBaseline baseline => some { s with memory := s.memory.resetBaseline baseline }

end State

/-! ## The memory -/

theorem logicalRectsOf_eq_nil {displays : List WaylandDisplayInfo} :
    logicalRectsOf displays = [] ↔ displays = [] :=
  List.map_eq_nil_iff

namespace WaylandLayout

/-- A capturer of the current generation that was built on some rectangles is covered: they are the
ones remembered, or the next poll fires anyway. -/
def Covers (l : WaylandLayout) (generation : ℕ) (rects : List DisplayRect) : Prop :=
  rects = l.seen ∨ l.unseenBuild = some generation

/-- What has been flagged is not of a generation to come. -/
def Past (l : WaylandLayout) (generation : ℕ) : Prop := ∀ g, l.unseenBuild = some g → g ≤ generation

/-- Just observed. -/
def Holds (l : WaylandLayout) (live : List DisplayRect) : Prop :=
  l.seen = live ∧ l.unseenBuild = none

variable {l : WaylandLayout} {generation : ℕ} {rects : List DisplayRect}

theorem resetBaseline_seen (h : l.seen ≠ []) (baseline : List DisplayRect) :
    (l.resetBaseline baseline).seen = l.seen :=
  if_neg h

theorem Covers.resetBaseline (h : l.Covers generation rects) (hrects : rects ≠ [])
    (baseline : List DisplayRect) : (l.resetBaseline baseline).Covers generation rects := by
  refine h.imp_left fun hseen => ?_
  rw [resetBaseline_seen (hseen ▸ hrects), hseen]

theorem Holds.resetBaseline {live : List DisplayRect} (h : l.Holds live) (hlive : live ≠ [])
    (baseline : List DisplayRect) : (l.resetBaseline baseline).Holds live :=
  ⟨(resetBaseline_seen (h.1 ▸ hlive) baseline).trans h.1, h.2⟩

/-- A poll fires for a capturer that is covered, unless it was built on the live layout. -/
theorem Covers.edge (h : l.Covers generation rects) (hrects : rects ≠ []) (live : List DisplayRect)
    (missing : Bool) : l.edge live missing generation = true ∨ rects = live := by
  rw [WaylandLayout.edge]
  split
  case isTrue => exact .inl rfl
  case isFalse hunseen =>
    obtain rfl | h := h
    · rw [if_pos hrects]
      by_cases hlive : l.seen = live
      · exact .inr hlive
      · exact .inl (decide_eq_true hlive)
    · exact absurd h hunseen

theorem noteCapturer_unseen {gen : ℕ} (hpast : l.Past generation) (hgen : gen ≤ generation) :
    (l.noteCapturer rects gen).Past generation := by
  fun_cases noteCapturer l rects gen with
  | case1 => exact hpast
  | case2 => exact hpast
  | case3 =>
    intro g hg
    obtain rfl := Option.some.inj hg
    cases hunseen : l.unseenBuild with
    | none => exact hgen
    | some u => exact max_le (hpast u hunseen) hgen
  | case4 => exact hpast

/-- Another capturer is noted. -/
theorem Covers.noteCapturer {gen : ℕ} (h : l.Covers generation rects) (hrects : rects ≠ [])
    (hgen : gen ≤ generation) (other : List DisplayRect) :
    (l.noteCapturer other gen).Covers generation rects := by
  fun_cases WaylandLayout.noteCapturer l other gen with
  | case1 => exact h
  | case2 _ hseen =>
    refine h.imp_left fun heq => ?_
    rw [hseen] at heq
    exact absurd heq hrects
  | case3 =>
    refine h.imp_right fun hunseen => ?_
    rw [hunseen, Option.elim_some, max_eq_left hgen]
  | case4 => exact h

/-- A capturer that is noted is covered. -/
theorem covers_noteCapturer (hpast : l.Past generation) (hrects : rects ≠ []) :
    (l.noteCapturer rects generation).Covers generation rects := by
  fun_cases noteCapturer l rects generation with
  | case1 hnil => exact absurd hnil hrects
  | case2 => exact .inl rfl
  | case3 =>
    refine .inr ?_
    cases hunseen : l.unseenBuild with
    | none => rfl
    | some u => rw [Option.elim_some, max_eq_right (hpast u hunseen)]
  | case4 _ _ heq => exact .inl (not_not.mp heq).symm

end WaylandLayout

/-! ## What the poll owes -/

/-- The poll is about to raise the generation, or will. -/
def Poll.owing : Poll → Bool
  | observed _ changed => changed
  | promoting _ => true
  | cleared _ => true
  | _ => false

namespace State

def Owing (s : State) : Prop := s.owed = true ∨ s.poll.owing = true

end State

/-- A build has read a generation that has been. -/
def Build.Before (generation : ℕ) : Build → Prop
  | read gen => gen ≤ generation
  | taken gen _ => gen ≤ generation
  | finished => True

theorem Build.Before.mono {b : Build} {m n : ℕ} (h : b.Before m) (hmn : m ≤ n) : b.Before n := by
  cases b with
  | finished => trivial
  | _ => exact Nat.le_trans h hmn

namespace State

/-- What a poll knows that no build has run into. -/
def Watched (s : State) : Prop :=
  match s.poll with
  | .idle => True
  | .queried live => live ≠ [] ∧ (s.unmoved = true → live = logicalRectsOf s.layout)
  | .observed live _ =>
    live ≠ [] ∧ (s.unmoved = true → live = logicalRectsOf s.layout) ∧
      (s.undisturbed = true → s.memory.Holds live)
  | .latched live =>
    live ≠ [] ∧ (s.unmoved = true → live = logicalRectsOf s.layout) ∧
      (s.undisturbed = true → s.memory.Holds live ∧ s.pending = false)
  | .promoting live => live ≠ []
  | .cleared live => live ≠ []
  | .bumped live => live ≠ [] ∧ (s.undisturbed = true → ∀ c ∈ s.capturers, c.gen < s.generation)
  | .rebased live => live ≠ [] ∧ (s.undisturbed = true → ∀ c ∈ s.capturers, c.gen < s.generation)

/-- Every capturer of the current generation is covered: by the rectangles that are remembered, by
the flag of blind builds, or by a promotion that is owed. -/
structure Tracked (s : State) : Prop where
  capturers_le : ∀ c ∈ s.capturers, c.gen ≤ s.generation
  builds_le : ∀ b ∈ s.builds, b.Before s.generation
  past : s.memory.Past s.generation
  shown : ∀ c ∈ s.capturers, c.gen = s.generation → c.displays ≠ [] →
    s.Owing ∨ s.memory.Covers s.generation (logicalRectsOf c.displays)
  blind : ∀ c ∈ s.capturers, c.gen = s.generation → c.displays = [] → s.Owing ∨ s.pending = true
  quiet : s.undisturbed = true → ∀ b ∈ s.builds, b = .finished
  watched : s.Watched

theorem start_tracked (layout : List WaylandDisplayInfo) : (start layout).Tracked :=
  ⟨nofun, nofun, nofun, nofun, nofun, nofun, trivial⟩

variable {s : State} {live : List DisplayRect}

/-- While the poll is not about to raise the generation, a promotion that is owed is noted. -/
theorem owed_of_owing {poll : Poll} {P : Prop} (hpoll : s.poll = poll) (hquiet : poll.owing = false)
    (h : s.Owing ∨ P) : s.owed = true ∨ P := by
  rw [Owing, hpoll, hquiet] at h
  exact h.imp_left fun howing => howing.resolve_right Bool.false_ne_true

/-! ## Steps of the poll -/

/-- The poll asks the compositor. -/
theorem Tracked.query (hs : s.Tracked) (hlayout : s.layout ≠ []) (hpoll : s.poll = .idle) :
    ({ s with
      poll := .queried (logicalRectsOf s.layout), undisturbed :=
  s.builds.all (· = .finished), unmoved := true } :
      State).Tracked := by
  refine ⟨hs.capturers_le, hs.builds_le, hs.past, fun c hc hgen hne => ?_, fun c hc hgen hnil => ?_,
    fun hall b hb => ?_, ?_⟩
  · exact (owed_of_owing hpoll rfl (hs.shown c hc hgen hne)).imp_left .inl
  · exact (owed_of_owing hpoll rfl (hs.blind c hc hgen hnil)).imp_left .inl
  · exact of_decide_eq_true (List.all_eq_true.mp hall b hb)
  · exact ⟨fun hnil => hlayout (logicalRectsOf_eq_nil.mp hnil), fun _ => rfl⟩

/-- It compares what it read with the memory. -/
theorem Tracked.observe (hs : s.Tracked) (hpoll : s.poll = .queried live) : ({ s with
      poll := .observed live (s.memory.edge live s.cache.isNone s.generation)
      memory := s.memory.observe live } : State).Tracked := by
  have hwatched := hs.watched
  simp only [Watched, hpoll] at hwatched
  refine ⟨hs.capturers_le, hs.builds_le, nofun, fun c hc hgen hne => ?_, fun c hc hgen hnil => ?_,
    hs.quiet, ?_⟩
  · obtain howed | hcovers := owed_of_owing hpoll rfl (hs.shown c hc hgen hne)
    · exact .inl (.inl howed)
    · have hrects : logicalRectsOf c.displays ≠ [] := fun hnil =>
        hne (logicalRectsOf_eq_nil.mp hnil)
      obtain hedge | heq := hcovers.edge hrects live s.cache.isNone
      · exact .inl (.inr hedge)
      · exact .inr (.inl heq)
  · exact (owed_of_owing hpoll rfl (hs.blind c hc hgen hnil)).imp_left .inl
  · exact ⟨hwatched.1, hwatched.2, fun _ => ⟨rfl, rfl⟩⟩

/-- It takes over what is pending. -/
theorem Tracked.latch (hs : s.Tracked) {changed : Bool} (hpoll : s.poll = .observed live changed) :
    ({ s with poll := .latched live, pending := false, owed := s.owed || changed || s.pending } :
      State).Tracked := by
  have hwatched := hs.watched
  simp only [Watched, hpoll] at hwatched
  have howed : s.Owing ∨ s.pending = true → (s.owed || changed || s.pending) = true := by
    rw [Owing, hpoll]
    rintro ((h | h) | h)
    · rw [h, Bool.true_or, Bool.true_or]
    · have h' : changed = true := h
      rw [h', Bool.or_true, Bool.true_or]
    · rw [h, Bool.or_true]
  refine ⟨hs.capturers_le, hs.builds_le, hs.past, fun c hc hgen hne => ?_, fun c hc hgen hnil => ?_,
    hs.quiet, ?_⟩
  · exact (hs.shown c hc hgen hne).imp_left fun howing => .inl (howed (.inl howing))
  · exact .inl (.inl (howed (hs.blind c hc hgen hnil)))
  · exact ⟨hwatched.1, hwatched.2.1, fun hun => ⟨hwatched.2.2 hun, rfl⟩⟩

theorem Tracked.promote (hs : s.Tracked) (hpoll : s.poll = .latched live) :
    ({ s with poll := .promoting live, owed := false } : State).Tracked := by
  have hwatched := hs.watched
  simp only [Watched, hpoll] at hwatched
  exact ⟨hs.capturers_le, hs.builds_le, hs.past, fun _ _ _ _ => .inl (.inr rfl),
    fun _ _ _ _ => .inl (.inr rfl), hs.quiet,
    hwatched.1⟩

theorem Tracked.put_off (hs : s.Tracked) (hpoll : s.poll = .latched live) :
    ({ s with poll := .idle } : State).Tracked := by
  exact ⟨hs.capturers_le, hs.builds_le, hs.past,
    fun c hc hgen hne => (owed_of_owing hpoll rfl (hs.shown c hc hgen hne)).imp_left .inl,
    fun c hc hgen hnil => (owed_of_owing hpoll rfl (hs.blind c hc hgen hnil)).imp_left .inl,
      hs.quiet, trivial⟩

theorem Tracked.clear (hs : s.Tracked) (hpoll : s.poll = .promoting live) :
    ({ s with poll := .cleared live, cache := none } : State).Tracked := by
  have hwatched := hs.watched
  simp only [Watched, hpoll] at hwatched
  exact ⟨hs.capturers_le, hs.builds_le, hs.past, fun _ _ _ _ => .inl (.inr rfl),
    fun _ _ _ _ => .inl (.inr rfl), hs.quiet,
    hwatched⟩

/-- All capturers are of an earlier generation now. -/
theorem Tracked.bump (hs : s.Tracked) (hpoll : s.poll = .cleared live) :
    ({ s with poll := .bumped live, generation := s.generation + 1 } : State).Tracked := by
  have hwatched := hs.watched
  simp only [Watched, hpoll] at hwatched
  have hlt : ∀ c ∈ s.capturers, c.gen < s.generation + 1 := fun c hc =>
    Nat.lt_succ_of_le (hs.capturers_le c hc)
  exact ⟨fun c hc => (hlt c hc).le, fun b hb => (hs.builds_le b hb).mono (Nat.le_succ _),
    fun g hg => (hs.past g hg).trans (Nat.le_succ _),
    fun c hc hgen => absurd hgen (hlt c hc).ne, fun c hc hgen =>
      absurd hgen (hlt c hc).ne, hs.quiet, hwatched, fun _ => hlt⟩

/-- It makes the layout it read the baseline. -/
theorem Tracked.rebase (hs : s.Tracked) (hpoll : s.poll = .bumped live) :
    ({ s with poll := .rebased live, memory := s.memory.resetBaseline live } : State).Tracked := by
  have hwatched := hs.watched
  simp only [Watched, hpoll] at hwatched
  refine ⟨hs.capturers_le, hs.builds_le, hs.past, fun c hc hgen hne => ?_,
    fun c hc hgen hnil => (owed_of_owing hpoll rfl (hs.blind c hc hgen hnil)).imp_left .inl,
      hs.quiet, hwatched⟩
  have hrects : logicalRectsOf c.displays ≠ [] := fun hnil => hne (logicalRectsOf_eq_nil.mp hnil)
  exact (owed_of_owing hpoll rfl (hs.shown c hc hgen hne)).imp .inl fun hcovers =>
    hcovers.resetBaseline hrects live

theorem Tracked.return (hs : s.Tracked) (hpoll : s.poll = .rebased live) :
    ({ s with poll := .idle, memory := { s.memory with live := live } } : State).Tracked := by
  exact ⟨hs.capturers_le, hs.builds_le, hs.past,
    fun c hc hgen hne => (owed_of_owing hpoll rfl (hs.shown c hc hgen hne)).imp_left .inl,
    fun c hc hgen hnil => (owed_of_owing hpoll rfl (hs.blind c hc hgen hnil)).imp_left .inl,
      hs.quiet, trivial⟩

/-- Whatever a poll does next is tracked. -/
theorem Tracked.pollStep (hs : s.Tracked) (ok : Bool) : (s.pollStep ok).Tracked := by
  rw [State.pollStep]
  split
  case h_1 hpoll =>
    split
    case isTrue h => exact hs.query h.2 hpoll
    case isFalse => exact hs
  case h_2 hpoll => exact hs.observe hpoll
  case h_3 hpoll => exact hs.latch hpoll
  case h_4 hpoll =>
    split
    · exact hs.promote hpoll
    · exact hs.put_off hpoll
  case h_5 hpoll => exact hs.clear hpoll
  case h_6 hpoll => exact hs.bump hpoll
  case h_7 hpoll => exact hs.rebase hpoll
  case h_8 hpoll => exact hs.return hpoll

/-! ## Steps of the others -/

/-- A poll that a build has run into knows the layout only. -/
theorem Watched.disturbed {s' : State} (h : s.Watched) (hpoll : s'.poll = s.poll)
    (hlayout : s'.layout = s.layout) (hunmoved : s'.unmoved = s.unmoved)
    (hdisturbed : s'.undisturbed = false) : s'.Watched := by
  rw [Watched] at h ⊢
  rw [hpoll, hlayout, hunmoved, hdisturbed]
  cases hs : s.poll with
  | idle => trivial
  | queried live =>
    rw [hs] at h
    exact h
  | observed live changed =>
    rw [hs] at h
    exact ⟨h.1, h.2.1, nofun⟩
  | latched live =>
    rw [hs] at h
    exact ⟨h.1, h.2.1, nofun⟩
  | promoting live | cleared live =>
    rw [hs] at h
    exact h
  | bumped live | rebased live =>
    rw [hs] at h
    exact ⟨h.1, nofun⟩

theorem Tracked.relayout (hs : s.Tracked) (displays : List WaylandDisplayInfo) :
    ({ s with layout := displays, unmoved := false } : State).Tracked := by
  refine ⟨hs.capturers_le, hs.builds_le, hs.past, hs.shown, hs.blind, hs.quiet, ?_⟩
  have hwatched := hs.watched
  rw [Watched] at hwatched ⊢
  cases hpoll : s.poll with
  | idle => trivial
  | queried live =>
    rw [hpoll] at hwatched
    exact ⟨hwatched.1, nofun⟩
  | observed live changed | latched live =>
    rw [hpoll] at hwatched
    exact ⟨hwatched.1, nofun, hwatched.2.2⟩
  | promoting live | cleared live | bumped live | rebased live =>
    rw [hpoll] at hwatched
    exact hwatched

theorem Tracked.begin (hs : s.Tracked) :
    ({ s with builds := s.builds ++ [.read s.generation], undisturbed := false } :
      State).Tracked := by
  refine ⟨hs.capturers_le, fun b hb => ?_, hs.past, hs.shown, hs.blind, nofun,
    hs.watched.disturbed rfl rfl rfl rfl⟩
  rcases List.mem_append.mp hb with hb | hb
  · exact hs.builds_le b hb
  · rw [List.mem_singleton.mp hb]
    exact Nat.le_refl s.generation

/-- While a build is under way, the poll is disturbed. -/
theorem Tracked.disturbed (hs : s.Tracked) {b : Build} (hb : b ∈ s.builds) (hne : b ≠ .finished) :
    s.undisturbed = false := by
  by_contra h
  rw [Bool.not_eq_false] at h
  exact hne (hs.quiet h b hb)

theorem Tracked.read (hs : s.Tracked) {i gen : ℕ} (hb : s.builds[i]? = some (.read gen))
    (cache : Option (List WaylandDisplayInfo)) (displays : List WaylandDisplayInfo) :
    ({ s with cache := cache, builds := s.builds.set i (.taken gen displays) } :
      State).Tracked := by
  have hmem := List.mem_of_getElem? hb
  refine ⟨hs.capturers_le, fun b hb' => ?_, hs.past, hs.shown, hs.blind, fun hun => ?_, hs.watched⟩
  · rcases List.mem_or_eq_of_mem_set hb' with hb' | rfl
    · exact hs.builds_le b hb'
    · have hle : (Build.read gen).Before s.generation := hs.builds_le _ hmem
      exact hle
  · rw [hs.disturbed hmem nofun] at hun
    cases hun

/-- The capturer is covered when it is there. -/
theorem Tracked.record (hs : s.Tracked) {i gen : ℕ} {displays : List WaylandDisplayInfo}
    (hb : s.builds[i]? = some (.taken gen displays)) :
    ({ s.record gen displays with builds := s.builds.set i .finished } : State).Tracked := by
  have hmem := List.mem_of_getElem? hb
  have hgen : gen ≤ s.generation := hs.builds_le _ hmem
  have hdisturbed := hs.disturbed hmem nofun
  have hcover : ∀ c ∈ s.capturers, c.gen = s.generation → c.displays ≠ [] →
      s.Owing ∨ (s.memory.noteCapturer (logicalRectsOf displays) gen).Covers s.generation
        (logicalRectsOf c.displays) :=
    fun c hc hcgen hne => (hs.shown c hc hcgen hne).imp_right fun hcovers =>
      hcovers.noteCapturer (fun hnil => hne (logicalRectsOf_eq_nil.mp hnil)) hgen _
  refine ⟨fun c hc => ?_, fun b hb' => ?_, WaylandLayout.noteCapturer_unseen hs.past hgen,
    fun c hc hcgen hne => ?_,
    fun c hc hcgen hnil => ?_, fun hun => ?_, hs.watched.disturbed rfl rfl rfl hdisturbed⟩
  · rcases List.mem_append.mp hc with hc | hc
    · exact hs.capturers_le c hc
    · rw [List.mem_singleton.mp hc]
      exact hgen
  · rcases List.mem_or_eq_of_mem_set hb' with hb' | rfl
    · exact hs.builds_le b hb'
    · trivial
  · rcases List.mem_append.mp hc with hc | hc
    · exact hcover c hc hcgen hne
    · obtain rfl := List.mem_singleton.mp hc
      obtain rfl : gen = s.generation := hcgen
      exact .inr (WaylandLayout.covers_noteCapturer hs.past fun hnil =>
        hne (logicalRectsOf_eq_nil.mp hnil))
  · rcases List.mem_append.mp hc with hc | hc
    · refine (hs.blind c hc hcgen hnil).imp_right fun hpending => ?_
      show (s.pending || displays.isEmpty) = true
      rw [hpending, Bool.true_or]
    · obtain rfl := List.mem_singleton.mp hc
      obtain rfl : displays = [] := hnil
      exact .inr (Bool.or_true s.pending)
  · have hun' : s.undisturbed = true := hun
    rw [hdisturbed] at hun'
    cases hun'

theorem Tracked.shrink (hs : s.Tracked) {capturers : List Capturer}
    (hsub : ∀ c ∈ capturers, c ∈ s.capturers) (told : ℕ) :
    ({ s with capturers := capturers, told := told } : State).Tracked := by
  refine ⟨fun c hc => hs.capturers_le c (hsub c hc), hs.builds_le, hs.past,
    fun c hc => hs.shown c (hsub c hc),
    fun c hc => hs.blind c (hsub c hc), hs.quiet, ?_⟩
  have hwatched := hs.watched
  rw [Watched] at hwatched ⊢
  cases hpoll : s.poll with
  | idle => trivial
  | queried live | observed live changed | latched live | promoting live | cleared live =>
    rw [hpoll] at hwatched
    exact hwatched
  | bumped live | rebased live =>
    rw [hpoll] at hwatched
    exact ⟨hwatched.1, fun hun c hc => hwatched.2 hun c (hsub c hc)⟩

theorem Tracked.setBaseline (hs : s.Tracked) (baseline : List DisplayRect) :
    ({ s with memory := s.memory.resetBaseline baseline } : State).Tracked := by
  refine ⟨hs.capturers_le, hs.builds_le, hs.past, fun c hc hgen hne => ?_, hs.blind, hs.quiet, ?_⟩
  · have hrects : logicalRectsOf c.displays ≠ [] := fun hnil => hne (logicalRectsOf_eq_nil.mp hnil)
    exact (hs.shown c hc hgen hne).imp_right fun hcovers => hcovers.resetBaseline hrects baseline
  have hwatched := hs.watched
  rw [Watched] at hwatched ⊢
  cases hpoll : s.poll with
  | idle => trivial
  | observed live changed =>
    rw [hpoll] at hwatched
    exact ⟨hwatched.1, hwatched.2.1, fun hun =>
      (hwatched.2.2 hun).resetBaseline hwatched.1 baseline⟩
  | latched live =>
    rw [hpoll] at hwatched
    exact ⟨hwatched.1, hwatched.2.1, fun hun =>
      ⟨(hwatched.2.2 hun).1.resetBaseline hwatched.1 baseline, (hwatched.2.2 hun).2⟩⟩
  | queried live | promoting live | cleared live | bumped live | rebased live =>
    rw [hpoll] at hwatched
    exact hwatched

/-- **Every step is tracked.** -/
theorem Tracked.step {s' : State} {a : Act} (hs : s.Tracked) (h : s.step a = some s') :
    s'.Tracked := by
  cases a with
  | relayout displays =>
    cases h
    exact hs.relayout displays
  | poll ok =>
    cases h
    exact hs.pollStep ok
  | build =>
    cases h
    exact hs.begin
  | go i ok =>
    obtain ⟨b, hb, hstep⟩ := Option.bind_eq_some_iff.mp h
    cases b with
    | read gen =>
      cases hstep
      exact hs.read hb _ _
    | taken gen displays =>
      cases hstep
      exact hs.record hb
    | finished => cases hstep
  | frame i =>
    obtain ⟨c, hc, rfl⟩ := Option.map_eq_some_iff.mp h
    rw [frameStep]
    split
    · exact hs.shrink (fun c hc => List.mem_of_mem_eraseIdx hc) _
    · exact hs
  | drop i =>
    cases h
    exact hs.shrink (fun c hc => List.mem_of_mem_eraseIdx hc) s.told
  | setBaseline baseline =>
    cases h
    exact hs.setBaseline baseline
  | drm available | getDisplays ok | clearCache =>
    cases h
    exact ⟨hs.capturers_le, hs.builds_le, hs.past, hs.shown, hs.blind, hs.quiet, hs.watched⟩

/-! ## After a poll -/

/-- The poll is about to complete with DRM available. -/
def finishes (s : State) : Bool :=
  match s.poll with
  | .latched _ => s.available && !s.owed
  | .rebased _ => true
  | _ => false

/-- A capturer was built blind, or on other rectangles than the live ones. -/
def Misled (s : State) (c : Capturer) : Prop :=
  c.displays = [] ∨ logicalRectsOf c.displays ≠ logicalRectsOf s.layout

/-- A poll that ends undisturbed leaves no capturer of the new generation misled. -/
theorem Tracked.finished {s : State} (hs : s.Tracked) (hfinishes : s.finishes = true)
    (hundisturbed : s.undisturbed = true) (hunmoved : s.unmoved = true) (ok : Bool) :
    ∀ c ∈ (s.pollStep ok).capturers, (s.pollStep ok).Misled c →
      c.gen < (s.pollStep ok).generation := by
  have hwatched := hs.watched
  rw [Watched] at hwatched
  rw [finishes] at hfinishes
  rw [State.pollStep]
  cases hpoll : s.poll with
  | latched live =>
    rw [hpoll] at hfinishes hwatched
    rw [Bool.and_eq_true, Bool.not_eq_true'] at hfinishes
    obtain ⟨-, hlive, hholds⟩ := hwatched
    obtain ⟨⟨hseen, hunseen⟩, hpending⟩ := hholds hundisturbed
    simp only [hfinishes.2, Bool.false_and, Bool.false_eq_true, if_false]
    intro c hc hmisled
    by_contra hge
    have hgen : c.gen = s.generation := Nat.le_antisymm (hs.capturers_le c hc) (Nat.not_lt.mp hge)
    have hnot : s.owed ≠ true := by rw [hfinishes.2]; exact Bool.false_ne_true
    by_cases hnil : c.displays = []
    · obtain howed | hflag := owed_of_owing hpoll rfl (hs.blind c hc hgen hnil)
      · exact hnot howed
      · rw [hpending] at hflag
        cases hflag
    · obtain howed | hrects | hflag := owed_of_owing hpoll rfl (hs.shown c hc hgen hnil)
      · exact hnot howed
      · refine hmisled.elim hnil fun hne => hne ?_
        rw [hrects, hseen, hlive hunmoved]
      · rw [hunseen] at hflag
        cases hflag
  | rebased live =>
    rw [hpoll] at hwatched
    exact fun c hc _ => hwatched.2 hundisturbed c hc
  | _ =>
    rw [hpoll] at hfinishes
    cases hfinishes

/-! ## When the layout stays as it is -/

/-- The outputs stay as they are, and a build gets a snapshot. -/
def calm (s : State) : Act → Bool
  | .relayout displays => displays = s.layout
  | .go i ok =>
    match s.builds[i]? with
    | some (.read _) => s.getDisplays ok ≠ []
    | _ => true
  | _ => true

/-- The snapshot that is cached is of another layout. -/
def StaleCache (s : State) : Prop :=
  ∃ displays, s.cache = some displays ∧ logicalRectsOf displays ≠ logicalRectsOf s.layout

/-- No build of this generation has, or will find, a snapshot of another layout. -/
def Clean (s : State) : Prop :=
  ¬s.StaleCache ∧
    ∀ displays, .taken s.generation displays ∈ s.builds → displays ≠ [] →
      logicalRectsOf displays = logicalRectsOf s.layout

/-- The poll has the answer to a query of another layout. -/
def Outdated (s : State) : Prop := ∃ live, s.poll = .queried live ∧ live ≠ logicalRectsOf s.layout

/-- What is remembered is the layout, and stays so. -/
def Settled (s : State) : Prop :=
  s.memory.seen = logicalRectsOf s.layout ∧ logicalRectsOf s.layout ≠ [] ∧ ¬s.Outdated

/-- The generation will be raised, or may still be for a build from an old snapshot. -/
def Unrest (s : State) : Prop :=
  ¬s.Clean ∨ s.Owing ∨ s.Settled ∧ s.memory.unseenBuild = some s.generation

/-- The cache has been filled with an old snapshot between the clear and the bump. -/
def Refilled (s : State) : Prop := (∃ live, s.poll = .cleared live) ∧ s.StaleCache

/-- Builds that have found no snapshot and have not said so yet. -/
def blindBuilds (s : State) : ℕ := s.builds.countP fun b => match b with
  | .taken _ [] => true
  | _ => false

end State

open Classical in
/-- A condition as a number. -/
noncomputable def indicator (P : Prop) : ℕ := if P then 1 else 0

theorem indicator_le_one (P : Prop) : indicator P ≤ 1 := by
  rw [indicator]
  split
  · exact Nat.le_refl 1
  · exact Nat.zero_le 1

theorem indicator_of {P : Prop} (h : P) : indicator P = 1 := if_pos h

theorem indicator_not {P : Prop} (h : ¬P) : indicator P = 0 := if_neg h

theorem indicator_mono {P Q : Prop} (h : P → Q) : indicator P ≤ indicator Q := by
  by_cases hP : P
  · rw [indicator_of hP, indicator_of (h hP)]
  · rw [indicator_not hP]
    exact Nat.zero_le _

namespace State

/-- How often the generation may still be raised, once the layout stays as it is. -/
noncomputable def potential (s : State) : ℕ :=
  indicator s.Unrest + indicator s.Outdated + indicator (¬s.Settled) + indicator s.Refilled +
    s.pending.toNat + s.blindBuilds

theorem potential_le (s : State) : s.potential ≤ 5 + s.blindBuilds := by
  have h₁ := indicator_le_one s.Unrest
  have h₂ := indicator_le_one s.Outdated
  have h₃ := indicator_le_one ¬s.Settled
  have h₄ := indicator_le_one s.Refilled
  have h₅ := Bool.toNat_le s.pending
  rw [potential]
  omega

variable {s s' : State} {live : List DisplayRect} {ok : Bool}

/-- What is remembered changes only from nothing, and then the potential may pay for it. -/
theorem unrest_settled (hclean : s.Clean → s'.Clean) (howing : s'.Owing → s.Owing)
    (hkept : s.Settled → s'.Settled) (hunseen : s.Settled → s.Clean →
    s'.memory.unseenBuild = some s'.generation →
      s.memory.unseenBuild = some s.generation) :
    indicator s'.Unrest + indicator (¬s'.Settled) ≤ indicator s.Unrest +
      indicator (¬s.Settled) := by
  by_cases hsettled : s.Settled
  · rw [indicator_not (not_not.mpr hsettled), indicator_not (not_not.mpr (hkept hsettled))]
    refine Nat.add_le_add_right (indicator_mono ?_) 0
    rintro (h | h | h)
    · exact .inl fun hc => h (hclean hc)
    · exact .inr (.inl (howing h))
    · by_cases hc : s.Clean
      · exact .inr (.inr ⟨hsettled, hunseen hsettled hc h.2⟩)
      · exact .inl hc
  · rw [indicator_of hsettled]
    by_cases hsettled' : s'.Settled
    · rw [indicator_not (not_not.mpr hsettled')]
      exact Nat.le_trans (indicator_le_one _) (Nat.le_add_left _ _)
    · rw [indicator_of hsettled']
      refine Nat.add_le_add_right (indicator_mono ?_) 1
      rintro (h | h | h)
      · exact .inl fun hc => h (hclean hc)
      · exact .inr (.inl (howing h))
      · exact absurd h.1 hsettled'

theorem potential_mono
    (hrest : indicator s'.Unrest + indicator (¬s'.Settled) ≤ indicator s.Unrest +
    indicator (¬s.Settled))
    (houtdated : s'.Outdated → s.Outdated) (hrefilled : s'.Refilled → s.Refilled)
    (hblind : s'.pending.toNat + s'.blindBuilds ≤ s.pending.toNat + s.blindBuilds) :
    s'.potential ≤ s.potential := by
  have h₁ := indicator_mono houtdated
  have h₂ := indicator_mono hrefilled
  rw [potential, potential]
  omega

/-- Nothing is owed any more once the poll has gone on to promote. -/
def Decided (s : State) : Prop :=
  match s.poll with
  | .promoting _ => s.owed = false
  | .cleared _ => s.owed = false
  | .bumped _ => s.owed = false
  | .rebased _ => s.owed = false
  | _ => True

theorem Decided.step {a : Act} (hs : s.Decided) (h : s.step a = some s') : s'.Decided := by
  cases a with
  | poll ok =>
    cases h
    rw [Decided] at hs
    fun_cases State.pollStep s ok with
    | case1 | case3 | case4 | case6 => trivial
    | case2 hpoll _ =>
      rw [Decided, hpoll]
      trivial
    | case5 => rfl
    | case7 live hpoll | case8 live hpoll | case9 live hpoll =>
      rw [hpoll] at hs
      exact hs
    | case10 => trivial
  | go i ok =>
    obtain ⟨b, hb, hstep⟩ := Option.bind_eq_some_iff.mp h
    cases b with
    | finished => cases hstep
    | _ =>
      cases hstep
      exact hs
  | frame i =>
    obtain ⟨c, hc, rfl⟩ := Option.map_eq_some_iff.mp h
    rw [frameStep]
    split <;> exact hs
  | _ =>
    cases h
    exact hs

theorem potential_query (s : State) (undisturbed unmoved : Bool) : ({ s with
      poll := .queried (logicalRectsOf s.layout), undisturbed := undisturbed, unmoved := unmoved } :
      State).potential ≤ s.potential := by
  have hnot : ¬State.Outdated { s with
      poll := .queried (logicalRectsOf s.layout), undisturbed := undisturbed, unmoved :=
        unmoved } := by
    rintro ⟨live, hlive, hne⟩
    cases hlive
    exact hne rfl
  refine potential_mono (unrest_settled id ?_ ?_ fun _ _ => id) (fun h => absurd h hnot)
    ?_ (Nat.le_refl _)
  · rintro (h | h)
    · exact .inl h
    · cases h
  · exact fun h => ⟨h.1, h.2.1, hnot⟩
  · rintro ⟨⟨live, hlive⟩, -⟩
    cases hlive

/-- An edge is paid for by what the poll did not know before, or by a build from an old snapshot. -/
theorem potential_observe (hs : s.Tracked) (hpoll : s.poll = .queried live) : ({ s with
      poll := .observed live (s.memory.edge live s.cache.isNone s.generation)
      memory := s.memory.observe live } : State).potential ≤ s.potential := by
  have hwatched := hs.watched
  simp only [Watched, hpoll] at hwatched
  generalize hs' : ({ s with
      poll := .observed live (s.memory.edge live s.cache.isNone s.generation)
      memory := s.memory.observe live } : State) = s'
  have houtdated : ¬s'.Outdated := by
    subst hs'
    rintro ⟨live', hlive, -⟩
    cases hlive
  have hrefilled : ¬s'.Refilled := by
    subst hs'
    rintro ⟨⟨live', hlive⟩, -⟩
    cases hlive
  have hsame : s'.pending = s.pending ∧ s'.blindBuilds = s.blindBuilds := by
    subst hs'
    exact ⟨rfl, rfl⟩
  have hunrest := indicator_le_one s'.Unrest
  rw [potential, potential, indicator_not houtdated, indicator_not hrefilled, hsame.1, hsame.2]
  by_cases hlive : live = logicalRectsOf s.layout
  · have hsettled' : s'.Settled := by
      subst hs'
      exact ⟨hlive, hlive ▸ hwatched.1, houtdated⟩
    rw [indicator_not (not_not.mpr hsettled')]
    by_cases hsettled : s.Settled
    · have hle : indicator s'.Unrest ≤ indicator s.Unrest := by
        refine indicator_mono ?_
        subst hs'
        rintro (h | (h | h) | ⟨-, h⟩)
        · exact .inl h
        · exact .inr (.inl (.inl h))
        · -- the edge has another reason than the layout
          have hedge : s.memory.edge live s.cache.isNone s.generation = true := h
          rw [WaylandLayout.edge, hsettled.1, hlive] at hedge
          split at hedge
          case isTrue hunseen => exact .inr (.inr ⟨hsettled, hunseen⟩)
          case isFalse =>
            rw [if_pos hsettled.2.1] at hedge
            exact absurd rfl (of_decide_eq_true hedge)
        · cases h
      omega
    · rw [indicator_of hsettled]
      omega
  · have hold : s.Outdated := ⟨live, hpoll, hlive⟩
    have hunsettled : ¬s.Settled := fun h => h.2.2 hold
    have hsettled' := indicator_le_one (¬s'.Settled)
    rw [indicator_of hold, indicator_of hunsettled]
    omega

/-- A blind build pays for the promotion it asks for. -/
theorem potential_latch {changed : Bool} (hpoll : s.poll = .observed live changed) :
    ({ s with poll := .latched live, pending := false, owed := s.owed || changed || s.pending } :
      State).potential ≤
      s.potential := by
  generalize hs' :
    ({ s with poll := .latched live, pending := false, owed := s.owed || changed || s.pending } :
      State) = s'
  have houtdated : ¬s'.Outdated := by
    subst hs'
    rintro ⟨live', hlive, -⟩
    cases hlive
  have hrefilled : ¬s'.Refilled := by
    subst hs'
    rintro ⟨⟨live', hlive⟩, -⟩
    cases hlive
  have hold : ¬s.Outdated := by
    rintro ⟨live', hlive, -⟩
    rw [hpoll] at hlive
    cases hlive
  have hsettled : s'.Settled ↔ s.Settled := by
    subst hs'
    exact ⟨fun h => ⟨h.1, h.2.1, hold⟩, fun h => ⟨h.1, h.2.1, houtdated⟩⟩
  have hsame : s'.pending = false ∧ s'.blindBuilds = s.blindBuilds := by
    subst hs'
    exact ⟨rfl, rfl⟩
  rw [potential, potential, indicator_not houtdated, indicator_not hrefilled, hsame.1, hsame.2,
    hsettled]
  cases hpending : s.pending with
  | true =>
    have hunrest := indicator_le_one s'.Unrest
    simp only [Bool.toNat_false, Bool.toNat_true]
    omega
  | false =>
    have hle : indicator s'.Unrest ≤ indicator s.Unrest := by
      refine indicator_mono ?_
      rintro (h | (h | h) | ⟨hset, h⟩)
      · subst hs'
        exact .inl h
      · subst hs'
        have howed : (s.owed || changed || s.pending) = true := h
        rw [hpending, Bool.or_false, Bool.or_eq_true] at howed
        refine .inr (.inl (howed.imp_right fun hchanged => ?_))
        rw [hpoll]
        exact hchanged
      · subst hs'
        cases h
      · refine .inr (.inr ⟨hsettled.mp hset, ?_⟩)
        subst hs'
        exact h
    omega

/-- The poll goes on, to where it is not about to raise the generation if it was not before. -/
theorem potential_goto {poll : Poll} {owed : Bool} (hqueried : ∀ live, poll ≠ .queried live)
    (hcleared : ∀ live, poll ≠ .cleared live) (howing : owed = true ∨ poll.owing = true → s.Owing) :
    ({ s with poll := poll, owed := owed } : State).potential ≤ s.potential := by
  have houtdated : ¬State.Outdated { s with poll := poll, owed := owed } := fun ⟨live, hlive, _⟩ =>
    hqueried live hlive
  have hrefilled : ¬State.Refilled { s with poll := poll, owed := owed } :=
    fun ⟨⟨live, hlive⟩, _⟩ => hcleared live hlive
  exact potential_mono (unrest_settled id howing (fun h => ⟨h.1, h.2.1, houtdated⟩) fun _ _ => id)
    (fun h => absurd h houtdated) (fun h => absurd h hrefilled) (Nat.le_refl _)

theorem potential_clear (hpoll : s.poll = .promoting live) :
    ({ s with poll := .cleared live, cache := none } : State).potential ≤ s.potential := by
  have hfresh : ¬State.StaleCache { s with poll := .cleared live, cache := none } :=
    fun ⟨_, hcache, _⟩ => nomatch hcache
  have houtdated : ¬State.Outdated { s with poll := .cleared live, cache := none } :=
    fun ⟨_, hlive, _⟩ => nomatch hlive
  refine potential_mono (unrest_settled (fun h => ⟨hfresh, h.2⟩) (fun _ => .inr ?_)
    (fun h => ⟨h.1, h.2.1, houtdated⟩)
    fun _ _ => id) (fun h => absurd h houtdated) (fun h => absurd h.2 hfresh) (Nat.le_refl _)
  rw [hpoll]
  rfl

/-- The generation is raised: nothing is left that a promotion was for, but for a snapshot that came
between. -/
theorem potential_bump (hs : s.Tracked) (hdecided : s.Decided) (hpoll : s.poll = .cleared live) :
    s.generation + 1 +
      ({ s with poll := .bumped live, generation := s.generation + 1 } : State).potential ≤
      s.generation + s.potential := by
  generalize hs' : ({ s with poll := .bumped live, generation := s.generation + 1 } : State) = s'
  have houtdated : ¬s'.Outdated := by
    subst hs'
    rintro ⟨live', hlive, -⟩
    cases hlive
  have hrefilled : ¬s'.Refilled := by
    subst hs'
    rintro ⟨⟨live', hlive⟩, -⟩
    cases hlive
  have hold : ¬s.Outdated := by
    rintro ⟨live', hlive, -⟩
    rw [hpoll] at hlive
    cases hlive
  have hsettled : s'.Settled ↔ s.Settled := by
    subst hs'
    exact ⟨fun h => ⟨h.1, h.2.1, hold⟩, fun h => ⟨h.1, h.2.1, houtdated⟩⟩
  have hunrest : s.Unrest := .inr (.inl (.inr (by rw [hpoll]; rfl)))
  have hpaid : indicator s'.Unrest ≤ indicator s.Refilled := by
    refine indicator_mono ?_
    subst hs'
    rintro (h | (h | h) | ⟨-, h⟩)
    · -- builds of the new generation there are none
      refine ⟨⟨live, hpoll⟩, by_contra fun hfresh => h ⟨hfresh, fun displays hmem => ?_⟩⟩
      have hle : s.generation + 1 ≤ s.generation := hs.builds_le _ hmem
      omega
    · rw [Decided, hpoll] at hdecided
      have howed : s.owed = true := h
      rw [hdecided] at howed
      cases howed
    · cases h
    · have hle : s.generation + 1 ≤ s.generation := hs.past _ h
      omega
  have hsame : s'.pending = s.pending ∧ s'.blindBuilds = s.blindBuilds := by
    subst hs'
    exact ⟨rfl, rfl⟩
  rw [potential, potential, indicator_of hunrest, indicator_not houtdated, indicator_not hold,
    indicator_not hrefilled, hsame.1,
    hsame.2, hsettled]
  omega

theorem settled_resetBaseline (h : s.Settled) (baseline : List DisplayRect) (poll : Poll)
    (hpoll : ∀ live, poll = .queried live → s.poll = poll) :
    State.Settled { s with poll := poll, memory := s.memory.resetBaseline baseline } := by
  refine ⟨?_, h.2.1, ?_⟩
  · exact (WaylandLayout.resetBaseline_seen (by rw [h.1]; exact h.2.1) baseline).trans h.1
  · rintro ⟨live, hlive, hne⟩
    exact h.2.2 ⟨live, (hpoll live hlive).trans hlive, hne⟩

theorem potential_resetBaseline (s : State) (baseline : List DisplayRect) :
    ({ s with memory := s.memory.resetBaseline baseline } : State).potential ≤ s.potential :=
  potential_mono (unrest_settled id id (fun h => settled_resetBaseline h baseline s.poll fun _ _ =>
    rfl) fun _ _ => id) id id
    (Nat.le_refl _)

theorem potential_rebase (s : State) (live : List DisplayRect) :
    ({ s with poll := .rebased live, memory := s.memory.resetBaseline live } : State).potential ≤
      s.potential := by
  refine potential_mono (unrest_settled id (fun h => .inl (h.resolve_right Bool.false_ne_true))
    (fun h => settled_resetBaseline h live _ fun _ => nofun) fun _ _ => id) ?_ ?_ (Nat.le_refl _)
  · rintro ⟨live', hlive, -⟩
    cases hlive
  · rintro ⟨⟨live', hlive⟩, -⟩
    cases hlive

theorem potential_return (s : State) (live : List DisplayRect) :
    ({ s with poll := .idle, memory := { s.memory with live := live } } : State).potential ≤
      s.potential := by
  refine potential_mono (unrest_settled id (fun h => .inl (h.resolve_right Bool.false_ne_true))
    (fun h => ⟨h.1, h.2.1, ?_⟩)
    fun _ _ => id) ?_ ?_ (Nat.le_refl _)
  · rintro ⟨live', hlive, -⟩
    cases hlive
  · rintro ⟨live', hlive, -⟩
    cases hlive
  · rintro ⟨⟨live', hlive⟩, -⟩
    cases hlive

/-- A poll pays for a new generation out of the potential. -/
theorem potential_pollStep (hs : s.Tracked) (hdecided : s.Decided) (ok : Bool) :
    (s.pollStep ok).generation + (s.pollStep ok).potential ≤ s.generation + s.potential := by
  fun_cases State.pollStep s ok with
  | case1 => exact Nat.add_le_add_left (potential_query s _ _) _
  | case2 => exact Nat.le_refl _
  | case3 live hpoll => exact Nat.add_le_add_left (potential_observe hs hpoll) _
  | case4 live changed hpoll => exact Nat.add_le_add_left (potential_latch hpoll) _
  | case5 live _ howed =>
    refine Nat.add_le_add_left (potential_goto ?_ ?_ fun _ => .inl ?_) _
    · exact nofun
    · exact nofun
    · exact (Bool.and_eq_true _ _ ▸ howed).1
  | case6 =>
    refine Nat.add_le_add_left (potential_goto ?_ ?_ fun h => .inl ?_) _
    · exact nofun
    · exact nofun
    · exact h.resolve_right Bool.false_ne_true
  | case7 live hpoll => exact Nat.add_le_add_left (potential_clear hpoll) _
  | case8 live hpoll => exact potential_bump hs hdecided hpoll
  | case9 live => exact Nat.add_le_add_left (potential_rebase s live) _
  | case10 live => exact Nat.add_le_add_left (potential_return s live) _

/-! ## Builds -/

/-- A snapshot that is taken now is of the layout, or was in the cache. -/
theorem mem_fill {displays : List WaylandDisplayInfo} (h : s.fill ok = some displays) :
    s.cache = some displays ∨ displays = s.layout := by
  fun_cases State.fill s ok with
  | case1 cached hcache =>
    rw [fill, hcache] at h
    exact .inl (hcache.trans h)
  | case2 hcache hok =>
    rw [fill, hcache] at h
    simp only [hok, if_true] at h
    exact .inr (Option.some.inj h).symm
  | case3 hcache hok =>
    rw [fill, hcache] at h
    simp only [hok] at h
    cases h

theorem getDisplays_cases (s : State) (ok : Bool) :
    s.cache = some (s.getDisplays ok) ∨ s.getDisplays ok = s.layout ∨ s.getDisplays ok = [] := by
  fun_cases State.getDisplays s ok with
  | case1 cached hcache => exact .inl hcache
  | case2 => exact .inr (.inl rfl)
  | case3 => exact .inr (.inr rfl)

theorem staleCache_fill {builds : List Build}
    (h : State.StaleCache { s with cache := s.fill ok, builds := builds }) : s.StaleCache := by
  obtain ⟨displays, hcache, hne⟩ := h
  obtain hcached | rfl := mem_fill hcache
  · exact ⟨displays, hcached, hne⟩
  · exact absurd rfl hne

theorem potential_getDisplays (s : State) (ok : Bool) :
    ({ s with cache := s.fill ok } : State).potential ≤ s.potential :=
  potential_mono (unrest_settled (fun h => ⟨fun hstale => h.1 (staleCache_fill hstale), h.2⟩)
    id id fun _ _ => id) id
    (fun h => ⟨h.1, staleCache_fill h.2⟩) (Nat.le_refl _)

theorem potential_clearCache (s : State) :
    ({ s with cache := none } : State).potential ≤ s.potential := by
  have hfresh : ¬State.StaleCache { s with cache := none } := fun ⟨_, hcache, _⟩ => nomatch hcache
  exact potential_mono (unrest_settled (fun h => ⟨hfresh, h.2⟩) id id fun _ _ => id)
    id (fun h => absurd h.2 hfresh)
    (Nat.le_refl _)

theorem potential_begin (s : State) :
    ({ s with builds := s.builds ++ [.read s.generation], undisturbed := false } :
      State).potential ≤ s.potential := by
  refine potential_mono (unrest_settled (fun h => ⟨h.1, fun displays hmem => h.2 displays ?_⟩)
    id id fun _ _ => id) id id ?_
  · rcases List.mem_append.mp hmem with hmem | hmem
    · exact hmem
    · cases List.mem_singleton.mp hmem
  · show s.pending.toNat + List.countP _ (s.builds ++ [_]) ≤ _
    rw [List.countP_append]
    exact Nat.le_refl _

/-- A build takes a snapshot: an old one only if it was in the cache. -/
theorem potential_read {i gen : ℕ} (hb : s.builds[i]? = some (.read gen))
    (hcalm : s.getDisplays ok ≠ []) :
    ({ s with cache := s.fill ok, builds := s.builds.set i (.taken gen (s.getDisplays ok)) } :
      State).potential ≤ s.potential := by
  have hclean : s.Clean →
      State.Clean { s with
        cache := s.fill ok, builds := s.builds.set i (.taken gen (s.getDisplays ok)) } := by
    intro h
    refine ⟨fun hstale => h.1 (staleCache_fill hstale), fun displays hmem hne => ?_⟩
    rcases List.mem_or_eq_of_mem_set hmem with hmem | heq
    · exact h.2 displays hmem hne
    · obtain ⟨-, rfl⟩ := Build.taken.inj heq
      obtain hcache | hlayout | hnil := getDisplays_cases s ok
      · by_contra hrects
        exact h.1 ⟨_, hcache, hrects⟩
      · rw [hlayout]
      · exact absurd hnil hcalm
  refine potential_mono (unrest_settled hclean id id fun _ _ => id)
    id (fun h => ⟨h.1, staleCache_fill h.2⟩) ?_
  have hcount := @countP_step _ (fun b : Build => match b with
    | .taken _ [] => true
    | _ => false) _ _ _ hb (.taken gen (s.getDisplays ok))
  have hnot : (match Build.taken gen (s.getDisplays ok) with
    | .taken _ [] => true
    | _ => false) = false := by
    cases hdisplays : s.getDisplays ok with
    | nil => exact absurd hdisplays hcalm
    | cons d displays => rfl
  rw [hnot] at hcount
  exact Nat.add_le_add_left (Nat.le_of_eq hcount) _

theorem settled_noteCapturer (h : s.Settled) (rects : List DisplayRect) (gen : ℕ) :
    (s.memory.noteCapturer rects gen).seen = s.memory.seen := by
  have hne : s.memory.seen ≠ [] := by
    rw [h.1]
    exact h.2.1
  fun_cases WaylandLayout.noteCapturer s.memory rects gen with
  | case2 _ hnil => exact absurd hnil hne
  | _ => rfl

/-- A capturer that was built on what is remembered is not flagged for the current generation. -/
theorem unseen_noteCapturer (hs : s.Tracked) (hsettled : s.Settled) {rects : List DisplayRect}
    {gen : ℕ} (hrects : gen = s.generation → rects = [] ∨ rects = logicalRectsOf s.layout)
    (h : (s.memory.noteCapturer rects gen).unseenBuild = some s.generation) :
    s.memory.unseenBuild = some s.generation := by
  revert h
  fun_cases WaylandLayout.noteCapturer s.memory rects gen with
  | case1 => exact id
  | case2 => exact id
  | case3 hne _ hdiffers =>
    intro h
    have hlt : gen ≠ s.generation := fun heq => (hrects heq).elim hne fun hlayout =>
      hdiffers (hsettled.1.trans hlayout.symm)
    cases hunseen : s.memory.unseenBuild with
    | none =>
      rw [hunseen] at h
      exact absurd (Option.some.inj h) hlt
    | some u =>
      rw [hunseen, Option.elim_some] at h
      have hmax : max u gen = s.generation := Option.some.inj h
      have hu := hs.past u hunseen
      have heq : u = s.generation := by omega
      rw [heq]
  | case4 => exact id

/-- A build is recorded: it is flagged only if its snapshot is old, or if the layout has not been
seen yet. -/
theorem potential_record (hs : s.Tracked) {i gen : ℕ} {displays : List WaylandDisplayInfo}
    (hb : s.builds[i]? = some (.taken gen displays)) :
    ({ s.record gen displays with builds := s.builds.set i .finished } : State).potential ≤
      s.potential := by
  have hmem := List.mem_of_getElem? hb
  refine potential_mono (unrest_settled (fun h => ⟨h.1, fun displays' hmem' => h.2 displays' ?_⟩) id
    (fun h => ⟨(settled_noteCapturer h _ gen).trans h.1, h.2⟩) fun hsettled hclean =>
      unseen_noteCapturer hs hsettled ?_) id id ?_
  · rcases List.mem_or_eq_of_mem_set hmem' with hmem' | heq
    · exact hmem'
    · cases heq
  · rintro rfl
    by_cases hnil : displays = []
    · exact .inl (logicalRectsOf_eq_nil.mpr hnil)
    · exact .inr (hclean.2 displays hmem hnil)
  · have hcount := @countP_step _ (fun b : Build => match b with
      | .taken _ [] => true
      | _ => false) _ _ _ hb .finished
    show (s.pending || displays.isEmpty).toNat + List.countP _ (s.builds.set i .finished) ≤
      s.pending.toNat + s.blindBuilds
    rw [blindBuilds]
    cases displays with
    | nil =>
      simp only [List.isEmpty_nil, Bool.or_true, Bool.toNat_true, Bool.toNat_false] at hcount ⊢
      omega
    | cons d displays =>
      simp only [List.isEmpty_cons, Bool.or_false, Bool.toNat_false] at hcount ⊢
      omega

/-- **While the layout stays, generation and potential together never grow.** -/
theorem potential_step {a : Act} (hs : s.Tracked) (hdecided : s.Decided) (hcalm : s.calm a = true)
    (h : s.step a = some s') : s'.generation + s'.potential ≤ s.generation + s.potential := by
  cases a with
  | relayout displays =>
    cases h
    obtain rfl : displays = s.layout := of_decide_eq_true hcalm
    exact Nat.le_refl _
  | poll ok =>
    cases h
    exact potential_pollStep hs hdecided ok
  | build =>
    cases h
    exact Nat.add_le_add_left (potential_begin s) _
  | go i ok =>
    obtain ⟨b, hb, hstep⟩ := Option.bind_eq_some_iff.mp h
    cases b with
    | read gen =>
      cases hstep
      simp only [calm, hb, decide_eq_true_eq] at hcalm
      exact Nat.add_le_add_left (potential_read hb hcalm) _
    | taken gen displays =>
      cases hstep
      exact Nat.add_le_add_left (potential_record hs hb) _
    | finished => cases hstep
  | frame i =>
    obtain ⟨c, hc, rfl⟩ := Option.map_eq_some_iff.mp h
    rw [frameStep]
    split <;> exact Nat.le_refl _
  | getDisplays ok =>
    cases h
    exact Nat.add_le_add_left (potential_getDisplays s ok) _
  | clearCache =>
    cases h
    exact Nat.add_le_add_left (potential_clearCache s) _
  | setBaseline baseline =>
    cases h
    exact Nat.add_le_add_left (potential_resetBaseline s baseline) _
  | drm available | drop i =>
    cases h
    exact Nat.le_refl _

/-! ## Capturers that are told -/

end State

/-- A build that will leave a capturer of an earlier generation. -/
def Build.old (generation : ℕ) : Build → Bool
  | read gen => gen < generation
  | taken gen _ => gen < generation
  | finished => false

namespace State

/-- The capturers of an earlier generation among those that are there and those being built. -/
def staleIn (generation : ℕ) (capturers : List Capturer) (builds : List Build) : ℕ :=
  capturers.countP (fun c => c.gen < generation) + builds.countP (Build.old generation)

def stale (s : State) : ℕ := staleIn s.generation s.capturers s.builds

theorem generation_le {s s' : State} {a : Act} (h : s.step a = some s') :
    s.generation ≤ s'.generation := by
  cases a with
  | poll ok =>
    cases h
    fun_cases State.pollStep s ok with
    | case8 => exact Nat.le_succ _
    | _ => exact Nat.le_refl _
  | go i ok =>
    obtain ⟨b, hb, hstep⟩ := Option.bind_eq_some_iff.mp h
    cases b with
    | finished => cases hstep
    | _ =>
      cases hstep
      exact Nat.le_refl _
  | frame i =>
    obtain ⟨c, hc, rfl⟩ := Option.map_eq_some_iff.mp h
    rw [frameStep]
    split <;> exact Nat.le_refl _
  | _ =>
    cases h
    exact Nat.le_refl _

/-- While the generation stays, only capturers of earlier ones are told, each once. -/
theorem told_step {s s' : State} {a : Act} (hs : s.Tracked) (h : s.step a = some s')
    (hgen : s'.generation = s.generation) : s'.told + s'.stale ≤ s.told + s.stale := by
  cases a with
  | poll ok =>
    cases h
    revert hgen
    fun_cases State.pollStep s ok with
    | case8 =>
      intro hgen
      exact absurd hgen (Nat.succ_ne_self _)
    | _ =>
      intro _
      exact Nat.le_refl _
  | build =>
    cases h
    refine Nat.add_le_add_left (Nat.add_le_add_left ?_ _) _
    rw [List.countP_append]
    simp [Build.old]
  | go i ok =>
    obtain ⟨b, hb, hstep⟩ := Option.bind_eq_some_iff.mp h
    cases b with
    | read gen =>
      cases hstep
      have hcount := @countP_step _ (Build.old s.generation)
        _ _ _ hb (.taken gen (s.getDisplays ok))
      refine Nat.add_le_add_left (Nat.add_le_add_left (Nat.le_of_eq ?_) _) _
      exact Nat.add_right_cancel hcount
    | taken gen displays =>
      cases hstep
      have hcount := @countP_step _ (Build.old s.generation) _ _ _ hb .finished
      refine Nat.add_le_add_left ?_ _
      show staleIn s.generation (s.capturers ++ [⟨gen, displays⟩])
        (s.builds.set i .finished) ≤ s.stale
      rw [stale, staleIn, staleIn, List.countP_append, List.countP_singleton]
      by_cases hlt : gen < s.generation
      · simp only [Build.old, hlt, decide_true, if_true, Bool.toNat_true,
          Bool.toNat_false] at hcount ⊢
        omega
      · simp only [Build.old, hlt, decide_false, Bool.false_eq_true, if_false,
          Bool.toNat_false] at hcount ⊢
        omega
    | finished => cases hstep
  | frame i =>
    obtain ⟨c, hc, rfl⟩ := Option.map_eq_some_iff.mp h
    rw [frameStep]
    split
    case isTrue hne =>
      have hle := hs.capturers_le c (List.mem_of_getElem? hc)
      have hlt : c.gen < s.generation := by omega
      have hcount := countP_eraseIdx (p := fun c : Capturer => decide (c.gen < s.generation)) hc
      rw [decide_eq_true hlt] at hcount
      show s.told + 1 + staleIn s.generation (s.capturers.eraseIdx i) s.builds ≤ s.told + s.stale
      rw [stale, staleIn, staleIn]
      simp only [Bool.toNat_true] at hcount
      omega
    case isFalse => exact Nat.le_refl _
  | drop i =>
    cases h
    exact Nat.add_le_add_left (Nat.add_le_add_right ((List.eraseIdx_sublist _ _).countP_le) _) _
  | _ =>
    cases h
    exact Nat.le_refl _

/-! ## All runs -/

theorem exec_tracked {layout : List WaylandDisplayInfo} {acts : List Act} {s : State}
    (h : exec State.step (.start layout) acts = some s) : s.Tracked ∧ s.Decided :=
  exec_invariant (I := fun s => s.Tracked ∧ s.Decided)
    (fun _ _ _ hs hstep => ⟨hs.1.step hstep, hs.2.step hstep⟩)
    ⟨start_tracked layout, trivial⟩ h

/-- In every run: after a poll that completes with DRM available, that no build ran into and since
whose query the outputs are the same, every capturer built blind or on other rectangles is of an
earlier generation; and in the rest of a run, in which the outputs stay as they are and builds get a
snapshot, the generation is raised a bounded number of times, and between two times only the
capturers of earlier generations are told, each once. -/
theorem stale_capturers_rebuilt {layout : List WaylandDisplayInfo} {acts : List Act} {s : State}
    (hrun : exec State.step (.start layout) acts = some s) :
    (∀ ok s', s.step (.poll ok) = some s' → s.finishes = true → s.undisturbed = true →
      s.unmoved = true →
      ∀ c ∈ s'.capturers, s'.Misled c → c.gen < s'.generation) ∧
    ∀ acts' s', exec State.step s acts' = some s' →
      Along State.step (fun s a => s.calm a = true) s acts' →
      s'.generation ≤ s.generation + 5 + s.blindBuilds ∧
      (s'.generation = s.generation → s'.told ≤ s.told + s.stale) := by
  obtain ⟨htracked, hdecided⟩ := exec_tracked hrun
  refine ⟨fun ok s' h hfinishes hundisturbed hunmoved => ?_, fun acts' s' hrest hcalm => ⟨?_, ?_⟩⟩
  · cases h
    exact htracked.finished hfinishes hundisturbed hunmoved ok
  · have hpotential : (s'.Tracked ∧ s'.Decided) ∧
      s'.generation + s'.potential ≤ s.generation + s.potential :=
      exec_invariant_along (I := fun s' => (s'.Tracked ∧ s'.Decided) ∧
        s'.generation + s'.potential ≤ s.generation + s.potential)
        (fun t a t' ht hcalm hstep => ⟨⟨ht.1.1.step hstep, ht.1.2.step hstep⟩,
          (potential_step ht.1.1 ht.1.2 hcalm hstep).trans ht.2⟩)
            ⟨⟨htracked, hdecided⟩, Nat.le_refl _⟩ hcalm hrest
    have hle := s.potential_le
    omega
  · have htold : s'.Tracked ∧ s.generation ≤ s'.generation ∧
        (s'.generation = s.generation → s'.told + s'.stale ≤ s.told + s.stale) :=
      exec_invariant (I := fun s' => s'.Tracked ∧ s.generation ≤ s'.generation ∧
        (s'.generation = s.generation → s'.told + s'.stale ≤ s.told + s.stale))
        (fun t a t' ht hstep => ⟨ht.1.step hstep, ht.2.1.trans (generation_le hstep), fun hgen => by
          have hmono := generation_le hstep
          have hlow := ht.2.1
          have hkept := ht.2.2 (by omega)
          have hnext := told_step ht.1 hstep (by omega)
          omega⟩) ⟨htracked, Nat.le_refl _, fun _ => Nat.le_refl _⟩ hrest
    intro hgen
    have hkept := htold.2.2 hgen
    omega

end State

/-- A monitor, and the same monitor turned. -/
def upright : WaylandDisplayInfo := ⟨"DP-1", 0, 0, 1920, 1080, none, 0⟩

def turned : WaylandDisplayInfo := { upright with transform := 90 }

/-- A capturer is built, the monitor is turned, and the poll promotes; then all is quiet. -/
theorem stale_capturers_rebuilt_turned : ∃ s s', exec State.step (.start [upright])
      [.drm true, .build, .go 0 true, .go 0 true, .relayout [turned], .poll true,
        .poll true, .poll true, .poll true, .poll true, .poll true, .poll true] = some s ∧
      s.step (.poll true) = some s' ∧ (∀ c ∈ s'.capturers, c.gen < s'.generation) ∧
        s'.capturers.length = 1 ∧
      ∃ s'', exec State.step s [.poll true, .frame 0, .build, .go 1 true, .go 1 true, .poll true] =
        some s'' ∧
        s''.generation ≤ s.generation + 5 + s.blindBuilds ∧ s''.told = 1 := by
  have hrun :
    ((exec State.step (.start [upright]) [.drm true, .build, .go 0 true, .go 0 true,
      .relayout [turned], .poll true,
      .poll true, .poll true, .poll true, .poll true, .poll true, .poll true]).any fun s =>
      s.finishes = true ∧ s.undisturbed = true ∧ s.unmoved = true ∧
        ((s.step (.poll true)).any fun s' => s'.capturers = [⟨0, [upright]⟩] ∧
          s'.layout = [turned]) = true ∧
        Along State.step (fun s a => s.calm a = true)
          s [.poll true, .frame 0, .build, .go 1 true, .go 1 true, .poll true] ∧
        ((exec State.step s [.poll true, .frame 0, .build, .go 1 true, .go 1 true, .poll true]).any
          fun s'' =>
          s''.told = 1) = true) = true := by decide +kernel
  obtain ⟨s, hs, hstate⟩ := (Option.any_eq_true _ _).mp hrun
  obtain ⟨hfinishes, hundisturbed, hunmoved, hnext, hcalm, hrest⟩ := of_decide_eq_true hstate
  obtain ⟨s', hs', hcapturers⟩ := (Option.any_eq_true _ _).mp hnext
  obtain ⟨hcapturers, hlayout⟩ := of_decide_eq_true hcapturers
  obtain ⟨s'', hs'', htold⟩ := (Option.any_eq_true _ _).mp hrest
  obtain ⟨hstale, hquiet⟩ := State.stale_capturers_rebuilt hs
  refine ⟨s, s', hs, hs', fun c hc => hstale true s' hs' hfinishes hundisturbed hunmoved c hc ?_, by
    rw [hcapturers]; rfl,
    s'', hs'', (hquiet _ s'' hs'' hcalm).1, of_decide_eq_true htold⟩
  rw [hcapturers] at hc
  rw [List.mem_singleton.mp hc, State.Misled, hlayout]
  exact .inr (by decide +kernel)

end Wayland
end BgDesk
