import BgDesk.EndlessRun
import BgDesk.TransportRace

/-!
# What the race of the transports comes to

Every attempt has a time it ends at and a result, or never ends. `select!` takes any branch that is
ready, at any time from when it is, and `select_ok` any success that is there, with the futures that
still run. What a run keeps of the past is `processed`, the results the branches were given; no step
looks at it.

* `step` — time passes, or a branch is taken;
* `Ends` — what a branch sees of its leg, whichever it is, and `step_cases` — every step in terms of
  it;
* `Underway`, `Outcome` — while the race runs, and when it has returned;
* `exec_lawful` — every run;
* `returns` — a run that is not starved comes to an end;
* `race_outcome` — both together.
-/

namespace BgDesk
namespace TransportRace

variable {T : Type}

/-! ## The attempts -/

/-- An attempt: the time it ends at and its result, or `none` where it never ends. -/
abbrev Attempt (T : Type) := Option (ℕ × Except String T)

/-- The result, once it is there. -/
def resultBy (now : ℕ) : Attempt T → Option (Except String T)
  | some (t, res) => if t ≤ now then some res else none
  | none => none

variable {now windowMs : ℕ}

theorem resultBy_mono {now' : ℕ} (hle : now ≤ now') {attempt : Attempt T} {res : Except String T}
    (h : resultBy now attempt = some res) : resultBy now' attempt = some res := by
  match attempt with
  | none => cases h
  | some (t, res') =>
    rw [resultBy] at h ⊢
    split at h
    · next ht =>
      rw [if_pos (ht.trans hle)]
      exact h
    · cases h

/-- What is raced: one attempt, and a non-empty list of other ones. -/
structure Attempts (T : Type) where
  webrtc : Attempt T
  others : List (Attempt T)
  others_ne : others ≠ []

namespace Attempts

variable (attempts : Attempts T)

def racers : List Racer := .webrtc :: (List.range attempts.others.length).map .other

def get : Racer → Attempt T
  | .webrtc => attempts.webrtc
  | .other i => (attempts.others[i]?).join

/-- The result of an attempt that has ended by `now`. -/
def result (racer : Racer) (now : ℕ) : Option (Except String T) := resultBy now (attempts.get racer)

/-- The attempt has failed by `now`. -/
def failed (racer : Racer) (now : ℕ) : Bool :=
  match attempts.result racer now with
  | some (.error _) => true
  | _ => false

/-- What `select_ok` may give: the success of `i`, with all the futures but those that failed. A
future that has just finished may still be among them. -/
def Selects (now : ℕ) (inner : List ℕ) (i : ℕ) (unfinished : List ℕ) : Prop :=
  i ∈ inner ∧ unfinished.Sublist (inner.erase i) ∧ ∀ j ∈ inner.erase i, j ∉ unfinished →
    attempts.failed (.other j) now = true

instance (now : ℕ) (inner : List ℕ) (i : ℕ) (unfinished : List ℕ) :
    Decidable (attempts.Selects now inner i unfinished) :=
  inferInstanceAs (Decidable (_ ∧ _ ∧ _))

variable {attempts}

theorem result_mono {now now' : ℕ} (hle : now ≤ now') {racer : Racer} {res : Except String T}
    (h : attempts.result racer now = some res) : attempts.result racer now' = some res :=
  resultBy_mono hle h

theorem failed_iff {racer : Racer} {now : ℕ} :
    attempts.failed racer now = true ↔ ∃ e, attempts.result racer now = some (.error e) := by
  unfold failed
  split
  · next e h => exact ⟨fun _ => ⟨e, h⟩, fun _ => rfl⟩
  · next h =>
    constructor
    · rintro ⟨⟩
    · rintro ⟨e, he⟩
      exact absurd he (h e)

end Attempts

/-! ## The race -/

/-- The loop, the clock, and what happened. -/
structure State (T : Type) where
  now : ℕ
  race : Race T
  /-- what was returned, and when -/
  returned : Option (ℕ × Except String T)
  /-- the results the branches were given, and when -/
  processed : List (ℕ × Except String T)

inductive Act where
  /-- time passes -/
  | tick : ℕ → Act
  /-- the branch of `webrtc_fut` -/
  | webrtc : Act
  /-- the branch of `others_fut`, with a success and what comes with it -/
  | others : ℕ → List ℕ → Act
  /-- the branch of `others_fut`, with the error of one of them -/
  | othersFailed : ℕ → Act
  /-- the branch of `window` -/
  | window : Act
  deriving DecidableEq

/-- A branch of `select!`. -/
def Act.IsBranch : Act → Prop
  | tick _ => False
  | _ => True

namespace State

/-- The race before its first pass. -/
def start (attempts : Attempts T) (windowMs : ℕ) : State T where
  now := 0
  race := Race.init windowMs attempts.others.length
  returned := none
  processed := []

def record (res : Except String T) (s : State T) : State T :=
  { s with processed := s.processed ++ [(s.now, res)] }

/-- A pass of the loop. -/
def pass (turn : Turn T) (s : State T) : State T :=
  match turn with
  | .again race => { s with race := race }
  | .done result => { s with returned := some (s.now, result) }

end State

/-- One step: time passes, or a branch that is ready is taken. -/
def step (attempts : Attempts T) (windowMs : ℕ) (isP2p : T → Bool) (s : State T) :
    Act → Option (State T)
  | .tick d => some { s with now := s.now + d }
  | .webrtc =>
    match attempts.result .webrtc s.now with
    | some res =>
      if s.returned.isNone ∧ s.race.webrtcFut then
        some ((s.record res).pass (s.race.webrtcEnded windowMs isP2p s.now res))
      else none
    | none => none
  | .others i unfinished =>
    match s.race.othersFut, attempts.result (.other i) s.now with
    | some inner, some (.ok conn) =>
      if s.returned.isNone ∧ attempts.Selects s.now inner i unfinished then
        some ((s.record (.ok conn)).pass (s.race.othersEnded windowMs isP2p s.now
          (.ok (conn, unfinished))))
      else none
    | _, _ => none
  | .othersFailed i =>
    match s.race.othersFut, attempts.result (.other i) s.now with
    | some inner, some (.error e) =>
      if s.returned.isNone ∧ i ∈ inner ∧ ∀ j ∈ inner, attempts.failed (.other j) s.now = true then
        some ((s.record (.error e)).pass (s.race.othersEnded windowMs isP2p s.now (.error e)))
      else none
    | _, _ => none
  | .window =>
    if s.returned.isNone ∧ s.race.windowStarted ∧
      s.race.window ≤ s.now then some (s.pass s.race.windowElapsed) else none

/-! ## What a step does -/

/-- An attempt has ended with `res`, and `left` still run: besides it, only attempts that failed are
gone. -/
structure Ends (attempts : Attempts T) (now : ℕ) (racing : List Racer) (racer : Racer)
  (left : List Racer)
    (res : Except String T) : Prop where
  mem : racer ∈ racing
  result : attempts.result racer now = some res
  shorter : left.length < racing.length
  subset : left ⊆ racing
  dropped : ∀ r ∈ racing, r ∉ left → r = racer ∨ ∃ e, attempts.result r now = some (.error e)

variable {attempts : Attempts T} {race : Race T} {isP2p : T → Bool}

theorem webrtc_ends {res : Except String T} (hfut : race.webrtcFut = true)
    (hres : attempts.result .webrtc now = some res) :
    Ends attempts now race.standing.racing .webrtc race.othersRacing res := by
  have hracing : race.standing.racing = .webrtc :: race.othersRacing := by
    simp [Race.standing, Race.webrtcRacing, hfut]
  rw [hracing]
  refine ⟨List.mem_cons_self, hres, Nat.lt_succ_self _, List.subset_cons_self _ _, ?_⟩
  intro r hr hnot
  exact .inl ((List.mem_cons.mp hr).resolve_right hnot)

theorem others_ends {inner unfinished : List ℕ} {i : ℕ} {conn : T}
    (hfut : race.othersFut = some inner) (hres : attempts.result (.other i) now = some (.ok conn))
    (hsel : attempts.Selects now inner i unfinished) :
    Ends attempts now race.standing.racing (.other i) (race.webrtcRacing ++ unfinished.map .other)
      (.ok conn) := by
  obtain ⟨hi, hsub, hdrop⟩ := hsel
  have hracing : race.standing.racing = race.webrtcRacing ++ inner.map .other := by
    simp [Race.standing, Race.othersRacing, hfut]
  rw [hracing]
  refine ⟨?_, hres, ?_, ?_, ?_⟩
  · exact List.mem_append_right _ (List.mem_map_of_mem hi)
  · have hle := hsub.length_le
    rw [List.length_erase_of_mem hi] at hle
    have hpos := List.length_pos_of_mem hi
    rw [List.length_append, List.length_append, List.length_map, List.length_map]
    omega
  · intro r hr
    rcases List.mem_append.mp hr with hr | hr
    · exact List.mem_append_left _ hr
    · obtain ⟨j, hj, rfl⟩ := List.mem_map.mp hr
      exact List.mem_append_right _ (List.mem_map_of_mem (List.mem_of_mem_erase (hsub.subset hj)))
  · intro r hr hnot
    rw [List.mem_append, not_or] at hnot
    obtain ⟨j, hj, rfl⟩ := List.mem_map.mp ((List.mem_append.mp hr).resolve_left hnot.1)
    rcases eq_or_ne j i with rfl | hne
    · exact .inl rfl
    · have hj' : j ∉ unfinished := fun hmem => hnot.2 (List.mem_map_of_mem hmem)
      exact .inr (Attempts.failed_iff.mp (hdrop j ((List.mem_erase_of_ne hne).mpr hj) hj'))

theorem othersFailed_ends {inner : List ℕ} {i : ℕ} {e : String} (hfut : race.othersFut = some inner)
    (hres : attempts.result (.other i) now = some (.error e)) (hi : i ∈ inner)
    (hall : ∀ j ∈ inner, attempts.failed (.other j) now = true) :
    Ends attempts now race.standing.racing (.other i) race.webrtcRacing (.error e) := by
  have hracing : race.standing.racing = race.webrtcRacing ++ inner.map .other := by
    simp [Race.standing, Race.othersRacing, hfut]
  rw [hracing]
  refine ⟨?_, hres, ?_, List.subset_append_left _ _, ?_⟩
  · exact List.mem_append_right _ (List.mem_map_of_mem hi)
  · have hpos := List.length_pos_of_mem hi
    rw [List.length_append, List.length_map]
    omega
  · intro r hr hnot
    obtain ⟨j, hj, rfl⟩ := List.mem_map.mp ((List.mem_append.mp hr).resolve_left hnot)
    exact .inr (Attempts.failed_iff.mp (hall j hj))

/-- **A step**: time passes; an attempt ends, and the rule of the race says how it goes on; or the
held connection wins. -/
theorem step_cases {s s' : State T} {a : Act} (hconsistent : s.returned = none → s.race.Consistent)
    (h : step attempts windowMs isP2p s a = some s') :
    (∃ d, a = .tick d ∧ s' = { s with now := s.now + d }) ∨
    (a.IsBranch ∧ s.returned = none ∧
      ((∃ racer left res turn, Ends attempts s.now s.race.standing.racing racer left res ∧
          turn.verdict = s.race.standing.ended windowMs isP2p s.now left res ∧ turn.Consistent ∧
            s' = (s.record res).pass turn) ∨
        ∃ conn deadline, s.race.standing.held = some (conn, deadline) ∧ deadline ≤ s.now ∧
          s' = s.pass (.done (.ok conn)))) := by
  cases a with
  | tick d => exact .inl ⟨d, rfl, (Option.some.inj h).symm⟩
  | webrtc =>
    rw [step] at h
    split at h
    · next res hres =>
      split at h
      · next hguard =>
        obtain rfl := Option.some.inj h
        have hnone := Option.isNone_iff_eq_none.mp hguard.1
        have hrace := hconsistent hnone
        exact .inr ⟨trivial, hnone, .inl ⟨_, _, _, _, webrtc_ends hguard.2 hres,
          Race.webrtcEnded_verdict hrace,
          Race.webrtcEnded_consistent hrace, rfl⟩⟩
      · cases h
    · cases h
  | others i unfinished =>
    rw [step] at h
    split at h
    · next inner conn hfut hres =>
      split at h
      · next hguard =>
        obtain rfl := Option.some.inj h
        have hnone := Option.isNone_iff_eq_none.mp hguard.1
        have hrace := hconsistent hnone
        exact .inr ⟨trivial, hnone, .inl ⟨_, _, _, _, others_ends hfut hres hguard.2,
          Race.othersEnded_verdict hrace,
          Race.othersEnded_consistent hrace (by rw [hfut]; rfl), rfl⟩⟩
      · cases h
    · cases h
  | othersFailed i =>
    rw [step] at h
    split at h
    · next inner e hfut hres =>
      split at h
      · next hguard =>
        obtain rfl := Option.some.inj h
        have hnone := Option.isNone_iff_eq_none.mp hguard.1
        have hrace := hconsistent hnone
        have hends := othersFailed_ends hfut hres hguard.2.1 hguard.2.2
        rw [← List.append_nil s.race.webrtcRacing] at hends
        exact .inr ⟨trivial, hnone, .inl ⟨_, _, _, _, hends, Race.othersEnded_verdict hrace,
          Race.othersEnded_consistent hrace (by rw [hfut]; rfl), rfl⟩⟩
      · cases h
    · cases h
  | window =>
    rw [step] at h
    split at h
    · next hguard =>
      obtain rfl := Option.some.inj h
      have hnone := Option.isNone_iff_eq_none.mp hguard.1
      obtain ⟨conn, hheld, hturn⟩ := Race.windowElapsed_eq (hconsistent hnone) hguard.2.1
      rw [hturn]
      exact .inr ⟨trivial, hnone, .inr ⟨conn, s.race.window, hheld, hguard.2.2, rfl⟩⟩
    · cases h

/-! ## Every run -/

/-- The result of a relayed connection. -/
def isRelayed (isP2p : T → Bool) (entry : ℕ × Except String T) : Bool :=
  match entry.2 with
  | .ok conn => !isP2p conn
  | .error _ => false

/-- While the race runs. -/
structure Underway (attempts : Attempts T) (windowMs : ℕ) (isP2p : T → Bool) (s : State T) :
  Prop where
  consistent : s.race.Consistent
  racing : s.race.standing.racing ≠ []
  known : ∀ r ∈ s.race.standing.racing, r ∈ attempts.racers
  ended : ∀ r ∈ attempts.racers, r ∉ s.race.standing.racing → (attempts.result r s.now).isSome
  failed : s.race.standing.held = none → ∀ r ∈ attempts.racers, r ∉ s.race.standing.racing →
    ∃ e, attempts.result r s.now = some (.error e)
  relayed : ∀ t conn, (t, .ok conn) ∈ s.processed → isP2p conn = false
  unheld : s.race.standing.held = none → s.processed.find? (isRelayed isP2p) = none
  held : ∀ conn deadline, s.race.standing.held = some (conn, deadline) →
    (∃ r ∈ attempts.racers, attempts.result r s.now = some (.ok conn)) ∧
      ∃ t first, s.processed.find? (isRelayed isP2p) = some (t, .ok first) ∧
        deadline = t + fromMillis windowMs

/-- When the race has returned `result` at `t`. -/
structure Outcome (attempts : Attempts T) (windowMs : ℕ) (isP2p : T → Bool)
  (processed : List (ℕ × Except String T))
    (t : ℕ) (result : Except String T) : Prop where
  lost : ∀ e, result = .error e → ∀ r ∈ attempts.racers, ∃ e',
    attempts.result r t = some (.error e')
  won : ∀ conn, result = .ok conn → ∃ r ∈ attempts.racers, attempts.result r t = some (.ok conn)
  relayed : ∀ conn, result = .ok conn → isP2p conn = false →
    (∀ r ∈ attempts.racers, (attempts.result r t).isSome) ∨
      ∃ t' first, processed.find? (isRelayed isP2p) = some (t', .ok first) ∧
        t' + fromMillis windowMs ≤ t
  direct : ∀ t' conn, (t', .ok conn) ∈ processed → isP2p conn = true → t' = t ∧ result = .ok conn

/-- What holds in every run. -/
structure Lawful (attempts : Attempts T) (windowMs : ℕ) (isP2p : T → Bool) (s : State T) :
  Prop where
  processed : ∀ p ∈ s.processed, p.1 ≤ s.now ∧
    ∃ r ∈ attempts.racers, attempts.result r p.1 = some p.2
  underway : s.returned = none → Underway attempts windowMs isP2p s
  outcome : ∀ t result, s.returned = some (t, result) →
    Outcome attempts windowMs isP2p s.processed t result

section

variable {attempts : Attempts T} {windowMs : ℕ} {isP2p : T → Bool} {s : State T} {racer : Racer}
  {left : List Racer}
  {res : Except String T}

variable {turn : Turn T} {conn : T} {e : String}

theorem Turn.eq_of_won (h : turn.verdict = .won conn) : turn = .done (.ok conn) := by
  match turn with
  | .again race => cases h
  | .done (.ok c) =>
    rw [Turn.verdict] at h
    cases h
    rfl
  | .done (.error e) => cases h

theorem Turn.eq_of_lost (h : turn.verdict = .lost) : ∃ e, turn = .done (.error e) := by
  match turn with
  | .again race => cases h
  | .done (.ok c) => cases h
  | .done (.error e) => exact ⟨e, rfl⟩

theorem Turn.eq_of_on {standing : Standing T} (h : turn.verdict = .on standing) :
    ∃ race, turn = .again race ∧ race.standing = standing := by
  match turn with
  | .again race =>
    rw [Turn.verdict] at h
    cases h
    exact ⟨race, rfl, rfl⟩
  | .done (.ok c) => cases h
  | .done (.error e) => cases h

/-- Whoever does not run after the end of an attempt has ended. -/
theorem Underway.ended_of_left (h : Underway attempts windowMs isP2p s)
    (hends : Ends attempts s.now s.race.standing.racing racer left res) :
    ∀ r ∈ attempts.racers, r ∉ left → (attempts.result r s.now).isSome := by
  intro r hr hleft
  by_cases hracing : r ∈ s.race.standing.racing
  · rcases hends.dropped r hracing hleft with rfl | ⟨e, he⟩
    · rw [hends.result]
      rfl
    · rw [he]
      rfl
  · exact h.ended r hr hracing

/-- With nothing held, whoever does not run after a failure has failed. -/
theorem Underway.failed_of_left (h : Underway attempts windowMs isP2p s)
    (hends : Ends attempts s.now s.race.standing.racing racer left (.error e))
    (hheld : s.race.standing.held = none) :
    ∀ r ∈ attempts.racers, r ∉ left → ∃ e', attempts.result r s.now = some (.error e') := by
  intro r hr hleft
  by_cases hracing : r ∈ s.race.standing.racing
  · rcases hends.dropped r hracing hleft with rfl | hfailed
    · exact ⟨e, hends.result⟩
    · exact hfailed
  · exact h.failed hheld r hr hracing

/-- A direct result is the last one. -/
theorem Underway.eq_of_direct (h : Underway attempts windowMs isP2p s) {t : ℕ}
    (hmem : (t, .ok conn) ∈ (s.record res).processed) (hdirect : isP2p conn = true) :
    t = s.now ∧ res = .ok conn := by
  rcases List.mem_append.mp hmem with hmem | hmem
  · have hnot := h.relayed t conn hmem
    rw [hdirect] at hnot
    cases hnot
  · have heq := List.mem_singleton.mp hmem
    exact ⟨congrArg Prod.fst heq, (congrArg Prod.snd heq).symm⟩

/-- The attempts go on after a failure. -/
theorem Underway.goes_on (h : Underway attempts windowMs isP2p s)
    (hends : Ends attempts s.now s.race.standing.racing racer left (.error e)) (hleft : left ≠ [])
    {race : Race T} (hconsistent : race.Consistent)
    (hstanding : race.standing = { s.race.standing with racing := left }) :
    Underway attempts windowMs isP2p ((s.record (.error e)).pass (.again race)) where
  consistent := hconsistent
  racing := by
    change race.standing.racing ≠ []
    rw [hstanding]
    exact hleft
  known := by
    intro r hr
    change r ∈ race.standing.racing at hr
    rw [hstanding] at hr
    exact h.known r (hends.subset hr)
  ended := by
    change ∀ r ∈ attempts.racers, r ∉ race.standing.racing → _
    rw [hstanding]
    exact h.ended_of_left hends
  failed := by
    change race.standing.held = none → ∀ r ∈ attempts.racers, r ∉ race.standing.racing → _
    rw [hstanding]
    exact h.failed_of_left hends
  relayed := by
    intro t conn hmem
    rcases List.mem_append.mp hmem with hmem | hmem
    · exact h.relayed t conn hmem
    · cases congrArg Prod.snd (List.mem_singleton.mp hmem)
  unheld := by
    change race.standing.held = none → List.find? _ (s.processed ++ _) = none
    rw [hstanding]
    intro hheld
    rw [List.find?_append, h.unheld hheld]
    rfl
  held := by
    change ∀ conn deadline, race.standing.held = some (conn, deadline) → _ ∧
      ∃ t first, List.find? _ (s.processed ++ _) = _ ∧ _
    rw [hstanding]
    intro conn deadline hheld
    obtain ⟨hconn, t, first, hfind, hdeadline⟩ := h.held conn deadline hheld
    refine ⟨hconn, t, first, ?_, hdeadline⟩
    rw [List.find?_append, hfind]
    rfl

/-- The attempts go on, and a relayed connection is held. -/
theorem Underway.holds (h : Underway attempts windowMs isP2p s)
    (hends : Ends attempts s.now s.race.standing.racing racer left (.ok conn))
    (hrelayed : isP2p conn = false) (hleft : left ≠ [])
    {race : Race T} (hconsistent : race.Consistent) (hstanding : race.standing =
      { racing := left, held := some (s.race.standing.held.getD (conn, s.now + fromMillis windowMs))
        }) :
    Underway attempts windowMs isP2p ((s.record (.ok conn)).pass (.again race)) where
  consistent := hconsistent
  racing := by
    change race.standing.racing ≠ []
    rw [hstanding]
    exact hleft
  known := by
    intro r hr
    change r ∈ race.standing.racing at hr
    rw [hstanding] at hr
    exact h.known r (hends.subset hr)
  ended := by
    change ∀ r ∈ attempts.racers, r ∉ race.standing.racing → _
    rw [hstanding]
    exact h.ended_of_left hends
  failed := by
    change race.standing.held = none → _
    rw [hstanding]
    rintro ⟨⟩
  relayed := by
    intro t conn' hmem
    rcases List.mem_append.mp hmem with hmem | hmem
    · exact h.relayed t conn' hmem
    · have heq := congrArg Prod.snd (List.mem_singleton.mp hmem)
      cases heq
      exact hrelayed
  unheld := by
    change race.standing.held = none → _
    rw [hstanding]
    rintro ⟨⟩
  held := by
    change ∀ conn' deadline, race.standing.held = some (conn', deadline) → _ ∧
      ∃ t first, List.find? _ (s.processed ++ _) = _ ∧ _
    rw [hstanding]
    intro conn' deadline hheld
    cases hold : s.race.standing.held with
    | none =>
      -- this is the first one
      rw [hold] at hheld
      cases hheld
      refine ⟨⟨racer, h.known _ hends.mem, hends.result⟩, s.now, conn, ?_, rfl⟩
      have hfirst : isRelayed isP2p (s.now, .ok conn) = true := by simp [isRelayed, hrelayed]
      rw [List.find?_append, h.unheld hold, Option.none_or, List.find?_singleton, if_pos hfirst]
    | some pair =>
      rw [hold] at hheld
      cases hheld
      obtain ⟨hconn, t, first, hfind, hdeadline⟩ := h.held conn' deadline hold
      refine ⟨hconn, t, first, ?_, hdeadline⟩
      rw [List.find?_append, hfind]
      rfl

/-- A connection is returned as it comes. -/
theorem Underway.won (h : Underway attempts windowMs isP2p s)
    (hends : Ends attempts s.now s.race.standing.racing racer left (.ok conn))
    (hwon : isP2p conn = true ∨ left = []) :
    Outcome attempts windowMs isP2p (s.record (.ok conn)).processed s.now (.ok conn) where
  lost := by rintro e ⟨⟩
  won := by
    rintro conn' ⟨⟩
    exact ⟨racer, h.known _ hends.mem, hends.result⟩
  relayed := by
    rintro conn' ⟨⟩ hrelayed
    rcases hwon with hdirect | rfl
    · rw [hrelayed] at hdirect
      cases hdirect
    · exact .inl fun r hr => h.ended_of_left hends r hr List.not_mem_nil
  direct := fun t' conn' hmem hdirect => h.eq_of_direct hmem hdirect

/-- The last attempt fails. -/
theorem Underway.over (h : Underway attempts windowMs isP2p s)
    (hends : Ends attempts s.now s.race.standing.racing racer [] (.error e))
    {result : Except String T} (hresult : match s.race.standing.held with
      | some (conn, _) => result = .ok conn
      | none => ∃ e', result = .error e') :
    Outcome attempts windowMs isP2p (s.record (.error e)).processed s.now result where
  lost := by
    rintro e' rfl r hr
    cases hheld : s.race.standing.held with
    | none => exact h.failed_of_left hends hheld r hr List.not_mem_nil
    | some pair =>
      rw [hheld] at hresult
      cases hresult
  won := by
    rintro conn rfl
    cases hheld : s.race.standing.held with
    | none =>
      rw [hheld] at hresult
      obtain ⟨e', ⟨⟩⟩ := hresult
    | some pair =>
      rw [hheld] at hresult
      cases hresult
      exact (h.held _ _ hheld).1
  relayed := by
    rintro conn rfl -
    exact .inl fun r hr => h.ended_of_left hends r hr List.not_mem_nil
  direct := by
    intro t' conn hmem hdirect
    cases (h.eq_of_direct hmem hdirect).2

/-- The time is over: what is held is returned. -/
theorem Underway.elapsed (h : Underway attempts windowMs isP2p s) {deadline : ℕ}
    (hheld : s.race.standing.held = some (conn, deadline)) (hle : deadline ≤ s.now) :
    Outcome attempts windowMs isP2p s.processed s.now (.ok conn) := by
  obtain ⟨hconn, t, first, hfind, rfl⟩ := h.held conn deadline hheld
  refine ⟨by rintro e ⟨⟩, ?_, ?_, ?_⟩
  · rintro conn' ⟨⟩
    exact hconn
  · rintro conn' ⟨⟩ -
    exact .inr ⟨t, first, hfind, hle⟩
  · intro t' conn' hmem hdirect
    rw [h.relayed t' conn' hmem] at hdirect
    cases hdirect

/-- **The end of an attempt**, whichever leg it was of, keeps to what is promised. -/
theorem Lawful.ends (h : Lawful attempts windowMs isP2p s) (hnone : s.returned = none)
    (hends : Ends attempts s.now s.race.standing.racing racer left res) {turn : Turn T}
    (hverdict : turn.verdict = s.race.standing.ended windowMs isP2p s.now left res)
    (hconsistent : turn.Consistent) :
    Lawful attempts windowMs isP2p ((s.record res).pass turn) := by
  have hs := h.underway hnone
  have hprocessed : ∀ p ∈ (s.record res).processed, p.1 ≤ s.now ∧
      ∃ r ∈ attempts.racers, attempts.result r p.1 = some p.2 := by
    intro p hp
    rcases List.mem_append.mp hp with hp | hp
    · exact h.processed p hp
    · obtain rfl := List.mem_singleton.mp hp
      exact ⟨le_rfl, racer, hs.known _ hends.mem, hends.result⟩
  have hreturns : ∀ result, turn = .done result →
      Outcome attempts windowMs isP2p (s.record res).processed s.now result →
      Lawful attempts windowMs isP2p ((s.record res).pass turn) := by
    rintro result rfl houtcome
    refine ⟨hprocessed, by rintro ⟨⟩, ?_⟩
    rintro t result' ⟨⟩
    exact houtcome
  have hgoes : ∀ race, turn = .again race → Underway attempts windowMs isP2p
    ((s.record res).pass (.again race)) →
      Lawful attempts windowMs isP2p ((s.record res).pass turn) := by
    rintro race rfl hunderway
    refine ⟨hprocessed, fun _ => hunderway, ?_⟩
    intro t result hreturned
    rw [show ((s.record res).pass (.again race)).returned = none from hnone] at hreturned
    cases hreturned
  cases res with
  | ok conn =>
    rw [Standing.ended] at hverdict
    split at hverdict
    · next hwon =>
      have hcases : isP2p conn = true ∨ left = [] := by
        simpa only [Bool.or_eq_true, List.isEmpty_iff] using hwon
      exact hreturns _ (Turn.eq_of_won hverdict) (hs.won hends hcases)
    · next hon =>
      rw [Bool.or_eq_true, not_or, Bool.not_eq_true, List.isEmpty_iff] at hon
      obtain ⟨race, rfl, hstanding⟩ := Turn.eq_of_on hverdict
      exact hgoes race rfl (hs.holds hends hon.1 hon.2 hconsistent hstanding)
  | error e =>
    rw [Standing.ended] at hverdict
    split at hverdict
    · next hempty =>
      obtain rfl := List.isEmpty_iff.mp hempty
      cases hheld : s.race.standing.held with
      | some pair =>
        rw [hheld] at hverdict
        refine hreturns _ (Turn.eq_of_won hverdict) (hs.over hends ?_)
        rw [hheld]
      | none =>
        rw [hheld] at hverdict
        obtain ⟨e', he'⟩ := Turn.eq_of_lost hverdict
        refine hreturns _ he' (hs.over hends ?_)
        rw [hheld]
        exact ⟨e', rfl⟩
    · next hon =>
      rw [List.isEmpty_iff] at hon
      obtain ⟨race, rfl, hstanding⟩ := Turn.eq_of_on hverdict
      exact hgoes race rfl (hs.goes_on hends hon hconsistent hstanding)

/-- Time passes. -/
theorem Lawful.tick (h : Lawful attempts windowMs isP2p s) (d : ℕ) :
    Lawful attempts windowMs isP2p { s with now := s.now + d } where
  processed := fun p hp => ⟨(h.processed p hp).1.trans (Nat.le_add_right _ _), (h.processed p hp).2⟩
  underway := by
    intro hnone
    have hs := h.underway hnone
    have hmono : ∀ {r : Racer} {res : Except String T}, attempts.result r s.now = some res →
      attempts.result r (s.now + d) = some res :=
      fun hres => Attempts.result_mono (Nat.le_add_right _ _) hres
    refine ⟨hs.consistent, hs.racing, hs.known, ?_, ?_, hs.relayed, hs.unheld, ?_⟩
    · intro r hr hracing
      obtain ⟨res, hres⟩ := Option.isSome_iff_exists.mp (hs.ended r hr hracing)
      exact Option.isSome_iff_exists.mpr ⟨res, hmono hres⟩
    · intro hheld r hr hracing
      obtain ⟨e, he⟩ := hs.failed hheld r hr hracing
      exact ⟨e, hmono he⟩
    · intro conn deadline hheld
      obtain ⟨⟨r, hr, hres⟩, hfirst⟩ := hs.held conn deadline hheld
      exact ⟨⟨r, hr, hmono hres⟩, hfirst⟩
  outcome := h.outcome

/-- **A step** keeps to what is promised. -/
theorem Lawful.step {s' : State T} {a : Act} (h : Lawful attempts windowMs isP2p s)
    (hstep : step attempts windowMs isP2p s a = some s') : Lawful attempts windowMs isP2p s' := by
  obtain ⟨d, -, rfl⟩ | ⟨-, hnone, ⟨racer, left, res, turn, hends, hverdict, hconsistent,
    rfl⟩ | ⟨conn, deadline, hheld, hle, rfl⟩⟩ :=
    step_cases (fun hnone => (h.underway hnone).consistent) hstep
  · exact h.tick d
  · exact h.ends hnone hends hverdict hconsistent
  · refine ⟨h.processed, by rintro ⟨⟩, ?_⟩
    rintro t result ⟨⟩
    exact (h.underway hnone).elapsed hheld hle

end

/-- Before the first pass everybody runs. -/
theorem start_lawful (attempts : Attempts T) (windowMs : ℕ) (isP2p : T → Bool) :
    Lawful attempts windowMs isP2p (State.start attempts windowMs) := by
  have hracing : (State.start attempts windowMs).race.standing.racing = attempts.racers := rfl
  refine ⟨by rintro p ⟨⟩, fun _ => ?_, by rintro t result ⟨⟩⟩
  refine ⟨Race.init_consistent (mt List.eq_nil_of_length_eq_zero attempts.others_ne), ?_,
    fun r hr => hr, ?_, ?_, by rintro t conn ⟨⟩,
    fun _ => rfl, by rintro conn deadline ⟨⟩⟩
  · rw [hracing]
    exact List.cons_ne_nil _ _
  · intro r hr hnot
    exact absurd hr hnot
  · intro _ r hr hnot
    exact absurd hr hnot

/-- **Every run** keeps to what is promised. -/
theorem exec_lawful {acts : List Act} {s : State T}
    (h : exec (step attempts windowMs isP2p) (State.start attempts windowMs) acts = some s) :
    Lawful attempts windowMs isP2p s :=
  exec_invariant (fun _ _ _ hs hstep => hs.step hstep) (start_lawful attempts windowMs isP2p) h

/-! ## The race ends -/

section

variable {attempts : Attempts T} {windowMs : ℕ} {isP2p : T → Bool} {s : State T}

/-- An attempt that runs and has succeeded makes its branch ready. -/
theorem ready_of_ok (hnone : s.returned = none) {r : Racer} {conn : T}
    (hr : r ∈ s.race.standing.racing) (hres : attempts.result r s.now = some (.ok conn)) :
    ∃ a : Act, a.IsBranch ∧ (step attempts windowMs isP2p s a).isSome := by
  rcases List.mem_append.mp hr with hr | hr
  · rw [Race.webrtcRacing] at hr
    split at hr
    · next hfut =>
      obtain rfl := List.mem_singleton.mp hr
      refine ⟨.webrtc, trivial, ?_⟩
      rw [step, hres]
      dsimp only
      rw [if_pos ⟨Option.isNone_iff_eq_none.mpr hnone, hfut⟩]
      rfl
    · cases hr
  · obtain ⟨i, hi, rfl⟩ := List.mem_map.mp hr
    cases hfut : s.race.othersFut with
    | none =>
      rw [hfut] at hi
      cases hi
    | some inner =>
      rw [hfut] at hi
      have hsel : attempts.Selects s.now inner i (inner.erase i) :=
        ⟨hi, List.Sublist.refl _, fun j hj hnot => absurd hj hnot⟩
      refine ⟨.others i (inner.erase i), trivial, ?_⟩
      rw [step, hfut, hres]
      dsimp only
      rw [if_pos ⟨Option.isNone_iff_eq_none.mpr hnone, hsel⟩]
      rfl

/-- Where all that run have ended, a branch is ready. -/
theorem Underway.ready_of_ended (h : Underway attempts windowMs isP2p s) (hnone : s.returned = none)
    (hended : ∀ r ∈ s.race.standing.racing, (attempts.result r s.now).isSome) :
    ∃ a : Act, a.IsBranch ∧ (step attempts windowMs isP2p s a).isSome := by
  by_cases hok : ∃ r ∈ s.race.standing.racing, ∃ conn, attempts.result r s.now = some (.ok conn)
  · obtain ⟨r, hr, conn, hres⟩ := hok
    exact ready_of_ok hnone hr hres
  have hfailed : ∀ r ∈ s.race.standing.racing, ∃ e, attempts.result r s.now = some (.error e) := by
    intro r hr
    obtain ⟨res, hres⟩ := Option.isSome_iff_exists.mp (hended r hr)
    cases res with
    | ok conn => exact absurd ⟨r, hr, conn, hres⟩ hok
    | error e => exact ⟨e, hres⟩
  have hnone' := Option.isNone_iff_eq_none.mpr hnone
  cases hfut : s.race.webrtcFut with
  | true =>
    obtain ⟨e, hres⟩ := hfailed .webrtc (by simp [Race.standing, Race.webrtcRacing, hfut])
    refine ⟨.webrtc, trivial, ?_⟩
    rw [step, hres]
    dsimp only
    rw [if_pos ⟨hnone', hfut⟩]
    rfl
  | false =>
    have hracing : s.race.standing.racing = s.race.othersRacing := by
      simp [Race.standing, Race.webrtcRacing, hfut]
    rw [hracing] at hfailed
    have hne := h.racing
    rw [hracing] at hne
    cases hothers : s.race.othersFut with
    | none => exact absurd (by rw [Race.othersRacing, hothers]; rfl) hne
    | some inner =>
      have hall : ∀ j ∈ inner, ∃ e, attempts.result (.other j) s.now = some (.error e) := by
        intro j hj
        refine hfailed _ (List.mem_map_of_mem ?_)
        rw [hothers]
        exact hj
      obtain ⟨i, hi⟩ : ∃ i, i ∈ inner := by
        refine List.exists_mem_of_ne_nil _ ?_
        rintro rfl
        exact h.consistent.othersFut hothers
      obtain ⟨e, hres⟩ := hall i hi
      refine ⟨.othersFailed i, trivial, ?_⟩
      rw [step, hothers, hres]
      dsimp only
      rw [if_pos ⟨hnone', hi, fun j hj => Attempts.failed_iff.mpr (hall j hj)⟩]
      rfl

/-- Where something is held and its time is over, the window is ready. -/
theorem Underway.ready_of_held (h : Underway attempts windowMs isP2p s) (hnone : s.returned = none)
    {conn : T} {deadline : ℕ} (hheld : s.race.standing.held = some (conn, deadline))
    (hle : deadline ≤ s.now) :
    ∃ a : Act, a.IsBranch ∧ (step attempts windowMs isP2p s a).isSome := by
  cases hrace : s.race.held with
  | none =>
    rw [Race.standing, hrace] at hheld
    cases hheld
  | some held =>
    rw [Race.standing, hrace] at hheld
    cases hheld
    have hstarted : s.race.windowStarted = true := by
      rw [h.consistent.windowStarted, hrace]
      rfl
    refine ⟨.window, trivial, ?_⟩
    rw [step, if_pos ⟨Option.isNone_iff_eq_none.mpr hnone, hstarted, hle⟩]
    rfl

/-- A step leaves the clock where it is or moves it on; time passing leaves the rest, and a branch
returns or has an attempt less. -/
theorem Lawful.step_measure {s' : State T} {a : Act} (h : Lawful attempts windowMs isP2p s)
    (hstep : TransportRace.step attempts windowMs isP2p s a = some s') :
    s.now ≤ s'.now ∧ (¬ a.IsBranch → s'.race = s.race) ∧
      (a.IsBranch → s'.returned.isSome ∨ s'.race.standing.racing.length <
        s.race.standing.racing.length) := by
  obtain ⟨d, rfl, rfl⟩ | ⟨ha, hnone, ⟨racer, left, res, turn, hends, hverdict, -, rfl⟩ | ⟨conn,
    deadline, -, -, rfl⟩⟩ :=
    step_cases (fun hnone => (h.underway hnone).consistent) hstep
  · exact ⟨Nat.le_add_right _ _, fun _ => rfl, fun hbranch => absurd hbranch id⟩
  · cases turn with
    | done result => exact ⟨le_rfl, fun hnot => absurd ha hnot, fun _ => .inl rfl⟩
    | again race =>
      refine ⟨le_rfl, fun hnot => absurd ha hnot, fun _ => .inr ?_⟩
      have hracing : race.standing.racing = left := Standing.racing_of_ended hverdict.symm
      change race.standing.racing.length < _
      rw [hracing]
      exact hends.shorter
  · exact ⟨le_rfl, fun hnot => absurd ha hnot, fun _ => .inl rfl⟩

end

/-- From some time on all attempts that end have ended. -/
theorem exists_all_ended (attempts : Attempts T) (racers : List Racer)
    (h : ∀ r ∈ racers, (attempts.get r).isSome) :
    ∃ t, ∀ t', t ≤ t' → ∀ r ∈ racers, (attempts.result r t').isSome := by
  induction racers with
  | nil => exact ⟨0, fun _ _ r hr => absurd hr List.not_mem_nil⟩
  | cons r racers ih =>
    obtain ⟨t, ht⟩ := ih fun r' hr' => h r' (List.mem_cons_of_mem _ hr')
    obtain ⟨⟨t₀, res⟩, hget⟩ := Option.isSome_iff_exists.mp (h r List.mem_cons_self)
    refine ⟨max t t₀, ?_⟩
    intro t' hle r' hr'
    rcases List.mem_cons.mp hr' with rfl | hr'
    · rw [Attempts.result, hget, resultBy, if_pos ((le_max_right t t₀).trans hle)]
      rfl
    · exact ht t' ((le_max_left t t₀).trans hle) r' hr'

/-- **The race ends**: in a run that goes on, with a clock that goes on and a `select!` that does
not pass over a branch that stays ready for ever, it returns if all attempts end, or one of them
with a connection. -/
theorem returns
    (run : EndlessRun (step attempts windowMs isP2p))
    (hstart : run.state 0 = State.start attempts windowMs)
    (hclock : ∀ t, ∃ n, t ≤ (run.state n).now) (hfair : run.WeaklyFair Act.IsBranch)
    (hends : (∀ r ∈ attempts.racers, (attempts.get r).isSome) ∨
      ∃ r ∈ attempts.racers, ∃ t conn, attempts.get r = some (t, .ok conn)) :
    ∃ n, (run.state n).returned.isSome := by
  have hlawful : ∀ n, Lawful attempts windowMs isP2p (run.state n) := by
    intro n
    have hexec := run.exec_take n
    rw [hstart] at hexec
    exact exec_lawful hexec
  have hmeasure := fun n => (hlawful n).step_measure (run.next n)
  refine hfair.eventually (fun s => s.returned.isSome) (fun s => s.race.standing.racing.length)
    (fun n => (hmeasure n).2.2) ?_ ?_
  · intro n hn
    rw [(hmeasure n).2.1 hn]
  · intro n hquiet
    have hnone : ∀ m, n ≤ m → (run.state m).returned = none := fun m hm =>
      Option.not_isSome_iff_eq_none.mp (hquiet m hm).1
    have hrace : ∀ m, n ≤ m → (run.state m).race = (run.state n).race := by
      intro m hm
      refine run.of_le (P := fun s => s.race = (run.state n).race) ?_ hm rfl
      intro k hk hsame
      exact ((hmeasure k).2.1 (hquiet k hk).2).trans hsame
    -- from the time one of them is ready at, it stays so
    have hfrom : ∀ t, (∀ m, n ≤ m → t ≤ (run.state m).now →
          ∃ a : Act, a.IsBranch ∧ (step attempts windowMs isP2p (run.state m) a).isSome) →
        ∃ n', n ≤ n' ∧ ∀ m, n' ≤ m → ∃ a : Act, a.IsBranch ∧
          (step attempts windowMs isP2p (run.state m) a).isSome := by
      intro t hready
      obtain ⟨k, hk⟩ := hclock t
      refine ⟨max n k, le_max_left n k, ?_⟩
      intro m hm
      refine hready m ((le_max_left n k).trans hm) ?_
      refine run.of_le (P := fun s => t ≤ s.now) ?_ ((le_max_right n k).trans hm) hk
      intro j _ hj
      exact hj.trans (hmeasure j).1
    have hs := (hlawful n).underway (hnone n le_rfl)
    rcases hends with hall | ⟨r, hr, t, conn, hget⟩
    · obtain ⟨t, ht⟩ := exists_all_ended attempts attempts.racers hall
      refine hfrom t ?_
      intro m hm hle
      have hsm := (hlawful m).underway (hnone m hm)
      exact hsm.ready_of_ended (hnone m hm) fun r hr => ht _ hle r (hsm.known r hr)
    · cases hheld : (run.state n).race.standing.held with
      | some pair =>
        obtain ⟨held, deadline⟩ := pair
        refine hfrom deadline ?_
        intro m hm hle
        have hsm := (hlawful m).underway (hnone m hm)
        exact hsm.ready_of_held (hnone m hm) (by rw [hrace m hm]; exact hheld) hle
      | none =>
        have hracing : r ∈ (run.state n).race.standing.racing := by
          by_contra hnot
          obtain ⟨e, he⟩ := hs.failed hheld r hr hnot
          rw [Attempts.result, hget, resultBy] at he
          split at he <;> cases he
        refine hfrom t ?_
        intro m hm hle
        have hres : attempts.result r (run.state m).now = some (.ok conn) := by
          rw [Attempts.result, hget, resultBy, if_pos hle]
        rw [← hrace m hm] at hracing
        exact ready_of_ok (hnone m hm) hracing hres

/-- **The outcome of the race.** In every run: an error is returned only when every attempt has
failed; a connection that is returned is one of theirs, and if it is relayed, either no attempt runs
any more or the first relayed connection came at least `windowMs` before; a direct connection that a
branch was given is the one that is returned, at once. And a run returns if all attempts end, or one
of them with a connection. -/
theorem race_outcome (attempts : Attempts T) (windowMs : ℕ) (isP2p : T → Bool) :
    (∀ acts s, exec (step attempts windowMs isP2p) (State.start attempts windowMs) acts = some s →
      (∀ p ∈ s.processed, ∃ r ∈ attempts.racers, attempts.result r p.1 = some p.2) ∧
      (∀ t e, s.returned = some (t, .error e) → ∀ r ∈ attempts.racers, ∃ e',
        attempts.result r t = some (.error e')) ∧
      (∀ t conn, s.returned = some (t, .ok conn) →
        ∃ r ∈ attempts.racers, attempts.result r t = some (.ok conn)) ∧
      (∀ t conn, s.returned = some (t, .ok conn) → isP2p conn = false →
        (∀ r ∈ attempts.racers, (attempts.result r t).isSome) ∨
          ∃ t' first, s.processed.find? (isRelayed isP2p) = some (t', .ok first) ∧
            t' + fromMillis windowMs ≤ t) ∧
      ∀ t conn, (t, .ok conn) ∈ s.processed → isP2p conn = true → s.returned = some (t, .ok conn)) ∧
    ∀ run : EndlessRun (step attempts windowMs isP2p), run.state 0 = State.start attempts windowMs →
      (∀ t, ∃ n, t ≤ (run.state n).now) → run.WeaklyFair Act.IsBranch →
      ((∀ r ∈ attempts.racers, (attempts.get r).isSome) ∨
        ∃ r ∈ attempts.racers, ∃ t conn, attempts.get r = some (t, .ok conn)) →
      ∃ n, (run.state n).returned.isSome := by
  refine ⟨fun acts s hexec => ?_, fun run hstart hclock hfair hends =>
    returns run hstart hclock hfair hends⟩
  have hs := exec_lawful hexec
  refine ⟨fun p hp => (hs.processed p hp).2, fun t e hreturned =>
    (hs.outcome t _ hreturned).lost e rfl,
    fun t conn hreturned => (hs.outcome t _ hreturned).won conn rfl,
    fun t conn hreturned => (hs.outcome t _ hreturned).relayed conn rfl, ?_⟩
  intro t conn hmem hdirect
  cases hreturned : s.returned with
  | none =>
    have hnot := (hs.underway hreturned).relayed t conn hmem
    rw [hdirect] at hnot
    cases hnot
  | some pair =>
    obtain ⟨t', result⟩ := pair
    obtain ⟨rfl, rfl⟩ := (hs.outcome _ _ hreturned).direct t conn hmem hdirect
    rfl

/-- The WebRTC attempt is relayed at once, the other one never ends. -/
def relayed : Attempts Bool := ⟨some (0, .ok false), [none], List.cons_ne_nil _ _⟩

/-- The race while its connection is held. -/
def holding : Race Bool :=
  { (Race.init 150 1 : Race Bool) with
    webrtcFut := false, held := some false, windowStarted := true }

/-- Its branch is taken, the window elapses, and then the time passes. -/
def relayedRun : EndlessRun (step relayed 150 id) where
  state
    | 0 => State.start relayed 150
    | 1 => ⟨0, holding, none, [(0, .ok false)]⟩
    | 2 => ⟨fromMillis 150, holding, none, [(0, .ok false)]⟩
    | n + 3 => ⟨fromMillis 150 + n, holding, some (fromMillis 150, .ok false), [(0, .ok false)]⟩
  action
    | 0 => .webrtc
    | 1 => .tick (fromMillis 150)
    | 2 => .window
    | _ + 3 => .tick 1
  next
    | 0 => rfl
    | 1 => rfl
    | 2 => rfl
    | _ + 3 => rfl

theorem relayedRun_fair : relayedRun.WeaklyFair Act.IsBranch := by
  intro n h
  obtain ⟨a, ha, hsome⟩ := h (n + 3) (Nat.le_add_right n 3)
  obtain ⟨s, hs⟩ := Option.isSome_iff_exists.mp hsome
  obtain ⟨d, rfl, -⟩ | ⟨-, hnone, -⟩ := step_cases (by rintro ⟨⟩) hs
  · exact absurd ha id
  · cases hnone

/-- The connection that is held is returned when the window has elapsed, and the endless run
returns. -/
theorem race_outcome_relayed : (∃ s, exec (step relayed 150 id) (State.start relayed 150)
      [.webrtc, .tick (fromMillis 150), .window] = some s ∧
      ∃ r ∈ relayed.racers, relayed.result r (fromMillis 150) = some (.ok false)) ∧
      ∃ n, (relayedRun.state n).returned.isSome := by
  have hexec : exec (step relayed 150 id) (State.start relayed 150)
    [.webrtc, .tick (fromMillis 150), .window] =
      some (relayedRun.state 3) := rfl
  obtain ⟨hsafe, hreturns⟩ := race_outcome relayed 150 id
  refine ⟨⟨_, hexec, (hsafe _ _ hexec).2.2.1 (fromMillis 150) false rfl⟩, ?_⟩
  refine hreturns relayedRun rfl (fun t => ⟨t + 3, ?_⟩)
    relayedRun_fair (.inr ⟨.webrtc, List.mem_cons_self, 0, false, rfl⟩)
  exact Nat.le_add_left t (fromMillis 150)

end TransportRace
end BgDesk
