import Mathlib.Data.List.Basic

/-!
# The race of the transports

`race_transports_prefer_webrtc` of `src/client.rs`. One future is the WebRTC attempt, the other ones
are behind one `select_ok`. A direct connection wins at once; a relayed one is held for a time, so
that the attempts still under way can end in a direct one.

A future is the number of its attempt, and an instant a number of nanoseconds. Each branch of
`select!` is a function of what it was given and of the variables of the loop, which either goes
round once more or returns.

* `webrtcEnded`, `othersEnded`, `windowElapsed` — the branches;
* `Standing` — what the race is about: who still runs, and what is held until when;
* `webrtcEnded_verdict`, `othersEnded_verdict`, `windowElapsed_eq` — the six variables of the loop
  say no more than that: either leg's end is one rule on the standing, whichever of them comes
  first, and the window ends the race.
-/

namespace BgDesk
namespace TransportRace

/-! ## The code -/

/-- The variables of the loop. -/
structure Race (T : Type) where
  /-- `webrtc_fut.is_some()` -/
  webrtcFut : Bool
  /-- the futures that are given to `select_ok` -/
  othersFut : Option (List ℕ)
  held : Option T
  webrtcErr : Option String
  othersErr : Option String
  /-- when `window` elapses -/
  window : ℕ
  windowStarted : Bool

/-- How a pass of the loop ends. -/
inductive Turn (T : Type) where
  | again : Race T → Turn T
  | done : Except String T → Turn T

variable {T : Type}

/-- `Duration::from_millis`. -/
def fromMillis (ms : ℕ) : ℕ := ms * 1000000

namespace Race

/-- Before the loop. `window` runs from the start, and nobody looks at it. -/
def init (windowMs others : ℕ) : Race T where
  webrtcFut := true
  othersFut := some (List.range others)
  held := none
  webrtcErr := none
  othersErr := none
  window := fromMillis windowMs
  windowStarted := false

/-- `if held.is_none() { ... }`: the first relayed connection is held, and the window starts. -/
def hold (windowMs now : ℕ) (conn : T) (race : Race T) : Race T :=
  if race.held.isNone then
    { race with held := some conn, window := now + fromMillis windowMs, windowStarted := true }
  else race

/-- The branch of `webrtc_fut`. -/
def webrtcEnded (windowMs : ℕ) (isP2p : T → Bool) (now : ℕ) (res : Except String T)
    (race : Race T) : Turn T :=
  let race := { race with webrtcFut := false }
  match res with
  | .ok conn =>
    if isP2p conn || race.othersFut.isNone then .done (.ok conn) else .again
      (race.hold windowMs now conn)
  | .error e =>
    match race.othersFut, race.held with
    | none, some conn => .done (.ok conn)
    | _, _ =>
      match race.othersErr with
      | some _ => .done (.error e)
      | none =>
        if race.othersFut.isNone then .done (.error ("WebRTC failed: " ++ e)) else .again
          { race with webrtcErr := some e }

/-- The branch of `others_fut`: a connection comes with the futures that have not finished. -/
def othersEnded (windowMs : ℕ) (isP2p : T → Bool) (now : ℕ) (res : Except String (T × List ℕ))
    (race : Race T) : Turn T :=
  let race := { race with othersFut := none }
  match res with
  | .ok (conn, unfinished) =>
    if isP2p conn then .done (.ok conn)
    else if !race.webrtcFut && unfinished.isEmpty then .done (.ok conn)
    else
      let race := race.hold windowMs now conn
      .again (if unfinished.isEmpty then race else { race with othersFut := some unfinished })
  | .error e =>
    match race.webrtcErr with
    | some _ =>
      match race.held with
      | some conn => .done (.ok conn)
      | none => .done (.error e)
    | none =>
      if !race.webrtcFut then
        match race.held with
        | some conn => .done (.ok conn)
        | none => .done (.error e)
      else .again { race with othersErr := some e }

/-- The branch of `window`. -/
def windowElapsed (race : Race T) : Turn T :=
  match race.held with
  | some conn => .done (.ok conn)
  | none => .again { race with windowStarted := false }

end Race

/-! ## What the race is about -/

/-- An attempt: the one with WebRTC, or one of the other ones. -/
inductive Racer where
  | webrtc : Racer
  | other : ℕ → Racer
  deriving DecidableEq

/-- Who still runs, and the relayed connection that is held with the time it is held until. -/
structure Standing (T : Type) where
  racing : List Racer
  held : Option (T × ℕ)

/-- How a standing goes on: the race goes on, is won with a connection, or is lost. -/
inductive Verdict (T : Type) where
  | on : Standing T → Verdict T
  | won : T → Verdict T
  | lost : Verdict T

namespace Standing

/-- **The rule of the race**: an attempt ended with `res`, and `left` still run. A direct connection
wins. With nobody left the race is over, and any connection there is wins it. Otherwise it goes on,
with the first relayed connection held. -/
def ended (windowMs : ℕ) (isP2p : T → Bool) (now : ℕ) (left : List Racer) (res : Except String T)
    (standing : Standing T) : Verdict T :=
  match res with
  | .ok conn =>
    if isP2p conn || left.isEmpty then .won conn
    else .on { racing := left, held := some (standing.held.getD (conn, now + fromMillis windowMs)) }
  | .error _ =>
    if left.isEmpty then
      match standing.held with
      | some (conn, _) => .won conn
      | none => .lost
    else .on { standing with racing := left }

theorem racing_of_ended {windowMs now : ℕ} {isP2p : T → Bool} {left : List Racer}
    {res : Except String T} {standing standing' : Standing T}
    (h : standing.ended windowMs isP2p now left res = .on standing') : standing'.racing = left := by
  cases res with
  | ok conn =>
    rw [ended] at h
    split at h
    · cases h
    · cases h
      rfl
  | error e =>
    rw [ended] at h
    split at h
    · split at h <;> cases h
    · cases h
      rfl

end Standing

namespace Race

/-- The WebRTC attempt, while it runs. -/
def webrtcRacing (race : Race T) : List Racer := if race.webrtcFut then [.webrtc] else []

/-- The other attempts that run. -/
def othersRacing (race : Race T) : List Racer := (race.othersFut.getD []).map .other

def standing (race : Race T) : Standing T where
  racing := race.webrtcRacing ++ race.othersRacing
  held := race.held.map fun conn => (conn, race.window)

/-- What the six variables keep to: a running `select_ok` has futures, an error is remembered of a
leg that has ended, and the window is started while a connection is held. -/
structure Consistent (race : Race T) : Prop where
  othersFut : race.othersFut ≠ some []
  webrtcErr : race.webrtcErr.isSome → race.webrtcFut = false
  othersErr : race.othersErr.isSome → race.othersFut = none
  windowStarted : race.windowStarted = race.held.isSome

end Race

/-- What a pass of the loop makes of the standing. -/
def Turn.verdict : Turn T → Verdict T
  | again race => .on race.standing
  | done (.ok conn) => .won conn
  | done (.error _) => .lost

/-- A pass that goes on leaves consistent variables. -/
def Turn.Consistent : Turn T → Prop
  | again race => race.Consistent
  | done _ => True

/-! ## The loop keeps to the rule -/

namespace Race

variable {now windowMs : ℕ} {race : Race T} {isP2p : T → Bool}

theorem init_consistent {others : ℕ} (h : others ≠ 0) :
    (init windowMs others : Race T).Consistent where
  othersFut := by
    intro hnil
    have hlen := congrArg List.length (Option.some.inj hnil)
    rw [List.length_range] at hlen
    exact h hlen
  webrtcErr := by simp [init]
  othersErr := by simp [init]
  windowStarted := rfl

@[simp] theorem hold_webrtcFut (windowMs now : ℕ) (conn : T) (race : Race T) :
    (race.hold windowMs now conn).webrtcFut = race.webrtcFut := by
  unfold hold
  split <;> rfl

@[simp] theorem hold_othersFut (windowMs now : ℕ) (conn : T) (race : Race T) :
    (race.hold windowMs now conn).othersFut = race.othersFut := by
  unfold hold
  split <;> rfl

@[simp] theorem hold_othersErr (windowMs now : ℕ) (conn : T) (race : Race T) :
    (race.hold windowMs now conn).othersErr = race.othersErr := by
  unfold hold
  split <;> rfl

theorem hold_standing (windowMs now : ℕ) (conn : T) (race : Race T) :
    (race.hold windowMs now conn).standing =
      { race.standing with
        held := some (race.standing.held.getD (conn, now + fromMillis windowMs)) } := by
  unfold hold
  cases h : race.held with
  | none => simp [standing, webrtcRacing, othersRacing, h]
  | some c => simp [standing, h]

theorem hold_consistent {conn : T} (h : race.Consistent) :
    (race.hold windowMs now conn).Consistent := by
  unfold hold
  split
  · exact ⟨h.othersFut, h.webrtcErr, h.othersErr, rfl⟩
  · exact h

theorem othersRacing_isEmpty (h : race.Consistent) :
    race.othersRacing.isEmpty = race.othersFut.isNone := by
  unfold othersRacing
  cases hfut : race.othersFut with
  | none => rfl
  | some inner =>
    cases inner with
    | nil => exact absurd hfut h.othersFut
    | cons i inner => rfl

/-- The end of the WebRTC attempt leaves the other ones. -/
theorem webrtcEnded_verdict {res : Except String T} (h : race.Consistent) :
    (race.webrtcEnded windowMs isP2p now res).verdict =
      race.standing.ended windowMs isP2p now race.othersRacing res := by
  have hempty := othersRacing_isEmpty h
  cases res with
  | ok conn =>
    simp only [webrtcEnded, Standing.ended, hempty]
    split
    · rfl
    · rw [Turn.verdict, hold_standing]
      rfl
  | error e =>
    simp only [webrtcEnded, Standing.ended, hempty]
    cases hfut : race.othersFut with
    | none =>
      cases hheld : race.held with
      | some conn => simp [Turn.verdict, standing, hheld]
      | none => cases race.othersErr <;> simp [Turn.verdict, standing, hheld]
    | some inner =>
      -- the other leg runs, so it has left no error
      have herr : race.othersErr = none := by
        cases herr : race.othersErr with
        | none => rfl
        | some oe =>
          have hnone := h.othersErr (by rw [herr]; rfl)
          rw [hfut] at hnone
          cases hnone
      simp [Turn.verdict, standing, webrtcRacing, othersRacing, hfut, herr]

/-- The WebRTC attempt ends. -/
theorem webrtcEnded_consistent {res : Except String T} (h : race.Consistent) :
    (race.webrtcEnded windowMs isP2p now res).Consistent := by
  have hended : ({ race with webrtcFut := false } : Race T).Consistent :=
    ⟨h.othersFut, fun _ => rfl, h.othersErr, h.windowStarted⟩
  cases res with
  | ok conn =>
    simp only [webrtcEnded]
    split
    · trivial
    · exact hold_consistent hended
  | error e =>
    simp only [webrtcEnded]
    split
    · trivial
    · split
      · trivial
      · split
        · trivial
        · exact ⟨h.othersFut, fun _ => rfl, h.othersErr, h.windowStarted⟩

/-- What the end of `select_ok` leaves of the other attempts. -/
def unfinished : Except String (T × List ℕ) → List Racer
  | .ok (_, unfinished) => unfinished.map .other
  | .error _ => []

/-- The result without the futures that come with it. -/
def connection : Except String (T × List ℕ) → Except String T
  | .ok (conn, _) => .ok conn
  | .error e => .error e

/-- Where `select_ok` goes on with what has not finished. -/
theorem restart_standing (h : race.othersFut = none) (futures : List ℕ) :
    (if futures.isEmpty then race else { race with othersFut := some futures }).standing =
      { race.standing with racing := race.webrtcRacing ++ futures.map .other } := by
  cases futures with
  | nil => simp [standing, othersRacing, h]
  | cons i futures => simp [standing, othersRacing, webrtcRacing]

/-- The attempts that are left race on. -/
theorem restart_consistent (h : race.Consistent) (herr : race.othersErr = none) (futures : List ℕ) :
    (if futures.isEmpty then race else { race with othersFut := some futures }).Consistent := by
  cases futures with
  | nil => exact h
  | cons i futures =>
    refine ⟨?_, h.webrtcErr, ?_, h.windowStarted⟩
    · intro hnil
      cases hnil
    · intro hsome
      rw [herr] at hsome
      cases hsome

/-- The end of `select_ok` leaves the WebRTC attempt and what has not finished. -/
theorem othersEnded_verdict {res : Except String (T × List ℕ)} (h : race.Consistent) :
    (race.othersEnded windowMs isP2p now res).verdict =
      race.standing.ended windowMs isP2p now (race.webrtcRacing ++ unfinished res)
        (connection res) := by
  cases res with
  | ok pair =>
    obtain ⟨conn, futures⟩ := pair
    have hempty : (race.webrtcRacing ++ unfinished (.ok (conn, futures))).isEmpty =
        (!race.webrtcFut && futures.isEmpty) := by
      unfold webrtcRacing unfinished
      cases race.webrtcFut <;> cases futures <;> rfl
    simp only [othersEnded, Standing.ended, connection, hempty]
    cases isP2p conn with
    | true => rfl
    | false =>
      simp only [Bool.false_or, Bool.false_eq_true, if_false]
      split
      · rfl
      · rw [Turn.verdict, restart_standing (hold_othersFut windowMs now conn _), hold_standing]
        simp [standing, webrtcRacing, unfinished]
  | error e =>
    have hempty :
        (race.webrtcRacing ++ unfinished (.error e : Except String (T × List ℕ))).isEmpty =
          !race.webrtcFut := by
      unfold webrtcRacing unfinished
      cases race.webrtcFut <;> rfl
    simp only [othersEnded, Standing.ended, connection, hempty]
    cases hfut : race.webrtcFut with
    | true =>
      -- the other leg runs, so it has left no error
      have herr : race.webrtcErr = none := by
        cases herr : race.webrtcErr with
        | none => rfl
        | some we =>
          have hfalse := h.webrtcErr (by rw [herr]; rfl)
          rw [hfut] at hfalse
          cases hfalse
      simp [Turn.verdict, standing, webrtcRacing, othersRacing, unfinished, herr, hfut]
    | false =>
      cases race.webrtcErr <;> cases hheld : race.held <;> simp [Turn.verdict, standing, hheld]

/-- One of the other attempts ends. -/
theorem othersEnded_consistent {res : Except String (T × List ℕ)} (h : race.Consistent)
    (hfut : race.othersFut.isSome) : (race.othersEnded windowMs isP2p now res).Consistent := by
  have hended : ({ race with othersFut := none } : Race T).Consistent :=
    ⟨by rintro ⟨⟩, h.webrtcErr, fun _ => rfl, h.windowStarted⟩
  cases res with
  | ok pair =>
    obtain ⟨conn, futures⟩ := pair
    have herr : race.othersErr = none := by
      cases herr : race.othersErr with
      | none => rfl
      | some oe =>
        rw [h.othersErr (by rw [herr]; rfl)] at hfut
        cases hfut
    simp only [othersEnded]
    split
    · trivial
    · split
      · trivial
      · exact restart_consistent (hold_consistent hended)
          ((hold_othersErr windowMs now conn _).trans herr) futures
  | error e =>
    simp only [othersEnded]
    split
    · split <;> trivial
    · split
      · split <;> trivial
      · exact ⟨by rintro ⟨⟩, h.webrtcErr, fun _ => rfl, h.windowStarted⟩

/-- A window that has started ends the race with what is held. -/
theorem windowElapsed_eq (h : race.Consistent) (hstarted : race.windowStarted = true) :
    ∃ conn, race.standing.held = some (conn, race.window) ∧
      race.windowElapsed = .done (.ok conn) := by
  have hheld : race.held.isSome = true := h.windowStarted ▸ hstarted
  obtain ⟨conn, hconn⟩ := Option.isSome_iff_exists.mp hheld
  refine ⟨conn, ?_, ?_⟩
  · rw [standing, hconn]
    rfl
  · rw [windowElapsed, hconn]

end Race

end TransportRace
end BgDesk
