import Mathlib.Data.List.DropRight
import Mathlib.Order.RelClasses
import BgDesk.Checked
import BgDesk.Glob

/-!
# The ID whitelist

`wildcard_match` decides whether an entry of the whitelist covers the id a peer reports: one loop
over the text that keeps the latest `*` and starts again behind it, one letter further, when the
part behind it does not fit. `id_whitelist_allows` asks it of every entry, for the id as it is
reported and for the part of it before the `@`.

The loops are written with a number of passes. A place in a list is only read through `[·]?`, so a
read out of range, as running out of passes, ends with `none`; `scan_returns` shows that neither
happens.
-/

namespace BgDesk.IdWhitelist

open Glob (Token Matches Fit)

/-! ## The code -/

/-- Unicode `White_Space`, what `str::trim` takes off. -/
def isWhitespace (c : Char) : Bool :=
  let n := c.toNat
  (9 ≤ n && n ≤ 13) || n == 0x20 || n == 0x85 || n == 0xA0 || n == 0x1680 ||
    (0x2000 ≤ n && n ≤ 0x200A) ||
    n == 0x2028 || n == 0x2029 || n == 0x202F || n == 0x205F || n == 0x3000

def trim (s : List Char) : List Char := (s.dropWhile isWhitespace).rdropWhile isWhitespace

/-- Where the loop stands: `pi`, `ti`, and the latest star as `(sp, st)`, the place behind it and
the text it was met at. -/
structure Scan where
  pi : ℕ
  ti : ℕ
  star : Option (ℕ × ℕ)
  deriving DecidableEq

/-- `pi < p.len() && p[pi] == '*'`. -/
def atStar (p : List Char) (pi : ℕ) : Option Bool :=
  if pi < p.length then do
    let c ← p[pi]?
    some (c == '*')
  else some false

/-- `pi < p.len() && (p[pi] == '?' || p[pi] == t[ti])`. -/
def atFit (p t : List Char) (pi ti : ℕ) : Option Bool :=
  if pi < p.length then do
    let c ← p[pi]?
    if c == '?' then some true
    else do
      let x ← t[ti]?
      some (c == x)
  else some false

/-- One pass of the loop. `some none` is its `return false`. -/
def pass (p t : List Char) (s : Scan) : Option (Option Scan) := do
  if ← atStar p s.pi then
    some (some { pi := s.pi + 1, ti := s.ti, star := some (s.pi + 1, s.ti) })
  else if ← atFit p t s.pi s.ti then
    some (some { pi := s.pi + 1, ti := s.ti + 1, star := s.star })
  else
    match s.star with
    | some (sp, st) => some (some { pi := sp, ti := st + 1, star := some (sp, st + 1) })
    | none => some none

/-- The loop over the text. `some none` if it returned, otherwise the place it left the pattern
at. -/
def scan (p t : List Char) : ℕ → Scan → Option (Option ℕ)
  | 0, _ => none
  | fuel + 1, s =>
    if s.ti < t.length then do
      match ← pass p t s with
      | some s => scan p t fuel s
      | none => some none
    else some (some s.pi)

/-- The loop over the stars that are left. -/
def skipStars (p : List Char) : ℕ → ℕ → Option ℕ
  | 0, _ => none
  | fuel + 1, pi => do
    if ← atStar p pi then skipStars p fuel (pi + 1) else some pi

section Code

-- `str::to_lowercase`, the tables of Unicode: nothing below depends on them
variable (toLowercase : List Char → List Char)

def wildcardMatch (fuel : ℕ) (pattern text : List Char) : Option Bool := do
  let p := toLowercase (trim pattern)
  let t := toLowercase (trim text)
  match ← scan p t fuel { pi := 0, ti := 0, star := none } with
  | none => some false
  | some pi =>
    let pi ← skipStars p fuel pi
    some (pi == p.length)

/-- `my_id.split('@').next().unwrap_or(my_id)`. -/
def bareId (myId : List Char) : List Char := (myId.splitOn '@').head?.getD myId

/-- `any` over the entries, which stops at the first that matches. -/
def anyMatches (fuel : ℕ) (myId bareId : List Char) : List (List Char) → Option Bool
  | [] => some false
  | x :: xs => do
    if ← wildcardMatch toLowercase fuel x myId then some true
    else if ← wildcardMatch toLowercase fuel x bareId then some true
    else anyMatches fuel myId bareId xs

def idWhitelistAllows (fuel : ℕ) (idWhitelist : List (List Char)) (myId : List Char) :
    Option Bool :=
  if idWhitelist.isEmpty then some true
  else anyMatches toLowercase fuel myId (bareId myId) idWhitelist

/-! ## What an entry stands for -/

/-- `*` is any sequence of characters, `?` is any character, any other is itself. -/
def token (c : Char) : Token Char := if c = '*' then .star else if c = '?' then .any else .char c

/-- The language of an entry, both sides without the blanks around them and in lower case. -/
def InLanguage (pattern text : List Char) : Prop :=
  Matches ((toLowercase (trim pattern)).map token) (toLowercase (trim text))

end Code

variable {c x : Char} {pi ti : ℕ}

theorem token_eq_star : token c = .star ↔ c = '*' := by
  unfold token
  split
  · simpa
  · split <;> simpa

theorem token_fits (hc : c ≠ '*') : (token c).Fits x ↔ c = '?' ∨ c = x := by
  unfold token
  rw [if_neg hc]
  by_cases h : c = '?' <;> simp [h]

/-! ## The tests of the loop -/

variable {p t : List Char}

theorem atStar_eq (p : List Char) (pi : ℕ) : atStar p pi = some (p[pi]? == some '*') := by
  unfold atStar
  split
  · next h => simp [List.getElem?_eq_getElem h]
  · next h => simp [List.getElem?_eq_none (Nat.le_of_not_lt h)]

theorem atFit_eq (p : List Char) (pi : ℕ) (hx : t[ti]? = some x) :
    atFit p t pi ti = some (p[pi]? == some '?' || p[pi]? == some x) := by
  unfold atFit
  split
  · next h =>
    rw [List.getElem?_eq_getElem h, hx]
    by_cases hq : p[pi] = '?' <;> simp [hq]
  · next h => simp [List.getElem?_eq_none (Nat.le_of_not_lt h)]

/-! ## The invariant -/

/-- The rest of the pattern, as tokens. -/
def rest (p : List Char) (pi : ℕ) : List (Token Char) := (p.drop pi).map token

theorem rest_of_getElem? (h : p[pi]? = some c) : rest p pi = token c :: rest p (pi + 1) := by
  obtain ⟨hlt, rfl⟩ := List.getElem?_eq_some_iff.mp h
  rw [rest, rest, List.drop_eq_getElem_cons hlt, List.map_cons]

theorem rest_of_getElem?_none (h : p[pi]? = none) : rest p pi = [] := by
  rw [rest, List.drop_eq_nil_of_le (List.getElem?_eq_none_iff.mp h), List.map_nil]

theorem drop_of_getElem? (h : t[ti]? = some x) : t.drop ti = x :: t.drop (ti + 1) := by
  obtain ⟨hlt, rfl⟩ := List.getElem?_eq_some_iff.mp h
  exact List.drop_eq_getElem_cons hlt

/-- What the scan knows: the question it was asked is what is left of it. Before the first star that
is the rest of the text and the rest of the pattern; behind a star it starts at the star, and the
pattern from there to `pi` fits the text from there to `ti`. -/
def Standing (p t : List Char) (goal : Prop) (s : Scan) : Prop :=
  s.pi ≤ p.length ∧ s.ti ≤ t.length ∧
  match s.star with
  | none => goal ↔ Matches (rest p s.pi) (t.drop s.ti)
  | some (sp, st) =>
    sp ≤ p.length ∧ sp ≤ s.pi ∧ st ≤ s.ti ∧ (goal ↔ Matches (.star :: rest p sp) (t.drop st)) ∧
      ∃ seg u, rest p sp = seg ++ rest p s.pi ∧ t.drop st = u ++ t.drop s.ti ∧ Fit seg u

variable {goal : Prop} {s : Scan}

theorem standing_start (h : goal ↔ Matches (rest p 0) t) :
    Standing p t goal { pi := 0, ti := 0, star := none } :=
  ⟨Nat.zero_le _, Nat.zero_le _, by simpa using h⟩

/-- A star is reached: it becomes the latest one. -/
theorem Standing.atStar (h : Standing p t goal s) (hc : p[s.pi]? = some '*') :
    Standing p t goal { pi := s.pi + 1, ti := s.ti, star := some (s.pi + 1, s.ti) } := by
  obtain ⟨-, hti, h⟩ := h
  have hpi : s.pi + 1 ≤ p.length := (List.getElem?_eq_some_iff.mp hc).1
  have hrest : rest p s.pi = .star :: rest p (s.pi + 1) := by
    rw [rest_of_getElem? hc, token_eq_star.mpr rfl]
  refine ⟨hpi, hti, hpi, Nat.le_refl _, Nat.le_refl _, ?_, [], [], rfl, rfl, .nil⟩
  rw [← hrest]
  split at h
  · exact h
  · obtain ⟨-, -, -, hgoal, seg, u, hseg, hu, hfit⟩ := h
    rw [hgoal, hseg, hu, hrest]
    exact hfit.matches_star_star

/-- A token fits the next letter. -/
theorem Standing.atFit (h : Standing p t goal s) (hc : p[s.pi]? = some c) (hx : t[s.ti]? = some x)
    (hstar : c ≠ '*') (hfits : c = '?' ∨ c = x) :
    Standing p t goal { pi := s.pi + 1, ti := s.ti + 1, star := s.star } := by
  obtain ⟨-, -, h⟩ := h
  have hpi : s.pi + 1 ≤ p.length := (List.getElem?_eq_some_iff.mp hc).1
  have hti : s.ti + 1 ≤ t.length := (List.getElem?_eq_some_iff.mp hx).1
  have htok : token c ≠ .star := fun he => hstar (token_eq_star.mp he)
  have hone : (token c).Fits x := (token_fits hstar).mpr hfits
  refine ⟨hpi, hti, ?_⟩
  dsimp only
  split at h
  · rw [h, rest_of_getElem? hc, drop_of_getElem? hx, Glob.matches_one htok]
    exact and_iff_right hone
  · obtain ⟨hsp, hle, hst, hgoal, seg, u, hseg, hu, hfit⟩ := h
    refine ⟨hsp, by omega, by omega, hgoal, seg ++ [token c], u ++ [x], ?_, ?_, hfit.snoc hone⟩
    · rw [hseg, rest_of_getElem? hc, List.append_assoc, List.singleton_append]
    · rw [hu, drop_of_getElem? hx, List.append_assoc, List.singleton_append]

/-- Neither a star nor a token that fits: the rest of the pattern does not match here. -/
theorem not_matches_rest (hx : t[ti]? = some x) (hstar : p[pi]? ≠ some '*')
    (hany : p[pi]? ≠ some '?') (hne : p[pi]? ≠ some x) : ¬ Matches (rest p pi) (t.drop ti) := by
  rw [drop_of_getElem? hx]
  intro h
  cases hc : p[pi]? with
  | none =>
    rw [rest_of_getElem?_none hc, Glob.matches_nil] at h
    cases h
  | some c =>
    rw [hc] at hstar hany hne
    have hc' : c ≠ '*' := fun he => hstar (congrArg some he)
    rw [rest_of_getElem? hc, Glob.matches_one (fun he => hc' (token_eq_star.mp he)),
      token_fits hc'] at h
    rcases h.1 with he | he
    · exact hany (congrArg some he)
    · exact hne (congrArg some he)

/-- Back to the latest star, which takes one letter more. -/
theorem Standing.back {sp st : ℕ} (h : Standing p t goal s) (hx : t[s.ti]? = some x)
    (hs : s.star = some (sp, st)) (hno : ¬ Matches (rest p s.pi) (t.drop s.ti)) :
    Standing p t goal { pi := sp, ti := st + 1, star := some (sp, st + 1) } := by
  obtain ⟨-, hti, h⟩ := h
  rw [hs] at h
  obtain ⟨hsp, -, hst, hgoal, seg, u, hseg, hu, hfit⟩ := h
  have htlt : s.ti < t.length := (List.getElem?_eq_some_iff.mp hx).1
  obtain ⟨y, hy⟩ : ∃ y, t[st]? = some y := ⟨_, List.getElem?_eq_getElem (by omega)⟩
  refine ⟨hsp, Nat.lt_of_le_of_lt hst htlt, hsp, Nat.le_refl _, Nat.le_refl _, ?_, [], [], rfl,
    rfl, .nil⟩
  rw [hgoal, hseg, hu]
  exact hfit.matches_star_next hno (hu.symm.trans (drop_of_getElem? hy))

/-- Without a star behind it the scan has nothing to go back to. -/
theorem Standing.refuse (h : Standing p t goal s) (hs : s.star = none)
    (hno : ¬ Matches (rest p s.pi) (t.drop s.ti)) : ¬ goal := by
  have hgoal := h.2.2
  rw [hs] at hgoal
  exact fun hg => hno (hgoal.mp hg)

/-- At the end of the text the rest of the pattern is left. -/
theorem Standing.finish (h : Standing p t goal s) (hti : ¬ s.ti < t.length) :
    goal ↔ Matches (rest p s.pi) [] := by
  obtain ⟨-, -, h⟩ := h
  have hnil : t.drop s.ti = [] := List.drop_eq_nil_of_le (Nat.le_of_not_lt hti)
  split at h
  · rwa [hnil] at h
  · obtain ⟨-, -, -, hgoal, seg, u, hseg, hu, hfit⟩ := h
    rw [hnil, List.append_nil] at hu
    rw [hgoal, hseg, hu]
    exact hfit.matches_star_nil

/-! ## Passes and loops -/

/-- What brings the loop to its end: the latest star moves on in the pattern, or it stays and takes
more of the text, or it stays as it is and the text moves on. -/
def Closer (p t : List Char) (s' s : Scan) : Prop :=
  Prod.Lex (· < ·) (Prod.Lex (· < ·) (· < ·))
    (p.length - (s'.star.map Prod.fst).getD 0, t.length - (s'.star.map Prod.snd).getD 0,
      t.length - s'.ti)
    (p.length - (s.star.map Prod.fst).getD 0, t.length - (s.star.map Prod.snd).getD 0,
      t.length - s.ti)

theorem closer_wellFounded (p t : List Char) : WellFounded (Closer p t) :=
  InvImage.wf _ (WellFounded.prod_lex wellFounded_lt
    (WellFounded.prod_lex wellFounded_lt wellFounded_lt))

/-- The latest star lies behind the scan. -/
theorem Standing.star_le (h : Standing p t goal s) :
    (s.star.map Prod.fst).getD 0 ≤ s.pi ∧ (s.star.map Prod.snd).getD 0 ≤ s.ti := by
  obtain ⟨-, -, h⟩ := h
  split at h
  · next hs => simp [hs]
  · next hs =>
    obtain ⟨-, hsp, hst, -⟩ := h
    simpa [hs] using ⟨hsp, hst⟩

/-- **One pass** reads nothing out of range, keeps the invariant and comes closer to the end. -/
theorem pass_returns (h : Standing p t goal s) (hti : s.ti < t.length) :
    Returns (pass p t s) fun r =>
      match r with
      | some s' => Standing p t goal s' ∧ Closer p t s' s
      | none => ¬ goal := by
  obtain ⟨x, hx⟩ : ∃ x, t[s.ti]? = some x := ⟨_, List.getElem?_eq_getElem hti⟩
  obtain ⟨hsp, hst⟩ := h.star_le
  unfold pass
  rw [atStar_eq, atFit_eq p s.pi hx]
  by_cases hstar : p[s.pi]? = some '*'
  · have hpi : s.pi < p.length := (List.getElem?_eq_some_iff.mp hstar).1
    rw [beq_iff_eq.mpr hstar]
    refine returns_pure ⟨h.atStar hstar, .left _ _ ?_⟩
    simp only [Option.map_some, Option.getD_some]
    omega
  · rw [beq_eq_false_iff_ne.mpr hstar]
    by_cases hfit : p[s.pi]? = some '?' ∨ p[s.pi]? = some x
    · have htrue : (p[s.pi]? == some '?' || p[s.pi]? == some x) = true := by simpa using hfit
      rw [htrue]
      obtain ⟨c, hc, hfits⟩ : ∃ c, p[s.pi]? = some c ∧ (c = '?' ∨ c = x) := by
        rcases hfit with hc | hc
        · exact ⟨_, hc, .inl rfl⟩
        · exact ⟨_, hc, .inr rfl⟩
      have hc' : c ≠ '*' := fun he => hstar (hc.trans (congrArg some he))
      refine returns_pure ⟨h.atFit hc hx hc' hfits, .right _ (.right _ ?_)⟩
      dsimp only
      omega
    · have hfalse : (p[s.pi]? == some '?' || p[s.pi]? == some x) = false := by simpa using hfit
      rw [hfalse]
      have hno : ¬ Matches (rest p s.pi) (t.drop s.ti) :=
        not_matches_rest hx hstar (fun hc => hfit (.inl hc)) (fun hc => hfit (.inr hc))
      cases hs : s.star with
      | none => exact returns_pure (h.refuse hs hno)
      | some star =>
        obtain ⟨sp, st⟩ := star
        simp only [hs, Option.map_some, Option.getD_some] at hst
        refine returns_pure ⟨h.back hx hs hno, ?_⟩
        unfold Closer
        simp only [hs, Option.map_some, Option.getD_some]
        exact .right _ (.left _ _ (by omega))

/-- **The loop over the text** ends, and what it leaves of the pattern decides the question. -/
theorem scan_returns : ∀ {s : Scan}, Standing p t goal s → ∃ passes, ∀ fuel, passes ≤ fuel →
    Returns (scan p t fuel s) fun r =>
      match r with
      | some pi => pi ≤ p.length ∧ (goal ↔ Matches (rest p pi) [])
      | none => ¬ goal := by
  intro s
  induction s using (closer_wellFounded p t).induction with
  | _ s ih =>
    intro h
    by_cases hti : s.ti < t.length
    · obtain ⟨r, hr, hspec⟩ := pass_returns h hti
      -- what the pass ends in decides how many more are needed
      obtain ⟨passes, hpasses⟩ : ∃ passes, ∀ fuel, passes ≤ fuel → Returns (match r with
          | some s' => scan p t fuel s'
          | none => some none) fun r =>
            match r with
            | some pi => pi ≤ p.length ∧ (goal ↔ Matches (rest p pi) [])
            | none => ¬ goal := by
        cases r with
        | none => exact ⟨0, fun _ _ => returns_pure hspec⟩
        | some s' => exact ih s' hspec.2 hspec.1
      refine ⟨passes + 1, fun fuel hfuel => ?_⟩
      obtain ⟨fuel, rfl⟩ := Nat.exists_eq_add_of_le' (Nat.le_of_add_left_le hfuel)
      rw [scan, if_pos hti, hr]
      exact hpasses fuel (by omega)
    · refine ⟨1, fun fuel hfuel => ?_⟩
      obtain ⟨fuel, rfl⟩ := Nat.exists_eq_add_of_le' hfuel
      rw [scan, if_neg hti]
      exact returns_pure ⟨h.1, h.finish hti⟩

example : scan "1?3*7?9".toList "123456789".toList 20 { pi := 0, ti := 0, star := none } =
    some (some 7) := by decide

/-- **The loop over the stars** ends at the end of the pattern iff nothing but stars was left. -/
theorem skipStars_returns : ∀ {pi : ℕ}, pi ≤ p.length → ∀ fuel, p.length - pi < fuel →
    Returns (skipStars p fuel pi) fun pi' =>
      Matches (rest p pi) ([] : List Char) ↔ pi' = p.length := by
  intro pi hpi fuel
  induction fuel generalizing pi with
  | zero => exact fun h => absurd h (Nat.not_lt_zero _)
  | succ fuel ih =>
    intro hfuel
    rw [skipStars, atStar_eq]
    by_cases hstar : p[pi]? = some '*'
    · have hlt : pi < p.length := (List.getElem?_eq_some_iff.mp hstar).1
      rw [beq_iff_eq.mpr hstar, rest_of_getElem? hstar, Glob.matches_cons_nil]
      refine (ih hlt (by omega)).mono fun pi' hpi' => ?_
      rw [← hpi']
      exact and_iff_right (token_eq_star.mpr rfl)
    · rw [beq_eq_false_iff_ne.mpr hstar]
      refine returns_pure ?_
      cases hc : p[pi]? with
      | none =>
        have hlen : pi = p.length := Nat.le_antisymm hpi (List.getElem?_eq_none_iff.mp hc)
        rw [rest_of_getElem?_none hc, Glob.matches_nil]
        exact iff_of_true rfl hlen
      | some c =>
        have hlt : pi < p.length := (List.getElem?_eq_some_iff.mp hc).1
        rw [rest_of_getElem? hc, Glob.matches_cons_nil, token_eq_star]
        refine iff_of_false ?_ (Nat.ne_of_lt hlt)
        rintro ⟨rfl, -⟩
        exact hstar hc

/-! ## The whitelist -/

variable (toLowercase : List Char → List Char)

theorem wildcardMatch_returns (pattern text : List Char) : ∃ passes, ∀ fuel, passes ≤ fuel →
    Returns (wildcardMatch toLowercase fuel pattern text) fun b =>
      b = true ↔ InLanguage toLowercase pattern text := by
  have hstart : Standing (toLowercase (trim pattern)) (toLowercase (trim text))
    (InLanguage toLowercase pattern text)
      { pi := 0, ti := 0, star := none } := standing_start Iff.rfl
  obtain ⟨passes, hscan⟩ := scan_returns hstart
  refine ⟨max passes ((toLowercase (trim pattern)).length + 1), fun fuel hfuel => ?_⟩
  refine (hscan fuel (by omega)).bind ?_
  rintro (_ | pi) hspec
  · exact returns_pure (iff_of_false Bool.false_ne_true hspec)
  · obtain ⟨hpi, hgoal⟩ := hspec
    refine (skipStars_returns hpi fuel (by omega)).bind fun pi' hpi' => returns_pure ?_
    rw [beq_iff_eq, ← hpi', hgoal]

theorem anyMatches_returns (myId bareId : List Char) : ∀ xs, ∃ passes, ∀ fuel, passes ≤ fuel →
    Returns (anyMatches toLowercase fuel myId bareId xs) fun b =>
      b = true ↔ ∃ x ∈ xs, InLanguage toLowercase x myId ∨ InLanguage toLowercase x bareId := by
  intro xs
  induction xs with
  | nil => exact ⟨0, fun _ _ => returns_pure (by simp)⟩
  | cons x xs ih =>
    obtain ⟨full, hfull⟩ := wildcardMatch_returns toLowercase x myId
    obtain ⟨bare, hbare⟩ := wildcardMatch_returns toLowercase x bareId
    obtain ⟨others, hothers⟩ := ih
    refine ⟨max full (max bare others), fun fuel hfuel => ?_⟩
    rw [anyMatches]
    refine (hfull fuel (by omega)).bind fun a ha => ?_
    by_cases hin : InLanguage toLowercase x myId
    · rw [if_pos (ha.mpr hin)]
      exact returns_pure (iff_of_true rfl ⟨x, List.mem_cons_self, .inl hin⟩)
    · rw [if_neg (fun h => hin (ha.mp h))]
      refine (hbare fuel (by omega)).bind fun b hb => ?_
      by_cases hin' : InLanguage toLowercase x bareId
      · rw [if_pos (hb.mpr hin')]
        exact returns_pure (iff_of_true rfl ⟨x, List.mem_cons_self, .inr hin'⟩)
      · rw [if_neg (fun h => hin' (hb.mp h))]
        refine (hothers fuel (by omega)).mono fun r hr => ?_
        rw [hr]
        simp [hin, hin']

/-- The bare id is what stands before the first `@`. -/
theorem bareId_eq (myId : List Char) : bareId myId = myId.takeWhile (· ≠ '@') := by
  by_cases hat : '@' ∈ myId
  · obtain ⟨before, after, rfl, hbefore⟩ := List.eq_append_cons_of_mem hat
    have hall : ∀ c ∈ before, decide (c ≠ '@') = true := fun c hc =>
      decide_eq_true fun (he : c = '@') => hbefore (he ▸ hc)
    rw [bareId, List.splitOn_append_cons_self_of_not_mem hbefore, List.takeWhile_append_of_pos hall]
    simp
  · have hall : ∀ c ∈ myId, decide (c ≠ '@') = true := fun c hc =>
      decide_eq_true fun (he : c = '@') => hat (he ▸ hc)
    rw [bareId, List.splitOn_eq_singleton hat, List.takeWhile_eq_self_iff.mpr hall]
    rfl

/-- **The whitelist is exact globbing**: the match ends for every entry and every id, reads nothing
out of range and is the language of the entry, and a whitelist with entries lets in whom one of them
covers, by the id or by the part of it before the first `@`. -/
theorem whitelist_is_globbing (toLowercase : List Char → List Char) :
    (∀ pattern text, ∃ passes, ∀ fuel, passes ≤ fuel →
      ∃ b, wildcardMatch toLowercase fuel pattern text = some b ∧
      (b = true ↔ InLanguage toLowercase pattern text)) ∧
    ∀ idWhitelist myId, idWhitelist ≠ [] → ∃ passes, ∀ fuel, passes ≤ fuel →
      ∃ b, idWhitelistAllows toLowercase fuel idWhitelist myId = some b ∧
        (b = true ↔ ∃ x ∈ idWhitelist,
          InLanguage toLowercase x myId ∨ InLanguage toLowercase x (myId.takeWhile (· ≠ '@'))) := by
  refine ⟨wildcardMatch_returns toLowercase, fun idWhitelist myId hne => ?_⟩
  obtain ⟨passes, hpasses⟩ := anyMatches_returns toLowercase myId (bareId myId) idWhitelist
  refine ⟨passes, fun fuel hfuel => ?_⟩
  rw [idWhitelistAllows, if_neg (by simpa using hne), ← bareId_eq]
  exact hpasses fuel hfuel

end BgDesk.IdWhitelist
