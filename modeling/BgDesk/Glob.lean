import Mathlib.Data.List.Basic
import Mathlib.Data.List.Forall2

/-!
# Glob patterns

The generic part for patterns with wildcards, over any alphabet. A pattern is a list of tokens;
`Matches` is its language. The second half is what a matcher rests on that remembers only the
latest star: once a star is reached, the stars before it need no other choice (`matches_star_star`),
and where the part after the latest star does not fit, that star takes one letter more
(`matches_star_cons`).
-/

namespace BgDesk.Glob

universe u

variable {α : Type u}

/-- A part of a pattern: any sequence, any letter, or a letter of its own. -/
inductive Token (α : Type u)
  | star
  | any
  | char (c : α)
  deriving DecidableEq

/-- The letters a token stands for. A star stands for none by itself. -/
def Token.Fits : Token α → α → Prop
  | .star, _ => False
  | .any, _ => True
  | .char c, x => c = x

@[simp] theorem fits_star (x : α) : ¬ (Token.star : Token α).Fits x := id

@[simp] theorem fits_any (x : α) : (Token.any : Token α).Fits x := trivial

variable {x : α} {u w : List α} {q seg : List (Token α)} {tok : Token α}

@[simp] theorem fits_char {c : α} : (Token.char c).Fits x ↔ c = x := Iff.rfl

/-- The language of a pattern. -/
inductive Matches : List (Token α) → List α → Prop
  | nil : Matches [] []
  | star {q : List (Token α)} {w : List α} (u : List α) (h : Matches q w) :
    Matches (.star :: q) (u ++ w)
  | one {tok : Token α} {x : α} {q : List (Token α)} {w : List α} (hfit : tok.Fits x)
    (h : Matches q w) :
      Matches (tok :: q) (x :: w)

/-! ## Inversion -/

@[simp] theorem matches_nil : Matches [] w ↔ w = [] := by
  constructor
  · intro h
    cases h
    rfl
  · rintro rfl
    exact .nil

theorem matches_star : Matches (.star :: q) w ↔ ∃ v, v <:+ w ∧ Matches q v := by
  constructor
  · intro h
    cases h with
    | star u h => exact ⟨_, List.suffix_append u _, h⟩
    | one hfit _ => exact absurd hfit (fits_star _)
  · rintro ⟨v, ⟨u, rfl⟩, h⟩
    exact .star u h

theorem matches_one (htok : tok ≠ .star) :
    Matches (tok :: q) (x :: w) ↔ tok.Fits x ∧ Matches q w := by
  constructor
  · intro h
    generalize hw : x :: w = w' at h
    cases h with
    | star => exact absurd rfl htok
    | one hfit h =>
      obtain ⟨rfl, rfl⟩ := List.cons.inj hw
      exact ⟨hfit, h⟩
  · rintro ⟨hfit, h⟩
    exact .one hfit h

/-- The empty word is in the language of the patterns that are all stars. -/
theorem matches_cons_nil : Matches (tok :: q) ([] : List α) ↔ tok = .star ∧ Matches q [] := by
  constructor
  · intro h
    generalize hw : ([] : List α) = w at h
    cases h with
    | star u h =>
      obtain ⟨rfl, rfl⟩ := List.append_eq_nil_iff.mp hw.symm
      exact ⟨rfl, h⟩
    | one => cases hw
  · rintro ⟨rfl, h⟩
    exact .star [] h

/-- A star takes nothing, or the first letter and then what a star takes of the rest. -/
theorem matches_star_cons :
    Matches (.star :: q) (x :: w) ↔ Matches q (x :: w) ∨ Matches (.star :: q) w := by
  simp only [matches_star, List.suffix_cons_iff]
  constructor
  · rintro ⟨v, rfl | hv, h⟩
    · exact .inl h
    · exact .inr ⟨v, hv, h⟩
  · rintro (h | ⟨v, hv, h⟩)
    · exact ⟨_, .inl rfl, h⟩
    · exact ⟨v, .inr hv, h⟩

/-- What a star followed by `q` matches, it matches with more in front. -/
theorem matches_star_of_suffix {v : List α} (hv : v <:+ w) (h : Matches (.star :: q) v) :
    Matches (.star :: q) w := by
  obtain ⟨v', hv', h⟩ := matches_star.mp h
  exact matches_star.mpr ⟨v', hv'.trans hv, h⟩

/-! ## Parts without a star -/

/-- The letters of `u` fit the tokens of `seg` one by one. -/
abbrev Fit (seg : List (Token α)) (u : List α) : Prop := List.Forall₂ Token.Fits seg u

theorem Fit.snoc (h : Fit seg u) (hfit : tok.Fits x) : Fit (seg ++ [tok]) (u ++ [x]) :=
  List.rel_append h (.cons hfit .nil)

theorem Fit.append_matches (h : Fit seg u) (hq : Matches q w) : Matches (seg ++ q) (u ++ w) := by
  induction h with
  | nil => exact hq
  | cons hfit _ ih => exact .one hfit ih

/-- A part that fits some letters takes just as many of any word. -/
theorem Fit.matches_append (h : Fit seg u) (hw : Matches (seg ++ q) w) :
    ∃ u' w', w = u' ++ w' ∧ u'.length = u.length ∧ Matches q w' := by
  induction h generalizing w with
  | nil => exact ⟨[], w, rfl, rfl, hw⟩
  | @cons tok x seg u hfit _ ih =>
    have htok : tok ≠ .star := by
      rintro rfl
      exact fits_star _ hfit
    cases w with
    | nil => exact absurd (matches_cons_nil.mp hw).1 htok
    | cons y w =>
      obtain ⟨-, hw⟩ := (matches_one htok).mp hw
      obtain ⟨u', w', rfl, hlen, hq⟩ := ih hw
      exact ⟨y :: u', w', rfl, congrArg (· + 1) hlen, hq⟩

/-- So in front of what it fits it can be taken off. -/
theorem Fit.matches_append_iff (h : Fit seg u) : Matches (seg ++ q) (u ++ w) ↔ Matches q w := by
  constructor
  · intro hw
    obtain ⟨u', w', heq, hlen, hq⟩ := h.matches_append hw
    obtain ⟨rfl, rfl⟩ := List.append_inj heq hlen.symm
    exact hq
  · exact h.append_matches

/-! ## The latest star is enough -/

/-- Behind a star and a part that fits `u`, only what follows `u` can be left. -/
theorem Fit.matches_star_append (h : Fit seg u) (hw : Matches (.star :: (seg ++ q)) (u ++ w)) :
    ∃ v, v <:+ w ∧ Matches q v := by
  obtain ⟨v, hv, hseg⟩ := matches_star.mp hw
  obtain ⟨u', w', rfl, hlen, hq⟩ := h.matches_append hseg
  refine ⟨w', ?_, hq⟩
  -- both are suffixes of the word, and `w'` is not the longer one
  have hw' : w' <:+ u ++ w := (List.suffix_append u' w').trans hv
  refine List.suffix_of_suffix_length_le hw' (List.suffix_append u w) ?_
  have := hv.length_le
  simp only [List.length_append] at this
  omega

/-- **Greedy choice**: when the next star is reached, the star before it is as well taken as it can
be. -/
theorem Fit.matches_star_star (h : Fit seg u) :
    Matches (.star :: (seg ++ .star :: q)) (u ++ w) ↔ Matches (.star :: q) w := by
  constructor
  · intro hw
    obtain ⟨v, hv, hq⟩ := h.matches_star_append hw
    exact matches_star_of_suffix hv hq
  · intro hw
    exact matches_star.mpr ⟨u ++ w, List.suffix_rfl, h.append_matches hw⟩

/-- At the end of the word the rest of the pattern has to do with nothing. -/
theorem Fit.matches_star_nil (h : Fit seg u) :
    Matches (.star :: (seg ++ q)) u ↔ Matches q ([] : List α) := by
  constructor
  · intro hw
    rw [← List.append_nil u] at hw
    obtain ⟨v, hv, hq⟩ := h.matches_star_append hw
    rwa [List.suffix_nil.mp hv] at hq
  · intro hq
    have := h.append_matches hq
    rw [List.append_nil] at this
    exact matches_star.mpr ⟨u, List.suffix_rfl, this⟩

/-- **Backtracking**: where the rest does not go on, the latest star takes one letter more. -/
theorem Fit.matches_star_next {r : List α} (h : Fit seg u) (hw : ¬ Matches q w)
    (heq : u ++ w = x :: r) :
    Matches (.star :: (seg ++ q)) (u ++ w) ↔ Matches (.star :: (seg ++ q)) r := by
  have hno : ¬ Matches (seg ++ q) (u ++ w) := fun hm => hw (h.matches_append_iff.mp hm)
  rw [heq] at hno ⊢
  rw [matches_star_cons]
  exact or_iff_right hno

end BgDesk.Glob
