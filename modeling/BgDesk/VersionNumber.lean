import Mathlib.Order.Nat
import BgDesk.Checked

/-!
# Version numbers

`get_version_number` of `hbb_common`, by which the two sides decide what the other one supports. The
components of a version go into one number with the base 1000, but the last of them is multiplied by
ten, to leave space for the number after the dash.

* `getVersionNumber` — as in the source, in checked `i64` arithmetic;
* `Version` — a version as it is written, and its `fields`;
* `getVersionNumber_text` — the number of a version;
* `version_order` — the order of the fields is that of the numbers, as long as they have the space
  they are given;
* `misordered` — a version with a component that has not is out of order with another one.
-/

namespace BgDesk
namespace VersionNumber

/-! ## As in the source -/

/-- A result in `i64`. -/
def i64 (x : ℤ) : Option ℤ :=
  if -9223372036854775808 ≤ x ∧ x ≤ 9223372036854775807 then some x else none

/-- Digits, at least one. -/
def parseDigits (s : List Char) : Option ℕ :=
  if s ≠ [] ∧ s.all Char.isDigit = true then some (Nat.ofDigitChars 10 s 0) else none

/-- `parse::<i64>()` -/
def parseI64 : List Char → Option ℤ
  | '+' :: s => (parseDigits s).bind fun n => i64 n
  | '-' :: s => (parseDigits s).bind fun n => i64 (-n)
  | s => (parseDigits s).bind fun n => i64 n

/-- One component of the first part: the number so far, and this component. -/
def component (n : ℤ × ℤ) (x : List Char) : Option (ℤ × ℤ) := do
  let last := (parseI64 x).getD 0
  let n ← i64 (n.1 * 1000)
  let n ← i64 (n + last)
  return (n, last)

/-- `get_version_number`. -/
def getVersionNumber (v : List Char) : Option ℤ := do
  let versions := v.splitOn '-'
  let n ← match versions[0]? with
    | none => some 0
    | some v => do
      let (n, last) ← (List.splitOn '.' v).foldlM component (0, 0)
      let n ← i64 (n - last)
      let tens ← i64 (last * 10)
      i64 (n + tens)
  match versions[1]? with
  | none => some n
  | some v => i64 (n + (parseI64 v).getD 0)

/-! ## Versions -/

/-- A decimal number as it is written. -/
structure Component where
  digits : List Char
  ne_nil : digits ≠ []
  isDigit : ∀ c ∈ digits, c.isDigit = true

/-- The number that is written. -/
def Component.value (x : Component) : ℕ := Nat.ofDigitChars 10 x.digits 0

theorem toDigits_ne_nil (n : ℕ) : Nat.toDigits 10 n ≠ [] := Nat.toDigits_ne_nil

theorem isDigit_toDigits (n : ℕ) : ∀ c ∈ Nat.toDigits 10 n, c.isDigit = true :=
  fun _ => Nat.isDigit_of_mem_toDigits (by decide) (by decide)

/-- A number, written without leading zeros. -/
def Component.ofNat (n : ℕ) : Component :=
  ⟨Nat.toDigits 10 n, toDigits_ne_nil n, isDigit_toDigits n⟩

@[simp] theorem Component.value_ofNat (n : ℕ) : (Component.ofNat n).value = n :=
  Nat.ofDigitChars_ten_toDigits

/-- A version of three components, and perhaps one after a dash. -/
structure Version where
  a : Component
  b : Component
  c : Component
  r : Option Component

namespace Version

/-- The first part as it is written. -/
def core (v : Version) : List Char := v.a.digits ++ '.' :: (v.b.digits ++ '.' :: v.c.digits)

/-- The version as it is written. -/
def text (v : Version) : List Char :=
  match v.r with
  | none => v.core
  | some r => v.core ++ '-' :: r.digits

/-- The number after the dash. -/
def build (v : Version) : ℕ := v.r.elim 0 Component.value

/-- The components in their order. -/
def fields (v : Version) : List ℕ := [v.a.value, v.b.value, v.c.value, v.build]

/-- The number of a version, where nothing overflows. -/
def number (v : Version) : ℕ := v.a.value * 1000000 + v.b.value * 1000 + v.c.value * 10 + v.build

/-- The versions in question: the components after the first are below the base, and a number after
a dash is not zero. -/
structure InBase (v : Version) : Prop where
  b : v.b.value < 1000
  c : v.c.value < 1000
  build : v.build < 1000
  positive : ∀ r ∈ v.r, 0 < r.value

/-- Each component has the space that it is given, and the number is one of `i64`. -/
structure Fits (v : Version) : Prop where
  b : v.b.value < 1000
  c : v.c.value < 100
  build : v.build < 10
  number : v.number < 2 ^ 63

end Version

/-! ## The number of a version -/

/-- Below the bound nothing overflows. -/
theorem i64_ofNat {x : ℤ} {n : ℕ} (hx : x = n) (hn : n < 2 ^ 63) : i64 x = some (n : ℤ) := by
  have hrange : -9223372036854775808 ≤ x ∧ x ≤ 9223372036854775807 := by omega
  rw [i64, if_pos hrange, hx]

theorem Component.notMem (x : Component) {c : Char} (hc : c.isDigit = false) : c ∉ x.digits := by
  intro hmem
  rw [x.isDigit c hmem] at hc
  cases hc

/-- A component is parsed to its value, if that is in `i64`. -/
theorem parseI64_digits (x : Component) (h : x.value < 2 ^ 63) :
    parseI64 x.digits = some (x.value : ℤ) := by
  have hdigits : parseDigits x.digits = some x.value :=
    if_pos ⟨x.ne_nil, List.all_eq_true.mpr x.isDigit⟩
  unfold parseI64
  split
  · next s hs => exact absurd (hs ▸ List.mem_cons_self) (x.notMem (c := '+') rfl)
  · next s hs => exact absurd (hs ▸ List.mem_cons_self) (x.notMem (c := '-') rfl)
  · rw [hdigits]
    exact i64_ofNat rfl h

/-- The first part of a version has three components. -/
theorem splitOn_core (v : Version) : v.core.splitOn '.' = [v.a.digits, v.b.digits, v.c.digits] := by
  rw [Version.core, List.splitOn_append_cons_self_of_not_mem (v.a.notMem rfl),
    List.splitOn_append_cons_self_of_not_mem (v.b.notMem rfl),
      List.splitOn_eq_singleton (v.c.notMem rfl)]

theorem dash_notMem_core (v : Version) : '-' ∉ v.core := by
  simp [Version.core, v.a.notMem (show '-'.isDigit = false from rfl),
    v.b.notMem (show '-'.isDigit = false from rfl),
    v.c.notMem (show '-'.isDigit = false from rfl)]

/-- There is a dash in front of the fourth only. -/
theorem splitOn_text (v : Version) :
    v.text.splitOn '-' = v.core :: (v.r.map Component.digits).toList := by
  have hcore := dash_notMem_core v
  cases hr : v.r with
  | none =>
    rw [Version.text, hr]
    exact List.splitOn_eq_singleton hcore
  | some r =>
    rw [Version.text, hr]
    dsimp only
    rw [List.splitOn_append_cons_self_of_not_mem hcore, List.splitOn_eq_singleton (r.notMem rfl)]
    rfl

/-- A component is put to the number so far. -/
theorem component_eq (n : ℕ) (last : ℤ) {x : Component} (h : n * 1000 + x.value < 2 ^ 63) :
    component ((n : ℤ), last) x.digits = some (((n * 1000 + x.value : ℕ) : ℤ), (x.value : ℤ)) := by
  have hcast : (n : ℤ) * 1000 = ((n * 1000 : ℕ) : ℤ) := by omega
  have hshift : i64 ((n : ℤ) * 1000) = some ((n * 1000 : ℕ) : ℤ) :=
    i64_ofNat hcast ((Nat.le_add_right _ _).trans_lt h)
  have hsum : i64 (((n * 1000 : ℕ) : ℤ) + (x.value : ℤ)) = some ((n * 1000 + x.value : ℕ) : ℤ) :=
    i64_ofNat (by omega) (by omega)
  rw [component, parseI64_digits x (by omega), Option.getD_some]
  dsimp only
  rw [hshift, Option.bind_eq_bind, Option.bind_some, hsum]
  rfl

variable {v : Version}

/-- The number of a version. -/
theorem getVersionNumber_text (h : v.number < 2 ^ 63) :
    getVersionNumber v.text = some (v.number : ℤ) := by
  have hnumber : v.number = v.a.value * 1000000 + v.b.value * 1000 + v.c.value * 10 + v.build := rfl
  generalize hsum : (v.a.value * 1000 + v.b.value) * 1000 + v.c.value = sum
  have hcomponents : (v.core.splitOn '.').foldlM component (0, 0) =
      some ((sum : ℤ), (v.c.value : ℤ)) := by
    have ha := component_eq 0 0 (x := v.a) (by omega)
    have hb := component_eq (0 * 1000 + v.a.value) v.a.value (x := v.b) (by omega)
    have hc := component_eq ((0 * 1000 + v.a.value) * 1000 + v.b.value) v.b.value (x := v.c)
      (by omega)
    rw [Nat.zero_mul, Nat.zero_add] at ha hb hc
    rw [hsum] at hc
    rw [splitOn_core]
    exact (congrArg (· >>= _) ha).trans ((congrArg (· >>= _) hb).trans
      ((congrArg (· >>= _) hc).trans rfl))
  have hless : i64 ((sum : ℤ) - (v.c.value : ℤ)) = some ((sum - v.c.value : ℕ) : ℤ) :=
    i64_ofNat (by omega) (by omega)
  have htens : i64 ((v.c.value : ℤ) * 10) = some ((v.c.value * 10 : ℕ) : ℤ) :=
    i64_ofNat (by omega) (by omega)
  have hmore : i64 (((sum - v.c.value : ℕ) : ℤ) + ((v.c.value * 10 : ℕ) : ℤ)) =
      some ((sum - v.c.value + v.c.value * 10 : ℕ) : ℤ) := i64_ofNat (by omega) (by omega)
  rw [getVersionNumber, splitOn_text]
  dsimp only [List.getElem?_cons_zero]
  rw [hcomponents]
  dsimp only [Option.bind_eq_bind, Option.bind_some]
  rw [hless]
  dsimp only [Option.bind_some]
  rw [htens]
  dsimp only [Option.bind_some]
  rw [hmore]
  dsimp only [Option.bind_some]
  cases hr : v.r with
  | none =>
    have hbuild : v.build = 0 := by rw [Version.build, hr]; rfl
    have hsame : sum - v.c.value + v.c.value * 10 = v.number := by omega
    rw [hsame]
    rfl
  | some r =>
    have hbuild : v.build = r.value := by rw [Version.build, hr]; rfl
    have hlast : i64 (((sum - v.c.value + v.c.value * 10 : ℕ) : ℤ) + (r.value : ℤ)) =
      some (v.number : ℤ) :=
      i64_ofNat (by omega) h
    rw [← hlast]
    dsimp only [Option.map_some, Option.toList_some, List.getElem?_cons_succ,
      List.getElem?_cons_zero]
    rw [parseI64_digits r (by omega)]
    rfl

/-! ## The order -/

theorem fields_lt_iff (v w : Version) : v.fields < w.fields ↔
      v.a.value < w.a.value ∨ v.a.value = w.a.value ∧
        (v.b.value < w.b.value ∨ v.b.value = w.b.value ∧
        (v.c.value < w.c.value ∨ v.c.value = w.c.value ∧ v.build < w.build)) := by
  simp [Version.fields, List.cons_lt_cons_iff]

theorem fields_eq_iff (v w : Version) : v.fields = w.fields ↔
      v.a.value = w.a.value ∧ v.b.value = w.b.value ∧ v.c.value = w.c.value ∧
        v.build = w.build := by
  simp [Version.fields]

/-- A number with a single digit for the dash and two for the last component has its components in
order. -/
theorem number_lt_iff {w : Version} (hv : v.Fits) (hw : w.Fits) :
    v.number < w.number ↔ v.fields < w.fields := by
  obtain ⟨hvb, hvc, hvr, -⟩ := hv
  obtain ⟨hwb, hwc, hwr, -⟩ := hw
  rw [fields_lt_iff, Version.number, Version.number]
  omega

theorem number_eq_iff {w : Version} (hv : v.Fits) (hw : w.Fits) :
    v.number = w.number ↔ v.fields = w.fields := by
  obtain ⟨hvb, hvc, hvr, -⟩ := hv
  obtain ⟨hwb, hwc, hwr, -⟩ := hw
  rw [fields_eq_iff, Version.number, Version.number]
  omega

/-- **Version numbers keep the order**: of two versions with the second component below 1000, the
third below 100 and the one after the dash below 10, the numbers are ordered as the components are,
and are equal only if these are. -/
theorem version_order {v w : Version} (hv : v.Fits) (hw : w.Fits) :
    ∃ m n, getVersionNumber v.text = some m ∧ getVersionNumber w.text = some n ∧
      (m < n ↔ v.fields < w.fields) ∧ (m = n ↔ v.fields = w.fields) :=
  ⟨v.number, w.number, getVersionNumber_text hv.number, getVersionNumber_text hw.number,
    Int.ofNat_lt.trans (number_lt_iff hv hw), Int.ofNat_inj.trans (number_eq_iff hv hw)⟩

/-- A version without a number after a dash. -/
def release (a b c : ℕ) : Version := ⟨.ofNat a, .ofNat b, .ofNat c, none⟩

/-- A version with one. -/
def patch (a b c r : ℕ) : Version := ⟨.ofNat a, .ofNat b, .ofNat c, some (.ofNat r)⟩

@[simp] theorem release_number (a b c : ℕ) :
    (release a b c).number = a * 1000000 + b * 1000 + c * 10 := by
  simp [Version.number, release, Version.build]

@[simp] theorem patch_number (a b c r : ℕ) :
    (patch a b c r).number = a * 1000000 + b * 1000 + c * 10 + r := by
  simp [Version.number, patch, Version.build]

theorem release_fits {a b c : ℕ} (hb : b < 1000) (hc : c < 100)
    (hnumber : a * 1000000 + b * 1000 + c * 10 < 2 ^ 63) : (release a b c).Fits :=
  ⟨by simpa [release] using hb, by simpa [release] using hc, show 0 < 10 by
    decide, (release_number a b c).symm ▸ hnumber⟩

theorem version_order_patch : ∃ m n, getVersionNumber (patch 1 1 10 1).text = some m ∧
      getVersionNumber (release 1 2 3).text = some n ∧
      (m < n ↔ (patch 1 1 10 1).fields < (release 1 2 3).fields) ∧
        (m = n ↔ (patch 1 1 10 1).fields = (release 1 2 3).fields) :=
  version_order ⟨by decide, by decide, by decide, by decide⟩
    (release_fits (by decide) (by decide) (by decide))

/-- The tenth patch of a version has the number of the next version, and the one after that a higher
one. -/
theorem patch_overtakes :
    ¬∀ v w : Version, v.InBase → w.InBase → ∃ m n, getVersionNumber v.text = some m ∧
      getVersionNumber w.text = some n ∧
      (m < n ↔ v.fields < w.fields) ∧ (m = n ↔ v.fields = w.fields) := by
  intro h
  obtain ⟨m, n, hm, hn, hlt, -⟩ :=
    h (patch 1 1 1 11) (release 1 1 2) ⟨by decide, by decide, by decide, by decide⟩
    ⟨by decide, by decide, by decide, nofun⟩
  -- 1001021 of the one, 1001020 of the other
  obtain rfl := Option.some.inj ((getVersionNumber_text (by simp)).symm.trans hm)
  obtain rfl := Option.some.inj ((getVersionNumber_text (by simp)).symm.trans hn)
  exact absurd (hlt.mpr (by decide)) (by simp)

/-- The bounds are the right ones: a version that does not fit is not ordered before the next
version that does. -/
theorem misordered (hv : v.InBase) (hnumber : v.number < 2 ^ 63)
    (hlarge : ¬(v.c.value < 100 ∧ v.build < 10)) : ∃ w : Version, w.Fits ∧ v.fields < w.fields ∧
      ∃ m n, getVersionNumber v.text = some m ∧ getVersionNumber w.text = some n ∧ n ≤ m := by
  have hb := hv.b
  have hvalue : v.number = v.a.value * 1000000 + v.b.value * 1000 + v.c.value * 10 + v.build := rfl
  -- the next version that fits: of the last component, or with a carry
  have hnext : ∃ a b c : ℕ, b < 1000 ∧ c < 100 ∧ a * 1000000 + b * 1000 + c * 10 ≤ v.number ∧
      v.fields < [a, b, c, 0] := by
    simp only [Version.fields, List.cons_lt_cons_iff]
    by_cases hcarry : v.c.value * 10 + v.build < 1000
    · exact ⟨v.a.value, v.b.value, v.c.value + 1, hb, by omega, by omega, by omega⟩
    · by_cases hlast : v.b.value < 999
      · exact ⟨v.a.value, v.b.value + 1, 0, by omega, by decide, by omega, by omega⟩
      · exact ⟨v.a.value + 1, 0, 0, by decide, by decide, by omega, by omega⟩
  obtain ⟨a, b, c, hb', hc', hle, hbefore⟩ := hnext
  have hvalues : (release a b c).number = a * 1000000 + b * 1000 + c * 10 := by
    simp [Version.number, release, Version.build]
  have hle' : (release a b c).number ≤ v.number := by
    rw [hvalues]
    exact hle
  have hfits := release_fits hb' hc' (hle.trans_lt hnumber)
  refine ⟨release a b c, hfits, ?_, v.number, (release a b c).number, getVersionNumber_text hnumber,
    getVersionNumber_text hfits.number, ?_⟩
  · simpa [release, Version.fields, Version.build] using hbefore
  · exact Int.ofNat_le.mpr hle'

end VersionNumber
end BgDesk
