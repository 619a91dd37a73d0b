import Mathlib.Algebra.GroupWithZero.Nat

/-!
# Base64

The usual alphabet with padding, as bytes. Reading is strict: a text is read only if it is what
would be written, with its last group filled up and no bit set that says nothing.

* `digit`, `value` — the alphabet;
* `encode`, `decode`, and `decode_encode`.
-/

namespace BgDesk
namespace Base64

/-- The `=` that fills up the last group. -/
def pad : UInt8 := 61

/-- The six bits as a character: `A-Z`, `a-z`, `0-9`, `+` and `/`. -/
def digit (n : ℕ) : UInt8 :=
  if n < 26 then UInt8.ofNat (n + 65)
  else if n < 52 then UInt8.ofNat (n - 26 + 97)
  else if n < 62 then UInt8.ofNat (n - 52 + 48)
  else if n = 62 then 43
  else 47

/-- The six bits a character stands for. -/
def value (c : UInt8) : Option ℕ :=
  if 65 ≤ c ∧ c ≤ 90 then some (c.toNat - 65)
  else if 97 ≤ c ∧ c ≤ 122 then some (c.toNat - 97 + 26)
  else if 48 ≤ c ∧ c ≤ 57 then some (c.toNat - 48 + 52)
  else if c = 43 then some 62
  else if c = 47 then some 63
  else none

/-- Groups of three bytes as four characters. -/
def encode : List UInt8 → List UInt8
  | [] => []
  | [a] => [digit (a.toNat / 4), digit (a.toNat % 4 * 16), pad, pad]
  | [a, b] =>
    [digit (a.toNat / 4), digit (a.toNat % 4 * 16 + b.toNat / 16), digit (b.toNat % 16 * 4), pad]
  | a :: b :: c :: rest =>
    digit (a.toNat / 4) :: digit (a.toNat % 4 * 16 + b.toNat / 16) ::
      digit (b.toNat % 16 * 4 + c.toNat / 64) ::
      digit (c.toNat % 64) :: encode rest

/-- Groups of four characters as three bytes, of which the last may be filled up. -/
def decode : List UInt8 → Option (List UInt8)
  | [] => some []
  | p :: q :: r :: s :: rest => do
    let x ← value p
    let y ← value q
    if rest = [] ∧ s = pad then
      if r = pad then
        if y % 16 = 0 then some [UInt8.ofNat (x * 4 + y / 16)] else none
      else
        let z ← value r
        if z % 4 = 0 then some [UInt8.ofNat (x * 4 + y / 16),
          UInt8.ofNat (y % 16 * 16 + z / 4)] else none
    else
      let z ← value r
      let w ← value s
      let more ← decode rest
      some (UInt8.ofNat (x * 4 + y / 16) :: UInt8.ofNat (y % 16 * 16 + z / 4) ::
        UInt8.ofNat (z % 4 * 64 + w) :: more)
  | _ => none

theorem value_digit : ∀ n < 64, value (digit n) = some n := by decide +kernel

theorem digit_ne_pad : ∀ n < 64, digit n ≠ pad := by decide +kernel

theorem digit_lt : ∀ n < 64, digit n < 128 := by decide +kernel

/-- What was written is read. -/
theorem decode_encode (bytes : List UInt8) : decode (encode bytes) = some bytes := by
  induction bytes using encode.induct with
  | case1 => rfl
  | case2 a =>
    have ha := a.toNat_lt
    have hx : a.toNat / 4 * 4 + a.toNat % 4 * 16 / 16 = a.toNat := by omega
    rw [encode, decode, value_digit _ (by omega), value_digit _ (by omega), Option.bind_eq_bind,
      Option.bind_some, Option.bind_eq_bind, Option.bind_some]
    rw [if_pos ⟨rfl, rfl⟩, if_pos rfl, if_pos (by omega), hx, UInt8.ofNat_toNat]
  | case3 a b =>
    have ha := a.toNat_lt
    have hb := b.toNat_lt
    have hx : a.toNat / 4 * 4 + (a.toNat % 4 * 16 + b.toNat / 16) / 16 = a.toNat := by omega
    have hy : (a.toNat % 4 * 16 + b.toNat / 16) % 16 * 16 + b.toNat % 16 * 4 / 4 = b.toNat := by
      omega
    rw [encode, decode, value_digit _ (by omega), value_digit _ (by omega), Option.bind_eq_bind,
      Option.bind_some, Option.bind_eq_bind, Option.bind_some]
    rw [if_pos ⟨rfl, rfl⟩, if_neg (digit_ne_pad _ (by omega)), value_digit _ (by omega),
      Option.bind_some, if_pos (by omega), hx, hy, UInt8.ofNat_toNat, UInt8.ofNat_toNat]
  | case4 a b c rest ih =>
    have ha := a.toNat_lt
    have hb := b.toNat_lt
    have hc := c.toNat_lt
    have hx : a.toNat / 4 * 4 + (a.toNat % 4 * 16 + b.toNat / 16) / 16 = a.toNat := by omega
    have hy : (a.toNat % 4 * 16 + b.toNat / 16) % 16 * 16 + (b.toNat % 16 * 4 + c.toNat / 64) / 4 =
        b.toNat := by omega
    have hz : (b.toNat % 16 * 4 + c.toNat / 64) % 4 * 64 + c.toNat % 64 = c.toNat := by omega
    rw [encode, decode, value_digit _ (by omega), value_digit _ (by omega), Option.bind_eq_bind,
      Option.bind_some, Option.bind_eq_bind, Option.bind_some]
    rw [if_neg fun h => digit_ne_pad _ (by omega) h.2, value_digit _ (by omega), Option.bind_some,
      value_digit _ (by omega),
      Option.bind_some, ih, Option.bind_some, hx, hy, hz, UInt8.ofNat_toNat, UInt8.ofNat_toNat,
        UInt8.ofNat_toNat]

theorem encode_length (bytes : List UInt8) :
    (encode bytes).length = (bytes.length + 2) / 3 * 4 := by
  induction bytes using encode.induct with
  | case1 => rfl
  | case2 a => simp [encode]
  | case3 a b => simp [encode]
  | case4 a b c rest ih =>
    rw [encode]
    simp only [List.length_cons]
    omega

/-- All characters are in ASCII. -/
theorem encode_lt (bytes : List UInt8) : ∀ c ∈ encode bytes, c < 128 := by
  have hpad : pad < 128 := by decide
  induction bytes using encode.induct with
  | case1 =>
    rintro c ⟨⟩
  | case2 a =>
    have ha := a.toNat_lt
    rw [encode]
    simp only [List.forall_mem_cons, List.not_mem_nil, false_implies, implies_true, and_true]
    exact ⟨digit_lt _ (by omega), digit_lt _ (by omega), hpad, hpad⟩
  | case3 a b =>
    have ha := a.toNat_lt
    have hb := b.toNat_lt
    rw [encode]
    simp only [List.forall_mem_cons, List.not_mem_nil, false_implies, implies_true, and_true]
    exact ⟨digit_lt _ (by omega), digit_lt _ (by omega), digit_lt _ (by omega), hpad⟩
  | case4 a b c rest ih =>
    have ha := a.toNat_lt
    have hb := b.toNat_lt
    have hc := c.toNat_lt
    rw [encode]
    simp only [List.forall_mem_cons]
    exact ⟨digit_lt _ (by omega), digit_lt _ (by omega), digit_lt _ (by omega),
      digit_lt _ (by omega), ih⟩

example : encode [98, 103, 33, 10] = [89, 109, 99, 104, 67, 103, 61, 61] := by decide

end Base64
end BgDesk
