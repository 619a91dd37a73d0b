import Mathlib.Data.List.Basic

/-!
# UTF-16

Text as sixteen-bit units: a character below `0x10000` is one unit, any other a high and a low
surrogate. `decode` refuses a surrogate that does not stand in such a pair, and takes back what
`encode` wrote. As bytes, a unit stands lowest byte first.
-/

namespace BgDesk
namespace Utf16

/-- The units of a character. -/
def encodeChar (c : Char) : List UInt16 :=
  if c.toNat < 0x10000 then [UInt16.ofNat c.toNat]
  else [UInt16.ofNat (0xD800 + (c.toNat - 0x10000) / 0x400),
    UInt16.ofNat (0xDC00 + (c.toNat - 0x10000) % 0x400)]

/-- The units of a text. -/
def encode (cs : List Char) : List UInt16 := cs.flatMap encodeChar

/-- The text some units stand for. -/
def decode : List UInt16 → Option (List Char)
  | [] => some []
  | u :: us =>
    if u.toNat < 0xD800 ∨ 0xE000 ≤ u.toNat then (decode us).map (Char.ofNat u.toNat :: ·)
    else
      match us with
      | [] => none
      | v :: vs =>
        if u.toNat < 0xDC00 ∧ 0xDC00 ≤ v.toNat ∧ v.toNat < 0xE000 then
          (decode vs).map (Char.ofNat (0x10000 + (u.toNat - 0xD800) * 0x400 + (v.toNat - 0xDC00)) ::
            ·)
        else none

/-- Units as bytes. -/
def toBytes (us : List UInt16) : List UInt8 :=
  us.flatMap fun u => [UInt8.ofNat (u.toNat % 256), UInt8.ofNat (u.toNat / 256)]

/-- Bytes two by two; one that is left over is dropped. -/
def ofBytes : List UInt8 → List UInt16
  | lo :: hi :: rest => UInt16.ofNat (lo.toNat + 256 * hi.toNat) :: ofBytes rest
  | _ => []

/-! ## Characters -/

/-- The units of a character, and what they say about it. -/
theorem encodeChar_cases (c : Char) :
    (∃ u : UInt16, encodeChar c = [u] ∧ u.toNat = c.toNat ∧ (u.toNat < 0xD800 ∨ 0xE000 ≤ u.toNat)) ∨
      ∃ u v : UInt16, encodeChar c = [u, v] ∧ 0xD800 ≤ u.toNat ∧ u.toNat < 0xDC00 ∧
        0xDC00 ≤ v.toNat ∧
        v.toNat < 0xE000 ∧ 0x10000 + (u.toNat - 0xD800) * 0x400 + (v.toNat - 0xDC00) = c.toNat := by
  have hvalid := c.valid
  rw [encodeChar]
  split
  · next hlow =>
    refine Or.inl ⟨_, rfl, ?_, ?_⟩
    · rw [UInt16.toNat_ofNat', Nat.mod_eq_of_lt hlow]
    · rw [UInt16.toNat_ofNat', Nat.mod_eq_of_lt hlow]
      rcases hvalid with h | ⟨h, -⟩
      · exact Or.inl h
      · exact Or.inr h
  · next hhigh =>
    have hmax : c.toNat < 0x110000 := by
      rcases hvalid with h | ⟨-, h⟩
      · have : c.toNat < 0xD800 := h
        omega
      · exact h
    have hu : (UInt16.ofNat (0xD800 + (c.toNat - 0x10000) / 0x400)).toNat = 0xD800 +
        (c.toNat - 0x10000) / 0x400 := by
      rw [UInt16.toNat_ofNat', Nat.mod_eq_of_lt (by omega)]
    have hv : (UInt16.ofNat (0xDC00 + (c.toNat - 0x10000) % 0x400)).toNat = 0xDC00 +
        (c.toNat - 0x10000) % 0x400 := by
      rw [UInt16.toNat_ofNat', Nat.mod_eq_of_lt (by omega)]
    refine Or.inr ⟨_, _, rfl, ?_⟩
    rw [hu, hv]
    omega

/-- A unit is zero only in the character zero. -/
theorem ne_zero_of_mem_encodeChar {c : Char} (hc : c ≠ '\x00') {u : UInt16}
    (hu : u ∈ encodeChar c) : u ≠ 0 := by
  intro h0
  rcases encodeChar_cases c with ⟨w, henc, hw, -⟩ | ⟨w, w', henc, hw, -, hw', -⟩
  · rw [henc, List.mem_singleton] at hu
    subst hu h0
    exact hc (Char.toNat_inj.mp hw.symm)
  · rw [henc, List.mem_pair] at hu
    rcases hu with rfl | rfl
    · subst h0
      exact absurd hw (by decide)
    · subst h0
      exact absurd hw' (by decide)

theorem ne_zero_of_mem_encode {cs : List Char} (hcs : '\x00' ∉ cs) {u : UInt16}
    (hu : u ∈ encode cs) : u ≠ 0 := by
  obtain ⟨c, hc, hmem⟩ := List.mem_flatMap.mp hu
  exact ne_zero_of_mem_encodeChar (fun h0 => hcs (h0 ▸ hc)) hmem

/-! ## Texts -/

theorem decode_encodeChar_append (c : Char) (us : List UInt16) :
    decode (encodeChar c ++ us) = (decode us).map (c :: ·) := by
  rcases encodeChar_cases c with ⟨u, henc, hu, hrange⟩ | ⟨u, v, henc, hu, hu', hv, hv', hc⟩
  · rw [henc, List.singleton_append, decode.eq_def]
    simp only
    rw [if_pos hrange, hu, Char.ofNat_toNat]
  · rw [henc, List.cons_append, List.singleton_append, decode.eq_def]
    simp only
    rw [if_neg (by omega), if_pos ⟨hu', hv, hv'⟩, hc, Char.ofNat_toNat]

/-- What was encoded is decoded again. -/
theorem decode_encode (cs : List Char) : decode (encode cs) = some cs := by
  induction cs with
  | nil => rfl
  | cons c cs ih =>
    rw [encode, List.flatMap_cons, decode_encodeChar_append]
    rw [encode] at ih
    rw [ih]
    rfl

/-! ## Bytes -/

@[simp] theorem toBytes_length (us : List UInt16) : (toBytes us).length = 2 * us.length := by
  induction us with
  | nil => rfl
  | cons u us ih =>
    rw [toBytes] at ih
    rw [toBytes, List.flatMap_cons, List.length_append, ih, List.length_cons, List.length_cons,
      List.length_cons,
      List.length_nil]
    omega

/-- Two bytes make a unit. -/
theorem two_mul_length_ofBytes_le : ∀ bytes : List UInt8, 2 * (ofBytes bytes).length ≤ bytes.length
  | [] | [_] => Nat.zero_le _
  | lo :: hi :: rest => by
    have ih := two_mul_length_ofBytes_le rest
    rw [ofBytes, List.length_cons, List.length_cons, List.length_cons]
    omega

/-- Units that were written are read again, before whatever follows them. -/
theorem ofBytes_toBytes_append (us : List UInt16) (rest : List UInt8) :
    ofBytes (toBytes us ++ rest) = us ++ ofBytes rest := by
  induction us with
  | nil => rfl
  | cons u us ih =>
    have hunit :
        UInt16.ofNat ((UInt8.ofNat (u.toNat % 256)).toNat + 256 *
          (UInt8.ofNat (u.toNat / 256)).toNat) = u := by
      have hlt := u.toNat_lt
      apply UInt16.toNat_inj.mp
      rw [UInt8.toNat_ofNat', UInt8.toNat_ofNat', UInt16.toNat_ofNat']
      omega
    rw [toBytes] at ih
    rw [toBytes, List.flatMap_cons, List.append_assoc, List.cons_append, List.cons_append,
      List.nil_append, ofBytes,
      hunit, ih, List.cons_append]

end Utf16
end BgDesk
