import Mathlib.Algebra.Group.Nat.Defs
import Mathlib.Data.List.Basic

/-!
# Little-endian numbers

Numbers as bytes, the lowest byte first, and back. `readLE` takes a number off the front of some
bytes; what was written is read again, cut to its width. `bigEndian` has the highest byte first.
-/

namespace BgDesk

/-- The lowest `n` bytes of a number, the lowest first. -/
def littleEndian : ℕ → ℕ → List UInt8
  | 0, _ => []
  | n + 1, x => UInt8.ofNat (x % 256) :: littleEndian n (x / 256)

/-- The number some bytes stand for. -/
def ofLittleEndian : List UInt8 → ℕ
  | [] => 0
  | b :: bs => b.toNat + 256 * ofLittleEndian bs

/-- The number in the first `n` bytes, and the bytes behind it. -/
def readLE (n : ℕ) (bytes : List UInt8) : ℕ × List UInt8 :=
  (ofLittleEndian (bytes.take n), bytes.drop n)

@[simp] theorem littleEndian_length (n x : ℕ) : (littleEndian n x).length = n := by
  induction n generalizing x with
  | zero => rfl
  | succ n ih => simp [littleEndian, ih]

/-- Reading gives back what was written, as far as `n` bytes hold it. -/
@[simp] theorem ofLittleEndian_littleEndian (n x : ℕ) :
    ofLittleEndian (littleEndian n x) = x % 256 ^ n := by
  induction n generalizing x with
  | zero => simp [littleEndian, ofLittleEndian, Nat.mod_one]
  | succ n ih =>
    rw [littleEndian, ofLittleEndian, ih, UInt8.toNat_ofNat', Nat.pow_succ 256 n,
      Nat.mul_comm (256 ^ n) 256, Nat.mod_mul]
    simp

/-- Two numbers that fit are told apart by their bytes. -/
theorem littleEndian_inj {n x y : ℕ} (hx : x < 256 ^ n) (hy : y < 256 ^ n)
    (h : littleEndian n x = littleEndian n y) : x = y := by
  have hmod := congrArg ofLittleEndian h
  rwa [ofLittleEndian_littleEndian, ofLittleEndian_littleEndian, Nat.mod_eq_of_lt hx,
    Nat.mod_eq_of_lt hy] at hmod

/-- The same with more bytes behind, which are left over. -/
@[simp] theorem readLE_littleEndian (n x : ℕ) (rest : List UInt8) :
    readLE n (littleEndian n x ++ rest) = (x % 256 ^ n, rest) := by
  rw [readLE, List.take_left' (littleEndian_length n x), List.drop_left' (littleEndian_length n x),
    ofLittleEndian_littleEndian]

theorem ofLittleEndian_lt (bytes : List UInt8) : ofLittleEndian bytes < 256 ^ bytes.length := by
  induction bytes with
  | nil => exact Nat.one_pos
  | cons b bytes ih =>
    have hb : b.toNat < 256 := b.toNat_lt
    rw [ofLittleEndian, List.length_cons, Nat.pow_succ]
    omega

/-- Bytes are the bytes of the number they stand for. -/
theorem littleEndian_ofLittleEndian (bytes : List UInt8) :
    littleEndian bytes.length (ofLittleEndian bytes) = bytes := by
  induction bytes with
  | nil => rfl
  | cons b bytes ih =>
    have hb : b.toNat < 256 := b.toNat_lt
    have hlow : (b.toNat + 256 * ofLittleEndian bytes) % 256 = b.toNat := by omega
    have hhigh : (b.toNat + 256 * ofLittleEndian bytes) / 256 = ofLittleEndian bytes := by omega
    rw [ofLittleEndian, List.length_cons, littleEndian, hlow, hhigh, ih, UInt8.ofNat_toNat]

/-- Zero bytes at the end do not change a number. -/
theorem ofLittleEndian_append_zeros (bytes : List UInt8) (n : ℕ) :
    ofLittleEndian (bytes ++ List.replicate n 0) = ofLittleEndian bytes := by
  induction bytes with
  | nil =>
    rw [List.nil_append]
    induction n with
    | zero => rfl
    | succ n ih =>
      rw [List.replicate_succ]
      exact congrArg (fun x => 0 + 256 * x) ih
  | cons b bytes ih => rw [List.cons_append, ofLittleEndian, ofLittleEndian, ih]

/-- The lowest `n` bytes of a number, the highest first. -/
def bigEndian (n x : ℕ) : List UInt8 := (littleEndian n x).reverse

/-- The number some bytes stand for, the highest first. -/
def ofBigEndian (bytes : List UInt8) : ℕ := ofLittleEndian bytes.reverse

@[simp] theorem bigEndian_length (n x : ℕ) : (bigEndian n x).length = n := by
  rw [bigEndian, List.length_reverse, littleEndian_length]

/-- The round trip of a number that fits. -/
theorem ofBigEndian_bigEndian {n x : ℕ} (h : x < 256 ^ n) : ofBigEndian (bigEndian n x) = x := by
  rw [ofBigEndian, bigEndian, List.reverse_reverse, ofLittleEndian_littleEndian, Nat.mod_eq_of_lt h]

/-- And that of the bytes. -/
theorem bigEndian_ofBigEndian {n : ℕ} {bytes : List UInt8} (h : bytes.length = n) :
    bigEndian n (ofBigEndian bytes) = bytes := by
  have hback := littleEndian_ofLittleEndian bytes.reverse
  rw [List.length_reverse, h] at hback
  rw [bigEndian, ofBigEndian, hback, List.reverse_reverse]

theorem ofBigEndian_lt {n : ℕ} {bytes : List UInt8} (h : bytes.length = n) :
    ofBigEndian bytes < 256 ^ n := by
  have hlt := ofLittleEndian_lt bytes.reverse
  rwa [List.length_reverse, h] at hlt

end BgDesk
