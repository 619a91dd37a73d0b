import Mathlib.Data.List.TakeWhile
import BgDesk.LittleEndian
import BgDesk.BytesCodec

/-!
# Mangled addresses

`AddrMangle` of `hbb_common`: an address is sent to the other side as bytes in which it cannot be
recognised. An IPv4 address is hidden in a number behind the clock of the sender, without the zero
bytes at its end; an IPv6 address is sent as it is, with its port.

* `encode`, `decode` — as in the source, with the faults that `decode` can run into;
* `packed_eq` — the three fields of the number do not overlap;
* `address_round_trip` — an address comes back, whatever the clock was;
* `decode_returns_iff` — the bytes for which the subtractions of `decode` do not underflow.
-/

namespace BgDesk
namespace AddrMangle

/-! ## Addresses -/

/-- So many bytes. -/
@[ext] structure Octets (n : ℕ) : Type where
  bytes : Bytes
  length : bytes.length = n
  deriving DecidableEq

/-- `IpAddr`. -/
inductive IpAddr where
  | v4 (ip : Octets 4)
  | v6 (ip : Octets 16)
  deriving DecidableEq

/-- `SocketAddr`. -/
inductive SocketAddr where
  | v4 (ip : Octets 4) (port : UInt16)
  | v6 (ip : Octets 16) (port : UInt16) (flowinfo scopeId : UInt32)
  deriving DecidableEq

namespace SocketAddr

/-- `ip` -/
def ip : SocketAddr → IpAddr
  | .v4 ip _ => .v4 ip
  | .v6 ip _ _ _ => .v6 ip

/-- `port` -/
def port : SocketAddr → UInt16
  | .v4 _ port => port
  | .v6 _ port _ _ => port

end SocketAddr

/-- `Ipv6Addr::is_loopback`. -/
def isLoopback (ip : Octets 16) : Bool := decide (ip.bytes = List.replicate 15 0 ++ [1])

/-- `Ipv6Addr::to_ipv4`: of `::a.b.c.d` and `::ffff:a.b.c.d`. -/
def toIpv4 (ip : Octets 16) : Option (Octets 4) :=
  if ip.bytes.take 10 = List.replicate 10 0 ∧
      ((ip.bytes.drop 10).take 2 = [0, 0] ∨ (ip.bytes.drop 10).take 2 = [0xff, 0xff]) then
    some ⟨ip.bytes.drop 12, by rw [List.length_drop, ip.length]⟩
  else none

/-- `try_into_v4`. -/
def tryIntoV4 : SocketAddr → SocketAddr
  | .v4 ip port => .v4 ip port
  | .v6 ip port flowinfo scopeId =>
    if isLoopback ip then .v6 ip port flowinfo scopeId
    else
      match toIpv4 ip with
      | some v4 => .v4 v4 port
      | none => .v6 ip port flowinfo scopeId

/-- `Config::get_any_listen_addr`. -/
def getAnyListenAddr (isIpv4 : Bool) : SocketAddr :=
  if isIpv4 then .v4 ⟨List.replicate 4 0, rfl⟩ 0 else .v6 ⟨List.replicate 16 0, rfl⟩ 0 0 0

/-! ## Encoding -/

/-- The number for an IPv4 address, its port and the low 32 bits of the clock. -/
def packed (ip port tm : ℕ) : ℕ :=
  (ip + tm) <<< 49 % 2 ^ 128 ||| tm <<< 17 ||| (port + (tm &&& 0xFFFF))

/-- The number of zero bytes at the end. -/
def padding (bytes : Bytes) : ℕ := (bytes.reverse.takeWhile (· = 0)).length

/-- `AddrMangle::encode`; `tm` is the clock in microseconds. -/
def encode (addr : SocketAddr) (tm : UInt32) : Bytes :=
  match tryIntoV4 addr with
  | .v4 ip port =>
    let bytes := littleEndian 16 (packed (ofLittleEndian ip.bytes) port.toNat tm.toNat)
    bytes.take (16 - padding bytes)
  | .v6 ip port _ _ => ip.bytes ++ littleEndian 2 port.toNat

/-! ## Decoding -/

/-- What can stop `decode`, in a build that checks its arithmetic. -/
inductive Fault where
  | subtractUnderflow
  | sliceIndex
  deriving DecidableEq

/-- A slice of some bytes. -/
def slice (bytes : Bytes) (start stop : ℕ) : Except Fault Bytes :=
  if start ≤ stop ∧ stop ≤ bytes.length then .ok ((bytes.take stop).drop start) else .error
    .sliceIndex

/-- A subtraction of `u128`. -/
def subtract (a b : ℕ) : Except Fault ℕ := if b ≤ a then .ok (a - b) else .error .subtractUnderflow

/-- `try_into().unwrap_or_default()` -/
def Octets.tryInto (n : ℕ) (bytes : Bytes) : Octets n :=
  if h : bytes.length = n then ⟨bytes, h⟩ else ⟨List.replicate n 0, List.length_replicate⟩

/-- The address in a number. -/
def unpack (number : ℕ) : Except Fault SocketAddr := do
  let tm := number >>> 17 &&& (2 ^ 32 - 1)
  let ip ← subtract (number >>> 49) tm
  let port ← subtract (number &&& 0xFFFFFF) (tm &&& 0xFFFF)
  return .v4 ⟨littleEndian 4 (ip % 2 ^ 32), littleEndian_length _ _⟩ (UInt16.ofNat port)

/-- `AddrMangle::decode`. -/
def decode (bytes : Bytes) : Except Fault SocketAddr :=
  if 16 < bytes.length then
    if bytes.length ≠ 18 then .ok (getAnyListenAddr false)
    else do
      let port ← slice bytes 16 bytes.length
      let ip ← slice bytes 0 16
      return .v6 (.tryInto 16 ip) (UInt16.ofNat (ofLittleEndian (Octets.tryInto 2 port).bytes)) 0 0
  else do
    let padded := List.replicate 16 0
    let _ ← slice padded 0 bytes.length
    unpack (ofLittleEndian (bytes ++ padded.drop bytes.length))

/-! ## The fields of the number -/

variable {ip port tm : ℕ}

theorem and_low (x : ℕ) : x &&& 0xFFFF = x % 2 ^ 16 := by
  rw [← Nat.and_two_pow_sub_one_eq_mod]

/-- The port and the low bits of the clock fit under the clock, which fits under the rest. -/
theorem packed_eq (hip : ip < 2 ^ 32) (hport : port < 2 ^ 16) (htm : tm < 2 ^ 32) :
    packed ip port tm = (ip + tm) * 2 ^ 49 + tm * 2 ^ 17 + (port + tm % 2 ^ 16) := by
  have hlow : port + tm % 2 ^ 16 < 2 ^ 17 := by omega
  have hmid : tm * 2 ^ 17 < 2 ^ 49 := by omega
  have hhigh : (ip + tm) * 2 ^ 49 < 2 ^ 128 :=
    calc (ip + tm) * 2 ^ 49 < 2 ^ 33 * 2 ^ 49 :=
      Nat.mul_lt_mul_of_pos_right (by omega) (Nat.two_pow_pos 49)
      _ ≤ 2 ^ 128 := by decide
  have houter : (ip + tm) * 2 ^ 49 + tm * 2 ^ 17 = ((ip + tm) * 2 ^ 32 + tm) <<< 17 := by
    rw [Nat.shiftLeft_eq]
    ring
  rw [packed, and_low, Nat.shiftLeft_eq _ 49, Nat.mod_eq_of_lt hhigh, ← Nat.shiftLeft_eq,
    Nat.shiftLeft_eq tm 17,
    ← Nat.shiftLeft_add_eq_or_of_lt hmid, Nat.shiftLeft_eq, houter,
      ← Nat.shiftLeft_add_eq_or_of_lt hlow]

/-- What is taken out of a number: the clock, and the fields above and below it. -/
theorem unpack_eq (number : ℕ) : unpack number = (do
      let ip ← subtract (number / 2 ^ 49) (number / 2 ^ 17 % 2 ^ 32)
      let port ← subtract (number % 2 ^ 24) (number / 2 ^ 17 % 2 ^ 32 % 2 ^ 16)
      return .v4 ⟨littleEndian 4 (ip % 2 ^ 32), littleEndian_length _ _⟩ (UInt16.ofNat port)) := by
  have hport : number &&& 0xFFFFFF = number % 2 ^ 24 := by rw [← Nat.and_two_pow_sub_one_eq_mod]
  rw [unpack, Nat.shiftRight_eq_div_pow, Nat.shiftRight_eq_div_pow, Nat.and_two_pow_sub_one_eq_mod,
    hport, and_low]

/-- The number of an address is unpacked to it: what the mask of the port takes of the clock, the
cut to 16 bits takes away. -/
theorem unpack_packed (hip : ip < 2 ^ 32) (hport : port < 2 ^ 16) (htm : tm < 2 ^ 32) :
    unpack (packed ip port tm) = .ok (.v4 ⟨littleEndian 4 ip, littleEndian_length _ _⟩
      (UInt16.ofNat port)) := by
  have hpacked := packed_eq hip hport htm
  generalize packed ip port tm = number at hpacked ⊢
  have hhigh : number / 2 ^ 49 = ip + tm := by omega
  have hmid : number / 2 ^ 17 = (ip + tm) * 2 ^ 32 + tm := by omega
  have hclock : number / 2 ^ 17 % 2 ^ 32 = tm := by omega
  have hlow : number % 2 ^ 24 = port + tm % 2 ^ 16 + tm % 2 ^ 7 * 2 ^ 17 := by omega
  rw [unpack_eq, hhigh, hclock, hlow, subtract, if_pos (Nat.le_add_left _ _), subtract,
    if_pos (by omega)]
  have hrest : (ip + tm - tm) % 2 ^ 32 = ip := by omega
  have hcut : UInt16.ofNat (port + tm % 2 ^ 16 + tm % 2 ^ 7 * 2 ^ 17 - tm % 2 ^ 16) =
      UInt16.ofNat port := by
    refine UInt16.toNat_inj.mp ?_
    rw [UInt16.toNat_ofNat', UInt16.toNat_ofNat']
    omega
  simp only [bind, Except.bind, hrest, hcut]
  rfl

/-! ## The bytes of the number -/

/-- The bytes that are cut off are zero. -/
theorem take_padding (bytes : Bytes) :
    bytes = bytes.take (bytes.length - padding bytes) ++ List.replicate (padding bytes) 0 := by
  have hzeros : bytes.reverse.takeWhile (· = 0) = List.replicate (padding bytes) 0 :=
    List.eq_replicate_of_mem fun b hb => by simpa using List.mem_takeWhile_imp hb
  have hsplit : bytes = (bytes.reverse.dropWhile (· = 0)).reverse ++
      List.replicate (padding bytes) 0 := by
    have hparts :=
      congrArg List.reverse (List.takeWhile_append_dropWhile (p := (· = 0)) (l := bytes.reverse))
    rw [List.reverse_append, List.reverse_reverse, hzeros, List.reverse_replicate] at hparts
    exact hparts.symm
  have hlength := congrArg List.length hsplit
  rw [List.length_append, List.length_replicate] at hlength
  have htake : bytes.take (bytes.length - padding bytes) =
    (bytes.reverse.dropWhile (· = 0)).reverse :=
    (congrArg (List.take _) hsplit).trans (List.take_left' (by omega))
  rw [htake]
  exact hsplit

/-! ## What `decode` does -/

/-- Up to 16 bytes are a number; the zero bytes that are put to them do not change it. -/
theorem decode_number {bytes : Bytes} (hshort : bytes.length ≤ 16) :
    decode bytes = unpack (ofLittleEndian bytes) := by
  have hslice : slice (List.replicate 16 0) 0 bytes.length =
    .ok (((List.replicate 16 0).take bytes.length).drop 0) :=
    if_pos ⟨Nat.zero_le _, by rw [List.length_replicate]; exact hshort⟩
  rw [decode, if_neg (Nat.not_lt.mpr hshort)]
  dsimp only
  rw [hslice, List.drop_replicate, ofLittleEndian_append_zeros]
  rfl

/-- 18 bytes are an IPv6 address and its port. -/
theorem decode_v6 (ip : Octets 16) (port : UInt16) :
    decode (ip.bytes ++ littleEndian 2 port.toNat) = .ok (.v6 ip port 0 0) := by
  have hlength : (ip.bytes ++ littleEndian 2 port.toNat).length = 18 := by
    rw [List.length_append, ip.length, littleEndian_length]
  have hport : slice (ip.bytes ++ littleEndian 2 port.toNat)
      16 18 = .ok (littleEndian 2 port.toNat) := by
    rw [slice, if_pos ⟨by decide, hlength.ge⟩, List.take_of_length_le hlength.le,
      List.drop_left' ip.length]
  have hip : slice (ip.bytes ++ littleEndian 2 port.toNat) 0 16 = .ok ip.bytes := by
    rw [slice, if_pos ⟨by decide, by omega⟩, List.drop_zero, List.take_left' ip.length]
  have hsame : UInt16.ofNat (ofLittleEndian (Octets.tryInto 2 (littleEndian 2 port.toNat)).bytes) =
      port := by
    have hport : port.toNat < 256 ^ 2 := port.toNat_lt
    rw [Octets.tryInto, dif_pos (littleEndian_length _ _), ofLittleEndian_littleEndian,
      Nat.mod_eq_of_lt hport]
    exact UInt16.ofNat_toNat
  have hback : Octets.tryInto 16 ip.bytes = ip := dif_pos ip.length
  rw [decode, hlength, if_pos (by decide), if_neg (by decide), hport, hip]
  simp only [bind, Except.bind, hsame, hback]
  rfl

/-- **Addresses come back**: whatever the clock was, an address is decoded to the one that
`try_into_v4` made of it. -/
theorem address_round_trip (addr : SocketAddr) (tm : UInt32) :
    ∃ decoded, decode (encode addr tm) = .ok decoded ∧ decoded.ip = (tryIntoV4 addr).ip ∧
      decoded.port = (tryIntoV4 addr).port := by
  rw [encode]
  cases tryIntoV4 addr with
  | v4 ip port =>
    have hip : ofLittleEndian ip.bytes < 2 ^ 32 := by
      have hlt := ofLittleEndian_lt ip.bytes
      rwa [ip.length] at hlt
    have hpacked : packed (ofLittleEndian ip.bytes) port.toNat tm.toNat < 256 ^ 16 := by
      have hport := port.toNat_lt
      have htm := tm.toNat_lt
      rw [packed_eq hip hport htm]
      have hlt : (ofLittleEndian ip.bytes + tm.toNat) * 2 ^ 49 + tm.toNat * 2 ^ 17 +
          (port.toNat + tm.toNat % 2 ^ 16) < 2 ^ 83 := by omega
      exact hlt.trans (by decide)
    have hback : (⟨littleEndian 4 (ofLittleEndian ip.bytes), littleEndian_length _ _⟩ : Octets 4) =
        ip := by
      have hbytes := littleEndian_ofLittleEndian ip.bytes
      rw [ip.length] at hbytes
      exact Octets.ext hbytes
    dsimp only
    generalize hbytes :
      littleEndian 16 (packed (ofLittleEndian ip.bytes) port.toNat tm.toNat) = bytes
    have hlength : bytes.length = 16 := by rw [← hbytes, littleEndian_length]
    have hnumber : ofLittleEndian (bytes.take (16 - padding bytes)) =
        packed (ofLittleEndian ip.bytes) port.toNat tm.toNat := by
      rw [← ofLittleEndian_append_zeros _ (padding bytes), ← hlength, ← take_padding, ← hbytes,
        ofLittleEndian_littleEndian,
        Nat.mod_eq_of_lt hpacked]
    refine ⟨.v4 ip port, ?_, rfl, rfl⟩
    rw [decode_number (by rw [List.length_take]; omega), hnumber,
      unpack_packed hip port.toNat_lt tm.toNat_lt, hback]
    rw [UInt16.ofNat_toNat]
  | v6 ip port flowinfo scopeId => exact ⟨_, decode_v6 ip port, rfl, rfl⟩

/-! ## Any bytes -/

theorem slice_ok {bytes : Bytes} {start stop : ℕ} (h : start ≤ stop ∧ stop ≤ bytes.length) :
    slice bytes start stop = .ok ((bytes.take stop).drop start) :=
  if_pos h

/-- The number is one that the subtractions can be made for: the clock is at most what is above it;
and where its low seven bits are zero, so that the mask of the port takes nothing of it, its low 16
bits are at most the port field. -/
def Unpacks (number : ℕ) : Prop :=
  number / 2 ^ 17 % 2 ^ 32 ≤ number / 2 ^ 49 ∧
    (number / 2 ^ 17 % 2 ^ 7 = 0 → number / 2 ^ 17 % 2 ^ 16 ≤ number % 2 ^ 17)

theorem unpack_ok_iff (number : ℕ) : (∃ addr, unpack number = .ok addr) ↔ Unpacks number := by
  -- the mask of the port takes seven bits of the clock along
  have hmask : number % 2 ^ 24 = number % 2 ^ 17 + number / 2 ^ 17 % 2 ^ 7 * 2 ^ 17 := by omega
  have hclock : number / 2 ^ 17 % 2 ^ 32 % 2 ^ 16 = number / 2 ^ 17 % 2 ^ 16 := by omega
  have hport : number / 2 ^ 17 % 2 ^ 32 % 2 ^ 16 ≤ number % 2 ^ 24 ↔
      (number / 2 ^ 17 % 2 ^ 7 = 0 → number / 2 ^ 17 % 2 ^ 16 ≤ number % 2 ^ 17) := by
    rw [hmask, hclock]
    omega
  rw [unpack_eq, Unpacks, ← hport, subtract, subtract]
  by_cases hip : number / 2 ^ 17 % 2 ^ 32 ≤ number / 2 ^ 49
  · by_cases hlow : number / 2 ^ 17 % 2 ^ 32 % 2 ^ 16 ≤ number % 2 ^ 24
    · rw [if_pos hip, if_pos hlow]
      exact iff_of_true ⟨_, rfl⟩ ⟨hip, hlow⟩
    · rw [if_pos hip, if_neg hlow]
      exact iff_of_false (by rintro ⟨addr, h⟩; cases h) fun h => hlow h.2
  · rw [if_neg hip]
    exact iff_of_false (by rintro ⟨addr, h⟩; cases h) fun h => hip h.1

/-- A subtraction is all that can stop the unpacking. -/
theorem unpack_ne_sliceIndex (number : ℕ) : unpack number ≠ .error .sliceIndex := by
  intro h
  rw [unpack_eq, subtract, subtract] at h
  split at h
  · split at h
    · cases h
    · cases h
  · cases h

/-- **Any bytes**: no slice of `decode` is out of range, and its subtractions do not underflow if
and only if the bytes are more than 16, or the clock in their number is at most what is above it
and, where its low seven bits are zero, at most the port field in its low 16 bits. -/
theorem decode_returns_iff (bytes : Bytes) : decode bytes ≠ .error .sliceIndex ∧
      ((∃ addr, decode bytes = .ok addr) ↔ 16 < bytes.length ∨ Unpacks (ofLittleEndian bytes)) := by
  by_cases hlong : 16 < bytes.length
  · have hreturns : ∃ addr, decode bytes = .ok addr := by
      rw [decode, if_pos hlong]
      split
      · exact ⟨_, rfl⟩
      · rw [slice_ok ⟨hlong.le, le_rfl⟩, slice_ok ⟨Nat.zero_le _, hlong.le⟩]
        exact ⟨_, rfl⟩
    obtain ⟨addr, haddr⟩ := hreturns
    exact ⟨by rw [haddr]; exact nofun, iff_of_true ⟨addr, haddr⟩ (.inl hlong)⟩
  · rw [decode_number (Nat.not_lt.mp hlong)]
    exact ⟨unpack_ne_sliceIndex _, (unpack_ok_iff _).trans (or_iff_right hlong).symm⟩

/-- A single bit of the clock, with nothing above it. -/
theorem decode_underflows : ¬∀ bytes : Bytes, ∃ addr, decode bytes = .ok addr := by
  intro h
  obtain ⟨addr, haddr⟩ := h [0, 0, 2]
  have hfault : decode [0, 0, 2] = .error .subtractUnderflow := by decide
  rw [hfault] at haddr
  cases haddr

end AddrMangle
end BgDesk
