import Mathlib.Data.Nat.Bitwise
import Mathlib.Data.List.Basic
import Mathlib.Tactic.Ring

/-!
# The TCP framing codec

`libs/hbb_common/src/bytes_codec.rs`. A frame is a little-endian length header
of one to four bytes, whose low two bits say how many bytes follow the first,
and then the payload. The decoder keeps a state between calls, because a
header or a body may arrive in pieces.

Buffers are byte lists; `reserve` only moves capacity, so it leaves no trace in them, and how much
is reserved is a function of its own. The decoder is total on every input: what a hostile peer can
write on the wire is any byte list.

The development is in three layers: the codec as the source computes it; the
behaviour of one call of `decode` when more bytes are appended to its buffer,
from which chunking never matters (`feed_eq_drain`); and the round trip of one
frame, from which that of a whole stream follows. On bytes that no encoder wrote
the cap still holds (`feed_hostile`).
-/

namespace BgDesk

/-- A `BytesMut` or `Bytes` buffer, seen through its contents. -/
abbrev Bytes : Type := List UInt8

/-- The two `io::ErrorKind`s the codec raises. -/
inductive IoErrorKind where
  | invalidData
  | invalidInput
  deriving DecidableEq

/-- An `io::Error`: its kind and its text. -/
structure IoError where
  kind : IoErrorKind
  message : String
  deriving DecidableEq

/-- Largest payload representable by the four-byte frame header. -/
def maxFrameLength : ℕ := 0x3FFFFFFF

/-- `usize::MAX` of a 64-bit build. -/
def usizeMax : ℕ := 2 ^ 64 - 1

/-- Where the decoder stands between two calls. -/
inductive DecodeState where
  /-- a header is due -/
  | head : DecodeState
  /-- the header of a payload of this length has been consumed -/
  | data : ℕ → DecodeState
  deriving DecidableEq

/-- The codec's state: decoder position, raw mode, and the cap a header may declare. -/
structure BytesCodec where
  state : DecodeState
  raw : Bool
  maxPacketLength : ℕ
  deriving DecidableEq

namespace BytesCodec

/-- `BytesCodec::new`. -/
def new : BytesCodec := ⟨.head, false, usizeMax⟩

/-- `set_raw`. -/
def setRaw (c : BytesCodec) : BytesCodec := { c with raw := true }

/-- `set_max_packet_length`. -/
def setMaxPacketLength (c : BytesCodec) (n : ℕ) : BytesCodec := { c with maxPacketLength := n }

/-- How many bytes the header starting with `b` takes. -/
def headLen (b : UInt8) : ℕ := ((b &&& 0x3) + 1).toNat

/-- The length a header of `headLen` bytes declares: the bytes little-endian, the
tag bits shifted out. Bytes beyond the header are not looked at. -/
def headValue (headLen : ℕ) (src : Bytes) : ℕ :=
  let at' := fun i => (src.getD i 0).toNat
  let n := at' 0
  let n := if headLen > 1 then n ||| at' 1 <<< 8 else n
  let n := if headLen > 2 then n ||| at' 2 <<< 16 else n
  let n := if headLen > 3 then n ||| at' 3 <<< 24 else n
  n >>> 2

/-- `decode_head`: the declared length once the whole header is there, which is
then consumed. -/
def decodeHead (c : BytesCodec) (src : Bytes) : Except IoError (Option ℕ) × Bytes :=
  match src with
  | [] => (.ok none, src)
  | b :: _ =>
    if src.length < headLen b then (.ok none, src)
    else
      let n := headValue (headLen b) src
      if n > c.maxPacketLength then (.error ⟨.invalidData, "Too big packet"⟩, src)
      else (.ok (some n), src.drop (headLen b))

/-- `decode_data`: the payload once all of it is there. -/
def decodeData (n : ℕ) (src : Bytes) : Option Bytes × Bytes :=
  if src.length < n then (none, src) else (some (src.take n), src.drop n)

/-- The second half of `decode`, entered with the length of the payload that is due. -/
def decodeBody (c : BytesCodec) (n : ℕ) (src : Bytes) :
    Except IoError (Option Bytes) × BytesCodec × Bytes :=
  match decodeData n src with
  | (some data, src') => (.ok (some data), { c with state := .head }, src')
  | (none, src') => (.ok none, c, src')

/-- `Decoder::decode`. -/
def decode (c : BytesCodec) (src : Bytes) : Except IoError (Option Bytes) × BytesCodec × Bytes :=
  if c.raw then
    if src.isEmpty then (.ok none, c, src) else (.ok (some src), c, [])
  else
    match c.state with
    | .head =>
      match decodeHead c src with
      | (.error e, src') => (.error e, c, src')
      | (.ok none, src') => (.ok none, c, src')
      | (.ok (some n), src') => decodeBody { c with state := .data n } n src'
    | .data n => decodeBody c n src

/-- The truncating cast `as u16`. -/
def asU16 (n : ℕ) : ℕ := n % 2 ^ 16

/-- The truncating cast `as u32`. -/
def asU32 (n : ℕ) : ℕ := n % 2 ^ 32

/-- `put_u8`, with its truncating cast. -/
def putU8 (n : ℕ) : Bytes := [UInt8.ofNat n]

/-- `put_u16_le`. -/
def putU16LE (n : ℕ) : Bytes := [UInt8.ofNat n, UInt8.ofNat (n >>> 8)]

/-- `put_u32_le`. -/
def putU32LE (n : ℕ) : Bytes :=
  [UInt8.ofNat n, UInt8.ofNat (n >>> 8), UInt8.ofNat (n >>> 16), UInt8.ofNat (n >>> 24)]

/-- The header `encode` writes for a payload of this length, if one can be written. -/
def header (len : ℕ) : Option Bytes :=
  if len ≤ 0x3F then some (putU8 (len <<< 2))
  else if len ≤ 0x3FFF then some (putU16LE (asU16 (len <<< 2) ||| 0x1))
  else if len ≤ 0x3FFFFF then
    let h := asU32 (len <<< 2) ||| 0x2
    some (putU16LE (asU16 (h &&& 0xFFFF)) ++ putU8 (h >>> 16))
  else if len ≤ maxFrameLength then some (putU32LE (asU32 (len <<< 2) ||| 0x3))
  else none

/-- `Encoder::encode`: the result and the output buffer after the call. -/
def encode (c : BytesCodec) (data buf : Bytes) : Except IoError Unit × Bytes :=
  if c.raw then (.ok (), buf ++ data)
  else
    match header data.length with
    | some h => (.ok (), buf ++ h ++ data)
    | none => (.error ⟨.invalidInput, "Overflow"⟩, buf)

/-- Encode payloads back to back into one buffer, stopping at the first failure. -/
def encodeAll (c : BytesCodec) : List Bytes → Bytes → Except IoError Bytes
  | [], buf => .ok buf
  | p :: ps, buf =>
    match encode c p buf with
    | (.ok (), buf') => encodeAll c ps buf'
    | (.error e, _) => .error e

/-! ## Draining the decoder -/

/-- What a caller that decodes until it is told to wait gets: the frames, the
error that stopped it if there was one, and the codec and buffer it is left with. -/
structure Drained where
  frames : List Bytes
  error : Option IoError
  codec : BytesCodec
  buf : Bytes
  deriving DecidableEq

/-- A frame costs the buffer at least one byte, or takes the decoder out of `data`. -/
def measure (c : BytesCodec) (src : Bytes) : ℕ :=
  src.length + match c.state with
    | .head => 0
    | .data _ => 1

variable {c c' : BytesCodec} {n : ℕ} {f src src' : Bytes} {e : IoError}
  {r : Except IoError (Option Bytes)}

theorem decodeBody_some (h : decodeBody c n src = (.ok (some f), c', src')) :
    n ≤ src.length ∧ f = src.take n ∧ c' = { c with state := .head } ∧ src' = src.drop n := by
  unfold decodeBody decodeData at h
  by_cases hn : src.length < n
  · simp [hn] at h
  · simp only [hn, if_false, Prod.mk.injEq, Except.ok.injEq, Option.some.injEq] at h
    obtain ⟨rfl, rfl, rfl⟩ := h
    exact ⟨by omega, rfl, rfl, rfl⟩

/-- A header's tag is its first byte modulo four. -/
theorem headLen_eq (b : UInt8) : headLen b = b.toNat % 4 + 1 := by
  have h3 : b.toNat &&& 3 = b.toNat % 4 := Nat.and_two_pow_sub_one_eq_mod b.toNat 2
  rw [headLen, UInt8.toNat_add, UInt8.toNat_and]
  change ((b.toNat &&& 3) + 1) % 2 ^ 8 = _
  omega

theorem headLen_pos (b : UInt8) : 0 < headLen b := by
  rw [headLen_eq]
  omega

theorem decodeHead_some (h : decodeHead c src = (.ok (some n), src')) :
    ∃ b rest, src = b :: rest ∧ headLen b ≤ src.length ∧ n = headValue (headLen b) src ∧
      n ≤ c.maxPacketLength ∧ src' = src.drop (headLen b) := by
  cases src with
  | nil => simp [decodeHead] at h
  | cons b rest =>
    unfold decodeHead at h
    dsimp only at h
    split at h
    · simp at h
    · split at h
      · simp at h
      · simp only [Prod.mk.injEq, Except.ok.injEq, Option.some.injEq] at h
        obtain ⟨rfl, rfl⟩ := h
        exact ⟨b, rest, rfl, by omega, rfl, by omega, rfl⟩

/-- Each frame makes progress, so draining ends. -/
theorem measure_decode (h : decode c src = (.ok (some f), c', src')) :
    measure c' src' < measure c src := by
  unfold decode at h
  by_cases hraw : c.raw
  · simp only [hraw, if_true] at h
    cases src with
    | nil => simp at h
    | cons b rest =>
      simp only [List.isEmpty_cons, Bool.false_eq_true, if_false, Prod.mk.injEq] at h
      obtain ⟨-, rfl, rfl⟩ := h
      simp [measure]
  · simp only [hraw, Bool.false_eq_true, if_false] at h
    rcases hst : c.state with _ | n
    · rw [hst] at h
      dsimp only at h
      split at h
      · simp at h
      · simp at h
      · rename_i n src₁ hh
        obtain ⟨b, rest, rfl, hlen, -, -, rfl⟩ := decodeHead_some hh
        obtain ⟨-, -, rfl, rfl⟩ := decodeBody_some h
        have := headLen_pos b
        simp only [measure, hst, List.length_drop]
        omega
    · rw [hst] at h
      obtain ⟨-, -, rfl, rfl⟩ := decodeBody_some h
      simp only [measure, hst, List.length_drop]
      omega

/-- Call `decode` until it returns `None` or fails. -/
def drain (c : BytesCodec) (src : Bytes) : Drained :=
  match _h : decode c src with
  | (.error e, c', src') => ⟨[], some e, c', src'⟩
  | (.ok none, c', src') => ⟨[], none, c', src'⟩
  | (.ok (some f), c', src') =>
    let d := drain c' src'
    { d with frames := f :: d.frames }
termination_by measure c src
decreasing_by exact measure_decode _h

/-- What a caller that has been fed nothing yet holds. -/
def Drained.start (c : BytesCodec) : Drained := ⟨[], none, c, []⟩

/-- Feed chunks one after the other, draining after each; an error ends the stream. -/
def feed (d : Drained) : List Bytes → Drained
  | [] => d
  | chunk :: chunks =>
    match d.error with
    | some _ => d
    | none =>
      let d' := drain d.codec (d.buf ++ chunk)
      feed { d' with frames := d.frames ++ d'.frames } chunks

/-! ## More bytes behind the buffer

One call of `decode` looks only at the bytes it consumes or waits for. Hence a
frame or an error it returns is the one it returns on any longer buffer, and a
call that waits has lost nothing. -/

theorem headValue_append {k : ℕ} (x : Bytes) (hpos : 0 < k) (hk : k ≤ src.length) :
    headValue k (src ++ x) = headValue k src := by
  have hget : ∀ i < k, (src ++ x).getD i 0 = src.getD i 0 := fun i hi =>
    List.getD_append _ _ _ _ (by omega)
  unfold headValue
  dsimp only
  rw [hget 0 hpos]
  by_cases h1 : k > 1
  · rw [hget 1 h1]
    by_cases h2 : k > 2
    · rw [hget 2 h2]
      by_cases h3 : k > 3
      · rw [hget 3 h3]
      · simp [h1, h2, h3]
    · have h3 : ¬ k > 3 := by omega
      simp [h1, h2, h3]
  · have h2 : ¬ k > 2 := by omega
    have h3 : ¬ k > 3 := by omega
    simp [h1, h2, h3]

/-- `decodeHead` on a longer buffer, once the header is complete. -/
theorem decodeHead_append {b : UInt8} {rest : Bytes} (x : Bytes)
    (hlen : headLen b ≤ (b :: rest).length) : decodeHead c ((b :: rest) ++ x) =
      ((decodeHead c (b :: rest)).1, (decodeHead c (b :: rest)).2 ++ x) := by
  have hv : headValue (headLen b) (b :: (rest ++ x)) = headValue (headLen b) (b :: rest) := by
    rw [← List.cons_append]
    exact headValue_append x (headLen_pos b) hlen
  have hd : (b :: (rest ++ x)).drop (headLen b) = (b :: rest).drop (headLen b) ++ x := by
    rw [← List.cons_append, List.drop_append_of_le_length hlen]
  have hl : ¬ (b :: rest).length < headLen b := by omega
  have hl' : ¬ (b :: (rest ++ x)).length < headLen b := by
    simp only [List.length_cons, List.length_append] at hlen ⊢
    omega
  simp only [decodeHead, List.cons_append, hl, hl', if_false, hv, hd]
  split <;> rfl

theorem decodeBody_append_some (x : Bytes) (h : decodeBody c n src = (.ok (some f), c', src')) :
    decodeBody c n (src ++ x) = (.ok (some f), c', src' ++ x) := by
  obtain ⟨hn, rfl, rfl, rfl⟩ := decodeBody_some h
  have hn' : ¬ (src ++ x).length < n := by
    rw [List.length_append]
    omega
  simp only [decodeBody, decodeData, hn', if_false]
  rw [List.take_append_of_le_length hn, List.drop_append_of_le_length hn]

theorem decodeBody_none (h : decodeBody c n src = (.ok none, c', src')) : c' = c ∧ src' = src := by
  unfold decodeBody decodeData at h
  by_cases hn : src.length < n
  · simp only [hn, if_true, Prod.mk.injEq] at h
    exact ⟨h.2.1.symm, h.2.2.symm⟩
  · simp [hn] at h

theorem decodeBody_not_error : decodeBody c n src ≠ (.error e, c', src') := by
  unfold decodeBody decodeData
  by_cases hn : src.length < n <;> simp [hn]

/-- The framed decoder by cases: it waits for a header, refuses one, or goes on
to the body with a known length. -/
theorem decode_cases (c : BytesCodec) (src : Bytes) (hraw : c.raw = false) :
    (c.state = .head ∧ decodeHead c src = (.ok none, src) ∧ decode c src = (.ok none, c, src)) ∨
    (c.state = .head ∧ ∃ b rest e, src = b :: rest ∧ headLen b ≤ src.length ∧
      decodeHead c src = (.error e, src) ∧ decode c src = (.error e, c, src)) ∨
    (c.state = .head ∧ ∃ b rest n, src = b :: rest ∧ headLen b ≤ src.length ∧
      decodeHead c src = (.ok (some n), src.drop (headLen b)) ∧
      decode c src = decodeBody { c with state := .data n } n (src.drop (headLen b))) ∨
    (∃ n, c.state = .data n ∧ decode c src = decodeBody c n src) := by
  rcases hst : c.state with _ | n
  · cases src with
    | nil =>
      left
      refine ⟨rfl, rfl, ?_⟩
      simp [decode, hraw, hst, decodeHead]
    | cons b rest =>
      by_cases hlen : (b :: rest).length < headLen b
      · left
        have hd : decodeHead c (b :: rest) = (.ok none, b :: rest) := by
          simp only [decodeHead, hlen, if_true]
        exact ⟨rfl, hd, by simp only [decode, hraw, hst, hd, Bool.false_eq_true, if_false]⟩
      · by_cases hbig : headValue (headLen b) (b :: rest) > c.maxPacketLength
        · right; left
          have hd : decodeHead c (b :: rest) =
              (.error ⟨.invalidData, "Too big packet"⟩, b :: rest) := by
            simp only [decodeHead, hlen, hbig, if_true, if_false]
          exact ⟨rfl, b, rest, _, rfl, by omega, hd,
            by simp only [decode, hraw, hst, hd, Bool.false_eq_true, if_false]⟩
        · right; right; left
          have hd : decodeHead c (b :: rest) =
              (.ok (some (headValue (headLen b) (b :: rest))), (b :: rest).drop (headLen b)) := by
            simp only [decodeHead, hlen, hbig, if_false]
          exact ⟨rfl, b, rest, _, rfl, by omega, hd,
            by simp only [decode, hraw, hst, hd, Bool.false_eq_true, if_false]⟩
  · right; right; right
    exact ⟨n, rfl, by simp only [decode, hraw, hst, Bool.false_eq_true, if_false]⟩

theorem decode_append_some (hraw : c.raw = false) (x : Bytes)
    (h : decode c src = (.ok (some f), c', src')) :
    decode c (src ++ x) = (.ok (some f), c', src' ++ x) := by
  rcases decode_cases c src hraw with ⟨-, -, hd⟩ | ⟨-, b, rest, e, -, -, -, hd⟩ |
    ⟨hst, b, rest, n, rfl, hlen, hh, hd⟩ | ⟨n, hst, hd⟩
  · rw [h] at hd
    simp at hd
  · rw [h] at hd
    simp at hd
  · rw [h] at hd
    have hh' := decodeHead_append (c := c) x hlen
    rw [hh] at hh'
    rw [decode, if_neg (by simp [hraw])]
    simp only [hst, hh']
    exact decodeBody_append_some x hd.symm
  · rw [h] at hd
    simp only [decode, hraw, hst, Bool.false_eq_true, if_false]
    exact decodeBody_append_some x hd.symm

theorem decode_append_error (hraw : c.raw = false) (x : Bytes)
    (h : decode c src = (.error e, c', src')) :
    decode c (src ++ x) = (.error e, c', src' ++ x) := by
  rcases decode_cases c src hraw with ⟨-, -, hd⟩ | ⟨hst, b, rest, e', rfl, hlen, hh, hd⟩ |
    ⟨-, b, rest, n, -, -, -, hd⟩ | ⟨n, -, hd⟩
  · rw [h] at hd
    simp at hd
  · rw [h] at hd
    obtain ⟨rfl, rfl, rfl⟩ : e = e' ∧ c' = c ∧ src' = b :: rest := by simpa using hd
    have hh' := decodeHead_append (c := c') x hlen
    rw [hh] at hh'
    simp only [decode, hraw, hst, hh', Bool.false_eq_true, if_false]
  · rw [h] at hd
    exact absurd hd.symm decodeBody_not_error
  · rw [h] at hd
    exact absurd hd.symm decodeBody_not_error

/-- A call that waits keeps, in its state and its buffer, all it needs to go on. -/
theorem decode_append_none (hraw : c.raw = false) (x : Bytes)
    (h : decode c src = (.ok none, c', src')) : decode c (src ++ x) = decode c' (src' ++ x) := by
  rcases decode_cases c src hraw with ⟨-, -, hd⟩ | ⟨-, b, rest, e, -, -, -, hd⟩ |
    ⟨hst, b, rest, n, rfl, hlen, hh, hd⟩ | ⟨n, hst, hd⟩
  · rw [h] at hd
    obtain ⟨rfl, rfl⟩ : c' = c ∧ src' = src := by simpa using hd
    rfl
  · rw [h] at hd
    simp at hd
  · rw [h] at hd
    obtain ⟨rfl, rfl⟩ := decodeBody_none hd.symm
    have hh' := decodeHead_append (c := c) x hlen
    rw [hh] at hh'
    simp only [decode, hraw, hst, hh', Bool.false_eq_true, if_false]
  · rw [h] at hd
    obtain ⟨rfl, rfl⟩ := decodeBody_none hd.symm
    rfl

theorem decode_raw (hraw : c.raw = false) (h : decode c src = (r, c', src')) : c'.raw = false := by
  have hbody : ∀ (c₁ : BytesCodec) (n : ℕ) (src₁ : Bytes), c₁.raw = false →
      (decodeBody c₁ n src₁).2.1.raw = false := by
    intro c₁ n src₁ h₁
    unfold decodeBody
    split <;> exact h₁
  rcases decode_cases c src hraw with ⟨-, -, hd⟩ | ⟨-, b, rest, e, -, -, -, hd⟩ |
    ⟨-, b, rest, n, -, -, -, hd⟩ | ⟨n, -, hd⟩
  · rw [h] at hd
    obtain ⟨-, rfl, -⟩ : r = .ok none ∧ c' = c ∧ src' = src := by simpa using hd
    exact hraw
  · rw [h] at hd
    obtain ⟨-, rfl, -⟩ : r = .error e ∧ c' = c ∧ src' = src := by simpa using hd
    exact hraw
  · have := hbody { c with state := .data n } n (src.drop (headLen b)) hraw
    rw [← hd, h] at this
    exact this
  · have := hbody c n src hraw
    rw [← hd, h] at this
    exact this

/-! ### Equations of `drain`

`drain` is defined by well-founded recursion, so these are what proofs rewrite with. -/

theorem drain_of_error (h : decode c src = (.error e, c', src')) :
    drain c src = ⟨[], some e, c', src'⟩ := by
  rw [drain]
  split
  · rename_i h'
    rw [h] at h'
    simp_all
  · rename_i h'
    rw [h] at h'
    simp at h'
  · rename_i h'
    rw [h] at h'
    simp at h'

theorem drain_of_none (h : decode c src = (.ok none, c', src')) :
    drain c src = ⟨[], none, c', src'⟩ := by
  rw [drain]
  split
  · rename_i h'
    rw [h] at h'
    simp at h'
  · rename_i h'
    rw [h] at h'
    simp_all
  · rename_i h'
    rw [h] at h'
    simp at h'

theorem drain_of_some (h : decode c src = (.ok (some f), c', src')) :
    drain c src = { drain c' src' with frames := f :: (drain c' src').frames } := by
  rw [drain]
  split
  · rename_i h'
    rw [h] at h'
    simp at h'
  · rename_i h'
    rw [h] at h'
    simp at h'
  · rename_i h'
    rw [h] at h'
    obtain ⟨rfl, rfl, rfl⟩ : _ ∧ _ ∧ _ := by simpa using h'
    rfl

/-- Draining a longer buffer goes on where draining its head stopped, unless
that already failed. -/
theorem drain_append (x : Bytes) (c : BytesCodec) (src : Bytes) (hraw : c.raw = false) :
    let d := drain c src
    let d' := drain d.codec (d.buf ++ x)
    d.codec.raw = false ∧
    (d.error = none → drain c (src ++ x) = { d' with frames := d.frames ++ d'.frames }) ∧
    (d.error ≠ none → drain c (src ++ x) = { d with buf := d.buf ++ x }) := by
  induction c, src using drain.induct with
  | case1 c src e c' src' h =>
    rw [drain_of_error h, drain_of_error (decode_append_error hraw x h)]
    exact ⟨decode_raw hraw h, by simp, by simp⟩
  | case2 c src c' src' h =>
    rw [drain_of_none h]
    refine ⟨decode_raw hraw h, fun _ => ?_, by simp⟩
    -- both sides start with the same call of `decode`
    rw [drain, drain, decode_append_none hraw x h]
    rfl
  | case3 c src c' src' f h ih =>
    obtain ⟨hr, hok, herr⟩ := ih (decode_raw hraw h)
    rw [drain_of_some h, drain_of_some (decode_append_some hraw x h)]
    refine ⟨hr, fun he => ?_, fun he => ?_⟩
    · rw [hok he]
      rfl
    · rw [herr he]

/-- A drained state has nothing left to decode. -/
theorem drain_drained (hraw : c.raw = false) (he : (drain c src).error = none) :
    drain (drain c src).codec (drain c src).buf =
      ⟨[], none, (drain c src).codec, (drain c src).buf⟩ := by
  obtain ⟨-, hok, -⟩ := drain_append [] c src hraw
  have h := hok he
  rw [List.append_nil, List.append_nil] at h
  set d := drain c src
  set d' := drain d.codec d.buf
  have hframes : d.frames = d.frames ++ d'.frames := congrArg Drained.frames h
  have hnil : d'.frames = [] := by simpa using hframes
  have herr : d'.error = none := (congrArg Drained.error h).symm.trans he
  have hcodec : d'.codec = d.codec := (congrArg Drained.codec h).symm
  have hbuf : d'.buf = d.buf := (congrArg Drained.buf h).symm
  rw [← hnil, ← herr, ← hcodec, ← hbuf]

/-- **Chunking never matters**: feeding chunks yields what draining their
concatenation yields; after a failure only the unread chunks are missing. -/
theorem feed_eq_drain : ∀ (chunks : List Bytes) (d : Drained), d.codec.raw = false →
    d.error = none → drain d.codec d.buf = ⟨[], none, d.codec, d.buf⟩ →
    let e := drain d.codec (d.buf ++ chunks.flatten)
    (feed d chunks).frames = d.frames ++ e.frames ∧ (feed d chunks).error = e.error ∧
    (e.error = none → (feed d chunks).codec = e.codec ∧ (feed d chunks).buf = e.buf) := by
  intro chunks
  induction chunks with
  | nil =>
    intro d hraw herr hdrained
    simp [feed, hdrained, herr]
  | cons chunk chunks ih =>
    intro d hraw herr hdrained
    obtain ⟨hr, hok, hfail⟩ := drain_append chunks.flatten d.codec (d.buf ++ chunk) hraw
    simp only [feed, herr, List.flatten_cons, ← List.append_assoc]
    set d' := drain d.codec (d.buf ++ chunk) with hd'
    by_cases he : d'.error = none
    · obtain ⟨h₁, h₂, h₃⟩ := ih { d' with frames := d.frames ++ d'.frames } hr he
        (drain_drained hraw he)
      rw [hok he]
      refine ⟨?_, h₂, h₃⟩
      rw [h₁, List.append_assoc]
    · -- the failure ends the stream: the remaining chunks are never looked at
      obtain ⟨e, hsome⟩ := Option.ne_none_iff_exists'.mp he
      have hstop : feed { d' with frames := d.frames ++ d'.frames } chunks =
          { d' with frames := d.frames ++ d'.frames } := by
        cases chunks with
        | nil => rfl
        | cons _ _ => simp [feed, hsome]
      rw [hfail he, hstop]
      exact ⟨rfl, rfl, fun h => absurd h he⟩

/-! ## One frame round-trips -/

/-- The four bytes `headValue` reads, as one little-endian number. -/
theorem or_bytes {b₀ b₁ : ℕ} (k : ℕ) (h₀ : b₀ < 2 ^ k) : b₀ ||| b₁ <<< k = b₀ + 2 ^ k * b₁ := by
  rw [Nat.or_comm, ← Nat.shiftLeft_add_eq_or_of_lt h₀, Nat.shiftLeft_eq]
  ring

/-- What `encode` puts into the header: four times the length, plus the tag. -/
theorem shift_or_tag (len : ℕ) {tag : ℕ} (h : tag < 4) : len <<< 2 ||| tag = 4 * len + tag := by
  rw [← Nat.shiftLeft_add_eq_or_of_lt (i := 2) h, Nat.shiftLeft_eq]
  ring

theorem headValue_one (b₀ : UInt8) (rest : Bytes) : headValue 1 (b₀ :: rest) = b₀.toNat / 4 := by
  simp [headValue, Nat.shiftRight_eq_div_pow]

theorem headValue_two (b₀ b₁ : UInt8) (rest : Bytes) :
    headValue 2 (b₀ :: b₁ :: rest) = (b₀.toNat + 256 * b₁.toNat) / 4 := by
  have e₁ : b₀.toNat ||| b₁.toNat <<< 8 = b₀.toNat + 256 * b₁.toNat := or_bytes 8 b₀.toNat_lt
  simp [headValue, e₁, Nat.shiftRight_eq_div_pow]

theorem headValue_three (b₀ b₁ b₂ : UInt8) (rest : Bytes) : headValue 3 (b₀ :: b₁ :: b₂ :: rest) =
      (b₀.toNat + 256 * b₁.toNat + 65536 * b₂.toNat) / 4 := by
  have h₀ := b₀.toNat_lt
  have h₁ := b₁.toNat_lt
  have e₁ : b₀.toNat ||| b₁.toNat <<< 8 = b₀.toNat + 256 * b₁.toNat := or_bytes 8 h₀
  have e₂ : b₀.toNat + 256 * b₁.toNat ||| b₂.toNat <<< 16 =
      b₀.toNat + 256 * b₁.toNat + 65536 * b₂.toNat := or_bytes 16 (by omega)
  simp [headValue, e₁, e₂, Nat.shiftRight_eq_div_pow]

theorem headValue_four (b₀ b₁ b₂ b₃ : UInt8) (rest : Bytes) :
    headValue 4 (b₀ :: b₁ :: b₂ :: b₃ :: rest) =
      (b₀.toNat + 256 * b₁.toNat + 65536 * b₂.toNat + 16777216 * b₃.toNat) / 4 := by
  have h₀ := b₀.toNat_lt
  have h₁ := b₁.toNat_lt
  have h₂ := b₂.toNat_lt
  have e₁ : b₀.toNat ||| b₁.toNat <<< 8 = b₀.toNat + 256 * b₁.toNat := or_bytes 8 h₀
  have e₂ : b₀.toNat + 256 * b₁.toNat ||| b₂.toNat <<< 16 =
      b₀.toNat + 256 * b₁.toNat + 65536 * b₂.toNat := or_bytes 16 (by omega)
  have e₃ : b₀.toNat + 256 * b₁.toNat + 65536 * b₂.toNat ||| b₃.toNat <<< 24 =
      b₀.toNat + 256 * b₁.toNat + 65536 * b₂.toNat + 16777216 * b₃.toNat :=
    or_bytes 24 (by omega)
  simp [headValue, e₁, e₂, e₃, Nat.shiftRight_eq_div_pow]

/-- A header is self-delimiting and declares the length it was written for. -/
theorem header_spec {len : ℕ} {h : Bytes} (hh : header len = some h) (rest : Bytes) :
    ∃ b t, h = b :: t ∧ headLen b = h.length ∧ headValue (headLen b) (h ++ rest) = len := by
  have htag : ∀ {n : ℕ} (tag : ℕ), tag < 4 → n = 4 * len + tag →
      headLen (UInt8.ofNat n) = tag + 1 := by
    intro n tag ht hn
    rw [headLen_eq, UInt8.toNat_ofNat']
    omega
  unfold header at hh
  split at hh
  · rename_i hlen
    obtain rfl := Option.some.inj hh
    have h0 : len <<< 2 = 4 * len + 0 := by
      rw [Nat.shiftLeft_eq]
      omega
    refine ⟨_, [], rfl, htag 0 (by omega) h0, ?_⟩
    rw [htag 0 (by omega) h0]
    change headValue 1 (UInt8.ofNat (len <<< 2) :: rest) = len
    rw [headValue_one, h0, UInt8.toNat_ofNat']
    omega
  · split at hh
    · rename_i hlen
      obtain rfl := Option.some.inj hh
      have h1 : asU16 (len <<< 2) ||| 0x1 = 4 * len + 1 := by
        rw [asU16, Nat.mod_eq_of_lt (by rw [Nat.shiftLeft_eq]; omega)]
        exact shift_or_tag len (by omega)
      rw [h1]
      refine ⟨_, _, rfl, htag 1 (by omega) rfl, ?_⟩
      rw [htag 1 (by omega) rfl]
      change headValue 2 (UInt8.ofNat (4 * len + 1) :: UInt8.ofNat ((4 * len + 1) >>> 8) :: rest) =
        len
      rw [headValue_two, UInt8.toNat_ofNat', UInt8.toNat_ofNat', Nat.shiftRight_eq_div_pow]
      omega
    · split at hh
      · rename_i hlen
        obtain rfl := Option.some.inj hh
        have h2 : asU32 (len <<< 2) ||| 0x2 = 4 * len + 2 := by
          rw [asU32, Nat.mod_eq_of_lt (by rw [Nat.shiftLeft_eq]; omega)]
          exact shift_or_tag len (by omega)
        have hlow : asU16 ((4 * len + 2) &&& 0xFFFF) = (4 * len + 2) % 2 ^ 16 := by
          rw [asU16, show (0xFFFF : ℕ) = 2 ^ 16 - 1 from rfl, Nat.and_two_pow_sub_one_eq_mod,
            Nat.mod_mod]
        rw [h2, hlow]
        have hl : headLen (UInt8.ofNat ((4 * len + 2) % 2 ^ 16)) = 3 := by
          rw [headLen_eq, UInt8.toNat_ofNat']
          omega
        refine ⟨_, _, rfl, hl, ?_⟩
        rw [hl]
        change headValue 3 (UInt8.ofNat ((4 * len + 2) % 2 ^ 16) ::
          UInt8.ofNat (((4 * len + 2) % 2 ^ 16) >>> 8) :: UInt8.ofNat ((4 * len + 2) >>> 16) ::
          rest) = len
        rw [headValue_three, UInt8.toNat_ofNat', UInt8.toNat_ofNat', UInt8.toNat_ofNat',
          Nat.shiftRight_eq_div_pow, Nat.shiftRight_eq_div_pow]
        omega
      · split at hh
        · rename_i hlen
          obtain rfl := Option.some.inj hh
          rw [maxFrameLength] at hlen
          have h3 : asU32 (len <<< 2) ||| 0x3 = 4 * len + 3 := by
            rw [asU32, Nat.mod_eq_of_lt (by rw [Nat.shiftLeft_eq]; omega)]
            exact shift_or_tag len (by omega)
          rw [h3]
          refine ⟨_, _, rfl, htag 3 (by omega) rfl, ?_⟩
          rw [htag 3 (by omega) rfl]
          change headValue 4 (UInt8.ofNat (4 * len + 3) :: UInt8.ofNat ((4 * len + 3) >>> 8) ::
            UInt8.ofNat ((4 * len + 3) >>> 16) :: UInt8.ofNat ((4 * len + 3) >>> 24) :: rest) = len
          rw [headValue_four, UInt8.toNat_ofNat', UInt8.toNat_ofNat', UInt8.toNat_ofNat',
            UInt8.toNat_ofNat', Nat.shiftRight_eq_div_pow, Nat.shiftRight_eq_div_pow,
            Nat.shiftRight_eq_div_pow]
          omega
        · cases hh

/-- A header can be written exactly for the lengths it can represent. -/
theorem header_eq_none_iff (len : ℕ) : header len = none ↔ maxFrameLength < len := by
  unfold header maxFrameLength
  split_ifs with h₁ h₂ h₃ h₄ <;> simp <;> omega

/-- **One frame**: `decode` on a buffer that starts with an encoded frame returns
its payload and consumes exactly it. -/
theorem decode_header {h p : Bytes} (hraw : c.raw = false) (hst : c.state = .head)
    (hcap : p.length ≤ c.maxPacketLength) (hh : header p.length = some h) (rest : Bytes) :
    decode c (h ++ (p ++ rest)) = (.ok (some p), c, rest) := by
  obtain ⟨b, t, rfl, hlen, hval⟩ := header_spec hh (p ++ rest)
  have hle : ¬ (b :: (t ++ (p ++ rest))).length < headLen b := by
    rw [hlen]
    simp only [List.length_cons, List.length_append]
    omega
  have hdrop : (b :: (t ++ (p ++ rest))).drop (headLen b) = p ++ rest := by
    rw [hlen, ← List.cons_append, List.drop_left]
  have hhead : decodeHead c (b :: (t ++ (p ++ rest))) = (.ok (some p.length), p ++ rest) := by
    rw [List.cons_append] at hval
    simp only [decodeHead, hle, if_false, hval, hdrop]
    rw [if_neg (by omega)]
  have hbody : ¬ (p ++ rest).length < p.length := by
    rw [List.length_append]
    omega
  rw [List.cons_append, decode, if_neg (by simp [hraw])]
  simp only [hst, hhead, decodeBody, decodeData, hbody, if_false, List.take_left, List.drop_left]
  rw [← hst]

/-- Encoding payloads back to back succeeds when each fits, appends to the buffer,
and what it appends drains to exactly those payloads. -/
theorem drain_encodeAll {d : BytesCodec} (hc : c.raw = false) (hraw : d.raw = false)
    (hst : d.state = .head) (hcap : maxFrameLength ≤ d.maxPacketLength) :
    ∀ (payloads : List Bytes), (∀ p ∈ payloads, p.length ≤ maxFrameLength) → ∀ buf : Bytes,
      ∃ bytes, encodeAll c payloads buf = .ok (buf ++ bytes) ∧
        drain d bytes = ⟨payloads, none, d, []⟩ := by
  intro payloads
  induction payloads with
  | nil =>
    intro _ buf
    refine ⟨[], by simp [encodeAll], drain_of_none ?_⟩
    rw [decode, if_neg (by simp [hraw])]
    simp [hst, decodeHead]
  | cons p ps ih =>
    intro hlen buf
    have hp : p.length ≤ maxFrameLength := hlen p (List.mem_cons_self ..)
    obtain ⟨h, hh⟩ : ∃ h, header p.length = some h := by
      rcases hh : header p.length with _ | h
      · rw [header_eq_none_iff] at hh
        omega
      · exact ⟨h, rfl⟩
    obtain ⟨bytes, henc, hdrain⟩ :=
      ih (fun q hq => hlen q (List.mem_cons_of_mem _ hq)) (buf ++ h ++ p)
    refine ⟨h ++ (p ++ bytes), ?_, ?_⟩
    · simp only [encodeAll, encode, hc, hh, Bool.false_eq_true, if_false]
      simpa only [List.append_assoc] using henc
    · rw [drain_of_some (decode_header hraw hst (hp.trans hcap) hh bytes), hdrain]

/-- **Round trip under any chunking**: payloads a header can represent, encoded
back to back and fed to a fresh decoder in any pieces, come out as they went in
and leave the decoder empty at `head`. A payload is refused exactly when it is
longer than that, and then the output buffer is untouched. -/
theorem feed_encodeAll : (∀ payloads : List Bytes, (∀ p ∈ payloads, p.length ≤ maxFrameLength) →
      ∃ bytes, encodeAll new payloads [] = .ok bytes ∧
        ∀ chunks : List Bytes, chunks.flatten = bytes →
          feed (Drained.start new) chunks = ⟨payloads, none, new, []⟩) ∧
    (∀ (c : BytesCodec) (data buf : Bytes), c.raw = false →
      ((∃ e, (encode c data buf).1 = .error e) ↔ maxFrameLength < data.length) ∧
      (maxFrameLength < data.length → (encode c data buf).2 = buf)) := by
  refine ⟨fun payloads hlen => ?_, fun c data buf hraw => ?_⟩
  · obtain ⟨bytes, henc, hdrain⟩ := drain_encodeAll (c := new) (d := new) rfl rfl rfl
      (by decide) payloads hlen []
    refine ⟨bytes, henc, fun chunks hflat => ?_⟩
    have hstart : drain new [] = ⟨[], none, new, []⟩ := drain_of_none rfl
    obtain ⟨hframes, herr, hrest⟩ := feed_eq_drain chunks (Drained.start new) rfl rfl hstart
    have hbuf : drain (Drained.start new).codec ((Drained.start new).buf ++ chunks.flatten) =
        ⟨payloads, none, new, []⟩ := by
      rw [hflat]
      exact hdrain
    rw [hbuf] at hframes herr hrest
    obtain ⟨hcodec, hempty⟩ := hrest rfl
    set r := feed (Drained.start new) chunks
    calc r = ⟨r.frames, r.error, r.codec, r.buf⟩ := rfl
      _ = ⟨payloads, none, new, []⟩ := by
        rw [hframes, herr, hcodec, hempty]
        rfl
  · rw [encode, if_neg (by simp [hraw])]
    rcases hh : header data.length with _ | h
    · have := (header_eq_none_iff _).mp hh
      simp [this]
    · have : ¬ maxFrameLength < data.length := by
        rw [← header_eq_none_iff, hh]
        simp
      simp [this]

/-! ## Any bytes under a cap -/

/-- Bound on what a header makes the decoder reserve. -/
def maxPreallocatedPayloadLen : ℕ := 256 * 1024

/-- The bytes `decode_head` reserves room for: some of the body that is missing, and none where
it waits or refuses. -/
def reserve (c : BytesCodec) (src : Bytes) : ℕ :=
  match decodeHead c src with
  | (.ok (some n), src') => min (n - src'.length) maxPreallocatedPayloadLen
  | _ => 0

/-- A decoder that is past a header has accepted it. -/
def Capped (c : BytesCodec) : Prop := ∀ n, c.state = .data n → n ≤ c.maxPacketLength

/-- What a decoder can be waiting for: the rest of a header, or of a body within the cap. -/
def Waiting (c : BytesCodec) (buf : Bytes) : Prop :=
  match c.state with
  | .head => ∀ b rest, buf = b :: rest → buf.length < headLen b
  | .data n => n ≤ c.maxPacketLength ∧ buf.length < n

theorem decodeBody_capped (hst : c.state = .data n) (hcap : n ≤ c.maxPacketLength)
    (h : decodeBody c n src = (r, c', src')) : c'.maxPacketLength = c.maxPacketLength ∧ c'.Capped ∧
      (∀ f, r = .ok (some f) → f.length ≤ c.maxPacketLength) ∧
        (r = .ok none → c'.Waiting src') := by
  rw [decodeBody, decodeData] at h
  split_ifs at h with hlen
  · obtain ⟨rfl, rfl, rfl⟩ : .ok none = r ∧ c = c' ∧ src = src' := by simpa using h
    refine ⟨rfl, ?_, nofun, ?_⟩
    · intro m hm
      rw [hst] at hm
      obtain rfl := DecodeState.data.inj hm
      exact hcap
    · intro _
      rw [Waiting, hst]
      exact ⟨hcap, hlen⟩
  · obtain ⟨rfl, rfl, rfl⟩ : .ok (some (src.take n)) = r ∧ { c with state := .head } = c' ∧
      src.drop n = src' := by simpa using h
    refine ⟨rfl, nofun, ?_, nofun⟩
    intro f hf
    obtain rfl : src.take n = f := by simpa using hf
    exact (List.length_take_le n src).trans hcap

/-- **One call of `decode` keeps the cap**: what it returns and what it waits for are within it. -/
theorem decode_capped (hraw : c.raw = false) (hcap : c.Capped) (h : decode c src = (r, c', src')) :
    c'.maxPacketLength = c.maxPacketLength ∧ c'.Capped ∧
      (∀ f, r = .ok (some f) → f.length ≤ c.maxPacketLength) ∧
        (r = .ok none → c'.Waiting src') := by
  rcases decode_cases c src hraw with ⟨hst, hh, hd⟩ | ⟨-, b, rest, e, -, -, -, hd⟩ |
    ⟨hst, b, rest, n, rfl, hlen, hh, hd⟩ | ⟨n, hst, hd⟩
  · rw [h] at hd
    obtain ⟨rfl, rfl, rfl⟩ : r = .ok none ∧ c' = c ∧ src' = src := by simpa using hd
    refine ⟨rfl, hcap, nofun, ?_⟩
    intro _
    rw [Waiting, hst]
    rintro b rest rfl
    -- a complete header is accepted or refused
    by_contra hlen
    simp only [decodeHead, hlen, if_false] at hh
    split at hh <;> simp at hh
  · rw [h] at hd
    obtain ⟨rfl, rfl, rfl⟩ : r = .error e ∧ c' = c ∧ src' = src := by simpa using hd
    exact ⟨rfl, hcap, nofun, nofun⟩
  · rw [h] at hd
    obtain ⟨-, -, -, -, -, hle, -⟩ := decodeHead_some hh
    exact decodeBody_capped (c := { c with state := .data n }) rfl hle hd.symm
  · rw [h] at hd
    exact decodeBody_capped hst (hcap n hst) hd.symm

/-- **Draining keeps the cap.** -/
theorem drain_capped (c : BytesCodec) (src : Bytes) (hraw : c.raw = false) (hcap : c.Capped) :
    (∀ f ∈ (drain c src).frames, f.length ≤ c.maxPacketLength) ∧
    (drain c src).codec.maxPacketLength = c.maxPacketLength ∧
    ((drain c src).error = none → (drain c src).codec.Waiting (drain c src).buf) := by
  induction c, src using drain.induct with
  | case1 c src e c' src' h =>
    obtain ⟨hmax, -⟩ := decode_capped hraw hcap h
    rw [drain_of_error h]
    exact ⟨by simp, hmax, nofun⟩
  | case2 c src c' src' h =>
    obtain ⟨hmax, -, -, hwait⟩ := decode_capped hraw hcap h
    rw [drain_of_none h]
    exact ⟨by simp, hmax, fun _ => hwait rfl⟩
  | case3 c src c' src' f h ih =>
    obtain ⟨hmax, hcap', hf, -⟩ := decode_capped hraw hcap h
    obtain ⟨hframes, hmax', hwait⟩ := ih (decode_raw hraw h) hcap'
    rw [drain_of_some h]
    refine ⟨?_, hmax'.trans hmax, hwait⟩
    intro g hg
    rcases List.mem_cons.mp hg with rfl | hg
    · exact hf g rfl
    · rw [← hmax]
      exact hframes g hg

/-- A complete header over the cap is refused at once, with its bytes left in the buffer and
nothing reserved. -/
theorem decode_refuses {b : UInt8} {rest : Bytes} (hraw : c.raw = false) (hst : c.state = .head)
    (hlen : headLen b ≤ (b :: rest).length)
    (hbig : c.maxPacketLength < headValue (headLen b) (b :: rest)) :
    decode c (b :: rest) = (.error ⟨.invalidData, "Too big packet"⟩, c, b :: rest) ∧
      reserve c (b :: rest) = 0 := by
  have hhead : decodeHead c (b :: rest) = (.error ⟨.invalidData, "Too big packet"⟩, b :: rest) := by
    simp only [decodeHead, not_lt.mpr hlen, hbig, if_true, if_false]
  constructor
  · simp only [decode, hraw, hst, hhead, Bool.false_eq_true, if_false]
  · rw [reserve, hhead]

/-- **Any bytes, in any pieces.** Whatever a peer writes, and however it is cut into chunks, the
frames and the outcome are those of the bytes alone; no frame is over the cap; a decoder that
waits is waiting for the rest of a header or of a body within the cap; and a complete header over
the cap is refused at once, before anything is reserved for it. -/
theorem feed_hostile (cap : ℕ) :
    (∀ chunks₁ chunks₂ : List Bytes, chunks₁.flatten = chunks₂.flatten →
      (feed (.start (new.setMaxPacketLength cap)) chunks₁).frames =
        (feed (.start (new.setMaxPacketLength cap)) chunks₂).frames ∧
      (feed (.start (new.setMaxPacketLength cap)) chunks₁).error =
        (feed (.start (new.setMaxPacketLength cap)) chunks₂).error) ∧
    (∀ chunks : List Bytes,
      (∀ f ∈ (feed (.start (new.setMaxPacketLength cap)) chunks).frames, f.length ≤ cap) ∧
      ((feed (.start (new.setMaxPacketLength cap)) chunks).error = none →
        (feed (.start (new.setMaxPacketLength cap)) chunks).codec.maxPacketLength = cap ∧
        (feed (.start (new.setMaxPacketLength cap)) chunks).codec.Waiting
          (feed (.start (new.setMaxPacketLength cap)) chunks).buf)) ∧
    (∀ (c : BytesCodec) (b : UInt8) (rest : Bytes), c.raw = false → c.state = .head →
      c.maxPacketLength = cap → headLen b ≤ (b :: rest).length →
      cap < headValue (headLen b) (b :: rest) →
      decode c (b :: rest) = (.error ⟨.invalidData, "Too big packet"⟩, c, b :: rest) ∧
        reserve c (b :: rest) = 0) := by
  have hraw : (new.setMaxPacketLength cap).raw = false := rfl
  have hstart : drain (new.setMaxPacketLength cap)
    [] = ⟨[], none, new.setMaxPacketLength cap, []⟩ :=
    drain_of_none rfl
  have hfeed := fun chunks => feed_eq_drain chunks (.start (new.setMaxPacketLength cap))
    hraw rfl hstart
  refine ⟨?_, ?_, ?_⟩
  · intro chunks₁ chunks₂ hflat
    obtain ⟨hframes₁, herr₁, -⟩ := hfeed chunks₁
    obtain ⟨hframes₂, herr₂, -⟩ := hfeed chunks₂
    rw [hframes₁, hframes₂, herr₁, herr₂, hflat]
    exact ⟨rfl, rfl⟩
  · intro chunks
    obtain ⟨hframes, herr, hrest⟩ := hfeed chunks
    obtain ⟨hle, hmax, hwait⟩ := drain_capped (new.setMaxPacketLength cap)
      ([] ++ chunks.flatten) hraw nofun
    constructor
    · rw [hframes]
      exact hle
    · intro hnone
      rw [herr] at hnone
      obtain ⟨hcodec, hbuf⟩ := hrest hnone
      rw [hcodec, hbuf]
      exact ⟨hmax, hwait hnone⟩
  · rintro c b rest hc hst rfl hlen hbig
    exact decode_refuses hc hst hlen hbig

end BytesCodec
end BgDesk
