import BgDesk.BytesCodec
import BgDesk.LittleEndian
import BgDesk.Utf8

/-!
# The portable package

The files of a portable build in one string of bytes: `write_blob` of `libs/portable/generate.py`
writes it, `parse` of `libs/portable/src/bin_reader.rs` reads it. An identifier stands where the
list begins and where it ends; where the next file would begin, only the eight bytes there say which
it is.

* `writeBlob` — the writer;
* `parse` — the reader, on positions, in a build of any word size;
* `readEntry` — one file off the front of some bytes, and `entry_eq`: the positions are no more than
  that;
* `portable_package_format` — what is written is read, and nothing else is.
-/

namespace BgDesk
namespace Package

/-! ## The format -/

/-- `IDENTIFIER`, `b"BGDesk  "`. -/
def identifier : Bytes := [66, 71, 68, 101, 115, 107, 32, 32]

/-- `IDENTIFIER_LENGTH`. -/
def identifierLength : ℕ := 8

/-- `LENGTH`, and `length_count` of the writer. -/
def lengthCount : ℕ := 4

/-- `MD5_LENGTH`. -/
def md5Length : ℕ := 32

/-- `BinaryData`, and an item of `md5_table`. -/
structure BinaryData where
  md5Code : Bytes
  raw : Bytes
  path : List Char
  deriving DecidableEq

/-- `encode(encoding='utf-8')`. -/
def encode (s : List Char) : Bytes := s.flatMap String.utf8EncodeChar

/-- `to_bytes(length=length_count, byteorder='big')`, which raises an error where the number has no
room. -/
def toBytes (n : ℕ) : Option Bytes :=
  if n < 256 ^ lengthCount then some (bigEndian lengthCount n) else none

/-- What is written for one file. -/
def writeEntry (file : BinaryData) : Option Bytes := do
  let pathLength ← toBytes (encode file.path).length
  let dataLength ← toBytes file.raw.length
  return pathLength ++ encode file.path ++ dataLength ++ file.raw ++ file.md5Code

/-- `write_blob`. -/
def writeBlob (md5Table : List BinaryData) (exe : List Char) : Option Bytes := do
  let entries ← md5Table.mapM writeEntry
  return identifier ++ entries.flatten ++ identifier ++ encode exe

/-! ## The reader -/

/-- Why there is no result. -/
inductive Stop where
  /-- `None` -/
  | none
  /-- a sum has no room in a `usize`, in a build that checks it -/
  | overflow
  /-- an index is out of range -/
  | index
  /-- the steps given do not suffice -/
  | steps
  deriving DecidableEq

/-- A build: how wide `usize` is, and whether sums are checked. -/
structure Build where
  bits : ℕ
  checked : Bool
  deriving DecidableEq

/-- A build with 64 bits, or one that does not check sums with 32 at least. -/
def Build.Supported (build : Build) : Prop :=
  64 ≤ build.bits ∨ 32 ≤ build.bits ∧ build.checked = false

/-- A slice is no longer than `isize::MAX`. -/
def Build.Holds (build : Build) (blob : Bytes) : Prop := blob.length < 2 ^ (build.bits - 1)

section Reader

variable (build : Build) (blob : Bytes)

/-- A sum of two `usize`. -/
def add (a b : ℕ) : Except Stop ℕ :=
  if a + b < 2 ^ build.bits then .ok (a + b)
  else if build.checked then .error .overflow
  else .ok ((a + b) % 2 ^ build.bits)

/-- `blob.get(start..stop)?` -/
def getRange (start stop : ℕ) : Except Stop Bytes :=
  if start ≤ stop ∧ stop ≤ blob.length then .ok
    ((blob.drop start).take (stop - start)) else .error .none

/-- `bytes[i]` -/
def index (bytes : Bytes) (i : ℕ) : Except Stop UInt8 :=
  match bytes[i]? with
  | some b => .ok b
  | none => .error .index

/-- `read_u32`, with the `?` of its callers. -/
def readU32 (at_ : ℕ) : Except Stop ℕ := do
  let bytes ← getRange blob at_ (← add build at_ lengthCount)
  let b₀ ← index bytes 0
  let b₁ ← index bytes 1
  let b₂ ← index bytes 2
  let b₃ ← index bytes 3
  return ofBigEndian [b₀, b₁, b₂, b₃]

/-- `std::str::from_utf8(…).ok()?` -/
def fromUtf8 (bytes : Bytes) : Except Stop (List Char) :=
  match Utf8.fromUtf8 bytes with
  | some s => .ok s
  | none => .error .none

/-- The loop from the first length on: the file at `base`, and where the next one begins. -/
def entry (base : ℕ) : Except Stop (BinaryData × ℕ) := do
  let pathLength ← readU32 build blob base
  let base ← add build base lengthCount
  let path ← fromUtf8 (← getRange blob base (← add build base pathLength))
  let base ← add build base pathLength
  let fileLength ← readU32 build blob base
  let base ← add build base lengthCount
  let raw ← getRange blob base (← add build base fileLength)
  let base ← add build base fileLength
  let md5Code ← getRange blob base (← add build base md5Length)
  let base ← add build base md5Length
  return (⟨md5Code, raw, path⟩, base)

/-- The loop, in so many passes. -/
def loop : ℕ → ℕ → List BinaryData → Except Stop (List BinaryData × ℕ)
  | 0, _, _ => .error .steps
  | n + 1, base, parsed => do
    let marker ← getRange blob base (← add build base identifierLength)
    if marker = identifier then
      let base ← add build base identifierLength
      return (parsed, base)
    else
      let (file, base) ← entry build blob base
      loop n base (parsed ++ [file])

/-- `parse`. -/
def parse : Except Stop (List BinaryData × List Char) := do
  let marker ← getRange blob 0 (← add build 0 identifierLength)
  if marker ≠ identifier then .error .none
  else
    let base ← add build 0 identifierLength
    let (parsed, base) ← loop build blob (blob.length + 1) base []
    let executable ← fromUtf8 (← getRange blob base blob.length)
    return (parsed, executable)

end Reader

/-! ## One file off the front -/

/-- The first bytes, and what is behind them. -/
def front (n : ℕ) (rest : Bytes) : Option (Bytes × Bytes) :=
  if n ≤ rest.length then some (rest.take n, rest.drop n) else none

/-- The file that some bytes begin with, and what is behind it. -/
def readEntry (rest : Bytes) : Option (BinaryData × Bytes) := do
  let (pathLength, rest) ← front lengthCount rest
  let (path, rest) ← front (ofBigEndian pathLength) rest
  let path ← Utf8.fromUtf8 path
  let (fileLength, rest) ← front lengthCount rest
  let (raw, rest) ← front (ofBigEndian fileLength) rest
  let (md5Code, rest) ← front md5Length rest
  return (⟨md5Code, raw, path⟩, rest)

variable {bytes rest : Bytes}

theorem front_append {part : Bytes} {n : ℕ} (h : part.length = n) :
    front n (part ++ rest) = some (part, rest) := by
  rw [front, if_pos (by rw [List.length_append]; omega), List.take_left' h, List.drop_left' h]

theorem front_eq_some {n : ℕ} {part : Bytes} (h : front n bytes = some (part, rest)) :
    bytes = part ++ rest ∧ part.length = n := by
  rw [front] at h
  split at h
  · rename_i hle
    obtain ⟨rfl, rfl⟩ := Prod.mk.inj (Option.some.inj h)
    exact ⟨(List.take_append_drop ..).symm, by rw [List.length_take, Nat.min_eq_left hle]⟩
  · cases h

theorem toBytes_eq_some {n : ℕ} (h : toBytes n = some bytes) :
    bytes = bigEndian lengthCount n ∧ n < 256 ^ lengthCount := by
  rw [toBytes] at h
  split at h
  · rename_i hlt
    exact ⟨(Option.some.inj h).symm, hlt⟩
  · cases h

theorem toBytes_ofBigEndian (h : bytes.length = lengthCount) :
    toBytes (ofBigEndian bytes) = some bytes := by
  rw [toBytes, if_pos (ofBigEndian_lt h), bigEndian_ofBigEndian h]

/-- What is written for a file is read. -/
theorem readEntry_writeEntry {file : BinaryData} (h : writeEntry file = some bytes)
    (hmd5 : file.md5Code.length = md5Length) (rest : Bytes) :
    readEntry (bytes ++ rest) = some (file, rest) := by
  obtain ⟨pathLength, hwritten, h⟩ := Option.bind_eq_some_iff.mp h
  obtain ⟨dataLength, hwritten', h⟩ := Option.bind_eq_some_iff.mp h
  obtain rfl := Option.some.inj h
  obtain ⟨rfl, hpath⟩ := toBytes_eq_some hwritten
  obtain ⟨rfl, hdata⟩ := toBytes_eq_some hwritten'
  have hlength : ∀ n tail, front lengthCount (bigEndian lengthCount n ++ tail) =
    some (bigEndian lengthCount n, tail) :=
    fun n tail => front_append (bigEndian_length ..)
  have hfield : ∀ (part : Bytes) tail, front part.length (part ++ tail) = some (part, tail) :=
    fun part tail => front_append rfl
  have htext : Utf8.fromUtf8 (encode file.path) = some file.path := Utf8.fromUtf8_encode file.path
  simp only [readEntry, List.append_assoc, hlength, Option.bind_eq_bind, Option.bind_some]
  rw [ofBigEndian_bigEndian hpath, hfield, Option.bind_some, htext, Option.bind_some, hlength,
    Option.bind_some,
    ofBigEndian_bigEndian hdata, hfield, Option.bind_some, front_append hmd5]
  rfl

/-- What is read as a file is what would be written for it. -/
theorem writeEntry_readEntry {file : BinaryData} (h : readEntry bytes = some (file, rest)) :
    file.md5Code.length = md5Length ∧ ∃ text, writeEntry file = some text ∧
      bytes = text ++ rest := by
  obtain ⟨⟨pathLength, rest₁⟩, h₁, h⟩ := Option.bind_eq_some_iff.mp h
  obtain ⟨⟨path, rest₂⟩, h₂, h⟩ := Option.bind_eq_some_iff.mp h
  obtain ⟨s, hs, h⟩ := Option.bind_eq_some_iff.mp h
  obtain ⟨⟨fileLength, rest₃⟩, h₃, h⟩ := Option.bind_eq_some_iff.mp h
  obtain ⟨⟨raw, rest₄⟩, h₄, h⟩ := Option.bind_eq_some_iff.mp h
  obtain ⟨⟨md5Code, rest₅⟩, h₅, h⟩ := Option.bind_eq_some_iff.mp h
  obtain ⟨rfl, rfl⟩ := Prod.mk.inj (Option.some.inj h)
  obtain ⟨hbytes, hpathLength⟩ := front_eq_some h₁
  obtain ⟨hrest₁, hpath⟩ := front_eq_some h₂
  obtain ⟨hrest₂, hfileLength⟩ := front_eq_some h₃
  obtain ⟨hrest₃, hraw⟩ := front_eq_some h₄
  obtain ⟨hrest₄, hmd5⟩ := front_eq_some h₅
  have hencode : encode s = path := Utf8.encode_fromUtf8 hs
  refine ⟨hmd5, pathLength ++ path ++ fileLength ++ raw ++ md5Code, ?_, ?_⟩
  · rw [writeEntry, hencode, hpath, toBytes_ofBigEndian hpathLength, Option.bind_eq_bind,
      Option.bind_some, hraw,
      toBytes_ofBigEndian hfileLength]
    rfl
  · rw [hbytes, hrest₁, hrest₂, hrest₃, hrest₄]
    simp only [List.append_assoc]

/-! ## Positions -/

section Positions

variable {build : Build} {blob : Bytes}

variable {base : ℕ} {text : Bytes} {files : List BinaryData}

/-- The next `n` bytes at a position: they are there and the position behind them is a `usize`, or
there is no result. -/
theorem advance (hbuild : build.Supported) (hblob : build.Holds blob) {n : ℕ}
    (hbase : base ≤ blob.length) (hn : n < 2 ^ 32) :
    (∃ part, front n (blob.drop base) = some (part, blob.drop (base + n)) ∧ part.length = n ∧
      (add build base n >>= getRange blob base) = .ok part ∧ add build base n = .ok (base + n) ∧
        base + n ≤ blob.length) ∨
    (front n (blob.drop base) = none ∧ (add build base n >>= getRange blob base) =
      .error .none) := by
  have hhalf : 2 ^ (build.bits - 1) ≤ 2 ^ build.bits :=
    Nat.pow_le_pow_right (by decide) (Nat.sub_le ..)
  rw [Build.Holds] at hblob
  by_cases hle : base + n ≤ blob.length
  · have hadd : add build base n = .ok (base + n) := if_pos (by omega)
    have hfront : n ≤ (blob.drop base).length := by
      rw [List.length_drop]
      omega
    refine .inl ⟨(blob.drop base).take n, ?_, ?_, ?_, hadd, hle⟩
    · rw [front, if_pos hfront, List.drop_drop]
    · rw [List.length_take, Nat.min_eq_left hfront]
    · rw [hadd]
      change getRange blob base (base + n) = _
      rw [getRange, if_pos ⟨Nat.le_add_right .., hle⟩, Nat.add_sub_cancel_left]
  · refine .inr ⟨?_, ?_⟩
    · rw [front, if_neg]
      rw [List.length_drop]
      omega
    · by_cases hsum : base + n < 2 ^ build.bits
      · rw [add, if_pos hsum]
        change getRange blob base (base + n) = _
        rw [getRange, if_neg fun h => hle h.2]
      · -- only a build that does not check its sums has so few bits, and there the sum is before
        -- the position
        obtain ⟨hbits, hchecked⟩ : 32 ≤ build.bits ∧ build.checked = false := by
          rcases hbuild with h64 | h32
          · exfalso
            have hpow : 2 ^ build.bits = 2 * 2 ^ (build.bits - 1) := by
              rw [← Nat.pow_succ', Nat.succ_eq_add_one, Nat.sub_add_cancel (by omega)]
            have hwide : 2 ^ 32 ≤ 2 ^ (build.bits - 1) :=
              Nat.pow_le_pow_right (by decide) (by omega)
            omega
          · exact h32
        have hwide : 2 ^ 32 ≤ 2 ^ build.bits := Nat.pow_le_pow_right (by decide) hbits
        have hwrap : (base + n) % 2 ^ build.bits = base + n - 2 ^ build.bits := by
          rw [Nat.mod_eq_sub_mod (by omega), Nat.mod_eq_of_lt (by omega)]
        rw [add, if_neg hsum, hchecked, if_neg (by decide)]
        change getRange blob base ((base + n) % 2 ^ build.bits) = _
        rw [getRange, if_neg (by omega)]

/-- A length at a position. -/
theorem readU32_eq (hbuild : build.Supported) (hblob : build.Holds blob)
    (hbase : base ≤ blob.length) :
    (∃ part, front lengthCount (blob.drop base) = some (part, blob.drop (base + lengthCount)) ∧
      ofBigEndian part < 2 ^ 32 ∧
      readU32 build blob base = .ok (ofBigEndian part) ∧
        add build base lengthCount = .ok (base + lengthCount) ∧
      base + lengthCount ≤ blob.length) ∨
    (front lengthCount (blob.drop base) = none ∧ readU32 build blob base = .error .none) := by
  rcases advance hbuild hblob hbase (n := lengthCount)
    (by decide) with ⟨part, hfront, hlength, hget, hadd, hle⟩ | ⟨hfront, hget⟩
  · refine .inl ⟨part, hfront, ofBigEndian_lt hlength, ?_, hadd, hle⟩
    rw [hadd] at hget
    change getRange blob base (base + lengthCount) = _ at hget
    rw [readU32, hadd]
    change (getRange blob base (base + lengthCount) >>= _) = _
    rw [hget]
    match part, hlength with
    | [b₀, b₁, b₂, b₃], _ => rfl
  · refine .inr ⟨hfront, ?_⟩
    rw [readU32, ← bind_assoc, hget]
    rfl

/-- What follows a computation that has a result. -/
theorem bind_of_ok {α β γ : Type} {x : Except Stop α} {g : α → Except Stop β} {b : β}
    (h : (x >>= g) = .ok b) (f : β → Except Stop γ) : (x >>= fun a => g a >>= f) = f b := by
  rw [← bind_assoc, h]
  rfl

/-- What follows one that has none. -/
theorem bind_of_error {α β γ : Type} {x : Except Stop α} {g : α → Except Stop β} {stop : Stop}
    (h : (x >>= g) = .error stop) (f : β → Except Stop γ) :
    (x >>= fun a => g a >>= f) = .error stop := by
  rw [← bind_assoc, h]
  rfl

theorem ok_bind {α β : Type} (a : α) (f : α → Except Stop β) :
    ((.ok a : Except Stop α) >>= f) = f a :=
  rfl

/-- The file at a position is the one that the bytes from there on begin with. -/
theorem entry_eq (hbuild : build.Supported) (hblob : build.Holds blob)
    (hbase : base ≤ blob.length) :
    (∃ file next, readEntry (blob.drop base) = some (file, blob.drop next) ∧
      entry build blob base = .ok (file, next) ∧
      base < next ∧ next ≤ blob.length) ∨
    (readEntry (blob.drop base) = none ∧ entry build blob base = .error .none) := by
  rw [entry]
  simp only [readEntry, Option.bind_eq_bind]
  rcases readU32_eq hbuild hblob hbase with ⟨pathLength, hfront, hlt, hread, hadd,
    hle⟩ | ⟨hfront, hread⟩
  case inr =>
    rw [hfront, hread]
    exact .inr ⟨rfl, rfl⟩
  rw [hfront, hread, ok_bind, hadd, ok_bind, Option.bind_some]
  dsimp only
  rcases advance hbuild hblob hle hlt with ⟨path, hfront, -, hget, hadd, hle⟩ | ⟨hfront, hget⟩
  case inr =>
    rw [hfront, bind_of_error hget]
    exact .inr ⟨rfl, rfl⟩
  rw [hfront, bind_of_ok hget, Option.bind_some, fromUtf8]
  dsimp only
  cases Utf8.fromUtf8 path with
  | none => exact .inr ⟨rfl, rfl⟩
  | some s =>
    rw [ok_bind, hadd, ok_bind, Option.bind_some]
    rcases readU32_eq hbuild hblob hle with ⟨fileLength, hfront, hlt, hread, hadd,
      hle⟩ | ⟨hfront, hread⟩
    case inr =>
      rw [hfront, hread]
      exact .inr ⟨rfl, rfl⟩
    rw [hfront, hread, ok_bind, hadd, ok_bind, Option.bind_some]
    dsimp only
    rcases advance hbuild hblob hle hlt with ⟨raw, hfront, -, hget, hadd, hle⟩ | ⟨hfront, hget⟩
    case inr =>
      rw [hfront, bind_of_error hget]
      exact .inr ⟨rfl, rfl⟩
    rw [hfront, bind_of_ok hget, hadd, ok_bind, Option.bind_some]
    dsimp only
    rcases advance hbuild hblob hle (n := md5Length)
      (by decide) with ⟨md5Code, hfront, -, hget, hadd, hle⟩ | ⟨hfront, hget⟩
    case inr =>
      rw [hfront, bind_of_error hget]
      exact .inr ⟨rfl, rfl⟩
    rw [hfront, bind_of_ok hget, hadd, ok_bind, Option.bind_some]
    dsimp only
    refine .inl ⟨_, _, rfl, rfl, ?_, hle⟩
    rw [lengthCount]
    omega

/-- The eight bytes at a position. -/
theorem marker_eq (hbuild : build.Supported) (hblob : build.Holds blob) (hbase : base ≤ blob.length)
    {β : Type} (f : Bytes → Except Stop β) :
    (∃ marker, blob.drop base = marker ++ blob.drop (base + identifierLength) ∧
      marker.length = identifierLength ∧
      (add build base identifierLength >>= fun stop => getRange blob base stop >>= f) = f marker ∧
      add build base identifierLength = .ok (base + identifierLength) ∧
        base + identifierLength ≤ blob.length) ∨
    (blob.length < base + identifierLength ∧ (add build base identifierLength >>= fun stop =>
      getRange blob base stop >>= f) = .error .none) := by
  rcases advance hbuild hblob hbase (n := identifierLength)
    (by decide) with ⟨marker, hfront, hlength, hget, hadd, hle⟩ | ⟨hfront, hget⟩
  · exact .inl ⟨marker, (front_eq_some hfront).1, hlength, bind_of_ok hget f, hadd, hle⟩
  · refine .inr ⟨?_, bind_of_error hget f⟩
    rw [front, List.length_drop] at hfront
    split at hfront
    · cases hfront
    · omega

/-! ## The list -/

/-- The files are written like this. -/
def Written (files : List BinaryData) (text : Bytes) : Prop :=
  ∃ entries, files.mapM writeEntry = some entries ∧ entries.flatten = text

theorem written_nil : Written [] [] := ⟨[], rfl, rfl⟩

theorem Written.eq_nil (h : Written [] text) : text = [] := by
  obtain ⟨entries, hentries, rfl⟩ := h
  rw [List.mapM_nil] at hentries
  obtain rfl := Option.some.inj hentries
  rfl

theorem Written.cons {file : BinaryData} {files : List BinaryData} {bytes text : Bytes}
    (hfile : writeEntry file = some bytes) (hfiles : Written files text) :
    Written (file :: files) (bytes ++ text) := by
  obtain ⟨entries, hentries, rfl⟩ := hfiles
  refine ⟨bytes :: entries, ?_, List.flatten_cons⟩
  rw [List.mapM_cons, hfile, hentries]
  rfl

theorem written_cons {file : BinaryData} (h : Written (file :: files) text) :
    ∃ bytes rest, text = bytes ++ rest ∧ writeEntry file = some bytes ∧ Written files rest := by
  obtain ⟨entries, hentries, rfl⟩ := h
  rw [List.mapM_cons] at hentries
  obtain ⟨bytes, hbytes, hentries⟩ := Option.bind_eq_some_iff.mp hentries
  obtain ⟨rest, hrest, hentries⟩ := Option.bind_eq_some_iff.mp hentries
  obtain rfl := Option.some.inj hentries
  exact ⟨bytes, rest.flatten, List.flatten_cons, hbytes, rest, hrest, rfl⟩

/-- The rest of the string, from a position in it. -/
theorem getRange_rest {stop : ℕ} (h : stop ≤ blob.length) :
    getRange blob stop blob.length = .ok (blob.drop stop) := by
  rw [getRange, if_pos ⟨h, Nat.le_refl _⟩, List.take_of_length_le
    (Nat.le_of_eq (List.length_drop ..))]

theorem writeBlob_eq (h : Written files text) (exe : List Char) :
    writeBlob files exe = some (identifier ++ text ++ identifier ++ encode exe) := by
  obtain ⟨entries, hentries, rfl⟩ := h
  rw [writeBlob, hentries]
  rfl

/-- The bytes of a file with a path that is not too long are not taken for the identifier: as a
length, its first four bytes are larger. -/
theorem writeEntry_ne_identifier {file : BinaryData} {bytes : Bytes}
    (h : writeEntry file = some bytes) (hpath : (encode file.path).length < 2 ^ 30)
    (rest rest' : Bytes) : bytes ++ rest ≠ identifier ++ rest' := by
  intro heq
  obtain ⟨pathLength, hwritten, h⟩ := Option.bind_eq_some_iff.mp h
  obtain ⟨dataLength, -, h⟩ := Option.bind_eq_some_iff.mp h
  obtain rfl := Option.some.inj h
  obtain ⟨rfl, hlt⟩ := toBytes_eq_some hwritten
  have hlength := congrArg (fun bytes => ofBigEndian (List.take lengthCount bytes)) heq
  simp only [List.append_assoc] at hlength
  rw [List.take_left' (bigEndian_length ..), ofBigEndian_bigEndian hlt] at hlength
  have hidentifier : ofBigEndian ((identifier ++ rest').take lengthCount) = 1111966821 := by
    change ofBigEndian [66, 71, 68, 101] = 1111966821
    decide
  omega

/-- **What is written is read**: from where a list begins, the loop finds its files and stops behind
the identifier. -/
theorem loop_written (hbuild : build.Supported) (hblob : build.Holds blob) :
    ∀ {n base : ℕ} (parsed : List BinaryData) {text tail : Bytes}, Written files text →
      (∀ file ∈ files, (encode file.path).length < 2 ^ 30 ∧ file.md5Code.length = md5Length) →
        base ≤ blob.length →
      blob.drop base = text ++ (identifier ++ tail) → files.length < n →
      ∃ stop, loop build blob n base parsed = .ok (parsed ++ files, stop) ∧ blob.drop stop = tail ∧
        stop ≤ blob.length := by
  induction files with
  | nil =>
    intro n base parsed text tail hwritten _ hbase hdrop hn
    obtain rfl := hwritten.eq_nil
    obtain ⟨n, rfl⟩ := Nat.exists_eq_add_one_of_ne_zero (Nat.ne_of_gt hn)
    rw [List.nil_append] at hdrop
    rw [loop]
    rcases marker_eq hbuild hblob hbase _ with
      ⟨marker, hsplit, hlength, heq, hadd, hle⟩ | ⟨hshort, -⟩
    · obtain ⟨rfl, htail⟩ := List.append_inj (hsplit.symm.trans hdrop) hlength
      rw [heq, if_pos rfl, hadd, List.append_nil]
      exact ⟨_, rfl, htail, hle⟩
    · have hlength := congrArg List.length hdrop
      rw [List.length_drop, List.length_append] at hlength
      change _ = identifierLength + _ at hlength
      omega
  | cons file files ih =>
    intro n base parsed text tail hwritten hfiles hbase hdrop hn
    obtain ⟨bytes, rest, rfl, hbytes, hrest⟩ := written_cons hwritten
    obtain ⟨⟨hpath, hmd5⟩, hfiles⟩ := List.forall_mem_cons.mp hfiles
    obtain ⟨n, rfl⟩ :=
      Nat.exists_eq_add_one_of_ne_zero (Nat.ne_of_gt (Nat.lt_of_le_of_lt (Nat.zero_le _) hn))
    rw [List.append_assoc] at hdrop
    have hread := readEntry_writeEntry hbytes hmd5 (rest ++ (identifier ++ tail))
    rw [← hdrop] at hread
    rw [loop]
    rcases marker_eq hbuild hblob hbase _ with ⟨marker, hsplit, -, heq, -, -⟩ | ⟨hshort, -⟩
    · have hmarker : marker ≠ identifier := by
        rintro rfl
        exact writeEntry_ne_identifier hbytes hpath _ _ (hdrop.symm.trans hsplit)
      rw [heq, if_neg hmarker]
      rcases entry_eq hbuild hblob hbase with ⟨file', next, hread', hentry, -, hnext⟩ | ⟨hread', -⟩
      · obtain ⟨rfl, hdrop'⟩ := Prod.mk.inj (Option.some.inj (hread.symm.trans hread'))
        obtain ⟨stop, hloop, hstop⟩ :=
          ih (parsed ++ [file]) hrest hfiles hnext hdrop'.symm (Nat.lt_of_succ_lt_succ hn)
        rw [hentry, ok_bind]
        dsimp only
        rw [hloop, List.append_assoc]
        exact ⟨stop, rfl, hstop⟩
      · rw [hread] at hread'
        cases hread'
    · have hlength := congrArg List.length hdrop
      rw [List.length_drop, List.length_append, List.length_append, List.length_append] at hlength
      change _ = _ + (_ + (identifierLength + _)) at hlength
      omega

/-- **What is read was written**: with as many passes as there are bytes left, the loop has a
result, and what lies between is how its files are written. -/
theorem loop_sound (hbuild : build.Supported) (hblob : build.Holds blob) (n : ℕ) :
    ∀ {base : ℕ} (parsed : List BinaryData), base ≤ blob.length → blob.length - base < n →
      (∃ files stop text, loop build blob n base parsed = .ok (parsed ++ files, stop) ∧
        stop ≤ blob.length ∧ Written files text ∧
        (∀ file ∈ files, file.md5Code.length = md5Length) ∧
          blob.drop base = text ++ (identifier ++ blob.drop stop)) ∨
      loop build blob n base parsed = .error .none := by
  induction n with
  | zero => exact fun _ _ hn => absurd hn (Nat.not_lt_zero _)
  | succ n ih =>
    intro base parsed hbase hn
    rw [loop]
    rcases marker_eq hbuild hblob hbase _ with ⟨marker, hsplit, -, heq, hadd, hle⟩ | ⟨-, heq⟩
    · rw [heq]
      by_cases hmarker : marker = identifier
      · subst hmarker
        rw [if_pos rfl, hadd]
        refine .inl ⟨[], _, [], ?_, hle, written_nil, ?_, hsplit⟩
        · rw [List.append_nil]
          rfl
        · rintro file ⟨⟩
      · rw [if_neg hmarker]
        rcases entry_eq hbuild hblob hbase with
          ⟨file, next, hread, hentry, hlt, hnext⟩ | ⟨-, hentry⟩
        · rw [hentry, ok_bind]
          rcases ih (parsed ++ [file]) hnext (by omega) with
            ⟨files, stop, text, hloop, hstop, hwritten, hmd5, hdrop⟩ | hloop
          · obtain ⟨hfile, bytes, hbytes, hsplit'⟩ := writeEntry_readEntry hread
            refine .inl ⟨file :: files, stop, bytes ++ text, ?_, hstop, .cons hbytes hwritten,
              List.forall_mem_cons.mpr ⟨hfile, hmd5⟩, ?_⟩
            · dsimp only
              rw [hloop, List.append_assoc]
              rfl
            · rw [hsplit', hdrop, List.append_assoc]
          · exact .inr hloop
        · rw [hentry]
          exact .inr rfl
    · rw [heq]
      exact .inr rfl

end Positions

/-! ## The whole string -/

/-- Files with what the format has room for can be written. -/
theorem written_of_small {files : List BinaryData}
    (h : ∀ file ∈ files, (encode file.path).length < 2 ^ 30 ∧ file.raw.length < 2 ^ 32) :
    ∃ text, Written files text := by
  induction files with
  | nil => exact ⟨[], written_nil⟩
  | cons file files ih =>
    obtain ⟨⟨hpath, hraw⟩, hrest⟩ := List.forall_mem_cons.mp h
    obtain ⟨text, htext⟩ := ih hrest
    have hpathLength : toBytes (encode file.path).length =
        some (bigEndian lengthCount (encode file.path).length) := by
      refine if_pos ?_
      rw [lengthCount]
      omega
    have hrawLength : toBytes file.raw.length = some (bigEndian lengthCount file.raw.length) :=
      if_pos hraw
    have hentry :
      writeEntry file = some (bigEndian lengthCount (encode file.path).length ++ encode file.path ++
        bigEndian lengthCount file.raw.length ++ file.raw ++ file.md5Code) := by
      rw [writeEntry, hpathLength, hrawLength]
      rfl
    exact ⟨_, .cons hentry htext⟩

/-- Each file takes some bytes. -/
theorem Written.length_le {files : List BinaryData} :
    ∀ {text : Bytes}, Written files text → files.length ≤ text.length := by
  induction files with
  | nil => exact fun _ => Nat.zero_le _
  | cons file files ih =>
    intro text h
    obtain ⟨bytes, rest, rfl, hbytes, hrest⟩ := written_cons h
    obtain ⟨pathLength, hwritten, hbytes⟩ := Option.bind_eq_some_iff.mp hbytes
    obtain ⟨dataLength, -, hbytes⟩ := Option.bind_eq_some_iff.mp hbytes
    obtain rfl := Option.some.inj hbytes
    obtain ⟨rfl, -⟩ := toBytes_eq_some hwritten
    have hle := ih hrest
    simp only [List.length_append, List.length_cons, bigEndian_length]
    rw [lengthCount]
    omega

section Whole

variable {build : Build}

/-- What is written for files that the format has room for is read as these files. -/
theorem parse_written (hbuild : build.Supported) {files : List BinaryData} {text : Bytes}
    (exe : List Char) (hwritten : Written files text)
    (hfiles : ∀ file ∈ files, (encode file.path).length < 2 ^ 30 ∧ file.md5Code.length = md5Length)
    (hblob : build.Holds (identifier ++ text ++ identifier ++ encode exe)) :
    parse build (identifier ++ text ++ identifier ++ encode exe) = .ok (files, exe) := by
  generalize hall : identifier ++ text ++ identifier ++ encode exe = blob at hblob ⊢
  have hdrop : blob.drop 0 = identifier ++ (text ++ (identifier ++ encode exe)) := by
    rw [List.drop_zero, ← hall]
    simp only [List.append_assoc]
  have hlength : blob.length = identifierLength + text.length + identifierLength +
      (encode exe).length := by
    rw [← hall]
    simp only [List.length_append]
    rfl
  have hpasses : files.length < blob.length + 1 := by
    have hle := hwritten.length_le
    omega
  rw [parse]
  rcases marker_eq hbuild hblob (Nat.zero_le _)
    _ with ⟨marker, hsplit, hmarker, heq, hadd, hle⟩ | ⟨hshort, -⟩
  · obtain ⟨rfl, hrest⟩ := List.append_inj (hsplit.symm.trans hdrop) hmarker
    obtain ⟨stop, hloop, hstop, hend⟩ :=
      loop_written hbuild hblob [] hwritten hfiles hle hrest hpasses
    rw [heq, if_neg (not_not_intro rfl), hadd, ok_bind, hloop, ok_bind]
    dsimp only
    rw [getRange_rest hend, hstop, ok_bind, fromUtf8, encode, Utf8.fromUtf8_encode]
    rfl
  · omega

/-- Of any string, the reader returns what it is written for, or nothing: it has the passes it
takes, and no sum and no index is out of range. -/
theorem parse_sound (hbuild : build.Supported) {blob : Bytes} (hblob : build.Holds blob) :
    (∃ files exe, parse build blob = .ok (files, exe) ∧ writeBlob files exe = some blob ∧
      ∀ file ∈ files, file.md5Code.length = md5Length) ∨
    parse build blob = .error .none := by
  rw [parse]
  rcases marker_eq hbuild hblob (Nat.zero_le _)
    _ with ⟨marker, hsplit, -, heq, hadd, hle⟩ | ⟨-, heq⟩
  · rw [heq]
    by_cases hmarker : marker = identifier
    · subst hmarker
      rw [if_neg (not_not_intro rfl), hadd, ok_bind]
      rcases loop_sound hbuild hblob (blob.length + 1) [] hle (by omega) with
        ⟨files, stop, text, hloop, hstop, hwritten, hmd5, hdrop⟩ | hloop
      · rw [hloop, ok_bind]
        dsimp only
        rw [getRange_rest hstop, ok_bind, fromUtf8]
        cases hexe : Utf8.fromUtf8 (blob.drop stop) with
        | none => exact .inr rfl
        | some exe =>
          refine .inl ⟨files, exe, rfl, ?_, hmd5⟩
          have hencode : encode exe = blob.drop stop := Utf8.encode_fromUtf8 hexe
          rw [writeBlob_eq hwritten, hencode]
          rw [List.drop_zero, hdrop] at hsplit
          refine Eq.trans ?_ (congrArg some hsplit.symm)
          simp only [List.append_assoc]
      · rw [hloop]
        exact .inr rfl
    · rw [if_pos hmarker]
      exact .inr rfl
  · rw [heq]
    exact .inr rfl

end Whole

/-- **The package format**. In a build that may be used, and for strings that a slice can hold: what
is written for any list of files, with paths and data that are not too long, and any executable, is
read as these; and of any string, the reader returns the files and the executable it is written for,
or nothing. -/
theorem portable_package_format {build : Build} (hbuild : build.Supported) :
    (∀ files exe, (∀ file ∈ files, (encode file.path).length < 2 ^ 30 ∧ file.raw.length < 2 ^ 32 ∧
      file.md5Code.length = md5Length) →
      ∃ blob, writeBlob files exe = some blob ∧
        (build.Holds blob → parse build blob = .ok (files, exe))) ∧
    ∀ blob, build.Holds blob →
      (∃ files exe, parse build blob = .ok (files, exe) ∧ writeBlob files exe = some blob ∧
        ∀ file ∈ files, file.md5Code.length = md5Length) ∨
      parse build blob = .error .none := by
  refine ⟨?_, fun blob hblob => parse_sound hbuild hblob⟩
  intro files exe hfiles
  obtain ⟨text, hwritten⟩ := written_of_small fun file hfile =>
    ⟨(hfiles file hfile).1, (hfiles file hfile).2.1⟩
  have hread : ∀ file ∈ files, (encode file.path).length < 2 ^ 30 ∧
    file.md5Code.length = md5Length :=
    fun file hfile => ⟨(hfiles file hfile).1, (hfiles file hfile).2.2⟩
  exact ⟨_, writeBlob_eq hwritten exe, parse_written hbuild exe hwritten hread⟩

/-- A file with the identifier in its data, in a build that checks its sums. -/
theorem portable_package_format_marker :
    ∃ blob, writeBlob [⟨List.replicate 32 97, identifier, ['a']⟩] ['a'] = some blob ∧
      parse ⟨64, true⟩ blob = .ok ([⟨List.replicate 32 97, identifier, ['a']⟩], ['a']) := by
  obtain ⟨blob, hwritten, hread⟩ := (@portable_package_format ⟨64, true⟩ (.inl (Nat.le_refl _))).1
    [⟨List.replicate 32 97, identifier, ['a']⟩] ['a'] (by decide)
  refine ⟨blob, hwritten, hread ?_⟩
  have hlength : (writeBlob [⟨List.replicate 32 97, identifier, ['a']⟩] ['a']).map List.length =
      some 66 := by decide
  rw [hwritten] at hlength
  rw [Build.Holds, Option.some.inj hlength]
  decide

end Package
end BgDesk
