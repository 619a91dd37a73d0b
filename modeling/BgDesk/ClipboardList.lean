import Mathlib.Data.List.Forall2
import BgDesk.FileTransfer
import BgDesk.LittleEndian
import BgDesk.Utf16

/-!
# The clipboard's file list

`libs/clipboard/src/platform/unix`: the files a peer has copied travel as a list of 592-byte records
in the Windows layout `FILEDESCRIPTORW`. `local_file.rs` writes a record, `serv_files.rs` puts the
records together and a nonce into the first of them, `filetype.rs` reads them back.

Both ends check a name with `validateFileName`, but the reader takes every `\` for a separator
first. `file_list_round_trip` says what that costs: a list comes back as it was sent exactly when no
name in it holds a `\` (and its length fits the counter in front of it).

* `LocalFile.asBin`, `buildFileListPdu` — the writer;
* `parseFileDescriptor`, `parseFileDescriptors` — the reader;
* `parseFileDescriptor_record` — what the reader makes of one record that was written.
-/

namespace BgDesk
namespace Clipboard

/-- `CliprdrError`, those of them the file list can end in. A `FileError` is kept without the error
of the operating system. -/
inductive CliprdrError where
  | conversionFailure
  | fileError (path : PathName)
  | invalidRequest (description : String)
  deriving DecidableEq

/-! ## Numbers on the wire -/

/-- `put_u32_le`. -/
def putU32LE (x : UInt32) : Bytes := littleEndian 4 x.toNat

/-- `put_u64_le`. -/
def putU64LE (x : UInt64) : Bytes := littleEndian 8 x.toNat

/-- `get_u32_le`. Fewer than four bytes make it panic; no caller here has fewer. -/
def getU32LE (bytes : Bytes) : UInt32 × Bytes := ((readLE 4 bytes).1.toUInt32, (readLE 4 bytes).2)

/-- `get_u64_le`, in the same way. -/
def getU64LE (bytes : Bytes) : UInt64 × Bytes := ((readLE 8 bytes).1.toUInt64, (readLE 8 bytes).2)

@[simp] theorem putU32LE_length (x : UInt32) : (putU32LE x).length = 4 := littleEndian_length _ _

@[simp] theorem putU64LE_length (x : UInt64) : (putU64LE x).length = 8 := littleEndian_length _ _

@[simp] theorem getU32LE_putU32LE (x : UInt32) (rest : Bytes) :
    getU32LE (putU32LE x ++ rest) = (x, rest) := by
  have hx : x.toNat % 256 ^ 4 = x.toNat := Nat.mod_eq_of_lt x.toNat_lt
  rw [getU32LE, putU32LE, readLE_littleEndian, hx]
  simp

@[simp] theorem getU64LE_putU64LE (x : UInt64) (rest : Bytes) :
    getU64LE (putU64LE x ++ rest) = (x, rest) := by
  have hx : x.toNat % 256 ^ 8 = x.toNat := Nat.mod_eq_of_lt x.toNat_lt
  rw [getU64LE, putU64LE, readLE_littleEndian, hx]
  simp

/-! ## Constants -/

/-- `FLAGS_FD_ATTRIBUTES`. -/
def flagsFdAttributes : UInt32 := 0x04

/-- `FLAGS_FD_SIZE`. -/
def flagsFdSize : UInt32 := 0x40

/-- `FLAGS_FD_LAST_WRITE`. -/
def flagsFdLastWrite : UInt32 := 0x20

/-- `FLAGS_FD_PROGRESSUI`. -/
def flagsFdProgressui : UInt32 := 0x4000

/-- `FLAGS_FD_UNIX_MODE`. -/
def flagsFdUnixMode : UInt32 := 0x08

/-- `FILE_NAME_CODE_UNITS`. -/
def fileNameCodeUnits : ℕ := 260

/-- `FILE_NAME_FIELD_SIZE`. -/
def fileNameFieldSize : ℕ := fileNameCodeUnits * 2

/-- `MAX_FILE_NAME_CODE_UNITS`. -/
def maxFileNameCodeUnits : ℕ := fileNameCodeUnits - 1

/-- `LDAP_EPOCH_DELTA`: what lies between 1601 and 1970, in steps of 100 ns. -/
def ldapEpochDelta : ℕ := 116444736000000000

/-- `FILE_DESCRIPTOR_SIZE`. -/
def fileDescriptorSize : ℕ := 592

/-! ## Names -/

/-- `matches!(name.as_bytes(), [letter, b':', b'/', ..] if letter.is_ascii_alphabetic())`. -/
def hasDrive : PathName → Bool
  | letter :: ':' :: '/' :: _ => letter.isAlpha
  | _ => false

/-- `validate_file_name`. -/
def validateFileName (name : PathName) : Except CliprdrError Unit :=
  if hasDrive name ∨ [] ∈ name.splitOn '/' ∨ ['.'] ∈ name.splitOn '/' then
    .error (.invalidRequest "clipboard file name is not a normalized relative path")
  else
    match Fs.validateFileNameNoTraversal name with
    | .error e => .error (.invalidRequest e)
    | .ok () => .ok ()

/-! ## The writer -/

/-- A file that is open for reading: which file it is, and how far it has been read. -/
structure FileHandle where
  inode : ℕ
  position : ℕ
  deriving DecidableEq

/-- `LocalFile`. Times are nanoseconds since 1970. -/
structure LocalFile where
  path : PathName
  handle : Option FileHandle
  offset : ℕ
  name : PathName
  descriptorName : PathName
  size : UInt64
  lastWriteTime : ℤ
  isDir : Bool
  perm : UInt32
  readOnly : Bool
  hidden : Bool
  system : Bool
  archive : Bool
  normal : Bool
  deriving DecidableEq

/-- `descriptor_name_too_long_error`. -/
def descriptorNameTooLongError : CliprdrError :=
  .invalidRequest "clipboard file name exceeds 259 UTF-16 code units"

/-- `validated_descriptor_name`, from where the root has been taken off the path. -/
def validatedDescriptorName (descriptorPath : PathName) : Except CliprdrError PathName :=
  if descriptorPath.head? = some '/' then .error (.invalidRequest
    "clipboard file path must be relative")
  else do
    validateFileName descriptorPath
    if maxFileNameCodeUnits < (Utf16.encode descriptorPath).length then
      .error descriptorNameTooLongError
    else pure descriptorPath

namespace LocalFile

/-- `put_descriptor_name`: the bytes it appends. -/
def putDescriptorName (f : LocalFile) : Except CliprdrError Bytes := do
  validateFileName f.descriptorName
  let name := Utf16.toBytes (Utf16.encode f.descriptorName)
  let nameFieldSize := name.length + 2
  if fileNameFieldSize < nameFieldSize then .error descriptorNameTooLongError
  else pure (name ++ [0, 0] ++ List.replicate (fileNameFieldSize - nameFieldSize) 0)

/-- The attributes `as_bin` writes. -/
def fileAttributes (f : LocalFile) : UInt32 :=
  (if f.readOnly then 0x1 else 0) ||| (if f.hidden then 0x2 else 0)
    ||| (if f.system then 0x4 else 0) |||
    (if f.isDir then 0x10 else 0) ||| (if f.archive then 0x20 else 0)
      ||| (if f.normal then 0x80 else 0)

/-- The time `as_bin` writes: a time before 1970 counts as 1970, and the sum wraps. -/
def win32Time (f : LocalFile) : UInt64 :=
  (f.lastWriteTime.toNat / 100).toUInt64 + ldapEpochDelta.toUInt64

/-- The flags `as_bin` writes. -/
def flags : UInt32 :=
  flagsFdSize ||| flagsFdLastWrite ||| flagsFdAttributes ||| flagsFdProgressui ||| flagsFdUnixMode

/-- A record: 36 bytes of flags and reserved space, then the fields. -/
def record (f : LocalFile) (reserved name : Bytes) : Bytes :=
  putU32LE flags ++
    (reserved ++ (putU32LE f.fileAttributes ++ (List.replicate 12 (0 : UInt8) ++ (putU32LE f.perm ++
    (putU64LE f.win32Time ++ (putU32LE (f.size >>> 32).toUInt32 ++
      (putU32LE (f.size &&& 0xFFFFFFFF).toUInt32 ++ name)))))))

/-- `as_bin`. -/
def asBin (f : LocalFile) : Except CliprdrError Bytes := do
  let name ← f.putDescriptorName
  pure (f.record (List.replicate 32 0) name)

end LocalFile

/-- Sixteen random bytes. -/
abbrev Nonce : Type := { bytes : Bytes // bytes.length = 16 }

/-- The records of a list, up to the first that cannot be written. -/
def asBins : List LocalFile → Except CliprdrError Bytes
  | [] => .ok []
  | f :: fs => do
    let bin ← f.asBin
    let rest ← asBins fs
    pure (bin ++ rest)

/-- `files_pdu.get_mut(LIST_NONCE)` and the copy of the nonce there. -/
def putNonce (nonce : Nonce) (pdu : Bytes) : Bytes :=
  if 24 ≤ pdu.length then pdu.take 8 ++ nonce.val ++ pdu.drop 24 else pdu

/-- `build_file_list_pdu`: what it leaves in `files_pdu`. -/
def buildFileListPdu (nonce : Nonce) (files : List LocalFile) : Except CliprdrError Bytes := do
  let bins ← asBins files
  pure (putNonce nonce (putU32LE files.length.toUInt32 ++ bins))

/-! ## The reader -/

/-- `file_list_id`. -/
def fileListId (pdu : Bytes) : Int32 :=
  (pdu.foldl (fun id byte => (id ^^^ byte.toUInt32) * 0x01000193) 0x811c9dc5 : UInt32).toInt32

example : (fileListId [102, 111, 111, 98, 97, 114]).toUInt32 = 0xbf9cf968 := by decide

/-- `FileType`; the reader makes no `Symlink`. -/
inductive FileType where
  | file
  | directory
  | symlink
  deriving DecidableEq

/-- `FileDescription`. -/
structure FileDescription where
  connId : Int32
  name : PathName
  kind : FileType
  atime : ℤ
  lastModified : ℤ
  lastMetadataChanged : ℤ
  creationTime : ℤ
  size : UInt64
  perm : UInt16
  clipDataId : Int32
  deriving DecidableEq

/-- The name in its field: up to the first zero unit. -/
def parseName (block : Bytes) : Except CliprdrError PathName :=
  match (Utf16.ofBytes block).findIdx? (fun unit => unit = 0) with
  | none => .error (.invalidRequest "clipboard file name is not null-terminated")
  | some nameEnd =>
    match Utf16.decode (Utf16.ofBytes (block.take (nameEnd * 2))) with
    | none => .error .conversionFailure
    | some wstr => .ok wstr

/-- The permissions of a file: its own if they were sent, else what its attributes stand for. -/
def parsePerm (flags attributes : UInt32) (perm : UInt16) : UInt16 :=
  if flags &&& flagsFdUnixMode ≠ 0 then perm
  else if attributes = 0x80 then 0o755
  else if attributes &&& 0x10 ≠ 0 then 0o755
  else if attributes &&& 0x01 ≠ 0 then 0o444
  else if attributes &&& 0x02 ≠ 0 then 0o400
  else 0o644

/-- When a file was last written, 1970 where that is not said or was earlier. -/
def parseLastModified (flags : UInt32) (lastWriteTime : UInt64) : ℤ :=
  if flags &&& flagsFdLastWrite ≠ 0 ∧ ldapEpochDelta ≤ lastWriteTime.toNat then
    let since := lastWriteTime.toNat - ldapEpochDelta
    (since / 10000000 * 1000000000 + since % 10000000 * 100 : ℕ)
  else 0

/-- `replace('\\', "/")`. -/
def replaceBackslashes (name : PathName) : PathName := name.map fun c => if c = '\\' then '/' else c

/-- `parse_file_descriptor`, and the bytes behind the record. -/
def parseFileDescriptor (connId clipDataId : Int32) (bytes : Bytes) :
    Except CliprdrError (FileDescription × Bytes) := do
  let (flags, bytes) := getU32LE bytes
  let (attributes, bytes) := getU32LE (bytes.drop 32)
  let (perm, bytes) := getU32LE (bytes.drop 12)
  let (lastWriteTime, bytes) := getU64LE bytes
  let (fileSizeHigh, bytes) := getU32LE bytes
  let (fileSizeLow, bytes) := getU32LE bytes
  let wstr ← parseName (bytes.take fileNameFieldSize)
  if flags &&& flagsFdAttributes = 0 then
    .error (.invalidRequest "file description must have valid attributes")
  else
    let lastModified := parseLastModified flags lastWriteTime
    let name := replaceBackslashes wstr
    validateFileName name
    pure ({ connId
            name
            kind := if attributes &&& 0x10 ≠ 0 then .directory else .file
            atime := lastModified
            lastModified
            lastMetadataChanged := lastModified
            creationTime := lastModified
            size := (fileSizeHigh.toUInt64 <<< 32) + fileSizeLow.toUInt64
            perm := parsePerm flags attributes perm.toUInt16
            clipDataId }, bytes.drop fileNameFieldSize)

/-- The loop of `parse_file_descriptors`. -/
def parseRecords (connId clipDataId : Int32) :
    ℕ → Bytes → Except CliprdrError (List FileDescription)
  | 0, _ => .ok []
  | count + 1, data => do
    let (desc, data) ← parseFileDescriptor connId clipDataId data
    let files ← parseRecords connId clipDataId count data
    pure (desc :: files)

/-- `parse_file_descriptors`. -/
def parseFileDescriptors (pdu : Bytes) (connId : Int32) :
    Except CliprdrError (List FileDescription) :=
  if pdu.length < 4 then .error (.invalidRequest "file descriptor request with infficient length")
  else
    let (count, data) := getU32LE pdu
    if data.length = 0 ∧ count = 0 then .ok []
    else if data.length ≠ 592 * count.toNat then
      .error (.invalidRequest "file descriptor request with invalid length")
    else parseRecords connId (fileListId pdu) count.toNat data

/-! ## One record -/

theorem validateFileName_ok {name : PathName} (h : validateFileName name = .ok ()) :
    '\x00' ∉ name ∧ [] ∉ name.splitOn '/' := by
  rw [validateFileName] at h
  split at h
  · cases h
  · next hnorm =>
    refine ⟨fun h0 => ?_, fun hempty => hnorm (Or.inr (Or.inl hempty))⟩
    rw [Fs.validateFileNameNoTraversal, if_pos h0] at h
    cases h

namespace LocalFile

variable {f : LocalFile}

variable {field : Bytes}

theorem putDescriptorName_ok (h : f.putDescriptorName = .ok field) :
    validateFileName f.descriptorName = .ok () ∧
      2 * (Utf16.encode f.descriptorName).length + 2 ≤ fileNameFieldSize ∧
      field = Utf16.toBytes (Utf16.encode f.descriptorName) ++ [0, 0] ++
        List.replicate (fileNameFieldSize - (2 * (Utf16.encode f.descriptorName).length + 2))
          0 := by
  rw [putDescriptorName] at h
  cases hv : validateFileName f.descriptorName with
  | error e =>
    rw [hv] at h
    cases h
  | ok u =>
    rw [hv] at h
    simp only [Utf16.toBytes_length] at h
    change (if _ then _ else _) = _ at h
    split at h
    · cases h
    · next hle => exact ⟨rfl, Nat.not_lt.mp hle, (Except.ok.inj h).symm⟩

/-- A file whose name has passed `try_open` can be written. -/
theorem asBin_of_validated {path : PathName}
    (h : validatedDescriptorName path = .ok f.descriptorName) : ∃ bin, f.asBin = .ok bin := by
  rw [validatedDescriptorName] at h
  split at h
  · cases h
  · cases hv : validateFileName path with
    | error e =>
      rw [hv] at h
      cases h
    | ok u =>
      rw [hv] at h
      change (if _ then _ else _) = _ at h
      split at h
      · cases h
      · next hle =>
        obtain rfl := Except.ok.inj h
        have hfits : ¬fileNameFieldSize < (Utf16.toBytes (Utf16.encode f.descriptorName)).length +
            2 := by
          rw [maxFileNameCodeUnits, fileNameCodeUnits] at hle
          rw [Utf16.toBytes_length, fileNameFieldSize, fileNameCodeUnits]
          omega
        rw [asBin, putDescriptorName, hv]
        simp only [bind, Except.bind, if_neg hfits, pure, Except.pure]
        exact ⟨_, rfl⟩

theorem putDescriptorName_length (h : f.putDescriptorName = .ok field) :
    field.length = fileNameFieldSize := by
  obtain ⟨-, hle, rfl⟩ := putDescriptorName_ok h
  simp only [List.length_append, Utf16.toBytes_length, List.length_replicate, List.length_cons,
    List.length_nil]
  omega

/-- The name that was put into the field is read from it. -/
theorem parseName_putDescriptorName (h : f.putDescriptorName = .ok field) :
    parseName field = .ok f.descriptorName := by
  obtain ⟨hv, -, hfield⟩ := putDescriptorName_ok h
  have hzero : (Utf16.encode f.descriptorName).findIdx? (fun unit => unit = 0) = none := by
    rw [List.findIdx?_eq_none_iff]
    intro u hu
    exact decide_eq_false (Utf16.ne_zero_of_mem_encode (validateFileName_ok hv).1 hu)
  have hend : (Utf16.ofBytes field).findIdx? (fun unit => unit = 0) =
      some (Utf16.encode f.descriptorName).length := by
    rw [hfield, List.append_assoc, Utf16.ofBytes_toBytes_append, List.findIdx?_append, hzero,
      List.cons_append,
      List.cons_append, Utf16.ofBytes, List.findIdx?_cons, if_pos (by decide)]
    simp
  have htake : field.take ((Utf16.encode f.descriptorName).length * 2) =
      Utf16.toBytes (Utf16.encode f.descriptorName) := by
    rw [hfield, List.append_assoc]
    exact List.take_left' (by rw [Utf16.toBytes_length, Nat.mul_comm])
  have hunits : Utf16.ofBytes (Utf16.toBytes (Utf16.encode f.descriptorName)) =
      Utf16.encode f.descriptorName := by
    have happ := Utf16.ofBytes_toBytes_append (Utf16.encode f.descriptorName) []
    have hnil : Utf16.ofBytes [] = [] := rfl
    rwa [hnil, List.append_nil, List.append_nil] at happ
  rw [parseName, hend]
  simp only
  rw [htake, hunits, Utf16.decode_encode]

theorem record_length (reserved : Bytes) (hres : reserved.length = 32)
    (h : f.putDescriptorName = .ok field) :
    (f.record reserved field).length = fileDescriptorSize := by
  simp only [record, List.length_append, putU32LE_length, putU64LE_length,
    List.length_replicate, hres,
    putDescriptorName_length h]
  rfl

/-! ### Fields -/

theorem fileAttributes_directory (f : LocalFile) :
    f.fileAttributes &&& 0x10 ≠ 0 ↔ f.isDir = true := by
  rw [fileAttributes]
  cases f.readOnly <;> cases f.hidden <;> cases f.system <;> cases f.isDir <;> cases f.archive
    <;> cases f.normal <;>
    decide

theorem size_halves (size : UInt64) :
    ((size >>> 32).toUInt32.toUInt64 <<< 32) + (size &&& 0xFFFFFFFF).toUInt32.toUInt64 = size := by
  have hlt := size.toNat_lt
  apply UInt64.toNat_inj.mp
  have hand : size.toNat &&& 4294967295 = size.toNat % 2 ^ 32 :=
    Nat.and_two_pow_sub_one_eq_mod size.toNat 32
  simp only [UInt64.toNat_add, UInt64.toNat_shiftLeft, UInt32.toNat_toUInt64, UInt64.toNat_toUInt32,
    UInt64.toNat_shiftRight, UInt64.toNat_and, UInt64.toNat_ofNat, Nat.shiftRight_eq_div_pow,
      Nat.shiftLeft_eq]
  norm_num [hand]
  omega

/-- The time of last writing has a place in the record. -/
def TimeFits (f : LocalFile) : Prop :=
  0 ≤ f.lastWriteTime ∧ f.lastWriteTime / 100 + ldapEpochDelta < 2 ^ 64

theorem win32Time_toNat (ht : f.TimeFits) :
    f.win32Time.toNat = f.lastWriteTime.toNat / 100 + ldapEpochDelta := by
  obtain ⟨h0, hlt⟩ := ht
  rw [win32Time, UInt64.toNat_add]
  simp only [UInt64.toNat_ofNat', Nat.toUInt64, ldapEpochDelta] at hlt ⊢
  omega

theorem parseLastModified_win32Time (ht : f.TimeFits) :
    parseLastModified flags f.win32Time = f.lastWriteTime / 100 * 100 := by
  have hnat := win32Time_toNat ht
  obtain ⟨h0, -⟩ := ht
  rw [parseLastModified, if_pos ⟨by decide, by omega⟩, hnat]
  simp only [Nat.add_sub_cancel]
  omega

/-- What the reader makes of the record of a file. -/
def described (f : LocalFile) (connId clipDataId : Int32) : FileDescription :=
  { connId
    name := replaceBackslashes f.descriptorName
    kind := if f.isDir then .directory else .file
    atime := parseLastModified flags f.win32Time
    lastModified := parseLastModified flags f.win32Time
    lastMetadataChanged := parseLastModified flags f.win32Time
    creationTime := parseLastModified flags f.win32Time
    size := f.size
    perm := f.perm.toUInt16
    clipDataId }

/-- The reader on one record: whatever the reserved bytes are, only the name is left to be checked.
-/
theorem parseFileDescriptor_record (connId clipDataId : Int32) {reserved : Bytes} (rest : Bytes)
    (hres : reserved.length = 32) (h : f.putDescriptorName = .ok field) :
    parseFileDescriptor connId clipDataId (f.record reserved field ++ rest) =
      (validateFileName (replaceBackslashes f.descriptorName)).map fun _ =>
        (f.described connId clipDataId, rest) := by
  have hlen := putDescriptorName_length h
  have hkind : (if f.fileAttributes &&& 0x10 ≠ 0 then FileType.directory else .file) =
      if f.isDir then .directory else .file := if_congr f.fileAttributes_directory rfl rfl
  have hperm : parsePerm flags f.fileAttributes f.perm.toUInt16 = f.perm.toUInt16 := by
    rw [parsePerm, if_pos (by decide)]
  have hflags : ¬flags &&& flagsFdAttributes = 0 := by decide
  have hzeros : (List.replicate 12 (0 : UInt8)).length = 12 := List.length_replicate
  rw [parseFileDescriptor, record]
  simp only [List.append_assoc, getU32LE_putU32LE, List.drop_left' hres, List.drop_left' hzeros,
    getU64LE_putU64LE,
    List.take_left' hlen, List.drop_left' hlen, parseName_putDescriptorName h, hkind, hperm,
      size_halves,
    if_neg hflags]
  change (validateFileName (replaceBackslashes f.descriptorName) >>= fun _ =>
    pure (f.described connId clipDataId, rest)) = _
  cases validateFileName (replaceBackslashes f.descriptorName) with
  | error e => rfl
  | ok u => rfl

end LocalFile

theorem replaceBackslashes_eq_self_iff (name : PathName) :
    replaceBackslashes name = name ↔ '\\' ∉ name := by
  constructor
  · intro heq hmem
    rw [← heq, replaceBackslashes, List.mem_map] at hmem
    obtain ⟨c, -, hc⟩ := hmem
    split at hc
    · exact absurd hc (by decide)
    · next hne => exact hne hc
  · intro hmem
    rw [replaceBackslashes]
    conv_rhs => rw [← List.map_id name]
    refine List.map_congr_left fun c hc => ?_
    have hne : c ≠ '\\' := fun hback => hmem (hback ▸ hc)
    rw [if_neg hne]
    rfl

/-! ## The list -/

/-- The bytes are the records of the files, whatever stands in their reserved space. -/
inductive Encodes : List LocalFile → Bytes → Prop where
  | nil : Encodes [] []
  | cons {f : LocalFile} {fs : List LocalFile} {reserved field rest : Bytes} :
    reserved.length = 32 →
      f.putDescriptorName = .ok field → Encodes fs rest →
        Encodes (f :: fs) (f.record reserved field ++ rest)

theorem asBin_ok {f : LocalFile} {bin : Bytes} (h : f.asBin = .ok bin) :
    ∃ field, f.putDescriptorName = .ok field ∧ bin = f.record (List.replicate 32 0) field := by
  rw [LocalFile.asBin] at h
  cases hname : f.putDescriptorName with
  | error e =>
    rw [hname] at h
    cases h
  | ok field =>
    rw [hname] at h
    exact ⟨field, rfl, (Except.ok.inj h).symm⟩

variable {files : List LocalFile} {bins : Bytes} {connId : Int32}

/-- Records that can all be written are written. -/
theorem asBins_encodes (h : ∀ f ∈ files, ∃ bin, f.asBin = .ok bin) :
    ∃ bins, asBins files = .ok bins ∧ Encodes files bins := by
  induction files with
  | nil => exact ⟨[], rfl, .nil⟩
  | cons f fs ih =>
    obtain ⟨bin, hbin⟩ := h f List.mem_cons_self
    obtain ⟨bins, hbins, henc⟩ := ih fun g hg => h g (List.mem_cons_of_mem _ hg)
    obtain ⟨field, hfield, rfl⟩ := asBin_ok hbin
    refine ⟨f.record (List.replicate 32 0) field ++ bins, ?_,
      .cons List.length_replicate hfield henc⟩
    rw [asBins, hbin, hbins]
    rfl

theorem Encodes.length (h : Encodes files bins) :
    bins.length = fileDescriptorSize * files.length := by
  induction h with
  | nil => rfl
  | cons hres hfield _ ih =>
    rw [List.length_append, LocalFile.record_length _ hres hfield, ih, List.length_cons,
      Nat.mul_succ, Nat.add_comm]

theorem putNonce_append (nonce : Nonce) {pre old : Bytes} (rest : Bytes) (hpre : pre.length = 8)
    (hold : old.length = 16) :
    putNonce nonce (pre ++ (old ++ rest)) = pre ++ (nonce.val ++ rest) := by
  have hboth : (pre ++ old).length = 24 := by rw [List.length_append, hpre, hold]
  rw [putNonce, if_pos (by simp only [List.length_append]; omega), List.take_left' hpre,
    ← List.append_assoc pre,
    List.drop_left' hboth, List.append_assoc]

/-- The nonce falls into the reserved space of the first record. -/
theorem putNonce_encodes (nonce : Nonce) (count : UInt32) (h : Encodes files bins) :
    ∃ bins', putNonce nonce (putU32LE count ++ bins) = putU32LE count ++ bins' ∧
      Encodes files bins' := by
  cases h with
  | nil => exact ⟨[], by rw [putNonce, if_neg (by simp)], .nil⟩
  | @cons f fs reserved field rest hres hfield henc =>
    -- eight bytes stand in front of the reserved space, and the nonce takes its first sixteen
    have htake : (reserved.take 16).length = 16 := by rw [List.length_take, hres]; rfl
    have hpre : (putU32LE count ++ putU32LE LocalFile.flags).length = 8 := by simp
    refine ⟨f.record (nonce.val ++ reserved.drop 16) field ++ rest, ?_, .cons ?_ hfield henc⟩
    · conv_lhs => rw [← List.take_append_drop 16 reserved]
      simp only [LocalFile.record, List.append_assoc]
      rw [← List.append_assoc (putU32LE count), putNonce_append nonce _ hpre htake,
        List.append_assoc]
    · rw [List.length_append, nonce.property, List.length_drop, hres]

theorem parseRecords_encodes {clipDataId : Int32} (h : Encodes files bins)
    {descs : List FileDescription} : parseRecords connId clipDataId files.length bins = .ok descs ↔
      (∀ f ∈ files, validateFileName (replaceBackslashes f.descriptorName) = .ok ()) ∧
        descs = files.map fun f => f.described connId clipDataId := by
  induction h generalizing descs with
  | nil => simp [parseRecords, eq_comm]
  | @cons f fs reserved field rest hres hfield _ ih =>
    rw [List.length_cons, parseRecords, LocalFile.parseFileDescriptor_record connId clipDataId rest
      hres hfield,
      List.forall_mem_cons, List.map_cons]
    cases hv : validateFileName (replaceBackslashes f.descriptorName) with
    | error e =>
      simp only [Except.map, reduceCtorEq, false_and, iff_false]
      exact nofun
    | ok u =>
      change (parseRecords connId clipDataId fs.length rest >>= fun files =>
        pure (f.described connId clipDataId :: files)) = .ok descs ↔ _
      cases hrest : parseRecords connId clipDataId fs.length rest with
      | error e =>
        constructor
        · exact nofun
        · rintro ⟨⟨-, hall⟩, -⟩
          rw [ih.mpr ⟨hall, rfl⟩] at hrest
          cases hrest
      | ok ds =>
        obtain ⟨hall, rfl⟩ := ih.mp hrest
        constructor
        · intro heq
          exact ⟨⟨rfl, hall⟩, (Except.ok.inj heq).symm⟩
        · rintro ⟨-, rfl⟩
          rfl

/-- Reading a list: the counter holds its length, and every name passes its check once more. -/
theorem parseFileDescriptors_encodes (h : Encodes files bins) {descs : List FileDescription} :
    parseFileDescriptors (putU32LE files.length.toUInt32 ++ bins) connId = .ok descs ↔
      files.length < 2 ^ 32 ∧ (∀ f ∈ files, validateFileName (replaceBackslashes f.descriptorName) =
        .ok ()) ∧
        descs = files.map fun f =>
          f.described connId (fileListId (putU32LE files.length.toUInt32 ++ bins)) := by
  have hlen := h.length
  have hcount : files.length.toUInt32.toNat = files.length % 2 ^ 32 := UInt32.toNat_ofNat'
  rw [fileDescriptorSize] at hlen
  rw [parseFileDescriptors, if_neg (by simp), getU32LE_putU32LE]
  simp only
  by_cases hfits : files.length < 2 ^ 32
  · rw [Nat.mod_eq_of_lt hfits] at hcount
    rw [hcount, if_neg (by omega : ¬bins.length ≠ 592 * files.length), ← parseRecords_encodes h]
    split
    · next hnone =>
      -- no bytes are left, so there are no files
      have hzero : files.length = 0 := by omega
      rw [hzero, parseRecords]
      simp
    · exact ⟨fun hparse => ⟨hfits, hparse⟩, fun hparse => hparse.2⟩
  · rw [if_neg (by omega), if_pos (by omega)]
    simp only [reduceCtorEq, false_iff, not_and]
    intro hlt
    exact absurd hlt hfits

/-- A description says of a file what the list was to say. -/
structure Described (pdu : Bytes) (f : LocalFile) (d : FileDescription) : Prop where
  name : d.name = f.descriptorName
  kind : d.kind = .directory ↔ f.isDir = true
  size : d.size = f.size
  perm : d.perm = f.perm.toUInt16
  lastModified : d.lastModified = f.lastWriteTime / 100 * 100
  clipDataId : d.clipDataId = fileListId pdu

theorem described_iff {pdu : Bytes} {f : LocalFile} (ht : f.TimeFits) :
    Described pdu f (f.described connId (fileListId pdu)) ↔ '\\' ∉ f.descriptorName := by
  constructor
  · intro h
    exact (replaceBackslashes_eq_self_iff _).mp h.name
  · intro h
    have htime := LocalFile.parseLastModified_win32Time ht
    rw [← (replaceBackslashes_eq_self_iff _)] at h
    rw [LocalFile.described, h, htime]
    refine ⟨rfl, ?_, rfl, rfl, rfl, rfl⟩
    cases f.isDir <;> simp

/-- The list is read as it was written. -/
def RoundTrips (nonce : Nonce) (files : List LocalFile) (connId : Int32) : Prop :=
  ∃ pdu descs, buildFileListPdu nonce files = .ok pdu ∧
    parseFileDescriptors pdu connId = .ok descs ∧
    List.Forall₂ (Described pdu) files descs

theorem buildFileListPdu_encodes (nonce : Nonce) (hbin : ∀ f ∈ files, ∃ bin, f.asBin = .ok bin) :
    ∃ bins, buildFileListPdu nonce files = .ok (putU32LE files.length.toUInt32 ++ bins) ∧
      Encodes files bins := by
  obtain ⟨zeros, hzeros, henc⟩ := asBins_encodes hbin
  obtain ⟨bins, hput, henc'⟩ := putNonce_encodes nonce files.length.toUInt32 henc
  refine ⟨bins, ?_, henc'⟩
  rw [buildFileListPdu, hzeros, ← hput]
  rfl

/-- **What a list costs to travel.** A list of files that could all be written, with times that fit,
is read as it was written, whatever the nonce, exactly when no name holds a `\\` and the counter
holds the length. -/
theorem file_list_round_trip (nonce : Nonce) (files : List LocalFile) (connId : Int32)
    (hbin : ∀ f ∈ files, ∃ bin, f.asBin = .ok bin) (htime : ∀ f ∈ files, f.TimeFits) :
    RoundTrips nonce files connId ↔
      (∀ f ∈ files, '\\' ∉ f.descriptorName) ∧ files.length < 2 ^ 32 := by
  obtain ⟨bins, hbuild, henc⟩ := buildFileListPdu_encodes nonce hbin
  constructor
  · rintro ⟨pdu, descs, hpdu, hparse, hall⟩
    rw [hbuild] at hpdu
    obtain rfl := Except.ok.inj hpdu
    obtain ⟨hlen, -, rfl⟩ := (parseFileDescriptors_encodes henc).mp hparse
    rw [List.forall₂_map_right_iff, List.forall₂_same] at hall
    exact ⟨fun f hf => (described_iff (htime f hf)).mp (hall f hf), hlen⟩
  · rintro ⟨hback, hlen⟩
    have hvalid : ∀ f ∈ files, validateFileName (replaceBackslashes f.descriptorName) = .ok () := by
      intro f hf
      obtain ⟨bin, hf'⟩ := hbin f hf
      obtain ⟨field, hfield, -⟩ := asBin_ok hf'
      rw [(replaceBackslashes_eq_self_iff _).mpr (hback f hf)]
      exact (LocalFile.putDescriptorName_ok hfield).1
    refine ⟨_, _, hbuild, (parseFileDescriptors_encodes henc).mpr ⟨hlen, hvalid, rfl⟩, ?_⟩
    rw [List.forall₂_map_right_iff, List.forall₂_same]
    exact fun f hf => (described_iff (htime f hf)).mpr (hback f hf)

/-- An empty file of 2023-11-14 22:13:20 with this name. -/
def plainFile (name : PathName) : LocalFile where
  path := '/' :: name
  handle := none
  offset := 0
  name := name
  descriptorName := name
  size := 0
  lastWriteTime := 1700000000000000000
  isDir := false
  perm := 0o644
  readOnly := false
  hidden := false
  system := false
  archive := false
  normal := true

theorem plainFile_timeFits (name : PathName) : (plainFile name).TimeFits :=
  ⟨(by decide : (0 : ℤ) ≤ 1700000000000000000),
    (by decide : (1700000000000000000 : ℤ) / 100 + ldapEpochDelta < 2 ^ 64)⟩

/-- A file in a folder, one beside it with the same times, and the folder's own name once more. -/
def severalFiles : List LocalFile :=
  ["folder/été.txt".toList, "folder/b".toList, "folder".toList].map plainFile

theorem file_list_round_trip_nested : RoundTrips ⟨List.replicate 16 7, rfl⟩ severalFiles 1 := by
  have hnames : ∀ f ∈ severalFiles, validatedDescriptorName f.name = .ok f.descriptorName := by
    decide +kernel
  refine (file_list_round_trip _ severalFiles _ (fun f hf => ?_) fun f hf => ?_).mpr
    ⟨by decide, by decide⟩
  · obtain ⟨name, hname, rfl⟩ := List.mem_map.mp hf
    exact LocalFile.asBin_of_validated (hnames _ hf)
  · obtain ⟨name, -, rfl⟩ := List.mem_map.mp hf
    exact plainFile_timeFits name

/-- The file `a\\b` of a Unix system can be written to a list, and comes out of it as `b` in a
directory `a`. -/
theorem backslash_is_separator :
    (∃ bin, (plainFile "a\\b".toList).asBin = .ok bin) ∧ (plainFile "a\\b".toList).TimeFits ∧
      ∀ nonce, ¬RoundTrips nonce [plainFile "a\\b".toList] 1 := by
  have hname : validatedDescriptorName "a\\b".toList =
      .ok (plainFile "a\\b".toList).descriptorName := by
    decide +kernel
  have hbin := LocalFile.asBin_of_validated hname
  refine ⟨hbin, plainFile_timeFits _, ?_⟩
  rintro nonce ⟨pdu, descs, hpdu, hparse, hall⟩
  obtain ⟨bins, hbuild, henc⟩ := buildFileListPdu_encodes nonce (List.forall_mem_singleton.mpr hbin)
  rw [hbuild] at hpdu
  obtain rfl := Except.ok.inj hpdu
  obtain ⟨-, -, rfl⟩ := (parseFileDescriptors_encodes henc).mp hparse
  rw [List.forall₂_map_right_iff, List.forall₂_same] at hall
  have hkept : replaceBackslashes "a\\b".toList = "a\\b".toList := (hall _ List.mem_cons_self).name
  exact absurd hkept (by decide)

end Clipboard
end BgDesk
