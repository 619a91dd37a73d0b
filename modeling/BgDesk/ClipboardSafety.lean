import BgDesk.Checked
import BgDesk.ClipboardList
import BgDesk.PathComponents

/-!
# What the list reader asks of the machine

`parse_file_descriptors` once more, with all that can panic: reading past the end of the buffer,
cutting a slice out of it, arithmetic on 64-bit `usize`, `u64` and `u32`, and adding a time to the
epoch. `checked_parseFileDescriptors` says that it never does, whatever bytes a peer sends, and that
it is the reader of `ClipboardList.lean`.

* `Checked` — the reader, with nothing where the machine would panic;
* `Accepted` — a name that can be appended to a directory: it is normalized, and leads nowhere else;
* `reader_safe` — no panic, the length that is read, and the names.
-/

namespace BgDesk
namespace Clipboard
namespace Checked

/-! ## The buffer -/

/-- `get_u32_le`. -/
def getU32LE (bytes : Bytes) : Option (UInt32 × Bytes) :=
  if bytes.length < 4 then none else some (Clipboard.getU32LE bytes)

/-- `get_u64_le`. -/
def getU64LE (bytes : Bytes) : Option (UInt64 × Bytes) :=
  if bytes.length < 8 then none else some (Clipboard.getU64LE bytes)

/-- `advance`. -/
def advance (n : ℕ) (bytes : Bytes) : Option Bytes :=
  if bytes.length < n then none else some (bytes.drop n)

/-- `&block[..n]`. -/
def slice (n : ℕ) (block : Bytes) : Option Bytes :=
  if block.length < n then none else some (block.take n)

/-! ## The time -/

/-- `Duration::new`: seconds and nanoseconds. -/
def duration (secs nanos : ℕ) : Option (ℕ × ℕ) := do
  let secs ← checkedAdd 64 secs (nanos / 1000000000)
  return (secs, nanos % 1000000000)

/-- `SystemTime::UNIX_EPOCH + duration`: the seconds are an `i64`. -/
def sinceEpoch (d : ℕ × ℕ) : Option ℤ :=
  if d.1 < 2 ^ 63 then some ((d.1 * 1000000000 + d.2 : ℕ) : ℤ) else none

/-- The time of the last write. -/
def parseLastModified (flags : UInt32) (lastWriteTime : UInt64) : Option ℤ :=
  if flags &&& flagsFdLastWrite ≠ 0 ∧ ldapEpochDelta ≤ lastWriteTime.toNat then do
    let since ← checkedSub lastWriteTime.toNat ldapEpochDelta
    let nanos ← checkedMul 32 (since % 10000000) 100
    let d ← duration (since / 10000000) nanos
    sinceEpoch d
  else some 0

/-! ## The reader -/

/-- The name in its field. -/
def parseName (block : Bytes) : Option (Except CliprdrError PathName) :=
  match (Utf16.ofBytes block).findIdx? (fun unit => unit = 0) with
  | none => some (.error (.invalidRequest "clipboard file name is not null-terminated"))
  | some unit => do
    let nameEnd ← checkedMul 64 unit 2
    let name ← slice nameEnd block
    match Utf16.decode (Utf16.ofBytes name) with
    | none => return .error .conversionFailure
    | some wstr => return .ok wstr

/-- `((file_size_high as u64) << 32) + file_size_low as u64`. -/
def parseSize (fileSizeHigh fileSizeLow : UInt32) : Option UInt64 := do
  let size ← checkedAdd 64 (fileSizeHigh.toUInt64 <<< 32).toNat fileSizeLow.toUInt64.toNat
  return UInt64.ofNat size

/-- `parse_file_descriptor`. -/
def parseFileDescriptor (connId clipDataId : Int32) (bytes : Bytes) :
    Option (Except CliprdrError (FileDescription × Bytes)) := do
  let (flags, bytes) ← getU32LE bytes
  let bytes ← advance 32 bytes
  let (attributes, bytes) ← getU32LE bytes
  let bytes ← advance 12 bytes
  let (perm, bytes) ← getU32LE bytes
  let (lastWriteTime, bytes) ← getU64LE bytes
  let (fileSizeHigh, bytes) ← getU32LE bytes
  let (fileSizeLow, bytes) ← getU32LE bytes
  let block := bytes
  let bytes ← advance fileNameFieldSize bytes
  let block ← slice fileNameFieldSize block
  match ← parseName block with
  | .error e => return .error e
  | .ok wstr =>
    if flags &&& flagsFdAttributes = 0 then
      return .error (.invalidRequest "file description must have valid attributes")
    else
      let size ← parseSize fileSizeHigh fileSizeLow
      let lastModified ← parseLastModified flags lastWriteTime
      let name := replaceBackslashes wstr
      match validateFileName name with
      | .error e => return .error e
      | .ok () =>
        return .ok ({ connId
                      name
                      kind := if attributes &&& 0x10 ≠ 0 then .directory else .file
                      atime := lastModified
                      lastModified
                      lastMetadataChanged := lastModified
                      creationTime := lastModified
                      size
                      perm := parsePerm flags attributes perm.toUInt16
                      clipDataId }, bytes)

/-- The loop of `parse_file_descriptors`. -/
def parseRecords (connId clipDataId : Int32) :
    ℕ → Bytes → Option (Except CliprdrError (List FileDescription))
  | 0, _ => some (.ok [])
  | count + 1, data => do
    match ← parseFileDescriptor connId clipDataId data with
    | .error e => return .error e
    | .ok (desc, data) =>
      match ← parseRecords connId clipDataId count data with
      | .error e => return .error e
      | .ok files => return .ok (desc :: files)

/-- `parse_file_descriptors`. -/
def parseFileDescriptors (pdu : Bytes) (connId : Int32) :
    Option (Except CliprdrError (List FileDescription)) :=
  if pdu.length <
    4 then some (.error (.invalidRequest "file descriptor request with infficient length"))
  else do
    let (count, data) ← getU32LE pdu
    if data.length = 0 ∧ count = 0 then return .ok []
    else
      let expected ← checkedMul 64 592 count.toNat
      if data.length ≠ expected then
        return .error (.invalidRequest "file descriptor request with invalid length")
      else parseRecords connId (fileListId pdu) count.toNat data

/-! ## It does not panic -/

variable {bytes : Bytes}

theorem getU32LE_eq (h : 4 ≤ bytes.length) : getU32LE bytes = some (Clipboard.getU32LE bytes) :=
  if_neg (Nat.not_lt.mpr h)

theorem getU64LE_eq (h : 8 ≤ bytes.length) : getU64LE bytes = some (Clipboard.getU64LE bytes) :=
  if_neg (Nat.not_lt.mpr h)

theorem advance_eq {n : ℕ} (h : n ≤ bytes.length) : advance n bytes = some (bytes.drop n) :=
  if_neg (Nat.not_lt.mpr h)

theorem slice_eq {n : ℕ} {block : Bytes} (h : n ≤ block.length) :
    slice n block = some (block.take n) :=
  if_neg (Nat.not_lt.mpr h)

/-- Every 64-bit time is within reach of the epoch. -/
theorem parseLastModified_eq (flags : UInt32) (lastWriteTime : UInt64) :
    parseLastModified flags lastWriteTime =
      some (Clipboard.parseLastModified flags lastWriteTime) := by
  rw [parseLastModified, Clipboard.parseLastModified]
  split
  · next h =>
    have hlt : lastWriteTime.toNat < 2 ^ 64 := lastWriteTime.toNat_lt
    generalize hsince : lastWriteTime.toNat - ldapEpochDelta = since
    have hsub : checkedSub lastWriteTime.toNat ldapEpochDelta = some since := by
      rw [checkedSub, if_pos h.2, hsince]
    have hnanos : checkedMul 32 (since % 10000000) 100 = some (since % 10000000 * 100) := by
      rw [checkedMul, if_pos (by omega)]
    have hsecs : checkedAdd 64 (since / 10000000) (since % 10000000 * 100 / 1000000000) =
        some (since / 10000000) := by
      have hzero : since % 10000000 * 100 / 1000000000 = 0 := by omega
      rw [hzero, checkedAdd, Nat.add_zero, if_pos (by omega)]
    have hd : duration (since / 10000000) (since % 10000000 * 100) =
        some (since / 10000000, since % 10000000 * 100) := by
      have hmod : since % 10000000 * 100 % 1000000000 = since % 10000000 * 100 :=
        Nat.mod_eq_of_lt (by omega)
      rw [duration, hsecs, hmod]
      rfl
    rw [hsub, Option.bind_eq_bind, Option.bind_some, hnanos, Option.bind_eq_bind,
      Option.bind_some, hd,
      Option.bind_some, sinceEpoch, if_pos (by dsimp only; omega)]
  · rfl

/-- A unit that is found is in the field, so its name is. -/
theorem parseName_eq {block : Bytes} (h : block.length ≤ fileNameFieldSize) :
    parseName block = some (Clipboard.parseName block) := by
  rw [parseName, Clipboard.parseName]
  cases hend : (Utf16.ofBytes block).findIdx? (fun unit => unit = 0) with
  | none => rfl
  | some unit =>
    have hlt : unit * 2 ≤ block.length := by
      have hunit := (List.findIdx?_eq_some_iff_getElem.mp hend).1
      have hunits := Utf16.two_mul_length_ofBytes_le block
      omega
    have hmul : checkedMul 64 unit 2 = some (unit * 2) := by
      rw [fileNameFieldSize, fileNameCodeUnits] at h
      exact if_pos (by omega)
    dsimp only
    rw [hmul]
    dsimp only [Option.bind_eq_bind, Option.bind_some]
    rw [slice_eq hlt]
    dsimp only [Option.bind_some]
    cases Utf16.decode (Utf16.ofBytes (block.take (unit * 2))) with
    | none => rfl
    | some wstr => rfl

theorem parseSize_eq (fileSizeHigh fileSizeLow : UInt32) :
    parseSize fileSizeHigh fileSizeLow = some ((fileSizeHigh.toUInt64 <<< 32) +
      fileSizeLow.toUInt64) := by
  have hhigh := fileSizeHigh.toNat_lt
  have hlow := fileSizeLow.toNat_lt
  have hshift : (fileSizeHigh.toUInt64 <<< 32).toNat = fileSizeHigh.toNat * 2 ^ 32 := by
    rw [UInt64.toNat_shiftLeft, UInt32.toNat_toUInt64, Nat.shiftLeft_eq,
      show (32 : UInt64).toNat % 64 = 32 from rfl]
    exact Nat.mod_eq_of_lt (by omega)
  have hsum : checkedAdd 64 (fileSizeHigh.toUInt64 <<< 32).toNat fileSizeLow.toUInt64.toNat =
      some ((fileSizeHigh.toUInt64 <<< 32).toNat + fileSizeLow.toUInt64.toNat) := by
    refine if_pos ?_
    rw [hshift, UInt32.toNat_toUInt64]
    omega
  rw [parseSize, hsum]
  refine congrArg some (UInt64.toNat_inj.mp ?_)
  rw [UInt64.toNat_ofNat', UInt64.toNat_add]

/-- One record, where there is one: its 592 bytes are read one field after the other. -/
theorem parseFileDescriptor_eq (connId clipDataId : Int32) (h : 592 ≤ bytes.length) :
    parseFileDescriptor connId clipDataId bytes =
      some (Clipboard.parseFileDescriptor connId clipDataId bytes) := by
  have hleft : ∀ n ≤ 72, fileNameFieldSize ≤ (bytes.drop n).length := by
    intro n hn
    rw [List.length_drop, show fileNameFieldSize = 520 from rfl]
    omega
  rw [parseFileDescriptor, getU32LE_eq (by omega)]
  dsimp only [Option.bind_eq_bind, Option.bind_some, Clipboard.getU32LE, readLE]
  rw [advance_eq (le_trans (by decide) (hleft 4 (by decide)))]
  dsimp only [Option.bind_some]
  rw [List.drop_drop, getU32LE_eq (le_trans (by decide) (hleft _ (by decide)))]
  dsimp only [Option.bind_some, Clipboard.getU32LE, readLE]
  rw [List.drop_drop, advance_eq (le_trans (by decide) (hleft _ (by decide)))]
  dsimp only [Option.bind_some]
  rw [List.drop_drop, getU32LE_eq (le_trans (by decide) (hleft _ (by decide)))]
  dsimp only [Option.bind_some, Clipboard.getU32LE, readLE]
  rw [List.drop_drop, getU64LE_eq (le_trans (by decide) (hleft _ (by decide)))]
  dsimp only [Option.bind_some, Clipboard.getU64LE, readLE]
  rw [List.drop_drop, getU32LE_eq (le_trans (by decide) (hleft _ (by decide)))]
  dsimp only [Option.bind_some, Clipboard.getU32LE, readLE]
  rw [List.drop_drop, getU32LE_eq (le_trans (by decide) (hleft _ (by decide)))]
  dsimp only [Option.bind_some, Clipboard.getU32LE, readLE]
  rw [List.drop_drop, advance_eq (hleft _ (by decide))]
  dsimp only [Option.bind_some]
  rw [slice_eq (hleft _ (by decide))]
  dsimp only [Option.bind_some]
  rw [parseName_eq (List.length_take_le _ _)]
  dsimp only [Option.bind_some]
  rw [Clipboard.parseFileDescriptor]
  dsimp only [Clipboard.getU32LE, Clipboard.getU64LE, readLE]
  simp only [List.drop_drop]
  cases Clipboard.parseName ((bytes.drop (4 + 32 + 4 + 12 + 4 + 8 + 4 + 4)).take
    fileNameFieldSize) with
  | error e => rfl
  | ok wstr =>
    have hflags : ∀ x : UInt32, x &&& flagsFdAttributes = 0 ∨ x &&& flagsFdAttributes ≠ 0 :=
      fun x => eq_or_ne _ _
    rcases hflags (ofLittleEndian (bytes.take 4)).toUInt32 with hflags | hflags
    · dsimp only [bind, Except.bind]
      rw [if_pos hflags, if_pos hflags]
      rfl
    · dsimp only [bind, Except.bind]
      rw [if_neg hflags, if_neg hflags, parseSize_eq, parseLastModified_eq]
      dsimp only [Option.bind_some]
      cases validateFileName (replaceBackslashes wstr) with
      | error e => rfl
      | ok u => rfl

end Checked

/-! ## What is read -/

/-- A record that was read: its bytes are gone, and the name has passed its check. -/
theorem parseFileDescriptor_ok {connId clipDataId : Int32} {bytes rest : Bytes}
    {d : FileDescription} (h : parseFileDescriptor connId clipDataId bytes = .ok (d, rest)) :
    rest.length = bytes.length - fileDescriptorSize ∧ validateFileName d.name = .ok () ∧
      '\\' ∉ d.name := by
  rw [parseFileDescriptor] at h
  dsimp only [getU32LE, getU64LE, readLE] at h
  simp only [List.drop_drop] at h
  cases hname :
    parseName ((bytes.drop (4 + 32 + 4 + 12 + 4 + 8 + 4 + 4)).take fileNameFieldSize) with
  | error e =>
    rw [hname] at h
    cases h
  | ok wstr =>
    rw [hname] at h
    change (if _ then _ else _) = _ at h
    split at h
    · cases h
    · cases hvalid : validateFileName (replaceBackslashes wstr) with
      | error e =>
        rw [hvalid] at h
        cases h
      | ok u =>
        rw [hvalid] at h
        obtain ⟨rfl, rfl⟩ := Prod.mk.inj (Except.ok.inj h)
        refine ⟨?_, hvalid, ?_⟩
        · rw [List.length_drop]
          rfl
        · intro hback
          obtain ⟨c, -, hc⟩ := List.mem_map.mp hback
          split at hc
          · exact absurd hc (by decide)
          · next hne => exact hne hc

theorem checked_parseRecords (connId clipDataId : Int32) (count : ℕ) :
    ∀ data : Bytes, data.length = 592 * count →
      Checked.parseRecords connId clipDataId count data =
        some (parseRecords connId clipDataId count data) := by
  induction count with
  | zero => exact fun _ _ => rfl
  | succ count ih =>
    intro data hlen
    rw [Checked.parseRecords, parseRecords, Checked.parseFileDescriptor_eq connId clipDataId
      (by omega)]
    dsimp only [Option.bind_eq_bind, Option.bind_some]
    cases hdesc : parseFileDescriptor connId clipDataId data with
    | error e => rfl
    | ok read =>
      obtain ⟨desc, rest⟩ := read
      have hrest := (parseFileDescriptor_ok hdesc).1
      rw [fileDescriptorSize] at hrest
      dsimp only [bind, Except.bind]
      rw [ih rest (by omega)]
      cases parseRecords connId clipDataId count rest with
      | error e => rfl
      | ok files => rfl

/-- **No panic**: the machine does what the reader says, for all bytes. -/
theorem checked_parseFileDescriptors (pdu : Bytes) (connId : Int32) :
    Checked.parseFileDescriptors pdu connId = some (parseFileDescriptors pdu connId) := by
  rw [Checked.parseFileDescriptors, parseFileDescriptors]
  by_cases hshort : pdu.length < 4
  · rw [if_pos hshort, if_pos hshort]
  · have hmul : checkedMul 64 592 (getU32LE pdu).1.toNat = some (592 * (getU32LE pdu).1.toNat) := by
      have hlt := (getU32LE pdu).1.toNat_lt
      exact if_pos (by omega)
    rw [if_neg hshort, if_neg hshort, Checked.getU32LE_eq (by omega)]
    dsimp only [Option.bind_eq_bind, Option.bind_some]
    split
    · rfl
    · rw [hmul]
      dsimp only [Option.bind_some]
      split
      · rfl
      · next hlen => exact checked_parseRecords _ _ _ _ (not_not.mp hlen)

/-! ## The names -/

/-- A name that can be appended to a directory: its components are its parts, and none of them leads
elsewhere. -/
structure Accepted (name : PathName) : Prop where
  nonempty : name ≠ []
  relative : name.head? ≠ some '/'
  components : name.pathComponents = (name.splitOn '/').map .normal
  parts : ∀ part ∈ name.splitOn '/', part ≠ [] ∧ part ≠ ['.'] ∧ part ≠ ['.', '.']
  nul : '\x00' ∉ name
  backslash : '\\' ∉ name
  drive : hasDrive name = false

theorem normalized_of_valid {name : PathName} (h : validateFileName name = .ok ()) :
    name.Normalized := by
  obtain ⟨hnul, hempty⟩ := validateFileName_ok h
  rw [validateFileName] at h
  split at h
  · cases h
  · next hnorm =>
    intro part hpart
    have hne : part ≠ [] := fun heq => hempty (heq ▸ hpart)
    refine ⟨hne, fun heq => hnorm (.inr (.inr (heq ▸ hpart))), ?_⟩
    rintro rfl
    have hup : ['.', '.'] ∈ name.segments := List.mem_filter.mpr ⟨hpart, decide_eq_true hne⟩
    cases hno : Fs.validateFileNameNoTraversal name with
    | error e =>
      rw [hno] at h
      cases h
    | ok u =>
      rw [Fs.validateFileNameNoTraversal, if_neg hnul, if_pos hup] at hno
      cases hno

theorem accepted_of_valid {name : PathName} (h : validateFileName name = .ok ())
    (hback : '\\' ∉ name) : Accepted name := by
  have hnorm := normalized_of_valid h
  refine ⟨hnorm.ne_nil, hnorm.relative, hnorm.pathComponents, hnorm, (validateFileName_ok h).1,
    hback, ?_⟩
  cases hdrive : hasDrive name with
  | false => rfl
  | true =>
    rw [validateFileName, if_pos (.inl hdrive)] at h
    cases h

theorem parseRecords_ok {connId clipDataId : Int32} {count : ℕ} :
    ∀ {data : Bytes} {files : List FileDescription},
    parseRecords connId clipDataId count data = .ok files → files.length = count ∧
      ∀ f ∈ files, Accepted f.name := by
  induction count with
  | zero =>
    intro data files h
    obtain rfl := Except.ok.inj h
    exact ⟨rfl, nofun⟩
  | succ count ih =>
    intro data files h
    rw [parseRecords] at h
    cases hdesc : parseFileDescriptor connId clipDataId data with
    | error e =>
      rw [hdesc] at h
      cases h
    | ok read =>
      obtain ⟨desc, rest⟩ := read
      obtain ⟨-, hvalid, hback⟩ := parseFileDescriptor_ok hdesc
      rw [hdesc] at h
      dsimp only [bind, Except.bind] at h
      cases hfiles : parseRecords connId clipDataId count rest with
      | error e =>
        rw [hfiles] at h
        cases h
      | ok more =>
        rw [hfiles] at h
        obtain rfl := Except.ok.inj h
        obtain ⟨hlen, hnames⟩ := ih hfiles
        exact ⟨congrArg Nat.succ hlen, List.forall_mem_cons.mpr
          ⟨accepted_of_valid hvalid hback, hnames⟩⟩

/-- **The reader is safe**: whatever the bytes, it does not panic; a list it reads is as long as its
counter says, and its bytes are the counter and that many records; and every name of it can be
appended to a directory. -/
theorem reader_safe (pdu : Bytes) (connId : Int32) :
    Checked.parseFileDescriptors pdu connId = some (parseFileDescriptors pdu connId) ∧
      ∀ files, parseFileDescriptors pdu connId = .ok files →
        files.length = ofLittleEndian (pdu.take 4) ∧ pdu.length = 4 + 592 * files.length ∧
          ∀ f ∈ files, Accepted f.name := by
  refine ⟨checked_parseFileDescriptors pdu connId, fun files h => ?_⟩
  rw [parseFileDescriptors] at h
  split at h
  · cases h
  · next hshort =>
    have hcount : (getU32LE pdu).1.toNat = ofLittleEndian (pdu.take 4) := by
      have hlt := ofLittleEndian_lt (pdu.take 4)
      rw [List.length_take_of_le (by omega)] at hlt
      exact UInt32.toNat_ofNat_of_lt' hlt
    have hdata : (getU32LE pdu).2.length = pdu.length - 4 := List.length_drop
    dsimp only at h
    split at h
    · next hnone =>
      obtain rfl := Except.ok.inj h
      rw [hnone.2] at hcount
      exact ⟨hcount, by rw [List.length_nil]; omega, by rintro f ⟨⟩⟩
    · split at h
      · cases h
      · next hlen =>
        obtain ⟨hfiles, hnames⟩ := parseRecords_ok h
        exact ⟨hfiles.trans hcount, by omega, hnames⟩

end Clipboard
end BgDesk
