import BgDesk.ClipboardFiles
import BgDesk.ClipboardTree

/-!
# Reading copied files piece by piece

A listed file is opened when it is first read, or when the one before it has been, and stays open
until its end or an error. It keeps the offset behind the last piece beside the handle, and a piece
that starts there is read without seeking. So a piece is the one asked for only as long as the
handle stands where the offset says.

* `LocalFile.tryOpen`, `readNode` — how a file gets into a list, and how a mounted one asks for a
  piece of it;
* `Contents`, `Disk.Steady` — files that keep what is in them, whatever else fails or goes;
* `LocalFile.InStep` — a file that is closed has offset 0, and one that is open stands at its
  offset;
* `ListCall` — what is done to a list, in any order, and `pieces_exact` — all pieces that are read.
-/

namespace BgDesk
namespace Clipboard

/-! ## How a file gets into a list -/

/-- `std::fs::Metadata`. -/
structure Metadata where
  len : UInt64
  isDir : Bool
  modified : Option ℤ
  mode : UInt32
  deriving DecidableEq

/-- `LocalFile::try_open`, from where the root has been taken off the path. -/
def LocalFile.tryOpen (descriptorPath path : PathName) (metadata : Option Metadata) :
    Except CliprdrError LocalFile := do
  let descriptorName ← validatedDescriptorName descriptorPath
  match metadata with
  | none => .error (.fileError path)
  | some mt =>
    let readOnly := mt.mode &&& 0o222 = 0
    let system := false
    let hidden := path.head? = some '.'
    let archive := false
    pure {
      path
      handle := none
      offset := 0
      name := (path.dropWhile fun c => c = '/').map fun c => if c = '/' then '\\' else c
      descriptorName
      size := mt.len
      lastWriteTime := mt.modified.getD 0
      isDir := mt.isDir
      perm := mt.mode
      readOnly
      hidden
      system
      archive
      normal := !(mt.isDir || readOnly || system || hidden || archive) }

/-! ## How a mounted file is read -/

/-- `ClipboardFile::FileContentsRequest`, as it travels. -/
structure FileContentsMessage where
  streamId : Int32
  listIndex : Int32
  dwFlags : Int32
  nPositionLow : Int32
  nPositionHigh : Int32
  cbRequested : Int32
  haveClipDataId : Bool
  clipDataId : Int32
  deriving DecidableEq

/-- The request `read_node` sends, with the stream id it has drawn. -/
def readNode (streamId : Int32) (node : FuseNode) (offset : Int64) (size : UInt32) :
    FileContentsMessage where
  streamId
  listIndex := Int32.ofNat node.index
  dwFlags := 2
  nPositionLow := (offset &&& 0xFFFFFFFF).toInt32
  nPositionHigh := (offset >>> 32).toInt32
  cbRequested := size.toInt32
  haveClipDataId := true
  clipDataId := node.clipDataId

/-- What a connection passes on to `read_file_contents`. -/
def FileContentsMessage.received (m : FileContentsMessage) (connId : Int32) : ReadRequest where
  connId
  streamId := m.streamId
  listIndex := m.listIndex
  dwFlags := m.dwFlags
  nPositionLow := m.nPositionLow
  nPositionHigh := m.nPositionHigh
  cbRequested := m.cbRequested
  clipDataId := if m.haveClipDataId then some m.clipDataId else none

/-- An offset travels in two halves of 32 bits. -/
theorem offset_halves (offset : Int64) : ((offset >>> 32).toInt32.toInt64.toUInt64 <<< 32)
      ||| (offset &&& 0xFFFFFFFF).toInt32.toUInt32.toUInt64 =
      offset.toUInt64 := by
  refine UInt64.toBitVec_inj.mp (BitVec.eq_of_getLsbD_eq fun i hi => ?_)
  have hhigh : ((offset >>> 32).toInt32.toInt64.toUInt64 <<< 32 : UInt64).toBitVec =
      ((offset.toBitVec.sshiftRight 32).signExtend 32).signExtend 64 <<< 32 := rfl
  have hlow : (offset &&& 0xFFFFFFFF).toInt32.toUInt32.toUInt64.toBitVec =
      ((offset.toBitVec &&& 0xFFFFFFFF#64).signExtend 32).setWidth 64 := rfl
  have hmask : (0xFFFFFFFF#64).getLsbD i = decide (i < 32) := by
    revert i
    decide
  rw [UInt64.toBitVec_or, hhigh, hlow, BitVec.getLsbD_or, BitVec.getLsbD_shiftLeft,
    BitVec.getLsbD_setWidth]
  simp only [BitVec.getLsbD_signExtend, BitVec.getLsbD_and, BitVec.getLsbD_sshiftRight, hmask]
  change _ = offset.toBitVec.getLsbD i
  by_cases h : i < 32
  · simp [h, hi]
  · have hback : 32 + (i - 32) = i := by omega
    simp [h, hi, hback, show i - 32 < 32 by
      omega, show i - 32 < 64 by omega, show ¬64 ≤ i - 32 by omega]

/-- A request is decoded as it was meant, and asks for the file of its node in every list that has
fewer than 2³¹ files. -/
theorem readNode_received (streamId connId : Int32) (node : FuseNode) (offset : Int64)
    (size : UInt32) :
    ((readNode streamId node offset size).received connId).fcr = .ok (.range streamId
      ((readNode streamId node offset size).received connId).fileIdx offset.toUInt64
        size.toUInt64) := by
  generalize hr : (readNode streamId node offset size).received connId = r
  have hflags : r.dwFlags = 2 := hr ▸ rfl
  have hhigh : r.nPositionHigh = (offset >>> 32).toInt32 := hr ▸ rfl
  have hlow : r.nPositionLow = (offset &&& 0xFFFFFFFF).toInt32 := hr ▸ rfl
  have hlength : r.cbRequested.toUInt32 = size := hr ▸ rfl
  have hstream : r.streamId = streamId := hr ▸ rfl
  rw [ReadRequest.fcr, hhigh, hlow, offset_halves, hlength, hstream]
  dsimp only
  rw [if_neg (by rw [hflags]; decide), if_pos hflags]

/-! ## Files that keep what is in them -/

/-- What is in the files, by their paths and by the inodes they are open as. -/
structure Contents where
  path : PathName → Bytes
  inode : ℕ → Bytes

/-- The file system at one time: everything may fail, but what is read is what is there. -/
structure Disk.Steady (c : Contents) (disk : Disk) : Prop where
  openFile : ∀ path inode, disk.openFile path = some inode → c.inode inode = c.path path
  readExact : ∀ inode position length data, disk.readExact inode position length = some data →
    data = ((c.inode inode).drop position).take length ∧ data.length = length
  constructFileList : ∀ paths files, disk.constructFileList paths = .ok files → ∀ f ∈ files,
    ∃ descriptorPath mt, LocalFile.tryOpen descriptorPath f.path (some mt) = .ok f ∧
      (mt.isDir = false → mt.len.toNat = (c.path f.path).length)

/-- A closed file has offset 0, and one that is open stands at its offset, in the file that is at
its path. -/
structure LocalFile.InStep (c : Contents) (f : LocalFile) : Prop where
  size : f.isDir = false → f.size.toNat = (c.path f.path).length
  directory : f.isDir = true → f.handle = none
  closed : f.handle = none → f.offset = 0
  opened : ∀ handle, f.handle = some handle → handle.position = f.offset ∧
    c.inode handle.inode = c.path f.path

section
variable {c : Contents} {disk : Disk} {f f' : LocalFile}

theorem tryOpen_inStep {descriptorPath : PathName} {mt : Metadata}
    (h : LocalFile.tryOpen descriptorPath f.path (some mt) = .ok f)
    (hsize : mt.isDir = false → mt.len.toNat = (c.path f.path).length) : f.InStep c := by
  rw [LocalFile.tryOpen] at h
  cases hname : validatedDescriptorName descriptorPath with
  | error e =>
    rw [hname] at h
    cases h
  | ok descriptorName =>
    rw [hname] at h
    have hf := Except.ok.inj h
    have hlen : mt.len = f.size := congrArg LocalFile.size hf
    have hdir : mt.isDir = f.isDir := congrArg LocalFile.isDir hf
    have hhandle : none = f.handle := congrArg LocalFile.handle hf
    have hoffset : 0 = f.offset := congrArg LocalFile.offset hf
    refine ⟨?_, fun _ => hhandle.symm, fun _ => hoffset.symm, fun handle hsome => ?_⟩
    · rwa [hlen, hdir] at hsize
    · rw [← hhandle] at hsome
      cases hsome

/-- Closing a file at its start. -/
theorem LocalFile.InStep.close (h : f.InStep c) : InStep c { f with offset := 0, handle := none } :=
  ⟨h.size, fun _ => rfl, fun _ => rfl, by rintro handle ⟨⟩⟩

theorem loadHandle_inStep (hdisk : disk.Steady c) (h : f.InStep c)
    (hload : f.loadHandle disk = .ok f') : f'.InStep c ∧ (f.isDir = false → f'.handle ≠ none) := by
  rw [LocalFile.loadHandle] at hload
  split at hload
  · next hnew =>
    obtain ⟨hdir, hnone⟩ := (Bool.and_eq_true _ _).mp hnew
    rw [Option.isNone_iff_eq_none] at hnone
    split at hload
    · cases hload
    · next inode hopen =>
      obtain rfl := Except.ok.inj hload
      refine ⟨⟨h.size, fun hd => ?_, ?_, ?_⟩, fun _ => Option.some_ne_none _⟩
      · rw [show f.isDir = true from hd] at hdir
        cases hdir
      · rintro ⟨⟩
      · rintro handle ⟨⟩
        exact ⟨(h.closed hnone).symm, hdisk.openFile _ _ hopen⟩
  · next hnew =>
    obtain rfl := Except.ok.inj hload
    refine ⟨h, fun hdir hnone => hnew ?_⟩
    rw [hdir, hnone]
    rfl

/-- **One read**: the bytes from the offset on, and the file in step again. -/
theorem readExactAt_exact (hdisk : disk.Steady c) (h : f.InStep c) (length offset : ℕ) :
    (f.readExactAt disk length offset).2.InStep c ∧
      ∀ data, (f.readExactAt disk length offset).1 = .ok data →
        f.isDir = false ∧ data = ((c.path f.path).drop offset).take length ∧
          data.length = length := by
  rw [LocalFile.readExactAt]
  cases hload : f.loadHandle disk with
  | error e => exact ⟨h, by rintro data ⟨⟩⟩
  | ok f' =>
    obtain ⟨hf', -⟩ := loadHandle_inStep hdisk h hload
    have hrest := loadHandle_atRest disk hload
    have hpath : f'.path = f.path := show f'.atRest.path = f.atRest.path by rw [hrest]
    have hdir : f'.isDir = f.isDir := show f'.atRest.isDir = f.atRest.isDir by rw [hrest]
    dsimp only
    cases hhandle : f'.handle with
    | none => exact ⟨hf', by rintro data ⟨⟩⟩
    | some handle =>
      obtain ⟨hposition, hinode⟩ := hf'.opened handle hhandle
      have hnotdir : f.isDir = false := by
        cases hd : f.isDir with
        | false => rfl
        | true =>
          rw [hf'.directory (hdir.trans hd)] at hhandle
          cases hhandle
      -- sought or not, the handle stands where the piece starts
      have hseek : (if offset ≠ f'.offset then offset else handle.position) = offset := by
        split
        · rfl
        · next heq => rw [hposition, not_not.mp heq]
      dsimp only
      rw [hseek]
      cases hread : disk.readExact handle.inode offset length with
      | none => exact ⟨hf'.close, by rintro data ⟨⟩⟩
      | some data =>
        obtain ⟨hdata, hlen⟩ := hdisk.readExact _ _ _ _ hread
        rw [hinode, hpath] at hdata
        dsimp only
        split
        · refine ⟨hf'.close, ?_⟩
          rintro _ ⟨⟩
          exact ⟨hnotdir, hdata, hlen⟩
        · refine ⟨⟨hf'.size, fun hd => ?_, ?_, ?_⟩, ?_⟩
          · rw [hdir.symm.trans hd] at hnotdir
            cases hnotdir
          · rintro ⟨⟩
          · rintro _ ⟨⟩
            exact ⟨rfl, hinode⟩
          · rintro _ ⟨⟩
            exact ⟨hnotdir, hdata, hlen⟩

theorem preloadNext_inStep (hdisk : disk.Steady c) {fs : List LocalFile}
    (h : ∀ f ∈ fs, f.InStep c) : ∀ f ∈ preloadNext disk fs, f.InStep c := by
  induction fs with
  | nil => exact h
  | cons f fs ih =>
    obtain ⟨hf, hfs⟩ := List.forall_mem_cons.mp h
    rw [preloadNext]
    split
    · exact List.forall_mem_cons.mpr ⟨hf, ih hfs⟩
    · split
      · exact h
      · next hload => exact List.forall_mem_cons.mpr ⟨(loadHandle_inStep hdisk hf hload).1, hfs⟩

end

/-! ## A list -/

/-- An answer to a request for a piece is that piece of the file that was listed at its place. -/
def ExactAnswer (c : Contents) (listed : List LocalFile) :
    FileContentsRequest → ClipboardFile → Prop
  | .range streamId fileIdx offset length, .fileContentsResponse _ stream data =>
    stream = streamId ∧ ∃ f, listed[fileIdx]? = some f ∧ f.size.toNat = (c.path f.path).length ∧
      offset.toNat ≤ f.size.toNat ∧
      data = ((c.path f.path).drop offset.toNat).take
        (min length.toNat (f.size.toNat - offset.toNat))
  | _, _ => True

namespace ClipFiles

/-- Every file of the list is in step. -/
def InStep (c : Contents) (clip : ClipFiles) : Prop := ∀ f ∈ clip.fileList, f.InStep c

section
variable {c : Contents} {disk : Disk} {clip : ClipFiles}

variable {f : LocalFile}

theorem InStep.set (h : clip.InStep c) (hf : f.InStep c) (i : ℕ) :
    ∀ g ∈ clip.fileList.set i f, g.InStep c := by
  intro g hg
  obtain hg | rfl := List.mem_or_eq_of_mem_set hg
  · exact h g hg
  · exact hf

theorem readRange_exact (hdisk : disk.Steady c) (h : f.InStep c) (connId : Int32)
    (offset length : UInt64) : (readRange disk connId f offset length).2.InStep c ∧
      ∀ data, (readRange disk connId f offset length).1 = .ok data →
        f.size.toNat = (c.path f.path).length ∧
        offset.toNat ≤ f.size.toNat ∧
        data = ((c.path f.path).drop offset.toNat).take
          (min length.toNat (f.size.toNat - offset.toNat)) := by
  rw [readRange]
  split
  · exact ⟨h, by rintro data ⟨⟩⟩
  · next hoffset =>
    have hle : offset ≤ f.size := UInt64.not_lt.mp hoffset
    have hsub := UInt64.toNat_sub_of_le _ _ hle
    dsimp only
    generalize hsize : (if f.size - offset < length then f.size - offset else length) = readSize
    have hread : readSize.toNat = min length.toNat (f.size.toNat - offset.toNat) := by
      rw [← hsize]
      split
      · next hlt =>
        have hlt := UInt64.lt_iff_toNat_lt.mp hlt
        omega
      · next hge =>
        have hge := UInt64.le_iff_toNat_le.mp (UInt64.not_lt.mp hge)
        omega
    split
    · exact ⟨h, by rintro data ⟨⟩⟩
    · rw [hread]
      obtain ⟨hstep, hdata⟩ :=
        readExactAt_exact hdisk h (min length.toNat (f.size.toNat - offset.toNat)) offset.toNat
      refine ⟨hstep, fun data hok => ?_⟩
      obtain ⟨hdir, heq, -⟩ := hdata data hok
      exact ⟨h.size hdir, UInt64.le_iff_toNat_le.mp hle, heq⟩

theorem afterServing_inStep (hdisk : disk.Steady c) (h : clip.InStep c) (hf : f.InStep c)
    (fileIdx : ℕ) : (clip.afterServing disk fileIdx f).InStep c := by
  have hset := h.set hf fileIdx
  intro g hg
  obtain hg | hg := List.mem_append.mp hg
  · exact hset g (List.mem_of_mem_take hg)
  · exact preloadNext_inStep hdisk (fun f hf => hset f (List.mem_of_mem_drop hf)) g hg

/-- **One request** to a list: what is read is what was asked for, and all its files are in step
again. -/
theorem serveFileContents_exact (hdisk : disk.Steady c) (h : clip.InStep c) (connId : Int32)
    (fcr : FileContentsRequest) : (clip.serveFileContents disk connId fcr).2.InStep c ∧
      ∀ file, (clip.serveFileContents disk connId fcr).1 = .ok file →
        ExactAnswer c clip.copy.files fcr file := by
  cases fcr with
  | size streamId fileIdx =>
    rw [serveFileContents]
    split
    · exact ⟨h, by rintro file ⟨⟩⟩
    · next f hf =>
      exact ⟨afterServing_inStep hdisk h (h f (List.mem_of_getElem? hf)) fileIdx,
        fun _ _ => trivial⟩
  | range streamId fileIdx offset length =>
    rw [serveFileContents]
    split
    · exact ⟨h, by rintro file ⟨⟩⟩
    · next f hf =>
      obtain ⟨hstep, hdata⟩ :=
        readRange_exact hdisk (h f (List.mem_of_getElem? hf)) connId offset length
      split
      · next heq =>
        rw [heq] at hstep
        exact ⟨h.set hstep fileIdx, by rintro file ⟨⟩⟩
      · next buf f' heq =>
        rw [heq] at hstep hdata
        refine ⟨afterServing_inStep hdisk h hstep fileIdx, ?_⟩
        rintro _ ⟨⟩
        refine ⟨rfl, f.atRest, ?_, hdata buf rfl⟩
        rw [copy, List.getElem?_map, hf]
        rfl

theorem checkRetiredFile_inStep (hdisk : disk.Steady c) (h : clip.InStep c)
    (fcr : FileContentsRequest) : (clip.checkRetiredFile disk fcr).2.InStep c := by
  cases fcr with
  | size => exact h
  | range streamId fileIdx offset length =>
    rw [checkRetiredFile]
    split
    · exact h
    · next f hf =>
      split
      · exact h
      · split
        · exact h
        · next f' hload =>
          have hset :=
            h.set (loadHandle_inStep hdisk (h f (List.mem_of_getElem? hf)) hload).1 fileIdx
          dsimp only
          split
          · exact hset
          · exact hset

/-- Files that are part-way through stay open. -/
theorem releaseHandles_inStep (h : clip.InStep c) : clip.releaseHandles.InStep c := by
  intro g hg
  obtain ⟨f, hf, rfl⟩ := List.mem_map.mp hg
  split
  · next hzero =>
    have hclose := (h f hf).close
    rwa [← hzero] at hclose
  · exact h f hf

theorem exactAnswer_noted {fcr : FileContentsRequest} {file : ClipboardFile}
    {listed : List LocalFile} (h : clip.getFilesForAudit disk fcr = some file) :
    ExactAnswer c listed fcr file := by
  cases fcr with
  | size => exact trivial
  | range streamId fileIdx offset length =>
    rw [getFilesForAudit] at h
    split at h
    · dsimp only at h
      split at h
      · cases h
      · obtain rfl := Option.some.inj h
        exact trivial
    · cases h

/-- What `read_file_contents` does with the list it has chosen. -/
theorem answer_exact (hdisk : disk.Steady c) (h : clip.InStep c) (connId : Int32) (retired : Bool)
    (fcr : FileContentsRequest) : (clip.answer disk connId retired fcr).2.InStep c ∧
      ∀ file, .ok file ∈ (clip.answer disk connId retired fcr).1 →
        ExactAnswer c clip.copy.files fcr file := by
  have hcheck : (if retired then clip.checkRetiredFile disk fcr else (.ok (), clip)).2.InStep c ∧
      (if retired then clip.checkRetiredFile disk fcr else (.ok (), clip)).2.copy = clip.copy := by
    split
    · exact ⟨checkRetiredFile_inStep hdisk h fcr,
        congrArg Label.copy (checkRetiredFile_label disk clip fcr)⟩
    · exact ⟨h, rfl⟩
  rw [answer]
  split
  · next heq =>
    rw [heq] at hcheck
    refine ⟨hcheck.1, fun file hmem => ?_⟩
    cases List.mem_singleton.mp hmem
  · next clip' heq =>
    rw [heq] at hcheck
    obtain ⟨hclip', hcopy⟩ := hcheck
    obtain ⟨hstep, hanswer⟩ := serveFileContents_exact hdisk hclip' connId fcr
    refine ⟨hstep, fun file hmem => ?_⟩
    rw [← show clip'.copy = clip.copy from hcopy]
    obtain hmem | hmem := List.mem_append.mp hmem
    · -- the names that are noted down when the first file is read
      rw [Option.mem_toList, Option.map_eq_some_iff] at hmem
      obtain ⟨noted, hnoted, heq⟩ := hmem
      obtain rfl := Except.ok.inj heq
      exact exactAnswer_noted hnoted
    · exact hanswer file (List.mem_singleton.mp hmem).symm

theorem syncFiles_inStep (hdisk : disk.Steady c) {files : List PathName} {sigs : List FileSig}
    (h : syncFiles disk files sigs = .ok clip) : clip.InStep c := by
  rw [syncFiles] at h
  cases hlist : disk.constructFileList files with
  | error e =>
    rw [hlist] at h
    cases h
  | ok fileList =>
    rw [hlist] at h
    obtain rfl := Except.ok.inj h
    intro f hf
    obtain ⟨descriptorPath, mt, hopen, hsize⟩ := hdisk.constructFileList files fileList hlist f hf
    exact tryOpen_inStep hopen hsize

theorem buildFileListPdu_fileList {nonce : Nonce} {clip' : ClipFiles}
    (h : clip.buildFileListPdu nonce = .ok clip') : clip'.fileList = clip.fileList := by
  rw [buildFileListPdu] at h
  cases hpdu : Clipboard.buildFileListPdu nonce clip.fileList with
  | error e =>
    rw [hpdu] at h
    cases h
  | ok pdu =>
    rw [hpdu] at h
    obtain rfl := Except.ok.inj h
    rfl

end
end ClipFiles

/-- What is done to a list, in any order. -/
inductive ListCall where
  | serveFileContents (disk : Disk) (connId : Int32) (fcr : FileContentsRequest)
  | checkRetiredFile (disk : Disk) (fcr : FileContentsRequest)
  | releaseHandles

namespace ListCall

/-- A list, after one call. -/
def step (clip : ClipFiles) : ListCall → Option ClipFiles
  | .serveFileContents disk connId fcr => some (clip.serveFileContents disk connId fcr).2
  | .checkRetiredFile disk fcr => some (clip.checkRetiredFile disk fcr).2
  | .releaseHandles => some clip.releaseHandles

/-- The call finds the files as they were. -/
def Steady (c : Contents) : ListCall → Prop
  | .serveFileContents disk _ _ => disk.Steady c
  | .checkRetiredFile disk _ => disk.Steady c
  | .releaseHandles => True

theorem step_inStep {c : Contents} (listed : List LocalFile) (clip : ClipFiles) (call : ListCall)
    (clip' : ClipFiles) (h : clip.InStep c ∧ clip.copy.files = listed) (hcall : call.Steady c)
    (hstep : step clip call = some clip') : clip'.InStep c ∧ clip'.copy.files = listed := by
  obtain ⟨hclip, rfl⟩ := h
  cases call with
  | serveFileContents disk connId fcr =>
    obtain rfl := Option.some.inj hstep
    exact ⟨(ClipFiles.serveFileContents_exact hcall hclip connId fcr).1,
      congrArg (Copy.files ∘ Label.copy) (serveFileContents_label disk connId clip fcr)⟩
  | checkRetiredFile disk fcr =>
    obtain rfl := Option.some.inj hstep
    exact ⟨ClipFiles.checkRetiredFile_inStep hcall hclip fcr,
      congrArg (Copy.files ∘ Label.copy) (checkRetiredFile_label disk clip fcr)⟩
  | releaseHandles =>
    obtain rfl := Option.some.inj hstep
    exact ⟨ClipFiles.releaseHandles_inStep hclip,
      congrArg (Copy.files ∘ Label.copy) (releaseHandles_copy clip)⟩

end ListCall

/-! ## The host -/

namespace Host

/-- Every list that is kept is in step. -/
def InStep (c : Contents) (h : Host) : Prop := ∀ clip ∈ h.kept, clip.InStep c

section
variable {c : Contents} {disk : Disk} {h : Host}

theorem nextFiles_inStep (hdisk : disk.Steady c) {files : List PathName} {nonce : Nonce}
    {next : ClipFiles} (hnext : h.nextFiles disk files nonce = .ok (some next)) :
    next.InStep c := by
  rw [nextFiles] at hnext
  split at hnext
  · cases hnext
  · cases hsync : ClipFiles.syncFiles disk files (fingerprint disk files) with
    | error e =>
      rw [hsync] at hnext
      cases hnext
    | ok clip =>
      rw [hsync] at hnext
      change (clip.buildFileListPdu nonce >>= fun next => pure (some next)) = _ at hnext
      cases hpdu : clip.buildFileListPdu nonce with
      | error e =>
        rw [hpdu] at hnext
        cases hnext
      | ok clip' =>
        rw [hpdu] at hnext
        obtain rfl := Option.some.inj (Except.ok.inj hnext)
        intro f hf
        rw [ClipFiles.buildFileListPdu_fileList hpdu] at hf
        exact ClipFiles.syncFiles_inStep hdisk hsync f hf

theorem replace_inStep (hh : h.InStep c) {next : ClipFiles} (hnext : next.InStep c) :
    (h.replace next).InStep c := by
  obtain ⟨hcurrent, hretired⟩ := List.forall_mem_cons.mp hh
  refine List.forall_mem_cons.mpr ⟨hnext, fun clip hclip => ?_⟩
  have hkept : ∀ clip ∈ h.retired, clip.InStep c := fun clip hclip =>
    hretired clip (List.mem_reverse.mpr hclip)
  rw [List.mem_reverse, replace, retireIfServed] at hclip
  split at hclip
  · exact hkept clip hclip
  · obtain hclip | hclip := List.mem_append.mp hclip
    · refine hkept clip ?_
      split at hclip
      · exact List.mem_of_mem_tail hclip
      · exact hclip
    · rw [List.mem_singleton.mp hclip]
      exact ClipFiles.releaseHandles_inStep hcurrent

theorem syncFiles_inStep (hdisk : disk.Steady c) (hh : h.InStep c) (files : List PathName)
    (nonce : Nonce) : (h.syncFiles disk files nonce).2.InStep c := by
  rw [syncFiles]
  split
  · exact hh
  · exact hh
  · next next hnext => exact replace_inStep hh (nextFiles_inStep hdisk hnext)

theorem getFileListPdu_inStep (hh : h.InStep c) (connId : Int32) :
    (h.getFileListPdu connId).2.InStep c := by
  obtain ⟨hcurrent, hretired⟩ := List.forall_mem_cons.mp hh
  rw [getFileListPdu]
  split
  · exact List.forall_mem_cons.mpr ⟨hcurrent, hretired⟩
  · exact hh

/-- **One request**: it is answered with the piece it asks for, from the list that was chosen. -/
theorem readFileContents_exact (hdisk : disk.Steady c) (hh : h.InStep c) (r : ReadRequest) :
    (h.readFileContents disk r).2.InStep c ∧
      ∀ fcr file, r.fcr = .ok fcr → .ok file ∈ (h.readFileContents disk r).1 →
        ∃ back clip, selectClipFiles h.current h.retired r.connId r.clipDataId = some back ∧
          h.kept[back]? = some clip ∧
          ExactAnswer c clip.copy.files fcr file := by
  rw [readFileContents]
  cases hfcr : r.fcr with
  | error e => exact ⟨hh, by rintro fcr file ⟨⟩⟩
  | ok fcr =>
    dsimp only
    split
    · refine ⟨hh, fun _ file _ hmem => ?_⟩
      cases List.mem_singleton.mp hmem
    · next back clip hsel =>
      obtain ⟨back', hselect, hkept⟩ := Option.bind_eq_some_iff.mp hsel
      obtain ⟨clip', hget, heq⟩ := Option.map_eq_some_iff.mp hkept
      obtain ⟨rfl, rfl⟩ := Prod.mk.inj heq
      obtain ⟨hstep, hanswer⟩ :=
        ClipFiles.answer_exact hdisk (hh clip' (List.mem_of_getElem? hget)) r.connId (back' ≠ 0) fcr
      refine ⟨fun clip hclip => ?_, ?_⟩
      · rw [setKept_kept] at hclip
        obtain hclip | rfl := List.mem_or_eq_of_mem_set hclip
        · exact hh clip hclip
        · exact hstep
      · rintro _ file ⟨⟩ hmem
        exact ⟨back', clip', hselect, hget, hanswer file hmem⟩

end
end Host

/-- The call finds the files as they were. -/
def Call.Steady (c : Contents) : Call → Prop
  | .syncFiles disk _ _ => disk.Steady c
  | .readFileContents disk _ => disk.Steady c
  | .getFileListPdu _ => True
  | .clearFiles => True

/-- **One call** keeps all files in step. -/
theorem step_inStep {c : Contents} (s : Session) (call : Call) (s' : Session) (h : s.host.InStep c)
    (hcall : call.Steady c) (hstep : s.step call = some s') : s'.host.InStep c := by
  cases call with
  | syncFiles disk files nonce =>
    have hsync := Host.syncFiles_inStep hcall h files nonce
    rw [Session.step] at hstep
    split at hstep
    · obtain rfl := Option.some.inj hstep
      exact hsync
    · obtain rfl := Option.some.inj hstep
      exact hsync
  | getFileListPdu connId =>
    obtain rfl := Option.some.inj hstep
    exact Host.getFileListPdu_inStep h connId
  | readFileContents disk r =>
    obtain rfl := Option.some.inj hstep
    exact (Host.readFileContents_exact hcall h r).1
  | clearFiles =>
    obtain rfl := Option.some.inj hstep
    intro clip hclip
    obtain rfl := List.mem_singleton.mp hclip
    rintro f ⟨⟩

/-- **Pieces are exact.** While files keep what is in them, whatever else fails: a list that has
just been made has its files in step, and answers with the pieces it is asked for, after whatever
has been done to it; so has every list of a host, after every sequence of calls; and what a mounted
file asks for is what the host understands. -/
theorem pieces_exact (c : Contents) : (∀ disk files sigs clip calls clip', disk.Steady c →
      ClipFiles.syncFiles disk files sigs = .ok clip →
      (∀ call ∈ calls, ListCall.Steady c call) → exec ListCall.step clip calls = some clip' →
      clip'.InStep c ∧ ∀ disk connId fcr file, disk.Steady c →
        (clip'.serveFileContents disk connId fcr).1 = .ok file →
        ExactAnswer c clip.copy.files fcr file) ∧
      (∀ calls s, (∀ call ∈ calls, Call.Steady c call) → exec Session.step .start calls = some s →
        s.host.InStep c ∧ ∀ disk r fcr file, disk.Steady c → r.fcr = .ok fcr →
          .ok file ∈ (s.host.readFileContents disk r).1 →
          ∃ back clip, selectClipFiles s.host.current s.host.retired r.connId r.clipDataId =
            some back ∧
            s.host.kept[back]? = some clip ∧ ExactAnswer c clip.copy.files fcr file) ∧
      ∀ streamId connId node offset size,
        ((readNode streamId node offset size).received connId).fcr =
        .ok (.range streamId ((readNode streamId node offset size).received connId).fileIdx
          offset.toUInt64
          size.toUInt64) := by
  refine ⟨?_, ?_, readNode_received⟩
  · intro disk files sigs clip calls clip' hdisk hsync hcalls hrun
    have hstart := ClipFiles.syncFiles_inStep hdisk hsync
    obtain ⟨hclip', hlisted⟩ :=
      exec_invariant_along (ListCall.step_inStep clip.copy.files) ⟨hstart, rfl⟩
      (along_of_forall (fun call hcall _ => hcalls call hcall) clip) hrun
    refine ⟨hclip', fun disk connId fcr file hdisk hok => ?_⟩
    rw [← hlisted]
    exact (ClipFiles.serveFileContents_exact hdisk hclip' connId fcr).2 file hok
  · intro calls s hcalls hrun
    have hstart : Host.InStep c Session.start.host := by
      intro clip hclip
      obtain rfl := List.mem_singleton.mp hclip
      rintro f ⟨⟩
    have hs := exec_invariant_along step_inStep hstart
      (along_of_forall (fun call hcall _ => hcalls call hcall) Session.start) hrun
    exact ⟨hs, fun disk r fcr file hdisk hfcr hmem =>
      (Host.readFileContents_exact hdisk hs r).2 fcr file hfcr hmem⟩

/-- A file `/a` of five bytes. -/
def noteContents : Contents where
  path := fun path => if path = ['/', 'a'] then [1, 2, 3, 4, 5] else []
  inode := fun inode => if inode = 7 then [1, 2, 3, 4, 5] else []

def noteMetadata : Metadata := ⟨5, false, some 0, 0o644⟩

/-- A file system with that file, which is open as inode 7. -/
def noteDisk : Disk where
  metadata := fun path => if path = ['/', 'a'] then some ⟨5, some 0, false⟩ else none
  isFile := fun path => path = ['/', 'a']
  openFile := fun path => if path = ['/', 'a'] then some 7 else none
  readExact := fun inode position length =>
    if position + length ≤ (noteContents.inode inode).length then
      some (((noteContents.inode inode).drop position).take length)
    else none
  handleMetadata := fun inode => if inode = 7 then some ⟨5, some 0, false⟩ else none
  constructFileList := fun _ => do
    let file ← LocalFile.tryOpen ['a'] ['/', 'a'] (some noteMetadata)
    pure [file]

theorem noteDisk_steady : noteDisk.Steady noteContents where
  openFile := by
    intro path inode h
    dsimp only [noteDisk] at h
    split at h
    · next hpath =>
      obtain rfl := Option.some.inj h
      rw [hpath]
      rfl
    · cases h
  readExact := by
    intro inode position length data h
    dsimp only [noteDisk] at h
    split at h
    · next hfits =>
      obtain rfl := Option.some.inj h
      refine ⟨rfl, ?_⟩
      rw [List.length_take, List.length_drop]
      omega
    · cases h
  constructFileList := by
    intro paths files h f hf
    obtain rfl := Except.ok.inj h
    obtain rfl := List.mem_singleton.mp hf
    exact ⟨['a'], noteMetadata, rfl, fun _ => rfl⟩

/-- The last three bytes of the file, behind the first two and after its handle has been looked at.
-/
theorem pieces_exact_note : ∃ clip clip', ClipFiles.syncFiles noteDisk [['/', 'a']] [] = .ok clip ∧
      exec ListCall.step clip [.serveFileContents noteDisk 1 (.range 9 0 0 2), .releaseHandles] =
        some clip' ∧
      clip'.InStep noteContents ∧
      (clip'.serveFileContents noteDisk 1 (.range 9 0 2 10)).1 =
        .ok (.fileContentsResponse 1 9 [3, 4, 5]) ∧
      ExactAnswer noteContents clip.copy.files (.range 9 0 2 10)
        (.fileContentsResponse 1 9 [3, 4, 5]) := by
  have hsync : ∃ clip, ClipFiles.syncFiles noteDisk [['/', 'a']] [] = .ok clip := ⟨_, rfl⟩
  obtain ⟨clip, hclip⟩ := hsync
  have hcalls : ∀ call ∈ [ListCall.serveFileContents noteDisk 1 (.range 9 0 0 2), .releaseHandles],
      ListCall.Steady noteContents call := by
    intro call hcall
    obtain rfl | hcall := List.mem_cons.mp hcall
    · exact noteDisk_steady
    · obtain rfl := List.mem_singleton.mp hcall
      trivial
  have hread : ∃ clip', exec ListCall.step clip
    [.serveFileContents noteDisk 1 (.range 9 0 0 2), .releaseHandles] = some clip' ∧
      (clip'.serveFileContents noteDisk 1 (.range 9 0 2 10)).1 =
        .ok (.fileContentsResponse 1 9 [3, 4, 5]) := by
    obtain rfl := Except.ok.inj hclip
    exact ⟨_, rfl, rfl⟩
  obtain ⟨clip', hrun, hok⟩ := hread
  obtain ⟨hstep, hanswer⟩ :=
    (pieces_exact noteContents).1 noteDisk _ _ clip _ clip' noteDisk_steady hclip hcalls hrun
  exact ⟨clip, clip', hclip, hrun, hstep, hok, hanswer noteDisk 1 _ _ noteDisk_steady hok⟩

end Clipboard
end BgDesk
