import BgDesk.Machine
import BgDesk.ClipboardList

/-!
# The copied files a peer reads from

`libs/clipboard/src/platform/unix/serv_files.rs`: the list of files that is on the clipboard, and up
to four lists that were on it before and that some peer was sent. A peer asks for a piece of a file
by its place in a list. It may name the list by its id; if it does not, the list it was sent last is
meant.

A list a peer was sent goes from `current` to the end of `retired`, and out at the front when four
others have followed it. `selectClipFiles` does not see the difference between a connection that was
never sent a list and one whose lists have all gone, and gives both the current list.
`paste_reads_its_list` holds for the requests that come in time.

* `Host` and its operations — the two statics, and what the calls do to them;
* `Label` — all that decides which list is read: it stays with a list while the list is kept;
* `Session` — the host, with the copies that were made and what each connection was sent last;
* `step_tracks` — what one call keeps, `paste_reads_its_list` — every sequence of calls.
-/

namespace BgDesk
namespace Clipboard

/-! ## Files -/

/-- `FileSig`. -/
structure FileSig where
  size : UInt64
  mtime : Option ℤ
  isDir : Bool
  deriving DecidableEq

/-- The file system at the time of a call, as far as the calls look at it. A file that is open is
known by its inode, whatever its path has become. -/
structure Disk where
  /-- `std::fs::metadata` of a path -/
  metadata : PathName → Option FileSig
  /-- `Path::is_file` -/
  isFile : PathName → Bool
  /-- `File::open` and the first `fill_buf` -/
  openFile : PathName → Option ℕ
  /-- `read_exact` on an inode: from a position, so many bytes -/
  readExact : ℕ → ℕ → ℕ → Option Bytes
  /-- `File::metadata` of an inode -/
  handleMetadata : ℕ → Option FileSig
  /-- `construct_file_list`: the files at and below some paths -/
  constructFileList : List PathName → Except CliprdrError (List LocalFile)

/-- `fingerprint`. -/
def fingerprint (disk : Disk) (files : List PathName) : List FileSig :=
  files.map fun s => (disk.metadata s).getD ⟨0, none, false⟩

namespace LocalFile

/-- `load_handle`. -/
def loadHandle (disk : Disk) (f : LocalFile) : Except CliprdrError LocalFile :=
  if !f.isDir && f.handle.isNone then
    match disk.openFile f.path with
    | none => .error (.fileError f.path)
    | some inode => .ok { f with handle := some ⟨inode, 0⟩ }
  else .ok f

/-- `read_exact_at`, for a buffer of this length. -/
def readExactAt (disk : Disk) (f : LocalFile) (length offset : ℕ) :
    Except CliprdrError Bytes × LocalFile :=
  match f.loadHandle disk with
  | .error e => (.error e, f)
  | .ok f =>
    match f.handle with
    | none => (.error (.fileError f.path), f)
    | some handle =>
      let position := if offset ≠ f.offset then offset else handle.position
      match disk.readExact handle.inode position length with
      | none => (.error (.fileError f.path), { f with offset := 0, handle := none })
      | some data =>
        if f.size.toNat ≤ offset + length then (.ok data, { f with offset := 0, handle := none })
        else (.ok data,
          { f with offset := offset + length, handle := some ⟨handle.inode, position + length⟩ })

end LocalFile

/-- The preloading of the next file at the end of `serve_file_contents`. -/
def preloadNext (disk : Disk) : List LocalFile → List LocalFile
  | [] => []
  | f :: fs =>
    if f.isDir then f :: preloadNext disk fs
    else
      match f.loadHandle disk with
      | .error _ => f :: fs
      | .ok f' => f' :: fs

/-! ## A list -/

/-- `FileContentsRequest`. -/
inductive FileContentsRequest where
  | size (streamId : Int32) (fileIdx : ℕ)
  | range (streamId : Int32) (fileIdx : ℕ) (offset length : UInt64)
  deriving DecidableEq

/-- `ClipboardFile`, those of them that answer such a request. -/
inductive ClipboardFile where
  | files : List (PathName × UInt64) → ClipboardFile
  | fileContentsResponse : (msgFlags streamId : Int32) → (requestedData : Bytes) → ClipboardFile
  deriving DecidableEq

/-- What a request is answered with. -/
abbrev Reply : Type := List (Except CliprdrError ClipboardFile)

/-- `MAX_RANGE_READ`. -/
def maxRangeRead : UInt64 := 16 * 1024 * 1024

/-- `usize::MAX`. -/
def usizeMax : ℕ := 2 ^ 64 - 1

/-- `ClipFiles`. -/
structure ClipFiles where
  files : List PathName
  sigs : List FileSig
  fileList : List LocalFile
  firstFileIndex : ℕ
  filesPdu : Bytes
  id : Int32
  servedTo : List Int32
  deriving DecidableEq

namespace ClipFiles

/-- `ClipFiles::default`. -/
def default : ClipFiles := ⟨[], [], [], 0, [], 0, []⟩

/-- `clear`. -/
def cleared : ClipFiles := ⟨[], [], [], usizeMax, [], 0, []⟩

/-- `ClipFiles::sync_files`, on the default. -/
def syncFiles (disk : Disk) (clipboardFiles : List PathName) (sigs : List FileSig) :
    Except CliprdrError ClipFiles := do
  let fileList ← disk.constructFileList clipboardFiles
  let isDir (f : LocalFile) : Bool := (disk.metadata f.path).any FileSig.isDir
  pure { default with
    fileList
    firstFileIndex := (fileList.findIdx? fun f => !isDir f).getD usizeMax
    files := clipboardFiles
    sigs }

/-- `build_file_list_pdu`. -/
def buildFileListPdu (nonce : Nonce) (clip : ClipFiles) : Except CliprdrError ClipFiles := do
  let pdu ← Clipboard.buildFileListPdu nonce clip.fileList
  pure { clip with filesPdu := pdu, id := fileListId pdu }

/-- `release_handles`. -/
def releaseHandles (clip : ClipFiles) : ClipFiles :=
  { clip with
    fileList := clip.fileList.map fun f => if f.offset = 0 then { f with handle := none } else f }

/-- `check_retired_file`. -/
def checkRetiredFile (disk : Disk) (clip : ClipFiles) :
    FileContentsRequest → Except CliprdrError Unit × ClipFiles
  | .size _ _ => (.ok (), clip)
  | .range _ fileIdx _ _ =>
    match clip.fileList[fileIdx]? with
    | none => (.ok (), clip)
    | some file =>
      if file.isDir then (.ok (), clip)
      else
        match file.loadHandle disk with
        | .error e => (.error e, clip)
        | .ok file =>
          let clip := { clip with fileList := clip.fileList.set fileIdx file }
          let unchanged :=
            (file.handle.bind fun handle => disk.handleMetadata handle.inode).any fun md =>
            md.size = file.size ∧ md.mtime = some file.lastWriteTime
          let name := String.ofList file.name
          if unchanged then (.ok (), clip)
          else (.error (.invalidRequest s!"file {name} changed since its list was sent"), clip)

/-- `get_files_for_audit`. -/
def getFilesForAudit (disk : Disk) (clip : ClipFiles) : FileContentsRequest → Option ClipboardFile
  | .size _ _ => none
  | .range _ fileIdx offset _ =>
    if fileIdx = clip.firstFileIndex ∧ offset = 0 then
      let files := (clip.fileList.filter fun f => disk.isFile f.path).map fun f => (f.path, f.size)
      if files = [] then none else some (.files files)
    else none

/-- The piece of a file `serve_file_contents` reads, and the file afterwards. -/
def readRange (disk : Disk) (connId : Int32) (file : LocalFile) (offset length : UInt64) :
    Except CliprdrError Bytes × LocalFile :=
  if file.size < offset then
    (.error (.invalidRequest s!"invalid reading offset requested from conn: {connId}"), file)
  else
    let readSize := if file.size - offset < length then file.size - offset else length
    if maxRangeRead < readSize then
      (.error (.invalidRequest
        s!"file contents request of {readSize} bytes exceeds the {maxRangeRead} byte limit, conn: {connId}"), file)
    else file.readExactAt disk readSize.toNat offset.toNat

/-- The list after the file at a place has been served: it has been read from, and the next one is
open. -/
def afterServing (disk : Disk) (clip : ClipFiles) (fileIdx : ℕ) (file : LocalFile) : ClipFiles :=
  let fileList := clip.fileList.set fileIdx file
  { clip with
    fileList := fileList.take (fileIdx + 1) ++ preloadNext disk (fileList.drop (fileIdx + 1)) }

/-- `serve_file_contents`. -/
def serveFileContents (disk : Disk) (connId : Int32) (clip : ClipFiles) :
    FileContentsRequest → Except CliprdrError ClipboardFile × ClipFiles
  | .size streamId fileIdx =>
    match clip.fileList[fileIdx]? with
    | none =>
      (.error (.invalidRequest s!"invalid file index {fileIdx} requested from conn: {connId}"),
        clip)
    | some file =>
      (.ok (.fileContentsResponse 0x1 streamId (putU64LE file.size)),
        clip.afterServing disk fileIdx file)
  | .range streamId fileIdx offset length =>
    match clip.fileList[fileIdx]? with
    | none =>
      (.error (.invalidRequest s!"invalid file index {fileIdx} requested from conn: {connId}"),
        clip)
    | some file =>
      match readRange disk connId file offset length with
      | (.error e, file) => (.error e, { clip with fileList := clip.fileList.set fileIdx file })
      | (.ok buf, file) =>
        (.ok (.fileContentsResponse 0x1 streamId buf), clip.afterServing disk fileIdx file)

/-- The part of `read_file_contents` behind the choice of the list. -/
def answer (disk : Disk) (connId : Int32) (clip : ClipFiles) (retired : Bool)
    (fcr : FileContentsRequest) : Reply × ClipFiles :=
  match if retired then clip.checkRetiredFile disk fcr else (.ok (), clip) with
  | (.error e, clip) => ([.error e], clip)
  | (.ok (), clip) =>
    let (response, after) := clip.serveFileContents disk connId fcr
    (((clip.getFilesForAudit disk fcr).map .ok).toList ++ [response], after)

end ClipFiles

/-! ## The host -/

/-- `CLIP_FILES` and `RETIRED_CLIP_FILES`, the latter oldest first. -/
structure Host where
  current : ClipFiles
  retired : List ClipFiles
  deriving DecidableEq

/-- `MAX_RETIRED_CLIP_FILES`. -/
def maxRetiredClipFiles : ℕ := 4

/-- `select_clip_files`: zero for the current list, else how many lists back it is. -/
def selectClipFiles (current : ClipFiles) (retired : List ClipFiles) (connId : Int32)
    (clipDataId : Option Int32) : Option ℕ :=
  match clipDataId with
  | some id =>
    if current.id = id then some 0
    else (retired.reverse.findIdx? fun files => files.id = id ∧ connId ∈ files.servedTo).map (· + 1)
  | none =>
    if connId ∈ current.servedTo then some 0
    else
      match retired.reverse.findIdx? fun files => connId ∈ files.servedTo with
      | some back => some (back + 1)
      | none => some 0

/-- The arguments of `read_file_contents`. -/
structure ReadRequest where
  connId : Int32
  streamId : Int32
  listIndex : Int32
  dwFlags : Int32
  nPositionLow : Int32
  nPositionHigh : Int32
  cbRequested : Int32
  clipDataId : Option Int32
  deriving DecidableEq

namespace ReadRequest

/-- `list_index as usize`. -/
def fileIdx (r : ReadRequest) : ℕ := (r.listIndex.toInt % 2 ^ 64).toNat

/-- The request `read_file_contents` makes of its arguments. -/
def fcr (r : ReadRequest) : Except CliprdrError FileContentsRequest :=
  let dwFlags := r.dwFlags
  if dwFlags = 0x1 then .ok (.size r.streamId r.fileIdx)
  else if dwFlags = 0x2 then
    let offset := (r.nPositionHigh.toInt64.toUInt64 <<< 32) ||| r.nPositionLow.toUInt32.toUInt64
    let length := r.cbRequested.toUInt32.toUInt64
    .ok (.range r.streamId r.fileIdx offset length)
  else .error (.invalidRequest s!"got invalid FileContentsRequest, dw_flats: {dwFlags}")

end ReadRequest

namespace Host

/-- Both statics as they start. -/
def start : Host := ⟨.default, []⟩

/-- The lists that are kept, newest first. -/
def kept (h : Host) : List ClipFiles := h.current :: h.retired.reverse

/-- A list that is kept, changed in its place. -/
def setKept (h : Host) (back : ℕ) (clip : ClipFiles) : Host :=
  match back with
  | 0 => { h with current := clip }
  | n + 1 => { h with retired := (h.retired.reverse.set n clip).reverse }

/-- `clear_files`. -/
def clearFiles (_ : Host) : Host := ⟨.cleared, []⟩

/-- `retire_if_served`. -/
def retireIfServed (retired : List ClipFiles) (replaced : ClipFiles) : List ClipFiles :=
  if replaced.servedTo = [] then retired
  else (if retired.length = maxRetiredClipFiles then retired.tail else retired) ++
    [replaced.releaseHandles]

/-- The list `sync_files` puts on the clipboard: none if the one there still stands. -/
def nextFiles (disk : Disk) (h : Host) (files : List PathName) (nonce : Nonce) :
    Except CliprdrError (Option ClipFiles) :=
  let current := fingerprint disk files
  if h.current.files = files ∧ h.current.sigs = current ∧ ¬current.any FileSig.isDir then .ok none
  else do
    let next ← ClipFiles.syncFiles disk files current
    let next ← next.buildFileListPdu nonce
    pure (some next)

/-- The end of `sync_files`. -/
def replace (h : Host) (next : ClipFiles) : Host := ⟨next, retireIfServed h.retired h.current⟩

/-- `sync_files`: the result, and the host afterwards. -/
def syncFiles (disk : Disk) (h : Host) (files : List PathName) (nonce : Nonce) :
    Except CliprdrError Unit × Host :=
  match h.nextFiles disk files nonce with
  | .error e => (.error e, h)
  | .ok none => (.ok (), h)
  | .ok (some next) => (.ok (), h.replace next)

/-- `get_file_list_pdu`. -/
def getFileListPdu (h : Host) (connId : Int32) : Bytes × Host :=
  if h.current.filesPdu ≠ [] ∧ connId ∉ h.current.servedTo then
    (h.current.filesPdu,
      { h with current := { h.current with servedTo := h.current.servedTo ++ [connId] } })
  else (h.current.filesPdu, h)

/-- `read_file_contents`. -/
def readFileContents (disk : Disk) (h : Host) (r : ReadRequest) : Reply × Host :=
  match r.fcr with
  | .error e => ([.error e], h)
  | .ok fcr =>
    let connId := r.connId
    let id := r.clipDataId.getD 0
    match (selectClipFiles h.current h.retired r.connId r.clipDataId).bind fun back =>
        h.kept[back]?.map (back, ·) with
    | none =>
      ([.error (.invalidRequest s!"file list Some({id}) is not available to conn: {connId}")], h)
    | some (back, clip) =>
      let (reply, clip) := clip.answer disk connId (back ≠ 0) fcr
      (reply, h.setKept back clip)

end Host

/-! ## What stays with a list -/

/-- A file as it was listed, without what reading it has left. -/
def LocalFile.atRest (f : LocalFile) : LocalFile := { f with handle := none, offset := 0 }

/-- A copy the user made: the list that is sent of it, and the files. -/
structure Copy where
  pdu : Bytes
  files : List LocalFile
  deriving DecidableEq

/-- The id a peer names the copy by. -/
def Copy.id (c : Copy) : Int32 := fileListId c.pdu

/-- All that decides who reads a list. -/
structure Label where
  copy : Copy
  id : Int32
  servedTo : List Int32
  deriving DecidableEq

namespace ClipFiles

/-- The copy a list is of. -/
def copy (clip : ClipFiles) : Copy := ⟨clip.filesPdu, clip.fileList.map LocalFile.atRest⟩

def label (clip : ClipFiles) : Label := ⟨clip.copy, clip.id, clip.servedTo⟩

end ClipFiles

section AtRest

variable (disk : Disk)

theorem loadHandle_atRest {f f' : LocalFile} (h : f.loadHandle disk = .ok f') :
    f'.atRest = f.atRest := by
  rw [LocalFile.loadHandle] at h
  split at h
  · split at h
    · cases h
    · obtain rfl := Except.ok.inj h
      rfl
  · obtain rfl := Except.ok.inj h
    rfl

theorem readExactAt_atRest (f : LocalFile) (length offset : ℕ) :
    (f.readExactAt disk length offset).2.atRest = f.atRest := by
  rw [LocalFile.readExactAt]
  cases hload : f.loadHandle disk with
  | error e => rfl
  | ok f' =>
    rw [← loadHandle_atRest disk hload]
    simp only
    split
    · rfl
    · split
      · rfl
      · split <;> rfl

theorem readRange_atRest (connId : Int32) (file : LocalFile) (offset length : UInt64) :
    (ClipFiles.readRange disk connId file offset length).2.atRest = file.atRest := by
  rw [ClipFiles.readRange]
  split
  · rfl
  · simp only
    generalize (if file.size - offset < length then file.size - offset else length) = readSize
    split
    · rfl
    · exact readExactAt_atRest disk file _ _

theorem preloadNext_atRest (fs : List LocalFile) :
    (preloadNext disk fs).map LocalFile.atRest = fs.map LocalFile.atRest := by
  induction fs with
  | nil => rfl
  | cons f fs ih =>
    rw [preloadNext]
    split
    · rw [List.map_cons, List.map_cons, ih]
    · split
      · rfl
      · next hload => rw [List.map_cons, List.map_cons, loadHandle_atRest disk hload]

/-- Putting a file back where it was read from. -/
theorem set_atRest {fs : List LocalFile} {i : ℕ} {f f' : LocalFile} (hi : fs[i]? = some f)
    (h : f'.atRest = f.atRest) : (fs.set i f').map LocalFile.atRest = fs.map LocalFile.atRest := by
  obtain ⟨hlt, rfl⟩ := List.getElem?_eq_some_iff.mp hi
  have hlt' : i < (fs.map LocalFile.atRest).length := by rwa [List.length_map]
  rw [List.map_set, h, ← List.getElem_map LocalFile.atRest (h := hlt'), List.set_getElem_self]

/-! ### Labels -/

variable {clip : ClipFiles}

theorem label_of_files {fs : List LocalFile}
    (h : fs.map LocalFile.atRest = clip.fileList.map LocalFile.atRest) :
    ClipFiles.label { clip with fileList := fs } = clip.label := by
  rw [ClipFiles.label, ClipFiles.copy, h]
  rfl

theorem releaseHandles_copy (clip : ClipFiles) : clip.releaseHandles.label = clip.label := by
  rw [ClipFiles.releaseHandles]
  apply label_of_files
  rw [List.map_map]
  refine List.map_congr_left fun f _ => ?_
  rw [Function.comp_apply]
  split <;> rfl

theorem checkRetiredFile_label (clip : ClipFiles) (fcr : FileContentsRequest) :
    (clip.checkRetiredFile disk fcr).2.label = clip.label := by
  cases fcr with
  | size => rfl
  | range streamId fileIdx offset length =>
    rw [ClipFiles.checkRetiredFile]
    split
    · rfl
    · next file hfile =>
      split
      · rfl
      · split
        · rfl
        · next file' hload =>
          have hlabel := label_of_files (set_atRest hfile (loadHandle_atRest disk hload))
          simp only
          split
          · exact hlabel
          · exact hlabel

theorem afterServing_label {fileIdx : ℕ} {file file' : LocalFile}
    (hfile : clip.fileList[fileIdx]? = some file) (h : file'.atRest = file.atRest) :
    (clip.afterServing disk fileIdx file').label = clip.label := by
  rw [ClipFiles.afterServing]
  apply label_of_files
  rw [List.map_append, preloadNext_atRest, ← List.map_append, List.take_append_drop]
  exact set_atRest hfile h

theorem serveFileContents_label (connId : Int32) (clip : ClipFiles) (fcr : FileContentsRequest) :
    (clip.serveFileContents disk connId fcr).2.label = clip.label := by
  cases fcr with
  | size streamId fileIdx =>
    rw [ClipFiles.serveFileContents]
    split
    · rfl
    · next file hfile => exact afterServing_label disk hfile rfl
  | range streamId fileIdx offset length =>
    rw [ClipFiles.serveFileContents]
    split
    · rfl
    · next file hfile =>
      have hrest := readRange_atRest disk connId file offset length
      split
      · next heq =>
        rw [heq] at hrest
        exact label_of_files (set_atRest hfile hrest)
      · next heq =>
        rw [heq] at hrest
        exact afterServing_label disk hfile hrest

/-- Answering a request changes no label. -/
theorem answer_label (connId : Int32) (clip : ClipFiles) (retired : Bool)
    (fcr : FileContentsRequest) : (clip.answer disk connId retired fcr).2.label = clip.label := by
  have hcheck : (if retired then clip.checkRetiredFile disk fcr else (.ok (), clip)).2.label =
      clip.label := by
    split
    · exact checkRetiredFile_label disk clip fcr
    · rfl
  rw [ClipFiles.answer]
  split
  · next heq =>
    rw [heq] at hcheck
    exact hcheck
  · next heq =>
    rw [heq] at hcheck
    exact (serveFileContents_label disk connId _ fcr).trans hcheck

/-- Every result is an error. -/
def Refused (reply : Reply) : Prop := ∀ r ∈ reply, ∃ e, r = .error e

/-- A list without files has no answer. -/
theorem answer_refused (h : clip.fileList = []) (connId : Int32) (retired : Bool)
    (fcr : FileContentsRequest) : Refused (clip.answer disk connId retired fcr).1 := by
  have hcheck : (if retired then clip.checkRetiredFile disk fcr else (.ok (), clip)) =
      (.ok (), clip) := by
    split
    · cases fcr with
      | size => rfl
      | range streamId fileIdx offset length =>
        rw [ClipFiles.checkRetiredFile, h]
        rfl
    · rfl
  have haudit : clip.getFilesForAudit disk fcr = none := by
    cases fcr with
    | size => rfl
    | range streamId fileIdx offset length =>
      rw [ClipFiles.getFilesForAudit, h]
      split <;> rfl
  rw [ClipFiles.answer, hcheck]
  simp only [haudit]
  intro r hr
  rw [Option.map_none, Option.toList_none, List.nil_append, List.mem_singleton] at hr
  subst hr
  cases fcr with
  | size streamId fileIdx =>
    rw [ClipFiles.serveFileContents, h]
    exact ⟨_, rfl⟩
  | range streamId fileIdx offset length =>
    rw [ClipFiles.serveFileContents, h]
    exact ⟨_, rfl⟩

end AtRest

/-! ## The labels of the host -/

namespace Host

/-- The labels of the lists that are kept, newest first. -/
def labels (h : Host) : List Label := h.kept.map ClipFiles.label

theorem setKept_kept (h : Host) (back : ℕ) (clip : ClipFiles) :
    (h.setKept back clip).kept = h.kept.set back clip := by
  cases back with
  | zero => rfl
  | succ n =>
    rw [setKept, kept, kept, List.reverse_reverse, List.set_cons_succ]

variable {h : Host}

theorem setKept_labels {back : ℕ} {clip clip' : ClipFiles} (hback : h.kept[back]? = some clip)
    (hlabel : clip'.label = clip.label) : (h.setKept back clip').labels = h.labels := by
  obtain ⟨hlt, rfl⟩ := List.getElem?_eq_some_iff.mp hback
  have hlt' : back < (h.kept.map ClipFiles.label).length := by rwa [List.length_map]
  rw [labels, labels, setKept_kept, List.map_set, hlabel,
    ← List.getElem_map ClipFiles.label (h := hlt'),
    List.set_getElem_self]

/-- Reading moves no list and changes no label. -/
theorem readFileContents_labels (disk : Disk) (h : Host) (r : ReadRequest) :
    (h.readFileContents disk r).2.labels = h.labels := by
  rw [readFileContents]
  split
  · rfl
  · simp only
    split
    · rfl
    · next back clip hsel =>
      obtain ⟨back', -, hkept⟩ := Option.bind_eq_some_iff.mp hsel
      obtain ⟨clip', hget, heq⟩ := Option.map_eq_some_iff.mp hkept
      obtain ⟨rfl, rfl⟩ := Prod.mk.inj heq
      exact setKept_labels hget (answer_label disk r.connId clip' _ _)

/-- A list that no peer was sent goes; any other one moves back, and of six the oldest goes. -/
theorem replace_labels (hlen : h.retired.length ≤ maxRetiredClipFiles) (next : ClipFiles) :
    (h.replace next).labels =
      if h.current.servedTo = [] then next.label ::
        h.labels.tail else (next.label :: h.labels).take 5 := by
  rw [replace, labels, kept, retireIfServed]
  rw [maxRetiredClipFiles] at hlen
  split
  · rfl
  · rw [List.reverse_append, List.reverse_singleton, List.singleton_append, List.map_cons,
      List.map_cons,
      releaseHandles_copy, labels, kept, List.map_cons, List.take_succ_cons, List.take_succ_cons,
        ← List.map_take]
    have hretired : (if h.retired.length = 4 then h.retired.tail else h.retired).reverse =
        h.retired.reverse.take 3 := by
      split
      · next hfull =>
          rw [← List.dropLast_reverse, List.dropLast_eq_take, List.length_reverse, hfull]
      · exact (List.take_of_length_le (by rw [List.length_reverse]; omega)).symm
    rw [maxRetiredClipFiles, hretired]

theorem labels_length (h : Host) : h.labels.length = h.retired.length + 1 := by simp [labels, kept]

/-- A list that was built has the id of its copy, and nobody was sent it yet. -/
theorem nextFiles_label {disk : Disk} {files : List PathName} {nonce : Nonce} {next : ClipFiles}
    (hnext : h.nextFiles disk files nonce = .ok (some next)) :
    next.id = next.copy.id ∧ next.servedTo = [] := by
  rw [nextFiles] at hnext
  split at hnext
  · cases hnext
  · cases hsync : ClipFiles.syncFiles disk files (fingerprint disk files) with
    | error e =>
      rw [hsync] at hnext
      cases hnext
    | ok clip =>
      have hserved : clip.servedTo = [] := by
        rw [ClipFiles.syncFiles] at hsync
        cases hlist : disk.constructFileList files with
        | error e =>
          rw [hlist] at hsync
          cases hsync
        | ok fileList =>
          rw [hlist] at hsync
          obtain rfl := Except.ok.inj hsync
          rfl
      rw [hsync] at hnext
      change (clip.buildFileListPdu nonce >>= fun next => pure (some next)) = _ at hnext
      rw [ClipFiles.buildFileListPdu] at hnext
      cases hpdu : Clipboard.buildFileListPdu nonce clip.fileList with
      | error e =>
        rw [hpdu] at hnext
        cases hnext
      | ok pdu =>
        rw [hpdu] at hnext
        obtain rfl := Option.some.inj (Except.ok.inj hnext)
        exact ⟨rfl, hserved⟩

end Host

/-! ## Sequences of calls -/

/-- A call, with the file system at the time and, for a new copy, the nonce it gets. -/
inductive Call where
  | syncFiles (disk : Disk) (files : List PathName) (nonce : Nonce)
  | getFileListPdu (connId : Int32)
  | readFileContents (disk : Disk) (request : ReadRequest)
  | clearFiles

/-- The host, the copies that were made, and for each connection the copy it was sent last since the
last `clear_files`, with the number of lists that were retired since. -/
structure Session where
  host : Host
  made : List Copy
  sent : Int32 → Option (Copy × ℕ)

namespace Session

def start : Session := ⟨.start, [], fun _ => none⟩

/-- One more list was retired. -/
def older (sent : Int32 → Option (Copy × ℕ)) : Int32 → Option (Copy × ℕ) :=
  fun connId => (sent connId).map fun (c, age) => (c, age + 1)

/-- One call. -/
def step (s : Session) : Call → Option Session
  | .syncFiles disk files nonce =>
    let host := (s.host.syncFiles disk files nonce).2
    match s.host.nextFiles disk files nonce with
    | .ok (some next) =>
      some ⟨host, s.made ++ [next.copy], if s.host.current.servedTo =
        [] then s.sent else older s.sent⟩
    | _ => some { s with host }
  | .getFileListPdu connId =>
    let (pdu, host) := s.host.getFileListPdu connId
    some { s with
      host
      sent :=
        if pdu = [] then s.sent else Function.update s.sent connId (some (s.host.current.copy, 0)) }
  | .readFileContents disk request =>
    some { s with host := (s.host.readFileContents disk request).2 }
  | .clearFiles => some { s with host := s.host.clearFiles, sent := fun _ => none }

/-- The answer to the request is read from a list of this copy. -/
def AnsweredFrom (s : Session) (disk : Disk) (r : ReadRequest) (c : Copy) : Prop :=
  ∃ clip ∈ s.host.kept, ∃ fcr retired, clip.copy = c ∧ r.fcr = .ok fcr ∧
    (s.host.readFileContents disk r).1 = (clip.answer disk r.connId retired fcr).1

/-- What a request may be answered with. A request that names a list: what is read from the copy
with that id. One that does not, from a connection that was sent a list: what is read from the copy
it was sent last. Both may be refused. -/
def Answered (s : Session) : Call → Prop
  | .readFileContents disk r =>
    (∀ id, r.clipDataId = some id → Refused (s.host.readFileContents disk r).1 ∨
      (∃ c ∈ s.made, c.id = id) ∧ ∀ c ∈ s.made, c.id = id → s.AnsweredFrom disk r c) ∧
    (r.clipDataId = none → ∀ c age, s.sent r.connId = some (c, age) →
      Refused (s.host.readFileContents disk r).1 ∨ s.AnsweredFrom disk r c)
  | _ => True

/-- No two copies have the same id. -/
def DistinctIds (s : Session) : Prop := ∀ c ∈ s.made, ∀ c' ∈ s.made, c.id = c'.id → c = c'

instance (s : Session) : Decidable s.DistinctIds := List.decidableBAll _ _

/-- A request that names no list comes before a fifth list has been retired since its connection was
sent one. -/
def InTime (s : Session) : Call → Prop
  | .readFileContents _ r =>
    r.clipDataId = none → ∀ sent ∈ s.sent r.connId, sent.2 ≤ maxRetiredClipFiles
  | _ => True

instance (s : Session) : (call : Call) → Decidable (s.InTime call)
  | .readFileContents _ r =>
    inferInstanceAs (Decidable (r.clipDataId = none → ∀ sent ∈ s.sent r.connId,
      sent.2 ≤ maxRetiredClipFiles))
  | .syncFiles _ _ _ => isTrue trivial
  | .getFileListPdu _ => isTrue trivial
  | .clearFiles => isTrue trivial

/-! ### What is kept -/

/-- Lists are known by the ids of their copies, and the copy a connection was sent last is as many
lists back as were retired since, with no list in front of it that the connection was sent. -/
structure Tracks (labels : List Label) (made : List Copy) (sent : Int32 → Option (Copy × ℕ)) :
  Prop where
  bounded : labels.length ≤ maxRetiredClipFiles + 1
  known : ∀ l ∈ labels, l.copy = ⟨[], []⟩ ∨ l.copy ∈ made ∧ l.id = l.copy.id
  last : ∀ connId c age, sent connId = some (c, age) → age ≤ maxRetiredClipFiles →
    ∃ l, labels[age]? = some l ∧ l.copy = c ∧ connId ∈ l.servedTo ∧
      ∀ i < age, ∀ m, labels[i]? = some m → connId ∉ m.servedTo

variable {labels rest : List Label} {made : List Copy} {sent : Int32 → Option (Copy × ℕ)}
  {l next : Label}

/-- Somebody is sent the current list. -/
theorem Tracks.send {connId : Int32} {served : List Int32} (h : Tracks (l :: rest) made sent)
    (hmem : connId ∈ served) (hserved : ∀ c ∈ served, c = connId ∨ c ∈ l.servedTo)
    (hold : l.servedTo ⊆ served) : Tracks ({ l with servedTo := served } :: rest)
      made (Function.update sent connId (some (l.copy, 0))) := by
  refine ⟨h.bounded, ?_, ?_⟩
  · intro m hm
    rcases List.mem_cons.mp hm with rfl | hm
    · exact h.known l List.mem_cons_self
    · exact h.known m (List.mem_cons_of_mem _ hm)
  · intro other c age hsent hage
    by_cases hother : other = connId
    · subst hother
      rw [Function.update_self] at hsent
      obtain ⟨rfl, rfl⟩ := Prod.mk.inj (Option.some.inj hsent)
      exact ⟨_, rfl, rfl, hmem, fun i hi => absurd hi (Nat.not_lt_zero i)⟩
    · rw [Function.update_of_ne hother] at hsent
      obtain ⟨m, hm, hcopy, hconn, hfront⟩ := h.last other c age hsent hage
      cases age with
      | zero =>
        obtain rfl := Option.some.inj hm
        exact ⟨_, rfl, hcopy, hold hconn, fun i hi => absurd hi (Nat.not_lt_zero i)⟩
      | succ age =>
        refine ⟨m, hm, hcopy, hconn, fun i hi m' hm' => ?_⟩
        cases i with
        | zero =>
          obtain rfl := Option.some.inj hm'
          intro hin
          rcases hserved other hin with heq | hin
          · exact hother heq
          · exact hfront 0 hi l rfl hin
        | succ i => exact hfront (i + 1) hi m' hm'

/-- A new list comes in front of what is kept of the others. -/
theorem Tracks.replaceUnsent (h : Tracks (l :: rest) made sent) (hl : l.servedTo = [])
    (hid : next.id = next.copy.id) (hnext : next.servedTo = []) :
    Tracks (next :: rest) (made ++ [next.copy]) sent := by
  refine ⟨h.bounded, ?_, ?_⟩
  · intro m hm
    rcases List.mem_cons.mp hm with rfl | hm
    · exact Or.inr ⟨by simp, hid⟩
    · exact (h.known m (List.mem_cons_of_mem _ hm)).imp_right fun hk =>
        ⟨List.mem_append_left _ hk.1, hk.2⟩
  · intro connId c age hsent hage
    obtain ⟨m, hm, hcopy, hconn, hfront⟩ := h.last connId c age hsent hage
    cases age with
    | zero =>
      -- the current list was sent to nobody, so it is not what this connection was sent last
      obtain rfl := Option.some.inj hm
      rw [hl] at hconn
      cases hconn
    | succ age =>
      refine ⟨m, hm, hcopy, hconn, fun i hi m' hm' => ?_⟩
      cases i with
      | zero =>
        obtain rfl := Option.some.inj hm'
        rw [hnext]
        exact List.not_mem_nil
      | succ i => exact hfront (i + 1) hi m' hm'

/-- A new list comes in front of all of them, and a sixth one goes. -/
theorem Tracks.retire (h : Tracks labels made sent) (hid : next.id = next.copy.id)
    (hnext : next.servedTo = []) :
    Tracks ((next :: labels).take 5) (made ++ [next.copy]) (older sent) := by
  refine ⟨List.length_take_le 5 _, ?_, ?_⟩
  · intro m hm
    rcases List.mem_cons.mp (List.mem_of_mem_take hm) with rfl | hm
    · exact Or.inr ⟨by simp, hid⟩
    · exact (h.known m hm).imp_right fun hk => ⟨List.mem_append_left _ hk.1, hk.2⟩
  · intro connId c age hsent hage
    obtain ⟨⟨c', age'⟩, hsent', heq⟩ := Option.map_eq_some_iff.mp hsent
    obtain ⟨rfl, rfl⟩ := Prod.mk.inj heq
    rw [maxRetiredClipFiles] at hage
    obtain ⟨m, hm, hcopy, hconn, hfront⟩ :=
      h.last connId c' age' hsent' (by rw [maxRetiredClipFiles]; omega)
    refine ⟨m, ?_, hcopy, hconn, fun i hi m' hm' => ?_⟩
    · rw [List.getElem?_take_of_lt (by omega)]
      exact hm
    · rw [List.getElem?_take_of_lt (by omega)] at hm'
      cases i with
      | zero =>
        obtain rfl := Option.some.inj hm'
        rw [hnext]
        exact List.not_mem_nil
      | succ i => exact hfront i (by omega) m' hm'

/-- The host and what is recorded about it agree. -/
def Tracked (s : Session) : Prop := Tracks s.host.labels s.made s.sent

theorem start_tracked : start.Tracked := by
  refine ⟨by decide, ?_, nofun⟩
  intro l hl
  obtain rfl := List.mem_singleton.mp hl
  exact Or.inl rfl

variable {s : Session} {disk : Disk} {h : Host} {back : ℕ} {r : ReadRequest}

theorem syncFiles_tracked {s' : Session} {files : List PathName} {nonce : Nonce} (h : s.Tracked)
    (hstep : s.step (.syncFiles disk files nonce) = some s') : s'.Tracked := by
  rw [step, Host.syncFiles] at hstep
  cases hnext : s.host.nextFiles disk files nonce with
  | error e =>
    rw [hnext] at hstep
    obtain rfl := Option.some.inj hstep
    exact h
  | ok result =>
    rw [hnext] at hstep
    cases result with
    | none =>
      obtain rfl := Option.some.inj hstep
      exact h
    | some next =>
      obtain rfl := Option.some.inj hstep
      obtain ⟨hid, hserved⟩ := Host.nextFiles_label hnext
      have hlen : s.host.retired.length ≤ maxRetiredClipFiles := by
        have hbound := h.bounded
        rw [Host.labels_length] at hbound
        omega
      rw [Tracked, Host.replace_labels hlen]
      split
      · next hunsent => exact Tracks.replaceUnsent (l := s.host.current.label) h hunsent hid hserved
      · exact Tracks.retire h hid hserved

theorem getFileListPdu_tracked {s' : Session} {connId : Int32} (h : s.Tracked)
    (hstep : s.step (.getFileListPdu connId) = some s') : s'.Tracked := by
  by_cases hnew : s.host.current.filesPdu ≠ [] ∧ connId ∉ s.host.current.servedTo
  · have hget : s.host.getFileListPdu connId = (s.host.current.filesPdu, { s.host with
        current := { s.host.current with servedTo := s.host.current.servedTo ++ [connId] } }) :=
          if_pos hnew
    rw [step, hget] at hstep
    simp only [if_neg hnew.1] at hstep
    obtain rfl := Option.some.inj hstep
    refine Tracks.send (l := s.host.current.label) h (by simp) ?_ (List.subset_append_left _ _)
    intro c hc
    rcases List.mem_append.mp hc with hc | hc
    · exact Or.inr hc
    · exact Or.inl (List.mem_singleton.mp hc)
  · have hget : s.host.getFileListPdu connId = (s.host.current.filesPdu, s.host) := if_neg hnew
    rw [step, hget] at hstep
    simp only at hstep
    obtain rfl := Option.some.inj hstep
    rw [Tracked]
    split
    · exact h
    · next hpdu =>
      have hmem : connId ∈ s.host.current.servedTo := not_not.mp fun hmem => hnew ⟨hpdu, hmem⟩
      exact Tracks.send (l := s.host.current.label) h hmem (fun c hc => Or.inr hc)
        (List.Subset.refl _)

/-- **One call** keeps the record true. -/
theorem step_tracked (s : Session) (call : Call) (s' : Session) (h : s.Tracked)
    (hstep : s.step call = some s') : s'.Tracked := by
  cases call with
  | syncFiles disk files nonce => exact syncFiles_tracked h hstep
  | getFileListPdu connId => exact getFileListPdu_tracked h hstep
  | readFileContents disk r =>
    obtain rfl := Option.some.inj hstep
    rw [Tracked, Host.readFileContents_labels]
    exact h
  | clearFiles =>
    obtain rfl := Option.some.inj hstep
    refine ⟨(by decide : (Host.labels ⟨.cleared, []⟩).length ≤ maxRetiredClipFiles + 1), ?_, nofun⟩
    intro l hl
    obtain rfl := List.mem_singleton.mp hl
    exact Or.inl rfl

/-! ### Which list is chosen -/

/-- Without an id, the choice falls on the first list the connection was sent. -/
theorem select_last {connId : Int32} {clip : ClipFiles} (hback : h.kept[back]? = some clip)
    (hconn : connId ∈ clip.servedTo)
    (hfront : ∀ i < back, ∀ m, h.kept[i]? = some m → connId ∉ m.servedTo) :
    selectClipFiles h.current h.retired connId none = some back := by
  rw [selectClipFiles]
  cases back with
  | zero =>
    obtain rfl := Option.some.inj hback
    exact if_pos hconn
  | succ n =>
    have hfind : h.retired.reverse.findIdx? (fun files => connId ∈ files.servedTo) = some n := by
      rw [Host.kept, List.getElem?_cons_succ] at hback
      obtain ⟨hlt, hget⟩ := List.getElem?_eq_some_iff.mp hback
      rw [List.findIdx?_eq_some_iff_getElem]
      refine ⟨hlt, by rw [hget]; exact decide_eq_true hconn, fun i hi => ?_⟩
      have hlt' : i < h.retired.reverse.length := by omega
      have hnot := hfront (i + 1) (by omega) h.retired.reverse[i]
        (by rw [Host.kept, List.getElem?_cons_succ, List.getElem?_eq_getElem hlt'])
      simpa using hnot
    rw [if_neg (hfront 0 (by omega) _ rfl), hfind]

/-- With an id, the list that is chosen has it. -/
theorem select_named {connId id : Int32}
    (hsel : selectClipFiles h.current h.retired connId (some id) = some back) :
    ∃ clip, h.kept[back]? = some clip ∧ clip.id = id := by
  rw [selectClipFiles] at hsel
  split at hsel
  · next hid =>
    obtain rfl := Option.some.inj hsel
    exact ⟨h.current, rfl, hid⟩
  · obtain ⟨n, hfind, rfl⟩ := Option.map_eq_some_iff.mp hsel
    obtain ⟨hlt, hp, -⟩ := List.findIdx?_eq_some_iff_getElem.mp hfind
    exact ⟨_, List.getElem?_eq_getElem hlt, (of_decide_eq_true hp).1⟩

/-- The reply, once the list has been chosen. -/
theorem readFileContents_reply (disk : Disk) {fcr : FileContentsRequest} {clip : ClipFiles}
    (hfcr : r.fcr = .ok fcr)
    (hsel : selectClipFiles h.current h.retired r.connId r.clipDataId = some back)
    (hback : h.kept[back]? = some clip) :
    (h.readFileContents disk r).1 = (clip.answer disk r.connId (back ≠ 0) fcr).1 := by
  rw [Host.readFileContents, hfcr]
  simp only
  rw [hsel, Option.bind_some, hback]
  rfl

theorem readFileContents_unselected {fcr : FileContentsRequest} (hfcr : r.fcr = .ok fcr)
    (hsel : selectClipFiles h.current h.retired r.connId r.clipDataId = none) :
    Refused (h.readFileContents disk r).1 := by
  rw [Host.readFileContents, hfcr]
  simp only
  rw [hsel, Option.bind_none]
  intro x hx
  rw [List.mem_singleton] at hx
  exact ⟨_, hx⟩

/-- A request that does not parse is refused. -/
theorem readFileContents_malformed {e : CliprdrError} (hfcr : r.fcr = .error e) :
    Refused (h.readFileContents disk r).1 := by
  rw [Host.readFileContents, hfcr]
  intro x hx
  rw [List.mem_singleton] at hx
  exact ⟨_, hx⟩

/-- A request that names a list is answered from the copy with that id. -/
theorem answered_named (h : s.Tracked) (hids : s.DistinctIds) (disk : Disk) (r : ReadRequest)
    {id : Int32} (hid : r.clipDataId = some id) : Refused (s.host.readFileContents disk r).1 ∨
      (∃ c ∈ s.made, c.id = id) ∧ ∀ c ∈ s.made, c.id = id → s.AnsweredFrom disk r c := by
  cases hfcr : r.fcr with
  | error e => exact Or.inl (readFileContents_malformed hfcr)
  | ok fcr =>
    cases hsel : selectClipFiles s.host.current s.host.retired r.connId r.clipDataId with
    | none => exact Or.inl (readFileContents_unselected hfcr hsel)
    | some back =>
      have hnamed := hsel
      rw [hid] at hnamed
      obtain ⟨clip, hback, hclip⟩ := select_named hnamed
      have hreply := readFileContents_reply disk hfcr hsel hback
      have hmem := List.mem_of_getElem? hback
      rcases h.known clip.label (List.mem_map_of_mem hmem) with hblank | ⟨hmade, hlabel⟩
      · -- nothing was copied yet
        have hempty : clip.fileList = [] := List.map_eq_nil_iff.mp (congrArg Copy.files hblank)
        rw [hreply]
        exact Or.inl (answer_refused disk hempty r.connId _ fcr)
      · have hcopy : clip.copy.id = id := hlabel.symm.trans hclip
        refine Or.inr ⟨⟨clip.copy, hmade, hcopy⟩, fun c hc hcid => ?_⟩
        exact ⟨clip, hmem, fcr, _, hids _ hmade _ hc (hcopy.trans hcid.symm), hfcr, hreply⟩

/-- A request that names no list, in time, is answered from the copy its connection was sent last.
-/
theorem answered_last (h : s.Tracked) (disk : Disk) (r : ReadRequest) (hid : r.clipDataId = none)
    {c : Copy} {age : ℕ} (hsent : s.sent r.connId = some (c, age))
    (hage : age ≤ maxRetiredClipFiles) :
    Refused (s.host.readFileContents disk r).1 ∨ s.AnsweredFrom disk r c := by
  cases hfcr : r.fcr with
  | error e => exact Or.inl (readFileContents_malformed hfcr)
  | ok fcr =>
    obtain ⟨l, hl, hcopy, hconn, hfront⟩ := h.last r.connId c age hsent hage
    rw [Host.labels, List.getElem?_map] at hl
    obtain ⟨clip, hback, rfl⟩ := Option.map_eq_some_iff.mp hl
    have hsel : selectClipFiles s.host.current s.host.retired r.connId r.clipDataId = some age := by
      rw [hid]
      refine select_last hback hconn fun i hi m hm => hfront i hi m.label ?_
      rw [Host.labels, List.getElem?_map, hm]
      rfl
    exact Or.inr ⟨clip, List.mem_of_getElem? hback, fcr, _, hcopy, hfcr,
      readFileContents_reply disk hfcr hsel hback⟩

/-- **A paste reads its own list.** In every sequence of calls, if no two copies have the same id
and every request that names no list comes before a fifth list was retired since its connection was
sent one, every request is answered from the list it means, or refused. -/
theorem paste_reads_its_list (calls : List Call)
    (hids : Along step (fun s _ => s.DistinctIds) start calls)
    (htime : Along step InTime start calls) : Along step Answered start calls := by
  have hboth : Along step (fun s call => s.DistinctIds ∧ s.InTime call) start calls :=
    along_and hids htime
  refine along_of_invariant (fun s call s' h _ => step_tracked s call s' h) ?_ start_tracked hboth
  rintro s call h ⟨hids, htime⟩
  cases call with
  | readFileContents disk r =>
    refine ⟨fun id hid => answered_named h hids disk r hid, fun hid c age hsent => ?_⟩
    exact answered_last h disk r hid hsent (htime hid _ hsent)
  | syncFiles => trivial
  | getFileListPdu => trivial
  | clearFiles => trivial

/-! ### Five copies later -/

/-- Files of four bytes: their content is their name. -/
def fourBytes : Disk where
  metadata _ := none
  isFile _ := true
  openFile path := path.getLast?.map Char.toNat
  readExact inode _ length := some (List.replicate length (UInt8.ofNat inode))
  handleMetadata _ := some ⟨4, some 1700000000000000000, false⟩
  constructFileList files := .ok (files.map fun name => { plainFile name with size := 4 })

/-- The user copies the file with this name. -/
def copyFile (name : Char) : Call :=
  .syncFiles fourBytes [[name]] ⟨List.replicate 16 (UInt8.ofNat name.toNat), List.length_replicate⟩

/-- A connection reads the first file, and names no list. -/
def readFirst (connId : Int32) : Call :=
  .readFileContents fourBytes ⟨connId, 7, 0, 0x2, 0, 0, 4, none⟩

theorem paste_reads_its_list_recopied :
    Along step Answered start [copyFile 'a', .getFileListPdu 1, copyFile 'b', readFirst 1] :=
  paste_reads_its_list _ (by decide +kernel) (by decide +kernel)

/-- One connection is sent the first of six copies, another the four after it. -/
def sixCopies : List Call :=
  [copyFile 'a', .getFileListPdu 1, copyFile 'b', .getFileListPdu 2, copyFile 'c',
    .getFileListPdu 2,
    copyFile 'd', .getFileListPdu 2, copyFile 'e', .getFileListPdu 2, copyFile 'f']

/-- The first connection, which was sent `a` and names no list, then reads `f`. -/
theorem evicted_list_reads_current :
    Along step (fun s _ => s.DistinctIds) start (sixCopies ++ [readFirst 1]) ∧
      ¬Along step Answered start (sixCopies ++ [readFirst 1]) := by
  refine ⟨by decide +kernel, fun hall => ?_⟩
  have hrun : (exec step start sixCopies).any (fun s =>
      (s.host.readFileContents fourBytes ⟨1, 7, 0, 0x2, 0, 0, 4, none⟩).1.any
          (fun r => r.toOption = some (.fileContentsResponse 0x1 7 [102, 102, 102, 102])) &&
        (s.sent 1).any fun sent => s.host.kept.all fun clip => clip.copy ≠ sent.1) = true := by
          decide +kernel
  obtain ⟨s, hs, hp⟩ := (Option.any_eq_true _ _).mp hrun
  obtain ⟨hreply, hsent⟩ := Bool.and_eq_true_iff.mp hp
  obtain ⟨⟨c, age⟩, hc, hkept⟩ := (Option.any_eq_true _ _).mp hsent
  rcases (along_drop hall hs).1.2 rfl c age hc with hrefused | ⟨clip, hmem, _, _, hcopy, -⟩
  · obtain ⟨r, hr, hdata⟩ := List.any_eq_true.mp hreply
    obtain ⟨e, rfl⟩ := hrefused r hr
    cases of_decide_eq_true hdata
  · exact of_decide_eq_true (List.all_eq_true.mp hkept clip hmem) hcopy

end Session

end Clipboard
end BgDesk
