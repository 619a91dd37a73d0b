import Mathlib.Data.List.Nodup
import BgDesk.Machine
import BgDesk.FileSystem

/-!
# File transfer

`libs/base/src/fs.rs`: a `TransferJob` that reads a list of files into blocks, and one that
writes blocks into files. The writer puts a file together under its name with `.download`
appended, with a digest of the source beside it under `.digest`, and gives it its name when
the first block of the next file arrives, or the end of the job.

* `TransferJob.read`, `TransferJob.openDataStream` — the sender;
* `TransferJob.write`, `TransferJob.modifyTime`, `TransferJob.setFiles` — the receiver.

`compress` and `decompress` stand for the compression library.
-/

namespace BgDesk
namespace Fs

/-! ## Names -/

/-- `FileEntry`, as far as jobs read it. -/
structure FileEntry where
  name : PathName
  size : ℕ
  modifiedTime : ℕ
  deriving DecidableEq

/-- `get_ext`. -/
def getExt (name : PathName) : PathName :=
  if '.' ∈ name then (name.reverse.takeWhile (· ≠ '.')).reverse else []

/-- `is_compressed_file`. -/
def isCompressedFile (name : PathName) : Bool :=
  getExt name ∈ ["xz", "gz", "zip", "7z", "rar", "bz2", "tgz", "png", "jpg"].map String.toList

/-- `validate_file_name_no_traversal`. -/
def validateFileNameNoTraversal (name : PathName) : Except String Unit :=
  if '\x00' ∈ name then .error "file name contains null bytes"
  else if ['.', '.'] ∈ name.segments then .error "path traversal detected in file name"
  else if name.head? = some '/' then .error "absolute path detected in file name"
  else .ok ()

/-- `validate_transfer_file_names`, over all names but the one of a single file that has
none. -/
def validateNames : List FileEntry → Except String Unit
  | [] => .ok ()
  | file :: files =>
    if file.name = [] then .error "empty file name in multi-file transfer"
    else do
      validateFileNameNoTraversal file.name
      validateNames files

/-- `validate_transfer_file_names`. -/
def validateTransferFileNames (files : List FileEntry) : Except String Unit :=
  if files.length = 1 ∧ files.head?.any (fun f => f.name = []) then .ok () else validateNames files

/-- `validate_no_symlink_components`, from the path of the components before. -/
def walkComponents (fs : FileSys) : PathName → List PathName → Except String Unit
  | _, [] => .ok ()
  | current, seg :: segs =>
    if seg = ['.', '.'] then .error "invalid file name component"
    else if fs.symlink (current.join seg) then .error "symlink path component is not allowed"
    else walkComponents fs (current.join seg) segs

/-- `validate_no_symlink_components`. -/
def validateNoSymlinkComponents (fs : FileSys) (base name : PathName) : Except String Unit :=
  if name = [] then .ok ()
  else if name.head? = some '/' then .error "invalid file name component"
  else walkComponents fs base name.components

/-- `TransferJob::join`. -/
def join (p name : PathName) : PathName := if name = [] then p else p.join name

/-- `join_validated_path`. -/
def joinValidatedPath (fs : FileSys) (base name : PathName) : Except String PathName := do
  validateFileNameNoTraversal name
  validateNoSymlinkComponents fs base name
  return join base name

/-- The file a transfer is put together in. -/
def downloadPath (path : PathName) : PathName := path ++ ".download".toList

/-- The file with the digest of the source. -/
def digestPath (path : PathName) : PathName := path ++ ".digest".toList

/-! ## Jobs -/

/-- `JobType`. -/
inductive JobType where
  | generic
  | printer
  deriving DecidableEq

/-- `DataSource`. -/
inductive DataSource where
  | filePath (p : PathName)
  | memoryCursor (data : Bytes)
  deriving DecidableEq

/-- `DataStream`: an open file or a buffer, and the position in it. -/
inductive DataStream where
  | fileStream (path : PathName) (pos : ℕ)
  | bufStream (data : Bytes) (pos : ℕ)
  deriving DecidableEq

/-- `FileDigest`. -/
structure FileDigest where
  size : ℕ
  modified : ℕ
  deriving DecidableEq

/-- `json!(digest).to_string()`. -/
def FileDigest.json (d : FileDigest) : Bytes :=
  ("\x7b\"modified\":" ++ toString d.modified ++ ",\"size\":" ++ toString d.size ++
    "\x7d").toUTF8.toList

/-- `FileTransferBlock`. A file number is an `i32`, and a list of files shorter than `2 ^ 31`; the
code compares it as a `usize`, so a negative one is past every list. -/
structure Block where
  id : ℤ
  fileNum : ℕ
  data : Bytes
  compressed : Bool
  deriving DecidableEq

/-- `TransferJob`, as far as reading and writing use it. -/
structure TransferJob where
  id : ℤ
  jobType : JobType
  dataSource : DataSource
  fileNum : ℕ
  files : List FileEntry
  dataStream : Option DataStream
  totalSize : ℕ
  finishedSize : ℕ
  transferred : ℕ
  enableOverwriteDetection : Bool
  fileConfirmed : Bool
  fileIsWaiting : Bool
  digest : FileDigest
  deriving DecidableEq

/-- What a job, and the file system, become, and what the call returns. -/
structure Called (α : Type) where
  job : TransferJob
  fs : FileSys
  result : Except String α

/-- What becomes of the calls of the system in one call of `write`: whether `modify_time` can
rename, whether the stream before can be synced, the digest of an earlier transfer be removed and
the new file be created, and how much of the data reaches the file where `write_all` fails. -/
structure WriteIo where
  renames : Bool
  syncs : Bool
  removes : Bool
  creates : Bool
  written : Option ℕ
  deriving DecidableEq

/-- All calls succeed. -/
def WriteIo.ok : WriteIo := ⟨true, true, true, true, none⟩

theorem WriteIo.ok_renames : WriteIo.ok.renames = true := rfl

/-- One of the calls fails that `write` reports. -/
def WriteIo.failed (io : WriteIo) : Bool :=
  !io.syncs || !io.removes || !io.creates || io.written.isSome

theorem WriteIo.ok_failed : WriteIo.ok.failed = false := rfl

/-- A file that is open stays open when it gets its name. -/
def DataStream.renamed (path : PathName) : DataStream → DataStream
  | .fileStream p pos => .fileStream (if p = downloadPath path then path else p) pos
  | .bufStream data pos => .bufStream data pos

namespace TransferJob

/-- `TransferJob::new_write`. -/
def newWrite (id : ℤ) (jobType : JobType) (dataSource : DataSource) (fileNum : ℕ)
    (enableOverwriteDetection : Bool) : TransferJob :=
  ⟨id, jobType, dataSource, fileNum, [], none, 0, 0, 0, enableOverwriteDetection, false,
    false, ⟨0, 0⟩⟩

/-- `TransferJob::new_read`, given the files it finds. -/
def newRead (id : ℤ) (jobType : JobType) (dataSource : DataSource) (fileNum : ℕ)
    (enableOverwriteDetection : Bool) (files : List FileEntry) : TransferJob :=
  { newWrite id jobType dataSource fileNum enableOverwriteDetection with
    files := files
    totalSize := match dataSource with
      | .filePath _ => (files.map FileEntry.size).sum
      | .memoryCursor data => data.length }

/-- The check of all names for symbolic links in `set_files`. -/
def validateAllNoSymlink (fs : FileSys) (base : PathName) : List FileEntry → Except String Unit
  | [] => .ok ()
  | file :: files => do
    validateNoSymlinkComponents fs base file.name
    validateAllNoSymlink fs base files

/-- `set_files`. -/
def setFiles (job : TransferJob) (fs : FileSys) (files : List FileEntry) :
    Except String TransferJob := do
  validateTransferFileNames files
  match job.dataSource with
    | .filePath base => validateAllNoSymlink fs base files
    | .memoryCursor _ => pure ()
  return { job with files := files, totalSize := (files.map FileEntry.size).sum }

/-- `resolve_entry_path`. -/
def resolveEntryPath (job : TransferJob) (fs : FileSys) (base name : PathName) : Option PathName :=
  match job.jobType with
  | .generic => (joinValidatedPath fs base name).toOption
  | .printer => some (join base name)

/-- `modify_time`: the file that was put together gets its name, unless `rename` fails. -/
def modifyTime (job : TransferJob) (fs : FileSys) (renames : Bool := true) : FileSys :=
  match job.jobType, job.dataSource with
  | .generic, .filePath p =>
    match job.files[job.fileNum]? with
    | none => fs
    | some entry =>
      match job.resolveEntryPath fs p entry.name with
      | none => fs
      | some path =>
        let fs := fs.remove (digestPath path)
        (if renames then fs.rename (downloadPath path) path else fs).setMtime path
          entry.modifiedTime
  | _, _ => fs

/-- `remove_download_file`. -/
def removeDownloadFile (job : TransferJob) (fs : FileSys) : FileSys :=
  match job.jobType, job.dataSource with
  | .generic, .filePath p =>
    match job.files[job.fileNum]? with
    | none => fs
    | some entry =>
      match job.resolveEntryPath fs p entry.name with
      | none => fs
      | some path => (fs.remove (downloadPath path)).remove (digestPath path)
  | _, _ => fs

/-! ## Writing -/

section Write

variable (decompress : Bytes → Bytes)

/-- The end of `write`: the data of a block goes to the stream. -/
def writeData (job : TransferJob) (fs : FileSys) (block : Block) (io : WriteIo := .ok) :
    Called Unit :=
  let data := if block.compressed then decompress block.data else block.data
  let job' := { job with finishedSize := job.finishedSize + data.length
                         transferred := job.transferred + block.data.length }
  match job.dataStream with
  | none => ⟨job, fs, .error (if block.compressed then "data stream is None" else "file is None")⟩
  | some (.fileStream path pos) =>
    match io.written with
    | none =>
      ⟨{ job' with dataStream := some (.fileStream path (pos + data.length)) },
        fs.writeAt path pos data, .ok ()⟩
    | some n =>
      ⟨{ job with dataStream := some (.fileStream path (pos + (data.take n).length)) },
        fs.writeAt path pos (data.take n), .error "write_all"⟩
  | some (.bufStream content pos) =>
    ⟨{ job' with dataStream := some (.bufStream
        (content.take pos ++ data ++ content.drop (pos + data.length)) (pos + data.length)) },
          fs, .ok ()⟩

/-- The stream once `modify_time` has renamed. -/
def streamRenamed (job : TransferJob) (fs : FileSys) (p : PathName) (renames : Bool) :
    Option DataStream :=
  match job.jobType, (job.files[job.fileNum]?).bind fun entry =>
    job.resolveEntryPath fs p entry.name, renames with
  | .generic, some path, true => job.dataStream.map (DataStream.renamed path)
  | _, _, _ => job.dataStream

/-- The part of `write` that goes to another file: the one before gets its name, and the file
to put this one together in is created. Where that fails the stream is the one before. -/
def openBlockFile (job : TransferJob) (fs : FileSys) (p : PathName) (fileNum : ℕ)
    (entry : FileEntry) (io : WriteIo := .ok) : Called Unit :=
  let stream := job.streamRenamed fs p io.renames
  let fs := job.modifyTime fs io.renames
  let job := { job with dataStream := stream }
  if job.dataStream ≠ none ∧ io.syncs = false then ⟨job, fs, .error "sync_all"⟩
  else
    let job := { job with fileNum := fileNum }
    match job.jobType with
    | .printer =>
      if io.creates then ⟨{ job with dataStream := some (.fileStream p 0) }, fs.write p [], .ok ()⟩
      else ⟨job, fs, .error "create"⟩
    | .generic =>
      match joinValidatedPath fs p entry.name with
      | .error err => ⟨job, fs, .error err⟩
      | .ok path =>
        if io.removes = false then ⟨job, fs, .error "remove_file"⟩
        else
          let fs := fs.remove (digestPath path)
          if io.creates then
            ⟨{ job with dataStream := some (.fileStream (downloadPath path) 0) },
              (fs.write (downloadPath path) []).write (digestPath path) job.digest.json, .ok ()⟩
          else ⟨job, fs, .error "create"⟩

/-- `write`. -/
def write (job : TransferJob) (fs : FileSys) (block : Block) (io : WriteIo := .ok) : Called Unit :=
  if block.id ≠ job.id then ⟨job, fs, .error "Wrong id"⟩
  else
    match job.dataSource with
    | .filePath p =>
      match job.files[block.fileNum]? with
      | none => ⟨job, fs, .error "Wrong file number"⟩
      | some entry =>
        if block.fileNum ≠ job.fileNum ∨ job.dataStream = none then
          match job.openBlockFile fs p block.fileNum entry io with
          | ⟨job, fs, .ok ()⟩ => job.writeData decompress fs block io
          | called => called
        else job.writeData decompress fs block io
    | .memoryCursor data =>
      let job :=
        if job.dataStream = none then { job with dataStream := some (.bufStream data 0) } else job
      job.writeData decompress fs block io

end Write

/-! ## Reading -/

/-- The loop of `read` that fills the buffer: `read` on the stream returns at least one byte
unless it is at the end or the buffer is full, and how many is for `want` to say, by what is
left; `none` is an I/O error. -/
def fill (want : ℕ → Option ℕ) : ℕ → ℕ → Bytes → Option Bytes
  | 0, _, _ => some []
  | fuel + 1, space, src =>
    match want src.length with
    | none => none
    | some n =>
      let n := min (max n 1) (min space src.length)
      if n = 0 ∨ n = space then some (src.take n)
      else (fill want fuel (space - n) (src.drop n)).map (src.take n ++ ·)

/-- `BUF_SIZE`. -/
def bufSize : ℕ := 128 * 1024

/-- The bytes of a stream, and the position. -/
def streamBytes (fs : FileSys) : DataStream → Bytes × ℕ
  | .fileStream path pos => (((fs.content path).getD []).drop pos, pos)
  | .bufStream data pos => (data.drop pos, pos)

/-- The stream at another position. -/
def seek : DataStream → ℕ → DataStream
  | .fileStream path _, pos => .fileStream path pos
  | .bufStream data _, pos => .bufStream data pos

/-- `open_data_stream`: whether the job is done. `canOpen` is false where the file cannot be
opened. -/
def openDataStream (job : TransferJob) (canOpen : Bool) : TransferJob × Except String Bool :=
  match job.dataSource with
  | .filePath p =>
    match job.files[job.fileNum]? with
    | none => ({ job with dataStream := none }, .ok true)
    | some entry =>
      if job.dataStream = none then
        if canOpen then
          ({ job with dataStream := some (.fileStream (join p entry.name) 0)
                      fileConfirmed := false, fileIsWaiting := false }, .ok false)
        else
          ({ job with fileNum := job.fileNum + 1, fileConfirmed := false, fileIsWaiting := false },
            .error "open")
      else (job, .ok false)
  | .memoryCursor data =>
    if job.dataStream = none then
      ({ job with dataStream := some (.bufStream data 0), dataSource := .memoryCursor [] },
        .ok false)
    else (job, .ok false)

section Read

variable (compress : Bytes → Bytes)

/-- The job at the file after this one. -/
def nextFile (job : TransferJob) : TransferJob :=
  { job with fileNum := job.fileNum + 1, dataStream := none, fileConfirmed := false
             fileIsWaiting := false }

/-- The data of a block: compressed where that is shorter, and the file is not compressed
already. -/
def pack (name : PathName) (filePath : Bool) (buf : Bytes) : Bytes × Bool :=
  if filePath && !isCompressedFile name && (compress buf).length <
    buf.length then (compress buf, true)
  else (buf, false)

/-- The name `read` judges a file by. -/
def readName (job : TransferJob) (p : PathName) (entry : FileEntry) : PathName :=
  if job.files.length = 1 ∧ entry.name = [] then p.fileName.getD [] else entry.name

/-- `read`, past its checks, for the file it calls `name`. -/
def readBlock (job : TransferJob) (fs : FileSys) (want : ℕ → Option ℕ) (name : PathName)
    (filePath : Bool) : TransferJob × Except String (Option Block) :=
  match job.dataStream with
  | none => (job, .error "data stream is None")
  | some stream =>
    let (src, pos) := streamBytes fs stream
    match fill want (src.length + 1) bufSize src with
    | none => (job.nextFile, .error "read")
    | some buf =>
      if buf = [] then
        if filePath then (job.nextFile, .ok (some ⟨job.id, job.fileNum, [], false⟩))
        else ({ job with dataStream := none }, .ok none)
      else
        let (data, compressed) := pack compress name filePath buf
        ({ job with dataStream := some (seek stream (pos + buf.length))
                    finishedSize := job.finishedSize + buf.length
                    transferred := job.transferred + data.length },
          .ok (some ⟨job.id, job.fileNum, data, compressed⟩))

/-- `read`. -/
def read (job : TransferJob) (fs : FileSys) (want : ℕ → Option ℕ) :
    TransferJob × Except String (Option Block) :=
  if job.jobType = .generic ∧ job.enableOverwriteDetection ∧ !job.fileConfirmed then (job, .ok none)
  else
    match job.dataSource with
    | .filePath p =>
      match job.files[job.fileNum]? with
      | none => ({ job with dataStream := none }, .ok none)
      | some entry => job.readBlock compress fs want (job.readName p entry) true
    | .memoryCursor _ => job.readBlock compress fs want [] false

end Read

end TransferJob

/-! ## What the names allow -/

theorem validateFileNameNoTraversal_ok {name : PathName}
    (h : validateFileNameNoTraversal name = .ok ()) :
    ['.', '.'] ∉ name.segments ∧ name.head? ≠ some '/' := by
  rw [validateFileNameNoTraversal] at h
  split at h
  · cases h
  · split at h
    · cases h
    · next hseg =>
      split at h
      · cases h
      · next hroot => exact ⟨hseg, hroot⟩

/-- Where there are no symbolic links, only `..` stops the walk. -/
theorem walkComponents_ok {fs : FileSys} (hfs : ∀ p, fs.symlink p = false) :
    ∀ {segs : List PathName} {current : PathName}, ['.', '.'] ∉ segs →
      walkComponents fs current segs = .ok () := by
  intro segs
  induction segs with
  | nil =>
    intro current _
    rfl
  | cons seg segs ih =>
    intro current hseg
    rw [List.mem_cons, not_or] at hseg
    rw [walkComponents, if_neg (Ne.symm hseg.1), hfs]
    exact ih hseg.2

/-- A name that passes its check can be joined. -/
theorem joinValidatedPath_ok {fs : FileSys} (hfs : ∀ p, fs.symlink p = false) {base name : PathName}
    (h : validateFileNameNoTraversal name = .ok ()) :
    joinValidatedPath fs base name = .ok (join base name) := by
  obtain ⟨hseg, hroot⟩ := validateFileNameNoTraversal_ok h
  have hwalk : validateNoSymlinkComponents fs base name = .ok () := by
    rw [validateNoSymlinkComponents]
    split
    · rfl
    · exact walkComponents_ok hfs fun hmem => hseg (List.mem_filter.mp hmem).1
  rw [joinValidatedPath, h, hwalk]
  rfl

theorem validateNames_ok : ∀ {files : List FileEntry}, validateNames files = .ok () →
    ∀ f ∈ files, f.name ≠ [] ∧ validateFileNameNoTraversal f.name = .ok () := by
  intro files
  induction files with
  | nil =>
    intro _ f hf
    cases hf
  | cons file files ih =>
    intro h f hf
    rw [validateNames] at h
    split at h
    · cases h
    · next hne =>
      cases hv : validateFileNameNoTraversal file.name with
      | error err =>
        rw [hv] at h
        cases h
      | ok u =>
        rw [hv] at h
        rcases List.mem_cons.mp hf with rfl | hf
        · exact ⟨hne, hv⟩
        · exact ih h f hf

/-- What `validate_transfer_file_names` accepts: a single file without a name, or names that
all pass their check. -/
theorem validateTransferFileNames_ok {files : List FileEntry}
    (h : validateTransferFileNames files = .ok ()) : (∃ f, files = [f] ∧ f.name = []) ∨
      ∀ f ∈ files, f.name ≠ [] ∧ validateFileNameNoTraversal f.name = .ok () := by
  rw [validateTransferFileNames] at h
  split at h
  · next hone =>
    obtain ⟨f, rfl⟩ := List.length_eq_one_iff.mp hone.1
    exact .inl ⟨f, rfl, by simpa using hone.2⟩
  · exact .inr (validateNames_ok h)

namespace TransferJob

theorem setFiles_ok {job job' : TransferJob} {fs : FileSys} {files : List FileEntry}
    (h : job.setFiles fs files = .ok job') : validateTransferFileNames files = .ok () ∧
      job' = { job with files := files, totalSize := (files.map FileEntry.size).sum } := by
  rw [setFiles] at h
  cases hv : validateTransferFileNames files with
  | error err =>
    rw [hv] at h
    cases h
  | ok u =>
    refine ⟨rfl, ?_⟩
    rw [hv] at h
    cases hd : job.dataSource with
    | memoryCursor data =>
      simp only [hd] at h
      exact (Except.ok.inj h).symm
    | filePath base =>
      simp only [hd] at h
      cases hs : validateAllNoSymlink fs base files with
      | error err =>
        rw [hs] at h
        cases h
      | ok u =>
        rw [hs] at h
        exact (Except.ok.inj h).symm

end TransferJob

/-! ## The files of a finished transfer -/

section Settled

variable (path : ℕ → PathName) (node : ℕ → FileNode)

/-- The files once the first `k` files of a transfer into an empty directory have their names:
each of them is there, and the two files beside it are gone. -/
def settled : ℕ → PathName → Option FileNode
  | 0, _ => none
  | k + 1, p =>
    if p = path k then some (node k)
    else if p = downloadPath (path k) ∨ p = digestPath (path k) then none
    else settled k p

/-- The files while file `k` is put together and `d` of it has come. -/
def holding (json : Bytes) (k : ℕ) (d : Bytes) (p : PathName) : Option FileNode :=
  if p = downloadPath (path k) then some ⟨d, none⟩
  else if p = digestPath (path k) then some ⟨json, none⟩
  else settled path node k p

variable {path} {node}

/-- A later file lies in wait for the path of an earlier one. -/
def Collides (path : ℕ → PathName) (j i : ℕ) : Prop :=
  path j = downloadPath (path i) ∨ path j = digestPath (path i)

/-- A file is still there unless a later one has taken its path for itself. -/
theorem settled_path (node : ℕ → FileNode) {n : ℕ}
    (hinj : ∀ i < n, ∀ j < n, path i = path j → i = j) {j : ℕ} : ∀ {k}, j < k → k ≤ n →
      ((∀ i < k, j < i → ¬ Collides path j i) → settled path node k (path j) = some (node j)) ∧
      ((∃ i < k, j < i ∧ Collides path j i) → settled path node k (path j) = none) := by
  intro k
  induction k with
  | zero =>
    intro hj
    cases hj
  | succ k ih =>
    intro hj hk
    rcases Nat.lt_succ_iff_lt_or_eq.mp hj with hj | rfl
    · have hne : path j ≠ path k := fun heq => hj.ne (hinj j (hj.trans hk) k hk heq)
      obtain ⟨ihfree, ihhit⟩ := ih hj (Nat.le_of_succ_le hk)
      refine ⟨fun hfree => ?_, ?_⟩
      · have hfreek : ¬ (path j = downloadPath (path k) ∨ path j = digestPath (path k)) :=
          hfree k (Nat.lt_succ_self k) hj
        rw [settled, if_neg hne, if_neg hfreek]
        exact ihfree fun i hi => hfree i (hi.trans (Nat.lt_succ_self k))
      · rintro ⟨i, hi, hji, hcol⟩
        rw [settled, if_neg hne]
        split
        · rfl
        · next hnot =>
          rcases Nat.lt_succ_iff_lt_or_eq.mp hi with hi | rfl
          · exact ihhit ⟨i, hi, hji, hcol⟩
          · exact absurd hcol hnot
    · refine ⟨fun _ => by rw [settled, if_pos rfl], ?_⟩
      rintro ⟨i, hi, hji, -⟩
      exact absurd hi (by omega)

theorem path_ne_downloadPath (p : PathName) : p ≠ downloadPath p := by
  intro h
  simpa [downloadPath] using congrArg List.length h

theorem path_ne_digestPath (p : PathName) : p ≠ digestPath p := by
  intro h
  simpa [digestPath] using congrArg List.length h

theorem downloadPath_ne_digestPath (p : PathName) : downloadPath p ≠ digestPath p := by
  intro h
  simpa [downloadPath, digestPath] using congrArg List.length h

end Settled

namespace TransferJob

/-! ## The receiver -/

section Receive

variable (decompress : Bytes → Bytes)

/-- Blocks are written one after the other; `none` where one of the calls fails. -/
def receive : TransferJob → FileSys → List Block → Option (TransferJob × FileSys)
  | job, fs, [] => some (job, fs)
  | job, fs, block :: blocks =>
    match job.write decompress fs block with
    | ⟨job, fs, .ok ()⟩ => receive job fs blocks
    | ⟨_, _, .error _⟩ => none

/-- The bytes a block stands for. -/
def decode (block : Block) : Bytes := if block.compressed then decompress block.data else block.data

variable {block : Block} {k : ℕ} {job : TransferJob} {fs : FileSys}

theorem receive_append {blocks : List Block} : ∀ {job job' : TransferJob} {fs fs' : FileSys},
      receive decompress job fs blocks = some (job', fs') →
      receive decompress job fs (blocks ++ [block]) = receive decompress job' fs' [block] := by
  induction blocks with
  | nil =>
    intro job job' fs fs' h
    obtain ⟨rfl, rfl⟩ := Prod.mk.inj (Option.some.inj h)
    rfl
  | cons b blocks ih =>
    intro job job' fs fs' h
    rw [receive] at h
    rw [List.cons_append, receive]
    split at h
    · exact ih h
    · cases h

/-- A job that writes the files under `q`. -/
structure Writes (q : PathName) (files : List FileEntry) (id : ℤ) (json : Bytes)
  (job : TransferJob) :
    Prop where
  id : job.id = id
  jobType : job.jobType = .generic
  dataSource : job.dataSource = .filePath q
  files : job.files = files
  json : job.digest.json = json

/-- Where entry `i` goes. -/
def entryPath (q : PathName) (files : List FileEntry) (i : ℕ) : PathName :=
  join q (files.getD i ⟨[], 0, 0⟩).name

/-- What entry `i` is to be. -/
def entryNode (files : List FileEntry) (contents : ℕ → Bytes) (i : ℕ) : FileNode :=
  ⟨contents i, some (files.getD i ⟨[], 0, 0⟩).modifiedTime⟩

variable {q : PathName} {files : List FileEntry} {contents : ℕ → Bytes} {id : ℤ} {json : Bytes}

/-- The receiver while it puts file `k` together and `d` of it has come. -/
structure Holding (q : PathName) (files : List FileEntry) (contents : ℕ → Bytes) (id : ℤ)
  (json : Bytes)
    (k : ℕ) (d : Bytes) (job : TransferJob) (fs : FileSys) : Prop where
  writes : Writes q files id json job
  fileNum : job.fileNum = k
  stream : job.dataStream = some (.fileStream (downloadPath (entryPath q files k)) d.length)
  files : fs.files = holding (entryPath q files) (entryNode files contents) json k d
  symlink : ∀ p, fs.symlink p = false

/-- The receiver before the first block of file `k`: giving the file before its name leaves
the first `k` files. -/
structure Ready (q : PathName) (files : List FileEntry) (contents : ℕ → Bytes) (id : ℤ)
  (json : Bytes)
    (k : ℕ) (job : TransferJob) (fs : FileSys) : Prop where
  writes : Writes q files id json job
  other : k ≠ job.fileNum ∨ job.dataStream = none
  files : (job.modifyTime fs).files = settled (entryPath q files) (entryNode files contents) k
  symlink : ∀ p, (job.modifyTime fs).symlink p = false

theorem getElem?_getD {i : ℕ} (hi : i < files.length) :
    files[i]? = some (files.getD i ⟨[], 0, 0⟩) := by
  rw [List.getD_eq_getElem?_getD, List.getElem?_eq_getElem hi]
  rfl

theorem writeData_holding {d : Bytes} (block : Block)
    (h : Holding q files contents id json k d job fs) :
    ∃ job' fs', job.writeData decompress fs block = ⟨job', fs', .ok ()⟩ ∧
      Holding q files contents id json k (d ++ decode decompress block) job' fs' := by
  rw [writeData, h.stream]
  refine ⟨_, _, rfl, ⟨h.writes.id, h.writes.jobType, h.writes.dataSource, h.writes.files,
    h.writes.json⟩,
    h.fileNum, ?_, ?_, h.symlink⟩
  · rw [List.length_append, decode]
  · funext p
    rw [FileSys.writeAt, h.files]
    by_cases hp : p = downloadPath (entryPath q files k)
    · subst hp
      simp [holding, decode]
    · simp [holding, hp]

/-- Another file is begun where no call fails that `write` reports. -/
theorem openBlockFile_opens {p path : PathName} {entry : FileEntry} {io : WriteIo}
    (hio : io.failed = false) (htype : job.jobType = .generic)
    (hpath : joinValidatedPath (job.modifyTime fs io.renames) p entry.name = .ok path)
    (fileNum : ℕ) : job.openBlockFile fs p fileNum entry io =
      ⟨{ job with fileNum := fileNum, dataStream := some (.fileStream (downloadPath path) 0) },
        (((job.modifyTime fs io.renames).remove (digestPath path)).write (downloadPath path)
          []).write
          (digestPath path) job.digest.json, .ok ()⟩ := by
  simp only [WriteIo.failed, Bool.or_eq_false_iff, Bool.not_eq_eq_eq_not, Bool.not_false] at hio
  obtain ⟨⟨⟨hsyncs, hremoves⟩, hcreates⟩, -⟩ := hio
  rw [openBlockFile]
  simp [htype, hpath, hsyncs, hremoves, hcreates]

theorem openBlockFile_holding
    (hname : validateFileNameNoTraversal (files.getD k ⟨[], 0, 0⟩).name = .ok ())
    (h : Ready q files contents id json k job fs) :
    ∃ job' fs', job.openBlockFile fs q k (files.getD k ⟨[], 0, 0⟩) = ⟨job', fs', .ok ()⟩ ∧
      Holding q files contents id json k [] job' fs' := by
  have hpath : joinValidatedPath _ q _ = _ := joinValidatedPath_ok h.symlink hname
  refine ⟨_, _, openBlockFile_opens WriteIo.ok_failed h.writes.jobType hpath k,
    ⟨h.writes.id, h.writes.jobType, h.writes.dataSource, h.writes.files, h.writes.json⟩,
    rfl, rfl, ?_, h.symlink⟩
  funext p
  have hne := downloadPath_ne_digestPath (entryPath q files k)
  have hfiles : (job.modifyTime fs WriteIo.ok.renames).files = _ := h.files
  simp only [FileSys.write, FileSys.remove, hfiles, h.writes.json]
  show Function.update (Function.update (Function.update _ (digestPath (entryPath q files k)) _)
    (downloadPath (entryPath q files k)) _) (digestPath (entryPath q files k)) _ p = _
  by_cases hd : p = digestPath (entryPath q files k)
  · subst hd
    simp [holding, hne.symm]
  · by_cases hp : p = downloadPath (entryPath q files k)
    · subst hp
      simp [holding, hne]
    · simp [holding, hd, hp]

/-- The first block of a file. -/
theorem write_ready (hk : k < files.length)
    (hname : validateFileNameNoTraversal (files.getD k ⟨[], 0, 0⟩).name = .ok ())
    (h : Ready q files contents id json k job fs) (hid : block.id = id) (hnum : block.fileNum = k) :
    ∃ job' fs', job.write decompress fs block = ⟨job', fs', .ok ()⟩ ∧
      Holding q files contents id json k (decode decompress block) job' fs' := by
  obtain ⟨job₁, fs₁, hopen, hh⟩ := openBlockFile_holding hname h
  obtain ⟨job', fs', hwrite, hh'⟩ := writeData_holding decompress block hh
  refine ⟨job', fs', ?_, hh'⟩
  rw [write, if_neg (by simp [hid, h.writes.id])]
  simp only [h.writes.dataSource, h.writes.files, hnum, getElem?_getD hk]
  rw [if_pos h.other]
  simp only [hopen, hwrite]

/-- The other blocks of a file. -/
theorem write_holding {d : Bytes} (hk : k < files.length)
    (h : Holding q files contents id json k d job fs) (hid : block.id = id)
    (hnum : block.fileNum = k) : ∃ job' fs', job.write decompress fs block = ⟨job', fs', .ok ()⟩ ∧
      Holding q files contents id json k (d ++ decode decompress block) job' fs' := by
  obtain ⟨job', fs', hwrite, hh'⟩ := writeData_holding decompress block h
  refine ⟨job', fs', ?_, hh'⟩
  rw [write, if_neg (by simp [hid, h.writes.id])]
  simp only [h.writes.dataSource, h.writes.files, hnum, getElem?_getD hk]
  rw [if_neg (by simp [h.fileNum, h.stream])]
  exact hwrite

/-- A complete file gets its name. -/
theorem modifyTime_holding (hk : k < files.length)
    (hname : validateFileNameNoTraversal (files.getD k ⟨[], 0, 0⟩).name = .ok ())
    (h : Holding q files contents id json k (contents k) job fs) :
    (job.modifyTime fs).files = settled (entryPath q files) (entryNode files contents) (k + 1) ∧
      ∀ p, (job.modifyTime fs).symlink p = false := by
  have hpath : job.resolveEntryPath fs q (files.getD k ⟨[], 0, 0⟩).name =
      some (entryPath q files k) := by
    rw [resolveEntryPath, h.writes.jobType]
    simp only [joinValidatedPath_ok h.symlink hname]
    rfl
  have hne := downloadPath_ne_digestPath (entryPath q files k)
  have hne₁ := path_ne_downloadPath (entryPath q files k)
  have hne₂ := path_ne_digestPath (entryPath q files k)
  have hdown : (fs.remove (digestPath (entryPath q files k))).files
    (downloadPath (entryPath q files k)) =
      some ⟨contents k, none⟩ := by
    simp [FileSys.remove, h.files, holding, hne]
  simp only [modifyTime, h.writes.jobType, h.writes.dataSource, h.writes.files, h.fileNum,
    getElem?_getD hk, hpath]
  rw [FileSys.rename, hdown]
  refine ⟨?_, h.symlink⟩
  funext p
  by_cases hp : p = entryPath q files k
  · subst hp
    simp [FileSys.setMtime, settled, entryNode]
  · by_cases hd : p = downloadPath (entryPath q files k)
    · subst hd
      simp [FileSys.setMtime, settled, hp]
    · by_cases hg : p = digestPath (entryPath q files k)
      · subst hg
        simp [FileSys.setMtime, FileSys.remove, settled, hp, hd]
      · simp [FileSys.setMtime, FileSys.remove, h.files, holding, settled, hp, hd, hg]

/-- After a complete file, the receiver is ready for the next. -/
theorem Holding.ready (hk : k < files.length)
    (hname : validateFileNameNoTraversal (files.getD k ⟨[], 0, 0⟩).name = .ok ())
    (h : Holding q files contents id json k (contents k) job fs) :
    Ready q files contents id json (k + 1) job fs := by
  obtain ⟨hfiles, hsym⟩ := modifyTime_holding hk hname h
  exact ⟨h.writes, .inl (by rw [h.fileNum]; exact Nat.succ_ne_self k), hfiles, hsym⟩

/-- In an empty directory there is nothing to give a name to. -/
theorem modifyTime_empty (job : TransferJob) : job.modifyTime FileSys.empty = FileSys.empty := by
  rw [modifyTime]
  split
  · split
    · rfl
    · split
      · rfl
      · simp [FileSys.rename, FileSys.remove, FileSys.setMtime, FileSys.empty]
  · rfl

theorem ready_start (hw : Writes q files id json job) (hs : job.dataStream = none) :
    Ready q files contents id json 0 job FileSys.empty := by
  refine ⟨hw, .inr hs, ?_, ?_⟩
  · rw [modifyTime_empty]
    rfl
  · rw [modifyTime_empty]
    exact fun _ => rfl

end Receive

/-! ## The sender -/

/-- However the reads of a stream come out, the buffer is filled. -/
theorem fill_eq (want : ℕ → ℕ) : ∀ {fuel space : ℕ} {src : Bytes}, src.length < fuel → 0 < space →
    fill (fun n => some (want n)) fuel space src = some (src.take space) := by
  intro fuel
  induction fuel with
  | zero =>
    intro space src h
    cases h
  | succ fuel ih =>
    intro space src hlen hspace
    rw [fill]
    dsimp only
    set n := min (max (want src.length) 1) (min space src.length) with hn
    have hle : n ≤ space := (min_le_right _ _).trans (min_le_left _ _)
    split
    · next h =>
      rcases h with h | h
      · -- nothing was read: the end of the stream
        have hnil : src = [] := List.length_eq_zero_iff.mp (by omega)
        rw [hnil, List.take_nil, List.take_nil]
      · rw [h]
    · next h =>
      rw [not_or] at h
      have hdrop : (src.drop n).length < fuel := by
        rw [List.length_drop]
        omega
      rw [ih hdrop (by omega), Option.map_some, ← List.take_add, Nat.add_sub_cancel' hle]

/-- A job that reads, and the blocks it has produced. -/
structure Sender where
  job : TransferJob
  emitted : List Block

/-- What happens to a job that reads. -/
inductive SendAct where
  | openStream
  /-- the peer has confirmed the file -/
  | confirm
  /-- a block is read, the reads of the stream being as `want` says -/
  | read (want : ℕ → ℕ)

section Send

variable (compress decompress : Bytes → Bytes) (src : FileSys)

/-- The sender, without I/O errors. -/
def send (s : Sender) : SendAct → Option Sender
  | .openStream =>
    match s.job.openDataStream true with
    | (job, .ok _) => some { s with job := job }
    | (_, .error _) => none
  | .confirm => some { s with job := { s.job with fileConfirmed := true } }
  | .read want =>
    match s.job.read compress src (fun n => some (want n)) with
    | (job, .ok (some block)) => some ⟨job, s.emitted ++ [block]⟩
    | (job, .ok none) => some { s with job := job }
    | (_, .error _) => none

variable {q : PathName} {files : List FileEntry} {id : ℤ} {json : Bytes} {p : PathName}
  {rj : TransferJob}

/-- The bytes of entry `i` at the source. -/
def sourceBytes (src : FileSys) (p : PathName) (files : List FileEntry) (i : ℕ) : Bytes :=
  (src.content (entryPath p files i)).getD []

/-- How far the receiver is with what the sender has produced: it is ready for the current
file, or holds what was read of it. -/
def InStep (q : PathName) (files : List FileEntry) (contents : ℕ → Bytes) (id : ℤ) (json : Bytes)
    (rj : TransferJob) (emitted : List Block) (k pos : ℕ) : Prop :=
  ∃ job fs, receive decompress rj FileSys.empty emitted = some (job, fs) ∧
    (pos = 0 ∧ Ready q files contents id json k job fs ∨
      k < files.length ∧ Holding q files contents id json k ((contents k).take pos) job fs)

/-- The sender at a file and a position in it, with the receiver in step. -/
structure Sending (p q : PathName) (files : List FileEntry) (id : ℤ) (json : Bytes)
  (rj : TransferJob)
    (s : Sender) (pos : ℕ) : Prop where
  jobId : s.job.id = id
  dataSource : s.job.dataSource = .filePath p
  jobFiles : s.job.files = files
  le : s.job.fileNum ≤ files.length
  stream : s.job.dataStream = none ∧ pos = 0 ∨
    s.job.fileNum < files.length ∧
      s.job.dataStream = some (.fileStream (entryPath p files s.job.fileNum) pos)
  inStep : InStep decompress q files (sourceBytes src p files)
    id json rj s.emitted s.job.fileNum pos

variable {compress decompress src}

variable {pos : ℕ} {s s' : Sender}

/-- A block of the current file, with the bytes that follow. -/
theorem InStep.write {emitted : List Block} {contents : ℕ → Bytes} {k n : ℕ} (block : Block)
    (hk : k < files.length)
    (hname : validateFileNameNoTraversal (files.getD k ⟨[], 0, 0⟩).name = .ok ())
    (h : InStep decompress q files contents id json rj emitted k pos) (hid : block.id = id)
    (hnum : block.fileNum = k) (hdata : decode decompress block = ((contents k).drop pos).take n) :
    ∃ job fs, receive decompress rj FileSys.empty (emitted ++ [block]) = some (job, fs) ∧
      Holding q files contents id json k ((contents k).take (pos + n)) job fs := by
  obtain ⟨job, fs, hrecv, hcase⟩ := h
  rw [List.take_add, ← hdata]
  rcases hcase with ⟨rfl, hready⟩ | ⟨-, hhold⟩
  · obtain ⟨job', fs', hwrite, hh⟩ := write_ready decompress hk hname hready hid hnum
    refine ⟨job', fs', ?_, by simpa using hh⟩
    rw [receive_append decompress hrecv, receive, hwrite]
    rfl
  · obtain ⟨job', fs', hwrite, hh⟩ := write_holding decompress hk hhold hid hnum
    refine ⟨job', fs', ?_, hh⟩
    rw [receive_append decompress hrecv, receive, hwrite]
    rfl

theorem decode_pack (hcodec : ∀ x, decompress (compress x) = x) (name : PathName) (filePath : Bool)
    (buf : Bytes) (id : ℤ) (k : ℕ) : decode decompress ⟨id, k, (pack compress name filePath buf).1,
      (pack compress name filePath buf).2⟩ =
      buf := by
  rw [pack, decode]
  split
  · exact hcodec buf
  · rfl

theorem Sending.openStream (h : Sending decompress src p q files id json rj s pos)
    (hs : send compress src s .openStream = some s') :
    ∃ pos', Sending decompress src p q files id json rj s' pos' := by
  simp only [send, openDataStream, h.dataSource, h.jobFiles] at hs
  by_cases hk : s.job.fileNum < files.length
  · rw [getElem?_getD hk] at hs
    rcases h.stream with ⟨hnone, rfl⟩ | ⟨-, hsome⟩
    · simp only [hnone, if_true] at hs
      obtain rfl := Option.some.inj hs
      exact ⟨0, h.jobId, rfl, rfl, h.le, .inr ⟨hk, rfl⟩, h.inStep⟩
    · simp only [hsome, reduceCtorEq, if_false] at hs
      obtain rfl := Option.some.inj hs
      exact ⟨pos, h⟩
  · rw [List.getElem?_eq_none (Nat.le_of_not_lt hk)] at hs
    rcases h.stream with ⟨-, rfl⟩ | ⟨hk', -⟩
    · obtain rfl := Option.some.inj hs
      exact ⟨0, h.jobId, rfl, rfl, h.le, .inl ⟨rfl, rfl⟩, h.inStep⟩
    · exact absurd hk' hk

/-- What `read` does to an open stream, however its reads come out: the empty block and the next
file at the end, else a block with a buffer full of the bytes that follow. -/
theorem readBlock_eq (compress : Bytes → Bytes) (src : FileSys) (want : ℕ → ℕ) (name : PathName)
    {job : TransferJob} {path : PathName} (hs : job.dataStream = some (.fileStream path pos)) :
    job.readBlock compress src (fun n => some (want n)) name true =
      let buf := (((src.content path).getD []).drop pos).take bufSize
      if buf = [] then (job.nextFile, .ok (some ⟨job.id, job.fileNum, [], false⟩))
      else
        ({ job with dataStream := some (.fileStream path (pos + buf.length))
                    finishedSize := job.finishedSize + buf.length
                    transferred := job.transferred + (pack compress name true buf).1.length },
          .ok (some ⟨job.id, job.fileNum, (pack compress name true buf).1,
            (pack compress name true buf).2⟩)) := by
  rw [readBlock, hs]
  simp only [streamBytes]
  rw [fill_eq want (Nat.lt_succ_self _) (by decide)]
  rfl

/-- What `read` does to an open stream: a block with the next bytes, or the empty block and the
next file. -/
theorem readBlock_cases (compress : Bytes → Bytes) (src : FileSys) (want : ℕ → ℕ) (name : PathName)
    {job : TransferJob} {path : PathName} (hs : job.dataStream = some (.fileStream path pos)) :
    ((((src.content path).getD []).drop pos = [] ∧
      job.readBlock compress src (fun n => some (want n)) name true =
        (job.nextFile, .ok (some ⟨job.id, job.fileNum, [], false⟩))) ∨
    ∃ n finished sent, job.readBlock compress src (fun n => some (want n)) name true =
      ({ job with dataStream := some (.fileStream path (pos + n)), finishedSize := finished
                  transferred := sent },
        .ok (some ⟨job.id, job.fileNum,
          (pack compress name true ((((src.content path).getD []).drop pos).take n)).1,
          (pack compress name true ((((src.content path).getD []).drop pos).take n)).2⟩))) := by
  rw [readBlock_eq compress src want name hs]
  dsimp only
  set rest := ((src.content path).getD []).drop pos with hrest
  split
  · next hnil =>
    refine .inl ⟨?_, rfl⟩
    rcases List.take_eq_nil_iff.mp hnil with h | h
    · cases h
    · exact h
  · have htake : rest.take (rest.take bufSize).length = rest.take bufSize := by
      simp [List.take_eq_take_iff]
    refine .inr ⟨(rest.take bufSize).length, job.finishedSize + (rest.take bufSize).length,
      job.transferred + (pack compress name true (rest.take bufSize)).1.length, ?_⟩
    rw [htake]

theorem Sending.read {want : ℕ → ℕ} (hcodec : ∀ x, decompress (compress x) = x)
    (hnames : ∀ f ∈ files, validateFileNameNoTraversal f.name = .ok ())
    (h : Sending decompress src p q files id json rj s pos)
    (hs : send compress src s (.read want) = some s') :
    ∃ pos', Sending decompress src p q files id json rj s' pos' := by
  rw [send] at hs
  by_cases hwait : s.job.jobType = .generic ∧ s.job.enableOverwriteDetection ∧ !s.job.fileConfirmed
  · rw [TransferJob.read, if_pos hwait] at hs
    obtain rfl := Option.some.inj hs
    exact ⟨pos, h⟩
  rw [TransferJob.read, if_neg hwait] at hs
  simp only [h.dataSource, h.jobFiles] at hs
  by_cases hk : s.job.fileNum < files.length
  · have hname : validateFileNameNoTraversal (files.getD s.job.fileNum ⟨[], 0, 0⟩).name = .ok () :=
      hnames _ (List.mem_of_getElem? (getElem?_getD hk))
    rw [getElem?_getD hk] at hs
    rcases h.stream with ⟨hnone, -⟩ | ⟨-, hsome⟩
    · simp [readBlock, hnone] at hs
    · obtain ⟨hend, hread⟩ | ⟨n, finished, sent, hread⟩ := readBlock_cases compress src want
        (s.job.readName p (files.getD s.job.fileNum ⟨[], 0, 0⟩)) hsome
      · -- the empty block: the file is complete at the receiver
        simp only [hread] at hs
        obtain rfl := Option.some.inj hs
        obtain ⟨job, fs, hrecv, hhold⟩ := h.inStep.write
          ⟨s.job.id, s.job.fileNum, [], false⟩ hk hname (n := 0) h.jobId rfl (by simp [decode])
        have hall : (sourceBytes src p files s.job.fileNum).take (pos + 0) =
            sourceBytes src p files s.job.fileNum :=
              List.take_of_length_le (List.drop_eq_nil_iff.mp hend)
        rw [hall] at hhold
        exact ⟨0, h.jobId, h.dataSource, h.jobFiles, hk, .inl ⟨rfl, rfl⟩, job, fs, hrecv,
          .inl ⟨rfl, hhold.ready hk hname⟩⟩
      · simp only [hread] at hs
        obtain rfl := Option.some.inj hs
        obtain ⟨job, fs, hrecv, hhold⟩ := h.inStep.write _ hk hname (n := n) h.jobId rfl
          (decode_pack hcodec _ true _ s.job.id s.job.fileNum)
        exact ⟨pos + n, h.jobId, h.dataSource, h.jobFiles, h.le, .inr ⟨hk, rfl⟩, job, fs, hrecv,
          .inr ⟨hk, hhold⟩⟩
  · rw [List.getElem?_eq_none (Nat.le_of_not_lt hk)] at hs
    rcases h.stream with ⟨-, rfl⟩ | ⟨hk', -⟩
    · obtain rfl := Option.some.inj hs
      exact ⟨0, h.jobId, rfl, rfl, h.le, .inl ⟨rfl, rfl⟩, h.inStep⟩
    · exact absurd hk' hk

theorem Sending.step {a : SendAct} (hcodec : ∀ x, decompress (compress x) = x)
    (hnames : ∀ f ∈ files, validateFileNameNoTraversal f.name = .ok ())
    (h : ∃ pos, Sending decompress src p q files id json rj s pos)
    (hs : send compress src s a = some s') :
    ∃ pos', Sending decompress src p q files id json rj s' pos' := by
  obtain ⟨pos, h⟩ := h
  cases a with
  | openStream => exact h.openStream hs
  | confirm =>
    obtain rfl := Option.some.inj hs
    exact ⟨pos, h.jobId, h.dataSource, h.jobFiles, h.le, h.stream, h.inStep⟩
  | read want => exact h.read hcodec hnames hs

end Send

/-! ## End to end -/

variable {job job' : TransferJob} {fs : FileSys} {files : List FileEntry} {q : PathName}

/-- The names a receiver accepts. -/
theorem setFiles_names (h : job.setFiles fs files = .ok job') :
    ∀ f ∈ files, validateFileNameNoTraversal f.name = .ok () := by
  intro f hf
  rcases validateTransferFileNames_ok (setFiles_ok h).1 with ⟨g, rfl, hg⟩ | hall
  · obtain rfl := List.mem_singleton.mp hf
    rw [hg]
    rfl
  · exact (hall f hf).2

/-- Where a receiver puts two of the names it accepts: one path is the other with something
after it exactly when the names are. -/
theorem setFiles_entryPath (h : job.setFiles fs files = .ok job') {i j : ℕ} (hi : i < files.length)
    (hj : j < files.length) (hij : i ≠ j) (suffix : PathName) :
    entryPath q files j = entryPath q files i ++ suffix ↔
      files[j].name = files[i].name ++ suffix := by
  rcases validateTransferFileNames_ok (setFiles_ok h).1 with ⟨g, rfl, -⟩ | hall
  · rw [List.length_singleton] at hi hj
    omega
  · obtain ⟨hne, hv⟩ := hall _ (List.getElem_mem hi)
    obtain ⟨hne', hv'⟩ := hall _ (List.getElem_mem hj)
    rw [entryPath, entryPath, List.getD_eq_getElem _ _ hi, List.getD_eq_getElem _ _ hj, join, join,
      if_neg hne,
      if_neg hne']
    exact PathName.join_eq_append_iff q (validateFileNameNoTraversal_ok hv').2
      (validateFileNameNoTraversal_ok hv).2

/-- No entry of the list is named like a later one with `.download` or `.digest` after it. -/
def Apart (files : List FileEntry) : Prop :=
  files.Pairwise fun earlier later =>
    earlier.name ≠ downloadPath later.name ∧ earlier.name ≠ digestPath later.name

instance (files : List FileEntry) : Decidable (Apart files) :=
  inferInstanceAs (Decidable (List.Pairwise _ _))

/-- Every block is written, and at the end of the job each entry is at its destination with
the bytes of its source. -/
def ContentLaw (decompress : Bytes → Bytes) (src : FileSys) (p q : PathName)
    (files : List FileEntry) (rj : TransferJob) (blocks : List Block) : Prop :=
  ∃ job fs, receive decompress rj FileSys.empty blocks = some (job, fs) ∧
    ∀ f ∈ files, (job.modifyTime fs).content (join q f.name) = src.content (join p f.name)

theorem apart_iff (h : job.setFiles fs files = .ok job') :
    (∀ i < files.length, ∀ j < i, ¬ Collides (entryPath q files) j i) ↔ Apart files := by
  rw [Apart, List.pairwise_iff_getElem]
  constructor
  · intro hall j i hj hi hji
    have hcol := hall i hi j hji
    rw [Collides, not_or] at hcol
    exact ⟨fun heq => hcol.1 ((setFiles_entryPath h hi hj hji.ne' _).mpr heq),
      fun heq => hcol.2 ((setFiles_entryPath h hi hj hji.ne' _).mpr heq)⟩
  · intro hall i hi j hji hcol
    have hj : j < files.length := hji.trans hi
    obtain ⟨hdown, hdig⟩ := hall j i hj hi hji
    rcases hcol with hcol | hcol
    · exact hdown ((setFiles_entryPath h hi hj hji.ne' _).mp hcol)
    · exact hdig ((setFiles_entryPath h hi hj hji.ne' _).mp hcol)

/-- Distinct names go to distinct paths. -/
theorem entryPath_inj (h : job.setFiles fs files = .ok job')
    (hdistinct : (files.map FileEntry.name).Nodup) :
    ∀ i < files.length, ∀ j < files.length, entryPath q files i = entryPath q files j → i = j := by
  intro i hi j hj heq
  by_contra hij
  have hname := (setFiles_entryPath (q := q) h hj hi (Ne.symm hij) []).mp (by rwa [List.append_nil])
  rw [List.append_nil] at hname
  have hentry : files[i] = files[j] :=
    List.inj_on_of_nodup_map hdistinct (List.getElem_mem hi) (List.getElem_mem hj) hname
  exact hij ((hdistinct.of_map _).getElem_inj_iff.mp hentry)

/-- With the files of a finished transfer, the content law says that all of them are there. -/
theorem contentLaw_settled {decompress : Bytes → Bytes} {src : FileSys} {p : PathName}
    {wj rj : TransferJob} {blocks : List Block}
    (hsource : ∀ f ∈ files, (src.content (join p f.name)).isSome)
    (haccept : wj.setFiles FileSys.empty files = .ok rj)
    (hdistinct : (files.map FileEntry.name).Nodup)
    (hrecv : receive decompress rj FileSys.empty blocks = some (job, fs))
    (hfiles : (job.modifyTime fs).files =
      settled (entryPath q files) (entryNode files (sourceBytes src p files)) files.length) :
    ContentLaw decompress src p q files rj blocks ↔
      ∀ i < files.length, ∀ j < i, ¬ Collides (entryPath q files) j i := by
  have hinj := entryPath_inj (q := q) haccept hdistinct
  have hpath := fun {j} (hj : j < files.length) =>
    settled_path (entryNode files (sourceBytes src p files)) hinj hj le_rfl
  have hentry : ∀ {j} (hj : j < files.length) (base : PathName),
      join base files[j].name = entryPath base files j := by
    intro j hj base
    rw [entryPath, List.getD_eq_getElem _ _ hj]
  constructor
  · rintro ⟨job', fs', hrecv', hlaw⟩ i hi j hji hcol
    obtain ⟨rfl, rfl⟩ := Prod.mk.inj (Option.some.inj (hrecv.symm.trans hrecv'))
    have hj : j < files.length := hji.trans hi
    -- the later file has taken the path: there is nothing left
    have hgone : (job.modifyTime fs).content (entryPath q files j) = none := by
      rw [FileSys.content, hfiles, (hpath hj).2 ⟨i, hi, hji, hcol⟩]
      rfl
    have hlaw := hlaw _ (List.getElem_mem hj)
    have hsome := hsource _ (List.getElem_mem hj)
    rw [← hlaw, hentry hj, hgone] at hsome
    cases hsome
  · intro hfree
    refine ⟨job, fs, hrecv, fun f hf => ?_⟩
    obtain ⟨j, hj, rfl⟩ := List.mem_iff_getElem.mp hf
    obtain ⟨c, hc⟩ := Option.isSome_iff_exists.mp (hsource _ (List.getElem_mem hj))
    rw [hc]
    rw [hentry hj] at hc ⊢
    rw [FileSys.content, hfiles, (hpath hj).1 fun i hi hji => hfree i hi j hji]
    simp [entryNode, sourceBytes, hc]

/-- **The content law.** A sender reads all files of a list, with any reads of its streams and
any order of confirmations; a receiver that accepts the list, whose names are distinct, writes
exactly its blocks into an empty directory. Then every file arrives as it was, if and only if
no entry is named like a later one with `.download` or `.digest` after it. -/
theorem contentLaw_iff {compress decompress : Bytes → Bytes}
    (hcodec : ∀ x, decompress (compress x) = x)
    {src : FileSys} {p q : PathName} {files : List FileEntry} {id : ℤ} {jobType : JobType}
    {overwrite overwrite' : Bool} {start : ℕ} {rj : TransferJob} {s : Sender} {acts : List SendAct}
    (hsource : ∀ f ∈ files, (src.content (join p f.name)).isSome)
    (hdistinct : (files.map FileEntry.name).Nodup)
    (haccept : (newWrite id .generic (.filePath q) start overwrite).setFiles FileSys.empty
    files = .ok rj)
    (hsend : exec (send compress src) ⟨newRead id jobType (.filePath p) 0 overwrite' files, []⟩
    acts = some s) (hdone : files.length ≤ s.job.fileNum) :
    ContentLaw decompress src p q files rj s.emitted ↔ Apart files := by
  obtain ⟨-, hrj⟩ := setFiles_ok haccept
  have hnames := setFiles_names haccept
  -- the receiver in step with the sender, over the whole run
  have hstart : Sending decompress src p q files id rj.digest.json rj
      ⟨newRead id jobType (.filePath p) 0 overwrite' files, []⟩ 0 := by
    refine ⟨rfl, rfl, rfl, Nat.zero_le _, .inl ⟨rfl, rfl⟩, rj, FileSys.empty, rfl,
      .inl ⟨rfl, ready_start ?_ ?_⟩⟩
    · rw [hrj]
      exact ⟨rfl, rfl, rfl, rfl, rfl⟩
    · rw [hrj]
      rfl
  obtain ⟨pos, hend⟩ := exec_invariant (fun _ _ _ h hs => Sending.step hcodec hnames h hs)
    (I := fun s => ∃ pos, Sending decompress src p q files id rj.digest.json rj s pos)
      ⟨0, hstart⟩ hsend
  obtain ⟨job, fs, hrecv, hcase⟩ := hend.inStep
  have hk : s.job.fileNum = files.length := le_antisymm hend.le hdone
  rw [hk] at hcase
  obtain ⟨-, hready⟩ | ⟨hlt, -⟩ := hcase
  · exact (contentLaw_settled hsource haccept hdistinct hrecv hready.files).trans
      (apart_iff haccept)
  · exact absurd hlt (lt_irrefl _)

/-- A source directory with these files, by name. -/
def sourceOf (entries : List (String × Bytes)) : FileSys :=
  ⟨fun path => (entries.find? fun e => join "s".toList e.1.toList = path).map fun e => ⟨e.2, none⟩,
    fun _ => false⟩

/-- Entries with these names. -/
def entriesOf (names : List String) : List FileEntry := names.map fun n => ⟨n.toList, 0, 0⟩

/-- The receiver of entries with these names. -/
def receiverOf (names : List String) : TransferJob :=
  { newWrite 7 .generic (.filePath "d".toList) 0 false with files := entriesOf names }

/-- Data that does not get shorter by compression. -/
def stored (data : Bytes) : Bytes := data

/-- Two files are sent with nothing to confirm: the first is read byte by byte, the second is
empty. -/
def sendTwo : List SendAct :=
  [.openStream, .read fun _ => 1, .read fun _ => 1, .openStream, .read fun n => n]

/-- Two files arrive as they were. -/
theorem contentLaw_iff_two : ∃ s, exec (send stored (sourceOf [("a", [1, 2, 3]), ("b/c", [])]))
        ⟨newRead 7 .generic (.filePath "s".toList) 0 false (entriesOf ["a", "b/c"]), []⟩ sendTwo =
          some s ∧
      s.emitted.map Block.data = [[1, 2, 3], [], []] ∧
      (ContentLaw stored (sourceOf [("a", [1, 2, 3]), ("b/c", [])]) "s".toList "d".toList
        (entriesOf ["a", "b/c"]) (receiverOf ["a", "b/c"]) s.emitted ↔
          Apart (entriesOf ["a", "b/c"])) := by
  have hrun : (exec (send stored (sourceOf [("a", [1, 2, 3]), ("b/c", [])]))
      ⟨newRead 7 .generic (.filePath "s".toList) 0 false (entriesOf ["a", "b/c"]), []⟩ sendTwo).any
        (fun s => decide (2 ≤ s.job.fileNum ∧ s.emitted.map Block.data = [[1, 2, 3], [], []])) =
          true := by
    decide +kernel
  obtain ⟨s, hs, hp⟩ := (Option.any_eq_true _ _).mp hrun
  obtain ⟨hdone, hdata⟩ := of_decide_eq_true hp
  have haccept : (newWrite 7 .generic (.filePath "d".toList) 0 false).setFiles FileSys.empty
      (entriesOf ["a", "b/c"]) = .ok (receiverOf ["a", "b/c"]) := by
    decide +kernel
  exact ⟨s, hs, hdata, contentLaw_iff (fun _ => rfl) (by decide +kernel) (by decide +kernel)
    haccept hs hdone⟩

/-- `a.download` and then `a`: the names are accepted, and the second file is put together in
the first one. -/
theorem contentLaw_download :
    ∃ s, exec (send stored (sourceOf [("a.download", [1, 2, 3]), ("a", [])]))
        ⟨newRead 7 .generic (.filePath "s".toList) 0 false (entriesOf ["a.download", "a"]), []⟩
          sendTwo =
          some s ∧
      s.job.fileNum = 2 ∧
      (newWrite 7 .generic (.filePath "d".toList) 0 false).setFiles FileSys.empty
        (entriesOf ["a.download", "a"]) = .ok (receiverOf ["a.download", "a"]) ∧
      ((entriesOf ["a.download", "a"]).map FileEntry.name).Nodup ∧
      ¬ ContentLaw stored (sourceOf [("a.download", [1, 2, 3]), ("a", [])]) "s".toList "d".toList
        (entriesOf ["a.download", "a"]) (receiverOf ["a.download", "a"]) s.emitted := by
  have hrun : (exec (send stored (sourceOf [("a.download", [1, 2, 3]), ("a", [])]))
      ⟨newRead 7 .generic (.filePath "s".toList) 0 false (entriesOf ["a.download", "a"]), []⟩
        sendTwo).any
        (fun s => decide (s.job.fileNum = 2 ∧
          (receive stored (receiverOf ["a.download", "a"]) FileSys.empty s.emitted).any (fun r =>
            decide ((r.1.modifyTime r.2).content (join "d".toList "a.download".toList) = none)) =
              true)) =
          true := by
    decide +kernel
  obtain ⟨s, hs, hp⟩ := (Option.any_eq_true _ _).mp hrun
  obtain ⟨hdone, hp⟩ := of_decide_eq_true hp
  refine ⟨s, hs, hdone, by decide +kernel, by decide +kernel, ?_⟩
  rintro ⟨job, fs, hrecv, hlaw⟩
  rw [hrecv] at hp
  have hgone := of_decide_eq_true hp
  have hlaw := hlaw ⟨"a.download".toList, 0, 0⟩ (by decide +kernel)
  rw [hgone] at hlaw
  exact absurd hlaw (by decide +kernel)

end TransferJob
end Fs
end BgDesk
