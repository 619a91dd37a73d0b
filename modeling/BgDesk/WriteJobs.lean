import BgDesk.FileJob

/-!
# Jobs that write, on any disk

A job that writes finds files of earlier transfers at its destination: the entries themselves, and
`.download` and `.digest` files beside them. What the operations of the job do is said here by the
bytes at every path, for any files before.

* `TransferJob.modifyTime_content`, `TransferJob.write_other`, `TransferJob.write_same` — the
  bytes after giving a file its name, after the first block of a file, and after a further one;
* `TransferJob.write_keeps` — what is left alone by any call of `write`, also by one that fails;
* `Receiver` — a job that writes, with the messages that reach it;
* `Transfer.atomic_iff` — when the destination of every entry is replaced as a whole or not at all.
-/

namespace BgDesk
namespace Fs

/-! ## Names on a disk with symbolic links -/

variable {fs fs' : FileSys}

theorem walkComponents_congr (h : fs'.symlink = fs.symlink) :
    ∀ (segs : List PathName) (current : PathName),
      walkComponents fs' current segs = walkComponents fs current segs := by
  intro segs
  induction segs with
  | nil => exact fun _ => rfl
  | cons seg segs ih =>
    intro current
    rw [walkComponents, walkComponents, h, ih]

/-- Only the symbolic links of a disk matter for a name. -/
theorem joinValidatedPath_congr (h : fs'.symlink = fs.symlink) (base name : PathName) :
    joinValidatedPath fs' base name = joinValidatedPath fs base name := by
  rw [joinValidatedPath, joinValidatedPath, validateNoSymlinkComponents,
    validateNoSymlinkComponents,
    walkComponents_congr h]

/-- All entries of the list have a path under `q`. -/
def Resolves (fs : FileSys) (q : PathName) (files : List FileEntry) : Prop :=
  ∀ f ∈ files, joinValidatedPath fs q f.name = .ok (join q f.name)

theorem Resolves.congr {q : PathName} {files : List FileEntry} (h : Resolves fs q files)
    (hsym : fs'.symlink = fs.symlink) : Resolves fs' q files := by
  intro f hf
  rw [joinValidatedPath_congr hsym]
  exact h f hf

namespace TransferJob

theorem validateAllNoSymlink_ok {fs : FileSys} {base : PathName} :
    ∀ {files : List FileEntry}, validateAllNoSymlink fs base files = .ok () →
      ∀ f ∈ files, validateNoSymlinkComponents fs base f.name = .ok () := by
  intro files
  induction files with
  | nil => exact fun _ => nofun
  | cons file files ih =>
    intro h f hf
    rw [validateAllNoSymlink] at h
    cases hv : validateNoSymlinkComponents fs base file.name with
    | error err =>
      rw [hv] at h
      cases h
    | ok u =>
      rw [hv] at h
      rcases List.mem_cons.mp hf with rfl | hf
      · exact hv
      · exact ih h f hf

/-- The list that was accepted has a path for every entry. -/
theorem setFiles_resolves {job job' : TransferJob} {fs : FileSys} {files : List FileEntry}
    {q : PathName} (hsource : job.dataSource = .filePath q) (h : job.setFiles fs files = .ok job') :
    Resolves fs q files := by
  have hsym : validateAllNoSymlink fs q files = .ok () := by
    rw [setFiles, (setFiles_ok h).1, hsource] at h
    cases hs : validateAllNoSymlink fs q files with
    | error err =>
      simp only [hs] at h
      cases h
    | ok u => rfl
  intro f hf
  rw [joinValidatedPath, setFiles_names h f hf, validateAllNoSymlink_ok hsym f hf]
  rfl

/-! ## The bytes after an operation -/

/-- A job that writes these entries under `q`. -/
structure Takes (q : PathName) (files : List FileEntry) (id : ℤ) (job : TransferJob) : Prop where
  id : job.id = id
  jobType : job.jobType = .generic
  dataSource : job.dataSource = .filePath q
  files : job.files = files

variable {q : PathName} {files : List FileEntry} {id : ℤ} {job : TransferJob} {fs : FileSys}

theorem Takes.resolve (hjob : Takes q files id job) (hfs : Resolves fs q files) {k : ℕ}
    (hk : k < files.length) :
    job.resolveEntryPath fs q (files.getD k ⟨[], 0, 0⟩).name = some (entryPath q files k) := by
  have hmem : files.getD k ⟨[], 0, 0⟩ ∈ files := List.mem_of_getElem? (getElem?_getD hk)
  rw [resolveEntryPath, hjob.jobType]
  simp only [hfs _ hmem]
  rfl

/-- `set_stream_offset` goes to the position. -/
theorem Takes.setStreamOffset (hjob : Takes q files id job) (hfs : Resolves fs q files) {k : ℕ}
    (hk : k < files.length) {path : PathName}
    (hfile : offsetFile fs (entryPath q files k) = some path) (offset : ℕ) :
    job.setStreamOffset fs true k offset =
      { job with dataStream := some (.fileStream path offset)
                 transferred := job.transferred + offset, finishedSize :=
                   job.finishedSize + offset } := by
  have hpath := hjob.resolve hfs hk
  cases job
  cases hjob with
  | mk hid htype hsource hfiles =>
    cases hsource
    cases hfiles
    rw [TransferJob.setStreamOffset, getElem?_getD hk]
    simp only [hpath, Option.bind_some, hfile, if_true]

/-- An answer of the peer changes nothing of what a job is to write. -/
theorem Takes.confirm {job : Job} (hjob : Takes q files id job.toTransferJob) (disk : Disk)
    (r : SendConfirm) : Takes q files id (job.confirm disk r).toTransferJob := by
  have hsame : ∀ {job' : TransferJob}, job'.id = job.id → job'.jobType = job.jobType →
      job'.dataSource = job.dataSource → job'.files = job.files → Takes q files id job' :=
    fun hid htype hsource hfiles =>
      ⟨hid.trans hjob.id, htype.trans hjob.jobType, hsource.trans hjob.dataSource,
        hfiles.trans hjob.files⟩
  rw [Job.confirm]
  split
  · exact hjob
  · split
    · exact hsame rfl rfl rfl rfl
    · exact hsame rfl rfl rfl rfl
    · dsimp only
      split
      · obtain heq | ⟨path, heq⟩ :=
          setStreamOffset_cases (job.setFileConfirmed true).toTransferJob disk.fs disk.canOpen
          r.fileNum _
        · rw [heq]
          exact hsame rfl rfl rfl rfl
        · rw [heq]
          exact hsame rfl rfl rfl rfl
      · exact hsame rfl rfl rfl rfl
    · exact hjob

/-- Past the end of the list there is nothing to give a name to. -/
theorem modifyTime_end (hjob : Takes q files id job) (hend : files.length ≤ job.fileNum)
    (renames : Bool) : job.modifyTime fs renames = fs := by
  rw [modifyTime, hjob.jobType, hjob.dataSource]
  simp only [hjob.files, List.getElem?_eq_none hend]

/-- A file gets its name if it is there, and the two files beside it are gone. -/
theorem modifyTime_content (hjob : Takes q files id job) (hfs : Resolves fs q files)
    (hlt : job.fileNum < files.length) (r : PathName) : (job.modifyTime fs).content r =
      if r = entryPath q files job.fileNum then
        (fs.content (downloadPath (entryPath q files job.fileNum))).or
          (fs.content (entryPath q files job.fileNum))
      else if r = downloadPath (entryPath q files job.fileNum) ∨
        r = digestPath (entryPath q files job.fileNum) then
        none
      else fs.content r := by
  have hne := downloadPath_ne_digestPath (entryPath q files job.fileNum)
  have hne₁ := path_ne_downloadPath (entryPath q files job.fileNum)
  have hne₂ := path_ne_digestPath (entryPath q files job.fileNum)
  simp only [modifyTime, hjob.jobType, hjob.dataSource, hjob.files, getElem?_getD hlt,
    hjob.resolve hfs hlt,
    if_true]
  rw [FileSys.content_setMtime, FileSys.content_rename _ _ hne₁.symm]
  simp only [FileSys.content_remove, if_neg hne, if_neg hne₂]
  split
  · rfl
  · by_cases hd : r = downloadPath (entryPath q files job.fileNum)
    · rw [if_pos hd, if_pos (.inl hd)]
    · by_cases hg : r = digestPath (entryPath q files job.fileNum)
      · rw [if_neg hd, if_pos hg, if_pos (.inr hg)]
      · rw [if_neg hd, if_neg hg, if_neg (not_or.mpr ⟨hd, hg⟩)]

/-- Where `rename` fails, only the digest is gone. -/
theorem modifyTime_unrenamed (hjob : Takes q files id job) (hfs : Resolves fs q files)
    (hlt : job.fileNum < files.length) (r : PathName) : (job.modifyTime fs false).content r =
      if r = digestPath (entryPath q files job.fileNum) then none else fs.content r := by
  simp only [modifyTime, hjob.jobType, hjob.dataSource, hjob.files, getElem?_getD hlt,
    hjob.resolve hfs hlt,
    Bool.false_eq_true, if_false]
  rw [FileSys.content_setMtime, FileSys.content_remove]

theorem modifyTime_symlink (job : TransferJob) (fs : FileSys) (renames : Bool) :
    (job.modifyTime fs renames).symlink = fs.symlink := by
  rw [modifyTime]
  split
  · split
    · rfl
    · split
      · rfl
      · cases renames with
        | false => rfl
        | true => exact FileSys.symlink_rename _ _ _
  · rfl

theorem removeDownloadFile_content (hjob : Takes q files id job) (hfs : Resolves fs q files)
    (hlt : job.fileNum < files.length) (r : PathName) : (job.removeDownloadFile fs).content r =
      if r = downloadPath (entryPath q files job.fileNum) ∨
        r = digestPath (entryPath q files job.fileNum) then none
      else fs.content r := by
  simp only [removeDownloadFile, hjob.jobType, hjob.dataSource, hjob.files, getElem?_getD hlt,
    hjob.resolve hfs hlt,
    FileSys.content_remove]
  by_cases hd : r = downloadPath (entryPath q files job.fileNum)
  · simp [hd]
  · simp [hd]

theorem removeDownloadFile_symlink (job : TransferJob) (fs : FileSys) :
    (job.removeDownloadFile fs).symlink = fs.symlink := by
  rw [removeDownloadFile]
  split
  · split
    · rfl
    · split
      · rfl
      · rfl
  · rfl

theorem removeDownloadFile_end (hjob : Takes q files id job) (hend : files.length ≤ job.fileNum) :
    job.removeDownloadFile fs = fs := by
  rw [removeDownloadFile, hjob.jobType, hjob.dataSource]
  simp only [hjob.files, List.getElem?_eq_none hend]

section Write

variable (decompress : Bytes → Bytes)

/-- The bytes of a file once some of them were written at a position. -/
def overlay (content : Bytes) (pos : ℕ) (data : Bytes) : Bytes :=
  content.take pos ++ data ++ content.drop (pos + data.length)

/-- What a call of `write` for file `k` leaves: the file is open behind the data of the block, and
the bytes at a path are as `after` says. -/
structure Written (q : PathName) (files : List FileEntry) (id : ℤ) (k pos : ℕ)
  (symlink : PathName → Bool)
    (after : PathName → Option Bytes) (called : Called Unit) : Prop where
  result : called.result = .ok ()
  takes : Takes q files id called.job
  fileNum : called.job.fileNum = k
  stream : called.job.dataStream = some (.fileStream (downloadPath (entryPath q files k)) pos)
  symlink : called.fs.symlink = symlink
  content : ∀ r, called.fs.content r = after r

variable {io : WriteIo}

theorem WriteIo.ok_of_failed (hio : io.failed = false) : io.written = none := by
  simp only [WriteIo.failed, Bool.or_eq_false_iff, Option.isSome_eq_false_iff,
    Option.isNone_iff_eq_none] at hio
  exact hio.2

variable (fs) in
/-- A block of the file that is open. -/
theorem write_same (hio : io.failed = false) (hjob : Takes q files id job) {block : Block} {pos : ℕ}
    (hid : block.id = id) (hlt : job.fileNum < files.length) (hnum : block.fileNum = job.fileNum)
    (hstream : job.dataStream = some (.fileStream (downloadPath (entryPath q files job.fileNum))
    pos)) : Written q files id job.fileNum (pos + (decode decompress block).length) fs.symlink
      (fun r => if r = downloadPath (entryPath q files job.fileNum) then
        (fs.content r).map fun c => overlay c pos (decode decompress block) else fs.content r)
      (job.write decompress fs block io) := by
  have hwrite : job.write decompress fs block io = job.writeData decompress fs block io := by
    rw [write, if_neg (by simp [hid, hjob.id])]
    simp only [hjob.dataSource, hjob.files, hnum, getElem?_getD hlt]
    rw [if_neg (by simp [hstream])]
  rw [hwrite, writeData, hstream, WriteIo.ok_of_failed hio]
  refine ⟨rfl, ⟨hjob.id, hjob.jobType, hjob.dataSource, hjob.files⟩, rfl, rfl, rfl, fun r => ?_⟩
  show (fs.writeAt _ pos (decode decompress block)).content r = _
  rw [FileSys.content_writeAt]
  split
  · next h =>
    rw [h]
    rfl
  · rfl

/-- Another file is begun: the one before gets its name. -/
theorem openBlockFile_takes (hio : io.failed = false) (hjob : Takes q files id job)
    (hfs : Resolves fs q files) {k : ℕ} (hlt : k < files.length) :
    ∃ job' fs', job.openBlockFile fs q k (files.getD k ⟨[], 0, 0⟩) io = ⟨job', fs', .ok ()⟩ ∧
      Takes q files id job' ∧ job'.fileNum = k ∧
      job'.dataStream = some (.fileStream (downloadPath (entryPath q files k)) 0) ∧
      fs' = (((job.modifyTime fs io.renames).remove (digestPath (entryPath q files k))).write
        (downloadPath (entryPath q files k)) []).write (digestPath (entryPath q files k))
          job.digest.json := by
  have hmem : files.getD k ⟨[], 0, 0⟩ ∈ files := List.mem_of_getElem? (getElem?_getD hlt)
  have hpath := hfs.congr (modifyTime_symlink job fs io.renames) _ hmem
  exact ⟨_, _, openBlockFile_opens hio hjob.jobType hpath k,
    ⟨hjob.id, hjob.jobType, hjob.dataSource, hjob.files⟩, rfl,
    rfl, rfl⟩

/-- The first block of a file: the file before gets its name, and this one is begun. -/
theorem write_other (hio : io.failed = false) (hjob : Takes q files id job)
    (hfs : Resolves fs q files) {block : Block} (hid : block.id = id)
    (hlt : block.fileNum < files.length)
    (hother : block.fileNum ≠ job.fileNum ∨ job.dataStream = none) :
    Written q files id block.fileNum (decode decompress block).length fs.symlink
      (fun r =>
        if r = downloadPath (entryPath q files block.fileNum) then some (decode decompress block)
        else if r = digestPath (entryPath q files block.fileNum) then some job.digest.json
        else (job.modifyTime fs io.renames).content r) (job.write decompress fs block io) := by
  obtain ⟨job₁, fs₁, hopen, htakes, hnum, hstream, hfs₁⟩ := openBlockFile_takes hio hjob hfs hlt
  have hwrite : job.write decompress fs block io = job₁.writeData decompress fs₁ block io := by
    rw [write, if_neg (by simp [hid, hjob.id])]
    simp only [hjob.dataSource, hjob.files, getElem?_getD hlt]
    rw [if_pos hother]
    simp only [hopen]
  rw [hwrite, writeData, hstream, WriteIo.ok_of_failed hio]
  refine ⟨rfl, ⟨htakes.id, htakes.jobType, htakes.dataSource, htakes.files⟩, hnum, ?_, ?_,
    fun r => ?_⟩
  · show some (DataStream.fileStream _ (0 + (decode decompress block).length)) = _
    rw [Nat.zero_add]
  · rw [hfs₁]
    exact modifyTime_symlink job fs io.renames
  · have hne := downloadPath_ne_digestPath (entryPath q files block.fileNum)
    show (FileSys.writeAt _ _ 0 (decode decompress block)).content r = _
    rw [FileSys.content_writeAt, hfs₁]
    simp only [FileSys.content_write, FileSys.content_remove, if_neg hne, if_true]
    by_cases hd : r = downloadPath (entryPath q files block.fileNum)
    · simp [hd]
    · by_cases hg : r = digestPath (entryPath q files block.fileNum)
      · simp [hg, hne.symm]
      · simp [hd, hg]

/-- What a call leaves alone: the job's entries, and the bytes at every path but these two. -/
structure Keeps (q : PathName) (files : List FileEntry) (id : ℤ) (k : ℕ) (symlink : PathName → Bool)
    (before : PathName → Option Bytes) (called : Called Unit) : Prop where
  takes : Takes q files id called.job
  symlink : called.fs.symlink = symlink
  content : ∀ r, r ≠ downloadPath (entryPath q files k) → r ≠ digestPath (entryPath q files k) →
    called.fs.content r = before r

theorem writeData_keeps (hjob : Takes q files id job) {k pos : ℕ} (block : Block) (io : WriteIo)
    (hstream : job.dataStream = some (.fileStream (downloadPath (entryPath q files k)) pos)) :
    Keeps q files id k fs.symlink fs.content (job.writeData decompress fs block io) := by
  rw [writeData, hstream]
  cases io.written with
  | none | some n =>
    refine ⟨⟨hjob.id, hjob.jobType, hjob.dataSource, hjob.files⟩, rfl, fun r hr _ => ?_⟩
    exact (FileSys.content_writeAt _ _ _ _ _).trans (if_neg hr)

/-- Another file is begun, or that fails. -/
theorem openBlockFile_keeps (hjob : Takes q files id job) (hfs : Resolves fs q files) {k : ℕ}
    (hlt : k < files.length) (io : WriteIo) :
    let called := job.openBlockFile fs q k (files.getD k ⟨[], 0, 0⟩) io
    Keeps q files id k fs.symlink (job.modifyTime fs io.renames).content called ∧
      (called.result = .ok () → called.job.dataStream =
        some (.fileStream (downloadPath (entryPath q files k)) 0)) := by
  have hmem : files.getD k ⟨[], 0, 0⟩ ∈ files := List.mem_of_getElem? (getElem?_getD hlt)
  have hsym := modifyTime_symlink job fs io.renames
  have hpath : joinValidatedPath (job.modifyTime fs io.renames) q (files.getD k ⟨[], 0, 0⟩).name =
      .ok (entryPath q files k) := hfs.congr hsym _ hmem
  rw [openBlockFile]
  dsimp only
  split
  · exact ⟨⟨⟨hjob.id, hjob.jobType, hjob.dataSource, hjob.files⟩, hsym, fun _ _ _ => rfl⟩,
      fun hok => by cases hok⟩
  · simp only [hjob.jobType, hpath]
    split
    · exact ⟨⟨⟨hjob.id, rfl, hjob.dataSource, hjob.files⟩, hsym, fun _ _ _ => rfl⟩,
        fun hok => by cases hok⟩
    · split
      · refine ⟨⟨⟨hjob.id, rfl, hjob.dataSource, hjob.files⟩, hsym, fun r hd hg => ?_⟩,
          fun _ => rfl⟩
        rw [FileSys.content_write, if_neg hg, FileSys.content_write, if_neg hd]
        exact (FileSys.content_remove _ _ _).trans (if_neg hg)
      · refine ⟨⟨⟨hjob.id, rfl, hjob.dataSource, hjob.files⟩, hsym, fun r _ hg => ?_⟩,
          fun hok => by cases hok⟩
        exact (FileSys.content_remove _ _ _).trans (if_neg hg)

/-- Whatever fails, a call changes no files but those beside the entry of the block, and those of
the entry before, if it gives it its name. -/
theorem write_keeps (hjob : Takes q files id job) (hfs : Resolves fs q files) {block : Block}
    (hid : block.id = id) (hlt : block.fileNum < files.length)
    (hstream : block.fileNum = job.fileNum → job.dataStream = none ∨
      ∃ pos, job.dataStream = some (.fileStream (downloadPath (entryPath q files job.fileNum)) pos))
    (io : WriteIo) : Keeps q files id block.fileNum fs.symlink
      (if block.fileNum ≠ job.fileNum ∨ job.dataStream =
        none then (job.modifyTime fs io.renames).content else fs.content)
      (job.write decompress fs block io) := by
  have hid' : ¬block.id ≠ job.id := by simp [hid, hjob.id]
  by_cases hother : block.fileNum ≠ job.fileNum ∨ job.dataStream = none
  · rw [if_pos hother, write, if_neg hid']
    simp only [hjob.dataSource, hjob.files, getElem?_getD hlt, if_pos hother]
    obtain ⟨hkeeps, hopened⟩ := openBlockFile_keeps hjob hfs hlt io
    split
    · next job₁ fs₁ hopen =>
      rw [hopen] at hkeeps hopened
      have hwritten : Keeps q files id _ fs₁.symlink fs₁.content _ :=
        writeData_keeps decompress hkeeps.takes block io (hopened rfl)
      exact ⟨hwritten.takes, hwritten.symlink.trans hkeeps.symlink,
        fun r hd hg => (hwritten.content r hd hg).trans (hkeeps.content r hd hg)⟩
    · exact hkeeps
  · rw [if_neg hother, write, if_neg hid']
    simp only [hjob.dataSource, hjob.files, getElem?_getD hlt, if_neg hother]
    rw [not_or, not_not] at hother
    obtain ⟨pos, hpos⟩ := (hstream hother.1).resolve_left hother.2
    rw [← hother.1] at hpos
    exact writeData_keeps decompress hjob block io hpos

end Write
end TransferJob

/-! ## The receiver -/

/-- `set_digest`. -/
def Job.setDigest (job : Job) (size modified : ℕ) : Job := { job with digest := ⟨size, modified⟩ }

/-- What reaches a job that writes. -/
inductive Incoming where
  | digest (fileNum fileSize lastModified : ℕ)
  /-- the job is told what is to become of a file; `canOpen` as in `set_stream_offset` -/
  | confirm (r : SendConfirm) (canOpen : Bool)
  | block (block : Block)
  | done
  | error
  | cancel
  deriving DecidableEq

/-- A job that writes, as long as it is in the vector, and the disk. -/
structure Receiver where
  job : Option Job
  fs : FileSys

namespace Receiver

/-- The handlers of `src/client/io_loop.rs` and of `handle_fs` in `src/ui_cm_interface.rs`: an error
of `write` does not stop the job. -/
def handle (decompress : Bytes → Bytes) (s : Receiver) (e : Incoming) (io : WriteIo := .ok) :
    Receiver :=
  match s.job with
  | none => s
  | some job =>
    match e with
    | .digest fileNum fileSize lastModified =>
      if fileNum < job.files.length then { s with
        job := some (job.setDigest fileSize lastModified) } else s
    | .confirm r canOpen =>
      { s with job := some (job.confirm ⟨s.fs, canOpen, none, fun _ => none⟩ r) }
    | .block block =>
      let called := job.write decompress s.fs block io
      ⟨some { job with toTransferJob := called.job }, called.fs⟩
    | .done => ⟨none, job.modifyTime s.fs io.renames⟩
    | .error => ⟨none, s.fs⟩
    | .cancel => ⟨none, job.removeDownloadFile s.fs⟩

end Receiver

/-- A message that may give a file its name. -/
def Incoming.moves : Incoming → Bool
  | .block _ | .done => true
  | .digest _ _ _ | .confirm _ _ | .error | .cancel => false

/-- A block whose `write` fails. -/
def Incoming.fails (e : Incoming) (io : WriteIo) : Bool :=
  match e with
  | .block _ => io.failed
  | _ => false

/-- The whole file is to be sent. -/
def SendConfirm.whole (r : SendConfirm) : Bool :=
  r.union = some (.skip false) || r.union = some (.offsetBlk 0)

/-- Where a sender is: before an entry, within one, or at the end. -/
inductive Phase where
  | next (k : ℕ)
  | within (k : ℕ) (got : Bytes)
  | over
  deriving DecidableEq

/-- A transfer: where the sender is, and the receiver. -/
structure Transfer where
  phase : Phase
  receiver : Receiver

section Transfer

variable (decompress : Bytes → Bytes) (contents : ℕ → Bytes) (id : ℤ) (n : ℕ)

/-- The first entry a sender can turn to. -/
def Phase.free : Phase → Option ℕ
  | .next k => some k
  | .within k got => if got = contents k then some (k + 1) else none
  | .over => none

/-- The first block of an entry. -/
def Phase.start (phase : Phase) (b : Block) : Option Phase :=
  match phase.free contents with
  | none => none
  | some k =>
    if k ≤ b.fileNum ∧ (TransferJob.decode decompress b).isPrefixOf (contents b.fileNum) then
      some (.within b.fileNum (TransferJob.decode decompress b))
    else none

/-- What a sender may do that sends the first `n` entries in their order, each of them whole or not
at all. The receiver need not be told of an entry that is left out. -/
def Phase.advance (phase : Phase) : Incoming → Option Phase
  | .digest j _ _ =>
    match phase.free contents with
    | none => none
    | some k => if k ≤ j then some (.next j) else none
  | .confirm r _ =>
    match phase.free contents with
    | none => none
    | some k =>
      if k ≤ r.fileNum then
        if r.skips then some (.next (r.fileNum + 1)) else if r.whole then some (.next
          r.fileNum) else none
      else none
  | .block b =>
    if b.id = id ∧ b.fileNum < n then
      match phase with
      | .within k got =>
        if b.fileNum = k ∧ (got ++ TransferJob.decode decompress b).isPrefixOf (contents k) then
          some (.within k (got ++ TransferJob.decode decompress b))
        else phase.start decompress contents b
      | _ => phase.start decompress contents b
    else none
  | .done =>
    match phase.free contents with
    | none => none
    | some _ => some .over
  | .error | .cancel => if phase = .over then none else some .over

/-- A message that a sender may send, or the end of the transfer at any point, and what becomes of
the calls of the system while it is handled. -/
def Transfer.step (t : Transfer) (e : Incoming × WriteIo) : Option Transfer :=
  match t.phase.advance decompress contents id n e.1 with
  | none => none
  | some phase => some ⟨phase, t.receiver.handle decompress e.1 e.2⟩

end Transfer

/-! ## Entries that do not get in each other's way -/

/-- No entry of the list is named like another one, with nothing, `.download` or `.digest` after it.
-/
def Separate (files : List FileEntry) : Prop :=
  files.Pairwise fun a b => a.name ≠ b.name ∧ a.name ≠ downloadPath b.name ∧
    a.name ≠ digestPath b.name ∧
    b.name ≠ downloadPath a.name ∧ b.name ≠ digestPath a.name

instance (files : List FileEntry) : Decidable (Separate files) :=
  inferInstanceAs (Decidable (List.Pairwise _ _))

/-- Paths with their `.download` and `.digest` beside them that do not get in each other's way. -/
structure Separated (path : ℕ → PathName) (n : ℕ) : Prop where
  inj : ∀ i < n, ∀ j < n, path i = path j → i = j
  download : ∀ i < n, ∀ j < n, path i ≠ downloadPath (path j)
  digest : ∀ i < n, ∀ j < n, path i ≠ digestPath (path j)

theorem downloadPath_inj {a b : PathName} (h : downloadPath a = downloadPath b) : a = b :=
  List.append_cancel_right h

theorem digestPath_inj {a b : PathName} (h : digestPath a = digestPath b) : a = b :=
  List.append_cancel_right h

theorem downloadPath_ne_digestPath_of (a b : PathName) : downloadPath a ≠ digestPath b := by
  intro h
  have hlast := congrArg List.getLast? h
  simp [downloadPath, digestPath, List.getLast?_append] at hlast

/-- The files of one entry: itself, and the two beside it. -/
def Beside (path : PathName) (r : PathName) : Prop :=
  r = path ∨ r = downloadPath path ∨ r = digestPath path

/-- The files beside an entry are not those of another one. -/
theorem Separated.not_beside {path : ℕ → PathName} {n : ℕ} (h : Separated path n) {i j : ℕ}
    (hi : i < n) (hj : j < n) (hij : i ≠ j) :
    ¬ Beside (path j) (path i) ∧ ¬ Beside (path j) (downloadPath (path i)) ∧
      ¬ Beside (path j) (digestPath (path i)) := by
  refine ⟨?_, ?_, ?_⟩
  · rintro (heq | heq | heq)
    · exact hij (h.inj i hi j hj heq)
    · exact h.download i hi j hj heq
    · exact h.digest i hi j hj heq
  · rintro (heq | heq | heq)
    · exact h.download j hj i hi heq.symm
    · exact hij (h.inj i hi j hj (downloadPath_inj heq))
    · exact downloadPath_ne_digestPath_of _ _ heq
  · rintro (heq | heq | heq)
    · exact h.digest j hj i hi heq.symm
    · exact downloadPath_ne_digestPath_of _ _ heq.symm
    · exact hij (h.inj i hi j hj (digestPath_inj heq))

namespace TransferJob

/-- Names that are separate go to paths that are. -/
theorem separated_entryPath {job job' : TransferJob} {fs : FileSys} {files : List FileEntry}
    {q : PathName} (h : job.setFiles fs files = .ok job') (hsep : Separate files) :
    Separated (entryPath q files) files.length := by
  have hpair := List.pairwise_iff_getElem.mp hsep
  have hpath := fun {i j} (hi : i < files.length) (hj : j < files.length) (hij : i ≠ j) =>
    setFiles_entryPath (q := q) h hi hj hij
  -- of two entries one comes first, and the condition speaks about both
  have hnames : ∀ i j (hi : i < files.length) (hj : j < files.length), i ≠ j →
      files[j].name ≠ files[i].name ∧ files[j].name ≠ downloadPath files[i].name ∧
        files[j].name ≠ digestPath files[i].name := by
    intro i j hi hj hij
    rcases Nat.lt_or_gt_of_ne hij with hlt | hlt
    · obtain ⟨hne, -, -, hdown, hdig⟩ := hpair i j hi hj hlt
      exact ⟨hne.symm, hdown, hdig⟩
    · obtain ⟨hne, hdown, hdig, -, -⟩ := hpair j i hj hi hlt
      exact ⟨hne, hdown, hdig⟩
  refine ⟨fun i hi j hj heq => ?_, fun i hi j hj heq => ?_, fun i hi j hj heq => ?_⟩
  · by_contra hij
    refine (hnames j i hj hi (Ne.symm hij)).1 ?_
    have := (hpath hj hi (Ne.symm hij) []).mp (by rwa [List.append_nil])
    rwa [List.append_nil] at this
  · by_cases hij : j = i
    · subst hij
      exact path_ne_downloadPath _ heq
    · exact (hnames j i hj hi hij).2.1 ((hpath hj hi hij _).mp heq)
  · by_cases hij : j = i
    · subst hij
      exact path_ne_digestPath _ heq
    · exact (hnames j i hj hi hij).2.2 ((hpath hj hi hij _).mp heq)

end TransferJob

/-! ## Atomic replacement -/

namespace Transfer

open TransferJob (entryPath decode Takes)

/-- A transfer of entries into `q`, from the files `fs₀` on. -/
structure Setup where
  q : PathName
  files : List FileEntry
  contents : ℕ → Bytes
  id : ℤ
  fs₀ : FileSys

namespace Setup

variable (u : Setup)

/-- Where entry `i` goes. -/
abbrev path (i : ℕ) : PathName := entryPath u.q u.files i

/-- Every entry is as it was before, or as it was sent. -/
def Atomic (fs : FileSys) : Prop :=
  ∀ i < u.files.length, fs.content (u.path i) = u.fs₀.content (u.path i) ∨
    fs.content (u.path i) = some (u.contents i)

/-- A file that is put together for entry `f` can get its name. -/
def Harmless (fs : FileSys) (f : ℕ) : Prop :=
  f < u.files.length → ∀ c, fs.content (downloadPath (u.path f)) = some c →
    u.fs₀.content (u.path f) = some c ∨ c = u.contents f

/-- The receiver puts entry `k` together, and has `got` of it. -/
structure Holds (k : ℕ) (got : Bytes) (s : Receiver) : Prop where
  lt : k < u.files.length
  job : ∃ job, s.job = some job ∧ Takes u.q u.files u.id job.toTransferJob ∧ job.fileNum = k ∧
    job.dataStream = some (.fileStream (downloadPath (u.path k)) got.length)
  download : s.fs.content (downloadPath (u.path k)) = some got
  symlink : s.fs.symlink = u.fs₀.symlink
  atomic : u.Atomic s.fs

/-- The receiver after a block that was lost: what it has put together is not to be trusted. -/
structure Halted (s : Receiver) : Prop where
  job : ∀ job, s.job = some job → Takes u.q u.files u.id job.toTransferJob
  symlink : s.fs.symlink = u.fs₀.symlink
  atomic : u.Atomic s.fs

/-- The receiver has not got a block yet, and stands at entry `f`. -/
structure Fresh (f : ℕ) (s : Receiver) : Prop where
  job : ∃ job, s.job = some job ∧ Takes u.q u.files u.id job.toTransferJob ∧ job.fileNum = f ∧
    job.dataStream = none
  fs : s.fs = u.fs₀

variable {u}

theorem atomic_start : u.Atomic u.fs₀ := fun _ _ => .inl rfl

variable {fs : FileSys} {s : Receiver} {b : Block} {k : ℕ} {got : Bytes} {t : Transfer}
  {decompress : Bytes → Bytes}

/-- Giving an entry its name, where that does no harm. -/
theorem Atomic.modifyTime (hsep : Separated u.path u.files.length) (h : u.Atomic fs)
    (hres : Resolves fs u.q u.files) {job : TransferJob} (hjob : Takes u.q u.files u.id job)
    {renames : Bool} (hharm : renames = true → u.Harmless fs job.fileNum) :
    u.Atomic (job.modifyTime fs renames) := by
  intro i hi
  by_cases hlt : job.fileNum < u.files.length
  · cases renames with
    | false =>
      rw [TransferJob.modifyTime_unrenamed hjob hres hlt, if_neg (hsep.digest i hi _ hlt)]
      exact h i hi
    | true =>
      rw [TransferJob.modifyTime_content hjob hres hlt]
      by_cases heq : u.path i = u.path job.fileNum
      · obtain rfl := hsep.inj i hi _ hlt heq
        rw [if_pos rfl]
        cases hdown : fs.content (downloadPath (u.path job.fileNum)) with
        | none =>
          rw [Option.none_or]
          exact h _ hi
        | some c =>
          rw [Option.some_or]
          rcases hharm rfl hlt c hdown with hold | rfl
          · exact .inl hold.symm
          · exact .inr rfl
      · rw [if_neg heq, if_neg (not_or.mpr ⟨hsep.download i hi _ hlt, hsep.digest i hi _ hlt⟩)]
        exact h i hi
  · rw [TransferJob.modifyTime_end hjob (Nat.le_of_not_lt hlt)]
    exact h i hi

/-- Only the bytes at the destinations matter. -/
theorem Atomic.congr {fs' : FileSys}
    (h : ∀ i < u.files.length, fs'.content (u.path i) = fs.content (u.path i)) :
    u.Atomic fs' ↔ u.Atomic fs := forall₂_congr fun i hi => by rw [h i hi]

/-- The first block of an entry. -/
theorem holds_start (decompress : Bytes → Bytes) (hsep : Separated u.path u.files.length)
    {job : Job} (hs : s.job = some job) (hjob : Takes u.q u.files u.id job.toTransferJob)
    (hres : Resolves s.fs u.q u.files) (hsym : s.fs.symlink = u.fs₀.symlink) (hid : b.id = u.id)
    (hlt : b.fileNum < u.files.length) (hother : b.fileNum ≠ job.fileNum ∨ job.dataStream = none)
    {io : WriteIo} (hio : io.failed = false) (hatomic : u.Atomic (job.modifyTime s.fs io.renames)) :
    u.Holds b.fileNum (decode decompress b) (s.handle decompress (.block b) io) := by
  have hwritten := TransferJob.write_other decompress hio hjob hres hid hlt hother
  rw [Receiver.handle, hs]
  refine ⟨hlt, ⟨_, rfl, hwritten.takes, hwritten.fileNum, hwritten.stream⟩, ?_,
    hwritten.symlink.trans hsym, ?_⟩
  · show (job.write decompress s.fs b io).fs.content _ = _
    rw [hwritten.content]
    exact if_pos rfl
  · refine (Atomic.congr fun i hi => ?_).mpr hatomic
    show (job.write decompress s.fs b io).fs.content _ = _
    rw [hwritten.content, if_neg (hsep.download i hi _ hlt), if_neg (hsep.digest i hi _ hlt)]

/-- A further block of an entry. -/
theorem Holds.write (decompress : Bytes → Bytes) (hsep : Separated u.path u.files.length)
    (h : u.Holds k got s) (hid : b.id = u.id) (hnum : b.fileNum = k) {io : WriteIo}
    (hio : io.failed = false) :
    u.Holds k (got ++ decode decompress b) (s.handle decompress (.block b) io) := by
  obtain ⟨job, hs, hjob, rfl, hstream⟩ := h.job
  have hwritten := TransferJob.write_same s.fs decompress hio hjob hid h.lt hnum hstream
  rw [Receiver.handle, hs]
  refine ⟨h.lt, ⟨_, rfl, hwritten.takes, hwritten.fileNum, ?_⟩, ?_,
    hwritten.symlink.trans h.symlink, ?_⟩
  · rw [List.length_append]
    exact hwritten.stream
  · show (job.write decompress s.fs b io).fs.content _ = _
    rw [hwritten.content]
    rw [if_pos rfl, h.download]
    simp [TransferJob.overlay]
  · refine (Atomic.congr fun i hi => ?_).mpr h.atomic
    show (job.write decompress s.fs b io).fs.content _ = _
    rw [hwritten.content, if_neg (hsep.download i hi _ h.lt)]

theorem Holds.harmless (h : u.Holds k (u.contents k) s) : u.Harmless s.fs k := by
  intro _ c hc
  rw [h.download] at hc
  exact .inr (Option.some.inj hc).symm

/-- A transfer after the first block. -/
def Begun (u : Setup) (t : Transfer) : Prop :=
  match t.phase with
  | .next k => ∃ j < k, u.Holds j (u.contents j) t.receiver
  | .within k got => u.Holds k got t.receiver
  | .over => u.Atomic t.receiver.fs

theorem Begun.atomic (h : u.Begun t) : u.Atomic t.receiver.fs := by
  unfold Begun at h
  split at h
  · obtain ⟨j, -, h⟩ := h
    exact h.atomic
  · exact h.atomic
  · exact h

/-- Before an entry, the one that was put together last is complete. -/
theorem Begun.free (h : u.Begun t) (hfree : t.phase.free u.contents = some k) :
    ∃ j < k, u.Holds j (u.contents j) t.receiver := by
  unfold Begun at h
  cases hphase : t.phase with
  | next k' =>
    rw [hphase] at h hfree
    obtain rfl := Option.some.inj hfree
    exact h
  | within k' got =>
    rw [hphase] at h hfree
    dsimp only [Phase.free] at hfree
    split at hfree
    · next hgot =>
      obtain rfl := Option.some.inj hfree
      exact ⟨k', Nat.lt_succ_self k', hgot ▸ h⟩
    · cases hfree
  | «over» =>
    rw [hphase] at hfree
    cases hfree

theorem Begun.holds (h : u.Begun t) (hne : t.phase ≠ .over) :
    ∃ k got, u.Holds k got t.receiver := by
  unfold Begun at h
  split at h
  · obtain ⟨j, -, h⟩ := h
    exact ⟨j, _, h⟩
  · exact ⟨_, _, h⟩
  · next hover => exact absurd hover hne

/-- A job that was cancelled takes only files with it that were put together. -/
theorem Atomic.removeDownloadFile (hsep : Separated u.path u.files.length) (h : u.Atomic fs)
    (hres : Resolves fs u.q u.files) {job : TransferJob} (hjob : Takes u.q u.files u.id job) :
    u.Atomic (job.removeDownloadFile fs) := by
  intro i hi
  by_cases hlt : job.fileNum < u.files.length
  · rw [TransferJob.removeDownloadFile_content hjob hres hlt,
      if_neg (not_or.mpr ⟨hsep.download i hi _ hlt, hsep.digest i hi _ hlt⟩)]
    exact h i hi
  · rw [TransferJob.removeDownloadFile_end hjob (Nat.le_of_not_lt hlt)]
    exact h i hi

/-- A digest changes nothing of what a receiver holds. -/
theorem Holds.digest (decompress : Bytes → Bytes) (h : u.Holds k got s)
    (fileNum fileSize lastModified : ℕ) (io : WriteIo) :
    u.Holds k got (s.handle decompress (.digest fileNum fileSize lastModified) io) := by
  obtain ⟨job, hs, hjob, hnum, hstream⟩ := h.job
  rw [Receiver.handle, hs]
  dsimp only
  split
  · exact ⟨h.lt, ⟨_, rfl, ⟨hjob.id, hjob.jobType, hjob.dataSource, hjob.files⟩, hnum, hstream⟩,
      h.download, h.symlink,
      h.atomic⟩
  · exact h

/-- An answer about a later entry is ignored. -/
theorem Holds.confirm (decompress : Bytes → Bytes) (h : u.Holds k got s) {r : SendConfirm}
    (hr : k < r.fileNum) (canOpen : Bool) (io : WriteIo) :
    u.Holds k got (s.handle decompress (.confirm r canOpen) io) := by
  obtain ⟨job, hs, hjob, hnum, hstream⟩ := h.job
  rw [Receiver.handle, hs]
  dsimp only
  rw [Job.confirm, if_pos (by omega)]
  exact ⟨h.lt, ⟨job, rfl, hjob, hnum, hstream⟩, h.download, h.symlink, h.atomic⟩

/-- A block that is lost: no destination has changed but that of the entry before, if it got its
name. -/
theorem halted_start (decompress : Bytes → Bytes) (hsep : Separated u.path u.files.length)
    {job : Job} (hs : s.job = some job) (hjob : Takes u.q u.files u.id job.toTransferJob)
    (hres : Resolves u.fs₀ u.q u.files)
    (hsym : s.fs.symlink = u.fs₀.symlink) (hid : b.id = u.id) (hlt : b.fileNum < u.files.length)
    (hstream : b.fileNum = job.fileNum → job.dataStream = none ∨
      ∃ pos, job.dataStream = some (.fileStream (downloadPath (u.path job.fileNum)) pos))
        (io : WriteIo) : (u.Atomic (s.handle decompress (.block b) io).fs ↔
        u.Atomic (if b.fileNum ≠ job.fileNum ∨
          job.dataStream = none then job.modifyTime s.fs io.renames else s.fs)) ∧
      (u.Atomic (s.handle decompress (.block b) io).fs →
        u.Halted (s.handle decompress (.block b) io)) := by
  have hkeeps := TransferJob.write_keeps decompress hjob (hres.congr hsym) hid hlt hstream io
  rw [Receiver.handle, hs]
  refine ⟨Atomic.congr fun i hi => ?_, fun hatomic =>
    ⟨fun _ h => ?_, hkeeps.symlink.trans hsym, hatomic⟩⟩
  · show (job.write decompress s.fs b io).fs.content _ = _
    rw [hkeeps.content _ (hsep.download i hi _ hlt) (hsep.digest i hi _ hlt)]
    split
    · rfl
    · rfl
  · obtain rfl := Option.some.inj h
    exact hkeeps.takes

/-- Nothing but a block or the end of the job can do harm then. -/
theorem Halted.handle (decompress : Bytes → Bytes) (hsep : Separated u.path u.files.length)
    (hres : Resolves u.fs₀ u.q u.files) (h : u.Halted s) {e : Incoming} (he : e.moves = false)
    (io : WriteIo) : u.Halted (s.handle decompress e io) := by
  rw [Receiver.handle]
  cases hs : s.job with
  | none => exact h
  | some job =>
    have hjob := h.job job hs
    cases e with
    | block b => cases he
    | done => cases he
    | digest fileNum fileSize lastModified =>
      dsimp only
      split
      · exact ⟨fun _ hs' => Option.some.inj hs' ▸
          ⟨hjob.id, hjob.jobType, hjob.dataSource, hjob.files⟩, h.symlink,
          h.atomic⟩
      · exact h
    | confirm r canOpen =>
      exact ⟨fun _ hs' => Option.some.inj hs' ▸ Takes.confirm hjob _ r, h.symlink, h.atomic⟩
    | error => exact ⟨(fun _ hs' => by cases hs'), h.symlink, h.atomic⟩
    | cancel =>
      have hres' := hres.congr h.symlink
      exact ⟨(fun _ hs' => by cases hs'), h.symlink ▸ TransferJob.removeDownloadFile_symlink _ _,
        h.atomic.removeDownloadFile hsep hres' hjob⟩

theorem Halted.throughout (hsep : Separated u.path u.files.length)
    (hres : Resolves u.fs₀ u.q u.files) (h : u.Halted t.receiver) {es : List (Incoming × WriteIo)}
    (hes : ∀ e ∈ es, e.1.moves = false) :
    Throughout (Transfer.step decompress u.contents u.id u.files.length)
      (fun t => u.Atomic t.receiver.fs) t es := by
  refine throughout_of_along (I := fun t => u.Halted t.receiver) (fun _ h => h.atomic)
    (fun t e t' h he hstep => ?_) h
    (along_of_forall (C := fun _ e => e.1.moves = false) (fun e he _ => hes e he) t)
  unfold Transfer.step at hstep
  split at hstep
  · cases hstep
  · obtain rfl := Option.some.inj hstep
    exact h.handle decompress hsep hres he e.2

/-- A block that a sender may send, after the first one: it goes on with the entry, or begins
another one once this is complete. -/
theorem Begun.block {n : ℕ} {phase : Phase} (h : u.Begun t)
    (hphase : t.phase.advance decompress u.contents u.id n (.block b) = some phase) :
    b.id = u.id ∧ b.fileNum < n ∧
      ((∃ got, phase = .within b.fileNum (got ++ decode decompress b) ∧
        u.Holds b.fileNum got t.receiver) ∨
        (phase = .within b.fileNum (decode decompress b) ∧
          ∃ j < b.fileNum, u.Holds j (u.contents j) t.receiver)) := by
  have hstart : t.phase.start decompress u.contents b = some phase →
      phase = .within b.fileNum (decode decompress b) ∧
        ∃ j < b.fileNum, u.Holds j (u.contents j) t.receiver := by
    intro hstart
    unfold Phase.start at hstart
    split at hstart
    · cases hstart
    next k hfree =>
    split at hstart
    · next hle =>
      obtain rfl := Option.some.inj hstart
      obtain ⟨j, hj, hholds⟩ := h.free hfree
      exact ⟨rfl, j, by omega, hholds⟩
    · cases hstart
  dsimp only [Phase.advance] at hphase
  split at hphase
  next hb =>
    refine ⟨hb.1, hb.2, ?_⟩
    split at hphase
    · next k got hwithin =>
      split at hphase
      · next hgot =>
        obtain rfl := Option.some.inj hphase
        unfold Begun at h
        rw [hwithin] at h
        exact .inl ⟨got, by rw [hgot.1], hgot.1 ▸ h⟩
      · exact .inr (hstart hphase)
    · exact .inr (hstart hphase)
  · cases hphase

/-- **Step**, after the first block, where `write` does not fail. -/
theorem Begun.step (hsep : Separated u.path u.files.length) (hres : Resolves u.fs₀ u.q u.files)
    {t' : Transfer} {e : Incoming × WriteIo} (h : u.Begun t) (hfails : e.1.fails e.2 = false)
    (hstep : t.step decompress u.contents u.id u.files.length e = some t') : u.Begun t' := by
  obtain ⟨e, io⟩ := e
  unfold Transfer.step at hstep
  split at hstep
  · cases hstep
  next phase hphase =>
  obtain rfl := Option.some.inj hstep
  cases e with
  | digest fileNum fileSize lastModified =>
    dsimp only [Phase.advance] at hphase
    split at hphase
    · cases hphase
    next k hfree =>
    split at hphase
    · next hle =>
      obtain rfl := Option.some.inj hphase
      obtain ⟨j, hj, hholds⟩ := h.free hfree
      exact ⟨j, by omega, hholds.digest decompress _ _ _ io⟩
    · cases hphase
  | confirm r canOpen =>
    dsimp only [Phase.advance] at hphase
    split at hphase
    · cases hphase
    next k hfree =>
    obtain ⟨j, hj, hholds⟩ := h.free hfree
    split at hphase
    · next hle =>
      have hholds' := hholds.confirm decompress (r := r) (by omega) canOpen io
      split at hphase
      · obtain rfl := Option.some.inj hphase
        exact ⟨j, by omega, hholds'⟩
      · split at hphase
        · obtain rfl := Option.some.inj hphase
          exact ⟨j, by omega, hholds'⟩
        · cases hphase
    · cases hphase
  | block b =>
    obtain ⟨hid, hlt, ⟨got, rfl, hholds⟩ | ⟨rfl, j, hj, hholds⟩⟩ := h.block hphase
    · exact Holds.write decompress hsep hholds hid rfl hfails
    · obtain ⟨job, hs, hjob, hnum, hstream⟩ := hholds.job
      have hres' := hres.congr hholds.symlink
      refine holds_start decompress hsep hs hjob hres' hholds.symlink hid hlt (.inl (by omega))
        hfails ?_
      exact hholds.atomic.modifyTime hsep hres' hjob fun _ => hnum ▸ hholds.harmless
  | done =>
    dsimp only [Phase.advance] at hphase
    split at hphase
    · cases hphase
    next k hfree =>
    obtain rfl := Option.some.inj hphase
    obtain ⟨j, hj, hholds⟩ := h.free hfree
    obtain ⟨job, hs, hjob, hnum, hstream⟩ := hholds.job
    rw [Begun, Receiver.handle, hs]
    exact hholds.atomic.modifyTime hsep (hres.congr hholds.symlink) hjob fun _ =>
      hnum ▸ hholds.harmless
  | error =>
    dsimp only [Phase.advance] at hphase
    split at hphase
    · cases hphase
    next hne =>
    obtain rfl := Option.some.inj hphase
    obtain ⟨k, got, hholds⟩ := h.holds hne
    obtain ⟨job, hs, -⟩ := hholds.job
    rw [Begun, Receiver.handle, hs]
    exact hholds.atomic
  | cancel =>
    dsimp only [Phase.advance] at hphase
    split at hphase
    · cases hphase
    next hne =>
    obtain rfl := Option.some.inj hphase
    obtain ⟨k, got, hholds⟩ := h.holds hne
    obtain ⟨job, hs, hjob, -⟩ := hholds.job
    rw [Begun, Receiver.handle, hs]
    exact hholds.atomic.removeDownloadFile hsep (hres.congr hholds.symlink) hjob

/-- A block that is lost after the first one. -/
theorem Begun.fails (hsep : Separated u.path u.files.length) (hres : Resolves u.fs₀ u.q u.files)
    {t' : Transfer} {e : Incoming × WriteIo} (h : u.Begun t) (hfails : e.1.fails e.2 = true)
    (hstep : t.step decompress u.contents u.id u.files.length e = some t') :
    u.Halted t'.receiver := by
  obtain ⟨e, io⟩ := e
  unfold Transfer.step at hstep
  split at hstep
  · cases hstep
  next phase hphase =>
  obtain rfl := Option.some.inj hstep
  cases e with
  | block b =>
    obtain ⟨hid, hlt, ⟨got, -, hholds⟩ | ⟨-, j, hj, hholds⟩⟩ := h.block hphase
    · obtain ⟨job, hs, hjob, hnum, hstream⟩ := hholds.job
      obtain ⟨hsame, hhalted⟩ := halted_start decompress hsep hs hjob hres hholds.symlink hid hlt
        (fun _ => .inr ⟨_, hnum ▸ hstream⟩) io
      refine hhalted (hsame.mpr ?_)
      rw [if_neg (by simp [hnum, hstream])]
      exact hholds.atomic
    · obtain ⟨job, hs, hjob, hnum, hstream⟩ := hholds.job
      have hne : b.fileNum ≠ job.fileNum := by omega
      obtain ⟨hsame, hhalted⟩ := halted_start decompress hsep hs hjob hres hholds.symlink hid hlt
        (fun heq => absurd heq hne) io
      refine hhalted (hsame.mpr ?_)
      rw [if_pos (.inl hne)]
      exact hholds.atomic.modifyTime hsep (hres.congr hholds.symlink) hjob fun _ =>
        hnum ▸ hholds.harmless
  | digest | confirm | done | error | cancel => cases hfails

end Setup

/-- The transfer ends with a block that is lost: no other block and no Done comes after it. -/
def Unbroken (es : List (Incoming × WriteIo)) : Prop :=
  es.Pairwise fun e later => e.1.fails e.2 = true → later.1.moves = false

instance (es : List (Incoming × WriteIo)) : Decidable (Unbroken es) :=
  inferInstanceAs (Decidable (List.Pairwise _ _))

namespace Setup

variable {u : Setup}

/-- After the first block, nothing can go wrong any more but a block that is lost. -/
theorem Begun.throughout {decompress : Bytes → Bytes} (hsep : Separated u.path u.files.length)
    (hres : Resolves u.fs₀ u.q u.files) :
    ∀ {es : List (Incoming × WriteIo)} {t t' : Transfer}, u.Begun t → Unbroken es →
      exec (Transfer.step decompress u.contents u.id u.files.length) t es = some t' →
      Throughout (Transfer.step decompress u.contents u.id u.files.length)
        (fun t => u.Atomic t.receiver.fs) t es := by
  intro es
  induction es with
  | nil =>
    intro t t' h _ _ done s' hdone hexec
    obtain rfl := List.prefix_nil.mp hdone
    obtain rfl := Option.some.inj hexec
    exact h.atomic
  | cons e es ih =>
    intro t t' h hunbroken hexec
    obtain ⟨t₁, hstep, hexec⟩ := exec_cons.mp hexec
    obtain ⟨hlost, hrest⟩ := List.pairwise_cons.mp hunbroken
    refine (throughout_cons hstep).mpr ⟨h.atomic, ?_⟩
    cases hfails : e.1.fails e.2 with
    | false => exact ih (h.step hsep hres hfails hstep) hrest hexec
    | true =>
      exact (h.fails hsep hres hfails hstep).throughout hsep hres fun later hlater =>
        hlost later hlater hfails

/-! ### The first block -/

/-- The file that gets its name first, by the destination it has then. -/
theorem atomic_modifyTime_iff (hsep : Separated u.path u.files.length)
    (hres : Resolves u.fs₀ u.q u.files) {job : TransferJob} (hjob : Takes u.q u.files u.id job)
    (renames : Bool) :
    u.Atomic (job.modifyTime u.fs₀ renames) ↔ (renames = true → u.Harmless u.fs₀ job.fileNum) := by
  refine ⟨fun h hrenames hlt c hc => ?_, fun h => atomic_start.modifyTime hsep hres hjob h⟩
  have hcontent : (job.modifyTime u.fs₀ renames).content (u.path job.fileNum) = some c := by
    rw [hrenames, TransferJob.modifyTime_content hjob hres hlt, if_pos rfl, hc, Option.some_or]
  rcases h _ hlt with hold | hnew
  · exact .inl (hold.symm.trans hcontent)
  · exact .inr (Option.some.inj (hcontent.symm.trans hnew))

end Setup

/-- The entry a job stands at when the first block or the end of the transfer reaches it, if one of
them does and a file can get its name then: the one it began with, or the one after those it was
told to skip. -/
def firstMoved : ℕ → List (Incoming × WriteIo) → Option ℕ
  | _, [] => none
  | f, (.digest _ _ _, _) :: es => firstMoved f es
  | f, (.confirm r _, _) :: es => firstMoved (if f = r.fileNum ∧ r.skips then f + 1 else f) es
  | f, (.block _, io) :: _ => if io.renames then some f else none
  | f, (.done, io) :: _ => if io.renames then some f else none
  | _, (.error, _) :: _ => none
  | _, (.cancel, _) :: _ => none

namespace Setup

variable {u : Setup}

variable {s : Receiver} {f : ℕ}

theorem Fresh.digest (decompress : Bytes → Bytes) (h : u.Fresh f s)
    (fileNum fileSize lastModified : ℕ) (io : WriteIo) :
    u.Fresh f (s.handle decompress (.digest fileNum fileSize lastModified) io) := by
  obtain ⟨job, hs, hjob, hnum, hstream⟩ := h.job
  rw [Receiver.handle, hs]
  dsimp only
  split
  · exact ⟨⟨_, rfl, ⟨hjob.id, hjob.jobType, hjob.dataSource, hjob.files⟩, hnum, hstream⟩, h.fs⟩
  · exact h

/-- An answer about a file that is not to be resumed: the job goes on to the next entry, or stays.
-/
theorem Fresh.confirm (decompress : Bytes → Bytes) (h : u.Fresh f s) {r : SendConfirm}
    (hr : r.skips = true ∨ r.whole = true) (canOpen : Bool) (io : WriteIo) :
    u.Fresh (if f = r.fileNum ∧ r.skips then f + 1 else f)
      (s.handle decompress (.confirm r canOpen) io) := by
  obtain ⟨job, hs, hjob, rfl, hstream⟩ := h.job
  rw [Receiver.handle, hs]
  dsimp only
  by_cases hnum : job.fileNum = r.fileNum
  · rw [Job.confirm, if_neg (not_not.mpr hnum)]
    by_cases hskip : r.skips = true
    · have hunion : r.union = some (.skip true) := by simpa [SendConfirm.skips] using hskip
      rw [if_pos ⟨hnum, hskip⟩, hunion]
      exact ⟨⟨_, rfl, ⟨hjob.id, hjob.jobType, hjob.dataSource, hjob.files⟩, rfl, rfl⟩, h.fs⟩
    · rw [if_neg (fun hand => hskip hand.2)]
      have hwhole : r.union = some (.skip false) ∨ r.union = some (.offsetBlk 0) := by
        simpa [SendConfirm.whole] using hr.resolve_left hskip
      rcases hwhole with hunion | hunion
      · rw [hunion]
        exact ⟨⟨_, rfl, ⟨hjob.id, hjob.jobType, hjob.dataSource, hjob.files⟩, rfl, hstream⟩, h.fs⟩
      · rw [hunion]
        exact ⟨⟨_, rfl, ⟨hjob.id, hjob.jobType, hjob.dataSource, hjob.files⟩, rfl, hstream⟩, h.fs⟩
  · rw [Job.confirm, if_pos hnum, if_neg (fun hand => hnum hand.1)]
    exact ⟨⟨job, rfl, hjob, rfl, hstream⟩, h.fs⟩

theorem firstMoved_harmless_iff (renames : Bool) :
    (∀ f', (if renames then some f else none) = some f' → u.Harmless u.fs₀ f') ↔
      (renames = true → u.Harmless u.fs₀ f) := by
  cases renames with
  | false => simp
  | true => simp

/-- **The first block**, also one that is lost: the destinations are as they should be if and only
if the file that gets its name does no harm, and then the rest of the transfer does none. -/
theorem Fresh.block {decompress : Bytes → Bytes} (hsep : Separated u.path u.files.length)
    (hres : Resolves u.fs₀ u.q u.files) (h : u.Fresh f s) {b : Block} {io : WriteIo}
    {es : List (Incoming × WriteIo)} {t : Transfer} (hid : b.id = u.id)
    (hlt : b.fileNum < u.files.length) (hunbroken : Unbroken ((.block b, io) :: es))
    (hexec : exec (Transfer.step decompress u.contents u.id u.files.length)
      ⟨.within b.fileNum (decode decompress b), s.handle decompress (.block b) io⟩ es = some t) :
    Throughout (Transfer.step decompress u.contents u.id u.files.length)
      (fun t => u.Atomic t.receiver.fs)
        ⟨.within b.fileNum (decode decompress b), s.handle decompress (.block b) io⟩ es ↔
      (io.renames = true → u.Harmless u.fs₀ f) := by
  obtain ⟨job, hs, hjob, rfl, hstream⟩ := h.job
  have hsym : s.fs.symlink = u.fs₀.symlink := by rw [h.fs]
  obtain ⟨hsame, hhalted⟩ :=
    halted_start decompress hsep hs hjob hres hsym hid hlt (fun _ => .inl hstream) io
  rw [if_pos (.inr hstream), h.fs, atomic_modifyTime_iff hsep hres hjob] at hsame
  obtain ⟨hlost, hrest⟩ := List.pairwise_cons.mp hunbroken
  refine ⟨fun hthrough => hsame.mp (hthrough [] _ List.nil_prefix rfl), fun hharm => ?_⟩
  cases hfails : io.failed with
  | true =>
    exact (hhalted (hsame.mpr hharm)).throughout hsep hres fun later hlater =>
      hlost later hlater hfails
  | false =>
    have hatomic : u.Atomic (job.modifyTime s.fs io.renames) := by
      rw [h.fs]
      exact (atomic_modifyTime_iff hsep hres hjob io.renames).mpr hharm
    have hbegun :
      u.Begun ⟨.within b.fileNum (decode decompress b), s.handle decompress (.block b) io⟩ :=
      holds_start decompress hsep hs hjob (hres.congr hsym) hsym hid hlt (.inr hstream)
        hfails hatomic
    exact hbegun.throughout hsep hres hrest hexec

/-- Done before any block: the file that gets its name must do no harm. -/
theorem Fresh.done (decompress : Bytes → Bytes) (hsep : Separated u.path u.files.length)
    (hres : Resolves u.fs₀ u.q u.files) (h : u.Fresh f s) (io : WriteIo) :
    u.Begun ⟨.over, s.handle decompress .done io⟩ ↔ (io.renames = true → u.Harmless u.fs₀ f) := by
  obtain ⟨job, hs, hjob, rfl, -⟩ := h.job
  rw [← atomic_modifyTime_iff hsep hres hjob io.renames, Begun, Receiver.handle, hs, ← h.fs]

/-- An error or a cancel before any block leaves every destination as it was. -/
theorem Fresh.stopped (decompress : Bytes → Bytes) (hsep : Separated u.path u.files.length)
    (hres : Resolves u.fs₀ u.q u.files) (h : u.Fresh f s) (io : WriteIo) :
    u.Begun ⟨.over, s.handle decompress .error io⟩ ∧
      u.Begun ⟨.over, s.handle decompress .cancel io⟩ := by
  obtain ⟨job, hs, hjob, -, -⟩ := h.job
  have hnow : u.Atomic s.fs := by
    rw [h.fs]
    exact atomic_start
  constructor
  · rw [Begun, Receiver.handle, hs]
    exact hnow
  · rw [Begun, Receiver.handle, hs]
    exact hnow.removeDownloadFile hsep (h.fs ▸ hres) hjob

/-- **A run up to the first block**: the destinations are replaced as a whole if and only if the
file that gets its name first does no harm. -/
theorem Fresh.throughout_iff {decompress : Bytes → Bytes} (hsep : Separated u.path u.files.length)
    (hres : Resolves u.fs₀ u.q u.files) :
    ∀ {es : List (Incoming × WriteIo)} {s : Receiver} {t : Transfer} {f k : ℕ}, u.Fresh f s →
      f ≤ k → Unbroken es →
      exec (Transfer.step decompress u.contents u.id u.files.length) ⟨.next k, s⟩ es = some t →
      (Throughout (Transfer.step decompress u.contents u.id u.files.length)
        (fun t => u.Atomic t.receiver.fs)
        ⟨.next k, s⟩ es ↔ ∀ f', firstMoved f es = some f' → u.Harmless u.fs₀ f') := by
  intro es
  induction es with
  | nil =>
    intro s t f k h _ _ _
    refine ⟨fun _ => nofun, fun _ done s' hdone hexec => ?_⟩
    obtain rfl := List.prefix_nil.mp hdone
    obtain rfl := Option.some.inj hexec
    rw [h.fs]
    exact atomic_start
  | cons e es ih =>
    intro s t f k h hfk hunbroken hexec
    obtain ⟨e, io⟩ := e
    obtain ⟨t₁, hstep, hexec⟩ := exec_cons.mp hexec
    have hrest := (List.pairwise_cons.mp hunbroken).2
    have hnow : u.Atomic s.fs := by
      rw [h.fs]
      exact atomic_start
    rw [throughout_cons hstep, and_iff_right hnow]
    unfold Transfer.step at hstep
    split at hstep
    · cases hstep
    next phase hphase =>
    obtain rfl := Option.some.inj hstep
    cases e with
    | digest fileNum fileSize lastModified =>
      dsimp only [Phase.advance, Phase.free] at hphase
      split at hphase
      · obtain rfl := Option.some.inj hphase
        exact ih (h.digest decompress _ _ _ io) (by omega) hrest hexec
      · cases hphase
    | confirm r canOpen =>
      dsimp only [Phase.advance, Phase.free] at hphase
      split at hphase
      · split at hphase
        · next hskip =>
          obtain rfl := Option.some.inj hphase
          exact ih (h.confirm decompress (.inl hskip) canOpen io) (by split <;> omega) hrest hexec
        · next hskip =>
          split at hphase
          · next hwhole =>
            obtain rfl := Option.some.inj hphase
            refine ih (h.confirm decompress (.inr hwhole) canOpen io) ?_ hrest hexec
            rw [if_neg (fun hand => hskip hand.2)]
            omega
          · cases hphase
      · cases hphase
    | block b =>
      dsimp only [Phase.advance, Phase.start, Phase.free] at hphase
      split at hphase
      · next hb =>
        split at hphase
        · obtain rfl := Option.some.inj hphase
          exact (h.block hsep hres hb.1 hb.2 hunbroken hexec).trans
            (firstMoved_harmless_iff io.renames).symm
        · cases hphase
      · cases hphase
    | done =>
      dsimp only [Phase.advance, Phase.free] at hphase
      obtain rfl := Option.some.inj hphase
      refine Iff.trans ⟨fun hthrough => hthrough [] _ List.nil_prefix rfl, fun hatomic => ?_⟩
        ((h.done decompress hsep hres io).trans (firstMoved_harmless_iff io.renames).symm)
      have hbegun : u.Begun ⟨.over, s.handle decompress .done io⟩ := hatomic
      exact hbegun.throughout hsep hres hrest hexec
    | error =>
      dsimp only [Phase.advance] at hphase
      obtain rfl := Option.some.inj hphase
      have hbegun := (h.stopped decompress hsep hres io).1
      exact ⟨fun _ => nofun, fun _ => hbegun.throughout hsep hres hrest hexec⟩
    | cancel =>
      dsimp only [Phase.advance] at hphase
      obtain rfl := Option.some.inj hphase
      have hbegun := (h.stopped decompress hsep hres io).2
      exact ⟨fun _ => nofun, fun _ => hbegun.throughout hsep hres hrest hexec⟩

end Setup

/-- **Atomic replacement.** A job that is not a resume writes entries that do not get in each
other's way, on any disk, whatever a sender that keeps to the order of the entries sends, wherever
the transfer stops and whatever fails; but after a block whose `write` failed there comes no other
block and no Done. In every state of the run each entry is at its destination as it was before, or
as it was sent, if and only if there is no file of an earlier transfer that can still get its name:
the `.download` file of the entry the job stands at when the first block comes is missing, or holds
what the destination holds already, or the whole entry. -/
theorem atomic_iff (decompress : Bytes → Bytes) (u : Setup) {start : ℕ} {overwrite : Bool}
    {wj : TransferJob} {es : List (Incoming × WriteIo)} {t : Transfer} (hsep : Separate u.files)
    (haccept : (TransferJob.newWrite u.id .generic (.filePath u.q) start overwrite).setFiles u.fs₀
    u.files = .ok wj) (hrun : exec (step decompress u.contents u.id u.files.length)
    ⟨.next start, ⟨some (.new wj), u.fs₀⟩⟩ es = some t) (hunbroken : Unbroken es) :
    Throughout (step decompress u.contents u.id u.files.length) (fun t => u.Atomic t.receiver.fs)
        ⟨.next start, ⟨some (.new wj), u.fs₀⟩⟩ es ↔
      ∀ f, firstMoved start es = some f → u.Harmless u.fs₀ f := by
  obtain ⟨-, hwj⟩ := TransferJob.setFiles_ok haccept
  have hres := TransferJob.setFiles_resolves rfl haccept
  have hfresh : u.Fresh start ⟨some (.new wj), u.fs₀⟩ := by
    refine ⟨⟨_, rfl, ?_, ?_, ?_⟩, rfl⟩
    · rw [hwj]
      exact ⟨rfl, rfl, rfl, rfl⟩
    · rw [hwj]
      rfl
    · rw [hwj]
      rfl
  exact hfresh.throughout_iff (TransferJob.separated_entryPath haccept hsep)
    hres le_rfl hunbroken hrun

/-- A destination directory with these files, by name. -/
def destinationOf (entries : List (String × Bytes)) : FileSys :=
  ⟨fun path => (entries.find? fun e => join "d".toList e.1.toList = path).map fun e => ⟨e.2, none⟩,
    fun _ => false⟩

/-- Two entries are sent to a directory with the first of them, and with what an earlier transfer
of it left. -/
def twoEntries : Setup :=
  ⟨"d".toList, TransferJob.entriesOf ["a", "b"], fun _ => [1, 2, 3], 7,
    destinationOf [("a", [1]), ("a.download", [9]), ("a.digest", [])]⟩

/-- The first entry is skipped, the second comes in two blocks, and then the disk is full. -/
def skipThenSend : List (Incoming × WriteIo) :=
  [(.digest 0 3 5, .ok), (.confirm ⟨7, 0, some (.skip true)⟩ true, .ok), (.digest 1 3 5, .ok),
    (.confirm ⟨7, 1, some (.offsetBlk 0)⟩ true, .ok), (.block ⟨7, 1, [1, 2], false⟩, .ok),
    (.block ⟨7, 1, [3], false⟩, { WriteIo.ok with written := some 0 }), (.error, .ok)]

theorem atomic_iff_skipped : ∃ t, exec (step TransferJob.stored twoEntries.contents 7 2)
        ⟨.next 0, ⟨some (.new (TransferJob.receiverOf ["a", "b"])), twoEntries.fs₀⟩⟩ skipThenSend =
          some t ∧
      t.receiver.fs.content "d/b".toList = none ∧
      Throughout (step TransferJob.stored twoEntries.contents 7 2)
        (fun t => twoEntries.Atomic t.receiver.fs)
        ⟨.next 0, ⟨some (.new (TransferJob.receiverOf ["a", "b"])), twoEntries.fs₀⟩⟩
          skipThenSend := by
  have hrun : (exec (step TransferJob.stored twoEntries.contents 7 2)
      ⟨.next 0, ⟨some (.new (TransferJob.receiverOf ["a", "b"])), twoEntries.fs₀⟩⟩ skipThenSend).any
        (fun t => decide (t.receiver.fs.content "d/b".toList = none)) = true := by
    decide +kernel
  obtain ⟨t, ht, hp⟩ := (Option.any_eq_true _ _).mp hrun
  have haccept : (TransferJob.newWrite 7 .generic (.filePath "d".toList) 0 false).setFiles
    twoEntries.fs₀
      (TransferJob.entriesOf ["a", "b"]) = .ok (TransferJob.receiverOf ["a", "b"]) := by
    decide +kernel
  have hleft : twoEntries.fs₀.content (downloadPath (twoEntries.path 1)) = none := by decide +kernel
  refine ⟨t, ht, of_decide_eq_true hp,
    (atomic_iff TransferJob.stored twoEntries (by decide +kernel)
      haccept ht (by decide +kernel)).mpr ?_⟩
  have hmoved : firstMoved 0 skipThenSend = some 1 := by decide +kernel
  intro f hf _ c hc
  obtain rfl := Option.some.inj (hmoved.symm.trans hf)
  rw [hleft] at hc
  cases hc

/-- The file for `b` cannot be created, and its next block is appended to `a`, which has its name
already. -/
example : (exec (step TransferJob.stored (fun _ => [1]) 7 2)
    ⟨.next 0, ⟨some (.new (TransferJob.receiverOf ["a", "b"])), FileSys.empty⟩⟩
      [(.block ⟨7, 0, [1], false⟩, .ok), (.block ⟨7, 1, [], false⟩,
        { WriteIo.ok with creates := false }),
        (.block ⟨7, 1, [1], false⟩, .ok)]).map (fun t => t.receiver.fs.content "d/a".toList) =
    some (some [1, 1]) := by
  decide +kernel

/-- The first block of `a` gives what an earlier transfer left its name: the destination then holds
neither what it held nor the entry. -/
theorem leftover_gets_the_name :
    (TransferJob.newWrite 7 .generic (.filePath "d".toList) 0 false).setFiles twoEntries.fs₀
        (TransferJob.entriesOf ["a", "b"]) = .ok (TransferJob.receiverOf ["a", "b"]) ∧
      Separate twoEntries.files ∧
      ∃ t, exec (step TransferJob.stored twoEntries.contents 7 2)
          ⟨.next 0, ⟨some (.new (TransferJob.receiverOf ["a", "b"])), twoEntries.fs₀⟩⟩
            [(.block ⟨7, 0, [1, 2], false⟩, .ok)] = some t ∧
        t.receiver.fs.content (twoEntries.path 0) = some [9] ∧
          ¬ twoEntries.Atomic t.receiver.fs := by
  have hrun : (exec (step TransferJob.stored twoEntries.contents 7 2)
      ⟨.next 0, ⟨some (.new (TransferJob.receiverOf ["a", "b"])), twoEntries.fs₀⟩⟩
        [(.block ⟨7, 0, [1, 2], false⟩, .ok)]).any
        (fun t => decide (t.receiver.fs.content (twoEntries.path 0) = some [9])) = true := by
    decide +kernel
  obtain ⟨t, ht, hp⟩ := (Option.any_eq_true _ _).mp hrun
  have hcontent : t.receiver.fs.content (twoEntries.path 0) = some [9] := of_decide_eq_true hp
  refine ⟨by decide +kernel, by decide +kernel, t, ht, hcontent, fun hatomic => ?_⟩
  have hcases := hatomic 0 (by decide +kernel)
  rw [hcontent] at hcases
  rcases hcases with h | h
  · exact absurd h (by decide +kernel)
  · exact absurd h (by decide +kernel)

end Transfer
end Fs
end BgDesk
