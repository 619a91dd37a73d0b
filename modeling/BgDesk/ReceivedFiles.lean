import BgDesk.Machine
import BgDesk.DirectoryTree
import BgDesk.FileTransfer

/-!
# Where received files go

`TransferJob` of `libs/base/src/fs.rs` as a writer, over a disk with directories and symbolic links:
the names of the entries come from the peer, and are checked before they are joined to the base.

* `DiskJob` — the job, with the paths it has used and the files it has opened for writing;
* `DiskJob.write_returned` — a call of `write` is one of `TransferJob.write`, with the failures of
  this disk;
* `received_paths_contained` — a list that is accepted has no path outside the base;
* `writes_through_links` — exactly when a write goes through a symbolic link below the base.
-/

namespace BgDesk
namespace Fs

/-! ## Names on a disk -/

/-- `validate_no_symlink_components`, from the path of the components before. -/
def walkNames (d : BgDesk.Disk) : PathName → List PathName → Except String Unit
  | _, [] => .ok ()
  | current, seg :: segs =>
    if seg = ['.', '.'] then .error "invalid file name component"
    else
      match d.symlinkMetadata (current.join seg) with
      | .ok node =>
        if node.isLink then .error "symlink path component is not allowed" else walkNames d
          (current.join seg) segs
      | .error .notFound => walkNames d (current.join seg) segs
      | .error _ => .error "failed to validate path component"

/-- `validate_no_symlink_components`. -/
def validateNoLinks (d : BgDesk.Disk) (base name : PathName) : Except String Unit :=
  if name = [] then .ok ()
  else if name.head? = some '/' then .error "invalid file name component"
  else walkNames d base name.components

/-- `join_validated_path`. -/
def joinChecked (d : BgDesk.Disk) (base name : PathName) : Except String PathName := do
  validateFileNameNoTraversal name
  validateNoLinks d base name
  return join base name

/-! ## Jobs -/

/-- An open file: where the path has led, the position, and whether it is open for writing. -/
structure OpenFile where
  reached : Reached
  pos : ℕ
  writable : Bool
  deriving DecidableEq

/-- A `TransferJob` that writes below `base`, and its disk. `accesses` has the paths it has created,
renamed, removed or opened, and `written` what it has opened for writing. An open file is where it
was when it was opened. -/
structure DiskJob where
  id : ℤ
  jobType : JobType
  base : PathName
  files : List FileEntry
  fileNum : ℕ
  dataStream : Option OpenFile
  digest : FileDigest
  disk : BgDesk.Disk
  accesses : List PathName
  written : List Reached

namespace DiskJob

def new (id : ℤ) (jobType : JobType) (base : PathName) (fileNum : ℕ) (d : BgDesk.Disk) : DiskJob :=
  ⟨id, jobType, base, [], fileNum, none, ⟨0, 0⟩, d, [], []⟩

def validateAllNoLinks (d : BgDesk.Disk) (base : PathName) : List FileEntry → Except String Unit
  | [] => .ok ()
  | file :: files => do
    validateNoLinks d base file.name
    validateAllNoLinks d base files

/-- `set_files`. -/
def setFiles (j : DiskJob) (files : List FileEntry) : Except String DiskJob := do
  validateTransferFileNames files
  validateAllNoLinks j.disk j.base files
  return { j with files := files }

/-- `resolve_entry_path`. -/
def resolveEntryPath (j : DiskJob) (name : PathName) : Option PathName :=
  match j.jobType with
  | .generic => (joinChecked j.disk j.base name).toOption
  | .printer => some (join j.base name)

/-- `remove_file` with its error dropped. -/
def removeFile (j : DiskJob) (p : PathName) : DiskJob :=
  { j with disk := (j.disk.removeFile p).toOption.getD j.disk, accesses := j.accesses ++ [p] }

/-- `rename` with its error dropped. -/
def rename (j : DiskJob) (p q : PathName) : DiskJob :=
  { j with disk := (j.disk.rename p q).toOption.getD j.disk, accesses := j.accesses ++ [p, q] }

/-- `set_file_mtime`; the disk has no times. -/
def setMtime (j : DiskJob) (p : PathName) : DiskJob := { j with accesses := j.accesses ++ [p] }

/-- The entry `file_num` stands for, and its path. -/
def current (j : DiskJob) : Option PathName := do
  let entry ← j.files[j.fileNum]?
  j.resolveEntryPath entry.name

/-- `modify_time`. -/
def modifyTime (j : DiskJob) : DiskJob :=
  match j.jobType, j.current with
  | .generic, some path =>
    ((j.removeFile (digestPath path)).rename (downloadPath path) path).setMtime path
  | _, _ => j

/-- `remove_download_file`. -/
def removeDownloadFile (j : DiskJob) : DiskJob :=
  match j.jobType, j.current with
  | .generic, some path => (j.removeFile (downloadPath path)).removeFile (digestPath path)
  | _, _ => j

/-- `File::create`: what is open is where the path has led. -/
def createFile (j : DiskJob) (p : PathName) : DiskJob × Option Reached :=
  match j.disk.openFile p true with
  | .error _ => ({ j with accesses := j.accesses ++ [p] }, none)
  | .ok (r, d) =>
    ({ j with disk := d, accesses := j.accesses ++ [p], written := j.written ++ [r] }, some r)

/-- `std::fs::write` with its error dropped. -/
def writeFile (j : DiskJob) (p : PathName) (data : Bytes) : DiskJob :=
  match j.createFile p with
  | (j, none) => j
  | (j, some r) => { j with disk := j.disk.writeAt r.location 0 data }

/-- `Path::parent`, made with all directories on the way. -/
def createParent (j : DiskJob) (path : PathName) : DiskJob :=
  { j with disk := j.disk.createDirAll (j.disk.start path) [] path.components.dropLast }

/-- The digest of an earlier transfer is removed, if it is there. -/
def removeDigest (j : DiskJob) (path : PathName) : DiskJob × Bool :=
  if j.disk.pathExists (digestPath path) then
    match j.disk.removeFile (digestPath path) with
    | .error _ => ({ j with accesses := j.accesses ++ [digestPath path] }, false)
    | .ok d => ({ j with disk := d, accesses := j.accesses ++ [digestPath path] }, true)
  else (j, true)

/-- The data file and the digest file of an entry. -/
def openEntry (j : DiskJob) (path : PathName) : DiskJob × Except String Unit :=
  match (j.createParent path).removeDigest path with
  | (j, false) => (j, .error "remove_file")
  | (j, true) =>
    match j.createFile (downloadPath path) with
    | (j, none) => (j, .error "create")
    | (j, some r) =>
      ({ j with dataStream := some ⟨r, 0, true⟩ }.writeFile (digestPath path) j.digest.json, .ok ())

/-- The part of `write` that goes to another file. -/
def openBlockFile (j : DiskJob) (fileNum : ℕ) (entry : FileEntry) : DiskJob × Except String Unit :=
  let j := { j.modifyTime with fileNum := fileNum }
  match j.jobType with
  | .printer =>
    match j.createFile j.base with
    | (j, none) => (j, .error "create")
    | (j, some r) => ({ j with dataStream := some ⟨r, 0, true⟩ }, .ok ())
  | .generic =>
    match joinChecked j.disk j.base entry.name with
    | .error err => (j, .error err)
    | .ok path => j.openEntry path

/-- The end of `write`: the bytes of a block go to the open file. -/
def writeData (j : DiskJob) (data : Bytes) : DiskJob × Except String Unit :=
  match j.dataStream with
  | none => (j, .error "file is None")
  | some file =>
    if file.writable then
      ({ j with
        disk := j.disk.writeAt file.reached.location file.pos data
        dataStream := some { file with pos := file.pos + data.length } }, .ok ())
    else (j, .error "write_all")

/-- `write` of a block with this file number and these bytes, decompressed. -/
def write (j : DiskJob) (id : ℤ) (fileNum : ℕ) (data : Bytes) : DiskJob × Except String Unit :=
  if id ≠ j.id then (j, .error "Wrong id")
  else
    match j.files[fileNum]? with
    | none => (j, .error "Wrong file number")
    | some entry =>
      if fileNum ≠ j.fileNum ∨ j.dataStream = none then
        match j.openBlockFile fileNum entry with
        | (j, .ok ()) => j.writeData data
        | (j, .error err) => (j, .error err)
      else j.writeData data

/-- `set_stream_offset`: the data file is opened again where it and its digest are there, else the
file itself, to read. `canSeek` is false where the file has no such position. -/
def setStreamOffset (j : DiskJob) (fileNum offset : ℕ) (canSeek : Bool) : DiskJob :=
  match j.files[fileNum]?.bind fun entry => j.resolveEntryPath entry.name with
  | none => j
  | some path =>
    if j.disk.pathExists (downloadPath path) && j.disk.pathExists (digestPath path) then
      let j := { j with accesses := j.accesses ++ [downloadPath path] }
      match j.disk.openFile (downloadPath path) false with
      | .error _ => j
      | .ok (r, d) =>
        { j with
          disk := d
          written := j.written ++ [r]
          dataStream := if canSeek then some ⟨r, offset, true⟩ else j.dataStream }
    else if j.disk.pathExists path then
      let j := { j with accesses := j.accesses ++ [path] }
      match j.disk.resolve path with
      | .error _ => j
      | .ok r => { j with dataStream := if canSeek then some ⟨r, offset, false⟩ else j.dataStream }
    else j

end DiskJob

/-- The calls of a job; in between, others may do anything to the tree. -/
inductive JobCall where
  | write (id : ℤ) (fileNum : ℕ) (data : Bytes)
  | modifyTime
  | removeDownloadFile
  | setStreamOffset (fileNum offset : ℕ) (canSeek : Bool)
  | setDigest (digest : FileDigest)
  | others (root : Tree)

def jobStep (j : DiskJob) : JobCall → Option DiskJob
  | .write id fileNum data => some (j.write id fileNum data).1
  | .modifyTime => some j.modifyTime
  | .removeDownloadFile => some j.removeDownloadFile
  | .setStreamOffset fileNum offset canSeek => some (j.setStreamOffset fileNum offset canSeek)
  | .setDigest digest => some { j with digest := digest }
  | .others root => some { j with disk := { j.disk with root := root } }


/-! ## The paths of a job -/

/-- The path of an entry, and the two beside it. -/
def Companion (base name p : PathName) : Prop :=
  p = join base name ∨ p = downloadPath (join base name) ∨ p = digestPath (join base name)

/-- The paths a job may use: those of its entries, and the base where it is for a printer. -/
def DiskJob.Owns (j : DiskJob) (p : PathName) : Prop :=
  (∃ entry ∈ j.files, Companion j.base entry.name p) ∨ (j.jobType = .printer ∧ p = j.base)

/-- A call uses no path but those that are owned. -/
structure Uses (owned : PathName → Prop) (j j' : DiskJob) : Prop where
  base : j'.base = j.base
  jobType : j'.jobType = j.jobType
  files : j'.files = j.files
  accesses : ∀ p ∈ j'.accesses, p ∈ j.accesses ∨ owned p

namespace Uses

variable {owned : PathName → Prop} {j j' j'' : DiskJob}

theorem refl (owned : PathName → Prop) (j : DiskJob) : Uses owned j j :=
  ⟨rfl, rfl, rfl, fun _ hp => .inl hp⟩

theorem trans (h : Uses owned j j') (h' : Uses owned j' j'') : Uses owned j j'' where
  base := h'.base.trans h.base
  jobType := h'.jobType.trans h.jobType
  files := h'.files.trans h.files
  accesses := fun p hp => by
    rcases h'.accesses p hp with hp | hp
    · exact h.accesses p hp
    · exact .inr hp

/-- The calls of the system add the paths they are given. -/
theorem of_append {ps : List PathName} (hbase : j'.base = j.base) (htype : j'.jobType = j.jobType)
    (hfiles : j'.files = j.files) (haccesses : j'.accesses = j.accesses ++ ps)
    (hps : ∀ p ∈ ps, owned p) : Uses owned j j' where
  base := hbase
  jobType := htype
  files := hfiles
  accesses := fun p hp => by
    rw [haccesses] at hp
    rcases List.mem_append.mp hp with hp | hp
    · exact .inl hp
    · exact .inr (hps p hp)

theorem of_eq (hbase : j'.base = j.base) (htype : j'.jobType = j.jobType)
    (hfiles : j'.files = j.files) (haccesses : j'.accesses = j.accesses) : Uses owned j j' :=
  ⟨hbase, htype, hfiles, fun _ hp => .inl (haccesses ▸ hp)⟩

end Uses

namespace DiskJob

variable {owned : PathName → Prop} {j : DiskJob}

variable {p path : PathName}

theorem removeFile_uses (hp : owned p) : Uses owned j (j.removeFile p) :=
  .of_append rfl rfl rfl rfl (by simpa using hp)

theorem rename_uses {q : PathName} (hp : owned p) (hq : owned q) : Uses owned j (j.rename p q) :=
  .of_append rfl rfl rfl rfl (by simpa using ⟨hp, hq⟩)

theorem setMtime_uses (hp : owned p) : Uses owned j (j.setMtime p) :=
  .of_append rfl rfl rfl rfl (by simpa using hp)

theorem createFile_uses (hp : owned p) : Uses owned j (j.createFile p).1 := by
  rw [createFile]
  split
  · exact .of_append rfl rfl rfl rfl (by simpa using hp)
  · exact .of_append rfl rfl rfl rfl (by simpa using hp)

theorem writeFile_uses (hp : owned p) (data : Bytes) : Uses owned j (j.writeFile p data) := by
  have hcreate := createFile_uses (j := j) hp
  rw [writeFile]
  split
  · rename_i heq
    rw [heq] at hcreate
    exact hcreate
  · rename_i heq
    rw [heq] at hcreate
    exact hcreate.trans (.of_eq rfl rfl rfl rfl)

theorem removeDigest_uses (hp : owned (digestPath path)) :
    Uses owned j (j.removeDigest path).1 := by
  rw [removeDigest]
  split
  · split
    · exact .of_append rfl rfl rfl rfl (by simpa using hp)
    · exact .of_append rfl rfl rfl rfl (by simpa using hp)
  · exact .refl owned j

theorem joinChecked_eq {d : BgDesk.Disk} {base name : PathName}
    (h : joinChecked d base name = .ok path) : path = join base name := by
  rw [joinChecked] at h
  cases hname : validateFileNameNoTraversal name with
  | error err =>
    rw [hname] at h
    cases h
  | ok u =>
    rw [hname] at h
    cases hlinks : validateNoLinks d base name with
    | error err =>
      rw [hlinks] at h
      cases h
    | ok u =>
      rw [hlinks] at h
      exact (Except.ok.inj h).symm

theorem resolveEntryPath_eq {name : PathName} (h : j.resolveEntryPath name = some path) :
    path = join j.base name := by
  rw [resolveEntryPath] at h
  split at h
  · cases hjoin : joinChecked j.disk j.base name with
    | error err =>
      rw [hjoin] at h
      cases h
    | ok p =>
      rw [hjoin] at h
      obtain rfl := Option.some.inj h
      exact joinChecked_eq hjoin
  · exact (Option.some.inj h).symm

/-- The path of an entry and its companions are owned. -/
theorem owns_companions {entry : FileEntry} (hentry : entry ∈ j.files) :
    j.Owns (join j.base entry.name) ∧ j.Owns (downloadPath (join j.base entry.name)) ∧
      j.Owns (digestPath (join j.base entry.name)) :=
  ⟨.inl ⟨entry, hentry, .inl rfl⟩, .inl ⟨entry, hentry, .inr (.inl rfl)⟩,
    .inl ⟨entry, hentry, .inr (.inr rfl)⟩⟩

theorem current_owned (h : j.current = some path) :
    j.Owns path ∧ j.Owns (downloadPath path) ∧ j.Owns (digestPath path) := by
  obtain ⟨entry, hentry, hpath⟩ := Option.bind_eq_some_iff.mp h
  rw [resolveEntryPath_eq hpath]
  exact owns_companions (List.mem_of_getElem? hentry)

theorem modifyTime_uses : Uses j.Owns j j.modifyTime := by
  rw [modifyTime]
  split
  · rename_i hpath
    obtain ⟨hentry, hdownload, hdigest⟩ := current_owned hpath
    exact ((removeFile_uses hdigest).trans (rename_uses hdownload hentry)).trans
      (setMtime_uses hentry)
  · exact .refl _ j

theorem removeDownloadFile_uses : Uses j.Owns j j.removeDownloadFile := by
  rw [removeDownloadFile]
  split
  · rename_i hpath
    obtain ⟨-, hdownload, hdigest⟩ := current_owned hpath
    exact (removeFile_uses hdownload).trans (removeFile_uses hdigest)
  · exact .refl _ j

theorem openEntry_uses (hdownload : owned (downloadPath path)) (hdigest : owned (digestPath path)) :
    Uses owned j (j.openEntry path).1 := by
  have hparent : Uses owned j (j.createParent path) := .of_eq rfl rfl rfl rfl
  have hremove := hparent.trans (removeDigest_uses hdigest)
  rw [openEntry]
  split
  · rename_i heq
    rw [heq] at hremove
    exact hremove
  · rename_i j₁ heq
    rw [heq] at hremove
    have hcreate := hremove.trans (createFile_uses hdownload)
    split
    · rename_i heq
      rw [heq] at hcreate
      exact hcreate
    · rename_i j₂ r heq
      rw [heq] at hcreate
      have hstream : Uses owned j₂ { j₂ with dataStream := some ⟨r, 0, true⟩ } :=
        .of_eq rfl rfl rfl rfl
      exact hcreate.trans (hstream.trans (writeFile_uses hdigest _))

theorem openBlockFile_uses {fileNum : ℕ} {entry : FileEntry} (hentry : entry ∈ j.files) :
    Uses j.Owns j (j.openBlockFile fileNum entry).1 := by
  have hmodify : Uses j.Owns j { j.modifyTime with fileNum := fileNum } :=
    modifyTime_uses.trans (.of_eq rfl rfl rfl rfl)
  rw [openBlockFile]
  generalize { j.modifyTime with fileNum := fileNum } = j₁ at *
  split
  · rename_i htype
    have hbase : j.Owns j₁.base := .inr ⟨hmodify.jobType.symm.trans htype, hmodify.base⟩
    have hcreate := hmodify.trans (createFile_uses hbase)
    split
    · rename_i heq
      rw [heq] at hcreate
      exact hcreate
    · rename_i heq
      rw [heq] at hcreate
      exact hcreate.trans (.of_eq rfl rfl rfl rfl)
  · split
    · exact hmodify
    · rename_i path hpath
      obtain ⟨-, hdownload, hdigest⟩ := owns_companions hentry
      rw [joinChecked_eq hpath, hmodify.base]
      exact hmodify.trans (openEntry_uses hdownload hdigest)

theorem writeData_uses (data : Bytes) : Uses owned j (j.writeData data).1 := by
  rw [writeData]
  split
  · exact .refl owned j
  · split
    · exact .of_eq rfl rfl rfl rfl
    · exact .refl owned j

theorem write_uses (id : ℤ) (fileNum : ℕ) (data : Bytes) :
    Uses j.Owns j (j.write id fileNum data).1 := by
  rw [write]
  split
  · exact .refl _ j
  · split
    · exact .refl _ j
    · rename_i entry hentry
      split
      · have hopen : Uses j.Owns j (j.openBlockFile fileNum entry).1 :=
          openBlockFile_uses (List.mem_of_getElem? hentry)
        split
        · rename_i heq
          rw [heq] at hopen
          exact hopen.trans (writeData_uses data)
        · rename_i heq
          rw [heq] at hopen
          exact hopen
      · exact writeData_uses data

theorem setStreamOffset_uses (fileNum offset : ℕ) (canSeek : Bool) :
    Uses j.Owns j (j.setStreamOffset fileNum offset canSeek) := by
  rw [setStreamOffset]
  split
  · exact .refl _ j
  · rename_i path hpath
    obtain ⟨entry, hentry, hpath⟩ := Option.bind_eq_some_iff.mp hpath
    obtain ⟨hself, hdownload, -⟩ := owns_companions (List.mem_of_getElem? hentry)
    rw [← resolveEntryPath_eq hpath] at hself hdownload
    have hopen : Uses j.Owns j { j with accesses := j.accesses ++ [downloadPath path] } :=
      .of_append rfl rfl rfl rfl (by simpa using hdownload)
    have hread : Uses j.Owns j { j with accesses := j.accesses ++ [path] } :=
      .of_append rfl rfl rfl rfl (by simpa using hself)
    split
    · dsimp only
      split
      · exact hopen
      · exact hopen.trans (.of_eq rfl rfl rfl rfl)
    · split
      · dsimp only
        split
        · exact hread
        · exact hread.trans (.of_eq rfl rfl rfl rfl)
      · exact .refl _ j

end DiskJob

variable {j j' : DiskJob}

theorem jobStep_uses {call : JobCall} (h : jobStep j call = some j') : Uses j.Owns j j' := by
  cases call with
  | write id fileNum data =>
    obtain rfl := Option.some.inj h
    exact DiskJob.write_uses id fileNum data
  | modifyTime =>
    obtain rfl := Option.some.inj h
    exact DiskJob.modifyTime_uses
  | removeDownloadFile =>
    obtain rfl := Option.some.inj h
    exact DiskJob.removeDownloadFile_uses
  | setStreamOffset fileNum offset canSeek =>
    obtain rfl := Option.some.inj h
    exact DiskJob.setStreamOffset_uses fileNum offset canSeek
  | setDigest digest | others root =>
    obtain rfl := Option.some.inj h
    exact .of_eq rfl rfl rfl rfl

/-- A whole run uses no path but those of the entries. -/
theorem run_uses {calls : List JobCall} (h : exec jobStep j calls = some j') :
    Uses j.Owns j j' := by
  refine exec_invariant (fun j₁ call j₂ h₁ hstep => ?_) (.refl _ j) h
  have hstep := jobStep_uses hstep
  have howns : j₁.Owns = j.Owns := by
    funext p
    rw [DiskJob.Owns, DiskJob.Owns, h₁.base, h₁.jobType, h₁.files]
  rw [howns] at hstep
  exact h₁.trans hstep

/-! ## The two writers -/

/-- The stream of a job over the disk, and the one of the same job over a map from paths to files.
-/
inductive SameStream : Option OpenFile → Option DataStream → Prop where
  | none : SameStream none none
  | file (file : OpenFile) (path : PathName) (pos : ℕ) :
    SameStream (some file) (some (.fileStream path pos))

theorem SameStream.none_iff {file : Option OpenFile} {stream : Option DataStream}
    (h : SameStream file stream) : stream = .none ↔ file = .none := by
  cases h with
  | none => exact ⟨fun _ => rfl, fun _ => rfl⟩
  | file file path pos => exact ⟨nofun, nofun⟩

/-- It is the same stream when the file has got its name. -/
theorem SameStream.renamed {file : Option OpenFile} {stream : Option DataStream}
    (h : SameStream file stream) (path : PathName) :
    SameStream file (stream.map (DataStream.renamed path)) := by
  cases h with
  | none => exact .none
  | file file p pos => exact .file ..

/-- **The same job over the two file systems**: all that `write` decides by is the same in `DiskJob`
and in `TransferJob`. -/
structure Alike (j : DiskJob) (job : TransferJob) : Prop where
  id : job.id = j.id
  jobType : job.jobType = j.jobType
  source : job.dataSource = .filePath j.base
  files : job.files = j.files
  fileNum : job.fileNum = j.fileNum
  stream : SameStream j.dataStream job.dataStream

/-- Both calls return the same, and leave the same job. -/
structure Returned (returned : DiskJob × Except String Unit) (called : Called Unit) : Prop where
  result : called.result = returned.2
  alike : Alike returned.1 called.job

namespace Alike

variable {j : DiskJob} {job : TransferJob}

theorem modifyTime (h : Alike j job) : Alike j.modifyTime job := by
  rw [DiskJob.modifyTime]
  split
  · exact { h with }
  · exact h

theorem removeDigest (h : Alike j job) (path : PathName) : Alike (j.removeDigest path).1 job := by
  rw [DiskJob.removeDigest]
  split
  · split
    · exact { h with }
    · exact { h with }
  · exact h

theorem createFile (h : Alike j job) (p : PathName) : Alike (j.createFile p).1 job := by
  rw [DiskJob.createFile]
  split
  · exact { h with }
  · exact { h with }

theorem writeFile (h : Alike j job) (p : PathName) (data : Bytes) :
    Alike (j.writeFile p data) job := by
  have hcreate := h.createFile p
  rw [DiskJob.writeFile]
  split
  · rename_i heq
    rw [heq] at hcreate
    exact hcreate
  · rename_i heq
    rw [heq] at hcreate
    exact { hcreate with }

/-- Both have gone to another file; the stream is still the one before, under its new name. -/
theorem moved (h : Alike j job) (fs : FileSys) (p : PathName) (renames : Bool) (fileNum : ℕ) :
    Alike { j.modifyTime with fileNum := fileNum }
      { job with dataStream := job.streamRenamed fs p renames, fileNum := fileNum } where
  __ := h.modifyTime
  fileNum := rfl
  stream := by
    have hstream := h.modifyTime.stream
    unfold TransferJob.streamRenamed
    split
    · exact hstream.renamed _
    · exact hstream

/-- Both have opened the new file. -/
theorem opened (h : Alike j job) (r : Reached) (path : PathName) :
    Alike { j with dataStream := some ⟨r, 0, true⟩ }
      { job with dataStream := some (.fileStream path 0) } :=
  { h with stream := .file .. }

end Alike

namespace DiskJob

variable {j : DiskJob} {job : TransferJob}

/-- The digest that is there cannot be removed, or the new file not be created, or both can. -/
theorem openEntry_cases (h : Alike j job) (path : PathName) :
    (∃ j', j.openEntry path = (j', .error "remove_file") ∧ Alike j' job) ∨
    (∃ j', j.openEntry path = (j', .error "create") ∧ Alike j' job) ∨
    ∃ j', j.openEntry path = (j', .ok ()) ∧
      ∀ p, Alike j' { job with dataStream := some (.fileStream p 0) } := by
  have hparent : Alike (j.createParent path) job := { h with }
  have hremoved := hparent.removeDigest path
  rw [openEntry]
  split
  · rename_i heq
    rw [heq] at hremoved
    exact .inl ⟨_, rfl, hremoved⟩
  · rename_i j₁ heq
    rw [heq] at hremoved
    have hcreated := hremoved.createFile (downloadPath path)
    split
    · rename_i heq
      rw [heq] at hcreated
      exact .inr (.inl ⟨_, rfl, hcreated⟩)
    · rename_i heq
      rw [heq] at hcreated
      exact .inr (.inr ⟨_, rfl, fun p => (hcreated.opened _ p).writeFile _ _⟩)

/-- What the disk refuses while another file is opened is a failure of that call over the map. -/
theorem openBlockFile_returned (h : Alike j job) {fs : FileSys} (fileNum : ℕ) {entry : FileEntry}
    (hjoin : joinValidatedPath (job.modifyTime fs) j.base entry.name =
      joinChecked j.modifyTime.disk j.base entry.name) :
    ∃ removes creates, ∀ written, Returned (j.openBlockFile fileNum entry)
      (job.openBlockFile fs j.base fileNum entry ⟨true, true, removes, creates, written⟩) := by
  have hmoved := h.moved fs j.base true fileNum
  have hdisk : { j.modifyTime with fileNum := fileNum }.disk = j.modifyTime.disk := rfl
  rw [← hdisk] at hjoin
  rw [openBlockFile]
  generalize { j.modifyTime with fileNum := fileNum } = j₁ at hmoved hjoin ⊢
  have hbase : j₁.base = j.base := DataSource.filePath.inj (hmoved.source.symm.trans h.source)
  cases htype : j₁.jobType with
  | printer =>
    have htype' : job.jobType = .printer := hmoved.jobType.trans htype
    have hcreated := hmoved.createFile j₁.base
    simp only [TransferJob.openBlockFile, Bool.true_eq_false, and_false, if_false,
      htype'] at hcreated ⊢
    split
    · rename_i heq
      rw [heq] at hcreated
      exact ⟨true, false, fun _ => ⟨rfl, hcreated⟩⟩
    · rename_i heq
      rw [heq] at hcreated
      exact ⟨true, true, fun _ => ⟨rfl, hcreated.opened _ _⟩⟩
  | generic =>
    have htype' : job.jobType = .generic := hmoved.jobType.trans htype
    simp only [TransferJob.openBlockFile, Bool.true_eq_false, and_false, if_false,
      htype'] at hmoved ⊢
    rw [hbase, hjoin]
    cases hpath : joinChecked j₁.disk j.base entry.name with
    | error err => exact ⟨true, true, fun _ => ⟨rfl, hmoved⟩⟩
    | ok path =>
      obtain ⟨j', heq, hrefused⟩ | ⟨j', heq, hrefused⟩ | ⟨j', heq, hopened⟩ :=
        openEntry_cases hmoved path
      · exact ⟨false, true, fun _ => by simpa only [heq, if_true] using ⟨rfl, hrefused⟩⟩
      · exact ⟨true, false, fun _ => by simpa [heq] using ⟨rfl, hrefused⟩⟩
      · exact ⟨true, true, fun _ => by simpa [heq] using ⟨rfl, hopened (downloadPath path)⟩⟩

/-- What is open only to read is written to in vain. -/
theorem writeData_returned (h : Alike j job) (decompress : Bytes → Bytes) (fs : FileSys)
    {block : Block} (hraw : block.compressed = false) (io : WriteIo) :
    ∃ written, Returned (j.writeData block.data)
      (job.writeData decompress fs block { io with written := written }) := by
  have hstream := h.stream
  rw [writeData]
  unfold TransferJob.writeData
  rw [hraw]
  generalize hfile : j.dataStream = file, hopen : job.dataStream = stream at hstream ⊢
  cases hstream with
  | none => exact ⟨none, rfl, h⟩
  | file file path pos =>
    cases hwritable : file.writable with
    | true =>
      exact ⟨none, by simp [hwritable], by simpa [hwritable] using { h with stream := .file .. }⟩
    | false =>
      have hsame : Alike j { job with dataStream := some (.fileStream path pos) } :=
        { h with stream := by rw [hfile]; exact .file .. }
      exact ⟨some 0, by simp [hwritable], by simpa [hwritable] using hsame⟩

/-- **One call of `write`, over the disk and over the map.** Where the names pass the same checks,
there are failures of the calls of the system with which `TransferJob.write` returns what
`DiskJob.write` returns, and leaves the same job: an error of one is an error of the other. -/
theorem write_returned (h : Alike j job) (decompress : Bytes → Bytes) {fs : FileSys} {block : Block}
    (hraw : block.compressed = false)
    (hjoin : ∀ entry ∈ j.files, joinValidatedPath (job.modifyTime fs) j.base entry.name =
      joinChecked j.modifyTime.disk j.base entry.name) :
    ∃ io, Returned (j.write block.id block.fileNum block.data)
      (job.write decompress fs block io) := by
  rw [write]
  unfold TransferJob.write
  rw [h.id, h.files, h.source]
  split
  · exact ⟨.ok, rfl, h⟩
  · dsimp only
    cases hentry : j.files[block.fileNum]? with
    | none => exact ⟨.ok, rfl, h⟩
    | some entry =>
      have hmoves : (block.fileNum ≠ job.fileNum ∨ job.dataStream = none) ↔
          (block.fileNum ≠ j.fileNum ∨ j.dataStream = none) := by
        rw [h.fileNum, h.stream.none_iff]
      dsimp only
      by_cases hmove : block.fileNum ≠ j.fileNum ∨ j.dataStream = none
      · simp only [if_pos hmove, if_pos (hmoves.mpr hmove)]
        obtain ⟨removes, creates, hopened⟩ :=
          openBlockFile_returned h block.fileNum (hjoin entry (List.mem_of_getElem? hentry))
        have hnone := hopened none
        rcases hcalled : job.openBlockFile fs j.base block.fileNum entry
          ⟨true, true, removes, creates, none⟩ with ⟨job₁, fs₁, result₁⟩
        -- what becomes of the data is no matter before the file is open
        have hsame : ∀ written, job.openBlockFile fs j.base block.fileNum entry
            ⟨true, true, removes, creates, written⟩ = ⟨job₁, fs₁, result₁⟩ := fun _ => hcalled
        rcases hblock : j.openBlockFile block.fileNum entry with ⟨j₁, result⟩
        rw [hcalled, hblock] at hnone
        obtain rfl : result₁ = result := hnone.result
        cases result₁ with
        | error err => exact ⟨⟨true, true, removes, creates, none⟩, by rw [hsame]; exact hnone⟩
        | ok u =>
          obtain ⟨written, hwritten⟩ :=
            writeData_returned hnone.alike decompress fs₁ hraw ⟨true, true, removes, creates, none⟩
          exact ⟨⟨true, true, removes, creates, written⟩, by rw [hsame]; exact hwritten⟩
      · simp only [if_neg hmove, if_neg (mt hmoves.mp hmove)]
        obtain ⟨written, hwritten⟩ := writeData_returned h decompress fs hraw .ok
        exact ⟨_, hwritten⟩

end DiskJob

/-! ## Containment -/

/-- A path strictly below another: its components go on after those of the other, and never up. -/
def StrictlyBelow (base p : PathName) : Prop :=
  p.isAbsolute = base.isAbsolute ∧ ∃ rest, rest ≠ [] ∧ ['.', '.'] ∉ rest ∧
    p.components = base.components ++ rest

/-- A path that is another, up to `.` and repeated separators. -/
def SamePath (base p : PathName) : Prop :=
  p.isAbsolute = base.isAbsolute ∧ p.components = base.components

section Contained

variable {base name : PathName}

theorem components_join (base : PathName) (h : name.head? ≠ some '/') :
    (base.join name).components = base.components ++ name.components := by
  rw [PathName.components, PathName.segments_join base h, List.filter_append]
  rfl

/-- The path of a name is below the base, or is the base where the name says nothing. -/
theorem join_contained (base : PathName) (hroot : name.head? ≠ some '/')
    (hup : ['.', '.'] ∉ name.segments) :
    (name.components ≠ [] ∧ StrictlyBelow base (base.join name)) ∨
      (name.components = [] ∧ SamePath base (base.join name)) := by
  have habsolute := PathName.isAbsolute_join base hroot
  by_cases hnone : name.components = []
  · refine .inr ⟨hnone, habsolute, ?_⟩
    rw [components_join base hroot, hnone, List.append_nil]
  · refine .inl ⟨hnone, habsolute, _, hnone, fun hmem => hup ?_, components_join base hroot⟩
    exact (List.mem_filter.mp hmem).1

/-- A suffix on the path of a name makes another last component, and is below the base. -/
theorem suffix_contained {suffix : PathName} (hne : name ≠ []) (hroot : name.head? ≠ some '/')
    (hup : ['.', '.'] ∉ name.segments) (hslash : '/' ∉ suffix) (hlong : 2 < suffix.length) :
    StrictlyBelow base (base.join name ++ suffix) := by
  have hsuffix : suffix ≠ [] := by
    rintro rfl
    simp at hlong
  have hroot' : (name ++ suffix).head? ≠ some '/' := by
    cases name with
    | nil => exact absurd rfl hne
    | cons c name => simpa using hroot
  have hjoin : base.join name ++ suffix = base.join (name ++ suffix) :=
    ((base.join_eq_append_iff hroot' hroot).mpr rfl).symm
  rw [hjoin]
  obtain ⟨init, last, -, hsegments, happend⟩ := name.exists_last
  have hsegs := happend suffix hslash hsuffix
  have hlast : ∀ s : PathName, s.length ≤ 2 → last ++ suffix ≠ s := by
    rintro s hs rfl
    rw [List.length_append] at hs
    omega
  have hup' : ['.', '.'] ∉ (name ++ suffix).segments := by
    rw [hsegs]
    intro hmem
    rcases List.mem_append.mp hmem with hmem | hmem
    · refine hup ?_
      rw [hsegments]
      exact List.mem_append_left _ hmem
    · exact hlast ['.', '.'] (by decide) (List.mem_singleton.mp hmem).symm
  rcases join_contained base hroot' hup' with ⟨-, hbelow⟩ | ⟨hnone, -⟩
  · exact hbelow
  · refine absurd hnone ?_
    rw [PathName.components, hsegs, List.filter_append]
    have hkeep : [last ++ suffix].filter (fun s => s ≠ ['.']) = [last ++ suffix] := by
      simp [hlast ['.'] (by decide)]
    rw [hkeep]
    simp

/-- A name that passes its check has no zero byte. -/
theorem zero_notMem (h : validateFileNameNoTraversal name = .ok ()) : '\x00' ∉ name := by
  rw [validateFileNameNoTraversal] at h
  split at h
  · cases h
  · rename_i hzero
    exact hzero

theorem slash_notMem_download : '/' ∉ ".download".toList := by decide

theorem slash_notMem_digest : '/' ∉ ".digest".toList := by decide

/-- Every path of an entry that has passed its check. -/
theorem companion_contained {p : PathName} (hne : name ≠ [])
    (h : validateFileNameNoTraversal name = .ok ()) (hp : Companion base name p) :
    StrictlyBelow base p ∨ (p = join base name ∧ name.components = [] ∧ SamePath base p) := by
  obtain ⟨hup, hroot⟩ := validateFileNameNoTraversal_ok h
  have hjoin : join base name = base.join name := by rw [join, if_neg hne]
  rcases hp with rfl | rfl | rfl
  · rw [hjoin]
    rcases join_contained base hroot hup with ⟨-, hbelow⟩ | ⟨hnone, hsame⟩
    · exact .inl hbelow
    · exact .inr ⟨rfl, hnone, hsame⟩
  · rw [hjoin]
    exact .inl (suffix_contained hne hroot hup slash_notMem_download (by decide))
  · rw [hjoin]
    exact .inl (suffix_contained hne hroot hup slash_notMem_digest (by decide))

end Contained

theorem DiskJob.setFiles_ok {files : List FileEntry} (h : j.setFiles files = .ok j') :
    validateTransferFileNames files = .ok () ∧ validateAllNoLinks j.disk j.base files = .ok () ∧
      j' = { j with files := files } := by
  rw [setFiles] at h
  cases hnames : validateTransferFileNames files with
  | error err =>
    rw [hnames] at h
    cases h
  | ok u =>
    rw [hnames] at h
    cases hlinks : validateAllNoLinks j.disk j.base files with
    | error err =>
      rw [hlinks] at h
      cases h
    | ok u =>
      rw [hlinks] at h
      exact ⟨rfl, rfl, (Except.ok.inj h).symm⟩

theorem DiskJob.setFiles_of_checks {files : List FileEntry}
    (hnames : validateTransferFileNames files = .ok ())
    (hlinks : validateAllNoLinks j.disk j.base files = .ok ()) :
    j.setFiles files = .ok { j with files := files } := by
  rw [setFiles, hnames]
  change (validateAllNoLinks j.disk j.base files >>= _) = _
  rw [hlinks]
  rfl

/-- **Containment**: an accepted list has no name with a `..` component, a zero byte or a root, and
whatever is done with it, the paths that are used are strictly below the base, but for a name that
has no component other than `.`, which is the base, a single entry without a name, which is the base
and the two paths beside it, and the base of a printer. -/
theorem received_paths_contained {id : ℤ} {jobType : JobType} {base : PathName} {fileNum : ℕ}
    {d : BgDesk.Disk} {files : List FileEntry} {j j' : DiskJob} {calls : List JobCall}
    (haccepted : (DiskJob.new id jobType base fileNum d).setFiles files = .ok j)
    (hrun : exec jobStep j calls = some j') :
    (∀ entry ∈ files, entry.name ≠ [] → ['.', '.'] ∉ entry.name.components ∧ '\x00' ∉ entry.name ∧
        entry.name.isAbsolute = false ∧ (base.join entry.name).components = base.components ++
          entry.name.components) ∧
      (∀ entry ∈ files, entry.name = [] → files = [entry]) ∧
      ∀ p ∈ j'.accesses, (jobType = .printer ∧ p = base) ∨
        ∃ entry ∈ files, Companion base entry.name p ∧ (entry.name ≠ [] →
          StrictlyBelow base p ∨ (p = join base entry.name ∧ entry.name.components = [] ∧
            SamePath base p)) := by
  obtain ⟨hnames, -, rfl⟩ := DiskJob.setFiles_ok haccepted
  have hentries : ∀ entry ∈ files, entry.name ≠ [] →
      validateFileNameNoTraversal entry.name = .ok () := by
    intro entry hentry hne
    rcases validateTransferFileNames_ok hnames with ⟨single, rfl, hsingle⟩ | hall
    · rw [List.mem_singleton.mp hentry] at hne
      exact absurd hsingle hne
    · exact (hall entry hentry).2
  refine ⟨fun entry hentry hne => ?_, fun entry hentry hempty => ?_, fun p hp => ?_⟩
  · have hvalid := hentries entry hentry hne
    obtain ⟨hup, hroot⟩ := validateFileNameNoTraversal_ok hvalid
    refine ⟨fun hmem => hup (List.mem_filter.mp hmem).1, zero_notMem hvalid, ?_,
      components_join base hroot⟩
    exact decide_eq_false hroot
  · rcases validateTransferFileNames_ok hnames with ⟨single, rfl, -⟩ | hall
    · rw [List.mem_singleton.mp hentry]
    · exact absurd hempty (hall entry hentry).1
  · rcases (run_uses hrun).accesses p hp with hold | howned
    · cases hold
    · rcases howned with ⟨entry, hentry, hcompanion⟩ | hprinter
      · exact .inr ⟨entry, hentry, hcompanion, fun hne =>
          companion_contained hne (hentries entry hentry hne) hcompanion⟩
      · exact .inl hprinter

/-- A disk with an empty directory. -/
def oneDirectory : BgDesk.Disk := ⟨.dir [("d".toList, .dir [])], []⟩

theorem received_paths_contained_two :
    let files : List FileEntry := [⟨"a/b".toList, 0, 0⟩, ⟨"c".toList, 0, 0⟩]
    ∃ j j', (DiskJob.new 1 .generic "/d".toList 0 oneDirectory).setFiles files = .ok j ∧
      exec jobStep j [.write 1 0 [7], .write 1 1 [8], .modifyTime] = some j' ∧ j'.accesses ≠ [] ∧
      ∀ p ∈ j'.accesses, StrictlyBelow "/d".toList p := by
  intro files
  have hlinks : DiskJob.validateAllNoLinks oneDirectory "/d".toList files = .ok () := by
    decide +kernel
  have hnames : validateTransferFileNames files = .ok () := by decide +kernel
  have haccepted := DiskJob.setFiles_of_checks
    (j := DiskJob.new 1 .generic "/d".toList 0 oneDirectory) hnames hlinks
  have hused :
    (exec jobStep { DiskJob.new 1 .generic "/d".toList 0 oneDirectory with files := files }
      [.write 1 0 [7], .write 1 1 [8], .modifyTime]).any (fun j => decide (j.accesses ≠ [])) =
        true := by decide +kernel
  have hsome : ∀ entry ∈ files, entry.name ≠ [] ∧ entry.name.components ≠ [] := by decide +kernel
  obtain ⟨j', hrun, hne⟩ := (Option.any_eq_true _ _).mp hused
  refine ⟨_, j', haccepted, hrun, of_decide_eq_true hne, fun p hp => ?_⟩
  obtain ⟨-, -, hcontained⟩ := received_paths_contained haccepted hrun
  rcases hcontained p hp with ⟨hprinter, -⟩ | ⟨entry, hentry, -, hbelow⟩
  · cases hprinter
  · obtain ⟨hname, hcomponents⟩ := hsome entry hentry
    rcases hbelow hname with hbelow | ⟨-, hnone, -⟩
    · exact hbelow
    · exact absurd hnone hcomponents

/-- The name `.` is accepted, and is the base itself. -/
theorem dot_is_base : let files : List FileEntry := [⟨".".toList, 0, 0⟩, ⟨"a".toList, 0, 0⟩]
    ∃ j j', (DiskJob.new 1 .generic "/d".toList 0 oneDirectory).setFiles files = .ok j ∧
      exec jobStep j [.modifyTime] = some j' ∧ ∃ p ∈ j'.accesses, ¬StrictlyBelow "/d".toList p := by
  intro files
  have hlinks : DiskJob.validateAllNoLinks oneDirectory "/d".toList files = .ok () := by
    decide +kernel
  have hnames : validateTransferFileNames files = .ok () := by decide +kernel
  have haccepted := DiskJob.setFiles_of_checks
    (j := DiskJob.new 1 .generic "/d".toList 0 oneDirectory) hnames hlinks
  have hused :
    (exec jobStep { DiskJob.new 1 .generic "/d".toList 0 oneDirectory with files := files }
      [.modifyTime]).any (fun j => decide ("/d/.".toList ∈ j.accesses)) = true := by decide +kernel
  obtain ⟨j', hrun, hmem⟩ := (Option.any_eq_true _ _).mp hused
  refine ⟨_, j', haccepted, hrun, "/d/.".toList, of_decide_eq_true hmem, ?_⟩
  rintro ⟨-, rest, hrest, -, heq⟩
  have hself : PathName.components "/d/.".toList = PathName.components "/d".toList := by
    decide +kernel
  rw [hself] at heq
  exact hrest (List.append_right_eq_self.mp heq.symm)

/-! ## Links below the base -/

/-- A location strictly below another. -/
def below (b l : Location) : Bool := b <+: l ∧ l ≠ b

/-- The file was not reached through a link below the base. -/
def Reached.clean (b : Location) (r : Reached) : Bool := r.via.all fun l => !below b l

/-- Where the base is, by its names. -/
def baseAt (d : BgDesk.Disk) (base : PathName) : Location := lexical (d.start base) base.segments

/-- The base is not reached through a link, and is there as far as it leads up. -/
structure BaseUnlinked (d : BgDesk.Disk) (base : PathName) : Prop where
  plain : Plain d.root (d.start base) base.segments
  sane : Sane d.root (d.start base) base.segments

section Checked

variable {d : BgDesk.Disk} {base name : PathName}

theorem start_join (d : BgDesk.Disk) (base : PathName) (h : name.head? ≠ some '/') :
    d.start (base.join name) = d.start base := by
  rw [Disk.start, Disk.start, PathName.isAbsolute_join base h]

/-- The last character of a path that a part is joined to. -/
theorem steps_of_getLast {p : PathName} (h : p.getLast? ≠ some '/') : p.steps = p.segments := by
  rw [PathName.steps, if_neg h, List.append_nil]

theorem getLast?_join {seg : PathName} (hne : seg ≠ []) (hroot : seg.head? ≠ some '/')
    (base : PathName) : (base.join seg).getLast? = seg.getLast? := by
  obtain ⟨dir, hdir⟩ := base.exists_join
  rw [hdir seg hroot, List.getLast?_append_of_ne_nil _ hne]

/-- **What the walk over the names has checked**: none of them is a link. -/
theorem walkNames_plain :
    ∀ {segs : List PathName} {current : PathName}, (∀ s ∈ segs, s ≠ [] ∧ '/' ∉ s ∧ s ≠ ['.']) →
    Plain d.root (d.start current) current.segments →
      Sane d.root (d.start current) current.segments →
    walkNames d current segs = .ok () → Plain d.root (d.start current)
      (current.segments ++ segs) := by
  intro segs
  induction segs with
  | nil =>
    intro current _ hplain _ _
    rwa [List.append_nil]
  | cons seg segs ih =>
    intro current hsegs hplain hsane h
    obtain ⟨⟨hne, hslash, hdot⟩, hrest⟩ := List.forall_mem_cons.mp hsegs
    rw [walkNames] at h
    split at h
    · cases h
    · rename_i hup
      have hroot : seg.head? ≠ some '/' := fun hhead => hslash (List.mem_of_mem_head? hhead)
      have hsegments : (current.join seg).segments = current.segments ++ [seg] := by
        rw [PathName.segments_join current hroot, PathName.segments_single hslash, if_neg hne]
      have hsteps : (current.join seg).steps = current.segments ++ [seg] := by
        rw [steps_of_getLast, hsegments]
        rw [getLast?_join hne hroot]
        exact fun hlast => hslash (List.mem_of_getLast? hlast)
      have hstart : d.start (current.join seg) = d.start current := start_join d current hroot
      rw [← hstart] at hplain hsane ⊢
      -- the part is there and not a link, or nothing is there
      have hchecked :
        (∀ t, d.root.get (lexical (d.start (current.join seg)) current.segments ++ [seg]) = some t →
          t.isLink = false) ∧
          walkNames d (current.join seg) segs = .ok () := by
        rw [Disk.symlinkMetadata] at h
        rcases place_plain hsteps hdot hup hplain with
          ⟨entries, hdir, hplace⟩ | ⟨hplace, hnone⟩ | ⟨hplace, -⟩ | ⟨e, hwalk, hplace⟩
        · rw [hplace] at h
          cases hnode :
            d.root.get (lexical (d.start (current.join seg)) current.segments ++ [seg]) with
          | none =>
            rw [hnode] at h
            exact ⟨by rintro _ ⟨⟩, h⟩
          | some t =>
            rw [hnode] at h
            dsimp only at h
            split at h
            · cases h
            · rename_i hlink
              refine ⟨fun t' ht' => ?_, h⟩
              obtain rfl := Option.some.inj ht'
              exact Bool.eq_false_iff.mpr hlink
        · rw [hplace] at h
          refine ⟨fun t ht => ?_, h⟩
          rw [Tree.get_append, hnone] at ht
          cases ht
        · rw [hplace] at h
          cases h
        · rw [hplace] at h
          cases e with
          | notFound =>
            refine ⟨fun t ht => ?_, h⟩
            rw [hsane.get_of_notFound hplain hwalk [seg]] at ht
            cases ht
          | _ => cases h
      have hplain' : Plain d.root (d.start (current.join seg)) (current.join seg).segments := by
        rw [hsegments]
        refine plain_append.mpr ⟨hplain, ?_⟩
        rw [Plain, if_neg hdot, if_neg hup]
        exact ⟨hchecked.1, trivial⟩
      have hsane' : Sane d.root (d.start (current.join seg)) (current.join seg).segments := by
        rw [hsegments]
        exact hsane.append (by simpa using Ne.symm hup)
      have hfinal := ih hrest hplain' hsane' hchecked.2
      rwa [hsegments, List.append_assoc] at hfinal

/-- No part of a name that was checked is a link. -/
theorem joinChecked_plain {path : PathName} (hbase : BaseUnlinked d base) (hne : name ≠ [])
    (h : joinChecked d base name = .ok path) : validateFileNameNoTraversal name = .ok () ∧
      Plain d.root (d.start base) (base.segments ++ name.segments) := by
  rw [joinChecked] at h
  cases hname : validateFileNameNoTraversal name with
  | error err =>
    rw [hname] at h
    cases h
  | ok u =>
    rw [hname] at h
    refine ⟨rfl, ?_⟩
    cases hlinks : validateNoLinks d base name with
    | error err =>
      rw [hlinks] at h
      cases h
    | ok u =>
      rw [validateNoLinks, if_neg hne] at hlinks
      split at hlinks
      · cases hlinks
      · have hsegs : ∀ s ∈ name.components, s ≠ [] ∧ '/' ∉ s ∧ s ≠ ['.'] := by
          intro s hs
          obtain ⟨hs, hdot⟩ := List.mem_filter.mp hs
          obtain ⟨hsne, hslash⟩ := PathName.mem_segments hs
          exact ⟨hsne, hslash, by simpa using hdot⟩
        obtain ⟨hplain, hcomponents⟩ :=
          plain_append.mp (walkNames_plain hsegs hbase.plain hbase.sane hlinks)
        exact plain_append.mpr ⟨hplain, plain_filter.mp hcomponents⟩

/-- The file beside a checked name: only its last name may be a link. -/
theorem companion_steps {d' : BgDesk.Disk} {suffix : PathName} (hne : name ≠ [])
    (hvalid : validateFileNameNoTraversal name = .ok ()) (hcwd : d'.cwd = d.cwd)
    (hplain : Plain d'.root (d.start base) (base.segments ++ name.segments)) (hslash : '/' ∉ suffix)
    (hlong : 2 < suffix.length) :
    ∃ names last, (join base name ++ suffix).steps = names ++ [last] ∧ last ≠ ['.'] ∧
      last ≠ ['.', '.'] ∧
      d'.start (join base name ++ suffix) = d.start base ∧ Plain d'.root (d.start base) names ∧
      below (baseAt d base) (lexical (d.start base) names ++ [last]) = true := by
  obtain ⟨hup, hroot⟩ := validateFileNameNoTraversal_ok hvalid
  have hsuffix : suffix ≠ [] := by
    rintro rfl
    simp at hlong
  have hroot' : (name ++ suffix).head? ≠ some '/' := by
    cases name with
    | nil => exact absurd rfl hne
    | cons c name => simpa using hroot
  have hjoin : join base name ++ suffix = base.join (name ++ suffix) := by
    rw [join, if_neg hne]
    exact ((base.join_eq_append_iff hroot' hroot).mpr rfl).symm
  obtain ⟨init, last, -, hsegments, happend⟩ := name.exists_last
  have hlast : ∀ s : PathName, s.length ≤ 2 → last ++ suffix ≠ s := by
    rintro s hs rfl
    rw [List.length_append] at hs
    omega
  have hinit : ['.', '.'] ∉ init := fun hmem =>
    hup (by rw [hsegments]; exact List.mem_append_left _ hmem)
  refine ⟨base.segments ++ init, last ++ suffix, ?_, hlast _ (by decide), hlast _ (by decide),
    ?_, ?_, ?_⟩
  · rw [steps_of_getLast, hjoin, PathName.segments_join base hroot', happend suffix hslash hsuffix,
      List.append_assoc]
    rw [List.getLast?_append_of_ne_nil _ hsuffix]
    exact fun hend => hslash (List.mem_of_getLast? hend)
  · rw [hjoin, start_join d' base hroot', Disk.start, Disk.start, hcwd]
  · rw [hsegments, ← List.append_assoc] at hplain
    exact (plain_append.mp hplain).1
  · rw [lexical_append, lexical_eq hinit, baseAt, below, decide_eq_true_eq, List.append_assoc]
    refine ⟨List.prefix_append .., fun heq => ?_⟩
    have := congrArg List.length heq
    simp at this

/-- A file beside a checked name is reached through a link below the base exactly if it is one. -/
theorem clean_iff {d' : BgDesk.Disk} {suffix : PathName} (hne : name ≠ [])
    (hvalid : validateFileNameNoTraversal name = .ok ()) (hcwd : d'.cwd = d.cwd)
    (hplain : Plain d'.root (d.start base) (base.segments ++ name.segments)) (hslash : '/' ∉ suffix)
    (hlong : 2 < suffix.length) {r : Reached} (h : d'.resolve (join base name ++ suffix) = .ok r) :
    Reached.clean (baseAt d base) r = true ↔ d'.isLink (join base name ++ suffix) = false := by
  obtain ⟨names, last, hsteps, hdot, hup, hstart, hnames, hbelow⟩ :=
    companion_steps hne hvalid hcwd hplain hslash hlong
  rw [← hstart] at hnames hbelow
  rcases resolve_plain hsteps hdot hup hnames h with ⟨hlink, hvia⟩ | ⟨hlink, via, hvia⟩
  · rw [hlink, Reached.clean, hvia]
    simp
  · rw [hlink, Reached.clean, hvia, List.all_cons, hbelow]
    simp

end Checked

/-! ## Exactly when a write goes through a link -/

/-- What is opened at a path, if anything. -/
def Disk.opened (d : BgDesk.Disk) (p : PathName) : List Reached :=
  match d.openFile p true with
  | .error _ => []
  | .ok (r, _) => [r]

namespace DiskJob

/-- The file beside an entry cannot be opened, or is not a link; beside a single entry without a
name, and for a printer, it does not lead through a link below the base. -/
def unlinked (j : DiskJob) (name p : PathName) : Bool :=
  match j.disk.openFile p true with
  | .error _ => true
  | .ok (r, _) =>
    if name = [] ∨ j.jobType = .printer then Reached.clean (baseAt j.disk j.base)
      r else !j.disk.isLink p

/-- The two files of an entry when they are opened: the data file, and the digest file after it. -/
def entryUnlinked (j : DiskJob) (name path : PathName) : Bool :=
  match (j.createParent path).removeDigest path with
  | (_, false) => true
  | (j, true) =>
    j.unlinked name (downloadPath path) &&
      match j.createFile (downloadPath path) with
      | (_, none) => true
      | (j, some _) => j.unlinked name (digestPath path)

/-- The same, for the part of `write` that goes to another file. -/
def blockUnlinked (j : DiskJob) (fileNum : ℕ) (entry : FileEntry) : Bool :=
  match j.jobType, joinChecked j.modifyTime.disk j.base entry.name with
  | .generic, .ok path =>
    DiskJob.entryUnlinked { j.modifyTime with fileNum := fileNum } entry.name path
  | _, _ => true

/-- The files that a call opens for writing are not links below the base. -/
def opensPlainly (j : DiskJob) : JobCall → Bool
  | .write id fileNum _ =>
    if id ≠ j.id then true
    else
      match j.files[fileNum]? with
      | none => true
      | some entry =>
        if fileNum ≠ j.fileNum ∨ j.dataStream = none then j.blockUnlinked fileNum entry else true
  | .setStreamOffset fileNum _ _ =>
    match j.files[fileNum]? with
    | none => true
    | some entry =>
      match j.resolveEntryPath entry.name with
      | none => true
      | some path =>
        if j.disk.pathExists (downloadPath path) && j.disk.pathExists (digestPath path) then
          j.unlinked entry.name (downloadPath path)
        else true
  | _ => true

end DiskJob

section Links

variable {b : Location} {j : DiskJob} {name : PathName}

variable {d d' : BgDesk.Disk} {p : PathName} {truncate : Bool} {j' : DiskJob}

theorem openFile_resolve {r : Reached} (h : d.openFile p truncate = .ok (r, d')) :
    d.resolve p = .ok r := by
  rw [Disk.openFile] at h
  split at h
  · cases h
  · rename_i hresolve
    rw [hresolve]
    split at h
    · cases h
    · exact congrArg _ (Prod.mk.inj (Except.ok.inj h)).1
    · exact congrArg _ (Prod.mk.inj (Except.ok.inj h)).1

theorem baseAt_congr (hcwd : d'.cwd = d.cwd) (base : PathName) :
    baseAt d' base = baseAt d base := by
  rw [baseAt, baseAt, Disk.start, Disk.start, hcwd]

/-- The names of an entry have been checked, on the disk as it is. -/
def NameChecked (j : DiskJob) (name : PathName) : Prop :=
  name ≠ [] → j.jobType = .generic → validateFileNameNoTraversal name = .ok () ∧
    Plain j.disk.root (j.disk.start j.base) (j.base.segments ++ name.segments)

theorem NameChecked.later (h : NameChecked j name) (hlinks : NoNewLinks j.disk j'.disk)
    (hbase : j'.base = j.base) (htype : j'.jobType = j.jobType) : NameChecked j' name := by
  intro hne hgeneric
  obtain ⟨hvalid, hplain⟩ := h hne (htype ▸ hgeneric)
  refine ⟨hvalid, ?_⟩
  rw [hbase, Disk.start, hlinks.cwd]
  exact hlinks.plain hplain

/-- What is opened beside a checked name. -/
theorem opened_clean_iff (hb : baseAt j.disk j.base = b) (h : NameChecked j name)
    {suffix : PathName} (hslash : '/' ∉ suffix) (hlong : 2 < suffix.length) :
    (∀ r ∈ Disk.opened j.disk (join j.base name ++ suffix), Reached.clean b r = true) ↔
      j.unlinked name (join j.base name ++ suffix) = true := by
  rw [Disk.opened, DiskJob.unlinked, hb]
  cases hopen : j.disk.openFile (join j.base name ++ suffix) true with
  | error e => simp
  | ok opened =>
    obtain ⟨r, d'⟩ := opened
    dsimp only
    rw [List.forall_mem_singleton]
    split
    · exact Iff.rfl
    · rename_i hchecked
      rw [not_or] at hchecked
      have hgeneric : j.jobType = .generic := by
        cases htype : j.jobType with
        | generic => rfl
        | printer => exact absurd htype hchecked.2
      obtain ⟨hvalid, hplain⟩ := h hchecked.1 hgeneric
      rw [← hb, Bool.not_eq_true']
      exact clean_iff hchecked.1 hvalid rfl hplain hslash hlong (openFile_resolve hopen)

theorem createFile_spec (j : DiskJob) (p : PathName) :
    (j.createFile p).1.written = j.written ++ Disk.opened j.disk p ∧
      (j.createFile p).2 = (Disk.opened j.disk p).head? ∧
      NoNewLinks j.disk (j.createFile p).1.disk ∧ (j.createFile p).1.base = j.base ∧
        (j.createFile p).1.jobType = j.jobType := by
  rw [DiskJob.createFile, Disk.opened]
  cases hopen : j.disk.openFile p true with
  | error e => exact ⟨(List.append_nil _).symm, rfl, .refl _, rfl, rfl⟩
  | ok opened => exact ⟨rfl, rfl, .openFile hopen, rfl, rfl⟩

theorem writeFile_written (j : DiskJob) (p : PathName) (data : Bytes) :
    (j.writeFile p data).written = j.written ++ Disk.opened j.disk p := by
  obtain ⟨hwritten, -, -⟩ := createFile_spec j p
  rw [DiskJob.writeFile]
  split
  · rename_i heq
    rw [heq] at hwritten
    exact hwritten
  · rename_i heq
    rw [heq] at hwritten
    exact hwritten

theorem removeDigest_spec (j : DiskJob) (path : PathName) :
    (j.removeDigest path).1.written = j.written ∧ NoNewLinks j.disk (j.removeDigest path).1.disk ∧
      (j.removeDigest path).1.base = j.base ∧ (j.removeDigest path).1.jobType = j.jobType := by
  rw [DiskJob.removeDigest]
  split
  · split
    · exact ⟨rfl, .refl _, rfl, rfl⟩
    · rename_i hremove
      exact ⟨rfl, .removeFile hremove, rfl, rfl⟩
  · exact ⟨rfl, .refl _, rfl, rfl⟩

/-- **The two files of an entry**: what is opened for them is clean exactly if neither is a link. -/
theorem openEntry_clean_iff (hb : baseAt j.disk j.base = b) (h : NameChecked j name) :
    ∃ opened, (j.openEntry (join j.base name)).1.written = j.written ++ opened ∧
      ((∀ r ∈ opened, Reached.clean b r = true) ↔
        j.entryUnlinked name (join j.base name) = true) := by
  obtain ⟨hwritten, hlinks, hbase, htype⟩ :=
    removeDigest_spec (j.createParent (join j.base name)) (join j.base name)
  have hparent : NoNewLinks j.disk (j.createParent (join j.base name)).disk := .createDirAll ..
  have hlinks := hparent.trans hlinks
  rw [DiskJob.openEntry, DiskJob.entryUnlinked]
  generalize hremoved : (j.createParent (join j.base name)).removeDigest (join j.base name) =
    removed at *
  obtain ⟨j₁, ok⟩ := removed
  have hb₁ : baseAt j₁.disk j₁.base = b := by
    rw [hbase, baseAt_congr hlinks.cwd]
    exact hb
  have h₁ : NameChecked j₁ name := h.later hlinks hbase htype
  have hwritten₁ : j₁.written = j.written := hwritten
  cases ok with
  | false => exact ⟨[], by rw [List.append_nil]; exact hwritten, by simp⟩
  | true =>
    dsimp only
    have hdata :=
      opened_clean_iff hb₁ h₁ slash_notMem_download (show 2 < ".download".toList.length by decide)
    obtain ⟨hwritten₂, hhead, hlinks₂, hbase₂, htype₂⟩ :=
      createFile_spec j₁ (downloadPath (join j.base name))
    have hbase₁ : j₁.base = j.base := hbase
    have hpath : join j₁.base name = join j.base name := by rw [hbase₁]
    rw [hpath] at hdata
    generalize hcreated : j₁.createFile (downloadPath (join j.base name)) = created at *
    obtain ⟨j₂, file⟩ := created
    cases file with
    | none =>
      refine ⟨Disk.opened j₁.disk (downloadPath (join j.base name)), ?_, ?_⟩
      · rw [← hwritten₁]
        exact hwritten₂
      · rw [Bool.and_true]
        exact hdata
    | some r =>
      have hb₂ : baseAt j₂.disk j₂.base = b := by
        rw [hbase₂, baseAt_congr hlinks₂.cwd]
        exact hb₁
      have h₂ : NameChecked j₂ name := h₁.later hlinks₂ hbase₂ htype₂
      have hdigest :=
        opened_clean_iff hb₂ h₂ slash_notMem_digest (show 2 < ".digest".toList.length by decide)
      have hpath₂ : join j₂.base name = join j.base name := by rw [hbase₂, hbase₁]
      rw [hpath₂] at hdigest
      refine ⟨Disk.opened j₁.disk (downloadPath (join j.base name)) ++
        Disk.opened j₂.disk (digestPath (join j.base name)), ?_, ?_⟩
      · dsimp only
        rw [writeFile_written, ← List.append_assoc, ← hwritten₁]
        exact congrArg (· ++ _) hwritten₂
      · rw [List.forall_mem_append, Bool.and_eq_true]
        exact and_congr hdata hdigest

theorem removeFile_cwd (j : DiskJob) (p : PathName) : (j.removeFile p).disk.cwd = j.disk.cwd := by
  rw [DiskJob.removeFile]
  cases hremove : j.disk.removeFile p with
  | error e => rfl
  | ok d => exact (NoNewLinks.removeFile hremove).cwd

theorem modifyTime_spec (j : DiskJob) :
    j.modifyTime.written = j.written ∧ j.modifyTime.disk.cwd = j.disk.cwd := by
  rw [DiskJob.modifyTime]
  split
  · rename_i path _ _
    refine ⟨rfl, ?_⟩
    rw [← removeFile_cwd j (digestPath path)]
    generalize j.removeFile (digestPath path) = j₁
    change (j₁.rename (downloadPath path) path).disk.cwd = j₁.disk.cwd
    rw [DiskJob.rename]
    cases hrename : j₁.disk.rename (downloadPath path) path with
    | error e => rfl
    | ok d => exact rename_cwd hrename
  · exact ⟨rfl, rfl⟩

/-- A call adds to what is open for writing, and moves no working directory. -/
structure Opens (b : Location) (j j' : DiskJob) (plainly : Bool) : Prop where
  opened : ∃ opened, j'.written = j.written ++ opened ∧
    ((∀ r ∈ opened, Reached.clean b r = true) ↔ plainly = true)
  cwd : j'.disk.cwd = j.disk.cwd

theorem Opens.nothing (hwritten : j'.written = j.written) (hcwd : j'.disk.cwd = j.disk.cwd) :
    Opens b j j' true :=
  ⟨⟨[], by rw [hwritten, List.append_nil], by simp⟩, hcwd⟩

theorem removeDownloadFile_opens (j : DiskJob) : Opens b j j.removeDownloadFile true := by
  rw [DiskJob.removeDownloadFile]
  split
  · exact .nothing rfl ((removeFile_cwd ..).trans (removeFile_cwd ..))
  · exact .nothing rfl rfl

theorem writeData_spec (j : DiskJob) (data : Bytes) :
    (j.writeData data).1.written = j.written ∧ (j.writeData data).1.disk.cwd = j.disk.cwd := by
  rw [DiskJob.writeData]
  split
  · exact ⟨rfl, rfl⟩
  · split
    · exact ⟨rfl, (NoNewLinks.writeAt ..).cwd⟩
    · exact ⟨rfl, rfl⟩

/-- The base of a printer is not reached through a link. -/
theorem base_clean {base : PathName} (hbase : BaseUnlinked d base) :
    ∀ r ∈ Disk.opened d base, Reached.clean b r = true := by
  intro r hr
  rw [Disk.opened] at hr
  split at hr
  · cases hr
  · rename_i hopen
    rw [List.mem_singleton.mp hr]
    have hresolve := openFile_resolve hopen
    rw [Disk.resolve] at hresolve
    split at hresolve
    · cases hresolve
    · have hplain : Plain d.root (d.start base) base.steps := by
        refine plain_append.mpr ⟨hbase.plain, ?_⟩
        split
        · exact plain_filter.mp trivial
        · trivial
      have hwalk := walk_plain maxSymlinks hplain []
      rw [List.append_nil, hresolve] at hwalk
      rcases hwalk with ⟨hok, -⟩ | ⟨e, herror, -⟩
      · obtain rfl := Except.ok.inj hok
        rfl
      · cases herror

theorem openEntry_cwd (j : DiskJob) (path : PathName) :
    (j.openEntry path).1.disk.cwd = j.disk.cwd := by
  have hparent : (j.createParent path).disk.cwd = j.disk.cwd := (NoNewLinks.createDirAll ..).cwd
  have hremoved := (removeDigest_spec (j.createParent path) path).2.1.cwd
  rw [hparent] at hremoved
  rw [DiskJob.openEntry]
  split
  · rename_i heq
    rw [heq] at hremoved
    exact hremoved
  · rename_i j₁ heq
    rw [heq] at hremoved
    have hcreated := (createFile_spec j₁ (downloadPath path)).2.2.1.cwd
    rw [hremoved] at hcreated
    split
    · rename_i heq
      rw [heq] at hcreated
      exact hcreated
    · rename_i j₂ r heq
      rw [heq] at hcreated
      dsimp only
      rw [← hcreated, DiskJob.writeFile]
      have hwritten :=
        (createFile_spec { j₂ with dataStream := some ⟨r, 0, true⟩ } (digestPath path)).2.2.1.cwd
      split
      · rename_i heq
        rw [heq] at hwritten
        exact hwritten
      · rename_i heq
        rw [heq] at hwritten
        exact (NoNewLinks.writeAt ..).cwd.trans hwritten

theorem nameChecked_of_joinChecked {path : PathName} (hbase : BaseUnlinked j.disk j.base)
    (h : joinChecked j.disk j.base name = .ok path) : NameChecked j name :=
  fun hne _ => joinChecked_plain hbase hne h

/-- The part of `write` that goes to another file. -/
theorem openBlockFile_opens (hb : baseAt j.disk j.base = b)
    (hbase : BaseUnlinked j.modifyTime.disk j.base) (fileNum : ℕ) (entry : FileEntry) :
    Opens b j (j.openBlockFile fileNum entry).1 (j.blockUnlinked fileNum entry) := by
  obtain ⟨hwritten, hcwd⟩ := modifyTime_spec j
  have huses := DiskJob.modifyTime_uses (j := j)
  have hmodified : ∃ j₁, j₁ = { j.modifyTime with fileNum := fileNum } ∧ j₁.written = j.written ∧
    j₁.disk = j.modifyTime.disk ∧
      j₁.base = j.base ∧ j₁.jobType = j.jobType :=
        ⟨_, rfl, hwritten, rfl, huses.base, huses.jobType⟩
  obtain ⟨j₁, hj₁, hwritten₁, hdisk₁, hbase₁, htype₁⟩ := hmodified
  rw [DiskJob.openBlockFile, DiskJob.blockUnlinked, ← hj₁]
  have hb₁ : baseAt j₁.disk j₁.base = b := by rw [hdisk₁, hbase₁, baseAt_congr hcwd, hb]
  rw [← hdisk₁, ← hbase₁] at hbase
  rw [← hdisk₁, ← hbase₁, ← htype₁]
  have hcwd₁ : j₁.disk.cwd = j.disk.cwd := by rw [hdisk₁, hcwd]
  cases htype : j₁.jobType with
  | printer =>
    dsimp only
    obtain ⟨hcreated, -, hlinks, -, -⟩ := createFile_spec j₁ j₁.base
    have hopened : Opens b j (j₁.createFile j₁.base).1 true :=
      ⟨⟨_, by rw [hcreated, hwritten₁], by simpa using base_clean hbase⟩, hlinks.cwd.trans hcwd₁⟩
    split
    · rename_i heq
      rw [heq] at hopened
      exact hopened
    · rename_i heq
      rw [heq] at hopened
      exact ⟨hopened.opened, hopened.cwd⟩
  | generic =>
    dsimp only
    cases hpath : joinChecked j₁.disk j₁.base entry.name with
    | error err => exact .nothing hwritten₁ hcwd₁
    | ok path =>
      have hchecked : NameChecked j₁ entry.name := nameChecked_of_joinChecked hbase hpath
      rw [DiskJob.joinChecked_eq hpath]
      obtain ⟨opened, hopened, hclean⟩ := openEntry_clean_iff hb₁ hchecked
      exact ⟨⟨opened, by rw [hopened, hwritten₁], hclean⟩, (openEntry_cwd ..).trans hcwd₁⟩

theorem write_opens (hb : baseAt j.disk j.base = b) (hbase : BaseUnlinked j.modifyTime.disk j.base)
    (id : ℤ) (fileNum : ℕ) (data : Bytes) :
    Opens b j (j.write id fileNum data).1 (j.opensPlainly (.write id fileNum data)) := by
  rw [DiskJob.write, DiskJob.opensPlainly]
  obtain ⟨hwritten, hcwd⟩ := writeData_spec j data
  split
  · exact .nothing rfl rfl
  · split
    · exact .nothing rfl rfl
    · rename_i entry hentry
      split
      · have hopens := openBlockFile_opens hb hbase fileNum entry
        split
        · rename_i j₁ heq
          rw [heq] at hopens
          obtain ⟨hwritten₁, hcwd₁⟩ := writeData_spec j₁ data
          obtain ⟨opened, hopened, hclean⟩ := hopens.opened
          exact ⟨⟨opened, by rw [hwritten₁, hopened], hclean⟩, hcwd₁.trans hopens.cwd⟩
        · rename_i heq
          rw [heq] at hopens
          exact hopens
      · exact .nothing hwritten hcwd

/-- Whether a file is truncated does not change which file it is. -/
theorem opened_of_openFile {r : Reached} (h : d.openFile p truncate = .ok (r, d')) :
    Disk.opened d p = [r] := by
  rw [Disk.openFile] at h
  rw [Disk.opened, Disk.openFile]
  split at h
  · cases h
  · split at h
    · cases h
    · obtain ⟨rfl, -⟩ := Prod.mk.inj (Except.ok.inj h)
      rfl
    · obtain ⟨rfl, -⟩ := Prod.mk.inj (Except.ok.inj h)
      rfl

theorem opened_of_error {e : Errno} (h : d.openFile p truncate = .error e) :
    Disk.opened d p = [] := by
  rw [Disk.opened]
  split
  · rfl
  · rename_i r d' hopen
    rw [Disk.openFile] at h hopen
    split at h
    · rename_i hresolve
      rw [hresolve] at hopen
      cases hopen
    · rename_i hresolve
      rw [hresolve] at hopen
      dsimp only at hopen
      split at h
      · rename_i hdir
        rw [hdir] at hopen
        cases hopen
      · cases h
      · cases h

theorem setStreamOffset_opens (hb : baseAt j.disk j.base = b) (hbase : BaseUnlinked j.disk j.base)
    (fileNum offset : ℕ) (canSeek : Bool) : Opens b j (j.setStreamOffset fileNum offset canSeek)
      (j.opensPlainly (.setStreamOffset fileNum offset canSeek)) := by
  rw [DiskJob.setStreamOffset, DiskJob.opensPlainly]
  cases hentry : j.files[fileNum]? with
  | none => exact .nothing rfl rfl
  | some entry =>
    dsimp only [Option.bind_some]
    cases hpath : j.resolveEntryPath entry.name with
    | none => exact .nothing rfl rfl
    | some path =>
      have hchecked : NameChecked j entry.name := by
        intro hne hgeneric
        rw [DiskJob.resolveEntryPath, hgeneric] at hpath
        cases hjoin : joinChecked j.disk j.base entry.name with
        | error err =>
          rw [hjoin] at hpath
          cases hpath
        | ok path => exact joinChecked_plain hbase hne hjoin
      obtain rfl := DiskJob.resolveEntryPath_eq hpath
      dsimp only
      split
      · have hclean := opened_clean_iff hb hchecked slash_notMem_download
          (show 2 < ".download".toList.length by decide)
        split
        · rename_i herror
          refine ⟨⟨[], (List.append_nil _).symm, ?_⟩, rfl⟩
          rw [← opened_of_error herror]
          exact hclean
        · rename_i r d' hopen
          refine ⟨⟨[r], rfl, ?_⟩, (NoNewLinks.openFile hopen).cwd⟩
          rw [← opened_of_openFile hopen]
          exact hclean
      · split
        · split
          · exact .nothing rfl rfl
          · exact .nothing rfl rfl
        · exact .nothing rfl rfl

/-- One call. -/
theorem jobStep_opens {call : JobCall} (hb : baseAt j.disk j.base = b)
    (hbase : BaseUnlinked j.disk j.base ∧ BaseUnlinked j.modifyTime.disk j.base)
    (h : jobStep j call = some j') : Opens b j j' (j.opensPlainly call) := by
  cases call with
  | write id fileNum data =>
    obtain rfl := Option.some.inj h
    exact write_opens hb hbase.2 id fileNum data
  | modifyTime =>
    obtain rfl := Option.some.inj h
    exact .nothing (modifyTime_spec j).1 (modifyTime_spec j).2
  | removeDownloadFile =>
    obtain rfl := Option.some.inj h
    exact removeDownloadFile_opens j
  | setStreamOffset fileNum offset canSeek =>
    obtain rfl := Option.some.inj h
    exact setStreamOffset_opens hb hbase.1 fileNum offset canSeek
  | setDigest digest =>
    obtain rfl := Option.some.inj h
    exact .nothing rfl rfl
  | others root =>
    obtain rfl := Option.some.inj h
    exact .nothing rfl rfl

end Links

/-- **Writes go through no link below the base, exactly if no file they open beside an entry is
one**: in every run in which the base itself is not reached through a link, whatever others do to
the tree between the calls. -/
theorem writes_through_links {j j' : DiskJob} {calls : List JobCall} (hnew : j.written = [])
    (hbase : Along jobStep (fun j _ => BaseUnlinked j.disk j.base ∧
    BaseUnlinked j.modifyTime.disk j.base) j calls) (hrun : exec jobStep j calls = some j') :
    (∀ r ∈ j'.written, Reached.clean (baseAt j.disk j.base) r = true) ↔
      Along jobStep (fun j call => j.opensPlainly call = true) j calls := by
  have hgeneral : ∀ (calls : List JobCall) (j₁ : DiskJob),
    baseAt j₁.disk j₁.base = baseAt j.disk j.base →
      Along jobStep (fun j _ => BaseUnlinked j.disk j.base ∧ BaseUnlinked j.modifyTime.disk j.base)
        j₁ calls →
      exec jobStep j₁ calls = some j' → ∃ opened, j'.written = j₁.written ++ opened ∧
        ((∀ r ∈ opened, Reached.clean (baseAt j.disk j.base) r = true) ↔
          Along jobStep (fun j call => j.opensPlainly call = true) j₁ calls) := by
    intro calls
    induction calls with
    | nil =>
      intro j₁ _ _ h
      obtain rfl := Option.some.inj h
      exact ⟨[], (List.append_nil _).symm, by simp [Along]⟩
    | cons call calls ih =>
      intro j₁ hb₁ hbase₁ h
      obtain ⟨j₂, hstep, hrest⟩ := exec_cons.mp h
      rw [Along, hstep] at hbase₁
      have hopens := jobStep_opens hb₁ hbase₁.1 hstep
      have hb₂ : baseAt j₂.disk j₂.base = baseAt j.disk j.base := by
        rw [(jobStep_uses hstep).base, baseAt_congr hopens.cwd, hb₁]
      obtain ⟨opened, hopened, hclean⟩ := hopens.opened
      obtain ⟨more, hmore, hcleanMore⟩ := ih j₂ hb₂ hbase₁.2 hrest
      refine ⟨opened ++ more, by rw [hmore, hopened, List.append_assoc], ?_⟩
      rw [List.forall_mem_append, hclean, hcleanMore, Along, hstep]
  obtain ⟨opened, hopened, hclean⟩ := hgeneral calls j rfl hbase hrun
  rw [hopened, hnew, List.nil_append]
  exact hclean

/-- A base that does not lead up, and is not reached through a link. -/
def plainBase (d : BgDesk.Disk) (base : PathName) : Bool :=
  ['.', '.'] ∉ base.segments ∧ isPlain d.root (d.start base) base.segments

theorem baseUnlinked_of_plainBase {d : BgDesk.Disk} {base : PathName}
    (h : plainBase d base = true) : BaseUnlinked d base := by
  rw [plainBase, decide_eq_true_eq] at h
  refine ⟨plain_of_isPlain h.2, [], base.segments, ⟨d.start base, []⟩, rfl, h.1, ?_⟩
  obtain ⟨jump, hjump⟩ := exists_jump d.root maxSymlinks
  rw [hjump]
  rfl

/-- A directory with two files beside an entry `b` that are links out of it, to a file and to
nothing. -/
def linkedDirectory : BgDesk.Disk :=
  ⟨.dir [("outside".toList, .file [1, 2, 3]),
    ("d".toList, .dir [("b.download".toList, .link "/outside".toList),
      ("b.digest".toList, .link "/new".toList)])], []⟩

/-- A job for two entries in a directory. -/
def twoEntries (d : BgDesk.Disk) : DiskJob :=
  { DiskJob.new 1 .generic "/d".toList 0 d with files := [⟨"a".toList, 0, 0⟩, ⟨"b".toList, 0, 0⟩] }

theorem writes_through_links_none :
    ∃ j', exec jobStep (twoEntries oneDirectory) [.write 1 0 [7], .write 1 1 [8], .modifyTime] =
      some j' ∧ j'.written.length = 4 ∧
      ∀ r ∈ j'.written, Reached.clean [("d".toList)] r = true := by
  have hrun :
    (exec jobStep (twoEntries oneDirectory) [.write 1 0 [7], .write 1 1 [8], .modifyTime]).any
      (fun j => decide (j.written.length = 4)) = true := by decide +kernel
  have hplain :
    Along jobStep (fun j _ => (plainBase j.disk j.base && plainBase j.modifyTime.disk j.base) =
      true)
      (twoEntries oneDirectory) [.write 1 0 [7], .write 1 1 [8], .modifyTime] := by decide +kernel
  have hopens : Along jobStep (fun j call => j.opensPlainly call = true) (twoEntries oneDirectory)
      [.write 1 0 [7], .write 1 1 [8], .modifyTime] := by decide +kernel
  obtain ⟨j', hj', hlength⟩ := (Option.any_eq_true _ _).mp hrun
  refine ⟨j', hj', of_decide_eq_true hlength,
    (writes_through_links rfl (along_imp (fun _ _ j h => ?_) hplain) hj').mpr hopens⟩
  rw [Bool.and_eq_true] at h
  exact ⟨baseUnlinked_of_plainBase h.1, baseUnlinked_of_plainBase h.2⟩

/-- The data file of the second entry is a link to a file outside, and its digest file one to where
there is nothing: the names are accepted, and both are written through. -/
theorem companions_followed :
    ∃ j', DiskJob.setFiles (DiskJob.new 1 .generic "/d".toList 0 linkedDirectory)
      [⟨"a".toList, 0, 0⟩, ⟨"b".toList, 0, 0⟩] =
        .ok (twoEntries linkedDirectory) ∧
      Along jobStep (fun j _ => BaseUnlinked j.disk j.base ∧ BaseUnlinked j.modifyTime.disk j.base)
        (twoEntries linkedDirectory) [.write 1 0 [7], .write 1 1 [8]] ∧
      exec jobStep (twoEntries linkedDirectory) [.write 1 0 [7], .write 1 1 [8]] = some j' ∧
      (⟨[("outside".toList)], [[("d".toList), ("b.download".toList)]]⟩ : Reached) ∈ j'.written ∧
      (⟨[("new".toList)], [[("d".toList), ("b.digest".toList)]]⟩ : Reached) ∈ j'.written ∧
      ¬∀ r ∈ j'.written, Reached.clean [("d".toList)] r = true := by
  have hrun : (exec jobStep (twoEntries linkedDirectory) [.write 1 0 [7], .write 1 1 [8]]).any
    (fun j => decide (
      (⟨[("outside".toList)], [[("d".toList), ("b.download".toList)]]⟩ : Reached) ∈ j.written ∧
      (⟨[("new".toList)], [[("d".toList), ("b.digest".toList)]]⟩ : Reached) ∈ j.written ∧
      ¬∀ r ∈ j.written, Reached.clean [("d".toList)] r = true)) = true := by decide +kernel
  have hplain :
    Along jobStep (fun j _ => (plainBase j.disk j.base && plainBase j.modifyTime.disk j.base) =
      true)
      (twoEntries linkedDirectory) [.write 1 0 [7], .write 1 1 [8]] := by decide +kernel
  have hlinks : DiskJob.validateAllNoLinks linkedDirectory "/d".toList
      [⟨"a".toList, 0, 0⟩, ⟨"b".toList, 0, 0⟩] = .ok () := by
    decide +kernel
  have hnames : validateTransferFileNames [⟨"a".toList, 0, 0⟩, ⟨"b".toList, 0, 0⟩] = .ok () := by
    decide +kernel
  obtain ⟨j', hj', hwritten⟩ := (Option.any_eq_true _ _).mp hrun
  refine ⟨j', DiskJob.setFiles_of_checks hnames hlinks, along_imp (fun _ _ j h => ?_) hplain, hj',
    of_decide_eq_true hwritten⟩
  rw [Bool.and_eq_true] at h
  exact ⟨baseUnlinked_of_plainBase h.1, baseUnlinked_of_plainBase h.2⟩

end Fs
end BgDesk
