import BgDesk.FileTransfer

/-!
# Jobs that wait for the peer

The rest of `TransferJob` in `libs/base/src/fs.rs`: with overwrite detection the reader of a
file sends a digest first and waits until the peer says what is to become of the file, and the
two drivers that move a vector of jobs on, one file block at a time:

* `handleReadJobs` — `handle_read_jobs`, over the network;
* `handleReadJobsTick` — `handle_read_jobs_tick` of `src/ui_cm_interface.rs`, in the connection
  manager.

What the disk answers during a call is for `Disk` to say.
-/

namespace BgDesk
namespace Fs

/-! ## Confirmations -/

/-- `file_transfer_send_confirm_request::Union`. -/
inductive ConfirmUnion where
  | skip (s : Bool)
  | offsetBlk (offset : ℕ)
  deriving DecidableEq

/-- `FileTransferSendConfirmRequest`. -/
structure SendConfirm where
  id : ℤ
  fileNum : ℕ
  union : Option ConfirmUnion
  deriving DecidableEq

/-- The file is to be sent. -/
def SendConfirm.accepts (r : SendConfirm) : Bool :=
  match r.union with
  | some (.skip s) => !s
  | some (.offsetBlk _) => true
  | none => false

/-- The file is to be skipped. -/
def SendConfirm.skips (r : SendConfirm) : Bool := r.union = some (.skip true)

namespace TransferJob

/-- The file `set_stream_offset` goes on in: the one that is put together where it and its
digest are there, else the file itself. -/
def offsetFile (fs : FileSys) (path : PathName) : Option PathName :=
  if (fs.files (downloadPath path)).isSome &&
    (fs.files (digestPath path)).isSome then some (downloadPath path)
  else if (fs.files path).isSome then some path
  else none

/-- `set_stream_offset`. `canOpen` is false where the file cannot be opened or has no such
position. -/
def setStreamOffset (job : TransferJob) (fs : FileSys) (canOpen : Bool) (fileNum offset : ℕ) :
    TransferJob :=
  match job.files[fileNum]?, job.dataSource with
  | some entry, .filePath p =>
    match (job.resolveEntryPath fs p entry.name).bind (offsetFile fs) with
    | none => job
    | some path =>
      if canOpen then
        { job with dataStream := some (.fileStream path offset)
                   transferred := job.transferred + offset, finishedSize :=
                     job.finishedSize + offset }
      else job
  | _, _ => job

theorem openDataStream_filePath {job : TransferJob} {p : PathName}
    (hp : job.dataSource = .filePath p) (canOpen : Bool) : job.openDataStream canOpen =
      match job.files[job.fileNum]? with
      | none => ({ job with dataStream := none }, .ok true)
      | some entry =>
        if job.dataStream = none then
          if canOpen then
            ({ job with dataStream := some (.fileStream (join p entry.name) 0)
                        fileConfirmed := false, fileIsWaiting := false }, .ok false)
          else
            ({ job with
              fileNum := job.fileNum + 1, fileConfirmed := false, fileIsWaiting := false },
              .error "open")
        else (job, .ok false) := by
  cases job
  cases hp
  rfl

theorem read_filePath (compress : Bytes → Bytes) {job : TransferJob} {p : PathName}
    (hp : job.dataSource = .filePath p) (fs : FileSys) (want : ℕ → Option ℕ) :
    job.read compress fs want =
      if job.jobType = .generic ∧ job.enableOverwriteDetection ∧
        !job.fileConfirmed then (job, .ok none)
      else
        match job.files[job.fileNum]? with
        | none => ({ job with dataStream := none }, .ok none)
        | some entry => job.readBlock compress fs want (job.readName p entry) true := by
  cases job
  cases hp
  rfl

/-- `set_stream_offset` touches the stream and the counters, if anything. -/
theorem setStreamOffset_cases (job : TransferJob) (fs : FileSys) (canOpen : Bool)
    (fileNum offset : ℕ) : job.setStreamOffset fs canOpen fileNum offset = job ∨
      ∃ path, job.setStreamOffset fs canOpen fileNum offset =
        { job with dataStream := some (.fileStream path offset)
                   transferred := job.transferred + offset, finishedSize :=
                     job.finishedSize + offset } := by
  rw [setStreamOffset]
  split
  · split
    · exact .inl rfl
    · split
      · exact .inr ⟨_, rfl⟩
      · exact .inl rfl
  · exact .inl rfl

end TransferJob

/-! ## Jobs -/

/-- `TransferJob` with what the drivers and the confirmations use of it besides. -/
structure Job : Type extends TransferJob where
  isLastJob : Bool
  isResume : Bool
  /-- the last file was skipped -/
  fileSkipped : Bool
  defaultOverwriteStrategy : Option Bool
  deriving DecidableEq

/-- What the disk answers to a job during a call: the files, whether a file can be opened, the
modification time and the size of the open file, and how the reads of the stream come out. -/
structure Disk where
  fs : FileSys
  canOpen : Bool
  metadata : Option (ℕ × ℕ)
  want : ℕ → Option ℕ

/-- The messages of a job that reads. -/
inductive Event where
  | digest (id : ℤ) (fileNum lastModified fileSize : ℕ) (isResume : Bool)
  | block (block : Block)
  | error (id : ℤ) (err : String) (fileNum : ℕ)
  | done (id : ℤ) (fileNum : ℕ)
  deriving DecidableEq

namespace Job

/-- A job as the constructors of `TransferJob` leave the other fields. -/
def new (job : TransferJob) : Job := ⟨job, false, false, false, none⟩

/-- `set_file_confirmed`. -/
def setFileConfirmed (job : Job) (fileConfirmed : Bool) : Job :=
  { job with fileConfirmed := fileConfirmed, fileSkipped := false }

/-- `set_file_skipped`. -/
def setFileSkipped (job : Job) : Job :=
  let job := { job with dataStream := none }.setFileConfirmed false
  { job with fileIsWaiting := false, fileNum := job.fileNum + 1, fileSkipped := true }

/-- `confirm`. -/
def confirm (job : Job) (disk : Disk) (r : SendConfirm) : Job :=
  if job.fileNum ≠ r.fileNum then job
  else
    match r.union with
    | some (.skip true) => job.setFileSkipped
    | some (.skip false) => job.setFileConfirmed true
    | some (.offsetBlk offset) =>
      let job := job.setFileConfirmed true
      if 0 < offset then
        { job with toTransferJob := job.setStreamOffset disk.fs disk.canOpen r.fileNum offset }
      else job
    | none => job

/-- `job_skipped`. -/
def jobSkipped (job : Job) : Bool := job.fileSkipped && job.files.length = 1

/-- `job_completed`. -/
def jobCompleted (job : Job) : Bool :=
  !job.enableOverwriteDetection || (!job.fileConfirmed && !job.fileIsWaiting)

/-- `job_error`. -/
def jobError (job : Job) : Option String := if job.jobSkipped then some "skipped" else none

/-- `get_current_digest`. -/
def getCurrentDigest (job : Job) (disk : Disk) : Except String (ℕ × ℕ) :=
  match job.dataStream with
  | none => .error "file is None"
  | some (.bufStream _ _) => .error "No digest for buf stream"
  | some (.fileStream _ _) =>
    match disk.metadata with
    | none => .error "metadata"
    | some digest => .ok digest

/-- Whether the peer has to be asked about the open file. -/
def needsDigest (job : Job) : Bool :=
  job.jobType = .generic && job.enableOverwriteDetection && !job.fileConfirmed && !job.fileIsWaiting

/-- The end of `init_data_stream`: the peer is asked about the open file. -/
def sendDigest (job : Job) (disk : Disk) : Job × List Event × Except String Unit :=
  if job.needsDigest then
    match job.getCurrentDigest disk with
    | .error err => (job, [], .error err)
    | .ok (lastModified, fileSize) =>
      ({ job with fileIsWaiting := true },
        [.digest job.id job.fileNum lastModified fileSize job.isResume], .ok ())
  else (job, [], .ok ())

/-- `init_data_stream`, with the messages it sends. -/
def initDataStream (job : Job) (disk : Disk) : Job × List Event × Except String Unit :=
  match job.openDataStream disk.canOpen with
  | (opened, .error err) => ({ job with toTransferJob := opened }, [], .error err)
  | (opened, .ok true) => ({ job with toTransferJob := opened }, [], .ok ())
  | (opened, .ok false) => { job with toTransferJob := opened }.sendDigest disk

/-- The end of `init_data_stream_for_cm`: the digest is for the caller to send. -/
def digestForCm (job : Job) (disk : Disk) : Job × Except String (Option (ℕ × ℕ)) :=
  if job.needsDigest then
    match job.getCurrentDigest disk with
    | .error err => (job, .error err)
    | .ok digest => ({ job with fileIsWaiting := true }, .ok (some digest))
  else (job, .ok none)

/-- `init_data_stream_for_cm`. -/
def initDataStreamForCm (job : Job) (disk : Disk) : Job × Except String (Option (ℕ × ℕ)) :=
  match job.openDataStream disk.canOpen with
  | (opened, .error err) => ({ job with toTransferJob := opened }, .error err)
  | (opened, .ok true) => ({ job with toTransferJob := opened }, .ok none)
  | (opened, .ok false) => { job with toTransferJob := opened }.digestForCm disk

/-- The body of the loop of `init_jobs`. -/
def init (job : Job) (disk : Disk) : Job × List Event :=
  match job.initDataStream disk with
  | (job, sent, .ok ()) => (job, sent)
  | (job, sent, .error err) => (job, sent ++ [.error job.id err job.fileNum])

section Read

variable (compress : Bytes → Bytes)

/-- The end of a job that has nothing more to read, in both drivers. -/
def complete (job : Job) : List Event × Bool :=
  if job.jobCompleted then
    match job.jobError with
    | some err => ([.error job.id err job.fileNum], true)
    | none => ([.done job.id job.fileNum], true)
  else ([], false)

/-- What `handle_read_jobs` does with the first job of the vector: the messages, and whether
the job is finished. -/
def readOnce (job : Job) (disk : Disk) : Job × List Event × Bool :=
  match job.read compress disk.fs disk.want with
  | (read, .error err) =>
    ({ job with toTransferJob := read }, [.error read.id err read.fileNum], false)
  | (read, .ok (some block)) => ({ job with toTransferJob := read }, [.block block], false)
  | (read, .ok none) =>
    let job := { job with toTransferJob := read }
    (job, job.complete)

/-- `handle_read_jobs` as one job of the vector sees it: `reads` where it is the first. -/
def tick (reads : Bool) (disk : Disk) (job : Job) : Job × List Event × Bool :=
  let opened := job.init disk
  if reads then
    let read := opened.1.readOnce compress disk
    (read.1, opened.2 ++ read.2.1, read.2.2)
  else (opened.1, opened.2, false)

end Read

/-- `init_read_job_for_cm`. -/
def initReadJobForCm (job : Job) (disk : Disk) : Job × List Event × Except String Unit :=
  match job.initDataStreamForCm disk with
  | (job, .error err) => (job, [], .error err)
  | (job, .ok none) => (job, [], .ok ())
  | (job, .ok (some (lastModified, fileSize))) =>
    (job, [.digest job.id job.fileNum lastModified fileSize job.isResume], .ok ())

/-- What `handle_read_jobs_tick` does with a job it could open: here an error finishes the
job. -/
def readOnceForCm (compress : Bytes → Bytes) (job : Job) (disk : Disk) : Job × List Event × Bool :=
  match job.read compress disk.fs disk.want with
  | (read, .error err) =>
    ({ job with toTransferJob := read }, [.error read.id err read.fileNum], true)
  | (read, .ok (some block)) => ({ job with toTransferJob := read }, [.block block], false)
  | (read, .ok none) =>
    let job := { job with toTransferJob := read }
    (job, job.complete)

end Job

/-! ## The drivers -/

/-- What the disk answers to the jobs after the first. -/
def shift (disk : ℕ → Disk) : ℕ → Disk := fun i => disk (i + 1)

/-- `remove_job`. -/
def removeJob (id : ℤ) (jobs : List Job) : List Job := jobs.eraseP fun job => job.id = id

/-- The job `get_job` finds is changed. -/
def withJob (id : ℤ) (f : Job → Job) : List Job → List Job
  | [] => []
  | job :: jobs => if job.id = id then f job :: jobs else job :: withJob id f jobs

/-- `init_jobs`, with the messages it sends. -/
def initJobs (disk : ℕ → Disk) : List Job → List Job × List Event
  | [] => ([], [])
  | job :: jobs =>
    let rest := initJobs (shift disk) jobs
    if job.isLastJob then (job :: rest.1, rest.2)
    else
      let opened := job.init (disk 0)
      (opened.1 :: rest.1, opened.2 ++ rest.2)

section Drive

variable (compress : Bytes → Bytes)

/-- The loop of `handle_read_jobs`: it ends with the first job that is not kept for later. -/
def readJobs (disk : ℕ → Disk) : List Job → List Job × List Event × List ℤ
  | [] => ([], [], [])
  | job :: jobs =>
    if job.isLastJob then
      let rest := readJobs (shift disk) jobs
      (job :: rest.1, rest.2)
    else
      let read := job.readOnce compress (disk 0)
      (read.1 :: jobs, read.2.1, if read.2.2 then [read.1.id] else [])

/-- `handle_read_jobs`: the jobs that remain, and the messages. -/
def handleReadJobs (disk : ℕ → Disk) (jobs : List Job) : List Job × List Event :=
  let opened := initJobs disk jobs
  let read := readJobs compress disk opened.1
  (read.2.2.foldl (fun jobs id => removeJob id jobs) read.1, opened.2 ++ read.2.1)

/-- The loop of `handle_read_jobs_tick`: a job that cannot be opened is finished, and the next
one is tried. -/
def readJobsForCm (disk : ℕ → Disk) : List Job → List Job × List Event × List ℤ
  | [] => ([], [], [])
  | job :: jobs =>
    if job.isLastJob then
      let rest := readJobsForCm (shift disk) jobs
      (job :: rest.1, rest.2)
    else
      match job.initReadJobForCm (disk 0) with
      | (job, sent, .error err) =>
        let rest := readJobsForCm (shift disk) jobs
        (job :: rest.1, sent ++ .error job.id err job.fileNum :: rest.2.1, job.id :: rest.2.2)
      | (job, sent, .ok ()) =>
        let read := job.readOnceForCm compress (disk 0)
        (read.1 :: jobs, sent ++ read.2.1, if read.2.2 then [read.1.id] else [])

/-- `handle_read_jobs_tick`. -/
def handleReadJobsTick (disk : ℕ → Disk) (jobs : List Job) : List Job × List Event :=
  let read := readJobsForCm compress disk jobs
  (read.2.2.foldl (fun jobs id => removeJob id jobs) read.1, read.2.1)

end Drive

/-- `FileAction::SendConfirm` for a job that reads over the network. -/
def sendConfirm (disk : Disk) (r : SendConfirm) (jobs : List Job) : List Job :=
  withJob r.id (fun job => job.confirm disk r) jobs

/-- `FS::SendConfirmForRead`: the number of the file is not looked at. -/
def sendConfirmForRead (disk : Disk) (id : ℤ) (_fileNum : ℕ) (skip : Bool) (offsetBlk : ℕ)
    (jobs : List Job) : List Job :=
  withJob id (fun job => job.confirm disk
    ⟨id, job.fileNum, some (if skip then .skip true else .offsetBlk offsetBlk)⟩) jobs

/-- `skip()` of the request. -/
def SendConfirm.skip (r : SendConfirm) : Bool :=
  match r.union with
  | some (.skip s) => s
  | _ => false

/-- `offset_blk()` of the request. -/
def SendConfirm.offsetBlk (r : SendConfirm) : ℕ :=
  match r.union with
  | some (.offsetBlk offset) => offset
  | _ => 0

/-- `FileAction::SendConfirm` for a job of the connection manager. -/
def forwardConfirm (disk : Disk) (r : SendConfirm) (jobs : List Job) : List Job :=
  sendConfirmForRead disk r.id r.fileNum r.skip r.offsetBlk jobs

/-! ## One job of the vector -/

namespace Job

/-- What the peer is asked. -/
theorem sendDigest_cases (job : Job) (disk : Disk) :
    (job.needsDigest = false ∧ job.sendDigest disk = (job, [], .ok ())) ∨
    (job.needsDigest = true ∧ ∃ err, job.getCurrentDigest disk = .error err ∧
      job.sendDigest disk = (job, [], .error err)) ∨
    (job.needsDigest = true ∧ ∃ lastModified fileSize,
      job.getCurrentDigest disk = .ok (lastModified, fileSize) ∧
      job.sendDigest disk = ({ job with fileIsWaiting := true },
        [.digest job.id job.fileNum lastModified fileSize job.isResume], .ok ())) := by
  rw [sendDigest]
  cases hneeds : job.needsDigest with
  | false => exact .inl ⟨rfl, rfl⟩
  | true =>
    cases hdigest : job.getCurrentDigest disk with
    | error err => exact .inr (.inl ⟨rfl, err, rfl, rfl⟩)
    | ok digest => exact .inr (.inr ⟨rfl, digest.1, digest.2, rfl, rfl⟩)

theorem init_isLastJob (job : Job) (disk : Disk) : (job.init disk).1.isLastJob = job.isLastJob := by
  rw [init, initDataStream]
  obtain ⟨opened, err | _ | _⟩ := job.openDataStream disk.canOpen
  · rfl
  · obtain ⟨-, h⟩ | ⟨-, err, -, h⟩ | ⟨-, lastModified, fileSize, -, h⟩ :=
      sendDigest_cases { job with toTransferJob := opened } disk <;> simp only [h]
  · rfl

/-- The job once the file it is at is open. -/
def opened (job : Job) (p : PathName) (entry : FileEntry) : Job :=
  if job.dataStream = none then
    { job with dataStream := some (.fileStream (join p entry.name) 0)
               fileConfirmed := false, fileIsWaiting := false }
  else job

/-- The job past a file that cannot be opened. -/
def passed (job : Job) : Job :=
  { job with fileNum := job.fileNum + 1, fileConfirmed := false, fileIsWaiting := false }

/-- **What `init_jobs` does to a job that reads files.** -/
inductive Inited (p : PathName) (disk : Disk) (job : Job) : Job × List Event → Prop where
  /-- there are no more files -/
  | ended (hend : job.files.length ≤ job.fileNum) :
    Inited p disk job ({ job with dataStream := none }, [])
  /-- the file cannot be opened -/
  | unopened (hlt : job.fileNum < job.files.length) (hstream : job.dataStream = none)
      (hopen : disk.canOpen = false) :
      Inited p disk job (job.passed, [.error job.id "open" (job.fileNum + 1)])
  /-- the file is open, and the peer need not be asked -/
  | ready (entry : FileEntry) (hentry : job.files[job.fileNum]? = some entry)
      (hopen : job.dataStream = none → disk.canOpen = true)
      (hneeds : (job.opened p entry).needsDigest = false) :
        Inited p disk job (job.opened p entry, [])
  /-- the file is open, and its digest cannot be had -/
  | unasked (entry : FileEntry) (hentry : job.files[job.fileNum]? = some entry)
      (hopen : job.dataStream = none → disk.canOpen = true)
      (hneeds : (job.opened p entry).needsDigest = true) (err : String)
      (hdigest : (job.opened p entry).getCurrentDigest disk = .error err) :
      Inited p disk job (job.opened p entry, [.error job.id err job.fileNum])
  /-- the file is open, and the peer is asked -/
  | asked (entry : FileEntry) (hentry : job.files[job.fileNum]? = some entry)
      (hopen : job.dataStream = none → disk.canOpen = true)
      (hneeds : (job.opened p entry).needsDigest = true) (lastModified fileSize : ℕ)
      (hdigest : (job.opened p entry).getCurrentDigest disk = .ok (lastModified, fileSize)) :
      Inited p disk job ({ job.opened p entry with fileIsWaiting := true },
        [.digest job.id job.fileNum lastModified fileSize job.isResume])

theorem opened_id (job : Job) (p : PathName) (entry : FileEntry) :
    (job.opened p entry).id = job.id := by
  rw [opened]
  split <;> rfl

theorem opened_fileNum (job : Job) (p : PathName) (entry : FileEntry) :
    (job.opened p entry).fileNum = job.fileNum := by
  rw [opened]
  split <;> rfl

theorem opened_isResume (job : Job) (p : PathName) (entry : FileEntry) :
    (job.opened p entry).isResume = job.isResume := by
  rw [opened]
  split <;> rfl

variable {job : Job} {p : PathName}

/-- A file that can be opened is asked about where that is needed. -/
theorem initDataStream_opened (hp : job.dataSource = .filePath p) {disk : Disk} {entry : FileEntry}
    (hentry : job.files[job.fileNum]? = some entry)
    (hopen : job.dataStream = none → disk.canOpen = true) :
    job.initDataStream disk = (job.opened p entry).sendDigest disk := by
  rw [initDataStream, TransferJob.openDataStream_filePath hp, hentry]
  by_cases hstream : job.dataStream = none
  · simp [hstream, hopen hstream, opened]
  · simp [hstream, opened]

theorem init_spec (hp : job.dataSource = .filePath p) (disk : Disk) :
    Inited p disk job (job.init disk) := by
  cases hentry : job.files[job.fileNum]? with
  | none =>
    have hinit : job.init disk = ({ job with dataStream := none }, []) := by
      rw [init, initDataStream, TransferJob.openDataStream_filePath hp, hentry]
    rw [hinit]
    exact .ended (List.getElem?_eq_none_iff.mp hentry)
  | some entry =>
    by_cases hclosed : job.dataStream = none ∧ disk.canOpen = false
    · have hinit : job.init disk = (job.passed, [.error job.id "open" (job.fileNum + 1)]) := by
        rw [init, initDataStream, TransferJob.openDataStream_filePath hp, hentry]
        simp [hclosed.1, hclosed.2, passed]
      rw [hinit]
      exact .unopened (List.getElem?_eq_some_iff.mp hentry).1 hclosed.1 hclosed.2
    have hopen : job.dataStream = none → disk.canOpen = true := by
      intro hstream
      simpa [hstream] using hclosed
    rw [init, initDataStream_opened hp hentry hopen]
    obtain ⟨hneeds, h⟩ | ⟨hneeds, err, hdigest, h⟩ | ⟨hneeds, lastModified, fileSize, hdigest, h⟩ :=
      (job.opened p entry).sendDigest_cases disk
    · rw [h]
      exact .ready entry hentry hopen hneeds
    · rw [h]
      simp only [List.nil_append, opened_id, opened_fileNum]
      exact .unasked entry hentry hopen hneeds err hdigest
    · rw [h]
      have hasked := Inited.asked entry hentry hopen hneeds lastModified fileSize hdigest
      rwa [← job.opened_id p entry, ← job.opened_fileNum p entry,
        ← job.opened_isResume p entry] at hasked

/-- The peer has not said yet what is to become of the file. -/
def unconfirmed (job : Job) : Bool :=
  job.jobType = .generic && job.enableOverwriteDetection && !job.fileConfirmed

/-- **What `handle_read_jobs` does to the first job, where it reads files.** -/
inductive ReadOnce (compress : Bytes → Bytes) (job : Job) : Job × List Event × Bool → Prop where
  | waiting (hwait : job.unconfirmed = true) : ReadOnce compress job (job, job.complete)
  | ended (hwait : job.unconfirmed = false) (hend : job.files.length ≤ job.fileNum) :
      ReadOnce compress job ({ job with dataStream := none }, job.complete)
  | closed (hwait : job.unconfirmed = false) (hlt : job.fileNum < job.files.length)
      (hstream : job.dataStream = none) :
      ReadOnce compress job (job, [.error job.id "data stream is None" job.fileNum], false)
  | failed (hwait : job.unconfirmed = false) (hlt : job.fileNum < job.files.length)
      (hstream : job.dataStream ≠ none) :
      ReadOnce compress job ({ job with toTransferJob := job.nextFile },
        [.error job.id "read" (job.fileNum + 1)], false)
  | fileEnd (hwait : job.unconfirmed = false) (hlt : job.fileNum < job.files.length)
      (hstream : job.dataStream ≠ none) :
      ReadOnce compress job ({ job with toTransferJob := job.nextFile },
        [.block ⟨job.id, job.fileNum, [], false⟩], false)
  | block (hwait : job.unconfirmed = false) (hlt : job.fileNum < job.files.length)
    (stream stream' : DataStream)
      (hstream : job.dataStream = some stream) (finished sent : ℕ) (data : Bytes)
        (compressed : Bool) :
      ReadOnce compress job
        ({ job with dataStream := some stream', finishedSize := finished, transferred := sent },
          [.block ⟨job.id, job.fileNum, data, compressed⟩], false)

theorem readOnce_spec (compress : Bytes → Bytes) (hp : job.dataSource = .filePath p) (disk : Disk) :
    ReadOnce compress job (job.readOnce compress disk) := by
  rw [readOnce, TransferJob.read_filePath compress hp]
  cases hwait : job.unconfirmed with
  | true =>
    rw [if_pos (by simpa [unconfirmed, and_assoc] using hwait)]
    exact .waiting hwait
  | false =>
    rw [if_neg (by simpa [unconfirmed] using hwait)]
    cases hentry : job.files[job.fileNum]? with
    | none => exact .ended hwait (List.getElem?_eq_none_iff.mp hentry)
    | some entry =>
      have hlt := (List.getElem?_eq_some_iff.mp hentry).1
      dsimp only
      rw [TransferJob.readBlock]
      cases hstream : job.dataStream with
      | none => exact .closed hwait hlt hstream
      | some stream =>
        have hne : job.dataStream ≠ none := by simp [hstream]
        dsimp only
        cases hfill :
          TransferJob.fill disk.want ((TransferJob.streamBytes disk.fs stream).1.length + 1)
          TransferJob.bufSize (TransferJob.streamBytes disk.fs stream).1 with
        | none => exact .failed hwait hlt hne
        | some buf =>
          dsimp only
          by_cases hbuf : buf = []
          · rw [if_pos hbuf]
            exact .fileEnd hwait hlt hne
          · rw [if_neg hbuf]
            exact .block hwait hlt stream _ hstream _ _ _ _

end Job

theorem initJobs_append {disk : ℕ → Disk} {kept jobs : List Job}
    (hkept : ∀ job ∈ kept, job.isLastJob) : initJobs disk (kept ++ jobs) =
      (kept ++ (initJobs (fun i => disk (i + kept.length)) jobs).1,
        (initJobs (fun i => disk (i + kept.length)) jobs).2) := by
  induction kept generalizing disk with
  | nil => rfl
  | cons job kept ih =>
    obtain ⟨hjob, hkept⟩ := List.forall_mem_cons.mp hkept
    rw [List.cons_append, initJobs, ih hkept, if_pos hjob]
    rfl

theorem readJobs_append {compress : Bytes → Bytes} {disk : ℕ → Disk} {kept jobs : List Job}
    (hkept : ∀ job ∈ kept, job.isLastJob) : readJobs compress disk (kept ++ jobs) =
      (kept ++ (readJobs compress (fun i => disk (i + kept.length)) jobs).1,
        (readJobs compress (fun i => disk (i + kept.length)) jobs).2) := by
  induction kept generalizing disk with
  | nil => rfl
  | cons job kept ih =>
    obtain ⟨hjob, hkept⟩ := List.forall_mem_cons.mp hkept
    rw [List.cons_append, readJobs, ih hkept, if_pos hjob]
    rfl

/-- **The driver and one job.** `handle_read_jobs` does to the first job that is not kept for
later what `tick` does, and only opens the files of the jobs behind it. -/
theorem handleReadJobs_eq {compress : Bytes → Bytes} {disk : ℕ → Disk} {kept jobs : List Job}
    {job : Job} (hkept : ∀ job ∈ kept, job.isLastJob) (hjob : job.isLastJob = false) :
    let ticked := job.tick compress true (disk kept.length)
    let opened := initJobs (fun i => disk (i + 1 + kept.length)) jobs
    (handleReadJobs compress disk (kept ++ job :: jobs)).1 =
        (if ticked.2.2 then removeJob ticked.1.id (kept ++ ticked.1 :: opened.1)
          else kept ++ ticked.1 :: opened.1) ∧
      ∃ before after, ticked.2.1 = before ++ after ∧
        (handleReadJobs compress disk (kept ++ job :: jobs)).2 = before ++ opened.2 ++ after := by
  have hlast : (job.init (disk kept.length)).1.isLastJob = false := by
    rw [Job.init_isLastJob, hjob]
  rw [handleReadJobs, initJobs_append hkept, initJobs, if_neg (by simp [hjob]),
    readJobs_append hkept, readJobs]
  simp only [Nat.zero_add, hlast, Bool.false_eq_true, if_false, Job.tick, if_true]
  refine ⟨?_, _, _, rfl, rfl⟩
  cases ((job.init (disk kept.length)).1.readOnce compress (disk kept.length)).2.2 <;> rfl

end Fs
end BgDesk
