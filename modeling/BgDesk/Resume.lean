import BgDesk.ReadStream
import BgDesk.WriteJobs

/-!
# Transfers that are resumed

A job that is resumed goes on with the files that an earlier transfer left beside their
destination. Before a file is sent, its digest goes to the receiver; the receiver finds out how much
of it is there already, goes to that position in what is there, and asks the sender to do the same.

* `isWriteNeedConfirmation`, `overwriteAnswer` — how a digest is answered;
* `Resumption.step` — a sender, a receiver, and the messages between them;
* `Resumption.resume_iff` — when every file that was not skipped arrives as it is.
-/

namespace BgDesk
namespace Fs

open TransferJob (entryPath decode Takes sourceBytes)

/-! ## The answer to a digest -/

/-- `DigestCheckResult`, with what is read of the digest in `NeedConfirm`. -/
inductive DigestCheckResult where
  | isSame
  | needConfirm (isIdentical : Bool) (transferredSize : ℕ)
  | noSuchFile
  deriving DecidableEq

section Digest

variable (parse : Bytes → Option FileDigest)

/-- What an earlier transfer of the same file left. `parse` is `serde_json::from_str::<FileDigest>`.
-/
def leftover (fs : FileSys) (path : PathName) (digest : FileDigest) : Option Bytes :=
  match fs.content (digestPath path), fs.content (downloadPath path) with
  | some json, some data => if parse json = some digest ∧ data ≠ [] then some data else none
  | _, _ => none

/-- `is_write_need_confirmation`. The time of a file that nobody has set is not known here: it is
only shown to the user. -/
def isWriteNeedConfirmation (isResume : Bool) (fs : FileSys) (path : PathName)
    (digest : FileDigest) : DigestCheckResult :=
  match if isResume then leftover parse fs path digest else none with
  | some data => .needConfirm true data.length
  | none =>
    match fs.files path with
    | some node =>
      .needConfirm (decide (node.mtime = some digest.modified ∧ node.content.length = digest.size))
        0
    | none => .noSuchFile

/-- The answer to a digest in `src/client/io_loop.rs`; `none` is for the user to decide. The size is
cast to 32 bits. -/
def overwriteAnswer (job : Job) : DigestCheckResult → Option ConfirmUnion
  | .isSame => some (.skip true)
  | .needConfirm isIdentical transferredSize =>
    if isIdentical ∧ job.isResume ∧
      0 < transferredSize then some (.offsetBlk (transferredSize % 2 ^ 32))
    else job.defaultOverwriteStrategy.map fun overwrite =>
      if overwrite then .offsetBlk 0 else .skip true
  | .noSuchFile => some (.offsetBlk 0)

end Digest

/-! ## The two sides -/

/-- A transfer between a sender that reads under `p` and a receiver that writes under `q`, on the
disks `src` and `fs₀`. `time` is when the files of the sender were changed, and `supports` whether
the peer knows how to resume. -/
structure Resume where
  p : PathName
  q : PathName
  files : List FileEntry
  id : ℤ
  start : ℕ
  src : FileSys
  fs₀ : FileSys
  time : ℕ → ℕ
  supports : Bool
  parse : Bytes → Option FileDigest

/-- A sender, a receiver, and what is on the way between them. -/
structure Resumption where
  sender : Job
  /-- the job of the sender was removed -/
  finished : Bool
  /-- to the receiver, the oldest first -/
  wire : List Event
  receiver : Receiver
  /-- the file the user is asked about -/
  asking : Option ℕ
  /-- to the sender, the oldest first -/
  answers : List SendConfirm
  /-- all answers the receiver has given -/
  told : List SendConfirm
  /-- `Done` was handled -/
  done : Bool

/-- What happens next. Nothing of it fails. -/
inductive ResumeAct where
  /-- the sender's turn, the reads of the stream being as `want` says -/
  | tick (want : ℕ → ℕ)
  /-- the receiver handles the oldest message -/
  | deliver
  /-- the user decides -/
  | decide (overwrite remember : Bool)
  /-- the sender handles the oldest answer -/
  | confirm

namespace Resume

variable (u : Resume)

/-- The bytes of entry `k` at the source. -/
def source (k : ℕ) : Bytes := sourceBytes u.src u.p u.files k

/-- The digest of entry `k` at the source. -/
def digest (k : ℕ) : FileDigest := ⟨(u.source k).length, u.time k⟩

/-- Where entry `k` goes. -/
abbrev path (k : ℕ) : PathName := entryPath u.q u.files k

/-- The disk of the sender. -/
def disk (k : ℕ) (want : ℕ → ℕ) : Disk :=
  ⟨u.src, true, some (u.time k, (u.source k).length), fun n => some (want n)⟩

/-- What an earlier transfer left of entry `k`, as far as it is looked at. -/
def left (k : ℕ) : Option Bytes :=
  if u.supports then leftover u.parse u.fs₀ (u.path k) (u.digest k) else none

/-- The offset at which entry `k` is resumed. -/
def offset (k : ℕ) : ℕ := ((u.left k).map List.length).getD 0 % 2 ^ 32

end Resume

namespace Resumption

variable (compress decompress : Bytes → Bytes) (u : Resume)

/-- The receiver gives an answer: it acts on it itself, and sends it. -/
def answer (t : Resumption) (r : SendConfirm) : Resumption :=
  { t with receiver := t.receiver.handle decompress (.confirm r true)
           answers := t.answers ++ [r], told := t.told ++ [r] }

/-- `FileResponse::Digest` at the receiver, `src/client/io_loop.rs`. -/
def onDigest (t : Resumption) (id : ℤ) (fileNum lastModified fileSize : ℕ) : Resumption :=
  match t.receiver.job with
  | none => t
  | some job =>
    match job.files[fileNum]?, job.dataSource with
    | some file, .filePath p =>
      let job := job.setDigest fileSize lastModified
      let t := { t with receiver := { t.receiver with job := some job } }
      match overwriteAnswer job (isWriteNeedConfirmation u.parse (u.supports && job.isResume)
        t.receiver.fs
        (join p file.name) ⟨fileSize, lastModified⟩) with
      | some union => t.answer decompress ⟨id, fileNum, some union⟩
      | none => { t with asking := some fileNum }
    | _, _ => t

/-- A message at the receiver. -/
def onEvent (t : Resumption) : Event → Resumption
  | .digest id fileNum lastModified fileSize _ =>
    t.onDigest decompress u id fileNum lastModified fileSize
  | .block block => { t with receiver := t.receiver.handle decompress (.block block) }
  | .error _ _ _ => { t with receiver := t.receiver.handle decompress .error }
  | .done _ _ => { t with receiver := t.receiver.handle decompress .done, done := true }

/-- `SetConfirmOverrideFile`, for a file the receiver writes. -/
def setConfirmOverrideFile (t : Resumption) (fileNum : ℕ) (needOverride remember : Bool) :
    Resumption :=
  match t.receiver.job with
  | none => t
  | some job =>
    let job := if remember then { job with defaultOverwriteStrategy := some needOverride } else job
    answer decompress { t with receiver := { t.receiver with job := some job } }
      ⟨job.id, fileNum, some (if needOverride then .offsetBlk 0 else .skip true)⟩

/-- One action. -/
def step (t : Resumption) : ResumeAct → Option Resumption
  | .tick want =>
    if t.finished then none
    else
      let ticked := t.sender.tick compress true (u.disk t.sender.fileNum want)
      some { t with sender := ticked.1, wire := t.wire ++ ticked.2.1, finished := ticked.2.2 }
  | .deliver =>
    match t.wire with
    | [] => none
    | e :: wire => some ({ t with wire := wire }.onEvent decompress u e)
  | .decide needOverride remember =>
    match t.asking with
    | none => none
    | some fileNum =>
      some ({ t with asking := none }.setConfirmOverrideFile decompress fileNum needOverride
        remember)
  | .confirm =>
    match t.answers with
    | [] => none
    | r :: answers =>
      let sender :=
        if t.finished then t.sender else t.sender.confirm (u.disk t.sender.fileNum fun n => n) r
      some { t with sender := sender, answers := answers }

/-- The two jobs at the start. -/
def begin (isResume : Bool) (strategy : Option Bool) (wj : TransferJob) : Resumption :=
  ⟨⟨TransferJob.newRead u.id .generic (.filePath u.p) u.start true u.files, false, isResume, false,
    none⟩, false, [],
    ⟨some ⟨wj, false, true, false, strategy⟩, u.fs₀⟩, none, [], [], false⟩

/-- The receiver has said that entry `k` is to be skipped. -/
def Skipped (told : List SendConfirm) (k : ℕ) : Prop := ∃ r ∈ told, r.fileNum = k ∧ r.skips = true

/-! ## The sender -/

/-- The disk of the sender: the entries are there, no symbolic link leads to them, and nobody has
put a `.download` and a `.digest` beside one of them. -/
structure Readable : Prop where
  present : ∀ k < u.files.length, (u.src.files (entryPath u.p u.files k)).isSome
  resolves : Resolves u.src u.p u.files
  beside : ∀ k < u.files.length, ¬ ((u.src.files (downloadPath (entryPath u.p u.files k))).isSome ∧
    (u.src.files (digestPath (entryPath u.p u.files k))).isSome)

/-- A job that reads the entries, and asks about each of them. -/
structure Reads (job : Job) : Prop where
  id : job.id = u.id
  jobType : job.jobType = .generic
  dataSource : job.dataSource = .filePath u.p
  files : job.files = u.files
  detects : job.enableOverwriteDetection = true

/-- The sender before it turns to entry `k`. -/
structure Closed (k : ℕ) (job : Job) : Prop where
  reads : Reads u job
  fileNum : job.fileNum = k
  stream : job.dataStream = none
  confirmed : job.fileConfirmed = false
  waiting : job.fileIsWaiting = false

/-- The sender has asked about entry `k`. -/
structure Waits (k : ℕ) (job : Job) : Prop where
  reads : Reads u job
  fileNum : job.fileNum = k
  stream : job.dataStream = some (.fileStream (entryPath u.p u.files k) 0)
  confirmed : job.fileConfirmed = false
  waiting : job.fileIsWaiting = true

/-- The sender is at a position of entry `k`. -/
structure Sends (k pos : ℕ) (job : Job) : Prop where
  reads : Reads u job
  fileNum : job.fileNum = k
  stream : job.dataStream = some (.fileStream (entryPath u.p u.files k) pos)
  confirmed : job.fileConfirmed = true

variable {u compress} {k pos : ℕ} {job : Job} {want : ℕ → ℕ}

theorem Reads.unconfirmed (h : Reads u job) : job.unconfirmed = !job.fileConfirmed := by
  simp [Job.unconfirmed, h.jobType, h.detects]

theorem Reads.needsDigest (h : Reads u job) :
    job.needsDigest = (!job.fileConfirmed && !job.fileIsWaiting) := by
  simp [Job.needsDigest, h.jobType, h.detects]

/-- As long as the peer has not answered, a job reads nothing. -/
theorem Reads.readOnce_unconfirmed (h : Reads u job) (hconf : job.fileConfirmed = false)
    (disk : Disk) : job.readOnce compress disk = (job, job.complete) := by
  have hwait : job.unconfirmed = true := by simp [h.unconfirmed, hconf]
  rw [Job.readOnce, TransferJob.read_filePath compress h.dataSource,
    if_pos (by simpa [Job.unconfirmed, and_assoc] using hwait)]

variable (compress) in
/-- At the end of the list the job is over. -/
theorem Closed.tick_end (h : Closed u k job) (hend : u.files.length ≤ k) (disk : Disk) :
    job.tick compress true disk =
      (job, [if job.jobSkipped then .error job.id "skipped" job.fileNum else .done job.id
        job.fileNum], true) := by
  have hinit : job.init disk = (job, []) := by
    have hspec := Job.init_spec h.reads.dataSource disk
    generalize job.init disk = r at hspec
    have hlt : ¬ job.fileNum < job.files.length := by
      rw [h.fileNum, h.reads.files]
      omega
    cases hspec with
    | ended => rw [← h.stream]
    | unopened hlt' => exact absurd hlt' hlt
    | ready entry hentry => exact absurd (List.getElem?_eq_some_iff.mp hentry).1 hlt
    | unasked entry hentry => exact absurd (List.getElem?_eq_some_iff.mp hentry).1 hlt
    | asked entry hentry => exact absurd (List.getElem?_eq_some_iff.mp hentry).1 hlt
  have hcomplete : job.jobCompleted = true := by simp [Job.jobCompleted, h.confirmed, h.waiting]
  rw [Job.tick, hinit]
  simp only [h.reads.readOnce_unconfirmed h.confirmed, if_true, List.nil_append, Job.complete,
    hcomplete, Job.jobError]
  cases job.jobSkipped <;> rfl

/-- A job that waits is not over. -/
theorem Waits.complete (h : Waits u k job) : job.complete = ([], false) := by
  simp [Job.complete, Job.jobCompleted, h.reads.detects, h.confirmed, h.waiting]

variable (compress want) in
/-- A file is opened, and the peer is asked about it. -/
theorem Closed.tick_open (h : Closed u k job) (hlt : k < u.files.length) :
    ∃ job', job.tick compress true (u.disk k want) =
        (job', [.digest u.id k (u.time k) (u.source k).length job.isResume], false) ∧
          Waits u k job' := by
  obtain ⟨entry, hentry⟩ : ∃ entry, job.files[job.fileNum]? = some entry := by
    rw [h.fileNum, h.reads.files]
    exact ⟨_, List.getElem?_eq_getElem hlt⟩
  have hpath : join u.p entry.name = entryPath u.p u.files k := by
    rw [h.fileNum, h.reads.files] at hentry
    exact (Watched.entryPath_eq hentry u.p).symm
  have hopened : job.opened u.p entry = { job with
      dataStream := some (.fileStream (join u.p entry.name) 0)
      fileConfirmed := false, fileIsWaiting := false } := if_pos h.stream
  have hinit : job.init (u.disk k want) = ({ job.opened u.p entry with fileIsWaiting := true },
      [.digest u.id k (u.time k) (u.source k).length job.isResume]) := by
    have hdigest : (job.opened u.p entry).getCurrentDigest (u.disk k want) =
        .ok (u.time k, (u.source k).length) := by
      rw [hopened]
      rfl
    have hneeds : (job.opened u.p entry).needsDigest = true := by
      rw [hopened]
      simp [Job.needsDigest, h.reads.jobType, h.reads.detects]
    rw [Job.init, Job.initDataStream_opened h.reads.dataSource hentry (fun _ => rfl),
      Job.sendDigest, if_pos hneeds,
      hdigest]
    simp only [Job.opened_id, Job.opened_fileNum, Job.opened_isResume, h.reads.id, h.fileNum]
  have hwaits : Waits u k { job.opened u.p entry with fileIsWaiting := true } := by
    rw [hopened, hpath]
    exact ⟨⟨h.reads.id, h.reads.jobType, h.reads.dataSource, h.reads.files, h.reads.detects⟩,
      h.fileNum, rfl, rfl, rfl⟩
  refine ⟨_, ?_, hwaits⟩
  rw [Job.tick, hinit]
  generalize { job.opened u.p entry with fileIsWaiting := true } = job' at hwaits
  simp only [hwaits.reads.readOnce_unconfirmed hwaits.confirmed, if_true, hwaits.complete,
    List.append_nil]

variable (compress) in
/-- A job that waits does nothing. -/
theorem Waits.tick (h : Waits u k job) (hlt : k < u.files.length) (disk : Disk) :
    job.tick compress true disk = (job, [], false) := by
  have hinit := Job.init_spec h.reads.dataSource disk
  have hneeds : job.needsDigest = false := by simp [h.reads.needsDigest, h.waiting]
  have hopened : ∀ entry, job.opened u.p entry = job := fun entry => if_neg (by simp [h.stream])
  have hsame : job.init disk = (job, []) := by
    generalize job.init disk = r at hinit
    cases hinit with
    | ended hend =>
      rw [h.fileNum, h.reads.files] at hend
      omega
    | unopened hlt' hstream =>
      rw [h.stream] at hstream
      cases hstream
    | ready entry => rw [hopened]
    | unasked entry hentry hopen hneeds' =>
      rw [hopened, hneeds] at hneeds'
      cases hneeds'
    | asked entry hentry hopen hneeds' =>
      rw [hopened, hneeds] at hneeds'
      cases hneeds'
  rw [Job.tick, hsame]
  simp only [h.reads.readOnce_unconfirmed h.confirmed, if_true, h.complete, List.append_nil]

variable (compress want) in
/-- A job that sends reads the next block of its file, or ends it. -/
theorem Sends.tick (h : Sends u k pos job) (hlt : k < u.files.length) :
    (u.source k).length ≤ pos ∧ (∃ job', job.tick compress true (u.disk k want) =
        (job', [.block ⟨u.id, k, [], false⟩], false) ∧ Closed u (k + 1) job') ∨
    ∃ n name job', 0 < n ∧ pos + n ≤ (u.source k).length ∧ job.tick compress true (u.disk k want) =
        (job',
          [.block
            ⟨u.id, k, (TransferJob.pack compress name true (((u.source k).drop pos).take n)).1,
          (TransferJob.pack compress name true (((u.source k).drop pos).take n)).2⟩], false) ∧
      Sends u k (pos + n) job' := by
  obtain ⟨entry, hentry⟩ : ∃ entry, job.files[job.fileNum]? = some entry := by
    rw [h.fileNum, h.reads.files]
    exact ⟨_, List.getElem?_eq_getElem hlt⟩
  have hopened : job.opened u.p entry = job := if_neg (by simp [h.stream])
  have hneeds : job.needsDigest = false := by simp [h.reads.needsDigest, h.confirmed]
  have hinit : job.init (u.disk k want) = (job, []) := by
    rw [Job.init, Job.initDataStream_opened h.reads.dataSource hentry (fun _ => rfl), hopened,
      Job.sendDigest,
      if_neg (by simp [hneeds])]
  have hread := TransferJob.readBlock_eq compress u.src want (job.readName u.p entry) h.stream
  have hwait : job.unconfirmed = false := by simp [h.reads.unconfirmed, h.confirmed]
  have honce : job.read compress u.src (fun n => some (want n)) =
      job.readBlock compress u.src (fun n => some (want n)) (job.readName u.p entry) true := by
    rw [TransferJob.read_filePath compress h.reads.dataSource,
      if_neg (by simpa [Job.unconfirmed] using hwait), hentry]
  have hsource : (u.src.content (entryPath u.p u.files k)).getD [] = u.source k := rfl
  rw [hread, hsource] at honce
  dsimp only at honce
  by_cases hbuf : ((u.source k).drop pos).take TransferJob.bufSize = []
  · rw [if_pos hbuf] at honce
    have hend : (u.source k).length ≤ pos := by
      rcases List.take_eq_nil_iff.mp hbuf with hzero | hnil
      · cases hzero
      · exact List.drop_eq_nil_iff.mp hnil
    refine .inl ⟨hend, { job with toTransferJob := job.nextFile }, ?_, ?_⟩
    · rw [Job.tick, hinit]
      simp only [if_true, Job.readOnce, Resume.disk, honce, List.nil_append, h.reads.id, h.fileNum]
    · exact ⟨⟨h.reads.id, h.reads.jobType, h.reads.dataSource, h.reads.files, h.reads.detects⟩,
        congrArg (· + 1) h.fileNum, rfl, rfl, rfl⟩
  · rw [if_neg hbuf] at honce
    generalize hn : (((u.source k).drop pos).take TransferJob.bufSize).length = n at honce
    have htake : ((u.source k).drop pos).take TransferJob.bufSize =
        ((u.source k).drop pos).take n := by
      rw [← hn]
      simp [List.take_eq_take_iff]
    have hpos : 0 < n := hn ▸ List.length_pos_iff.mpr hbuf
    rw [htake] at honce hn
    have hle : pos + n ≤ (u.source k).length := by
      rw [List.length_take, List.length_drop] at hn
      omega
    obtain ⟨read, honce, hsends⟩ : ∃ read :
      TransferJob, job.read compress u.src (fun n => some (want n)) =
        (read, .ok (some ⟨job.id, job.fileNum,
          (TransferJob.pack compress (job.readName u.p entry)
            true (((u.source k).drop pos).take n)).1,
          (TransferJob.pack compress (job.readName u.p entry)
            true (((u.source k).drop pos).take n)).2⟩)) ∧
        Sends u k (pos + n) { job with toTransferJob := read } :=
      ⟨_, honce, ⟨h.reads.id, h.reads.jobType, h.reads.dataSource, h.reads.files, h.reads.detects⟩,
        h.fileNum, rfl,
        h.confirmed⟩
    refine .inr ⟨n, job.readName u.p entry, _, hpos, hle, ?_, hsends⟩
    rw [Job.tick, hinit]
    simp only [if_true, Job.readOnce, Resume.disk, honce, List.nil_append, h.reads.id, h.fileNum]

theorem Waits.confirm_skip (h : Waits u k job) (disk : Disk) {r : SendConfirm}
    (hnum : r.fileNum = k) (hr : r.union = some (.skip true)) :
    Closed u (k + 1) (job.confirm disk r) := by
  rw [Job.confirm, if_neg (by simp [h.fileNum, hnum]), hr]
  exact ⟨⟨h.reads.id, h.reads.jobType, h.reads.dataSource, h.reads.files, h.reads.detects⟩,
    congrArg (· + 1) h.fileNum, rfl, rfl, rfl⟩

/-- The sender goes to the offset it is asked for. -/
theorem Waits.confirm_offset (h : Waits u k job) (hlt : k < u.files.length) (hsrc : Readable u)
    {r : SendConfirm} {off : ℕ} (hnum : r.fileNum = k) (hr : r.union = some (.offsetBlk off)) :
    Sends u k off (job.confirm (u.disk k want) r) := by
  rw [Job.confirm, if_neg (by simp [h.fileNum, hnum]), hr]
  dsimp only
  by_cases hpos : 0 < off
  · have htakes : Takes u.p u.files u.id (job.setFileConfirmed true).toTransferJob :=
      ⟨h.reads.id, h.reads.jobType, h.reads.dataSource, h.reads.files⟩
    have hfile : TransferJob.offsetFile u.src (entryPath u.p u.files k) =
        some (entryPath u.p u.files k) := by
      rw [TransferJob.offsetFile, if_neg (by simpa using hsrc.beside k hlt),
        if_pos (hsrc.present k hlt)]
    have hoffset := htakes.setStreamOffset hsrc.resolves hlt hfile off
    rw [if_pos hpos, hnum, Resume.disk, hoffset]
    exact ⟨⟨h.reads.id, h.reads.jobType, h.reads.dataSource, h.reads.files, h.reads.detects⟩,
      h.fileNum, rfl, rfl⟩
  · obtain rfl : off = 0 := by omega
    rw [if_neg hpos]
    exact ⟨⟨h.reads.id, h.reads.jobType, h.reads.dataSource, h.reads.files, h.reads.detects⟩,
      h.fileNum, h.stream, rfl⟩

/-! ## The receiver -/

variable (u)

/-- How much of entry `i` is lost, `f` being the first entry that was sent. -/
def lost (f i : ℕ) : ℕ := if i = f then 0 else u.offset i

/-- Entry `i` as the transfer leaves it. -/
def outcome (f i : ℕ) : Bytes := (u.source i).drop (lost u f i)

/-- The job of the receiver. -/
structure Live (s : Receiver) (job : Job) : Prop where
  present : s.job = some job
  takes : Takes u.q u.files u.id job.toTransferJob
  resume : job.isResume = true
  symlink : s.fs.symlink = u.fs₀.symlink

/-- What was left of the entries from `k` on is still there. -/
def Ahead (k : ℕ) (fs : FileSys) : Prop :=
  ∀ i, k ≤ i → i < u.files.length →
    fs.content (downloadPath (u.path i)) = u.fs₀.content (downloadPath (u.path i)) ∧
      fs.content (digestPath (u.path i)) = u.fs₀.content (digestPath (u.path i))

/-- Entry `f` is the first one that was sent. -/
structure FirstSent (told : List SendConfirm) (f : ℕ) : Prop where
  le : u.start ≤ f
  sent : ¬ Skipped told f
  before : ∀ i, u.start ≤ i → i < f → Skipped told i

/-- The receiver has got no block yet, and the first entry that can come is `k`. -/
structure Fresh (told : List SendConfirm) (k : ℕ) (s : Receiver) : Prop where
  job : ∃ job, Live u s job ∧ job.fileNum = k ∧ job.dataStream = none
  fs : s.fs = u.fs₀
  le : u.start ≤ k
  before : ∀ i, u.start ≤ i → i < k → Skipped told i

/-- The receiver has put entry `j` together, and the next one that can come is `k`. -/
structure Held (told : List SendConfirm) (f j k : ℕ) (s : Receiver) : Prop where
  job : ∃ job, Live u s job ∧ job.fileNum = j ∧ job.dataStream ≠ none
  first : FirstSent u told f
  le : f ≤ j
  lt : j < k
  mem : j < u.files.length
  download : s.fs.content (downloadPath (u.path j)) = some (outcome u f j)
  settled : ∀ i, u.start ≤ i → i < k → i ≠ j → Skipped told i ∨
    s.fs.content (u.path i) = some (outcome u f i)
  ahead : Ahead u k s.fs

/-- The receiver puts entry `k` together, and is at position `x` of what will be there. -/
structure Writing (told : List SendConfirm) (f k x : ℕ) (s : Receiver) : Prop where
  job : ∃ job, Live u s job ∧ job.fileNum = k ∧
    job.dataStream = some (.fileStream (downloadPath (u.path k)) x)
  first : FirstSent u told f
  le : f ≤ k
  mem : k < u.files.length
  download : ∃ d, s.fs.content (downloadPath (u.path k)) = some d ∧
    d.take x = (outcome u f k).take x ∧
    x ≤ d.length ∧ d.length ≤ (outcome u f k).length
  settled : ∀ i, u.start ≤ i → i < k → Skipped told i ∨
    s.fs.content (u.path i) = some (outcome u f i)
  ahead : Ahead u (k + 1) s.fs

variable {u} {told : List SendConfirm} {f j x n : ℕ} {s : Receiver} {decompress : Bytes → Bytes}
  {b : Block}

variable {i : ℕ} {job : Job}

theorem FirstSent.lt_of_ne (h : FirstSent u told f) (hi : u.start ≤ i) (hsent : ¬ Skipped told i)
    (hne : i ≠ f) : f < i := by
  by_contra hlt
  exact hsent (h.before i hi (by omega))

/-- A complete entry. -/
theorem Writing.held (h : Writing u told f k x s) (hx : (outcome u f k).length ≤ x) :
    Held u told f k (k + 1) s := by
  obtain ⟨job, hlive, hnum, hstream⟩ := h.job
  obtain ⟨d, hd, htake, hle, hlen⟩ := h.download
  refine ⟨⟨job, hlive, hnum, by simp [hstream]⟩, h.first, h.le, Nat.lt_succ_self k, h.mem, ?_, ?_,
    h.ahead⟩
  · rw [List.take_of_length_le (by omega), List.take_of_length_le hx] at htake
    rw [hd, htake]
  · intro i hi hlt hne
    exact h.settled i hi (by omega)

/-- A further block. -/
theorem Writing.write (hsep : Separated u.path u.files.length) (h : Writing u told f k x s)
    (hid : b.id = u.id) (hnum : b.fileNum = k)
    (hdata : decode decompress b = ((outcome u f k).drop x).take n)
    (hn : x + n ≤ (outcome u f k).length) :
    Writing u told f k (x + n) (s.handle decompress (.block b)) := by
  obtain ⟨job, hlive, rfl, hstream⟩ := h.job
  obtain ⟨d, hd, htake, hle, hlen⟩ := h.download
  have hwritten := TransferJob.write_same s.fs decompress
    WriteIo.ok_failed hlive.takes hid h.mem hnum hstream
  have hdlen : (decode decompress b).length = n := by
    rw [hdata, List.length_take, List.length_drop]
    omega
  have hother : ∀ i < u.files.length, i ≠ job.fileNum → ∀ r, Beside (u.path i) r →
      (job.write decompress s.fs b).fs.content r = s.fs.content r := by
    intro i hi hne r hr
    rw [hwritten.content, if_neg]
    rintro rfl
    exact (hsep.not_beside h.mem hi hne.symm).2.1 hr
  rw [Receiver.handle, hlive.present]
  refine ⟨⟨_, ⟨rfl, hwritten.takes, hlive.resume, hwritten.symlink.trans hlive.symlink⟩,
    hwritten.fileNum, ?_⟩,
    h.first, h.le, h.mem, ⟨TransferJob.overlay d x (decode decompress b), ?_, ?_, ?_, ?_⟩, ?_, ?_⟩
  · rw [← hdlen]
    exact hwritten.stream
  · show (job.write decompress s.fs b).fs.content _ = _
    rw [hwritten.content, if_pos rfl, hd]
    rfl
  · have hlen' : (d.take x ++ decode decompress b).length = x + n := by
      rw [List.length_append, List.length_take, hdlen]
      omega
    rw [TransferJob.overlay, List.take_left' hlen', htake, hdata, ← List.take_add]
  · rw [TransferJob.overlay, List.length_append, List.length_append, List.length_take, hdlen]
    omega
  · rw [TransferJob.overlay, List.length_append, List.length_append, List.length_take,
      List.length_drop, hdlen]
    omega
  · intro i hi hlt
    show _ ∨ (job.write decompress s.fs b).fs.content _ = _
    rw [hother i (hlt.trans h.mem) hlt.ne _ (.inl rfl)]
    exact h.settled i hi hlt
  · intro i hi hlt
    show (job.write decompress s.fs b).fs.content _ = _ ∧
      (job.write decompress s.fs b).fs.content _ = _
    rw [hother i hlt (by omega) _ (.inr (.inl rfl)), hother i hlt (by omega) _ (.inr (.inr rfl))]
    exact h.ahead i hi hlt

/-- The first block of an entry: whatever the file before was, it gets its name. -/
theorem writing_start (hsep : Separated u.path u.files.length) (hlive : Live u s job)
    (hres : Resolves s.fs u.q u.files) (hid : b.id = u.id) (hmem : b.fileNum < u.files.length)
    (hother : b.fileNum ≠ job.fileNum ∨ job.dataStream = none) (hfirst : FirstSent u told f)
    (hle : f ≤ b.fileNum) (hdata : decode decompress b = (outcome u f b.fileNum).take n)
    (hn : n ≤ (outcome u f b.fileNum).length) (hsettled : ∀ i, u.start ≤ i → i < b.fileNum →
      Skipped told i ∨ (job.modifyTime s.fs).content (u.path i) = some (outcome u f i))
    (hahead : Ahead u (b.fileNum + 1) (job.modifyTime s.fs)) :
    Writing u told f b.fileNum n (s.handle decompress (.block b)) := by
  have hwritten := TransferJob.write_other decompress
    WriteIo.ok_failed hlive.takes hres hid hmem hother
  have hdlen : (decode decompress b).length = n := by
    rw [hdata, List.length_take]
    omega
  have hsame : ∀ i < u.files.length, i ≠ b.fileNum → ∀ r, Beside (u.path i) r →
      (job.write decompress s.fs b).fs.content r = (job.modifyTime s.fs).content r := by
    intro i hi hne r hr
    obtain ⟨-, hdown, hdig⟩ := hsep.not_beside hmem hi hne.symm
    rw [hwritten.content, if_neg, if_neg]
    · rw [WriteIo.ok_renames]
    · rintro rfl
      exact hdig hr
    · rintro rfl
      exact hdown hr
  rw [Receiver.handle, hlive.present]
  refine ⟨⟨_, ⟨rfl, hwritten.takes, hlive.resume, hwritten.symlink.trans hlive.symlink⟩,
    hwritten.fileNum, ?_⟩,
    hfirst, hle, hmem, ⟨decode decompress b, ?_, ?_, ?_, ?_⟩, ?_, ?_⟩
  · rw [← hdlen]
    exact hwritten.stream
  · show (job.write decompress s.fs b).fs.content _ = _
    rw [hwritten.content, if_pos rfl]
  · rw [hdata, List.take_take, Nat.min_self]
  · omega
  · omega
  · intro i hi hlt
    show _ ∨ (job.write decompress s.fs b).fs.content _ = _
    rw [hsame i (hlt.trans hmem) hlt.ne _ (.inl rfl)]
    exact hsettled i hi hlt
  · intro i hi hlt
    show (job.write decompress s.fs b).fs.content _ = _ ∧
      (job.write decompress s.fs b).fs.content _ = _
    rw [hsame i hlt (by omega) _ (.inr (.inl rfl)), hsame i hlt (by omega) _ (.inr (.inr rfl))]
    exact hahead i hi hlt

/-- Giving an entry its name does not touch the files of another one. -/
theorem modifyTime_other (hsep : Separated u.path u.files.length) {job : TransferJob} {fs : FileSys}
    (hjob : Takes u.q u.files u.id job) (hres : Resolves fs u.q u.files)
    (hlt : job.fileNum < u.files.length) (hi : i < u.files.length) (hne : i ≠ job.fileNum)
    {r : PathName} (hr : Beside (u.path i) r) : (job.modifyTime fs).content r = fs.content r := by
  obtain ⟨hpath, hdown, hdig⟩ := hsep.not_beside hlt hi hne.symm
  rw [TransferJob.modifyTime_content hjob hres hlt, if_neg, if_neg]
  · rintro (rfl | rfl)
    · exact hdown hr
    · exact hdig hr
  · rintro rfl
    exact hpath hr

/-- The first block after an entry that was put together. -/
theorem Held.write (hsep : Separated u.path u.files.length) (hres : Resolves u.fs₀ u.q u.files)
    (h : Held u told f j b.fileNum s) (hid : b.id = u.id) (hmem : b.fileNum < u.files.length)
    (hdata : decode decompress b = (outcome u f b.fileNum).take n)
    (hn : n ≤ (outcome u f b.fileNum).length) :
    Writing u told f b.fileNum n (s.handle decompress (.block b)) := by
  obtain ⟨job, hlive, rfl, hstream⟩ := h.job
  have hres' := hres.congr hlive.symlink
  have hlt := h.lt
  refine writing_start hsep hlive hres' hid hmem (.inl hlt.ne') h.first (h.le.trans hlt.le)
    hdata hn ?_ ?_
  · intro i hi hib
    by_cases hij : i = job.fileNum
    · subst hij
      refine .inr ?_
      rw [TransferJob.modifyTime_content hlive.takes hres' h.mem, if_pos rfl, h.download,
        Option.some_or]
    · rw [modifyTime_other hsep hlive.takes hres' h.mem (hib.trans hmem) hij (.inl rfl)]
      exact h.settled i hi hib hij
  · intro i hi hin
    rw [modifyTime_other hsep hlive.takes hres' h.mem hin (by omega) (.inr (.inl rfl)),
      modifyTime_other hsep hlive.takes hres' h.mem hin (by omega) (.inr (.inr rfl))]
    exact h.ahead i (by omega) hin

theorem outcome_self (k : ℕ) : outcome u k k = u.source k := by simp [outcome, lost]

/-- The very first block. -/
theorem Fresh.write (hsep : Separated u.path u.files.length) (hres : Resolves u.fs₀ u.q u.files)
    (h : Fresh u told b.fileNum s) (hsent : ¬ Skipped told b.fileNum) (hid : b.id = u.id)
    (hmem : b.fileNum < u.files.length) (hdata : decode decompress b = (u.source b.fileNum).take n)
    (hn : n ≤ (u.source b.fileNum).length) :
    Writing u told b.fileNum b.fileNum n (s.handle decompress (.block b)) := by
  obtain ⟨job, hlive, hnum, hstream⟩ := h.job
  have hres' := hres.congr hlive.symlink
  refine writing_start hsep hlive hres' hid hmem (.inr hstream) ⟨h.le, hsent, h.before⟩ le_rfl
    (by rw [outcome_self]; exact hdata) (by rw [outcome_self]; exact hn)
      (fun i hi hlt => .inl (h.before i hi hlt)) ?_
  intro i hi hin
  have hlt : job.fileNum < u.files.length := hnum ▸ hmem
  rw [modifyTime_other hsep hlive.takes hres' hlt hin (by omega) (.inr (.inl rfl)),
    modifyTime_other hsep hlive.takes hres' hlt hin (by omega) (.inr (.inr rfl)), h.fs]
  exact ⟨rfl, rfl⟩

/-! ### Answers -/

/-- All answers are about entries before `k`. -/
def Told (told : List SendConfirm) (k : ℕ) : Prop := ∀ r ∈ told, r.fileNum < k

variable {r : SendConfirm}

theorem Told.append (h : Told told k) (hr : r.fileNum = k) : Told (told ++ [r]) (k + 1) := by
  intro r' hr'
  rcases List.mem_append.mp hr' with hr' | hr'
  · exact (h r' hr').trans (Nat.lt_succ_self k)
  · rw [List.mem_singleton.mp hr', hr]
    exact Nat.lt_succ_self k

theorem Skipped.append (h : Skipped told i) (r : SendConfirm) : Skipped (told ++ [r]) i := by
  obtain ⟨r', hr', h⟩ := h
  exact ⟨r', List.mem_append_left _ hr', h⟩

theorem skipped_append (h : Skipped (told ++ [r]) i) :
    Skipped told i ∨ r.fileNum = i ∧ r.skips = true := by
  obtain ⟨r', hr', h⟩ := h
  rcases List.mem_append.mp hr' with hr' | hr'
  · exact .inl ⟨r', hr', h⟩
  · obtain rfl := List.mem_singleton.mp hr'
    exact .inr h

theorem Told.not_skipped (h : Told told k) : ¬ Skipped told k := by
  rintro ⟨r, hr, rfl, -⟩
  exact lt_irrefl _ (h r hr)

theorem FirstSent.append (h : FirstSent u told f) (hr : f ≠ r.fileNum) :
    FirstSent u (told ++ [r]) f := by
  refine ⟨h.le, fun hskip => ?_, fun i hi hlt => (h.before i hi hlt).append r⟩
  rcases skipped_append hskip with hskip | ⟨heq, -⟩
  · exact h.sent hskip
  · exact hr heq.symm

/-- The job of the receiver is replaced by one that is at the same file. -/
theorem Live.replace {job' : Job} (h : Live u s job)
    (htakes : Takes u.q u.files u.id job'.toTransferJob) (hresume : job'.isResume = true) :
    Live u { s with job := some job' } job' :=
  ⟨rfl, htakes, hresume, h.symlink⟩

/-- An answer about another file changes nothing. -/
theorem Held.confirm (h : Held u told f j k s) (hr : r.fileNum = k) (canOpen : Bool) :
    Held u told f j k (s.handle decompress (.confirm r canOpen)) := by
  obtain ⟨job, hlive, hnum, hstream⟩ := h.job
  have hlt := h.lt
  rw [Receiver.handle, hlive.present]
  dsimp only
  rw [Job.confirm, if_pos (by omega)]
  exact ⟨⟨job, hlive.replace hlive.takes hlive.resume, hnum, hstream⟩, h.first, h.le, h.lt, h.mem,
    h.download,
    h.settled, h.ahead⟩

/-- Entry `k` is skipped. -/
theorem Held.skip (h : Held u told f j k s) (hr : r.fileNum = k) (hskip : r.skips = true) :
    Held u (told ++ [r]) f j (k + 1) s := by
  have hlt := h.lt
  have hle := h.le
  refine ⟨h.job, h.first.append (by omega), h.le, hlt.trans (Nat.lt_succ_self k), h.mem,
    h.download, ?_,
    fun i hi => h.ahead i (by omega)⟩
  intro i hi hik hne
  rcases Nat.lt_succ_iff_lt_or_eq.mp hik with hik | rfl
  · rcases h.settled i hi hik hne with hs | hs
    · exact .inl (hs.append r)
    · exact .inr hs
  · exact .inl ⟨r, by simp, hr, hskip⟩

/-- Entry `k` is to be sent. -/
theorem Held.accept (h : Held u told f j k s) (hr : r.fileNum = k) :
    Held u (told ++ [r]) f j k s := by
  have hlt := h.lt
  have hle := h.le
  refine ⟨h.job, h.first.append (by omega), h.le, h.lt, h.mem, h.download, ?_, h.ahead⟩
  intro i hi hik hne
  rcases h.settled i hi hik hne with hs | hs
  · exact .inl (hs.append r)
  · exact .inr hs

theorem Fresh.skip (h : Fresh u told k s) (hr : r.fileNum = k)
    (hunion : r.union = some (.skip true)) (canOpen : Bool) :
    Fresh u (told ++ [r]) (k + 1) (s.handle decompress (.confirm r canOpen)) := by
  obtain ⟨job, hlive, hnum, hstream⟩ := h.job
  rw [Receiver.handle, hlive.present]
  dsimp only
  rw [Job.confirm, if_neg (by omega), hunion]
  refine ⟨⟨_, hlive.replace ⟨hlive.takes.id, hlive.takes.jobType, hlive.takes.dataSource,
    hlive.takes.files⟩
    hlive.resume, congrArg (· + 1) hnum, rfl⟩, h.fs, h.le.trans (Nat.le_succ k), ?_⟩
  intro i hi hik
  rcases Nat.lt_succ_iff_lt_or_eq.mp hik with hik | rfl
  · exact (h.before i hi hik).append r
  · exact ⟨r, by simp, hr, by simp [SendConfirm.skips, hunion]⟩

/-- Entry `k` is to be sent from the start. -/
theorem Fresh.accept_zero (h : Fresh u told k s) (hr : r.fileNum = k)
    (hunion : r.union = some (.offsetBlk 0)) (canOpen : Bool) :
    Fresh u (told ++ [r]) k (s.handle decompress (.confirm r canOpen)) := by
  obtain ⟨job, hlive, hnum, hstream⟩ := h.job
  rw [Receiver.handle, hlive.present]
  dsimp only
  rw [Job.confirm, if_neg (by omega), hunion]
  exact ⟨⟨_, hlive.replace ⟨hlive.takes.id, hlive.takes.jobType, hlive.takes.dataSource,
    hlive.takes.files⟩
    hlive.resume, hnum, hstream⟩, h.fs, h.le, fun i hi hik => (h.before i hi hik).append r⟩

theorem leftover_some {parse : Bytes → Option FileDigest} {fs : FileSys} {path : PathName}
    {digest : FileDigest} {data : Bytes} (h : leftover parse fs path digest = some data) :
    (fs.files (downloadPath path)).isSome ∧ (fs.files (digestPath path)).isSome ∧
      fs.content (downloadPath path) = some data ∧ data ≠ [] := by
  rw [leftover] at h
  split at h
  · next json data' hjson hdata =>
    split at h
    · next hand =>
      obtain rfl := Option.some.inj h
      obtain ⟨node, hnode, -⟩ := Option.map_eq_some_iff.mp hdata
      obtain ⟨node', hnode', -⟩ := Option.map_eq_some_iff.mp hjson
      exact ⟨by simp [hnode], by simp [hnode'], hdata, hand.2⟩
    · cases h
  · cases h

theorem left_some {data : Bytes} (h : u.left k = some data) :
    leftover u.parse u.fs₀ (u.path k) (u.digest k) = some data ∧
      u.offset k = data.length % 2 ^ 32 := by
  refine ⟨?_, by simp [Resume.offset, h]⟩
  rw [Resume.left] at h
  split at h
  · exact h
  · cases h

theorem left_none (h : u.left k = none) : u.offset k = 0 := by simp [Resume.offset, h]

/-- What earlier transfers left is the beginning of the source. -/
def Prefixes (u : Resume) : Prop :=
  ∀ k < u.files.length, ∀ data, u.left k = some data → data <+: u.source k

theorem Prefixes.offset_le (h : Prefixes u) (hk : k < u.files.length) :
    u.offset k ≤ (u.source k).length := by
  cases hleft : u.left k with
  | none =>
    rw [left_none hleft]
    exact Nat.zero_le _
  | some data =>
    rw [(left_some hleft).2]
    exact (Nat.mod_le _ _).trans (h k hk data hleft).length_le

/-- The very first entry is resumed: the receiver goes to the offset in what was left. -/
theorem Fresh.resume (hres : Resolves u.fs₀ u.q u.files) (hleft₀ : Prefixes u)
    (h : Fresh u told k s) (htold : Told told k) (hmem : k < u.files.length) (hr : r.fileNum = k)
    (hunion : r.union = some (.offsetBlk (u.offset k))) (hpos : 0 < u.offset k) :
    Writing u (told ++ [r]) k k (u.offset k) (s.handle decompress (.confirm r true)) := by
  obtain ⟨job, hlive, hnum, hstream⟩ := h.job
  obtain ⟨data, hleft⟩ : ∃ data, u.left k = some data := by
    cases hleft : u.left k with
    | none =>
      rw [left_none hleft] at hpos
      cases hpos
    | some data => exact ⟨data, rfl⟩
  obtain ⟨hleftover, hoffset⟩ := left_some hleft
  obtain ⟨hdown, hdig, hcontent, -⟩ := leftover_some hleftover
  have hfile : TransferJob.offsetFile s.fs (u.path k) = some (downloadPath (u.path k)) := by
    rw [TransferJob.offsetFile, h.fs, if_pos (by simp [hdown, hdig])]
  have htakes : Takes u.q u.files u.id (job.setFileConfirmed true).toTransferJob :=
    ⟨hlive.takes.id, hlive.takes.jobType, hlive.takes.dataSource, hlive.takes.files⟩
  have hstep := htakes.setStreamOffset (hres.congr hlive.symlink) hmem hfile (u.offset k)
  have hnotskip : ¬ Skipped (told ++ [r]) k := by
    intro hskip
    rcases skipped_append hskip with hskip | ⟨-, hskip⟩
    · exact htold.not_skipped hskip
    · simp [SendConfirm.skips, hunion] at hskip
  have hpre := hleft₀ k hmem data hleft
  rw [Receiver.handle, hlive.present]
  dsimp only
  rw [Job.confirm, if_neg (by omega), hunion]
  dsimp only
  rw [if_pos hpos, hr, hstep]
  refine ⟨⟨_, hlive.replace ⟨htakes.id, htakes.jobType, htakes.dataSource, htakes.files⟩
    hlive.resume, hnum, rfl⟩,
    ⟨h.le, hnotskip, fun i hi hlt => (h.before i hi hlt).append r⟩, le_rfl, hmem,
      ⟨data, ?_, ?_, ?_, ?_⟩,
    fun i hi hlt => .inl ((h.before i hi hlt).append r), ?_⟩
  · rw [h.fs]
    exact hcontent
  · rw [outcome_self, hoffset]
    obtain ⟨rest, hrest⟩ := hpre
    rw [← hrest, List.take_append_of_le_length (Nat.mod_le _ _)]
  · rw [hoffset]
    exact Nat.mod_le _ _
  · rw [outcome_self]
    exact hpre.length_le
  · intro i _ _
    rw [h.fs]
    exact ⟨rfl, rfl⟩

/-! ### In step with the sender -/

/-- The receiver before entry `k`. -/
def Between (u : Resume) (told : List SendConfirm) (k : ℕ) (s : Receiver) : Prop :=
  Told told k ∧ (Fresh u told k s ∨ ∃ f j, Held u told f j k s)

/-- The receiver while the sender is at position `pos` of entry `k`. -/
inductive Progress (u : Resume) (told : List SendConfirm) (k pos : ℕ) (s : Receiver) : Prop where
  | fresh (h : Fresh u told k s) (hsent : ¬ Skipped told k) (hpos : pos = 0)
    (hoffset : u.offset k = 0)
  | held (f j : ℕ) (h : Held u told f j k s) (hpos : pos = u.offset k)
  | writing (f x : ℕ) (h : Writing u told f k x s) (hpos : pos = x + lost u f k)

theorem Held.lost (h : Held u told f j k s) : lost u f k = u.offset k := by
  have hlt := h.lt
  have hle := h.le
  exact if_neg (by omega)

/-- The next block of entry `k`. -/
theorem Progress.write (hsep : Separated u.path u.files.length) (hres : Resolves u.fs₀ u.q u.files)
    (h : Progress u told k pos s) (hmem : k < u.files.length) (hid : b.id = u.id)
    (hnum : b.fileNum = k) (hdata : decode decompress b = ((u.source k).drop pos).take n)
    (hn : pos + n ≤ (u.source k).length) :
    ∃ f x, Writing u told f k x (s.handle decompress (.block b)) ∧ pos + n = x + lost u f k := by
  subst hnum
  cases h with
  | fresh h hsent hpos hoffset =>
    subst hpos
    rw [List.drop_zero] at hdata
    exact ⟨b.fileNum, n, h.write hsep hres hsent hid hmem hdata (by omega), by simp [lost]⟩
  | held f j h hpos =>
    have hlost := h.lost
    have hlen : (outcome u f b.fileNum).length = (u.source b.fileNum).length - pos := by
      rw [outcome, hlost, List.length_drop, hpos]
    refine ⟨f, n, h.write hsep hres hid hmem ?_ (by omega), by omega⟩
    rw [outcome, hlost, ← hpos]
    exact hdata
  | writing f x h hpos =>
    have hlen : (outcome u f b.fileNum).length = (u.source b.fileNum).length - lost u f b.fileNum :=
      List.length_drop
    refine ⟨f, x + n, h.write hsep hid rfl ?_ (by omega), by omega⟩
    rw [outcome, List.drop_drop, Nat.add_comm, ← hpos]
    exact hdata

/-- A change of the job that is not about its file. -/
theorem Between.replace (h : Between u told k s) {job' : Job} (hjob : s.job = some job)
    (htakes : Takes u.q u.files u.id job'.toTransferJob) (hresume : job'.isResume = true)
    (hnum : job'.fileNum = job.fileNum) (hstream : job'.dataStream = job.dataStream) :
    Between u told k { s with job := some job' } := by
  refine ⟨h.1, ?_⟩
  rcases h.2 with h | ⟨f, j, h⟩
  · obtain ⟨job₀, hlive, hnum₀, hstream₀⟩ := h.job
    obtain rfl := Option.some.inj (hjob.symm.trans hlive.present)
    exact .inl ⟨⟨job', hlive.replace htakes hresume, hnum.trans hnum₀, hstream.trans hstream₀⟩,
      h.fs, h.le, h.before⟩
  · obtain ⟨job₀, hlive, hnum₀, hstream₀⟩ := h.job
    obtain rfl := Option.some.inj (hjob.symm.trans hlive.present)
    exact .inr ⟨f, j, ⟨job', hlive.replace htakes hresume, hnum.trans hnum₀, hstream ▸ hstream₀⟩,
      h.first, h.le, h.lt,
      h.mem, h.download, h.settled, h.ahead⟩

theorem Between.live (h : Between u told k s) : ∃ job, Live u s job := by
  rcases h.2 with h | ⟨f, j, h⟩
  · obtain ⟨job, hlive, -⟩ := h.job
    exact ⟨job, hlive⟩
  · obtain ⟨job, hlive, -⟩ := h.job
    exact ⟨job, hlive⟩

/-- Before entry `k`, what was left of it is what was there at the start. -/
theorem Between.leftover (h : Between u told k s) (hmem : k < u.files.length)
    (digest : FileDigest) :
    leftover u.parse s.fs (u.path k) digest = leftover u.parse u.fs₀ (u.path k) digest := by
  rcases h.2 with h | ⟨f, j, h⟩
  · rw [h.fs]
  · obtain ⟨hdown, hdig⟩ := h.ahead k le_rfl hmem
    rw [Fs.leftover, Fs.leftover, hdown, hdig]

variable (decompress) in
/-- Entry `k` is skipped. -/
theorem Between.skip (h : Between u told k s) (hr : r.fileNum = k)
    (hunion : r.union = some (.skip true)) :
    Between u (told ++ [r]) (k + 1) (s.handle decompress (.confirm r true)) := by
  refine ⟨h.1.append hr, ?_⟩
  rcases h.2 with h | ⟨f, j, h⟩
  · exact .inl (h.skip hr hunion true)
  · exact .inr ⟨f, j, (h.confirm hr true).skip hr (by simp [SendConfirm.skips, hunion])⟩

variable (decompress) in
/-- Entry `k` is to be sent from the offset on. -/
theorem Between.accept (hres : Resolves u.fs₀ u.q u.files) (hleft₀ : Prefixes u)
    (h : Between u told k s) (hmem : k < u.files.length) (hr : r.fileNum = k)
    (hunion : r.union = some (.offsetBlk (u.offset k))) :
    Progress u (told ++ [r]) k (u.offset k) (s.handle decompress (.confirm r true)) := by
  rcases h.2 with hfresh | ⟨f, j, hheld⟩
  · by_cases hpos : 0 < u.offset k
    · exact .writing k (u.offset k) (hfresh.resume hres hleft₀ h.1 hmem hr hunion hpos)
        (by simp [lost])
    · have hzero : u.offset k = 0 := by omega
      rw [hzero] at hunion
      refine .fresh (hfresh.accept_zero hr hunion true) ?_ hzero hzero
      intro hskip
      rcases skipped_append hskip with hskip | ⟨-, hskip⟩
      · exact h.1.not_skipped hskip
      · simp [SendConfirm.skips, hunion] at hskip
  · exact .held f j ((hheld.confirm hr true).accept hr) rfl

/-- The answer to the digest of entry `k`. -/
theorem Between.answer_cases (h : Between u told k s) (hmem : k < u.files.length)
    (hresume : job.isResume = true) :
    let answer := overwriteAnswer job (isWriteNeedConfirmation u.parse (u.supports && job.isResume)
  s.fs (u.path k)
      (u.digest k))
    answer = some (.skip true) ∨ answer = some (.offsetBlk (u.offset k)) ∨ answer = none ∧
      u.offset k = 0 := by
  have hleft :
    (if u.supports && job.isResume then Fs.leftover u.parse s.fs (u.path k)
      (u.digest k) else none) =
      u.left k := by
    rw [h.leftover hmem, hresume, Bool.and_true]
    rfl
  dsimp only
  rw [isWriteNeedConfirmation, hleft]
  cases hdata : u.left k with
  | some data =>
    obtain ⟨hleftover, hoffset⟩ := left_some hdata
    have hne : 0 < data.length := List.length_pos_iff.mpr (leftover_some hleftover).2.2.2
    refine .inr (.inl ?_)
    rw [hoffset]
    exact if_pos ⟨rfl, hresume, hne⟩
  | none =>
    have hzero := left_none hdata
    rw [hzero]
    cases s.fs.files (u.path k) with
    | none => exact .inr (.inl rfl)
    | some node =>
      dsimp only [overwriteAnswer]
      rw [if_neg (by simp)]
      cases job.defaultOverwriteStrategy with
      | none => exact .inr (.inr ⟨rfl, rfl⟩)
      | some overwrite =>
        cases overwrite with
        | true => exact .inr (.inl rfl)
        | false => exact .inl rfl

/-! ## The run -/

/-- The receiver once it has handled these blocks. -/
def drain (decompress : Bytes → Bytes) (blocks : List Block) (s : Receiver) : Receiver :=
  blocks.foldl (fun s b => s.handle decompress (.block b)) s

theorem drain_append (blocks : List Block) (b : Block) :
    drain decompress (blocks ++ [b]) s = (drain decompress blocks s).handle decompress
      (.block b) := by
  simp [drain]

/-- Where the entries are when `Done` was handled. -/
def Final (u : Resume) (told : List SendConfirm) (fs : FileSys) : Prop :=
  (∀ i, u.start ≤ i → i < u.files.length → Skipped told i) ∨
    ∃ f, FirstSent u told f ∧ f < u.files.length ∧
      ∀ i, u.start ≤ i → i < u.files.length → Skipped told i ∨
        fs.content (u.path i) = some (outcome u f i)

variable (decompress) in
/-- The end of the job gives the last entry its name. -/
theorem Between.final (hsep : Separated u.path u.files.length) (hres : Resolves u.fs₀ u.q u.files)
    (h : Between u told k s) (hend : u.files.length ≤ k) :
    Final u told (s.handle decompress .done).fs := by
  rcases h.2 with h | ⟨f, j, h⟩
  · exact .inl fun i hi hlt => h.before i hi (hlt.trans_le hend)
  · obtain ⟨job, hlive, rfl, -⟩ := h.job
    have hres' := hres.congr hlive.symlink
    refine .inr ⟨f, h.first, h.le.trans_lt h.mem, fun i hi hlt => ?_⟩
    rw [Receiver.handle, hlive.present]
    dsimp only
    by_cases hij : i = job.fileNum
    · subst hij
      refine .inr ?_
      rw [WriteIo.ok_renames, TransferJob.modifyTime_content hlive.takes hres' h.mem, if_pos rfl,
        h.download, Option.some_or]
    · rw [WriteIo.ok_renames, modifyTime_other hsep hlive.takes hres' h.mem hlt hij (.inl rfl)]
      exact h.settled i hi (hlt.trans_le hend) hij

/-- **The stages of a run.** Until the sender is answered, nothing but blocks is under way before
the digest, so the receiver is described by what it will be once it has handled them. -/
inductive Stage (decompress : Bytes → Bytes) (u : Resume) (t : Resumption) : Prop where
  /-- the sender turns to entry `k` -/
  | closed (k : ℕ) (blocks : List Block) (hsender : Closed u k t.sender)
    (hwire : t.wire = blocks.map .block)
      (hreceiver : Between u t.told k (drain decompress blocks t.receiver))
        (hasking : t.asking = none)
      (hanswers : t.answers = []) (hfinished : t.finished = false) (hdone : t.done = false)
  /-- the digest of entry `k` is under way -/
  | waits (k : ℕ) (blocks : List Block) (isResume : Bool) (hmem : k < u.files.length)
    (hsender : Waits u k t.sender)
      (hwire : t.wire = blocks.map .block ++ [Event.digest u.id k (u.time k)
        (u.source k).length isResume])
      (hreceiver : Between u t.told k (drain decompress blocks t.receiver))
        (hasking : t.asking = none)
      (hanswers : t.answers = []) (hfinished : t.finished = false) (hdone : t.done = false)
  /-- the user is asked about entry `k` -/
  | asks (k : ℕ) (hmem : k < u.files.length) (hsender : Waits u k t.sender) (hwire : t.wire = [])
      (hreceiver : Between u t.told k t.receiver) (hoffset : u.offset k = 0)
        (hasking : t.asking = some k)
      (hanswers : t.answers = []) (hfinished : t.finished = false) (hdone : t.done = false)
  /-- entry `k` is to be skipped, and the sender does not know it yet -/
  | skips (k : ℕ) (r : SendConfirm) (hmem : k < u.files.length) (hsender : Waits u k t.sender)
    (hwire : t.wire = [])
      (hnum : r.fileNum = k) (hunion : r.union = some (.skip true))
        (hreceiver : Between u t.told (k + 1) t.receiver)
      (hasking : t.asking = none) (hanswers : t.answers = [r]) (hfinished : t.finished = false)
        (hdone : t.done = false)
  /-- entry `k` is to be sent, and the sender does not know it yet -/
  | starts (k : ℕ) (r : SendConfirm) (hmem : k < u.files.length) (hsender : Waits u k t.sender)
    (hwire : t.wire = [])
      (hnum : r.fileNum = k) (hunion : r.union = some (.offsetBlk (u.offset k)))
        (htold : Told t.told (k + 1))
      (hreceiver : Progress u t.told k (u.offset k) t.receiver) (hasking : t.asking = none)
        (hanswers : t.answers = [r])
      (hfinished : t.finished = false) (hdone : t.done = false)
  /-- entry `k` is sent -/
  | sends (k pos : ℕ) (blocks : List Block) (hmem : k < u.files.length)
    (hsender : Sends u k pos t.sender)
      (hpos : pos ≤ (u.source k).length) (hwire : t.wire = blocks.map .block)
        (htold : Told t.told (k + 1))
      (hreceiver : Progress u t.told k pos (drain decompress blocks t.receiver))
        (hasking : t.asking = none)
      (hanswers : t.answers = []) (hfinished : t.finished = false) (hdone : t.done = false)
  /-- the sender is done -/
  | ends (k : ℕ) (blocks : List Block) (e : Event) (hend : u.files.length ≤ k)
      (hwire : t.wire = blocks.map .block ++ [e])
      (he : (∃ id k, e = .done id k) ∨ ∃ id err k, e = .error id err k)
      (hreceiver : Between u t.told k (drain decompress blocks t.receiver))
        (hasking : t.asking = none)
      (hanswers : t.answers = []) (hfinished : t.finished = true) (hdone : t.done = false)
  /-- nothing more is going to happen -/
  | over (hwire : t.wire = []) (hfinal : t.done = true → Final u t.told t.receiver.fs)
    (hasking : t.asking = none)
      (hanswers : t.answers = []) (hfinished : t.finished = true)

variable {t t' : Resumption}

/-- **Step**: the sender's turn. -/
theorem Stage.tick (hsep : Separated u.path u.files.length) (hres : Resolves u.fs₀ u.q u.files)
    (hcodec : ∀ x, decompress (compress x) = x) (h : Stage decompress u t)
    (hstep : step compress decompress u t (.tick want) = some t') : Stage decompress u t' := by
  rw [step] at hstep
  split at hstep
  · cases hstep
  next hfin =>
  obtain rfl := Option.some.inj hstep
  cases h with
  | closed k blocks hsender hwire hreceiver hasking hanswers hfinished hdone =>
    rw [hsender.fileNum]
    by_cases hlt : k < u.files.length
    · obtain ⟨job', htick, hwaits⟩ := hsender.tick_open compress want hlt
      rw [htick]
      exact .waits k blocks t.sender.isResume hlt hwaits (by rw [hwire])
        hreceiver hasking hanswers rfl hdone
    · rw [hsender.tick_end compress (by omega)]
      refine .ends k blocks _ (by omega) (by rw [hwire]) ?_ hreceiver hasking hanswers rfl hdone
      split
      · exact .inr ⟨_, _, _, rfl⟩
      · exact .inl ⟨_, _, rfl⟩
  | waits k blocks isResume hmem hsender hwire hreceiver hasking hanswers hfinished hdone =>
    rw [hsender.tick compress hmem]
    exact .waits k blocks isResume hmem hsender (by rw [hwire, List.append_nil])
      hreceiver hasking hanswers rfl hdone
  | asks k hmem hsender hwire hreceiver hoffset hasking hanswers hfinished hdone =>
    rw [hsender.tick compress hmem]
    exact .asks k hmem hsender (by rw [hwire, List.append_nil])
      hreceiver hoffset hasking hanswers rfl hdone
  | skips k r hmem hsender hwire hnum hunion hreceiver hasking hanswers hfinished hdone =>
    rw [hsender.tick compress hmem]
    exact .skips k r hmem hsender (by rw [hwire, List.append_nil])
      hnum hunion hreceiver hasking hanswers rfl hdone
  | starts k r hmem hsender hwire hnum hunion htold hreceiver hasking hanswers hfinished hdone =>
    rw [hsender.tick compress hmem]
    exact .starts k r hmem hsender (by rw [hwire, List.append_nil])
      hnum hunion htold hreceiver hasking hanswers rfl
      hdone
  | sends k pos blocks hmem hsender hpos hwire htold hreceiver hasking hanswers hfinished hdone =>
    rw [hsender.fileNum]
    rcases hsender.tick compress want hmem with
      ⟨hend, job', htick, hclosed⟩ | ⟨n, name, job', hn, hle, htick, hsends⟩
    · rw [htick]
      -- the empty block: the entry is complete at the receiver once it has handled all blocks
      obtain ⟨f, x, hwriting, hx⟩ : ∃ f x, Writing u t.told f k x
          ((drain decompress blocks t.receiver).handle decompress (.block ⟨u.id, k, [], false⟩)) ∧
            pos + 0 = x + lost u f k :=
        hreceiver.write hsep hres hmem rfl rfl (by simp [decode]) (by omega)
      have hlen : (outcome u f k).length = (u.source k).length - lost u f k := List.length_drop
      refine .closed (k + 1) (blocks ++ [⟨u.id, k, [], false⟩]) hclosed (by rw [hwire]; simp)
        ?_ hasking hanswers rfl hdone
      rw [drain_append]
      exact ⟨htold, .inr ⟨f, k, hwriting.held (by omega)⟩⟩
    · rw [htick]
      obtain ⟨f, x, hwriting, hx⟩ := hreceiver.write hsep hres hmem rfl rfl
        (TransferJob.decode_pack hcodec name true (((u.source k).drop pos).take n) u.id k) hle
      refine .sends k (pos + n) (blocks ++ [⟨u.id, k,
        (TransferJob.pack compress name true (((u.source k).drop pos).take n)).1,
        (TransferJob.pack compress name true (((u.source k).drop pos).take n)).2⟩]) hmem hsends hle
        (by rw [hwire]; simp) htold ?_ hasking hanswers rfl hdone
      rw [drain_append]
      exact .writing f x hwriting hx
  | ends k blocks e hend hwire he hreceiver hasking hanswers hfinished hdone =>
    exact absurd hfinished hfin
  | «over» hwire hfinal hasking hanswers hfinished => exact absurd hfinished hfin

/-- The receiver says that entry `k` is to be skipped. -/
theorem Stage.answer_skip (hmem : k < u.files.length) (hsender : Waits u k t.sender)
    (hwire : t.wire = []) (hreceiver : Between u t.told k t.receiver) (hasking : t.asking = none)
    (hanswers : t.answers = []) (hfinished : t.finished = false) (hdone : t.done = false)
    (hr : r.fileNum = k) (hunion : r.union = some (.skip true)) :
    Stage decompress u (t.answer decompress r) :=
  .skips k r hmem hsender hwire hr hunion (hreceiver.skip decompress hr hunion)
    hasking (by rw [answer, hanswers]; rfl) hfinished
    hdone

/-- The receiver says that entry `k` is to be sent. -/
theorem Stage.answer_accept (hres : Resolves u.fs₀ u.q u.files) (hleft₀ : Prefixes u)
    (hmem : k < u.files.length) (hsender : Waits u k t.sender) (hwire : t.wire = [])
    (hreceiver : Between u t.told k t.receiver) (hasking : t.asking = none)
    (hanswers : t.answers = []) (hfinished : t.finished = false) (hdone : t.done = false)
    (hr : r.fileNum = k) (hunion : r.union = some (.offsetBlk (u.offset k))) :
    Stage decompress u (t.answer decompress r) :=
  .starts k r hmem hsender hwire hr hunion (hreceiver.1.append hr)
    (hreceiver.accept decompress hres hleft₀ hmem hr hunion) hasking
    (by rw [answer, hanswers]; rfl) hfinished hdone

/-- The digest of entry `k` at the receiver. -/
theorem Stage.onDigest (hres : Resolves u.fs₀ u.q u.files) (hleft₀ : Prefixes u)
    (hmem : k < u.files.length) (hsender : Waits u k t.sender) (hwire : t.wire = [])
    (hreceiver : Between u t.told k t.receiver) (hasking : t.asking = none)
    (hanswers : t.answers = []) (hfinished : t.finished = false) (hdone : t.done = false) :
    Stage decompress u (t.onDigest decompress u u.id k (u.time k) (u.source k).length) := by
  obtain ⟨job, hlive⟩ := hreceiver.live
  have hentry : job.files[k]? = some (u.files.getD k ⟨[], 0, 0⟩) := by
    rw [hlive.takes.files, TransferJob.getElem?_getD hmem]
  have hjob : Takes u.q u.files u.id (job.setDigest (u.source k).length (u.time k)).toTransferJob :=
    ⟨hlive.takes.id, hlive.takes.jobType, hlive.takes.dataSource, hlive.takes.files⟩
  have hresume : (job.setDigest (u.source k).length (u.time k)).isResume = true := hlive.resume
  have hbetween := hreceiver.replace hlive.present hjob hresume rfl rfl
  have hcases := hbetween.answer_cases hmem hresume
  rw [Resumption.onDigest, hlive.present]
  dsimp only
  rw [hentry, hlive.takes.dataSource]
  dsimp only at hcases ⊢
  generalize job.setDigest (u.source k).length (u.time k) = job' at hbetween hcases ⊢
  have hpath : join u.q (u.files.getD k ⟨[], 0, 0⟩).name = u.path k := rfl
  rw [hpath, show FileDigest.mk (u.source k).length (u.time k) = u.digest k from rfl]
  rcases hcases with h | h | ⟨h, hzero⟩
  · rw [h]
    exact .answer_skip hmem hsender hwire hbetween hasking hanswers hfinished hdone rfl rfl
  · rw [h]
    exact .answer_accept hres hleft₀ hmem hsender hwire hbetween hasking hanswers hfinished
      hdone rfl rfl
  · rw [h]
    exact .asks k hmem hsender hwire hbetween hzero rfl hanswers hfinished hdone

/-- **Step**: the receiver handles a message. -/
theorem Stage.deliver (hsep : Separated u.path u.files.length) (hres : Resolves u.fs₀ u.q u.files)
    (hleft₀ : Prefixes u) (h : Stage decompress u t)
    (hstep : step compress decompress u t .deliver = some t') : Stage decompress u t' := by
  rw [step] at hstep
  cases h with
  | closed k blocks hsender hwire hreceiver hasking hanswers hfinished hdone =>
    cases blocks with
    | nil =>
      rw [hwire] at hstep
      cases hstep
    | cons b blocks =>
      rw [hwire] at hstep
      obtain rfl := Option.some.inj hstep
      exact .closed k blocks hsender rfl hreceiver hasking hanswers hfinished hdone
  | waits k blocks isResume hmem hsender hwire hreceiver hasking hanswers hfinished hdone =>
    cases blocks with
    | nil =>
      rw [hwire] at hstep
      obtain rfl := Option.some.inj hstep
      exact .onDigest hres hleft₀ hmem hsender rfl hreceiver hasking hanswers hfinished hdone
    | cons b blocks =>
      rw [hwire] at hstep
      obtain rfl := Option.some.inj hstep
      exact .waits k blocks isResume hmem hsender rfl hreceiver hasking hanswers hfinished hdone
  | asks k hmem hsender hwire =>
    rw [hwire] at hstep
    cases hstep
  | skips k r hmem hsender hwire =>
    rw [hwire] at hstep
    cases hstep
  | starts k r hmem hsender hwire =>
    rw [hwire] at hstep
    cases hstep
  | sends k pos blocks hmem hsender hpos hwire htold hreceiver hasking hanswers hfinished hdone =>
    cases blocks with
    | nil =>
      rw [hwire] at hstep
      cases hstep
    | cons b blocks =>
      rw [hwire] at hstep
      obtain rfl := Option.some.inj hstep
      exact .sends k pos blocks hmem hsender hpos rfl htold hreceiver hasking hanswers
        hfinished hdone
  | ends k blocks e hend hwire he hreceiver hasking hanswers hfinished hdone =>
    cases blocks with
    | nil =>
      rw [hwire] at hstep
      obtain rfl := Option.some.inj hstep
      rcases he with ⟨id, num, rfl⟩ | ⟨id, err, num, rfl⟩
      · exact .over rfl (fun _ => hreceiver.final decompress hsep hres hend)
          hasking hanswers hfinished
      · exact .over rfl (fun htrue => absurd htrue (by simp [onEvent, hdone]))
          hasking hanswers hfinished
    | cons b blocks =>
      rw [hwire] at hstep
      obtain rfl := Option.some.inj hstep
      exact .ends k blocks e hend rfl he hreceiver hasking hanswers hfinished hdone
  | «over» hwire =>
    rw [hwire] at hstep
    cases hstep

/-- **Step**: the user decides. -/
theorem Stage.decide (hres : Resolves u.fs₀ u.q u.files) (hleft₀ : Prefixes u)
    (h : Stage decompress u t) {overwrite remember : Bool}
    (hstep : step compress decompress u t (.decide overwrite remember) = some t') :
    Stage decompress u t' := by
  rw [step] at hstep
  split at hstep
  · cases hstep
  next fileNum hfile =>
  obtain rfl := Option.some.inj hstep
  cases h with
  | asks k hmem hsender hwire hreceiver hoffset hasking hanswers hfinished hdone =>
    obtain rfl := Option.some.inj (hfile.symm.trans hasking)
    obtain ⟨job, hlive⟩ := hreceiver.live
    rw [setConfirmOverrideFile, hlive.present]
    dsimp only
    obtain ⟨job', hjob', hbetween⟩ : ∃ job' : Job,
        (if remember then { job with defaultOverwriteStrategy := some overwrite } else job) = job' ∧
          Between u t.told fileNum { t.receiver with job := some job' } := by
      cases remember with
      | true =>
        exact ⟨_, rfl, hreceiver.replace hlive.present
          ⟨hlive.takes.id, hlive.takes.jobType, hlive.takes.dataSource, hlive.takes.files⟩
            hlive.resume rfl rfl⟩
      | false => exact ⟨_, rfl, hreceiver.replace hlive.present hlive.takes hlive.resume rfl rfl⟩
    rw [hjob']
    cases overwrite with
    | true =>
      exact .answer_accept hres hleft₀ hmem hsender hwire hbetween rfl hanswers hfinished hdone
        rfl (by rw [hoffset]; rfl)
    | false => exact .answer_skip hmem hsender hwire hbetween rfl hanswers hfinished hdone rfl rfl
  | _ => simp_all

/-- **Step**: the sender handles an answer. -/
theorem Stage.confirm (hsrc : Readable u) (hleft₀ : Prefixes u) (h : Stage decompress u t)
    (hstep : step compress decompress u t .confirm = some t') : Stage decompress u t' := by
  rw [step] at hstep
  split at hstep
  · cases hstep
  next r answers hanswer =>
  obtain rfl := Option.some.inj hstep
  cases h with
  | skips k r' hmem hsender hwire hnum hunion hreceiver hasking hanswers hfinished hdone =>
    obtain ⟨rfl, rfl⟩ := List.cons.inj (hanswer.symm.trans hanswers)
    rw [if_neg (by simp [hfinished])]
    exact .closed (k + 1) [] (hsender.confirm_skip _ hnum hunion)
      hwire hreceiver hasking rfl hfinished hdone
  | starts k r' hmem hsender hwire hnum hunion htold hreceiver hasking hanswers hfinished hdone =>
    obtain ⟨rfl, rfl⟩ := List.cons.inj (hanswer.symm.trans hanswers)
    rw [if_neg (by simp [hfinished]), hsender.fileNum]
    exact .sends k (u.offset k) [] hmem (hsender.confirm_offset hmem hsrc hnum hunion)
      (hleft₀.offset_le hmem) hwire
      htold hreceiver hasking rfl hfinished hdone
  | _ => simp_all

theorem Stage.step (hsrc : Readable u) (hsep : Separated u.path u.files.length)
    (hres : Resolves u.fs₀ u.q u.files) (hleft₀ : Prefixes u)
    (hcodec : ∀ x, decompress (compress x) = x) {a : ResumeAct} (h : Stage decompress u t)
    (hstep : step compress decompress u t a = some t') : Stage decompress u t' := by
  cases a with
  | tick want => exact h.tick hsep hres hcodec hstep
  | deliver => exact h.deliver hsep hres hleft₀ hstep
  | decide overwrite remember => exact h.decide hres hleft₀ hstep
  | confirm => exact h.confirm hsrc hleft₀ hstep

/-- Every entry that was not skipped is at its destination with the bytes of its source. -/
def Arrived (u : Resume) (t : Resumption) : Prop :=
  ∀ k, u.start ≤ k → k < u.files.length → ¬ Skipped t.told k →
    t.receiver.fs.content (u.path k) = some (u.source k)

/-- An entry is resumed only if all entries before it were skipped. -/
def OnlyFirst (u : Resume) (told : List SendConfirm) : Prop :=
  ∀ k, u.start ≤ k → k < u.files.length → ¬ Skipped told k → 0 < u.offset k →
    ∀ j, u.start ≤ j → j < k → Skipped told j

theorem Final.arrived_iff (hleft₀ : Prefixes u) (h : Final u t.told t.receiver.fs) :
    Arrived u t ↔ OnlyFirst u t.told := by
  rcases h with h | ⟨f, hfirst, hmem, h⟩
  · exact ⟨fun _ k hk hlt hsent => absurd (h k hk hlt) hsent,
      fun _ k hk hlt hsent => absurd (h k hk hlt) hsent⟩
  constructor
  · intro harrived k hk hlt hsent hpos
    by_cases hkf : k = f
    · subst hkf
      exact hfirst.before
    · -- only the end of the entry is there
      have hcontent := (h k hk hlt).resolve_left hsent
      rw [harrived k hk hlt hsent, outcome, lost, if_neg hkf] at hcontent
      have hlen := congrArg List.length (Option.some.inj hcontent)
      have hle := hleft₀.offset_le hlt
      rw [List.length_drop] at hlen
      omega
  · intro honly k hk hlt hsent
    have hzero : lost u f k = 0 := by
      by_contra hne
      have hkf : k ≠ f := by
        rintro rfl
        exact hne (if_pos rfl)
      rw [lost, if_neg hkf] at hne
      exact hfirst.sent (honly k hk hlt hsent (Nat.pos_of_ne_zero hne)
        f hfirst.le (hfirst.lt_of_ne hk hsent hkf))
    rw [(h k hk hlt).resolve_left hsent, outcome, hzero, List.drop_zero]

/-- **Resuming a transfer.** A sender and a receiver resume a transfer of entries that do not get in
each other's way, and `Done` was handled. Then every entry that was not skipped has arrived if and
only if no entry but the first one that was not skipped was resumed at an offset. The job of the
receiver stays at an entry until the first block of another one comes, so it does not act on its own
answer about a later entry, and the sender leaves out what the receiver then does not have. -/
theorem resume_iff {compress decompress : Bytes → Bytes} (hcodec : ∀ x, decompress (compress x) = x)
    {u : Resume}
    {isResume : Bool} {strategy : Option Bool} {wj : TransferJob} {acts : List ResumeAct}
    {t : Resumption} (hsrc : Readable u) (hsep : Separate u.files) (hleft₀ : Prefixes u)
    (haccept : (TransferJob.newWrite u.id .generic (.filePath u.q) u.start true).setFiles u.fs₀
    u.files = .ok wj)
    (hrun : exec (Resumption.step compress decompress u) (begin u isResume strategy wj)
    acts = some t) (hdone : t.done = true) : Arrived u t ↔ OnlyFirst u t.told := by
  obtain ⟨-, hwj⟩ := TransferJob.setFiles_ok haccept
  have hres := TransferJob.setFiles_resolves rfl haccept
  have hseparated := TransferJob.separated_entryPath (q := u.q) haccept hsep
  have hstart : Stage decompress u (begin u isResume strategy wj) := by
    refine .closed u.start [] ⟨⟨rfl, rfl, rfl, rfl, rfl⟩, rfl, rfl, rfl, rfl⟩
      rfl ⟨nofun, .inl ⟨?_, rfl, le_rfl, ?_⟩⟩
      rfl rfl rfl rfl
    · rw [hwj]
      exact ⟨_, ⟨rfl, ⟨rfl, rfl, rfl, rfl⟩, rfl, rfl⟩, rfl, rfl⟩
    · intro i hi hlt
      omega
  have hend : Stage decompress u t := exec_invariant
    (fun _ _ _ h hstep => Stage.step hsrc hseparated hres hleft₀ hcodec h hstep) hstart hrun
  cases hend with
  | «over» hwire hfinal hasking hanswers hfinished => exact (hfinal hdone).arrived_iff hleft₀
  | _ => simp_all

/-! ### Two files -/

/-- Two files are sent to a directory with these files. -/
def twoFiles (left : List (String × Bytes)) : Resume :=
  ⟨"s".toList, "d".toList, TransferJob.entriesOf ["a", "b"], 7, 0,
    TransferJob.sourceOf [("a", [1, 2, 3]), ("b", [4, 5, 6])], Transfer.destinationOf left, fun _ =>
      5, true,
    fun json => if json = FileDigest.json ⟨3, 5⟩ then some ⟨3, 5⟩ else none⟩

/-- Both files are asked about and sent, each in one block. -/
def sendBoth : List ResumeAct :=
  [.tick id, .deliver, .confirm, .tick id, .tick id, .tick id, .deliver, .deliver, .deliver,
    .confirm, .tick id,
    .tick id, .tick id, .deliver, .deliver, .deliver]

/-- The receiver of the two files. -/
def twoReceiver : TransferJob :=
  { TransferJob.receiverOf ["a", "b"] with enableOverwriteDetection := true }

/-- An earlier transfer left two bytes of the first file. -/
def leftFirst : Resume := twoFiles [("a.download", [1, 2]), ("a.digest", FileDigest.json ⟨3, 5⟩)]

/-- An earlier transfer left two bytes of the second file. -/
def leftSecond : Resume := twoFiles [("b.download", [4, 5]), ("b.digest", FileDigest.json ⟨3, 5⟩)]

/-- The first file is resumed after two of its bytes, and both arrive. -/
theorem resume_iff_first :
    ∃ t, exec (Resumption.step TransferJob.stored TransferJob.stored leftFirst)
      (begin leftFirst true none twoReceiver)
        sendBoth = some t ∧
      t.done = true ∧ t.told.map SendConfirm.union = [some (.offsetBlk 2), some (.offsetBlk 0)] ∧
      Arrived leftFirst t := by
  have hrun : (exec (Resumption.step TransferJob.stored TransferJob.stored leftFirst)
      (begin leftFirst true none twoReceiver) sendBoth).any
        (fun t =>
          decide (t.done = true ∧ t.told.map SendConfirm.union =
            [some (.offsetBlk 2), some (.offsetBlk 0)])) =
          true := by
    decide +kernel
  obtain ⟨t, ht, hp⟩ := (Option.any_eq_true _ _).mp hrun
  obtain ⟨hdone, htold⟩ := of_decide_eq_true hp
  have hleft : leftFirst.left 0 = some [1, 2] ∧ leftFirst.left 1 = none := by decide +kernel
  have hsource : leftFirst.source 0 = [1, 2, 3] := by decide +kernel
  have hreadable : Readable leftFirst :=
    ⟨by decide +kernel, by rw [Resolves]; decide +kernel, by decide +kernel⟩
  have hleft₀ : Prefixes leftFirst := by
    intro k hk data hdata
    match k, hk with
    | 0, _ =>
      rw [hleft.1] at hdata
      obtain rfl := Option.some.inj hdata
      rw [hsource]
      decide
    | 1, _ =>
      rw [hleft.2] at hdata
      cases hdata
  have haccept : (TransferJob.newWrite 7 .generic (.filePath "d".toList) 0 true).setFiles
    leftFirst.fs₀ leftFirst.files =
      .ok twoReceiver := by
    decide +kernel
  refine ⟨t, ht, hdone, htold,
    (resume_iff (fun _ => rfl) hreadable (by decide +kernel) hleft₀ haccept ht hdone).mpr ?_⟩
  intro k _ hk _ hpos j _ hjk
  match k, hk with
  | 0, _ => cases hjk
  | 1, _ =>
    rw [left_none hleft.2] at hpos
    cases hpos

/-- The second file is resumed: the receiver creates it anew, and only its last byte arrives. -/
theorem second_file_truncated :
    Readable leftSecond ∧ Separate leftSecond.files ∧ Prefixes leftSecond ∧
      (TransferJob.newWrite 7 .generic (.filePath "d".toList) 0 true).setFiles leftSecond.fs₀
        leftSecond.files =
        .ok twoReceiver ∧
      ∃ t, exec (Resumption.step TransferJob.stored TransferJob.stored leftSecond)
          (begin leftSecond true none twoReceiver) sendBoth = some t ∧
        t.done = true ∧ ¬ Skipped t.told 1 ∧ t.receiver.fs.content (leftSecond.path 1) = some [6] ∧
        ¬ Arrived leftSecond t := by
  have hrun : (exec (Resumption.step TransferJob.stored TransferJob.stored leftSecond)
      (begin leftSecond true none twoReceiver) sendBoth).any
        (fun t => decide (t.done = true ∧ (∀ r ∈ t.told, r.skips = false) ∧
          t.receiver.fs.content (leftSecond.path 1) = some [6])) = true := by
    decide +kernel
  obtain ⟨t, ht, hp⟩ := (Option.any_eq_true _ _).mp hrun
  obtain ⟨hdone, htold, hcontent⟩ := of_decide_eq_true hp
  have hleft : leftSecond.left 0 = none ∧ leftSecond.left 1 = some [4, 5] := by decide +kernel
  have hsource : leftSecond.source 1 = [4, 5, 6] := by decide +kernel
  have hsent : ¬ Skipped t.told 1 := by
    rintro ⟨r, hr, -, hskip⟩
    rw [htold r hr] at hskip
    cases hskip
  refine ⟨⟨by decide +kernel, by rw [Resolves]; decide +kernel, by decide +kernel⟩, by
    decide +kernel, ?_,
    by decide +kernel, t, ht, hdone, hsent, hcontent, ?_⟩
  · intro k hk data hdata
    match k, hk with
    | 0, _ =>
      rw [hleft.1] at hdata
      cases hdata
    | 1, _ =>
      rw [hleft.2] at hdata
      obtain rfl := Option.some.inj hdata
      rw [hsource]
      decide
  · intro harrived
    have heq := harrived 1 (by decide) (by decide) hsent
    rw [hcontent, hsource] at heq
    cases heq

end Resumption
end Fs
end BgDesk
