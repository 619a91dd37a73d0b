import BgDesk.FileJob

/-!
# Runs of a job that reads files

One job under `handle_read_jobs` and the confirmations of the peer, in any order and with
anything the disk may answer. A record of what the job has sent, and of the confirmations that
were for the file it was at, is kept beside it.

* `Watched.overwrite_safety` — with overwrite detection no file is sent that the peer has not
  asked for, and the peer is asked once about each;
* `Watched.terminates_complete` — a job ends with its last file, unless a file cannot be opened
  while the job is the first.
-/

namespace BgDesk
namespace Fs

/-- What happens to a job that reads: a message is sent while it is at a file, or a confirmation
for the file it is at is applied. -/
inductive Happened where
  | sent (file : ℕ) (event : Event)
  | applied (r : SendConfirm)
  deriving DecidableEq

/-- A job, whether it has left its vector, and what has happened to it. -/
structure Watched where
  job : Job
  finished : Bool
  trace : List Happened
  deriving DecidableEq

/-- The actions: a run of `handle_read_jobs`, in which the job is the first of the vector or
not, and a confirmation. -/
inductive ReadAct where
  | tick (reads : Bool) (disk : Disk)
  | confirm (r : SendConfirm) (disk : Disk)

namespace Watched

/-- `init_jobs`. -/
def init (w : Watched) (disk : Disk) : Watched :=
  let opened := w.job.init disk
  ⟨opened.1, false, w.trace ++ opened.2.map (.sent w.job.fileNum)⟩

section Read

variable (compress : Bytes → Bytes)

/-- The rest of `handle_read_jobs`, where the job is the first. -/
def read (w : Watched) (disk : Disk) : Watched :=
  let read := w.job.readOnce compress disk
  ⟨read.1, read.2.2, w.trace ++ read.2.1.map (.sent w.job.fileNum)⟩

/-- A confirmation. -/
def confirm (w : Watched) (r : SendConfirm) (disk : Disk) : Watched :=
  { w with job := w.job.confirm disk r
           trace := if w.job.fileNum = r.fileNum then w.trace ++ [Happened.applied r] else w.trace }

/-- A run of the driver. -/
def tick (w : Watched) (reads : Bool) (disk : Disk) : Watched :=
  if reads then (w.init disk).read compress disk else w.init disk

/-- One action. -/
def step (w : Watched) : ReadAct → Option Watched
  | .tick reads disk => if w.finished then none else some (w.tick compress reads disk)
  | .confirm r disk => if w.finished then none else some (w.confirm r disk)

/-- The messages of a record. -/
def messages (trace : List Happened) : List Event :=
  trace.filterMap fun
    | .sent _ event => some event
    | .applied _ => none

/-- The record adds nothing to what `handle_read_jobs` does. -/
theorem tick_eq (w : Watched) (reads : Bool) (disk : Disk) :
    let ticked := w.job.tick compress reads disk
    (w.tick compress reads disk).job = ticked.1 ∧
      (w.tick compress reads disk).finished = ticked.2.2 ∧
      messages (w.tick compress reads disk).trace = messages w.trace ++ ticked.2.1 := by
  have hmessages : ∀ (trace : List Happened) (file : ℕ) (events : List Event),
      messages (trace ++ events.map (.sent file)) = messages trace ++ events := by
    intro trace file events
    simp [messages, List.filterMap_append, List.filterMap_map]
  cases reads with
  | false => exact ⟨rfl, rfl, hmessages _ _ _⟩
  | true =>
    refine ⟨rfl, rfl, ?_⟩
    show messages ((w.trace ++ _) ++ _) = _
    rw [hmessages, hmessages, List.append_assoc]
    rfl

end Read

/-! ## What stays true of a job -/

/-- The parts of a job that never change. -/
structure Same (first job : Job) : Prop where
  id : job.id = first.id
  jobType : job.jobType = first.jobType
  dataSource : job.dataSource = first.dataSource
  files : job.files = first.files
  enableOverwriteDetection : job.enableOverwriteDetection = first.enableOverwriteDetection

/-- The peer wants file `k`. -/
def Accepted (trace : List Happened) (k : ℕ) : Prop :=
  ∃ r, Happened.applied r ∈ trace ∧ r.fileNum = k ∧ r.accepts

/-- File `k` is done with: its empty block was sent, the peer skipped it, or it was reported in
an error and left. -/
def Ended (id : ℤ) (trace : List Happened) (k : ℕ) : Prop :=
  .sent k (.block ⟨id, k, [], false⟩) ∈ trace ∨
  (∃ r, Happened.applied r ∈ trace ∧ r.fileNum = k ∧ r.skips) ∨
  ∃ err, .sent k (.error id err (k + 1)) ∈ trace

/-- What overwrite detection promises of a message, after what has happened before: a block is
one of a file the peer has accepted and has not skipped, and no digest is sent twice. -/
def Lawful (before : List Happened) : Happened → Prop
  | .sent _ (.block b) =>
    Accepted before b.fileNum ∧ ∀ r, .applied r ∈ before → r.fileNum = b.fileNum → r.skips = false
  | .sent _ (.digest _ k _ _ _) =>
    ∀ file id lastModified fileSize isResume,
      .sent file (.digest id k lastModified fileSize isResume) ∉ before
  | _ => True

/-- **The invariant.** -/
structure Watching (first : Job) (w : Watched) : Prop where
  same : Same first w.job
  start_le : first.fileNum ≤ w.job.fileNum
  confirmed : w.job.fileConfirmed = true → Accepted w.trace w.job.fileNum
  asked : ∀ file id k lastModified fileSize isResume,
    .sent file (.digest id k lastModified fileSize isResume) ∈ w.trace →
      k ≤ w.job.fileNum ∧ k < first.files.length ∧
        (k = w.job.fileNum → w.job.fileIsWaiting = true ∧ w.job.dataStream ≠ none)
  skipped : ∀ r, .applied r ∈ w.trace → r.skips → r.fileNum < w.job.fileNum
  ended : ∀ k, first.fileNum ≤ k → k < w.job.fileNum → Ended first.id w.trace k
  fileSkipped : w.job.fileSkipped = true → 0 < w.job.fileNum
  lawful : first.jobType = .generic → first.enableOverwriteDetection = true → Each Lawful w.trace

variable {first : Job} {w : Watched}

theorem Accepted.append {trace : List Happened} {k : ℕ} (h : Accepted trace k)
    (more : List Happened) : Accepted (trace ++ more) k := by
  obtain ⟨r, hr, hk⟩ := h
  exact ⟨r, List.mem_append_left _ hr, hk⟩

variable {id : ℤ} {job : Job} {p : PathName} {compress : Bytes → Bytes} {disk : Disk}

theorem Ended.append {trace : List Happened} {k : ℕ} (h : Ended id trace k) (more : List Happened) :
    Ended id (trace ++ more) k := by
  obtain h | ⟨r, hr, hk⟩ | ⟨err, h⟩ := h
  · exact .inl (List.mem_append_left _ h)
  · exact .inr (.inl ⟨r, List.mem_append_left _ hr, hk⟩)
  · exact .inr (.inr ⟨err, List.mem_append_left _ h⟩)

theorem Same.trans {a b c : Job} (hab : Same a b) (hbc : Same b c) : Same a c :=
  ⟨hbc.id.trans hab.id, hbc.jobType.trans hab.jobType, hbc.dataSource.trans hab.dataSource,
    hbc.files.trans hab.files, hbc.enableOverwriteDetection.trans hab.enableOverwriteDetection⟩

/-- Whether the job has left its vector does not matter. -/
theorem Watching.finish (h : Watching first w) (finished : Bool) :
    Watching first { w with finished := finished } :=
  ⟨h.same, h.start_le, h.confirmed, h.asked, h.skipped, h.ended, h.fileSkipped, h.lawful⟩

/-- The job changes and stays at its file. -/
theorem Watching.stay (h : Watching first w) (hsame : Same w.job job)
    (hnum : job.fileNum = w.job.fileNum) (hskipped : job.fileSkipped = true →
    w.job.fileSkipped = true)
    (hconfirmed : job.fileConfirmed = true → Accepted w.trace w.job.fileNum)
    (hasked : w.job.fileNum < first.files.length → w.job.fileIsWaiting = true →
    w.job.dataStream ≠ none →
      job.fileIsWaiting = true ∧ job.dataStream ≠ none) : Watching first { w with job := job } := by
  refine ⟨h.same.trans hsame, ?_, ?_, ?_, ?_, ?_, ?_, h.lawful⟩
  · rw [hnum]
    exact h.start_le
  · rw [hnum]
    exact hconfirmed
  · intro file id k lastModified fileSize isResume hmem
    obtain ⟨hle, hlt, hwait⟩ := h.asked _ _ _ _ _ _ hmem
    rw [hnum]
    refine ⟨hle, hlt, fun hk => ?_⟩
    obtain ⟨hwaiting, hstream⟩ := hwait hk
    exact hasked (hk ▸ hlt) hwaiting hstream
  · rw [hnum]
    exact h.skipped
  · rw [hnum]
    exact h.ended
  · rw [hnum]
    exact fun hjob => h.fileSkipped (hskipped hjob)

/-- Something is recorded and the job stays as it is. -/
theorem Watching.record (h : Watching first w) {x : Happened}
    (hlawful : first.jobType = .generic → first.enableOverwriteDetection = true → Lawful w.trace x)
    (hdigest : ∀ file id k lastModified fileSize isResume,
      x = .sent file (.digest id k lastModified fileSize isResume) →
        k = w.job.fileNum ∧ k < first.files.length ∧ w.job.fileIsWaiting = true ∧
          w.job.dataStream ≠ none)
    (hskip : ∀ r, x = .applied r → r.skips → r.fileNum < w.job.fileNum) :
    Watching first { w with trace := w.trace ++ [x] } := by
  refine ⟨h.same, h.start_le, fun hc => (h.confirmed hc).append _, ?_, ?_, ?_, h.fileSkipped, ?_⟩
  · intro file id k lastModified fileSize isResume hmem
    rcases List.mem_append.mp hmem with hmem | hmem
    · exact h.asked _ _ _ _ _ _ hmem
    · obtain ⟨rfl, hlt, hwait⟩ := hdigest _ _ _ _ _ _ (List.mem_singleton.mp hmem).symm
      exact ⟨le_rfl, hlt, fun _ => hwait⟩
  · intro r hmem hr
    rcases List.mem_append.mp hmem with hmem | hmem
    · exact h.skipped r hmem hr
    · exact hskip r (List.mem_singleton.mp hmem).symm hr
  · exact fun k hk hlt => (h.ended k hk hlt).append _
  · intro hgeneric hdetect
    exact (h.lawful hgeneric hdetect).append (each_singleton
      (by simpa using hlawful hgeneric hdetect))

/-- An error or the end of the job is recorded. -/
theorem Watching.record_plain (h : Watching first w) {file : ℕ} {event : Event}
    (hblock : ∀ b, event ≠ .block b) (hdigest : ∀ id k lastModified fileSize isResume,
      event ≠ .digest id k lastModified fileSize isResume) :
    Watching first { w with trace := w.trace ++ [Happened.sent file event] } := by
  refine h.record ?_ ?_ nofun
  · intro _ _
    cases event with
    | digest id k lastModified fileSize isResume => exact absurd rfl (hdigest _ _ _ _ _)
    | block b => exact absurd rfl (hblock b)
    | error id err k => trivial
    | done id k => trivial
  · rintro _ id k lastModified fileSize isResume heq
    exact absurd (Happened.sent.inj heq).2 (hdigest _ _ _ _ _)

/-- A block of the file the job is at is recorded. -/
theorem Watching.record_block (h : Watching first w) (hwait : w.job.unconfirmed = false)
    (data : Bytes) (compressed : Bool) : Watching first { w with trace := w.trace ++
      [.sent w.job.fileNum (.block ⟨w.job.id, w.job.fileNum, data, compressed⟩)] } := by
  refine h.record ?_ nofun nofun
  intro hgeneric hdetect
  refine ⟨h.confirmed ?_, ?_⟩
  · simpa [Job.unconfirmed, h.same.jobType, hgeneric, h.same.enableOverwriteDetection,
      hdetect] using hwait
  · rintro r hr hnum
    by_contra hskips
    exact (h.skipped r hr (by simpa using hskips)).ne hnum

/-- The job goes on to the next file. -/
theorem Watching.advance (h : Watching first w) (hsame : Same w.job job)
    (hnum : job.fileNum = w.job.fileNum + 1) (hconfirmed : job.fileConfirmed = false)
    (hend : Ended first.id w.trace w.job.fileNum) : Watching first { w with job := job } := by
  refine ⟨h.same.trans hsame, ?_, ?_, ?_, ?_, ?_, ?_, h.lawful⟩
  · rw [hnum]
    exact h.start_le.trans (Nat.le_succ _)
  · rw [hconfirmed]
    exact nofun
  · intro file id k lastModified fileSize isResume hmem
    obtain ⟨hle, hlt, -⟩ := h.asked _ _ _ _ _ _ hmem
    rw [hnum]
    exact ⟨hle.trans (Nat.le_succ _), hlt, fun hk => absurd hk (Nat.lt_succ_of_le hle).ne⟩
  · intro r hr hskips
    rw [hnum]
    exact (h.skipped r hr hskips).trans (Nat.lt_succ_self _)
  · intro k hk hlt
    rw [hnum] at hlt
    rcases Nat.lt_succ_iff_lt_or_eq.mp hlt with hlt | rfl
    · exact h.ended k hk hlt
    · exact hend
  · intro _
    rw [hnum]
    exact Nat.succ_pos _

/-- The job goes on to the next file because the peer skips this one. -/
theorem Watching.skip (h : Watching first w) {r : SendConfirm} (hr : r.fileNum = w.job.fileNum)
    (hskips : r.skips) : Watching
      first { w with job := w.job.setFileSkipped, trace := w.trace ++ [Happened.applied r] } := by
  refine ⟨h.same.trans ⟨rfl, rfl, rfl, rfl, rfl⟩, h.start_le.trans (Nat.le_succ _), nofun,
    ?_, ?_, ?_,
    fun _ => Nat.succ_pos _, ?_⟩
  · intro file id k lastModified fileSize isResume hmem
    obtain ⟨hle, hlt, -⟩ := h.asked _ _ _ _ _ _ (by simpa using hmem)
    exact ⟨hle.trans (Nat.le_succ _), hlt, fun hk => absurd hk (Nat.lt_succ_of_le hle).ne⟩
  · intro r' hmem hskips'
    rcases List.mem_append.mp hmem with hmem | hmem
    · exact (h.skipped r' hmem hskips').trans (Nat.lt_succ_self _)
    · obtain rfl := Happened.applied.inj (List.mem_singleton.mp hmem)
      rw [hr]
      exact Nat.lt_succ_self _
  · intro k hk hlt
    rcases Nat.lt_succ_iff_lt_or_eq.mp hlt with hlt | rfl
    · exact (h.ended k hk hlt).append _
    · exact .inr (.inl ⟨r, by simp, hr, hskips⟩)
  · exact fun hgeneric hdetect => (h.lawful hgeneric hdetect).append (each_singleton trivial)

/-! ## The actions -/

theorem same_opened (job : Job) (p : PathName) (entry : FileEntry) :
    Same job (job.opened p entry) := by
  rw [Job.opened]
  split <;> exact ⟨rfl, rfl, rfl, rfl, rfl⟩

theorem opened_fileSkipped (job : Job) (p : PathName) (entry : FileEntry) :
    (job.opened p entry).fileSkipped = job.fileSkipped := by
  rw [Job.opened]
  split <;> rfl

theorem opened_dataStream (job : Job) (p : PathName) (entry : FileEntry) :
    (job.opened p entry).dataStream ≠ none := by
  rw [Job.opened]
  split
  · simp
  · next hstream => exact hstream

/-- The file is opened. -/
theorem Watching.opened (h : Watching first w) (p : PathName) (entry : FileEntry) :
    Watching first { w with job := w.job.opened p entry } := by
  refine h.stay (same_opened _ _ _) (Job.opened_fileNum _ _ _)
    (by rw [opened_fileSkipped]; exact id) ?_ ?_
  · intro hconfirmed
    rw [Job.opened] at hconfirmed
    split at hconfirmed
    · cases hconfirmed
    · exact h.confirmed hconfirmed
  · intro _ hwait hstream
    rw [Job.opened, if_neg hstream]
    exact ⟨hwait, hstream⟩

theorem Watching.init (hp : first.dataSource = .filePath p) (h : Watching first w) (disk : Disk) :
    Watching first (w.init disk) := by
  have hinit := Job.init_spec (h.same.dataSource.trans hp) disk
  rw [Watched.init]
  generalize w.job.init disk = r at hinit
  refine Watching.finish (w := ⟨_, w.finished, _⟩) ?_ false
  cases hinit with
  | ended hend =>
    rw [List.map_nil, List.append_nil]
    refine h.stay ⟨rfl, rfl, rfl, rfl, rfl⟩ rfl id h.confirmed fun hlt => ?_
    rw [h.same.files] at hend
    exact absurd hlt (Nat.not_lt.mpr hend)
  | unopened hlt hstream hopen =>
    have hrec : Watching first { w with trace := w.trace ++
        [.sent w.job.fileNum (.error w.job.id "open" (w.job.fileNum + 1))] } := h.record_plain
          (by rintro _ ⟨⟩) (by rintro _ _ _ _ _ ⟨⟩)
    refine hrec.advance ⟨rfl, rfl, rfl, rfl, rfl⟩ rfl rfl (.inr (.inr ⟨"open", ?_⟩))
    simp [h.same.id]
  | ready entry hentry hopen hneeds =>
    rw [List.map_nil, List.append_nil]
    exact h.opened p entry
  | unasked entry hentry hopen hneeds err hdigest =>
    exact (h.opened p entry).record_plain (by rintro _ ⟨⟩) (by rintro _ _ _ _ _ ⟨⟩)
  | asked entry hentry hopen hneeds lastModified fileSize hdigest =>
    -- the file has not been asked about: else the job would wait
    have hnew : ∀ file id lastModified fileSize isResume,
        .sent file (.digest id w.job.fileNum lastModified fileSize isResume) ∉ w.trace := by
      intro file id lastModified fileSize isResume hmem
      obtain ⟨-, -, hwait⟩ := h.asked _ _ _ _ _ _ hmem
      obtain ⟨hwait, hstream⟩ := hwait rfl
      rw [Job.opened, if_neg hstream] at hneeds
      simp [Job.needsDigest, hwait] at hneeds
    have hwaits :
      Watching first { w with job := { w.job.opened p entry with fileIsWaiting := true } } :=
      (h.opened p entry).stay ⟨rfl, rfl, rfl, rfl, rfl⟩ rfl id (h.opened p entry).confirmed
        fun _ _ hstream => ⟨rfl, hstream⟩
    refine hwaits.record (fun _ _ => hnew) ?_ (by rintro _ ⟨⟩)
    rintro _ _ _ _ _ _ ⟨⟩
    refine ⟨(Job.opened_fileNum _ _ _).symm, ?_, rfl, opened_dataStream _ _ _⟩
    rw [← h.same.files]
    exact (List.getElem?_eq_some_iff.mp hentry).1

/-- A job that has nothing to read ends or waits. -/
theorem Watching.complete (h : Watching first w) :
    Watching first { w with trace := w.trace ++ w.job.complete.1.map (.sent w.job.fileNum) } := by
  rw [Job.complete]
  split
  · split
    · exact h.record_plain nofun nofun
    · exact h.record_plain nofun nofun
  · rw [List.map_nil, List.append_nil]
    exact h

theorem Watching.read (hp : first.dataSource = .filePath p) (h : Watching first w) (disk : Disk) :
    Watching first (w.read compress disk) := by
  have hread := Job.readOnce_spec compress (h.same.dataSource.trans hp) disk
  rw [Watched.read]
  generalize w.job.readOnce compress disk = r at hread
  refine Watching.finish (w := ⟨_, w.finished, _⟩) ?_ _
  cases hread with
  | waiting hwait => exact h.complete
  | ended hwait hend =>
    refine h.complete.stay ⟨rfl, rfl, rfl, rfl, rfl⟩ rfl id h.complete.confirmed fun hlt => ?_
    rw [h.same.files] at hend
    exact absurd hlt (Nat.not_lt.mpr hend)
  | closed hwait hlt hstream => exact h.record_plain nofun nofun
  | failed hwait hlt hstream =>
    have hrec : Watching first { w with trace := w.trace ++
        [.sent w.job.fileNum (.error w.job.id "read" (w.job.fileNum + 1))] } := h.record_plain
          nofun nofun
    refine hrec.advance ⟨rfl, rfl, rfl, rfl, rfl⟩ rfl rfl (.inr (.inr ⟨"read", ?_⟩))
    simp [h.same.id]
  | fileEnd hwait hlt hstream =>
    refine (h.record_block hwait [] false).advance ⟨rfl, rfl, rfl, rfl, rfl⟩ rfl rfl (.inl ?_)
    simp [h.same.id]
  | block hwait hlt stream stream' hstream finished sent data compressed =>
    have hrec := h.record_block hwait data compressed
    exact hrec.stay ⟨rfl, rfl, rfl, rfl, rfl⟩ rfl id hrec.confirmed
      fun _ hwaiting _ => ⟨hwaiting, Option.some_ne_none _⟩

/-- A confirmation that accepts the file the job is at. -/
theorem Watching.accept (h : Watching first w) {r : SendConfirm} (hr : r.fileNum = w.job.fileNum)
    (haccepts : r.accepts) {job : Job} (hsame : Same w.job job) (hnum : job.fileNum = w.job.fileNum)
    (hskipped : job.fileSkipped = false)
    (hasked : w.job.fileIsWaiting = true → w.job.dataStream ≠ none →
      job.fileIsWaiting = true ∧ job.dataStream ≠ none) :
    Watching first { w with job := job, trace := w.trace ++ [Happened.applied r] } := by
  have hrec : Watching first { w with trace := w.trace ++ [Happened.applied r] } := by
    refine h.record (fun _ _ => trivial) nofun ?_
    rintro _ ⟨⟩ hskips
    simp [SendConfirm.skips] at hskips
    simp [SendConfirm.accepts, hskips] at haccepts
  refine hrec.stay hsame hnum (by simp [hskipped]) (fun _ => ⟨r, by simp, hr, haccepts⟩) fun _ =>
    hasked

theorem Watching.confirm (h : Watching first w) (r : SendConfirm) (disk : Disk) :
    Watching first (w.confirm r disk) := by
  rw [Watched.confirm, Job.confirm]
  by_cases hr : w.job.fileNum = r.fileNum
  · rw [if_pos hr, if_neg (not_not.mpr hr)]
    cases hunion : r.union with
    | none =>
      refine h.record (fun _ _ => trivial) nofun ?_
      rintro _ ⟨⟩ hskips
      simp [SendConfirm.skips, hunion] at hskips
    | some union =>
      cases union with
      | skip s =>
        cases s with
        | true => exact h.skip hr.symm (by simp [SendConfirm.skips, hunion])
        | false =>
          exact h.accept hr.symm (by simp [SendConfirm.accepts, hunion])
            ⟨rfl, rfl, rfl, rfl, rfl⟩ rfl rfl
            fun hwaiting hstream => ⟨hwaiting, hstream⟩
      | offsetBlk offset =>
        have haccepts : r.accepts := by simp [SendConfirm.accepts, hunion]
        have hplain : Watching first
            { w with
              job := w.job.setFileConfirmed true, trace := w.trace ++ [Happened.applied r] } :=
          h.accept hr.symm haccepts ⟨rfl, rfl, rfl, rfl, rfl⟩ rfl rfl
            fun hwaiting hstream => ⟨hwaiting, hstream⟩
        dsimp only
        split
        · obtain hseek | ⟨path, hseek⟩ :=
            (w.job.setFileConfirmed true).setStreamOffset_cases disk.fs
            disk.canOpen r.fileNum offset
          · rw [hseek]
            exact hplain
          · rw [hseek]
            exact h.accept hr.symm haccepts ⟨rfl, rfl, rfl, rfl, rfl⟩ rfl rfl
              fun hwaiting _ => ⟨hwaiting, Option.some_ne_none _⟩
        · exact hplain
  · rw [if_neg hr, if_pos hr]
    exact h

theorem Watching.tick (hp : first.dataSource = .filePath p) (h : Watching first w) (reads : Bool)
    (disk : Disk) : Watching first (w.tick compress reads disk) := by
  rw [Watched.tick]
  split
  · exact (h.init hp disk).read hp disk
  · exact h.init hp disk

theorem Watching.step (hp : first.dataSource = .filePath p) {w' : Watched} {a : ReadAct}
    (h : Watching first w) (hs : w.step compress a = some w') : Watching first w' := by
  cases a with
  | tick reads disk =>
    rw [Watched.step] at hs
    split at hs
    · cases hs
    · obtain rfl := Option.some.inj hs
      exact h.tick hp reads disk
  | confirm r disk =>
    rw [Watched.step] at hs
    split at hs
    · cases hs
    · obtain rfl := Option.some.inj hs
      exact h.confirm r disk

/-- A job before anything has happened to it. -/
def start (job : TransferJob) : Watched := ⟨Job.new job, false, []⟩

theorem watching_start {job : TransferJob} (hconfirmed : job.fileConfirmed = false) :
    Watching (Job.new job) (start job) :=
  ⟨⟨rfl, rfl, rfl, rfl, rfl⟩, le_rfl, fun h => absurd h (by simp [start, Job.new, hconfirmed]),
    by simp [start], by simp [start], fun k hk hlt => absurd hk (Nat.not_le.mpr hlt), nofun,
    fun _ _ => each_nil _⟩

/-- Every run keeps the invariant. -/
theorem watching_run {jobType : JobType} {fileNum : ℕ}
    {overwrite : Bool} {files : List FileEntry} {acts : List ReadAct} {w : Watched}
    (hrun : exec (step compress) (start (.newRead id jobType (.filePath p) fileNum overwrite files))
    acts =
      some w) : Watching (Job.new (.newRead id jobType (.filePath p) fileNum overwrite files)) w :=
  exec_invariant (fun _ _ _ h hs => Watching.step rfl h hs) (watching_start rfl) hrun

/-! ## Overwrite detection -/

/-- **Overwrite-confirmation safety.** A job that reads files with overwrite detection, in any
order of runs of the driver, confirmations and failures of the disk: no block of a file is sent
before a confirmation of that file that accepts it was applied while the job was at it, nor after
one that skips it, and no two digests are sent for the same file. -/
theorem overwrite_safety {compress : Bytes → Bytes} {id : ℤ} {p : PathName} {fileNum : ℕ}
    {files : List FileEntry} {acts : List ReadAct} {w : Watched}
    (hrun : exec (step compress) (start (.newRead id .generic (.filePath p) fileNum true files))
    acts =
      some w) : Each Lawful w.trace :=
  (watching_run hrun).lawful rfl rfl

/-- A disk with these files on which everything works. -/
def readable (entries : List (String × Bytes)) : Disk :=
  ⟨TransferJob.sourceOf entries, true, some (0, 3), fun n => some n⟩

/-- A job that reads these files of a directory, with overwrite detection. -/
def askingJob (names : List String) : TransferJob :=
  .newRead 7 .generic (.filePath "s".toList) 0 true (TransferJob.entriesOf names)

/-- One file is asked about, a confirmation for another one comes, then its own, and it is
sent. -/
theorem overwrite_safety_one_file : ∃ w, exec (step TransferJob.stored) (start (askingJob ["a"]))
        [.tick true (readable [("a", [1, 2, 3])]),
          .confirm ⟨7, 1, some (.skip false)⟩ (readable []),
          .confirm ⟨7, 0, some (.offsetBlk 0)⟩ (readable []),
            .tick true (readable [("a", [1, 2, 3])])] =
        some w ∧
      w.trace = [.sent 0 (.digest 7 0 0 3 false), .applied ⟨7, 0, some (.offsetBlk 0)⟩,
        .sent 0 (.block ⟨7, 0, [1, 2, 3], false⟩)] ∧
      Each Lawful w.trace := by
  have hrun : (exec (step TransferJob.stored) (start (askingJob ["a"]))
      [.tick true (readable [("a", [1, 2, 3])]), .confirm ⟨7, 1, some (.skip false)⟩ (readable []),
        .confirm ⟨7, 0, some (.offsetBlk 0)⟩ (readable []),
          .tick true (readable [("a", [1, 2, 3])])]).any
      (fun w =>
        decide (w.trace = [.sent 0 (.digest 7 0 0 3 false), .applied ⟨7, 0, some (.offsetBlk 0)⟩,
        .sent 0 (.block ⟨7, 0, [1, 2, 3], false⟩)])) = true := by
    decide +kernel
  obtain ⟨w, hw, htrace⟩ := (Option.any_eq_true _ _).mp hrun
  exact ⟨w, hw, of_decide_eq_true htrace, overwrite_safety hw⟩

/-! ## The end of a job -/

/-- The job cannot go on with its file: it cannot be opened, or the peer is to be asked about it
and its metadata cannot be read. -/
def blocked (job : Job) (disk : Disk) : Bool :=
  match job.dataSource, job.files[job.fileNum]? with
  | .filePath p, some entry =>
    if job.dataStream = none ∧ disk.canOpen = false then true
    else (job.opened p entry).needsDigest &&
      ((job.opened p entry).getCurrentDigest disk).toOption.isNone
  | _, _ => false

/-- A blocked job is reported by `init_jobs`. -/
theorem blocked_iff (hp : job.dataSource = .filePath p) (disk : Disk) :
    blocked job disk = true ↔ ∃ err k, (job.init disk).2 = [.error job.id err k] := by
  have hinit := Job.init_spec hp disk
  generalize job.init disk = r at hinit
  have hnot : ∀ {entry}, job.files[job.fileNum]? = some entry →
      (job.dataStream = none → disk.canOpen = true) →
      blocked job disk = ((job.opened p entry).needsDigest &&
        ((job.opened p entry).getCurrentDigest disk).toOption.isNone) := by
    intro entry hentry hopen
    simp only [blocked, hp, hentry]
    refine if_neg fun hclosed => ?_
    simp [hopen hclosed.1] at hclosed
  cases hinit with
  | ended hend => simp [blocked, hp, List.getElem?_eq_none hend]
  | unopened hlt hstream hopen => simp [blocked, hp, List.getElem?_eq_getElem hlt, hstream, hopen]
  | ready entry hentry hopen hneeds => simp [hnot hentry hopen, hneeds]
  | unasked entry hentry hopen hneeds err hdigest =>
    simp [hnot hentry hopen, hneeds, hdigest, Except.toOption]
  | asked entry hentry hopen hneeds lastModified fileSize hdigest =>
    simp [hnot hentry hopen, hneeds, hdigest, Except.toOption]

/-- What is asked of a run of the driver: the job leaves the vector only past its last file, with
every file from the first one on done with, and `done` is sent only then, without an error. -/
def EndsComplete (compress : Bytes → Bytes) (first : Job) (w : Watched) (reads : Bool)
    (disk : Disk) : Prop :=
  let ticked := w.job.tick compress reads disk
  (ticked.2.2 = true → first.files.length ≤ ticked.1.fileNum ∧
    ∀ k, first.fileNum ≤ k → k < first.files.length →
      Ended first.id (w.tick compress reads disk).trace k) ∧
  ∀ id k, .done id k ∈ ticked.2.1 → ticked.2.2 = true ∧ ∀ id' err k', .error id' err k' ∉ ticked.2.1

/-- How a job ends that has nothing to read. -/
theorem complete_cases (job : Job) : (job.jobCompleted = false ∧ job.complete = ([], false)) ∨
    (job.jobCompleted = true ∧ job.jobSkipped = true ∧
      job.complete = ([.error job.id "skipped" job.fileNum], true)) ∨
    (job.jobCompleted = true ∧ job.jobSkipped = false ∧
      job.complete = ([.done job.id job.fileNum], true)) := by
  rw [Job.complete, Job.jobError]
  cases hcompleted : job.jobCompleted with
  | false => exact .inl ⟨rfl, rfl⟩
  | true =>
    cases hskipped : job.jobSkipped with
    | true => exact .inr (.inl ⟨rfl, rfl, rfl⟩)
    | false => exact .inr (.inr ⟨rfl, rfl, rfl⟩)

/-- A job at a file does not end, unless the peer has neither been asked about it nor answered. -/
theorem readOnce_unfinished (compress : Bytes → Bytes) (hp : job.dataSource = .filePath p)
    (disk : Disk) (hlt : job.fileNum < job.files.length)
    (hwait : job.unconfirmed = true → job.fileIsWaiting = true) :
    (job.readOnce compress disk).2.2 = false ∧
      ∀ id k, .done id k ∉ (job.readOnce compress disk).2.1 := by
  have hread := Job.readOnce_spec compress hp disk
  generalize job.readOnce compress disk = r at hread
  cases hread with
  | waiting hunconfirmed =>
    have hdetect : job.enableOverwriteDetection = true := by
      simp [Job.unconfirmed] at hunconfirmed
      exact hunconfirmed.1.2
    have hcompleted : job.jobCompleted = false := by
      simp [Job.jobCompleted, hdetect, hwait hunconfirmed]
    simp [Job.complete, hcompleted]
  | ended _ hend => exact absurd hlt (Nat.not_lt.mpr hend)
  | closed => simp
  | failed => simp
  | fileEnd => simp
  | block => simp

/-- A job past its last file does nothing but end. -/
theorem readOnce_past (compress : Bytes → Bytes) (hp : job.dataSource = .filePath p) (disk : Disk)
    (hend : job.files.length ≤ job.fileNum) : (job.readOnce compress disk).1.fileNum = job.fileNum ∧
      (job.readOnce compress disk).2 = job.complete := by
  have hread := Job.readOnce_spec compress hp disk
  generalize job.readOnce compress disk = r at hread
  cases hread with
  | waiting => exact ⟨rfl, rfl⟩
  | ended => exact ⟨rfl, rfl⟩
  | closed _ hlt => exact absurd hlt (Nat.not_lt.mpr hend)
  | failed _ hlt => exact absurd hlt (Nat.not_lt.mpr hend)
  | fileEnd _ hlt => exact absurd hlt (Nat.not_lt.mpr hend)
  | block _ hlt => exact absurd hlt (Nat.not_lt.mpr hend)

/-- The driver ends a job that has neither been asked about nor answered for. -/
theorem readOnce_abandons (compress : Bytes → Bytes) (hp : job.dataSource = .filePath p)
    (disk : Disk) (hconfirmed : job.fileConfirmed = false) (hwaiting : job.fileIsWaiting = false)
    (hskipped : job.jobSkipped = false)
    (hread : job.unconfirmed = true ∨ job.files.length ≤ job.fileNum) :
    (job.readOnce compress disk).2.1 = [.done job.id job.fileNum] := by
  have hcomplete : job.complete = ([.done job.id job.fileNum], true) := by
    simp [Job.complete, Job.jobError, Job.jobCompleted, hconfirmed, hwaiting, hskipped]
  rcases hread with hunconfirmed | hend
  · rw [Job.readOnce, TransferJob.read_filePath compress hp,
      if_pos (by simpa [Job.unconfirmed, and_assoc] using hunconfirmed)]
    exact congrArg Prod.fst hcomplete
  · rw [(readOnce_past compress hp disk hend).2, hcomplete]

/-- A job that is at a file is not one whose only file was skipped. -/
theorem Watching.jobSkipped (h : Watching first w) (hlt : w.job.fileNum < w.job.files.length) :
    w.job.jobSkipped = false := by
  by_contra hskipped
  simp [Job.jobSkipped] at hskipped
  have := h.fileSkipped hskipped.1
  omega

/-- With overwrite detection, or at the last file. -/
def Fragile (first : Job) (k : ℕ) : Prop :=
  first.jobType = .generic ∧ first.enableOverwriteDetection = true ∨ k + 1 = first.files.length

/-- A run of the driver in which the job does not end. -/
theorem endsComplete_unfinished
    (hopened : ∀ id k, .done id k ∉ (w.job.init disk).2)
    (hread : ((w.job.init disk).1.readOnce compress disk).2.2 = false ∧
      ∀ id k, .done id k ∉ ((w.job.init disk).1.readOnce compress disk).2.1) :
    EndsComplete compress first w true disk := by
  refine ⟨fun hfinished => ?_, fun id k hmem => ?_⟩
  · simp [Job.tick, hread.1] at hfinished
  · rcases List.mem_append.mp hmem with hmem | hmem
    · exact absurd hmem (hopened id k)
    · exact absurd hmem (hread.2 id k)

/-- A job past its last file ends as it should. -/
theorem endsComplete_past (hp : first.dataSource = .filePath p) (h : Watching first w)
    (hend : w.job.files.length ≤ w.job.fileNum)
    (hinit : w.job.init disk = ({ w.job with dataStream := none }, [])) :
    EndsComplete compress first w true disk := by
  have hjob : w.job.tick compress true disk =
      (({ w.job with dataStream := none } : Job).readOnce compress disk) := by
    simp [Job.tick, hinit]
  have hp' : ({ w.job with dataStream := none } : Job).dataSource = .filePath p :=
    h.same.dataSource.trans hp
  obtain ⟨hnum, hcomplete⟩ := readOnce_past compress hp' disk hend
  have hlen : first.files.length ≤ (w.job.tick compress true disk).1.fileNum := by
    rw [hjob, hnum, ← h.same.files]
    exact hend
  refine ⟨fun _ => ⟨hlen, fun k hk hlt => ?_⟩, fun id k hmem => ?_⟩
  · exact (h.tick hp true disk).ended k hk (hlt.trans_le hlen)
  · rw [hjob, hcomplete] at hmem ⊢
    obtain ⟨-, hc⟩ | ⟨-, -, hc⟩ | ⟨-, -, hc⟩ := complete_cases { w.job with dataStream := none }
    · simp [hc] at hmem
    · simp [hc] at hmem
    · simp [hc]

/-- A run of the driver that sends an error and `done`. -/
theorem not_endsComplete {err : String} {k n : ℕ}
    (hinit : w.job.init disk = (job, [.error w.job.id err k]))
    (hread : (job.readOnce compress disk).2.1 = [.done id n]) :
    ¬ EndsComplete compress first w true disk := by
  intro hlaw
  have hevents : (w.job.tick compress true disk).2.1 = [.error w.job.id err k, .done id n] := by
    simp only [Job.tick, if_true, hinit, hread]
    rfl
  obtain ⟨-, hnone⟩ := hlaw.2 id n (by simp [hevents])
  exact hnone w.job.id err k (by simp [hevents])

/-- A job that is open, or has been asked about, does not end. -/
theorem endsComplete_open {events : List Event} (hp : job.dataSource = .filePath p)
    (hinit : w.job.init disk = (job, events)) (hevents : ∀ id k, .done id k ∉ events)
    (hlt : job.fileNum < job.files.length)
    (hwait : job.unconfirmed = true → job.fileIsWaiting = true) :
    EndsComplete compress first w true disk := by
  refine endsComplete_unfinished (by rwa [hinit]) ?_
  rw [hinit]
  exact readOnce_unfinished compress hp disk hlt hwait

theorem opened_lt {entry : FileEntry} (hlt : job.fileNum < job.files.length) :
    (job.opened p entry).fileNum < (job.opened p entry).files.length := by
  rwa [Job.opened_fileNum, (same_opened _ _ _).files]

/-- A job at a file that cannot be opened. -/
theorem endsComplete_unopened (hp : first.dataSource = .filePath p)
    (h : Watching first w) (hlt : w.job.fileNum < w.job.files.length)
    (hinit : w.job.init disk = (w.job.passed, [.error w.job.id "open" (w.job.fileNum + 1)])) :
    EndsComplete compress first w true disk ↔ ¬ Fragile first w.job.fileNum := by
  have hpassed : w.job.passed.dataSource = .filePath p := h.same.dataSource.trans hp
  constructor
  · intro hlaw hfragile
    -- the job ends with its error
    refine not_endsComplete hinit (readOnce_abandons compress hpassed disk
      rfl rfl (h.jobSkipped hlt) ?_) hlaw
    rcases hfragile with ⟨hgeneric, hdetect⟩ | hlast
    · left
      simp [Job.unconfirmed, Job.passed, h.same.jobType, hgeneric, h.same.enableOverwriteDetection,
        hdetect]
    · right
      simp [Job.passed, h.same.files, hlast]
  · intro hfragile
    rw [Fragile, not_or] at hfragile
    obtain ⟨hdetect, hlast⟩ := hfragile
    refine endsComplete_open hpassed hinit (by simp) ?_ fun hunconfirmed => ?_
    · rw [← h.same.files] at hlast
      show w.job.fileNum + 1 < w.job.files.length
      omega
    · simp [Job.unconfirmed, Job.passed, h.same.jobType,
        h.same.enableOverwriteDetection] at hunconfirmed
      exact absurd hunconfirmed hdetect

/-- A job that should ask about its file and cannot is lost. -/
theorem not_endsComplete_unasked (compress : Bytes → Bytes) (hp : first.dataSource = .filePath p)
    (h : Watching first w) {entry : FileEntry} {err : String}
    (hlt : w.job.fileNum < w.job.files.length) (hneeds : (w.job.opened p entry).needsDigest = true)
    (hinit : w.job.init disk = (w.job.opened p entry, [.error w.job.id err w.job.fileNum])) :
    ¬ EndsComplete compress first w true disk ∧ Fragile first w.job.fileNum := by
  have hsame := h.same.trans (same_opened w.job p entry)
  simp only [Job.needsDigest, Bool.and_eq_true, decide_eq_true_eq, Bool.not_eq_true'] at hneeds
  obtain ⟨⟨⟨hgeneric, hdetect⟩, hconfirmed⟩, hwaiting⟩ := hneeds
  refine ⟨not_endsComplete hinit (readOnce_abandons compress (hsame.dataSource.trans hp)
    disk hconfirmed
    hwaiting ((h.opened p entry).jobSkipped (opened_lt hlt)) (.inl ?_)), .inl ?_⟩
  · simp [Job.unconfirmed, hgeneric, hdetect, hconfirmed]
  · exact ⟨hsame.jobType.symm.trans hgeneric, hsame.enableOverwriteDetection.symm.trans hdetect⟩

/-- A run of the driver is as it should be exactly when the job is not blocked while it is the
first, with overwrite detection or at its last file. -/
theorem endsComplete_iff (hp : first.dataSource = .filePath p) (h : Watching first w) (reads : Bool)
    (disk : Disk) : EndsComplete compress first w reads disk ↔
      ¬ (reads = true ∧ blocked w.job disk = true ∧ Fragile first w.job.fileNum) := by
  have hp' := h.same.dataSource.trans hp
  have hinit := Job.init_spec hp' disk
  cases reads with
  | false =>
    refine ⟨fun _ hbad => absurd hbad.1 Bool.false_ne_true, fun _ => ⟨nofun, fun id k hmem => ?_⟩⟩
    replace hmem : .done id k ∈ (w.job.init disk).2 := hmem
    generalize w.job.init disk = r at hinit hmem
    cases hinit <;> simp at hmem
  | true =>
    generalize hr : w.job.init disk = r at hinit
    cases hinit with
    | ended hend => simp [blocked_iff hp', hr, endsComplete_past hp h hend hr]
    | ready entry hentry hopen hneeds =>
      have hlaw : EndsComplete compress first w true disk := by
        refine endsComplete_open ((same_opened _ _ _).dataSource.trans hp') hr (by simp)
          (opened_lt (List.getElem?_eq_some_iff.mp hentry).1) fun hunconfirmed => ?_
        simp only [Job.unconfirmed, Job.needsDigest] at hunconfirmed hneeds
        simpa [hunconfirmed] using hneeds
      simp [blocked_iff hp', hr, hlaw]
    | asked entry hentry hopen hneeds lastModified fileSize hdigest =>
      have hsource : ({ w.job.opened p entry with fileIsWaiting := true } : Job).dataSource =
        .filePath p :=
        (same_opened _ _ _).dataSource.trans hp'
      have hlaw : EndsComplete compress first w true disk :=
        endsComplete_open hsource hr (by simp) (opened_lt (List.getElem?_eq_some_iff.mp hentry).1)
          fun _ => rfl
      simp [blocked_iff hp', hr, hlaw]
    | unopened hlt hstream hopen =>
      simp [blocked_iff hp', hr, endsComplete_unopened hp h hlt hr]
    | unasked entry hentry hopen hneeds err hdigest =>
      obtain ⟨hnot, hfragile⟩ := not_endsComplete_unasked compress hp h
        (List.getElem?_eq_some_iff.mp hentry).1 hneeds hr
      simp [blocked_iff hp', hr, hnot, hfragile]

/-- **The end of a job that reads.** After any run, a run of the driver ends the job only past its
last file with every file done with, and never sends `done` together with an error, if and only
if it is not the one that finds the job first in its vector and blocked, with overwrite detection
or at its last file. -/
theorem terminates_complete {compress : Bytes → Bytes} {id : ℤ} {jobType : JobType} {p : PathName}
    {fileNum : ℕ} {overwrite : Bool} {files : List FileEntry} {acts : List ReadAct} {w : Watched}
    (hrun : exec (step compress) (start (.newRead id jobType (.filePath p) fileNum overwrite files))
    acts =
      some w) (reads : Bool) (disk : Disk) :
    EndsComplete compress (Job.new (.newRead id jobType (.filePath p) fileNum overwrite files))
      w reads disk ↔
      ¬ (reads = true ∧ blocked w.job disk = true ∧
        (jobType = .generic ∧ overwrite = true ∨ w.job.fileNum + 1 = files.length)) :=
  endsComplete_iff rfl (watching_run hrun) reads disk

/-- A disk on which nothing can be opened. -/
def unreadable : Disk := ⟨FileSys.empty, false, none, fun _ => none⟩

/-- One file without overwrite detection is sent, and the job ends with it. -/
theorem terminates_complete_one_file : ∃ w, exec (step TransferJob.stored)
        (start (.newRead 7 .generic (.filePath "s".toList) 0 false (TransferJob.entriesOf ["a"])))
        [.tick true (readable [("a", [1, 2, 3])]), .tick true (readable [("a", [1, 2, 3])])] =
          some w ∧
      (w.job.tick TransferJob.stored true (readable [])).2 = ([.done 7 1], true) ∧
      EndsComplete TransferJob.stored
        (Job.new (.newRead 7 .generic (.filePath "s".toList) 0 false (TransferJob.entriesOf ["a"])))
        w true (readable []) := by
  have hrun : (exec (step TransferJob.stored)
      (start (.newRead 7 .generic (.filePath "s".toList) 0 false (TransferJob.entriesOf ["a"])))
      [.tick true (readable [("a", [1, 2, 3])]), .tick true (readable [("a", [1, 2, 3])])]).any
      (fun w => decide ((w.job.tick TransferJob.stored true (readable [])).2 = ([.done 7 1], true) ∧
        blocked w.job (readable []) = false)) = true := by
    decide +kernel
  obtain ⟨w, hw, hp⟩ := (Option.any_eq_true _ _).mp hrun
  obtain ⟨htick, hblocked⟩ := of_decide_eq_true hp
  refine ⟨w, hw, htick, (terminates_complete hw true (readable [])).mpr ?_⟩
  rintro ⟨-, hblocked', -⟩
  rw [hblocked] at hblocked'
  cases hblocked'

/-- The first of two files cannot be opened: the job is reported as done, and the second file is
never sent. -/
theorem done_with_a_file_left :
    (Job.new (askingJob ["a", "b"])).tick TransferJob.stored true unreadable =
        ({ Job.new (askingJob ["a", "b"]) with fileNum := 1 },
          [.error 7 "open" 1, .done 7 1], true) ∧
      (askingJob ["a", "b"]).files.length = 2 ∧
      ¬ EndsComplete TransferJob.stored (Job.new (askingJob ["a", "b"]))
        (start (askingJob ["a", "b"])) true
        unreadable := by
  have htick : (Job.new (askingJob ["a", "b"])).tick TransferJob.stored true unreadable =
      ({ Job.new (askingJob ["a", "b"]) with fileNum := 1 }, [.error 7 "open" 1, .done 7 1],
        true) := by
    decide +kernel
  refine ⟨htick, rfl, fun hlaw => ?_⟩
  obtain ⟨hpast, -⟩ := hlaw.1 (congrArg (fun t => t.2.2) htick)
  have hnum :
    ((Job.new (askingJob ["a", "b"])).tick TransferJob.stored true unreadable).1.fileNum = 1 :=
    congrArg (fun t => t.1.fileNum) htick
  exact absurd (hnum ▸ hpast : 2 ≤ 1) (by decide)

end Watched
end Fs
end BgDesk
