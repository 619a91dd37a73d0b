import BgDesk.ReadJobs

/-!
# The two drivers of a job that reads

`handle_read_jobs` and `handle_read_jobs_tick` side by side, with the same job, the same answers
of the disk and the same confirmations. The driver of the connection manager gives a job up with
its first error, by design; up to there the two say the same.

* `Drivers.agree` — what the connection manager sends is what the direct driver sends up to its
  first error.
-/

namespace BgDesk
namespace Fs

/-! ## What is sent up to an error -/

/-- An error. -/
def Event.isError : Event → Bool
  | .error _ _ _ => true
  | _ => false

/-- The messages up to the first error. -/
def untilError : List Event → List Event
  | [] => []
  | event :: events => if event.isError then [event] else event :: untilError events

/-- Nothing after an error counts. -/
theorem untilError_of_error {events more : List Event} (h : events.any Event.isError = true) :
    untilError (events ++ more) = untilError events := by
  induction events with
  | nil => cases h
  | cons event events ih =>
    rw [List.cons_append, untilError, untilError]
    split
    · rfl
    · next hevent =>
      rw [List.any_cons, Bool.eq_false_iff.mpr hevent, Bool.false_or] at h
      rw [ih h]

/-- Before an error everything counts. -/
theorem untilError_of_none {events more : List Event} (h : events.any Event.isError = false) :
    untilError (events ++ more) = events ++ untilError more := by
  induction events with
  | nil => rfl
  | cons event events ih =>
    rw [List.any_cons, Bool.or_eq_false_iff] at h
    rw [List.cons_append, untilError, if_neg (by simp [h.1]), ih h.2]
    rfl

/-! ## One job -/

namespace Job

/-- The two ways to open a file are the same. -/
theorem initReadJobForCm_eq (job : Job) (disk : Disk) :
    job.initReadJobForCm disk = job.initDataStream disk := by
  rw [initReadJobForCm, initDataStreamForCm, initDataStream]
  obtain ⟨opened, err | _ | _⟩ := job.openDataStream disk.canOpen
  · rfl
  · obtain ⟨hneeds, h⟩ | ⟨hneeds, err, hdigest, h⟩ | ⟨hneeds, lastModified, fileSize, hdigest, h⟩ :=
      sendDigest_cases { job with toTransferJob := opened } disk
    · simp [h, digestForCm, hneeds]
    · simp [h, digestForCm, hneeds, hdigest]
    · simp [h, digestForCm, hneeds, hdigest]
  · rfl

/-- Opening a file sends no error by itself. -/
theorem initDataStream_events (job : Job) (disk : Disk) :
    (job.initDataStream disk).2.1.any Event.isError = false := by
  rw [initDataStream]
  obtain ⟨opened, err | _ | _⟩ := job.openDataStream disk.canOpen
  · rfl
  · obtain ⟨hneeds, h⟩ | ⟨hneeds, err, hdigest, h⟩ | ⟨hneeds, lastModified, fileSize, hdigest, h⟩ :=
      sendDigest_cases { job with toTransferJob := opened } disk
    · simp [h]
    · simp [h]
    · simp [h, Event.isError]
  · rfl

/-- The two ways to read differ in what becomes of a job after an error. -/
theorem readOnceForCm_eq (compress : Bytes → Bytes) (job : Job) (disk : Disk) :
    (∃ job' id err k, job.readOnce compress disk = (job', [.error id err k], false) ∧
      job.readOnceForCm compress disk = (job', [.error id err k], true)) ∨
    (∃ job' id err k, job.readOnce compress disk = (job', [.error id err k], true) ∧
      job.readOnceForCm compress disk = job.readOnce compress disk) ∨
    (job.readOnce compress disk).2.1.any Event.isError = false ∧
      job.readOnceForCm compress disk = job.readOnce compress disk := by
  rw [readOnce, readOnceForCm]
  obtain ⟨read, err | _ | block⟩ := job.read compress disk.fs disk.want
  · exact .inl ⟨_, _, _, _, rfl, rfl⟩
  · obtain ⟨-, h⟩ | ⟨-, -, h⟩ | ⟨-, -, h⟩ :=
      Watched.complete_cases { job with toTransferJob := read }
    · exact .inr (.inr (by simp [h]))
    · exact .inr (.inl ⟨_, _, _, _, congrArg (Prod.mk _) h, rfl⟩)
    · exact .inr (.inr (by simp [h, Event.isError]))
  · exact .inr (.inr ⟨rfl, rfl⟩)

/-- A confirmation that says what is to become of the file the job is at does the same on both
ways. -/
theorem confirm_forward {job : Job} {r : SendConfirm} (disk : Disk) (hnum : r.fileNum = job.fileNum)
    (hunion : r.union.isSome = true) : job.confirm disk ⟨r.id, job.fileNum,
      some (if r.skip then .skip true else .offsetBlk r.offsetBlk)⟩ =
      job.confirm disk r := by
  obtain ⟨union, hunion⟩ := Option.isSome_iff_exists.mp hunion
  rw [confirm, confirm, if_neg (not_not.mpr rfl), if_neg (not_not.mpr hnum.symm), hunion]
  cases union with
  | skip s => cases s <;> simp [SendConfirm.skip, SendConfirm.offsetBlk, hunion]
  | offsetBlk offset => simp [SendConfirm.skip, SendConfirm.offsetBlk, hunion, hnum]

end Job

/-- A driver and what it has sent. -/
structure Driven where
  jobs : List Job
  events : List Event
  deriving DecidableEq

/-- The same happens to both: the driver runs, or a confirmation comes. -/
inductive DriveAct where
  | tick (disk : Disk)
  | confirm (r : SendConfirm) (disk : Disk)

section Drive

variable (compress : Bytes → Bytes)

/-- The driver over the network. -/
def Driven.direct (s : Driven) : DriveAct → Driven
  | .tick disk =>
    let ticked := handleReadJobs compress (fun _ => disk) s.jobs
    ⟨ticked.1, s.events ++ ticked.2⟩
  | .confirm r disk => { s with jobs := sendConfirm disk r s.jobs }

/-- The driver of the connection manager. -/
def Driven.forCm (s : Driven) : DriveAct → Driven
  | .tick disk =>
    let ticked := handleReadJobsTick compress (fun _ => disk) s.jobs
    ⟨ticked.1, s.events ++ ticked.2⟩
  | .confirm r disk => { s with jobs := forwardConfirm disk r s.jobs }

variable {job : Job}

/-- The vector of the direct driver, with one job. -/
theorem handleReadJobs_single (disk : Disk) (hlast : job.isLastJob = false) :
    handleReadJobs compress (fun _ => disk) [job] =
      ((if (job.tick compress true disk).2.2 then [] else [(job.tick compress true disk).1]),
        (job.tick compress true disk).2.1) := by
  obtain ⟨hjobs, before, after, hticked, hevents⟩ :=
    @handleReadJobs_eq compress (fun _ => disk) [] [] job
    (by simp) hlast
  refine Prod.ext ?_ ?_
  · rw [List.nil_append] at hjobs
    rw [hjobs]
    split
    · simp [removeJob, initJobs]
    · rfl
  · rw [List.nil_append] at hevents
    rw [hevents, hticked, initJobs, List.append_nil]

/-- A job kept for later is left alone. -/
theorem handleReadJobs_kept (disk : Disk) (hlast : job.isLastJob = true) :
    handleReadJobs compress (fun _ => disk) [job] = ([job], []) ∧
      handleReadJobsTick compress (fun _ => disk) [job] = ([job], []) := by
  simp [handleReadJobs, handleReadJobsTick, initJobs, readJobs, readJobsForCm, hlast]

/-- The vector of the connection manager, with one job. -/
theorem handleReadJobsTick_single (disk : Disk) (hlast : job.isLastJob = false) :
    handleReadJobsTick compress (fun _ => disk) [job] =
      match job.initDataStream disk with
      | (job, sent, .error err) => ([], sent ++ [.error job.id err job.fileNum])
      | (job, sent, .ok ()) =>
        ((if
          (job.readOnceForCm compress disk).2.2 then [] else [(job.readOnceForCm compress disk).1]),
          sent ++ (job.readOnceForCm compress disk).2.1) := by
  rw [handleReadJobsTick, readJobsForCm, if_neg (by simp [hlast]), Job.initReadJobForCm_eq]
  obtain ⟨job', sent, err | ⟨⟩⟩ := job.initDataStream disk
  · simp [readJobsForCm, removeJob]
  · dsimp only
    cases (job'.readOnceForCm compress disk).2.2 <;> simp [removeJob]

/-! ## The drivers side by side -/

/-- Both drivers. -/
structure Drivers where
  direct : Driven
  cm : Driven
  deriving DecidableEq

namespace Drivers

/-- The same happens to both. -/
def step (s : Drivers) (a : DriveAct) : Option Drivers :=
  some ⟨s.direct.direct compress a, s.cm.forCm compress a⟩

/-- The confirmation is for the file the job is at, and says what is to become of it. -/
def Current (s : Drivers) : DriveAct → Prop
  | .tick _ => True
  | .confirm r _ =>
    r.union.isSome = true ∧ ∀ job ∈ s.cm.jobs, r.id = job.id → r.fileNum = job.fileNum

instance (s : Drivers) : ∀ a, Decidable (s.Current a)
  | .tick _ => inferInstanceAs (Decidable True)
  | .confirm _ _ => inferInstanceAs (Decidable (_ ∧ _))

/-- One job with both drivers. -/
def start (job : Job) : Drivers := ⟨⟨[job], []⟩, ⟨[job], []⟩⟩

/-- The drivers are in step: they have the same, without an error so far, or the connection
manager has given the job up with its first error. -/
inductive Related : Drivers → Prop where
  | together (jobs : List Job) (events : List Event) (hjobs : jobs = [] ∨ ∃ job, jobs = [job])
      (hnone : events.any Event.isError = false) : Related ⟨⟨jobs, events⟩, ⟨jobs, events⟩⟩
  | apart (direct : Driven) (hsome : direct.events.any Event.isError = true) :
      Related ⟨direct, ⟨[], untilError direct.events⟩⟩

variable {events : List Event}

/-- Whatever the direct driver does, a job that was given up stays so. -/
theorem Related.apart_append (jobs : List Job) (hsome : events.any Event.isError = true)
    (more : List Event) : Related ⟨⟨jobs, events ++ more⟩, ⟨[], untilError events⟩⟩ := by
  rw [← @untilError_of_error events more hsome]
  exact .apart ⟨jobs, events ++ more⟩ (by simp [List.any_append, hsome])

/-- The connection manager gives the job up with the first error. -/
theorem Related.give_up {sent : List Event} (hnone : events.any Event.isError = false)
    (hsent : sent.any Event.isError = false) (jobs : List Job) (id : ℤ) (err : String) (k : ℕ)
    (more : List Event) : Related ⟨⟨jobs, events ++ (sent ++ Event.error id err k :: more)⟩,
      ⟨[], events ++ (sent ++ [Event.error id err k])⟩⟩ := by
  have huntil : untilError (events ++ (sent ++ Event.error id err k :: more)) = events ++
      (sent ++ [Event.error id err k]) := by
    rw [untilError_of_none hnone, untilError_of_none hsent]
    rfl
  rw [← huntil]
  exact .apart ⟨jobs, _⟩ (by simp [Event.isError])

theorem Related.tick_single {job : Job} (hnone : events.any Event.isError = false) (disk : Disk) :
    Related ⟨Driven.direct compress ⟨[job], events⟩ (.tick disk),
      Driven.forCm compress ⟨[job], events⟩ (.tick disk)⟩ := by
  rw [Driven.direct, Driven.forCm]
  cases hlast : job.isLastJob with
  | true =>
    simp only [handleReadJobs_kept compress disk hlast, List.append_nil]
    exact .together _ _ (.inr ⟨job, rfl⟩) hnone
  | false =>
    simp only [handleReadJobs_single compress disk hlast,
      handleReadJobsTick_single compress disk hlast, Job.tick,
      if_true, Job.init]
    have hsent := job.initDataStream_events disk
    generalize job.initDataStream disk = opened at hsent ⊢
    obtain ⟨job', sent, err | ⟨⟩⟩ := opened
    · -- the file cannot be opened, or not be asked about
      simp only [List.append_assoc, List.singleton_append]
      exact .give_up hnone hsent _ _ _ _ _
    · dsimp only at hsent ⊢
      obtain ⟨job'', id, err, k, hread, hreadCm⟩ | ⟨job'', id, err, k, hread, hreadCm⟩ | ⟨hread,
        hreadCm⟩ :=
        job'.readOnceForCm_eq compress disk
      · rw [hread, hreadCm]
        exact .give_up hnone hsent _ _ _ _ []
      · rw [hreadCm, hread]
        exact .give_up hnone hsent _ _ _ _ []
      · rw [hreadCm]
        refine .together _ _ ?_ (by simp [List.any_append, hnone, hsent, hread])
        split
        · exact .inl rfl
        · exact .inr ⟨_, rfl⟩

theorem Related.step {s s' : Drivers} {a : DriveAct} (h : Related s) (hcurrent : s.Current a)
    (hs : s.step compress a = some s') : Related s' := by
  obtain rfl := Option.some.inj hs
  cases h with
  | together jobs events hjobs hnone =>
    rcases hjobs with rfl | ⟨job, rfl⟩
    · cases a with
      | tick disk =>
        simp only [Driven.direct, Driven.forCm, handleReadJobs, handleReadJobsTick, initJobs,
          readJobs, readJobsForCm]
        exact .together _ _ (.inl rfl) (by simpa using hnone)
      | confirm r disk => exact .together [] events (.inl rfl) hnone
    · cases a with
      | tick disk => exact .tick_single compress hnone disk
      | confirm r disk =>
        obtain ⟨hunion, hnum⟩ := hcurrent
        have hsame : forwardConfirm disk r [job] = sendConfirm disk r [job] := by
          simp only [forwardConfirm, sendConfirmForRead, sendConfirm, withJob]
          split
          · next hid => rw [Job.confirm_forward disk (hnum job (by simp) hid.symm) hunion]
          · rfl
        simp only [Driven.direct, Driven.forCm, hsame]
        refine .together _ _ (.inr ?_) hnone
        rw [sendConfirm, withJob]
        split
        · exact ⟨_, rfl⟩
        · exact ⟨_, rfl⟩
  | apart direct hsome =>
    cases a with
    | tick disk =>
      simp only [Driven.forCm, handleReadJobsTick, readJobsForCm, List.append_nil]
      exact .apart_append _ hsome _
    | confirm r disk => exact .apart _ hsome

variable {compress}

/-- **The two drivers.** A job that reads files, under both drivers, with any answers of the disk
and any confirmations for the file it is at: the connection manager sends exactly what the direct
driver sends up to its first error. Without an error both have the same, and remove the job at the
same time; with the first error the connection manager has removed it. -/
theorem agree {id : ℤ} {p : PathName} {fileNum : ℕ} {overwrite : Bool} {files : List FileEntry}
    {acts : List DriveAct} {s : Drivers} (hrun : exec (step compress)
    (start (Job.new (.newRead id .generic (.filePath p) fileNum overwrite files)))
      acts = some s) (hcurrent : Along (step compress) Current
      (start (Job.new (.newRead id .generic (.filePath p) fileNum overwrite files))) acts) :
    s.cm.events = untilError s.direct.events ∧
    (s.direct.events.any Event.isError = false → s.cm = s.direct) ∧
    (s.direct.events.any Event.isError = true → s.cm.jobs = []) := by
  have h : Related s := exec_invariant_along (fun _ _ _ h hC hs => Related.step compress h hC hs)
    (.together _ _ (.inr ⟨_, rfl⟩) rfl) hcurrent hrun
  cases h with
  | together jobs events hjobs hnone =>
    refine ⟨?_, fun _ => rfl, fun hsome => ?_⟩
    · have huntil := @untilError_of_none events [] hnone
      rw [untilError, List.append_nil] at huntil
      exact huntil.symm
    · simp [hnone] at hsome
  | apart direct hsome => exact ⟨rfl, fun hnone => by simp [hsome] at hnone, fun _ => rfl⟩

/-- One file is asked about, accepted and sent. -/
def sendOne : List DriveAct :=
  [.tick (Watched.readable [("a", [1, 2, 3])]),
    .confirm ⟨7, 0, some (.skip false)⟩ (Watched.readable []),
    .tick (Watched.readable [("a", [1, 2, 3])]), .tick (Watched.readable [("a", [1, 2, 3])]),
    .tick (Watched.readable [("a", [1, 2, 3])])]

/-- Both drivers send one file, and remove the job. -/
theorem agree_one_file :
    ∃ s, exec (step TransferJob.stored) (start (Job.new (Watched.askingJob ["a"])))
      sendOne = some s ∧
      s.direct.events = [.digest 7 0 0 3 false, .block ⟨7, 0, [1, 2, 3], false⟩,
        .block ⟨7, 0, [], false⟩,
        .done 7 1] ∧ s.direct.jobs = [] ∧ s.cm.events = untilError s.direct.events := by
  have hrun :
    (exec (step TransferJob.stored) (start (Job.new (Watched.askingJob ["a"]))) sendOne).any
      (fun s => decide (s.direct.events = [.digest 7 0 0 3 false, .block ⟨7, 0, [1, 2, 3], false⟩,
        .block ⟨7, 0, [], false⟩, .done 7 1] ∧ s.direct.jobs = [])) = true := by
    decide +kernel
  obtain ⟨s, hs, hp⟩ := (Option.any_eq_true _ _).mp hrun
  obtain ⟨hevents, hjobs⟩ := of_decide_eq_true hp
  have hcurrent : Along (step TransferJob.stored)
      Current (start (Job.new (Watched.askingJob ["a"]))) sendOne := by
    decide +kernel
  exact ⟨s, hs, hevents, hjobs, (agree hs hcurrent).1⟩

/-- The first of two files cannot be opened: the direct driver keeps the job and goes on to the
second file, the connection manager removes it. -/
theorem gives_up_with_an_error : ∃ s, exec (step TransferJob.stored)
        (start (Job.new (.newRead 7 .generic (.filePath "s".toList)
          0 false (TransferJob.entriesOf ["a", "b"]))))
        [.tick Watched.unreadable, .tick (Watched.readable [("b", [1, 2, 3])])] = some s ∧
      s.direct.events = [.error 7 "open" 1, .error 7 "data stream is None" 1,
        .block ⟨7, 1, [1, 2, 3], false⟩] ∧
      s.direct.jobs.length = 1 ∧
      s.cm.events = [.error 7 "open" 1] ∧ s.cm.jobs = [] := by
  have hrun : (exec (step TransferJob.stored)
      (start (Job.new (.newRead 7 .generic (.filePath "s".toList)
        0 false (TransferJob.entriesOf ["a", "b"]))))
      [.tick Watched.unreadable, .tick (Watched.readable [("b", [1, 2, 3])])]).any
      (fun s => decide (s.direct.events = [.error 7 "open" 1, .error 7 "data stream is None" 1,
        .block ⟨7, 1, [1, 2, 3], false⟩] ∧ s.direct.jobs.length = 1 ∧
        s.cm.events = [.error 7 "open" 1] ∧ s.cm.jobs = [])) = true := by
    decide +kernel
  obtain ⟨s, hs, hp⟩ := (Option.any_eq_true _ _).mp hrun
  exact ⟨s, hs, of_decide_eq_true hp⟩

end Drivers

end Drive

end Fs
end BgDesk
