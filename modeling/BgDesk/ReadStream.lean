import Mathlib.Algebra.BigOperators.Intervals
import BgDesk.ReadJobs

/-!
# The blocks a job sends

A job that reads files, without errors of the disk, and with every digest answered by the peer
asking for the whole file: the blocks it sends are, file by file, the content of the files.

* `StreamLaw` — blocks that are the files of a list, in order;
* `Watched.reader_stream_law` — every run sends such blocks, and ends.
-/

namespace BgDesk
namespace Fs

open TransferJob (decode entryPath sourceBytes)

section Law

variable (decompress : Bytes → Bytes) (contents : ℕ → Bytes) (id : ℤ)

/-- The blocks of file `i`, in their order. -/
def blocksOf (blocks : List Block) (i : ℕ) : List Block := blocks.filter fun b => b.fileNum = i

/-- What a list of blocks holds. -/
def payload (blocks : List Block) : Bytes := (blocks.map (decode decompress)).flatten

/-- The blocks are the files from `start` on: file by file, with no empty block but the one that
ends a file, up to position `pos` of file `k`. -/
structure StreamLaw (start k pos : ℕ) (blocks : List Block) : Prop where
  sorted : (blocks.map Block.fileNum).Pairwise (· ≤ ·)
  range : ∀ b ∈ blocks, b.id = id ∧ start ≤ b.fileNum ∧ b.fileNum ≤ k
  complete : ∀ i, start ≤ i → i < k → ∃ data, blocksOf blocks i = data ++ [⟨id, i, [], false⟩] ∧
    (∀ b ∈ data, decode decompress b ≠ []) ∧ payload decompress data = contents i
  current : (∀ b ∈ blocksOf blocks k, decode decompress b ≠ []) ∧
    payload decompress (blocksOf blocks k) = (contents k).take pos

variable {decompress contents id} {start k pos : ℕ} {blocks : List Block}

theorem streamLaw_start (start : ℕ) : StreamLaw decompress contents id start start 0 [] := by
  refine ⟨.nil, nofun, fun i hi hlt => absurd hi (Nat.not_le.mpr hlt), nofun, ?_⟩
  rw [List.take_zero]
  rfl

theorem blocksOf_append (i : ℕ) (b : Block) :
    blocksOf (blocks ++ [b]) i = if b.fileNum = i then blocksOf blocks i ++
      [b] else blocksOf blocks i := by
  rw [blocksOf, blocksOf, List.filter_append]
  split <;> simp_all

theorem payload_append (b : Block) :
    payload decompress (blocks ++ [b]) = payload decompress blocks ++ decode decompress b := by
  simp [payload]

/-- The numbers stay in order when one is added that is none of the earlier. -/
theorem StreamLaw.sorted_append (h : StreamLaw decompress contents id start k pos blocks)
    {b : Block} (hnum : b.fileNum = k) : ((blocks ++ [b]).map Block.fileNum).Pairwise (· ≤ ·) := by
  rw [List.map_append, List.pairwise_append]
  refine ⟨h.sorted, List.pairwise_singleton _ _, ?_⟩
  simp only [List.mem_map, List.map_cons, List.map_nil, List.mem_singleton]
  rintro _ ⟨c, hc, rfl⟩ _ rfl
  rw [hnum]
  exact (h.range c hc).2.2

/-- A block of the current file, with bytes that follow. -/
theorem StreamLaw.block (h : StreamLaw decompress contents id start k pos blocks) (hle : start ≤ k)
    {b : Block} {n : ℕ} (hid : b.id = id) (hnum : b.fileNum = k) (hne : decode decompress b ≠ [])
    (hdata : decode decompress b = ((contents k).drop pos).take n) :
    StreamLaw decompress contents id start k (pos + n) (blocks ++ [b]) := by
  refine ⟨h.sorted_append hnum, ?_, ?_, ?_, ?_⟩
  · intro c hc
    rcases List.mem_append.mp hc with hc | hc
    · exact h.range c hc
    · obtain rfl := List.mem_singleton.mp hc
      exact ⟨hid, hnum ▸ hle, hnum.le⟩
  · intro i hi hlt
    obtain ⟨data, hblocks, hdata⟩ := h.complete i hi hlt
    rw [blocksOf_append, if_neg (by omega)]
    exact ⟨data, hblocks, hdata⟩
  · rw [blocksOf_append, if_pos hnum]
    intro c hc
    rcases List.mem_append.mp hc with hc | hc
    · exact h.current.1 c hc
    · obtain rfl := List.mem_singleton.mp hc
      exact hne
  · rw [blocksOf_append, if_pos hnum, payload_append, h.current.2, hdata, ← List.take_add]

/-- The empty block that ends the current file. -/
theorem StreamLaw.fileEnd (h : StreamLaw decompress contents id start k pos blocks)
    (hle : start ≤ k) (hpos : (contents k).length ≤ pos) :
    StreamLaw decompress contents id start (k + 1) 0 (blocks ++ [⟨id, k, [], false⟩]) := by
  refine ⟨h.sorted_append rfl, ?_, ?_, ?_⟩
  · intro c hc
    rcases List.mem_append.mp hc with hc | hc
    · obtain ⟨hid, hstart, hk⟩ := h.range c hc
      exact ⟨hid, hstart, hk.trans (Nat.le_succ k)⟩
    · obtain rfl := List.mem_singleton.mp hc
      exact ⟨rfl, hle, Nat.le_succ k⟩
  · intro i hi hlt
    rw [blocksOf_append]
    rcases Nat.lt_succ_iff_lt_or_eq.mp hlt with hlt | rfl
    · rw [if_neg hlt.ne']
      exact h.complete i hi hlt
    · rw [if_pos rfl]
      refine ⟨_, rfl, h.current.1, ?_⟩
      rw [h.current.2, List.take_of_length_le hpos]
  · have hnone : blocksOf (blocks ++ [⟨id, k, [], false⟩]) (k + 1) = [] := by
      rw [blocksOf, List.filter_eq_nil_iff]
      intro c hc
      rcases List.mem_append.mp hc with hc | hc
      · have := (h.range c hc).2.2
        simp
        omega
      · obtain rfl := List.mem_singleton.mp hc
        simp
    rw [hnone, List.take_zero]
    exact ⟨nofun, rfl⟩

end Law

namespace Watched

/-! ## Runs in which nothing goes wrong -/

/-- A disk with the files of `src` on which everything works, with any reads. -/
def Works (src : FileSys) (disk : Disk) : Prop :=
  disk.fs = src ∧ disk.canOpen = true ∧ disk.metadata.isSome = true ∧
    ∀ n, (disk.want n).isSome = true

/-- The blocks of a record. -/
def sentBlocks (trace : List Happened) : List Block :=
  trace.filterMap fun
    | .sent _ (.block b) => some b
    | _ => none

theorem sentBlocks_append (trace more : List Happened) :
    sentBlocks (trace ++ more) = sentBlocks trace ++ sentBlocks more := List.filterMap_append

/-- The peer has been asked about file `k`. -/
def Asked (trace : List Happened) (k : ℕ) : Prop :=
  ∃ file id lastModified fileSize isResume, .sent file
    (.digest id k lastModified fileSize isResume) ∈ trace

theorem Asked.append {trace : List Happened} {k : ℕ} (h : Asked trace k) (more : List Happened) :
    Asked (trace ++ more) k := by
  obtain ⟨file, id, lastModified, fileSize, isResume, hmem⟩ := h
  exact ⟨file, id, lastModified, fileSize, isResume, List.mem_append_left _ hmem⟩

/-- The disk works, and the peer answers the digest of a file by asking for all of it. -/
def Smooth (src : FileSys) (w : Watched) : ReadAct → Prop
  | .tick _ disk => Works src disk
  | .confirm r _ => r.union = some (.offsetBlk 0) ∧ Asked w.trace r.fileNum

/-- **The invariant.** The job is at position `pos` of its file, and what it has sent is what
comes before. -/
structure Streaming (decompress : Bytes → Bytes) (src : FileSys) (p : PathName) (first : Job)
  (w : Watched)
    (pos : ℕ) : Prop where
  watching : Watching first w
  law : StreamLaw decompress (sourceBytes src p first.files)
    first.id first.fileNum w.job.fileNum pos
    (sentBlocks w.trace)
  stream : w.job.dataStream = none ∧ pos = 0 ∨
    w.job.fileNum < first.files.length ∧
      w.job.dataStream = some (.fileStream (entryPath p first.files w.job.fileNum) pos)
  pos_le : pos ≤ (sourceBytes src p first.files w.job.fileNum).length
  flags : w.job.fileConfirmed = true ∨ w.job.fileIsWaiting = true → w.job.dataStream ≠ none
  asked : w.job.fileIsWaiting = true → Asked w.trace w.job.fileNum
  skipped : w.job.fileSkipped = false
  size : w.job.finishedSize = first.finishedSize + (payload decompress (sentBlocks w.trace)).length
  done : (w.finished = true ∨ ∃ file id k, .sent file (.done id k) ∈ w.trace) →
    first.files.length ≤ w.job.fileNum
  le : first.fileNum ≤ first.files.length → w.job.fileNum ≤ first.files.length

/-- What is left to do for a job: a step for every byte, one for the digest and one for the end
of every file. -/
def work (src : FileSys) (p : PathName) (first : Job) (w : Watched) (pos : ℕ) : ℕ :=
  ∑ i ∈ Finset.Ico w.job.fileNum first.files.length,
    ((sourceBytes src p first.files i).length + 2) - pos +
    if w.job.fileIsWaiting then 0 else 1

variable {decompress compress : Bytes → Bytes} {src : FileSys} {p : PathName} {first : Job}
  {w : Watched}
  {pos : ℕ} {disk : Disk}

theorem Streaming.closed (h : Streaming decompress src p first w pos)
    (hend : first.files.length ≤ w.job.fileNum) : w.job.dataStream = none ∧ pos = 0 := by
  obtain h | ⟨hlt, -⟩ := h.stream
  · exact h
  · exact absurd hlt (Nat.not_lt.mpr hend)

/-- What `init_jobs` does where the disk works. -/
theorem Streaming.init_cases (hp : first.dataSource = .filePath p)
    (h : Streaming decompress src p first w pos) (hdisk : Works src disk) :
    (first.files.length ≤ w.job.fileNum ∧ w.job.init disk = (w.job, [])) ∨
    ∃ entry, first.files[w.job.fileNum]? = some entry ∧
      ((w.job.opened p entry).needsDigest = false ∧ w.job.init disk = (w.job.opened p entry, []) ∨
      (w.job.opened p entry).needsDigest = true ∧ ∃ lastModified fileSize,
        w.job.init disk = ({ w.job.opened p entry with fileIsWaiting := true },
          [.digest w.job.id w.job.fileNum lastModified fileSize w.job.isResume])) := by
  have hinit := Job.init_spec (h.watching.same.dataSource.trans hp) disk
  generalize w.job.init disk = r at hinit
  have hfiles := h.watching.same.files
  cases hinit with
  | ended hend =>
    rw [hfiles] at hend
    refine .inl ⟨hend, ?_⟩
    rw [← (h.closed hend).1]
  | unopened hlt hstream hopen =>
    rw [hdisk.2.1] at hopen
    cases hopen
  | ready entry hentry hopen hneeds =>
    rw [hfiles] at hentry
    exact .inr ⟨entry, hentry, .inl ⟨hneeds, rfl⟩⟩
  | unasked entry hentry hopen hneeds err hdigest =>
    -- the open stream is a file, and its metadata can be read
    obtain ⟨digest, hmeta⟩ := Option.isSome_iff_exists.mp hdisk.2.2.1
    obtain ⟨hstream, -⟩ | ⟨-, hstream⟩ := h.stream
    · simp [Job.opened, hstream, Job.getCurrentDigest, hmeta] at hdigest
    · simp [Job.opened, hstream, Job.getCurrentDigest, hmeta] at hdigest
  | asked entry hentry hopen hneeds lastModified fileSize hdigest =>
    rw [hfiles] at hentry
    exact .inr ⟨entry, hentry, .inr ⟨hneeds, lastModified, fileSize, rfl⟩⟩

theorem entryPath_eq {files : List FileEntry} {k : ℕ} {entry : FileEntry}
    (h : files[k]? = some entry) (p : PathName) : entryPath p files k = join p entry.name := by
  rw [entryPath, List.getD_eq_getElem?_getD, h, Option.getD_some]

theorem Streaming.opened (h : Streaming decompress src p first w pos) {entry : FileEntry}
    (hentry : first.files[w.job.fileNum]? = some entry) :
    Streaming decompress src p first { w with job := w.job.opened p entry } pos := by
  have hwatching := h.watching.opened p entry
  obtain ⟨hnone, rfl⟩ | ⟨-, hsome⟩ := h.stream
  · rw [Job.opened, if_pos hnone] at hwatching ⊢
    have hlt := (List.getElem?_eq_some_iff.mp hentry).1
    exact ⟨hwatching, h.law, .inr ⟨hlt, by rw [entryPath_eq hentry]⟩, h.pos_le,
      fun _ => Option.some_ne_none _, by rintro ⟨⟩, h.skipped, h.size, h.done, h.le⟩
  · rw [Job.opened, if_neg (by simp [hsome])]
    exact h

/-- The digest of the open file is sent. -/
theorem Streaming.ask (h : Streaming decompress src p first w pos)
    (hstream : w.job.dataStream ≠ none)
    {id : ℤ} {k lastModified fileSize : ℕ} {isResume : Bool} (hk : w.job.fileNum = k)
    (hwatching : Watching first ⟨{ w.job with fileIsWaiting := true }, w.finished,
      w.trace ++ [Happened.sent k (.digest id k lastModified fileSize isResume)]⟩) :
    Streaming decompress src p first ⟨{ w.job with fileIsWaiting := true }, w.finished,
      w.trace ++ [Happened.sent k (.digest id k lastModified fileSize isResume)]⟩ pos := by
  have hblocks :
    sentBlocks (w.trace ++ [Happened.sent k (.digest id k lastModified fileSize isResume)]) =
      sentBlocks w.trace := by
    rw [sentBlocks_append]
    exact List.append_nil _
  refine ⟨hwatching, ?_, h.stream, h.pos_le, fun _ => hstream, ?_, h.skipped, ?_, ?_, h.le⟩
  · rw [hblocks]
    exact h.law
  · exact fun _ => ⟨k, id, lastModified, fileSize, isResume, by simp [hk]⟩
  · rw [hblocks]
    exact h.size
  · rintro (hfinished | ⟨file, id, k, hmem⟩)
    · exact h.done (.inl hfinished)
    · exact h.done (.inr ⟨file, id, k, by simpa using hmem⟩)

/-- The reads of a disk that works. -/
theorem Works.want (hdisk : Works src disk) : ∃ want : ℕ → ℕ, disk.want = fun n => some (want n) :=
  ⟨fun n => (disk.want n).getD 0, funext fun n => by
    obtain ⟨m, hm⟩ := Option.isSome_iff_exists.mp (hdisk.2.2.2 n)
    simp [hm]⟩

variable (compress) in
/-- What the first job of the vector sends, its file being open and the peer wanting it: the
empty block at the end, else the next bytes. -/
theorem Streaming.read_cases (hp : first.dataSource = .filePath p)
    (h : Streaming decompress src p first w pos) (hdisk : Works src disk)
    (hwait : w.job.unconfirmed = false) (hstream : w.job.dataStream ≠ none) :
    let rest := (sourceBytes src p first.files w.job.fileNum).drop pos
    (rest = [] ∧ w.job.readOnce compress disk =
      ({ w.job with toTransferJob := w.job.nextFile },
        [.block ⟨w.job.id, w.job.fileNum, [], false⟩], false)) ∨
    ∃ n name sent, 0 < n ∧ n ≤ rest.length ∧ w.job.readOnce compress disk =
      ({ w.job with
          dataStream := some (.fileStream (entryPath p first.files w.job.fileNum) (pos + n))
          finishedSize := w.job.finishedSize + n, transferred := sent },
        [.block ⟨w.job.id, w.job.fileNum, (TransferJob.pack compress name true (rest.take n)).1,
          (TransferJob.pack compress name true (rest.take n)).2⟩], false) := by
  obtain ⟨hnone, -⟩ | ⟨hlt, hsome⟩ := h.stream
  · exact absurd hnone hstream
  obtain ⟨want, hwant⟩ := hdisk.want
  have hentry : w.job.files[w.job.fileNum]? = some (first.files.getD w.job.fileNum ⟨[], 0, 0⟩) := by
    rw [h.watching.same.files, TransferJob.getElem?_getD hlt]
  have hread := TransferJob.readBlock_eq compress src want
    (w.job.readName p (first.files.getD w.job.fileNum ⟨[], 0, 0⟩)) hsome
  rw [Job.readOnce, TransferJob.read_filePath compress (h.watching.same.dataSource.trans hp),
    if_neg (by simpa [Job.unconfirmed] using hwait), hentry, hwant, hdisk.1]
  dsimp only at hread ⊢
  rw [hread]
  set rest := (sourceBytes src p first.files w.job.fileNum).drop pos with hrest
  replace hrest : ((src.content (entryPath p first.files w.job.fileNum)).getD []).drop pos = rest :=
    rfl
  simp only [hrest]
  by_cases hnil : rest.take TransferJob.bufSize = []
  · rw [if_pos hnil]
    refine .inl ⟨?_, rfl⟩
    rcases List.take_eq_nil_iff.mp hnil with h | h
    · cases h
    · exact h
  · rw [if_neg hnil]
    have htake : rest.take (rest.take TransferJob.bufSize).length =
        rest.take TransferJob.bufSize := by
      simp [List.take_eq_take_iff]
    set name := w.job.readName p (first.files.getD w.job.fileNum ⟨[], 0, 0⟩)
    refine .inr ⟨(rest.take TransferJob.bufSize).length, name,
      w.job.transferred + (TransferJob.pack compress name true
        (rest.take TransferJob.bufSize)).1.length,
      List.length_pos_iff.mpr hnil, List.length_take_le' _ _, ?_⟩
    rw [htake]

theorem Streaming.lt (h : Streaming decompress src p first w pos)
    (hstream : w.job.dataStream ≠ none) : w.job.fileNum < first.files.length := by
  obtain ⟨hnone, -⟩ | ⟨hlt, -⟩ := h.stream
  · exact absurd hnone hstream
  · exact hlt

/-- A job at a file has not sent `done`. -/
theorem Streaming.not_done (h : Streaming decompress src p first w pos)
    (hlt : w.job.fileNum < first.files.length) {x : Happened}
    (hx : ∀ file id k, x ≠ .sent file (.done id k)) {finished : Bool} (hfin : finished = false) :
    ¬ (finished = true ∨ ∃ file id k, .sent file (.done id k) ∈ w.trace ++ [x]) := by
  rintro (hfinished | ⟨file, id, k, hmem⟩)
  · rw [hfin] at hfinished
    cases hfinished
  · rcases List.mem_append.mp hmem with hmem | hmem
    · exact Nat.not_lt.mpr (h.done (.inr ⟨file, id, k, hmem⟩)) hlt
    · exact hx file id k (List.mem_singleton.mp hmem).symm

/-- The first job of the vector sends the next block of its file. -/
theorem Streaming.read_open (hp : first.dataSource = .filePath p)
    (hcodec : ∀ x, decompress (compress x) = x) (h : Streaming decompress src p first w pos)
    (hdisk : Works src disk)
    (hwait : w.job.unconfirmed = false) (hstream : w.job.dataStream ≠ none) :
    ∃ pos', Streaming decompress src p first (w.read compress disk) pos' ∧
      work src p first (w.read compress disk) pos' < work src p first w pos := by
  have hlt := h.lt hstream
  have hwatching : Watching first (w.read compress disk) := h.watching.read hp disk
  have hid := h.watching.same.id
  have hsum := Finset.sum_eq_sum_Ico_succ_bot hlt fun i =>
    (sourceBytes src p first.files i).length + 2
  have hposle := h.pos_le
  obtain ⟨hrest, hread⟩ | ⟨n, name, sent, hn, hnle, hread⟩ :=
    h.read_cases compress hp hdisk hwait hstream
  · have heq : w.read compress disk = ⟨{ w.job with toTransferJob := w.job.nextFile }, false,
        w.trace ++ [Happened.sent w.job.fileNum
          (.block ⟨w.job.id, w.job.fileNum, [], false⟩)]⟩ := by
      rw [Watched.read, hread]
      rfl
    rw [heq] at hwatching ⊢
    refine ⟨0, ⟨hwatching, ?_, .inl ⟨rfl, rfl⟩, Nat.zero_le _,
      ?_, by rintro ⟨⟩, h.skipped, ?_, ?_, fun _ => hlt⟩, ?_⟩
    · rw [sentBlocks_append, hid]
      exact h.law.fileEnd h.watching.start_le (List.drop_eq_nil_iff.mp hrest)
    · rintro (⟨⟨⟩⟩ | ⟨⟨⟩⟩)
    · rw [sentBlocks_append]
      show w.job.finishedSize = _ + (payload decompress (sentBlocks w.trace ++ [_])).length
      rw [payload_append, h.size]
      simp [decode]
    · exact fun hdone => absurd hdone (h.not_done hlt (by simp) rfl)
    · show ∑ i ∈ Finset.Ico (w.job.fileNum + 1) first.files.length,
        ((sourceBytes src p first.files i).length + 2) - 0 + 1 < work src p first w pos
      rw [work, hsum]
      omega
  · have heq : w.read compress disk = ⟨{ w.job with
          dataStream := some (.fileStream (entryPath p first.files w.job.fileNum) (pos + n))
          finishedSize := w.job.finishedSize + n, transferred := sent }, false,
            w.trace ++ [Happened.sent w.job.fileNum
            (.block ⟨w.job.id, w.job.fileNum,
              (TransferJob.pack compress name true
                (((sourceBytes src p first.files w.job.fileNum).drop pos).take n)).1,
              (TransferJob.pack compress name true
                (((sourceBytes src p first.files w.job.fileNum).drop pos).take n)).2⟩)]⟩ := by
      rw [Watched.read, hread]
      rfl
    rw [heq] at hwatching ⊢
    have hdecode := TransferJob.decode_pack hcodec name true
      (((sourceBytes src p first.files w.job.fileNum).drop pos).take n) w.job.id w.job.fileNum
    rw [List.length_drop] at hnle
    refine ⟨pos + n, ⟨hwatching, ?_, .inr ⟨hlt, rfl⟩, ?_, fun _ => Option.some_ne_none _,
      fun hwaiting => (h.asked hwaiting).append _, h.skipped, ?_, ?_, h.le⟩, ?_⟩
    · rw [sentBlocks_append]
      refine h.law.block h.watching.start_le hid rfl ?_ hdecode
      rw [hdecode, ← List.length_pos_iff, List.length_take, List.length_drop]
      omega
    · show pos + n ≤ (sourceBytes src p first.files w.job.fileNum).length
      omega
    · rw [sentBlocks_append]
      show w.job.finishedSize + n = _ + (payload decompress (sentBlocks w.trace ++ [_])).length
      rw [payload_append, hdecode, h.size, List.length_append, List.length_take, List.length_drop]
      omega
    · exact fun hdone => absurd hdone (h.not_done hlt (by simp) rfl)
    · simp only [work]
      rw [hsum]
      omega

theorem Streaming.unfinished (h : Streaming decompress src p first w pos) :
    Streaming decompress src p first { w with finished := false } pos := by
  refine ⟨h.watching.finish false, h.law, h.stream, h.pos_le, h.flags, h.asked, h.skipped, h.size,
    ?_, h.le⟩
  rintro (⟨⟨⟩⟩ | hdone)
  exact h.done (.inr hdone)

variable (compress disk) in
/-- A job past its last file ends. -/
theorem Streaming.read_past (hp : first.dataSource = .filePath p)
    (h : Streaming decompress src p first w pos) (hend : first.files.length ≤ w.job.fileNum) :
    Streaming decompress src p first (w.read compress disk) pos ∧
      (w.read compress disk).finished = true := by
  have hclosed := h.closed hend
  have hflags : w.job.fileConfirmed = false ∧ w.job.fileIsWaiting = false := by
    have hflags := mt h.flags (not_not.mpr hclosed.1)
    simpa [not_or] using hflags
  have hcomplete : w.job.complete = ([.done w.job.id w.job.fileNum], true) := by
    simp [Job.complete, Job.jobError, Job.jobCompleted, Job.jobSkipped, hflags, h.skipped]
  have hread : w.job.readOnce compress disk = (w.job, [.done w.job.id w.job.fileNum], true) := by
    rw [← hcomplete]
    have hspec := Job.readOnce_spec compress (h.watching.same.dataSource.trans hp) disk
    rw [← h.watching.same.files] at hend
    generalize w.job.readOnce compress disk = r at hspec
    cases hspec with
    | waiting => rfl
    | ended => rw [← hclosed.1]
    | closed _ hlt => exact absurd hlt (Nat.not_lt.mpr hend)
    | failed _ hlt => exact absurd hlt (Nat.not_lt.mpr hend)
    | fileEnd _ hlt => exact absurd hlt (Nat.not_lt.mpr hend)
    | block _ hlt => exact absurd hlt (Nat.not_lt.mpr hend)
  have hwatching : Watching first (w.read compress disk) := h.watching.read hp disk
  have heq : w.read compress disk =
      ⟨w.job, true, w.trace ++ [Happened.sent w.job.fileNum (.done w.job.id w.job.fileNum)]⟩ := by
    rw [Watched.read, hread]
    rfl
  have hblocks :
    sentBlocks (w.trace ++ [Happened.sent w.job.fileNum (.done w.job.id w.job.fileNum)]) =
      sentBlocks w.trace := by
    rw [sentBlocks_append]
    exact List.append_nil _
  rw [heq] at hwatching ⊢
  refine ⟨⟨hwatching, ?_, h.stream, h.pos_le, h.flags, fun hwaiting => (h.asked hwaiting).append _,
    h.skipped,
    ?_, fun _ => hend, h.le⟩, rfl⟩
  · rw [hblocks]
    exact h.law
  · rw [hblocks]
    exact h.size

/-- A job that waits for the peer sends nothing. -/
theorem Streaming.read_waiting (hp : first.dataSource = .filePath p)
    (h : Streaming decompress src p first w pos) (hfinished : w.finished = false)
    (hunconfirmed : w.job.unconfirmed = true) (hwaiting : w.job.fileIsWaiting = true) :
    w.read compress disk = w := by
  have hdetect : w.job.enableOverwriteDetection = true := by
    simp [Job.unconfirmed] at hunconfirmed
    exact hunconfirmed.1.2
  have hread : w.job.readOnce compress disk = (w.job, [], false) := by
    rw [Job.readOnce, TransferJob.read_filePath compress (h.watching.same.dataSource.trans hp),
      if_pos (by simpa [Job.unconfirmed, and_assoc] using hunconfirmed)]
    simp [Job.complete, Job.jobCompleted, hdetect, hwaiting]
  rw [Watched.read, hread, List.map_nil, List.append_nil, ← hfinished]

/-- Opening a file leaves the flags as they are. -/
theorem Streaming.opened_flags (h : Streaming decompress src p first w pos) (entry : FileEntry) :
    (w.job.opened p entry).fileConfirmed = w.job.fileConfirmed ∧
      (w.job.opened p entry).fileIsWaiting = w.job.fileIsWaiting := by
  by_cases hstream : w.job.dataStream = none
  · have hflags := mt h.flags (not_not.mpr hstream)
    rw [not_or, Bool.not_eq_true, Bool.not_eq_true] at hflags
    rw [Job.opened, if_pos hstream, hflags.1, hflags.2]
    exact ⟨rfl, rfl⟩
  · rw [Job.opened, if_neg hstream]
    exact ⟨rfl, rfl⟩

/-- A run of the driver: the job goes on, and gets nearer to its end if it is the first and does
not wait for the peer. -/
theorem Streaming.tick (hp : first.dataSource = .filePath p)
    (hcodec : ∀ x, decompress (compress x) = x) (h : Streaming decompress src p first w pos)
    (hdisk : Works src disk) (reads : Bool) :
    ∃ pos', Streaming decompress src p first (w.tick compress reads disk) pos' ∧
      (reads = true → (w.job.fileIsWaiting = true → w.job.fileConfirmed = true) →
        (w.tick compress reads disk).finished = true ∨
          work src p first (w.tick compress reads disk) pos' < work src p first w pos) := by
  have hinitial : Watching first (w.init disk) := h.watching.init hp disk
  obtain ⟨hend, hinit⟩ | ⟨entry, hentry, ⟨hneeds, hinit⟩ | ⟨hneeds, lastModified, fileSize,
    hinit⟩⟩ :=
    h.init_cases hp hdisk
  · have heq : w.init disk = { w with finished := false } := by
      rw [Watched.init, hinit, List.map_nil, List.append_nil]
    rw [Watched.tick, heq]
    cases reads with
    | false => exact ⟨pos, h.unfinished, by rintro ⟨⟩⟩
    | true =>
      obtain ⟨hread, hfinished⟩ := h.unfinished.read_past compress disk hp hend
      exact ⟨pos, hread, fun _ _ => .inl hfinished⟩
  · -- the file is open, and the peer need not be asked
    obtain ⟨hconfirmed, hwaiting⟩ := h.opened_flags entry
    have heq : w.init disk = ⟨w.job.opened p entry, false, w.trace⟩ := by
      rw [Watched.init, hinit, List.map_nil, List.append_nil]
    have hopen : Streaming decompress src p first ⟨w.job.opened p entry, false, w.trace⟩ pos :=
      (h.opened hentry).unfinished
    have hwork : work src p first ⟨w.job.opened p entry, false, w.trace⟩ pos =
        work src p first w pos := by
      rw [work, work, Job.opened_fileNum, hwaiting]
    rw [Watched.tick, heq]
    cases reads with
    | false => exact ⟨pos, hopen, by rintro ⟨⟩⟩
    | true =>
      cases hunconfirmed : (w.job.opened p entry).unconfirmed with
      | true =>
        have hwaits : (w.job.opened p entry).fileIsWaiting = true := by
          simp only [Job.unconfirmed, Job.needsDigest] at hunconfirmed hneeds
          simpa [hunconfirmed] using hneeds
        rw [if_pos rfl, hopen.read_waiting hp rfl hunconfirmed hwaits]
        refine ⟨pos, hopen, fun _ hanswered => ?_⟩
        rw [hwaiting] at hwaits
        rw [← hconfirmed] at hanswered
        simp [Job.unconfirmed, hanswered hwaits] at hunconfirmed
      | false =>
        obtain ⟨pos', hread, hless⟩ :=
          hopen.read_open hp hcodec hdisk hunconfirmed (opened_dataStream _ _ _)
        exact ⟨pos', hread, fun _ _ => .inr (hwork ▸ hless)⟩
  · -- the peer is asked
    have hwaiting := (h.opened_flags entry).2
    have heq : w.init disk = ⟨{ w.job.opened p entry with fileIsWaiting := true }, false,
        w.trace ++ [Happened.sent w.job.fileNum
          (.digest w.job.id w.job.fileNum lastModified fileSize w.job.isResume)]⟩ := by
      rw [Watched.init, hinit]
      rfl
    rw [heq] at hinitial
    have hasked := (h.opened hentry).unfinished.ask (opened_dataStream _ _ _)
      (Job.opened_fileNum _ _ _) hinitial
    simp only [Job.needsDigest, Bool.and_eq_true, Bool.not_eq_true'] at hneeds
    obtain ⟨⟨hdetect, hconfirmed⟩, hneeds⟩ := hneeds
    have htick : w.tick compress reads disk = w.init disk := by
      rw [Watched.tick, heq]
      split
      · exact hasked.read_waiting hp rfl (by simp [Job.unconfirmed, hdetect, hconfirmed]) rfl
      · rfl
    rw [htick, heq]
    refine ⟨pos, hasked, fun _ _ => .inr ?_⟩
    rw [work, work, ← hwaiting, hneeds]
    show _ - _ + 0 < _ - _ + 1
    rw [Job.opened_fileNum]
    exact Nat.lt_succ_self _

/-- The peer answers a digest by asking for the whole file. -/
theorem Streaming.confirm (h : Streaming decompress src p first w pos) {r : SendConfirm}
    (hsmooth : Smooth src w (.confirm r disk)) :
    Streaming decompress src p first (w.confirm r disk) pos ∧
      work src p first (w.confirm r disk) pos = work src p first w pos := by
  obtain ⟨hunion, file, id, lastModified, fileSize, isResume, hmem⟩ := hsmooth
  have hwatching : Watching first (w.confirm r disk) := h.watching.confirm r disk
  by_cases hr : w.job.fileNum = r.fileNum
  · have heq : w.confirm r disk =
        { w with
          job := w.job.setFileConfirmed true, trace := w.trace ++ [Happened.applied r] } := by
      rw [Watched.confirm, Job.confirm, if_neg (not_not.mpr hr), if_pos hr, hunion]
      rfl
    have hblocks : sentBlocks (w.trace ++ [Happened.applied r]) = sentBlocks w.trace := by
      rw [sentBlocks_append]
      exact List.append_nil _
    -- the digest was that of the file the job is at, so the file is open
    obtain ⟨-, -, hasked⟩ := h.watching.asked _ _ _ _ _ _ hmem
    obtain ⟨-, hstream⟩ := hasked hr.symm
    rw [heq] at hwatching ⊢
    refine ⟨⟨hwatching, ?_, h.stream, h.pos_le, fun _ => hstream,
      fun hwaiting => (h.asked hwaiting).append _,
      rfl, ?_, ?_, h.le⟩, rfl⟩
    · rw [hblocks]
      exact h.law
    · rw [hblocks]
      exact h.size
    · rintro (hfinished | ⟨file, id, k, hmem⟩)
      · exact h.done (.inl hfinished)
      · exact h.done (.inr ⟨file, id, k, by simpa using hmem⟩)
  · have heq : w.confirm r disk = w := by
      rw [Watched.confirm, Job.confirm, if_pos hr, if_neg hr]
    rw [heq]
    exact ⟨h, rfl⟩

theorem Streaming.step (hp : first.dataSource = .filePath p)
    (hcodec : ∀ x, decompress (compress x) = x) {w' : Watched} {a : ReadAct}
    (h : ∃ pos, Streaming decompress src p first w pos) (hsmooth : Smooth src w a)
    (hs : w.step compress a = some w') : ∃ pos, Streaming decompress src p first w' pos := by
  obtain ⟨pos, h⟩ := h
  cases a with
  | tick reads disk =>
    rw [Watched.step] at hs
    split at hs
    · cases hs
    · obtain rfl := Option.some.inj hs
      obtain ⟨pos', htick, -⟩ := h.tick hp hcodec hsmooth reads
      exact ⟨pos', htick⟩
  | confirm r disk =>
    rw [Watched.step] at hs
    split at hs
    · cases hs
    · obtain rfl := Option.some.inj hs
      exact ⟨pos, (h.confirm hsmooth).1⟩

/-! ## The end of the stream -/

section Drive

variable (compress)

/-- The digest the job waits for an answer to is answered. -/
def answered (w : Watched) (disk : Disk) : Watched :=
  if w.job.fileIsWaiting && !w.job.fileConfirmed then
    w.confirm ⟨w.job.id, w.job.fileNum, some (.offsetBlk 0)⟩ disk
  else w

/-- The driver runs again and again, on one disk after the other, with the job as the first and
every digest answered. -/
def drive : Watched → List Disk → Watched
  | w, [] => w
  | w, disk :: disks =>
    if w.finished then w else drive ((w.answered disk).tick compress true disk) disks

end Drive

theorem Streaming.answered (h : Streaming decompress src p first w pos) (disk : Disk) :
    Streaming decompress src p first (w.answered disk) pos ∧
      work src p first (w.answered disk) pos = work src p first w pos ∧
      ((w.answered disk).job.fileIsWaiting = true →
        (w.answered disk).job.fileConfirmed = true) := by
  rw [Watched.answered]
  split
  · next hwaits =>
    simp only [Bool.and_eq_true] at hwaits
    have hsmooth : Smooth src w (.confirm ⟨w.job.id, w.job.fileNum, some (.offsetBlk 0)⟩ disk) :=
      ⟨rfl, h.asked hwaits.1⟩
    obtain ⟨hconfirm, hwork⟩ := h.confirm hsmooth
    refine ⟨hconfirm, hwork, fun _ => ?_⟩
    simp [Watched.confirm, Job.confirm, Job.setFileConfirmed]
  · next hwaits =>
    refine ⟨h, rfl, fun hwaiting => ?_⟩
    simpa [hwaiting] using hwaits

variable (compress) in
/-- An answer is an action, or none is needed. -/
theorem Streaming.answered_run (h : Streaming decompress src p first w pos)
    (hfinished : w.finished = false) (disk : Disk) :
    ∃ acts, Along (Watched.step compress) (Smooth src) w acts ∧
      exec (Watched.step compress) w acts = some (w.answered disk) ∧
        (w.answered disk).finished = false := by
  rw [Watched.answered]
  split
  · next hwaits =>
    simp only [Bool.and_eq_true] at hwaits
    have hstep : w.step compress (.confirm ⟨w.job.id, w.job.fileNum, some (.offsetBlk 0)⟩ disk) =
        some (w.confirm ⟨w.job.id, w.job.fileNum, some (.offsetBlk 0)⟩ disk) := by
      simp [Watched.step, hfinished]
    refine ⟨[.confirm ⟨w.job.id, w.job.fileNum, some (.offsetBlk 0)⟩ disk],
      ⟨⟨rfl, h.asked hwaits.1⟩, ?_⟩,
      exec_cons.mpr ⟨_, hstep, rfl⟩, hfinished⟩
    rw [hstep]
    trivial
  · exact ⟨[], trivial, rfl, hfinished⟩

/-- The runs of the driver are a run of the job, and enough of them end it. -/
theorem Streaming.drive (hp : first.dataSource = .filePath p)
    (hcodec : ∀ x, decompress (compress x) = x) {disks : List Disk}
    (hdisks : ∀ disk ∈ disks, Works src disk) :
    ∀ {w : Watched} {pos : ℕ}, Streaming decompress src p first w pos →
      (work src p first w pos < disks.length → (drive compress w disks).finished = true) ∧
      ∃ acts, Along (Watched.step compress) (Smooth src) w acts ∧
        exec (Watched.step compress) w acts = some (drive compress w disks) := by
  induction disks with
  | nil =>
    intro w pos _
    exact ⟨nofun, [], trivial, rfl⟩
  | cons disk disks ih =>
    intro w pos h
    rw [Watched.drive]
    split
    · next hfinished => exact ⟨fun _ => hfinished, [], trivial, rfl⟩
    · next hfinished =>
      obtain ⟨hdisk, hdisks⟩ := List.forall_mem_cons.mp hdisks
      obtain ⟨hanswered, hwork, hready⟩ := h.answered disk
      obtain ⟨pos', htick, hless⟩ := hanswered.tick hp hcodec hdisk true
      obtain ⟨hends, acts', halong', hexec'⟩ := ih hdisks htick
      obtain ⟨acts, halong, hexec, hrunning⟩ :=
        h.answered_run compress (Bool.eq_false_iff.mpr hfinished) disk
      have hstep : (w.answered disk).step compress (.tick true disk) =
          some ((w.answered disk).tick compress true disk) := by
        simp [Watched.step, hrunning]
      refine ⟨fun hlt => ?_, acts ++ .tick true disk :: acts', ?_, ?_⟩
      · rcases hless rfl hready with hfinished | hless
        · cases disks with
          | nil => exact hfinished
          | cons disk disks => rw [Watched.drive, if_pos hfinished, hfinished]
        · exact hends (by rw [List.length_cons] at hlt; omega)
      · refine along_append halong hexec ⟨hdisk, ?_⟩
        rw [hstep]
        exact halong'
      · exact exec_append.mpr ⟨_, hexec, exec_cons.mpr ⟨_, hstep, hexec'⟩⟩

theorem streaming_start {job : TransferJob} (hsource : job.dataStream = none)
    (hflags : job.fileConfirmed = false ∧ job.fileIsWaiting = false) :
    Streaming decompress src p (Job.new job) (start job) 0 := by
  refine ⟨watching_start hflags.1, streamLaw_start _, .inl ⟨hsource, rfl⟩, Nat.zero_le _, ?_, ?_,
    rfl, rfl, ?_, id⟩
  · rintro (hconfirmed | hwaiting)
    · exact absurd hconfirmed (by simp [start, Job.new, hflags.1])
    · exact absurd hwaiting (by simp [start, Job.new, hflags.2])
  · intro hwaiting
    exact absurd hwaiting (by simp [start, Job.new, hflags.2])
  · simp [start]

/-- **The reader's stream.** A job that reads files from `fileNum` on, with or without overwrite
detection, on a disk that works and with every digest answered by asking for the whole file. After
any run of it, whatever the reads of the disk return: the blocks are the files in order, each
ended by one empty block, up to where the job is; the bytes are counted; the job ends, and sends
`done`, only past the last file. And repeated runs of the driver end it. -/
theorem reader_stream_law {decompress compress : Bytes → Bytes}
    (hcodec : ∀ x, decompress (compress x) = x)
    {src : FileSys} {id : ℤ} {jobType : JobType} {p : PathName} {fileNum : ℕ} {overwrite : Bool}
    {files : List FileEntry} {acts : List ReadAct} {w : Watched}
    (hrun : exec (step compress) (start (.newRead id jobType (.filePath p) fileNum overwrite files))
    acts =
      some w) (hsmooth : Along (step compress) (Smooth src)
      (start (.newRead id jobType (.filePath p) fileNum overwrite files)) acts) :
    (∃ pos, StreamLaw decompress (sourceBytes src p files)
    id fileNum w.job.fileNum pos (sentBlocks w.trace)) ∧
    w.job.finishedSize = (payload decompress (sentBlocks w.trace)).length ∧
    ((w.finished = true ∨ ∃ file i k, .sent file (.done i k) ∈ w.trace) →
    files.length ≤ w.job.fileNum) ∧
    (fileNum ≤ files.length → w.job.fileNum ≤ files.length) ∧
    ∃ rounds, ∀ disks : List Disk, (∀ disk ∈ disks, Works src disk) → rounds ≤ disks.length →
      (drive compress w disks).finished = true ∧
      ∃ acts', Along (step compress) (Smooth src) w acts' ∧
        exec (step compress) w acts' = some (drive compress w disks) := by
  obtain ⟨pos, h⟩ := exec_invariant_along (fun _ _ _ h hC hs => Streaming.step rfl hcodec h hC hs)
    (I := fun w => ∃ pos, Streaming decompress src p
      (Job.new (.newRead id jobType (.filePath p) fileNum overwrite files)) w pos)
    ⟨0, streaming_start rfl ⟨rfl, rfl⟩⟩ hsmooth hrun
  refine ⟨⟨pos, h.law⟩, ?_, h.done, h.le,
    work src p (Job.new (.newRead id jobType (.filePath p) fileNum overwrite files)) w pos + 1,
    fun disks hdisks hrounds => ?_⟩
  · rw [h.size]
    exact Nat.zero_add _
  · obtain ⟨hends, hacts⟩ := h.drive rfl hcodec hdisks
    exact ⟨hends hrounds, hacts⟩

/-- One file is sent, in one block, and the job ends. -/
theorem reader_stream_law_one_file : ∃ w, exec (step TransferJob.stored)
        (start (.newRead 7 .generic (.filePath "s".toList) 0 false (TransferJob.entriesOf ["a"])))
        [.tick true (readable [("a", [1, 2, 3])]), .tick true (readable [("a", [1, 2, 3])]),
          .tick true (readable [("a", [1, 2, 3])])] = some w ∧
      w.finished = true ∧ sentBlocks w.trace = [⟨7, 0, [1, 2, 3], false⟩, ⟨7, 0, [], false⟩] ∧
      ∃ pos, StreamLaw TransferJob.stored
        (sourceBytes (TransferJob.sourceOf [("a", [1, 2, 3])])
          "s".toList (TransferJob.entriesOf ["a"])) 7 0
        w.job.fileNum pos (sentBlocks w.trace) := by
  have hrun : (exec (step TransferJob.stored)
      (start (.newRead 7 .generic (.filePath "s".toList) 0 false (TransferJob.entriesOf ["a"])))
      [.tick true (readable [("a", [1, 2, 3])]), .tick true (readable [("a", [1, 2, 3])]),
        .tick true (readable [("a", [1, 2, 3])])]).any
      (fun w => decide (w.finished = true ∧
        sentBlocks w.trace = [⟨7, 0, [1, 2, 3], false⟩, ⟨7, 0, [], false⟩])) = true := by
    decide +kernel
  obtain ⟨w, hw, hp⟩ := (Option.any_eq_true _ _).mp hrun
  obtain ⟨hfinished, hblocks⟩ := of_decide_eq_true hp
  have hworks : Works (TransferJob.sourceOf [("a", [1, 2, 3])]) (readable [("a", [1, 2, 3])]) :=
    ⟨rfl, rfl, rfl, fun _ => rfl⟩
  have hsmooth : Along (step TransferJob.stored) (Smooth (TransferJob.sourceOf [("a", [1, 2, 3])]))
      (start (.newRead 7 .generic (.filePath "s".toList) 0 false (TransferJob.entriesOf ["a"])))
      [.tick true (readable [("a", [1, 2, 3])]), .tick true (readable [("a", [1, 2, 3])]),
        .tick true (readable [("a", [1, 2, 3])])] := by
    refine along_of_forall ?_ _
    intro a ha _
    obtain rfl : a = .tick true (readable [("a", [1, 2, 3])]) := by simpa using ha
    exact hworks
  exact ⟨w, hw, hfinished, hblocks, (reader_stream_law (fun _ => rfl) hw hsmooth).1⟩

end Watched
end Fs
end BgDesk
