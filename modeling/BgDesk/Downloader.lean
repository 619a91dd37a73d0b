import Mathlib.Logic.Function.Basic
import BgDesk.Machine
import BgDesk.FileSystem

/-!
# Download jobs

`src/hbbs_http/downloader.rs`: a map from URLs to jobs behind a lock, and for every job a thread
that downloads it. The thread knows its entry by the URL alone. While the entry it was started for
is in the map that is enough; but the entry can be removed, and another one can be put there for the
same URL, while the thread is still at work. What the thread does then, it does to the other entry.

The model has the threads take turns between their critical sections. A `Downloader` carries the
number of the job it was inserted for, in the place of its `tx_cancel`: it decides who is told when
the entry is dropped, and nothing else.

* `Worker.proceed` — a thread outside the lock, `Worker.locked` — its critical sections;
* `State.downloadFile`, `State.cancel`, `State.remove` — the calls;
* `jobs_isolated` — where no entry is inserted for a URL whose earlier thread is still at work,
  every thread changes its own entry only, and what is reported as finished is what was received.
-/

namespace BgDesk
namespace Download

/-- `Downloader`. -/
structure Downloader where
  /-- the job whose thread has the other end of `tx_cancel` -/
  job : ℕ
  data : Bytes
  path : Option PathName
  totalSize : ℕ
  artifactSha256 : String
  downloadedSize : ℕ
  error : Option String
  finished : Bool
  deriving DecidableEq

/-- `DownloadOptions`. -/
structure DownloadOptions where
  expectedSize : ℕ
  artifactSha256 : String
  deriving DecidableEq

/-- `matches_request`. -/
def Downloader.matchesRequest (d : Downloader) (path : Option PathName)
    (options : DownloadOptions) : Bool :=
  d.path = path ∧ d.totalSize = options.expectedSize ∧ d.artifactSha256 = options.artifactSha256

/-! ## The thread -/

/-- Where the thread of a job stands: in `do_download`, or in what follows it. -/
inductive Phase where
  /-- before `create_http_client_async_with_url_strict` -/
  | connecting : Phase
  /-- at the first `select!` -/
  | requesting : Phase
  /-- before the file is opened, if there is one -/
  | opening : Phase
  /-- at the `select!` of the loop -/
  | receiving : Phase
  /-- with a chunk that is not stored yet -/
  | storing : Bytes → Phase
  /-- before the new size is put into the entry -/
  | sizing : Phase
  /-- behind the loop, with `is_all_downloaded` -/
  | ending : Bool → Phase
  /-- before `finished` is set -/
  | finishing : Phase
  /-- `do_download` has returned `Ok` -/
  | logging : Bool → Phase
  /-- before a canceled job is removed -/
  | removing : Phase
  /-- `do_download` has returned an error -/
  | failing : String → Phase
  | done : Phase
  deriving DecidableEq

/-- The thread of a job: its `DownloadRequest`, its variables, and all the bytes it was sent so far.
-/
structure Worker where
  url : String
  path : Option PathName
  expectedSize : ℕ
  /-- `rx_cancel.recv()` is ready: there is a message, or the sender was dropped -/
  canceled : Bool
  downloadedSize : ℕ
  body : Bytes
  phase : Phase
  deriving DecidableEq

/-- What a thread is told by the network and the file system. -/
inductive Move where
  | ready : Move
  | canceled : Move
  | chunk : Bytes → Move
  | endOfBody : Move
  | failed : (error : String) → Move
  deriving DecidableEq

namespace Worker

/-- The next step of `do_download` outside the lock, and the file it creates. -/
def proceed (w : Worker) (files : PathName → Bool) (move : Move) :
    Option (Worker × Option PathName) :=
  match w.phase, move with
  | .connecting, .ready => some ({ w with phase := .requesting }, none)
  | .connecting, .failed e => some ({ w with phase := .failing e }, none)
  | .requesting, .canceled =>
    if w.canceled then some ({ w with phase := .logging false }, none) else none
  | .requesting, .ready => some ({ w with phase := .opening }, none)
  | .requesting, .failed e => some ({ w with phase := .failing e }, none)
  | .opening, .ready =>
    match w.path with
    | none => some ({ w with phase := .receiving }, none)
    -- `create_new`: a file that is there is an error
    | some p => if files p then none else some ({ w with phase := .receiving }, some p)
  | .opening, .failed e =>
    if w.path = none then none else some ({ w with phase := .failing e }, none)
  | .receiving, .canceled =>
    if w.canceled then some ({ w with phase := .ending false }, none) else none
  | .receiving, .chunk c =>
    let expected := w.expectedSize
    let next := w.downloadedSize + c.length
    let w := { w with body := w.body ++ c }
    if 2 ^ 64 ≤ next then some ({ w with phase := .failing "Download size overflow" }, none)
    else if expected < next then
      some ({ w with
        phase :=
          .failing s!"Download size exceeds expected size: expected {expected}, got {next}" }, none)
    else some ({ w with phase := .storing c }, none)
  | .receiving, .endOfBody => some ({ w with phase := .ending true }, none)
  | .receiving, .failed e => some ({ w with phase := .failing e }, none)
  | .storing c, .ready =>
    if w.path = none then none
    else some ({ w with downloadedSize := w.downloadedSize + c.length, phase := .sizing }, none)
  | .storing _, .failed e =>
    if w.path = none then none else some ({ w with phase := .failing e }, none)
  | .ending all, .ready =>
    let expected := w.expectedSize
    let downloaded := w.downloadedSize
    if all ∧ downloaded ≠ expected then
      some ({ w with
        phase := .failing s!"Download size mismatch: expected {expected}, got {downloaded}" }, none)
    else if all then some ({ w with phase := .finishing }, none)
    else some ({ w with phase := .logging false }, none)
  | .ending _, .failed e =>
    if w.path = none then none else some ({ w with phase := .failing e }, none)
  | _, _ => none

/-- An error of a critical section that does not find the entry. -/
def notFound (w : Worker) : Worker := { w with phase := .failing "Downloader not found" }

/-- The critical section a thread stands at, on the entry that is in the map under its URL: what
becomes of the entry, and the file that is to be deleted. -/
def locked (w : Worker) (entry : Option Downloader) :
    Option (Worker × Option Downloader × Option PathName) :=
  match w.phase, entry with
  | .storing _, none => if w.path = none then some (w.notFound, none, none) else none
  | .storing c, some d =>
    if w.path = none then
      some ({ w with downloadedSize := w.downloadedSize + c.length, phase := .sizing },
        some { d with data := d.data ++ c }, none)
    else none
  | .sizing, none => some (w.notFound, none, none)
  | .sizing, some d =>
    some ({ w with phase := .receiving }, some { d with downloadedSize := w.downloadedSize }, none)
  | .finishing, none => some (w.notFound, none, none)
  | .finishing, some d =>
    some ({ w with phase := .logging true }, some { d with finished := true }, none)
  | .logging all, entry => some ({ w with phase := if all then .done else .removing }, entry, none)
  | .removing, none => some ({ w with phase := .done }, none, none)
  | .removing, some d => some ({ w with phase := .done }, none, d.path)
  | .failing e, entry =>
    some ({ w with phase := .done }, entry.map fun d => { d with error := some e }, none)
  | _, _ => none

end Worker

/-! ## The map -/

/-- `DOWNLOADERS`, the threads by their jobs, and the files that exist. -/
structure State where
  downloaders : String → Option Downloader
  workers : List Worker
  files : PathName → Bool

/-- How `prepare_download_path` ends. -/
inductive Prepared where
  | ready
  | notRemoved (error : String)
  | noDirectory (error : String)
  deriving DecidableEq

/-- A step: a call, or one of a thread. What the file system does is part of it. -/
inductive Action where
  | downloadFile : (url : String) → (path : Option PathName) → (options : DownloadOptions) →
    (staleRemoved : Bool) →
      (prepared : Prepared) → Action
  | cancel : (id : String) → Action
  | remove : (id : String) → Action
  | proceed : (job : ℕ) → (move : Move) → Action
  | locked : (job : ℕ) → (removed : Bool) → Action

namespace State

def start : State := ⟨fun _ => none, [], fun _ => false⟩

/-- The receiver of a job is told to stop. -/
def tell (s : State) (job : ℕ) : State :=
  { s with workers := s.workers.modify job fun w => { w with canceled := true } }

/-- What a map entry becomes. An entry that is taken out is dropped, and its sender with it. -/
def put (s : State) (id : String) (entry : Option Downloader) : State :=
  let s' := match s.downloaders id, entry with
    | some d, none => s.tell d.job
    | _, _ => s
  { s' with downloaders := Function.update s.downloaders id entry }

/-- A file is gone. -/
def deleteFile (s : State) (p : PathName) : State :=
  { s with files := Function.update s.files p false }

/-- `download_file` returns before it looks for a new job. -/
def existing (s : State) (url : String) (path : Option PathName) (options : DownloadOptions) :
    Option (Except String String) :=
  match s.downloaders url with
  | some d =>
    if d.error = none then
      if d.matchesRequest path options then some (.ok url)
      else some (.error "Existing download job does not match requested artifact")
    else none
  | none => none

/-- The path of a job that failed is taken away, unless it is to be used again. -/
def removeStale (s : State) (url : String) (path : Option PathName) (staleRemoved : Bool) : State :=
  let stale := (s.downloaders url).bind Downloader.path
  let s := s.put url none
  match stale with
  | some p => if stale ≠ path ∧ s.files p ∧ staleRemoved then s.deleteFile p else s
  | none => s

/-- The entry of a new job, and its thread. -/
def insert (s : State) (url : String) (path : Option PathName) (options : DownloadOptions) :
    State :=
  { s with
    downloaders := Function.update s.downloaders url
      (some ⟨s.workers.length, [], path, options.expectedSize, options.artifactSha256, 0,
        none, false⟩)
    workers := s.workers ++ [⟨url, path, options.expectedSize, false, 0, [], .connecting⟩] }

/-- `download_file`. -/
def downloadFile (s : State) (url : String) (path : Option PathName) (options : DownloadOptions)
    (staleRemoved : Bool) (prepared : Prepared) : Except String String × State :=
  match s.existing url path options with
  | some result => (result, s)
  | none =>
    let s := s.removeStale url path staleRemoved
    match path, prepared with
    | none, _ => (.ok url, s.insert url path options)
    | some _, .notRemoved e => (.error e, s)
    | some p, .noDirectory e => (.error e, s.deleteFile p)
    | some p, .ready => (.ok url, (s.deleteFile p).insert url path options)

/-- `cancel`. -/
def cancel (s : State) (id : String) : State :=
  match s.downloaders id with
  | some d => s.tell d.job
  | none => s

/-- `remove`. -/
def remove (s : State) (id : String) : State := s.put id none

/-- One step. -/
def step (s : State) : Action → Option State
  | .downloadFile url path options staleRemoved prepared =>
    some (s.downloadFile url path options staleRemoved prepared).2
  | .cancel id => some (s.cancel id)
  | .remove id => some (s.remove id)
  | .proceed job move => do
    let w ← s.workers[job]?
    let (w', created) ← w.proceed s.files move
    some { s with
      workers := s.workers.set job w'
      files := match created with
        | some p => Function.update s.files p true
        | none => s.files }
  | .locked job removed => do
    let w ← s.workers[job]?
    let (w', entry, deleted) ← w.locked (s.downloaders w.url)
    let s' := { s with workers := s.workers.set job w' }.put w.url entry
    match deleted with
    | some p => some (if s.files p ∧ removed then s'.deleteFile p else s')
    | none => some s'

end State

/-! ## What a thread keeps of its entry -/

/-- Nothing of the entry is going to be changed any more. -/
def Phase.over : Phase → Bool
  | .logging true => true
  | .done => true
  | _ => false

/-- The entry has been told the size. -/
def Phase.sized : Phase → Bool
  | .connecting | .requesting | .opening | .receiving | .storing _ | .ending _ | .finishing => true
  | _ => false

/-- What the entry holds of the bytes that came, while no error has come between. -/
def Phase.Holds (data body : Bytes) : Phase → Prop
  | .connecting | .requesting | .opening | .receiving | .sizing | .ending _ | .finishing =>
    data = body
  | .storing c => data ++ c = body
  | _ => True

/-- An entry and the thread that was started for it. -/
structure Agrees (d : Downloader) (w : Worker) : Prop where
  path : d.path = w.path
  total : d.totalSize = w.expectedSize
  size : w.phase.sized = true → d.downloadedSize = w.downloadedSize
  data : w.path = none → w.phase.Holds d.data w.body
  full : w.phase = .finishing → w.downloadedSize = w.expectedSize
  finished : d.finished = true → w.phase.over = true ∧ d.downloadedSize = d.totalSize ∧
    (d.path = none → d.data = w.body)

/-- Where a thread is still at work, its entry is not finished. -/
theorem Agrees.unfinished {d : Downloader} {w : Worker} (h : Agrees d w)
    (hphase : w.phase.over = false) : d.finished = false := by
  cases hd : d.finished with
  | false => rfl
  | true =>
    have hover := (h.finished hd).1
    rw [hphase] at hover
    cases hover

/-- The thread goes to a phase that says no more than the one before. -/
theorem Agrees.advance {d : Downloader} {w w' : Worker} (h : Agrees d w)
    (hphase : w.phase.over = false) (hpath : w'.path = w.path)
    (hexpected : w'.expectedSize = w.expectedSize)
    (hsize : w'.phase.sized = true → w.phase.sized = true ∧ w'.downloadedSize = w.downloadedSize)
    (hdata : w.path = none → w.phase.Holds d.data w.body → w'.phase.Holds d.data w'.body)
    (hfull : w'.phase = .finishing → w'.downloadedSize = w'.expectedSize) : Agrees d w' := by
  refine ⟨h.path.trans hpath.symm, h.total.trans hexpected.symm, ?_, ?_, hfull, ?_⟩
  · intro hsized
    obtain ⟨hsized, heq⟩ := hsize hsized
    rw [heq]
    exact h.size hsized
  · intro hnone
    rw [hpath] at hnone
    exact hdata hnone (h.data hnone)
  · intro hfinished
    rw [h.unfinished hphase] at hfinished
    cases hfinished

namespace Worker

variable {w w' : Worker} {files : PathName → Bool} {move : Move} {created deleted : Option PathName}
  {d d' : Downloader} {entry : Option Downloader}

/-- A step outside the lock leaves the request as it is, and what is known of the entry true. -/
theorem proceed_agrees (h : w.proceed files move = some (w', created)) :
    w.phase.over = false ∧ w'.url = w.url ∧ ∀ d, Agrees d w → Agrees d w' := by
  rw [proceed.eq_def] at h
  -- one case for every way through an arm of the definition; none of them says more of the entry
  split at h
  all_goals
    rename_i hphase
    try simp only at h
    try split at h
    all_goals try split at h
    all_goals first
      | cases h
        done
      | obtain ⟨rfl, -⟩ := Prod.mk.inj (Option.some.inj h)
        refine ⟨by
          rw [hphase]; rfl, rfl, fun d hd => hd.advance (by rw [hphase]; rfl) rfl rfl ?_ ?_ ?_⟩
        all_goals simp_all [Phase.sized, Phase.Holds]

/-- A critical section that finds no entry makes none. -/
theorem locked_none (h : w.locked none = some (w', entry, deleted)) :
    entry = none ∧ deleted = none ∧ w'.url = w.url := by
  cases hphase : w.phase with
  | storing c =>
    simp only [locked, hphase] at h
    split at h
    · simp only [Option.some.injEq, Prod.mk.injEq] at h
      obtain ⟨rfl, rfl, rfl⟩ := h
      exact ⟨rfl, rfl, rfl⟩
    · cases h
  | sizing | finishing | logging _ | removing | failing _ =>
    simp only [locked, hphase, Option.some.injEq, Prod.mk.injEq, Option.map_none] at h
    obtain ⟨rfl, rfl, rfl⟩ := h
    exact ⟨rfl, rfl, rfl⟩
  | connecting | requesting | opening | receiving | ending _ | done =>
    rw [locked.eq_def, hphase] at h
    cases h

/-- A critical section on the entry of its own job keeps it that, and what is known of it true. -/
theorem locked_agrees (h : w.locked (some d) = some (w', entry, deleted)) (hd : Agrees d w) :
    w'.url = w.url ∧ (deleted = none ∨ deleted = w.path) ∧ ∀ d', entry = some d' → d'.job = d.job ∧
      Agrees d' w' := by
  have hsize := hd.size
  have hdata := hd.data
  have hfull := hd.full
  cases hphase : w.phase with
  | storing c =>
    have hfin := hd.unfinished (by rw [hphase]; rfl)
    rw [hphase] at hdata
    simp only [locked, hphase] at h
    split at h
    · simp only [Option.some.injEq, Prod.mk.injEq] at h
      obtain ⟨rfl, rfl, rfl⟩ := h
      refine ⟨rfl, Or.inl rfl, ?_⟩
      rintro d' ⟨⟩
      exact ⟨rfl, hd.path, hd.total, nofun, hdata, nofun,
        fun hf => absurd (hfin.symm.trans hf) nofun⟩
    · cases h
  | sizing =>
    have hfin := hd.unfinished (by rw [hphase]; rfl)
    rw [hphase] at hdata
    simp only [locked, hphase, Option.some.injEq, Prod.mk.injEq] at h
    obtain ⟨rfl, rfl, rfl⟩ := h
    refine ⟨rfl, Or.inl rfl, ?_⟩
    rintro d' ⟨⟩
    exact ⟨rfl, hd.path, hd.total, fun _ => rfl, hdata, nofun,
      fun hf => absurd (hfin.symm.trans hf) nofun⟩
  | finishing =>
    rw [hphase] at hdata hsize
    simp only [locked, hphase, Option.some.injEq, Prod.mk.injEq] at h
    obtain ⟨rfl, rfl, rfl⟩ := h
    refine ⟨rfl, Or.inl rfl, ?_⟩
    rintro d' ⟨⟩
    have htotal : d.downloadedSize = d.totalSize := by rw [hsize rfl, hfull hphase, hd.total]
    refine ⟨rfl, hd.path, hd.total, nofun, fun _ => trivial, nofun, fun _ => ⟨rfl, htotal, ?_⟩⟩
    intro hpath
    exact hdata (hd.path.symm.trans hpath)
  | logging all =>
    simp only [locked, hphase, Option.some.injEq, Prod.mk.injEq] at h
    obtain ⟨rfl, rfl, rfl⟩ := h
    refine ⟨rfl, Or.inl rfl, ?_⟩
    rintro d' ⟨⟩
    have hfin := hd.finished
    rw [hphase] at hfin
    cases all with
    | true =>
      exact ⟨rfl, hd.path, hd.total, nofun, fun _ => trivial, nofun, fun hf => ⟨rfl, (hfin hf).2⟩⟩
    | false =>
      exact ⟨rfl, hd.path, hd.total, nofun, fun _ => trivial, nofun,
        fun hf => absurd (hfin hf).1 nofun⟩
  | removing =>
    simp only [locked, hphase, Option.some.injEq, Prod.mk.injEq] at h
    obtain ⟨rfl, rfl, rfl⟩ := h
    exact ⟨rfl, Or.inr hd.path, nofun⟩
  | failing e =>
    have hfin := hd.unfinished (by rw [hphase]; rfl)
    simp only [locked, hphase, Option.some.injEq, Prod.mk.injEq] at h
    obtain ⟨rfl, rfl, rfl⟩ := h
    refine ⟨rfl, Or.inl rfl, ?_⟩
    rintro d' ⟨⟩
    exact ⟨rfl, hd.path, hd.total, nofun, fun _ => trivial, nofun,
      fun hf => absurd (hfin.symm.trans hf) nofun⟩
  | connecting | requesting | opening | receiving | ending _ | done =>
    rw [locked.eq_def, hphase] at h
    cases h

/-- A thread that is over leaves whatever entry it finds. -/
theorem locked_over (h : w.locked (some d) = some (w', entry, deleted))
    (hover : w.phase.over = true) :
    entry = some d ∧ deleted = none ∧ w'.url = w.url ∧ w'.phase.over = true := by
  cases hphase : w.phase with
  | logging all =>
    cases all with
    | true =>
      simp only [locked, hphase, Option.some.injEq, Prod.mk.injEq] at h
      obtain ⟨rfl, rfl, rfl⟩ := h
      exact ⟨rfl, rfl, rfl, rfl⟩
    | false =>
      rw [hphase] at hover
      cases hover
  | done =>
    rw [locked.eq_def, hphase] at h
    cases h
  | _ =>
    rw [hphase] at hover
    cases hover

end Worker

/-! ## The map as a whole -/

namespace State

/-- Every entry has its thread, and a thread that is still at work finds no entry but its own. -/
structure Coherent (s : State) : Prop where
  own : ∀ id d, s.downloaders id = some d → ∃ w, s.workers[d.job]? = some w ∧ w.url = id ∧
    Agrees d w
  alone : ∀ job w d, s.workers[job]? = some w → w.phase.over = false →
    s.downloaders w.url = some d → d.job = job

variable {s s' : State}

theorem start_coherent : start.Coherent where
  own id d hd := by cases hd
  alone job w d hw := by cases hw

variable {w w' : Worker} {entry : Option Downloader} {job : ℕ} {url : String}

theorem tell_getElem? (s : State) (job i : ℕ) (h : (s.tell job).workers[i]? = some w) :
    ∃ w₀, s.workers[i]? = some w₀ ∧ (w = w₀ ∨ w = { w₀ with canceled := true }) := by
  rw [tell, List.getElem?_modify] at h
  obtain ⟨w₀, hw₀, heq⟩ := Option.map_eq_some_iff.mp h
  refine ⟨w₀, hw₀, ?_⟩
  split at heq
  · exact Or.inr heq.symm
  · exact Or.inl heq.symm

theorem getElem?_tell (s : State) (job : ℕ) {i : ℕ} (h : s.workers[i]? = some w) :
    ∃ w', (s.tell job).workers[i]? = some w' ∧ (w' = w ∨ w' = { w with canceled := true }) := by
  rw [tell, List.getElem?_modify, h]
  refine ⟨_, rfl, ?_⟩
  split
  · exact Or.inr rfl
  · exact Or.inl rfl

/-- Whom a message has been sent to makes no difference. -/
theorem Coherent.tell (h : s.Coherent) (job : ℕ) : (s.tell job).Coherent := by
  constructor
  · intro id d hd
    obtain ⟨w, hw, hurl, ha⟩ := h.own id d hd
    obtain ⟨w', hw', heq⟩ := s.getElem?_tell job hw
    refine ⟨w', hw', ?_⟩
    rcases heq with rfl | rfl
    · exact ⟨hurl, ha⟩
    · exact ⟨hurl, ha.path, ha.total, ha.size, ha.data, ha.full, ha.finished⟩
  · intro i w d hw hover hd
    obtain ⟨w₀, hw₀, heq⟩ := s.tell_getElem? job i hw
    rcases heq with rfl | rfl
    · exact h.alone i w d hw₀ hover hd
    · exact h.alone i w₀ d hw₀ hover hd

/-- The map changes in one place; the thread of an entry that goes may be told. -/
theorem put_cases (s : State) (id : String) (entry : Option Downloader) :
    s.put id entry = { s with downloaders := Function.update s.downloaders id entry } ∨
      ∃ job, s.put id entry = State.tell { s with
        downloaders := Function.update s.downloaders id entry } job := by
  cases hd : s.downloaders id with
  | none => exact Or.inl (by rw [State.put.eq_def, hd])
  | some d =>
    cases entry with
    | none => exact Or.inr ⟨d.job, by rw [State.put.eq_def, hd]; rfl⟩
    | some e => exact Or.inl (by rw [State.put.eq_def, hd])

theorem put_files (s : State) (id : String) (entry : Option Downloader) :
    (s.put id entry).files = s.files := by
  rcases s.put_cases id entry with h | ⟨job, h⟩ <;> rw [h]
  rfl

theorem Coherent.put (id : String)
    (h : Coherent { s with downloaders := Function.update s.downloaders id entry }) :
    (s.put id entry).Coherent := by
  rcases s.put_cases id entry with hput | ⟨job, hput⟩
  · rw [hput]
    exact h
  · rw [hput]
    exact h.tell job

theorem Coherent.remove (h : s.Coherent) (id : String) : (s.put id none).Coherent := by
  apply Coherent.put
  constructor
  · intro id' d hd
    by_cases hid : id' = id
    · subst hid
      simp only [Function.update_self] at hd
      cases hd
    · simp only [Function.update_of_ne hid] at hd
      exact h.own id' d hd
  · intro job w d hw hover hd
    by_cases hid : w.url = id
    · simp only [hid, Function.update_self] at hd
      cases hd
    · simp only [Function.update_of_ne hid] at hd
      exact h.alone job w d hw hover hd

theorem Coherent.files (h : s.Coherent) (files : PathName → Bool) : Coherent { s with files } :=
  ⟨h.own, h.alone⟩

theorem Coherent.deleteFile (h : s.Coherent) (p : PathName) : (s.deleteFile p).Coherent := h.files _

/-! ### Threads -/

theorem Coherent.proceed {move : Move} {created : Option PathName} (h : s.Coherent)
    (hw : s.workers[job]? = some w) (hproceed : w.proceed s.files move = some (w', created)) :
    Coherent { s with workers := s.workers.set job w' } := by
  obtain ⟨hlive, hurl, hagrees⟩ := Worker.proceed_agrees hproceed
  have hlt : job < s.workers.length := (List.getElem?_eq_some_iff.mp hw).1
  constructor
  · intro id d hd
    obtain ⟨v, hv, hvurl, ha⟩ := h.own id d hd
    by_cases hjob : d.job = job
    · rw [hjob, hw] at hv
      obtain rfl := Option.some.inj hv
      refine ⟨w', ?_, hurl.trans hvurl, hagrees d ha⟩
      rw [hjob]
      exact List.getElem?_set_self hlt
    · exact ⟨v, (List.getElem?_set_ne (Ne.symm hjob)).trans hv, hvurl, ha⟩
  · intro i v d hv hover hd
    by_cases hi : i = job
    · subst hi
      simp only [List.getElem?_set_self hlt] at hv
      obtain rfl := Option.some.inj hv
      rw [hurl] at hd
      exact h.alone i w d hw hlive hd
    · simp only [List.getElem?_set_ne (Ne.symm hi)] at hv
      exact h.alone i v d hv hover hd

/-- A critical section finds the entry of its own job and leaves it to that, or finds none and
leaves none, or leaves what it finds. -/
theorem Coherent.locked_entry {deleted : Option PathName} (h : s.Coherent)
    (hw : s.workers[job]? = some w)
    (hlocked : w.locked (s.downloaders w.url) = some (w', entry, deleted)) :
    w'.url = w.url ∧ (∀ p, deleted = some p → w.path = some p) ∧
      ((∃ d, s.downloaders w.url = some d ∧ d.job = job ∧ ∀ d', entry = some d' → d'.job = job ∧
        Agrees d' w') ∨
        (entry = s.downloaders w.url ∧ ∀ d, entry = some d → d.job ≠ job ∧
          w'.phase.over = true)) := by
  cases hd : s.downloaders w.url with
  | none =>
    rw [hd] at hlocked
    obtain ⟨rfl, rfl, hurl⟩ := Worker.locked_none hlocked
    exact ⟨hurl, nofun, Or.inr ⟨rfl, nofun⟩⟩
  | some d =>
    rw [hd] at hlocked
    by_cases hjob : d.job = job
    · obtain ⟨v, hv, -, ha⟩ := h.own _ d hd
      rw [hjob, hw] at hv
      obtain rfl := Option.some.inj hv
      obtain ⟨hurl, hdeleted, hentry⟩ := Worker.locked_agrees hlocked ha
      refine ⟨hurl, ?_, Or.inl ⟨d, rfl, hjob, fun d' hd' => ?_⟩⟩
      · intro p hp
        rcases hdeleted with hnone | hpath
        · rw [hnone] at hp
          cases hp
        · exact hpath.symm.trans hp
      · obtain ⟨hjob', ha'⟩ := hentry d' hd'
        exact ⟨hjob'.trans hjob, ha'⟩
    · -- the entry is another's, so the thread is over
      have hover : w.phase.over = true := by
        by_contra hlive
        exact hjob (h.alone job w d hw (Bool.eq_false_iff.mpr hlive) hd)
      obtain ⟨rfl, rfl, hurl, hover'⟩ := Worker.locked_over hlocked hover
      exact ⟨hurl, nofun, Or.inr ⟨rfl, fun d' hd' => ⟨Option.some.inj hd' ▸ hjob, hover'⟩⟩⟩

theorem Coherent.locked {deleted : Option PathName} (h : s.Coherent) (hw : s.workers[job]? = some w)
    (hlocked : w.locked (s.downloaders w.url) = some (w', entry, deleted)) : Coherent { s with
      workers := s.workers.set job w', downloaders :=
  Function.update s.downloaders w.url entry } := by
  obtain ⟨hurl, -, hcases⟩ := h.locked_entry hw hlocked
  have hlt : job < s.workers.length := (List.getElem?_eq_some_iff.mp hw).1
  constructor
  · intro id d hd
    by_cases hid : id = w.url
    · subst hid
      simp only [Function.update_self] at hd
      rcases hcases with ⟨_, _, _, hentry⟩ | ⟨hsame, hother⟩
      · obtain ⟨hjob, ha⟩ := hentry d hd
        refine ⟨w', ?_, hurl, ha⟩
        rw [hjob]
        exact List.getElem?_set_self hlt
      · obtain ⟨v, hv, hvurl, ha⟩ := h.own _ d (hsame ▸ hd)
        exact ⟨v, (List.getElem?_set_ne (Ne.symm (hother d hd).1)).trans hv, hvurl, ha⟩
    · simp only [Function.update_of_ne hid] at hd
      obtain ⟨v, hv, hvurl, ha⟩ := h.own id d hd
      have hjob : d.job ≠ job := by
        intro hjob
        rw [hjob, hw] at hv
        obtain rfl := Option.some.inj hv
        exact hid hvurl.symm
      exact ⟨v, (List.getElem?_set_ne (Ne.symm hjob)).trans hv, hvurl, ha⟩
  · intro i v d hv hover hd
    by_cases hi : i = job
    · subst hi
      simp only [List.getElem?_set_self hlt] at hv
      obtain rfl := Option.some.inj hv
      simp only [hurl, Function.update_self] at hd
      rcases hcases with ⟨_, _, _, hentry⟩ | ⟨_, hother⟩
      · exact (hentry d hd).1
      · rw [(hother d hd).2] at hover
        cases hover
    · simp only [List.getElem?_set_ne (Ne.symm hi)] at hv
      by_cases hid : v.url = w.url
      · simp only [hid, Function.update_self] at hd
        rcases hcases with ⟨d₀, hd₀, hjob, _⟩ | ⟨hsame, _⟩
        · -- two threads at work for one URL would both own its entry
          have := h.alone i v d₀ hv hover (hid ▸ hd₀)
          exact absurd (this.symm.trans hjob) hi
        · exact h.alone i v d hv hover (by rw [hid, ← hsame]; exact hd)
      · simp only [Function.update_of_ne hid] at hd
        exact h.alone i v d hv hover hd

/-! ### Calls -/

/-- No thread is at work for the URL. -/
def Quiet (s : State) (url : String) : Prop := ∀ w ∈ s.workers, w.url = url → w.phase.over = true

instance (s : State) (url : String) : Decidable (s.Quiet url) := List.decidableBAll _ _

theorem Quiet.put {id : String} (h : s.Quiet url) : (s.put id entry).Quiet url := by
  rcases s.put_cases id entry with hput | ⟨job, hput⟩
  · rw [hput]
    exact h
  · rw [hput]
    intro w hw hurl
    obtain ⟨i, hi⟩ := List.mem_iff_getElem?.mp hw
    obtain ⟨w₀, hw₀, heq⟩ := tell_getElem? _ job i hi
    have hmem : w₀ ∈ s.workers := List.mem_of_getElem? hw₀
    rcases heq with rfl | rfl
    · exact h w hmem hurl
    · exact h w₀ hmem hurl

/-- A new job starts where nobody else is at work. -/
theorem Coherent.insert (h : s.Coherent) (hquiet : s.Quiet url) (path : Option PathName)
    (options : DownloadOptions) : (s.insert url path options).Coherent := by
  have hnew : (s.insert url path options).workers[s.workers.length]? =
      some ⟨url, path, options.expectedSize, false, 0, [], .connecting⟩ :=
        List.getElem?_concat_length
  constructor
  · intro id d hd
    by_cases hid : id = url
    · subst hid
      simp only [State.insert, Function.update_self] at hd
      obtain rfl := Option.some.inj hd
      exact ⟨_, hnew, rfl, rfl, rfl, fun _ => rfl, fun _ => rfl, nofun, nofun⟩
    · simp only [State.insert, Function.update_of_ne hid] at hd
      obtain ⟨w, hw, hurl, ha⟩ := h.own id d hd
      have hlt : d.job < s.workers.length := (List.getElem?_eq_some_iff.mp hw).1
      exact ⟨w, (List.getElem?_append_left hlt).trans hw, hurl, ha⟩
  · intro job w d hw hover hd
    have hlt : job < (s.workers ++ [_]).length := (List.getElem?_eq_some_iff.mp hw).1
    rw [List.length_append, List.length_singleton] at hlt
    by_cases hjob : job = s.workers.length
    · subst hjob
      rw [hnew] at hw
      obtain rfl := Option.some.inj hw
      simp only [State.insert, Function.update_self] at hd
      obtain rfl := Option.some.inj hd
      rfl
    · have hold : s.workers[job]? = some w := (List.getElem?_append_left (by omega)).symm.trans hw
      by_cases hurl : w.url = url
      · rw [hquiet w (List.mem_of_getElem? hold) hurl] at hover
        cases hover
      · simp only [State.insert, Function.update_of_ne hurl] at hd
        exact h.alone job w d hold hover hd

theorem Coherent.removeStale (h : s.Coherent) (url : String) (path : Option PathName)
    (staleRemoved : Bool) : (s.removeStale url path staleRemoved).Coherent := by
  rw [State.removeStale]
  split
  · split
    · exact (h.remove url).deleteFile _
    · exact h.remove url
  · exact h.remove url

theorem Quiet.removeStale (h : s.Quiet url) (path : Option PathName) (staleRemoved : Bool) :
    (s.removeStale url path staleRemoved).Quiet url := by
  rw [State.removeStale]
  split
  · split
    · exact h.put
    · exact h.put
  · exact h.put

/-- A call of `download_file` that puts a new entry into the map comes when no thread is at work for
its URL. -/
def Fresh (s : State) : Action → Prop
  | .downloadFile url path options _ prepared =>
    s.existing url path options = none → path = none ∨ prepared = .ready → s.Quiet url
  | _ => True

instance (s : State) : (a : Action) → Decidable (s.Fresh a)
  | .downloadFile url path options _ prepared =>
    inferInstanceAs (Decidable (s.existing url path options = none → path = none ∨
      prepared = .ready → s.Quiet url))
  | .cancel _ => isTrue trivial
  | .remove _ => isTrue trivial
  | .proceed _ _ => isTrue trivial
  | .locked _ _ => isTrue trivial

theorem Coherent.downloadFile (h : s.Coherent) {path : Option PathName} {options : DownloadOptions}
    {staleRemoved : Bool} {prepared : Prepared}
    (hfresh : s.Fresh (.downloadFile url path options staleRemoved prepared)) :
    (s.downloadFile url path options staleRemoved prepared).2.Coherent := by
  rw [State.downloadFile]
  split
  · exact h
  · next hnone =>
    have hstale := h.removeStale url path staleRemoved
    split
    · exact hstale.insert ((hfresh hnone (Or.inl rfl)).removeStale _ _) _ _
    · exact hstale
    · exact hstale.deleteFile _
    · exact (hstale.deleteFile _).insert ((hfresh hnone (Or.inr rfl)).removeStale _ _) _ _

/-! ### Steps and runs -/

/-- What a critical section leaves. -/
theorem step_locked {removed : Bool} (hstep : s.step (.locked job removed) = some s') :
    ∃ w w' entry deleted, s.workers[job]? = some w ∧
      w.locked (s.downloaders w.url) = some (w', entry, deleted) ∧
      (s' = State.put { s with workers := s.workers.set job w' } w.url entry ∨
        ∃ p, deleted = some p ∧ s' = (State.put { s with workers := s.workers.set job w' }
          w.url entry).deleteFile p) := by
  obtain ⟨w, hw, hstep⟩ := Option.bind_eq_some_iff.mp hstep
  obtain ⟨⟨w', entry, deleted⟩, hlocked, hstep⟩ := Option.bind_eq_some_iff.mp hstep
  refine ⟨w, w', entry, deleted, hw, hlocked, ?_⟩
  cases deleted with
  | none => exact Or.inl (Option.some.inj hstep).symm
  | some p =>
    have heq := Option.some.inj hstep
    split at heq
    · exact Or.inr ⟨p, rfl, heq.symm⟩
    · exact Or.inl heq.symm

/-- What a step outside the lock leaves. -/
theorem step_proceed {move : Move} (hstep : s.step (.proceed job move) = some s') :
    ∃ w w' created files, s.workers[job]? = some w ∧ w.proceed s.files move = some (w', created) ∧
      (∀ p, s.files p = true → files p = true) ∧
        s' = { s with workers := s.workers.set job w', files } := by
  obtain ⟨w, hw, hstep⟩ := Option.bind_eq_some_iff.mp hstep
  obtain ⟨⟨w', created⟩, hproceed, hstep⟩ := Option.bind_eq_some_iff.mp hstep
  refine ⟨w, w', created, _, hw, hproceed, ?_, (Option.some.inj hstep).symm⟩
  intro p hp
  cases created with
  | none => exact hp
  | some q =>
    by_cases hpq : p = q
    · subst hpq
      exact Function.update_self _ _ _
    · exact (Function.update_of_ne hpq _ _).trans hp

/-- **One step** keeps the map coherent. -/
theorem step_coherent (s : State) (a : Action) (s' : State) (h : s.Coherent) (hfresh : s.Fresh a)
    (hstep : s.step a = some s') : s'.Coherent := by
  cases a with
  | downloadFile url path options staleRemoved prepared =>
    obtain rfl := Option.some.inj hstep
    exact h.downloadFile hfresh
  | cancel id =>
    obtain rfl := Option.some.inj hstep
    rw [State.cancel]
    split
    · exact h.tell _
    · exact h
  | remove id =>
    obtain rfl := Option.some.inj hstep
    exact h.remove id
  | proceed job move =>
    obtain ⟨w, w', created, files, hw, hproceed, -, rfl⟩ := step_proceed hstep
    exact (h.proceed hw hproceed).files files
  | locked job removed =>
    obtain ⟨w, w', entry, deleted, hw, hlocked, hs'⟩ := step_locked hstep
    have hput := Coherent.put (s := { s with workers := s.workers.set job w' })
      w.url (h.locked hw hlocked)
    rcases hs' with rfl | ⟨p, -, rfl⟩
    · exact hput
    · exact hput.deleteFile p

/-- A thread changes, adds and removes no entry but the one inserted for it, and deletes no file but
the one of that entry. -/
def Isolated (s : State) (a : Action) : Prop :=
  match a with
  | .proceed job _ | .locked job _ => ∀ s', s.step a = some s' →
    (∀ id d, d.job ≠ job → (s'.downloaders id = some d ↔ s.downloaders id = some d)) ∧
      ∀ p, s.files p = true → s'.files p = false → ∃ w, s.workers[job]? = some w ∧ w.path = some p
  | _ => True

/-- An entry that is reported as finished has all its bytes, and in memory they are those its thread
received. -/
def Sound (s : State) : Prop :=
  ∀ id d, s.downloaders id = some d → d.finished = true → d.downloadedSize = d.totalSize ∧
    ∃ w, s.workers[d.job]? = some w ∧ w.expectedSize = d.totalSize ∧
      (d.path = none → d.data = w.body)

theorem Coherent.sound (h : s.Coherent) : s.Sound := by
  intro id d hd hfinished
  obtain ⟨w, hw, -, ha⟩ := h.own id d hd
  obtain ⟨-, hsize, hdata⟩ := ha.finished hfinished
  exact ⟨hsize, w, hw, ha.total.symm, hdata⟩

theorem Coherent.isolated (h : s.Coherent) (a : Action) : s.Isolated a := by
  cases a with
  | proceed job move =>
    intro s' hstep
    obtain ⟨w, w', created, files, hw, -, hkept, rfl⟩ := step_proceed hstep
    refine ⟨fun id d _ => Iff.rfl, fun p hp hp' => ?_⟩
    exact absurd ((hkept p hp).symm.trans hp') nofun
  | locked job removed =>
    intro s' hstep
    obtain ⟨w, w', entry, deleted, hw, hlocked, hs'⟩ := step_locked hstep
    obtain ⟨-, hdeleted, hcases⟩ := h.locked_entry hw hlocked
    have hmap : s'.downloaders = Function.update s.downloaders w.url entry := by
      rcases hs' with rfl | ⟨p, -, rfl⟩ <;> rfl
    constructor
    · intro id d hjob
      rw [hmap]
      by_cases hid : id = w.url
      · subst hid
        rw [Function.update_self]
        rcases hcases with ⟨d₀, hd₀, hjob₀, hentry⟩ | ⟨hsame, -⟩
        · -- before and after, the entry is this thread's own
          constructor
          · intro hd
            exact absurd (hentry d hd).1 hjob
          · intro hd
            rw [hd₀] at hd
            exact absurd (Option.some.inj hd ▸ hjob₀) hjob
        · rw [hsame]
      · rw [Function.update_of_ne hid]
    · intro p hp hp'
      refine ⟨w, hw, ?_⟩
      rcases hs' with rfl | ⟨q, hq, rfl⟩
      · rw [put_files] at hp'
        exact absurd (hp.symm.trans hp') nofun
      · by_cases hpq : p = q
        · exact hdeleted p (hpq ▸ hq)
        · rw [State.deleteFile] at hp'
          simp only [Function.update_of_ne hpq, put_files] at hp'
          exact absurd (hp.symm.trans hp') nofun
  | downloadFile => trivial
  | cancel => trivial
  | remove => trivial

/-- **Jobs are isolated** in every run in which no entry is inserted for a URL while the thread of
an earlier one is at work: every thread keeps to its own entry and its file, and what is reported as
finished is complete. -/
theorem jobs_isolated (actions : List Action) (hfresh : Along step Fresh start actions) :
    Along step Isolated start actions ∧ Throughout step Sound start actions :=
  ⟨along_of_invariant step_coherent (fun _ a h _ => h.isolated a) start_coherent hfresh,
    throughout_of_along (fun _ h => h.sound) step_coherent start_coherent hfresh⟩

/-- Somebody asks for one byte, to be kept in memory. -/
def oneByte : Action := .downloadFile "u" none ⟨1, ""⟩ true .ready

/-- A thread comes as far as its first chunk. -/
def begin (job : ℕ) : List Action := [.proceed job .ready, .proceed job .ready, .proceed job .ready]

/-- It receives a byte, and stores it. -/
def receive (job : ℕ) (byte : UInt8) : List Action :=
  [.proceed job (.chunk [byte]), .locked job true]

/-- It comes to the end of its job. -/
def complete (job : ℕ) : List Action :=
  [.locked job true, .proceed job .endOfBody, .proceed job .ready, .locked job true]

theorem jobs_isolated_again : let actions := oneByte :: (begin 0 ++ receive 0 65 ++ complete 0) ++
  [.remove "u", oneByte, .locked 0 true]
    Along step Isolated start actions ∧ Throughout step Sound start actions :=
  jobs_isolated _ (by decide +kernel)

/-- A job is removed and asked for again while its first thread is waiting for a chunk. -/
def askedAgain : List Action := oneByte :: begin 0 ++ [.remove "u", oneByte]

/-- The chunk then goes to the second job, which is reported as finished with two bytes of which its
thread received one. -/
theorem removed_job_writes_on : ¬Along step Isolated start (askedAgain ++ receive 0 65) ∧
      ¬Throughout step Sound start (askedAgain ++ receive 0 65 ++ begin 1 ++ receive 1 66 ++
        complete 1) := by
  constructor
  · intro hall
    have hrun : (exec step start (askedAgain ++ [Action.proceed 0 (.chunk [65])])).any (fun s =>
        (s.downloaders "u").any (fun d => d.job = 1 ∧ d.data = []) &&
          (s.step (.locked 0 true)).any fun s' => (s'.downloaders "u").any fun d => d.data = [65]) =
            true := by
      decide +kernel
    obtain ⟨s, hs, hp⟩ := (Option.any_eq_true _ _).mp hrun
    obtain ⟨hold, hnew⟩ := Bool.and_eq_true_iff.mp hp
    obtain ⟨d, hd, hdata⟩ := (Option.any_eq_true _ _).mp hold
    obtain ⟨s', hs', hany⟩ := (Option.any_eq_true _ _).mp hnew
    obtain ⟨d', hd', hdata'⟩ := (Option.any_eq_true _ _).mp hany
    obtain ⟨hjob, hempty⟩ := of_decide_eq_true hdata
    have hsplit :
        Along step Isolated start ((askedAgain ++ [Action.proceed 0 (.chunk [65])]) ++
          [Action.locked 0 true]) := hall
    have hisolated := (along_drop hsplit hs).1
    have hkept := ((hisolated s' hs').1 "u" d (by rw [hjob]; decide)).mpr hd
    rw [hd'] at hkept
    obtain rfl := Option.some.inj hkept
    rw [of_decide_eq_true hdata'] at hempty
    cases hempty
  · intro hall
    have hrun :
      (exec step start (askedAgain ++ receive 0 65 ++ begin 1 ++ receive 1 66 ++ complete 1)).any
        (fun s =>
        (s.downloaders "u").any fun d => d.finished && d.path = none && d.data = [65, 66] &&
          (s.workers[d.job]?).any fun w => w.body = [66]) = true := by decide +kernel
    obtain ⟨s, hs, hp⟩ := (Option.any_eq_true _ _).mp hrun
    obtain ⟨d, hd, hp⟩ := (Option.any_eq_true _ _).mp hp
    simp only [Bool.and_eq_true, decide_eq_true_eq] at hp
    obtain ⟨⟨⟨hfinished, hpath⟩, hdata⟩, hworker⟩ := hp
    obtain ⟨v, hv, hbody⟩ := (Option.any_eq_true _ _).mp hworker
    obtain ⟨-, w, hw, -, hsame⟩ := hall _ s (List.prefix_refl _) hs "u" d hd hfinished
    rw [hv] at hw
    obtain rfl := Option.some.inj hw
    have hmixed := hsame hpath
    rw [hdata, of_decide_eq_true hbody] at hmixed
    cases hmixed

end State

end Download
end BgDesk
