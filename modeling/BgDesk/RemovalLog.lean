import Mathlib.Logic.Relation
import BgDesk.PathComponents

/-!
# The log of removals

`FileRemoveLogControl` collects the files and directories a peer removes, and logs them when nothing
was removed for a second. A directory stands for what is directly in it: `on_remove_dir` drops the
pending entries that are children of the new one, and does not add a directory whose parent is
pending.

The filter of the files has the two paths of `direct_child` the other way round than the filter of
the directories below it. It keeps the files in the directory, and drops a pending file of which the
directory is the child. `removals_folded_iff` says exactly when that does no harm.
-/

namespace BgDesk.RemovalLog

/-! ## The code -/

structure FileRemoveFile where
  id : ℤ
  path : PathName
  deriving DecidableEq

structure FileRemoveDir where
  id : ℤ
  path : PathName
  deriving DecidableEq

structure FileActionLog where
  id : ℤ
  connId : ℤ
  path : PathName
  dir : Bool
  deriving DecidableEq

/-- `ipc::Data`, as far as it is used here. The log goes out as JSON. -/
inductive Data
  | fileTransferLog (action : String) (log : FileActionLog)
  deriving DecidableEq

/-- Times are in nanoseconds. -/
structure FileRemoveLogControl where
  connId : ℤ
  instant : ℕ
  removedFiles : List FileRemoveFile
  removedDirs : List FileRemoveDir
  deriving DecidableEq

def FileRemoveLogControl.new (connId : ℤ) (now : ℕ) : FileRemoveLogControl :=
  { connId, instant := now, removedFiles := [], removedDirs := [] }

/-- `PathBuf::from(child).parent() == Some(PathBuf::from(parent))`. -/
def directChild (parent child : PathName) : Bool :=
  Component.parent child.pathComponents = some parent.pathComponents

def FileRemoveLogControl.fileLog (s : FileRemoveLogControl) (f : FileRemoveFile) : Data :=
  .fileTransferLog "remove" { id := f.id, connId := s.connId, path := f.path, dir := false }

def FileRemoveLogControl.dirLog (s : FileRemoveLogControl) (d : FileRemoveDir) : Data :=
  .fileTransferLog "remove" { id := d.id, connId := s.connId, path := d.path, dir := true }

def FileRemoveLogControl.onRemoveFile (s : FileRemoveLogControl) (now : ℕ) (f : FileRemoveFile) :
    FileRemoveLogControl × Option Data :=
  ({ s with instant := now, removedFiles := s.removedFiles ++ [f] }, some (s.fileLog f))

def FileRemoveLogControl.onRemoveDir (s : FileRemoveLogControl) (now : ℕ) (d : FileRemoveDir) :
    FileRemoveLogControl × Option Data :=
  let removedFiles := s.removedFiles.filter fun f => !directChild f.path d.path
  let removedDirs := s.removedDirs.filter fun x => !directChild d.path x.path
  let removedDirs := if removedDirs.any fun x =>
    directChild x.path d.path then removedDirs else removedDirs ++ [d]
  ({ s with instant := now, removedFiles, removedDirs }, some (s.dirLog d))

def FileRemoveLogControl.onTimer (s : FileRemoveLogControl) (now : ℕ) :
    FileRemoveLogControl × List Data :=
  if (now - s.instant) / 1000000000 < 1 then (s, [])
  else ({ s with removedFiles := [], removedDirs := [] },
    s.removedFiles.map s.fileLog ++ s.removedDirs.map s.dirLog)

/-! ## Runs -/

inductive Act
  | removeFile (f : FileRemoveFile) (now : ℕ)
  | removeDir (d : FileRemoveDir) (now : ℕ)
  | timer (now : ℕ)
  deriving DecidableEq

/-- The log with what it has to account for: the paths removed since it was flushed. -/
structure Log where
  control : FileRemoveLogControl
  since : List PathName
  deriving DecidableEq

def Log.step (s : Log) : Act → Log
  | .removeFile f now =>
    { control := (s.control.onRemoveFile now f).1, since := s.since ++ [f.path] }
  | .removeDir d now => { control := (s.control.onRemoveDir now d).1, since := s.since ++ [d.path] }
  | .timer now =>
    { control := (s.control.onTimer now).1,
      since := if (now - s.control.instant) / 1000000000 < 1 then s.since else [] }

/-- The log after some calls. -/
def after (connId : ℤ) (start : ℕ) (acts : List Act) : Log :=
  acts.foldl Log.step { control := .new connId start, since := [] }

theorem after_snoc (connId : ℤ) (start : ℕ) (acts : List Act) (a : Act) :
    after connId start (acts ++ [a]) = (after connId start acts).step a := by
  rw [after, List.foldl_append]
  rfl

/-! ## What the log is for -/

/-- `d` is `p` or a directory above it. -/
def Under (d p : PathName) : Prop :=
  Relation.ReflTransGen (fun q r => Component.parent r = some q) d.pathComponents p.pathComponents

/-- The path is pending, or a directory above it is. -/
def Covered (s : FileRemoveLogControl) (p : PathName) : Prop :=
  (∃ f ∈ s.removedFiles, f.path.pathComponents = p.pathComponents) ∨
    ∃ d ∈ s.removedDirs, Under d.path p

/-- The messages name the path, or a directory above it. -/
def Logged (messages : List Data) (p : PathName) : Prop :=
  ∃ log, .fileTransferLog "remove" log ∈ messages ∧
    (log.path.pathComponents = p.pathComponents ∨ log.dir = true ∧ Under log.path p)

/-- What is asked of one call: everything removed is covered after it; a removed directory leaves
nothing pending that is directly in it; a timer that flushes has logged all that was removed. -/
def Right (s : Log) (a : Act) : Prop :=
  (∀ p ∈ (s.step a).since, Covered (s.step a).control p) ∧
  match a with
  | .removeFile _ _ => True
  | .removeDir d _ =>
    (∀ f ∈ (s.step a).control.removedFiles, ¬ directChild d.path f.path) ∧
      ∀ x ∈ (s.step a).control.removedDirs, ¬ directChild d.path x.path
  | .timer now =>
    1 ≤ (now - s.control.instant) / 1000000000 → ∀ p ∈ s.since, Logged (s.control.onTimer now).2 p

/-- When the swapped filter of the files does no harm: it has nothing to drop that is directly in
`d`, and what it drops for being above `d` is covered by a directory. -/
def Harmless (s : FileRemoveLogControl) (d : FileRemoveDir) : Prop :=
  (∀ f ∈ s.removedFiles, ¬ directChild d.path f.path) ∧
    ∀ f ∈ s.removedFiles, directChild f.path d.path → ∃ x ∈ s.removedDirs, Under x.path f.path

/-! ## Paths -/

theorem length_of_parent {p q : List Component} (h : Component.parent p = some q) :
    p.length = q.length + 1 := by
  unfold Component.parent at h
  split at h
  · cases h
  · cases h
  · next hlast =>
    obtain rfl := Option.some.inj h
    have hne : p ≠ [] := by
      rintro rfl
      cases hlast
    rw [List.length_dropLast, Nat.sub_add_cancel (List.length_pos_iff.mpr hne)]

variable {p : PathName} {f : FileRemoveFile}

theorem length_of_directChild {c : PathName} (h : directChild p c = true) :
    c.pathComponents.length = p.pathComponents.length + 1 :=
  length_of_parent (of_decide_eq_true h)

theorem length_le_of_under {a b : List Component}
    (h : Relation.ReflTransGen (fun q r => Component.parent r = some q) a b) :
    a.length ≤ b.length := by
  induction h with
  | refl => exact Nat.le_refl _
  | tail _ hparent ih =>
    have := length_of_parent hparent
    omega

theorem Under.length_le {d p : PathName} (h : Under d p) :
    d.pathComponents.length ≤ p.pathComponents.length :=
  length_le_of_under h

theorem Under.refl (p : PathName) : Under p p := Relation.ReflTransGen.refl

theorem Under.trans {d e p : PathName} (h : Under d e) (h' : Under e p) : Under d p :=
  Relation.ReflTransGen.trans h h'

theorem under_of_directChild {d p : PathName} (h : directChild d p = true) : Under d p :=
  Relation.ReflTransGen.single (of_decide_eq_true h)

/-- Paths with the same components are under the same directories. -/
theorem Under.congr {d p q : PathName} (h : Under d p) (heq : p.pathComponents = q.pathComponents) :
    Under d q := by
  unfold Under at h ⊢
  rwa [← heq]

theorem directChild_congr {q c : PathName} (heq : p.pathComponents = q.pathComponents) :
    directChild p c = directChild q c := by
  rw [directChild, directChild, heq]

/-! ## One call -/

variable {s : FileRemoveLogControl} {d : FileRemoveDir} {now : ℕ}

theorem mem_removedFiles_onRemoveDir :
    f ∈ (s.onRemoveDir now d).1.removedFiles ↔ f ∈ s.removedFiles ∧
      ¬ directChild f.path d.path := by
  simp [FileRemoveLogControl.onRemoveDir]

theorem mem_removedDirs_onRemoveDir {x : FileRemoveDir}
    (h : x ∈ (s.onRemoveDir now d).1.removedDirs) :
    x ∈ s.removedDirs ∧ ¬ directChild d.path x.path ∨ x = d := by
  unfold FileRemoveLogControl.onRemoveDir at h
  dsimp only at h
  split at h
  · exact .inl (by simpa using h)
  · simpa using h

/-- The removed directory is covered: by itself or by its parent. -/
theorem onRemoveDir_covers_self (s : FileRemoveLogControl) (d : FileRemoveDir) (now : ℕ) :
    ∃ y ∈ (s.onRemoveDir now d).1.removedDirs, Under y.path d.path := by
  unfold FileRemoveLogControl.onRemoveDir
  dsimp only
  split
  · next h =>
    obtain ⟨x, hx, hchild⟩ := List.any_eq_true.mp h
    exact ⟨x, hx, under_of_directChild hchild⟩
  · exact ⟨d, by simp, .refl _⟩

/-- A pending directory stays covered: it is only dropped for one above it. -/
theorem onRemoveDir_covers_dir {x : FileRemoveDir} (now : ℕ) (hx : x ∈ s.removedDirs) :
    ∃ y ∈ (s.onRemoveDir now d).1.removedDirs, Under y.path x.path := by
  by_cases hchild : directChild d.path x.path = true
  · obtain ⟨y, hy, hunder⟩ := onRemoveDir_covers_self s d now
    exact ⟨y, hy, hunder.trans (under_of_directChild hchild)⟩
  · refine ⟨x, ?_, .refl _⟩
    unfold FileRemoveLogControl.onRemoveDir
    dsimp only
    split <;> simp [hx, hchild]

/-- No directory that is left is directly in the removed one. -/
theorem onRemoveDir_dirs_folded :
    ∀ x ∈ (s.onRemoveDir now d).1.removedDirs, ¬ directChild d.path x.path := by
  intro x hx hchild
  rcases mem_removedDirs_onRemoveDir hx with ⟨-, hno⟩ | rfl
  · exact hno hchild
  · have := length_of_directChild hchild
    omega

/-- A file directly in the removed directory is always kept. -/
theorem onRemoveDir_keeps_children (hf : f ∈ s.removedFiles)
    (hchild : directChild d.path f.path = true) : f ∈ (s.onRemoveDir now d).1.removedFiles := by
  refine mem_removedFiles_onRemoveDir.mpr ⟨hf, fun habove => ?_⟩
  have := length_of_directChild hchild
  have := length_of_directChild habove
  omega

/-- Where the filter does no harm, what was covered stays covered. -/
theorem onRemoveDir_covers (h : Harmless s d) (hp : Covered s p) :
    Covered (s.onRemoveDir now d).1 p := by
  rcases hp with ⟨f, hf, heq⟩ | ⟨x, hx, hunder⟩
  · by_cases habove : directChild f.path d.path = true
    · obtain ⟨x, hx, hxf⟩ := h.2 f hf habove
      obtain ⟨y, hy, hyx⟩ := onRemoveDir_covers_dir now hx
      exact .inr ⟨y, hy, (hyx.trans hxf).congr heq⟩
    · exact .inl ⟨f, mem_removedFiles_onRemoveDir.mpr ⟨hf, habove⟩, heq⟩
  · obtain ⟨y, hy, hyx⟩ := onRemoveDir_covers_dir now hx
    exact .inr ⟨y, hy, hyx.trans hunder⟩

/-- A file that is dropped stays covered only by a directory that was pending before. -/
theorem covered_of_dropped (habove : directChild f.path d.path = true)
    (hcov : Covered (s.onRemoveDir now d).1 f.path) : ∃ x ∈ s.removedDirs, Under x.path f.path := by
  rcases hcov with ⟨g, hg, heq⟩ | ⟨y, hy, hunder⟩
  · have hkept := (mem_removedFiles_onRemoveDir.mp hg).2
    rw [directChild_congr heq] at hkept
    exact absurd habove hkept
  · rcases mem_removedDirs_onRemoveDir hy with ⟨hy, -⟩ | rfl
    · exact ⟨y, hy, hunder⟩
    · have := hunder.length_le
      have := length_of_directChild habove
      omega

/-! ## The invariant -/

/-- The pending files are among what was removed, and all that was removed is covered. -/
structure Sound (s : Log) : Prop where
  pending : ∀ f ∈ s.control.removedFiles, f.path ∈ s.since
  covered : ∀ p ∈ s.since, Covered s.control p

/-- A timer that flushes logs what is covered. -/
theorem logged_of_covered (hflush : 1 ≤ (now - s.instant) / 1000000000) (hp : Covered s p) :
    Logged (s.onTimer now).2 p := by
  rw [FileRemoveLogControl.onTimer, if_neg (by omega)]
  rcases hp with ⟨f, hf, heq⟩ | ⟨x, hx, hunder⟩
  · exact ⟨_, List.mem_append_left _ (List.mem_map_of_mem hf), .inl heq⟩
  · exact ⟨_, List.mem_append_right _ (List.mem_map_of_mem hx), .inr ⟨rfl, hunder⟩⟩

theorem right_removeFile {s : Log} (h : Sound s) (f : FileRemoveFile) (now : ℕ) :
    Right s (.removeFile f now) := by
  refine ⟨fun p hp => ?_, trivial⟩
  rcases List.mem_append.mp hp with hp | hp
  · rcases h.covered p hp with ⟨g, hg, heq⟩ | hdir
    · exact .inl ⟨g, List.mem_append_left _ hg, heq⟩
    · exact .inr hdir
  · obtain rfl := List.mem_singleton.mp hp
    exact .inl ⟨f, List.mem_append_right _ (List.mem_singleton_self f), rfl⟩

theorem right_timer {s : Log} (h : Sound s) (now : ℕ) : Right s (.timer now) := by
  refine ⟨fun p hp => ?_, fun hflush p hp => logged_of_covered hflush (h.covered p hp)⟩
  by_cases hearly : (now - s.control.instant) / 1000000000 < 1
  · simp only [Log.step, FileRemoveLogControl.onTimer, if_pos hearly] at hp ⊢
    exact h.covered p hp
  · simp only [Log.step, if_neg hearly] at hp
    cases hp

/-- **A removed directory** is logged right iff the filter of the files does no harm. -/
theorem right_removeDir_iff {s : Log} (h : Sound s) (d : FileRemoveDir) (now : ℕ) :
    Right s (.removeDir d now) ↔ Harmless s.control d := by
  constructor
  · rintro ⟨hcov, hfiles, -⟩
    refine ⟨fun f hf hchild => hfiles f (onRemoveDir_keeps_children hf hchild) hchild,
      fun f hf habove => ?_⟩
    exact covered_of_dropped habove (hcov f.path (List.mem_append_left _ (h.pending f hf)))
  · intro hharm
    refine ⟨fun p hp => ?_, fun f hf => hharm.1 f (mem_removedFiles_onRemoveDir.mp hf).1,
      onRemoveDir_dirs_folded⟩
    rcases List.mem_append.mp hp with hp | hp
    · exact onRemoveDir_covers hharm (h.covered p hp)
    · obtain rfl := List.mem_singleton.mp hp
      exact .inr (onRemoveDir_covers_self _ _ _)

/-- **What one call keeps**. -/
theorem Sound.step {s : Log} (h : Sound s) {a : Act} (ha : Right s a) : Sound (s.step a) := by
  refine ⟨fun f hf => ?_, ha.1⟩
  cases a with
  | removeFile g now =>
    rcases List.mem_append.mp hf with hf | hf
    · exact List.mem_append_left _ (h.pending f hf)
    · obtain rfl := List.mem_singleton.mp hf
      exact List.mem_append_right _ (List.mem_singleton_self _)
  | removeDir d now =>
    exact List.mem_append_left _ (h.pending f (mem_removedFiles_onRemoveDir.mp hf).1)
  | timer now =>
    by_cases hearly : (now - s.control.instant) / 1000000000 < 1
    · simp only [Log.step, FileRemoveLogControl.onTimer, if_pos hearly] at hf ⊢
      exact h.pending f hf
    · simp only [Log.step, FileRemoveLogControl.onTimer, if_neg hearly] at hf
      cases hf

/-! ## Runs -/

variable {connId : ℤ} {start : ℕ}

theorem sound_nil : Sound (after connId start []) :=
  ⟨fun _ hf => (List.not_mem_nil hf).elim, fun _ hp => (List.not_mem_nil hp).elim⟩

/-- A run is sound as far as its calls are right. -/
theorem sound_after {acts : List Act}
    (h : ∀ done a rest, acts = done ++ a :: rest → Sound (after connId start done) →
    Right (after connId start done) a) :
    ∀ done rest, acts = done ++ rest → Sound (after connId start done) := by
  intro done
  induction done using List.reverseRecOn with
  | nil => exact fun _ _ => sound_nil
  | append_singleton done a ih =>
    intro rest heq
    rw [List.append_assoc, List.singleton_append] at heq
    have hdone := ih (a :: rest) heq
    rw [after_snoc]
    exact hdone.step (h done a rest heq hdone)

/-- **Folding of the log**: over any sequence of calls, every removal is covered all the time, the
directories leave nothing pending that is directly in them and what is flushed covers all removals,
iff no `on_remove_dir` of it meets a pending file that its swapped filter keeps or drops wrongly. -/
theorem removals_folded_iff (connId : ℤ) (start : ℕ) (acts : List Act) :
    (∀ done a rest, acts = done ++ a :: rest → Right (after connId start done) a) ↔
      ∀ done d now rest, acts = done ++ .removeDir d now :: rest →
        Harmless (after connId start done).control d := by
  constructor
  · intro h done d now rest heq
    have hdone := sound_after (fun done a rest heq _ => h done a rest heq) done _ heq
    exact (right_removeDir_iff hdone d now).mp (h done _ rest heq)
  · intro h
    have hright : ∀ done a rest, acts = done ++ a :: rest → Sound (after connId start done) →
        Right (after connId start done) a := by
      intro done a rest heq hdone
      cases a with
      | removeFile f now => exact right_removeFile hdone f now
      | removeDir d now => exact (right_removeDir_iff hdone d now).mpr (h done d now rest heq)
      | timer now => exact right_timer hdone now
    exact fun done a rest heq => hright done a rest heq (sound_after hright done _ heq)

/-- A file stays pending next to the directory it is in, and a file that the directory is in (a
file of that name was there before the directory) is dropped without a trace. -/
theorem removals_not_folded : ¬ Right (after 1 0 [.removeFile { id := 0, path := "/a/b".toList } 0])
        (.removeDir { id := 1, path := "/a".toList } 0) ∧
      ¬ Right (after 1 0 [.removeFile { id := 0, path := "/a".toList } 0])
        (.removeDir { id := 1, path := "/a/b".toList } 0) := by
  constructor
  · rintro ⟨-, hfiles, -⟩
    exact hfiles { id := 0, path := "/a/b".toList } (by decide) (by decide)
  · have hafter : ((after 1 0 [.removeFile { id := 0, path := "/a".toList } 0]).step
        (.removeDir { id := 1, path := "/a/b".toList } 0)).control =
          { connId := 1, instant := 0, removedFiles := [],
            removedDirs := [{ id := 1, path := "/a/b".toList }] } := by decide
    rintro ⟨hcov, -⟩
    rcases hcov "/a".toList (by decide) with ⟨f, hf, -⟩ | ⟨d, hd, hunder⟩
    · rw [hafter] at hf
      cases hf
    · rw [hafter] at hd
      obtain rfl := List.mem_singleton.mp hd
      exact absurd hunder.length_le (by decide)

end BgDesk.RemovalLog
