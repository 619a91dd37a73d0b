import Mathlib.Data.List.Infix
import BgDesk.BytesCodec

/-!
# Paths and files

Unix paths as the standard library reads them, over lists of characters, and a file system in
which every path is a file of its own: a partial map from paths to files, and the paths that
are symbolic links.
-/

namespace BgDesk

/-! ## Paths -/

/-- A path, or a piece of one. -/
abbrev PathName : Type := List Char

/-- By name, so that the search for it does not start over wherever names are compared. -/
instance PathName.lawfulBEq : LawfulBEq PathName := inferInstance

namespace PathName

/-- `Path::join`. -/
def join (p name : PathName) : PathName :=
  if name.head? = some '/' then name
  else if p = [] ∨ p.getLast? = some '/' then p ++ name
  else p ++ '/' :: name

/-- The parts between the separators, without the empty ones. -/
def segments (p : PathName) : List PathName := (p.splitOn '/').filter fun s => s ≠ []

/-- `Path::components` without `CurDir` and `RootDir`. -/
def components (p : PathName) : List PathName := p.segments.filter fun s => s ≠ ['.']

/-- `Path::file_name`. -/
def fileName (p : PathName) : Option PathName :=
  p.components.getLast?.filter fun s => s ≠ ['.', '.']

/-- A relative name is appended to what a base turns into. -/
theorem exists_join (p : PathName) :
    ∃ dir, ∀ name : PathName, name.head? ≠ some '/' → p.join name = dir ++ name := by
  by_cases hp : p = [] ∨ p.getLast? = some '/'
  · exact ⟨p, fun name hname => by rw [join, if_neg hname, if_pos hp]⟩
  · exact ⟨p ++ ['/'], fun name hname => by rw [join, if_neg hname, if_neg hp, List.append_cons]⟩

/-- Names that are joined to one base differ by a suffix exactly where the paths do. -/
theorem join_eq_append_iff (p : PathName) {a b suffix : PathName} (ha : a.head? ≠ some '/')
    (hb : b.head? ≠ some '/') : p.join a = p.join b ++ suffix ↔ a = b ++ suffix := by
  obtain ⟨dir, hdir⟩ := p.exists_join
  rw [hdir a ha, hdir b hb, List.append_assoc, List.append_cancel_left_eq]

end PathName

/-! ## Files -/

/-- A file: its bytes, and its modification time where somebody has set it. -/
structure FileNode where
  content : Bytes
  mtime : Option ℕ
  deriving DecidableEq

/-- A file system: the files, and the paths that are symbolic links. -/
structure FileSys where
  files : PathName → Option FileNode
  symlink : PathName → Bool

namespace FileSys

/-- Nothing there. -/
def empty : FileSys := ⟨fun _ => none, fun _ => false⟩

/-- `std::fs::remove_file`. -/
def remove (fs : FileSys) (p : PathName) : FileSys :=
  { fs with files := Function.update fs.files p none }

/-- `std::fs::write`, also `File::create` for no bytes. -/
def write (fs : FileSys) (p : PathName) (content : Bytes) : FileSys :=
  { fs with files := Function.update fs.files p (some ⟨content, none⟩) }

/-- `std::fs::rename`, with nothing done where there is no file. -/
def rename (fs : FileSys) (p q : PathName) : FileSys :=
  match fs.files p with
  | some node =>
    { fs with files := Function.update (Function.update fs.files p none) q (some node) }
  | none => fs

/-- `set_file_mtime`. -/
def setMtime (fs : FileSys) (p : PathName) (time : ℕ) : FileSys :=
  { fs with
    files :=
      Function.update fs.files p ((fs.files p).map fun node => { node with mtime := some time }) }

/-- Bytes written to an open file at a position. -/
def writeAt (fs : FileSys) (p : PathName) (pos : ℕ) (data : Bytes) : FileSys :=
  { fs with files := Function.update fs.files p ((fs.files p).map fun node =>
      ⟨node.content.take pos ++ data ++ node.content.drop (pos + data.length), none⟩) }

/-- The bytes at a path. -/
def content (fs : FileSys) (p : PathName) : Option Bytes := (fs.files p).map FileNode.content

/-! ### The bytes after an operation -/

variable (fs : FileSys) (p q r : PathName)

theorem content_remove : (fs.remove p).content r = if r = p then none else fs.content r := by
  rw [content, remove]
  by_cases h : r = p
  · simp [h]
  · simp [h, content]

/-- `write` changes its own path alone; so do the operations below, a rename both of its paths. -/
theorem content_write (data : Bytes) :
    (fs.write p data).content r = if r = p then some data else fs.content r := by
  rw [content, write]
  by_cases h : r = p
  · simp [h]
  · simp [h, content]

/-- A time is not content. -/
theorem content_setMtime (time : ℕ) : (fs.setMtime p time).content r = fs.content r := by
  rw [content, setMtime, content]
  by_cases h : r = p
  · subst h
    cases fs.files r <;> simp
  · simp [h]

variable {p q} in
/-- The file moves to its new path, or there was none and nothing happens. -/
theorem content_rename (h : p ≠ q) : (fs.rename p q).content r =
    if r = q then (fs.content p).or (fs.content q) else if r = p then none else fs.content r := by
  rw [rename]
  cases hp : fs.files p with
  | none =>
    have hnone : fs.content p = none := by rw [content, hp]; rfl
    rw [hnone, Option.none_or]
    dsimp only
    split
    · next hr => rw [hr]
    · split
      · next hr => rw [hr, hnone]
      · rfl
  | some node =>
    have hsome : fs.content p = some node.content := by rw [content, hp]; rfl
    rw [hsome, Option.some_or]
    dsimp only
    split
    · next hr => simp [content, hr]
    · next hr =>
      split
      · next hr' => simp [content, hr', h]
      · next hr' => simp [content, hr, hr']

theorem content_writeAt (pos : ℕ) (data : Bytes) : (fs.writeAt p pos data).content r =
    if r = p then (fs.content p).map fun c => c.take pos ++ data ++ c.drop (pos + data.length)
    else fs.content r := by
  rw [content, writeAt]
  by_cases h : r = p
  · subst h
    cases hr : fs.files r <;> simp [hr, content]
  · simp [h, content]

/-- No operation makes or removes a link. -/
theorem symlink_rename : (fs.rename p q).symlink = fs.symlink := by
  rw [rename]
  split
  · rfl
  · rfl

end FileSys
end BgDesk
