import BgDesk.FileSystem

/-!
# The components of a path

`std::path::Path` on Unix, as far as paths are compared, split and looked up: two paths are the same
if their components are, and a component is what stands between separators, but for the empty ones
and the `.` that are left out.

* `Component`, `PathName.pathComponents`, `parent`, `lastName` — as the standard library has them;
* `PathName.Normalized` — every part stands for itself, so the components are the parts.
-/

namespace BgDesk

/-- `std::path::Component`. -/
inductive Component where
  | rootDir
  | curDir
  | parentDir
  | normal (name : PathName)
  deriving DecidableEq

namespace Component

/-- A part between separators that is neither empty nor `.`. -/
def ofPart (part : PathName) : Component := if part = ['.', '.'] then .parentDir else .normal part

/-- `Path::parent`: nothing for a root and for the empty path. -/
def parent (path : List Component) : Option (List Component) :=
  match path.getLast? with
  | none => none
  | some .rootDir => none
  | some _ => some path.dropLast

/-- `Path::file_name`. -/
def lastName (path : List Component) : Option PathName :=
  match path.getLast? with
  | some (.normal name) => some name
  | _ => none

theorem parent_append_normal (path : List Component) (name : PathName) :
    parent (path ++ [.normal name]) = some path := by
  rw [parent, List.getLast?_concat]
  exact congrArg some (List.dropLast_concat)

theorem lastName_append_normal (path : List Component) (name : PathName) :
    lastName (path ++ [.normal name]) = some name := by
  rw [lastName, List.getLast?_concat]

end Component

namespace PathName

/-- `Path::components`. -/
def pathComponents (p : PathName) : List Component :=
  let parts := p.splitOn '/'
  let start : List Component :=
    if p.head? = some '/' then [.rootDir] else if parts.head? = some ['.'] then [.curDir] else []
  start ++ (parts.filter fun part => part ≠ [] ∧ part ≠ ['.']).map Component.ofPart

example : pathComponents "./a//b/./../c/".toList =
    [.curDir, .normal ['a'], .normal ['b'], .parentDir, .normal ['c']] := by decide

/-- No part is empty, or stands for the directory or the one above. -/
def Normalized (p : PathName) : Prop :=
  ∀ part ∈ p.splitOn '/', part ≠ [] ∧ part ≠ ['.'] ∧ part ≠ ['.', '.']

variable {p : PathName}

theorem head?_splitOn_of_head? (h : p.head? = some '/') : [] ∈ p.splitOn '/' := by
  cases p with
  | nil => cases h
  | cons c cs =>
    obtain rfl := Option.some.inj h
    rw [List.splitOn_cons_eq_if_modifyHead, if_pos (beq_self_eq_true _)]
    exact List.mem_cons_self

/-- A normalized path is relative. -/
theorem Normalized.relative (h : p.Normalized) : p.head? ≠ some '/' :=
  fun hhead => (h [] (head?_splitOn_of_head? hhead)).1 rfl

theorem Normalized.ne_nil (h : p.Normalized) : p ≠ [] := by
  rintro rfl
  exact (h [] (by simp)).1 rfl

/-- The components of a normalized path are its parts. -/
theorem Normalized.pathComponents (h : p.Normalized) :
    p.pathComponents = (p.splitOn '/').map .normal := by
  have hcur : (p.splitOn '/').head? ≠ some ['.'] := fun hhead =>
    (h _ (List.mem_of_head? hhead)).2.1 rfl
  have hfilter : (p.splitOn '/').filter (fun part => part ≠ [] ∧ part ≠ ['.']) = p.splitOn '/' :=
    List.filter_eq_self.mpr fun part hpart => decide_eq_true ⟨(h part hpart).1, (h part hpart).2.1⟩
  rw [PathName.pathComponents, if_neg h.relative, if_neg hcur, hfilter, List.nil_append]
  refine List.map_congr_left fun part hpart => ?_
  rw [Component.ofPart, if_neg (h part hpart).2.2]

/-- A normalized path is its components. -/
theorem Normalized.eq_of_pathComponents {q : PathName} (hp : p.Normalized) (hq : q.Normalized)
    (h : p.pathComponents = q.pathComponents) : p = q := by
  rw [hp.pathComponents, hq.pathComponents] at h
  have hparts := List.map_injective_iff.mpr (fun a b hab => Component.normal.inj hab) h
  calc
    p = ['/'].intercalate (p.splitOn '/') := (List.intercalate_splitOn '/').symm
    _ = ['/'].intercalate (q.splitOn '/') := congrArg _ hparts
    _ = q := List.intercalate_splitOn '/'

end PathName
end BgDesk
