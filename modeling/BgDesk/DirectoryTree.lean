import Mathlib.Data.List.Infix
import BgDesk.FileSystem

/-!
# Directories and symbolic links

The generic part for programs that go through a file system of a Unix kind: a tree of directories,
files and symbolic links, and the way a path leads through it.

* `PathName.segments_append`, `segments_join`, `exists_last` — the parts of a path that is put
  together;
* `Tree` — a node, with what is under it;
* `walk` — a path is followed from a directory, link after link; `Reached` has the links;
* `Disk` — a tree and a working directory, with the calls that look, create, remove and rename;
* `Plain` — no part of a path is a symbolic link; `walk_plain` is the rule for such a path.
-/

namespace BgDesk

/-! ## The parts of a path -/

namespace PathName

/-- `Path::is_absolute`. -/
def isAbsolute (p : PathName) : Bool := p.head? = some '/'

@[simp] theorem segments_nil : segments [] = [] := rfl

/-- A separator separates. -/
theorem segments_append (a b : PathName) : segments (a ++ '/' :: b) = segments a ++ segments b := by
  rw [segments, List.splitOn_append_cons_self, List.filter_append]
  rfl

variable {name : PathName}

theorem segments_single (h : '/' ∉ name) : segments name = if name = [] then [] else [name] := by
  rw [segments, List.splitOn_eq_singleton h]
  by_cases hname : name = []
  · simp [hname]
  · simp [hname]

/-- No separator is in what it separates. -/
theorem notMem_of_mem_splitOn : ∀ {p s : PathName}, s ∈ p.splitOn '/' → '/' ∉ s := by
  intro p
  induction p with
  | nil =>
    intro s h
    rw [List.splitOn_nil, List.mem_singleton] at h
    simp [h]
  | cons c p ih =>
    intro s h
    rw [List.splitOn_cons_eq_if_modifyHead] at h
    split at h
    · rcases List.mem_cons.mp h with rfl | h
      · simp
      · exact ih h
    · rename_i hc
      obtain ⟨first, rest, hsplit⟩ := List.exists_cons_of_ne_nil (List.splitOn_ne_nil '/' p)
      rw [hsplit, List.modifyHead_cons] at h
      rcases List.mem_cons.mp h with rfl | h
      · have hfirst : '/' ∉ first := ih (hsplit ▸ List.mem_cons_self ..)
        rw [List.mem_cons, not_or]
        exact ⟨fun heq => hc (beq_iff_eq.mpr heq.symm), hfirst⟩
      · exact ih (hsplit ▸ List.mem_cons_of_mem _ h)

/-- A part has no separator, and is not empty. -/
theorem mem_segments {p s : PathName} (h : s ∈ p.segments) : s ≠ [] ∧ '/' ∉ s :=
  ⟨by simpa using (List.mem_filter.mp h).2, notMem_of_mem_splitOn (List.mem_filter.mp h).1⟩

/-- The parts of a relative name come after those of the base. -/
theorem segments_join (p : PathName) (h : name.head? ≠ some '/') :
    segments (p.join name) = segments p ++ segments name := by
  rw [join, if_neg h]
  split
  · rename_i hp
    rcases hp with rfl | hlast
    · rfl
    · obtain ⟨q, rfl⟩ := List.getLast?_eq_some_iff.mp hlast
      rw [List.append_assoc, List.singleton_append, segments_append, segments_append, segments_nil,
        List.append_nil]
  · exact segments_append p name

theorem isAbsolute_join (p : PathName) (h : name.head? ≠ some '/') :
    isAbsolute (p.join name) = isAbsolute p := by
  rw [join, if_neg h]
  cases p with
  | nil => simp [isAbsolute, h]
  | cons c p =>
    split
    · rfl
    · rfl

/-- What a suffix is appended to: the last part, which is empty after a separator. -/
theorem exists_last (p : PathName) :
    ∃ init last, '/' ∉ last ∧ segments p = init ++ (if last = [] then [] else [last]) ∧
    ∀ suffix, '/' ∉ suffix → suffix ≠ [] → segments (p ++ suffix) = init ++ [last ++ suffix] := by
  by_cases hslash : '/' ∈ p
  · obtain ⟨pre, last, rfl, hlast⟩ : ∃ pre last, p = pre ++ '/' :: last ∧ '/' ∉ last := by
      obtain ⟨last, pre, hp, hlast⟩ := List.eq_append_cons_of_mem (List.mem_reverse.mpr hslash)
      refine ⟨pre.reverse, last.reverse, ?_, by simpa using hlast⟩
      simpa using congrArg List.reverse hp
    refine ⟨segments pre, last, hlast, by
      rw [segments_append, segments_single hlast], fun suffix hsuffix hne => ?_⟩
    have hboth : '/' ∉ last ++ suffix := by simp [hlast, hsuffix]
    rw [List.append_assoc, List.cons_append, segments_append, segments_single hboth,
      if_neg (by simp [hne])]
  · refine ⟨[], p, hslash, segments_single hslash, fun suffix hsuffix hne => ?_⟩
    rw [segments_single (by simp [hslash, hsuffix]), if_neg (by simp [hne])]
    rfl

end PathName

/-! ## Trees -/

/-- The names from the root. -/
abbrev Location : Type := List PathName

inductive Tree where
  | dir (entries : List (PathName × Tree))
  | file (content : Bytes)
  | link (target : PathName)

namespace Tree

/-- The entries with another node, or none, under a name. -/
def setEntry (entries : List (PathName × Tree)) (name : PathName) (node : Option Tree) :
    List (PathName × Tree) :=
  let others := entries.filter fun e => e.1 ≠ name
  match node with
  | none => others
  | some t => (name, t) :: others

/-- The node at a location. -/
def get : Tree → Location → Option Tree
  | t, [] => some t
  | .dir entries, name :: rest =>
    match entries.lookup name with
    | none => none
    | some t => t.get rest
  | _, _ :: _ => none

/-- The tree with another node, or none, at a location whose directory is there. -/
def put : Tree → Location → Option Tree → Tree
  | .dir entries, [name], node => .dir (setEntry entries name node)
  | .dir entries, name :: next :: rest, node =>
    match entries.lookup name with
    | none => .dir entries
    | some t => .dir (setEntry entries name (some (t.put (next :: rest) node)))
  | t, _, _ => t

/-- Whether it is a symbolic link. -/
def isLink : Tree → Bool
  | .link _ => true
  | _ => false

def isDir : Tree → Bool
  | .dir _ => true
  | _ => false

end Tree

/-! ## Following a path -/

inductive Errno where
  | notFound
  | notDir
  | loop
  | isDir
  | taken
  | notEmpty
  | invalid
  deriving DecidableEq

/-- Where a path leads, and the links it leads through. -/
structure Reached where
  location : Location
  via : List Location
  deriving DecidableEq

/-- The parts as the system goes through them: a separator at the end is for a directory. -/
def PathName.steps (p : PathName) : List PathName :=
  p.segments ++ if p.getLast? = some '/' then [['.']] else []

/-- A path is followed from a directory; `jump` follows what a link has in its place. What is last
need not be there. -/
def walkWith (root : Tree) (jump : Location → List PathName → Except Errno Reached) :
    Location → List PathName → Except Errno Reached
  | at_, [] => .ok ⟨at_, []⟩
  | at_, name :: rest =>
    match root.get at_ with
    | none => .error .notFound
    | some (.dir entries) =>
      if name = ['.'] then walkWith root jump at_ rest
      else if name = ['.', '.'] then walkWith root jump at_.dropLast rest
      else
        match entries.lookup name with
        | some (.link target) =>
          (jump (if target.isAbsolute then [] else at_) (target.steps ++ rest)).map fun r =>
            ⟨r.location, (at_ ++ [name]) :: r.via⟩
        | _ => walkWith root jump (at_ ++ [name]) rest
    | some _ => .error .notDir

/-- A path is followed through at most so many links. -/
def walk (root : Tree) : ℕ → Location → List PathName → Except Errno Reached
  | 0 => walkWith root fun _ _ => .error .loop
  | budget + 1 => walkWith root (walk root budget)

/-! ## The calls -/

/-- `MAXSYMLINKS`. -/
def maxSymlinks : ℕ := 40

structure Disk where
  root : Tree
  cwd : Location

namespace Disk

variable (d : Disk)

/-- Where a path starts. -/
def start (p : PathName) : Location := if p.isAbsolute then [] else d.cwd

/-- Where a path leads, all links followed. -/
def resolve (p : PathName) : Except Errno Reached :=
  if p = [] then .error .notFound else walk d.root maxSymlinks (d.start p) p.steps

/-- `Path::exists`: the node a path leads to is there. -/
def pathExists (p : PathName) : Bool :=
  match d.resolve p with
  | .error _ => false
  | .ok r => (d.root.get r.location).isSome

/-- The directory a path leads to, and the last name, which is not followed. -/
def place (p : PathName) : Except Errno (Location × PathName × Option Tree) :=
  match p.steps.getLast? with
  | none => .error .invalid
  | some name =>
    if name = ['.'] ∨ name = ['.', '.'] then .error .invalid
    else
      match walk d.root maxSymlinks (d.start p) p.steps.dropLast with
      | .error e => .error e
      | .ok r =>
        match d.root.get r.location with
        | none => .error .notFound
        | some (.dir entries) => .ok (r.location, name, entries.lookup name)
        | some _ => .error .notDir

/-- `symlink_metadata` of a path that ends in a name. -/
def symlinkMetadata (p : PathName) : Except Errno Tree :=
  match d.place p with
  | .error e => .error e
  | .ok (_, _, none) => .error .notFound
  | .ok (_, _, some t) => .ok t

/-- The disk with another node, or none, at a location. -/
def put (at_ : Location) (node : Option Tree) : Disk := { d with root := d.root.put at_ node }

/-- `remove_file`. -/
def removeFile (p : PathName) : Except Errno Disk :=
  match d.place p with
  | .error e => .error e
  | .ok (_, _, none) => .error .notFound
  | .ok (_, _, some (.dir _)) => .error .isDir
  | .ok (parent, name, some _) => .ok (d.put (parent ++ [name]) none)

/-- `rename`: a directory only over an empty one and not into itself, anything else not over a
directory. -/
def rename (p q : PathName) : Except Errno Disk :=
  match d.place p, d.place q with
  | .error e, _ => .error e
  | _, .error e => .error e
  | .ok (_, _, none), _ => .error .notFound
  | .ok (pParent, pName, some t), .ok (qParent, qName, old) =>
    let source := pParent ++ [pName]
    let target := qParent ++ [qName]
    if source = target then .ok d
    else
      match t.isDir, old with
      | true, some (.dir (_ :: _)) => .error .notEmpty
      | true, some (.file _) => .error .notDir
      | true, some (.link _) => .error .notDir
      | false, some (.dir _) => .error .isDir
      | _, _ =>
        if source <+: target ∨ target <+: source then .error .invalid
        else .ok ((d.put source none).put target (some t))

/-- `File::create`, and `OpenOptions` with `create` if not `truncate`: the file that is open. -/
def openFile (p : PathName) (truncate : Bool) : Except Errno (Reached × Disk) :=
  match d.resolve p with
  | .error e => .error e
  | .ok r =>
    match d.root.get r.location with
    | some (.dir _) => .error .isDir
    | some (.file content) =>
      .ok (r, d.put r.location (some (.file (if truncate then [] else content))))
    | _ => .ok (r, d.put r.location (some (.file [])))

/-- Bytes go to an open file at a position. -/
def writeAt (at_ : Location) (pos : ℕ) (data : Bytes) : Disk :=
  match d.root.get at_ with
  | some (.file content) =>
    d.put at_ (some (.file (content.take pos ++ data ++ content.drop (pos + data.length))))
  | _ => d

end Disk

/-- `create_dir_all`: the directories on the way that are not there, as far as they can be made. -/
def Disk.createDirAll : Disk → Location → List PathName → List PathName → Disk
  | d, _, _, [] => d
  | d, start, done, name :: rest =>
    match walk d.root maxSymlinks start done, walk d.root maxSymlinks start (done ++ [name]) with
    | .ok parent, .ok r =>
      match d.root.get r.location, d.root.get (parent.location ++ [name]) with
      | some (.dir _), _ => Disk.createDirAll d start (done ++ [name]) rest
      | _, none =>
        Disk.createDirAll (d.put (parent.location ++ [name]) (some (.dir [])))
          start (done ++ [name]) rest
      | _, some _ => d
    | _, _ => d

/-! ## Looking and putting -/

namespace Tree

theorem get_append :
    ∀ (a : Location) (t : Tree) (b : Location), t.get (a ++ b) = (t.get a).bind fun s =>
      s.get b := by
  intro a
  induction a with
  | nil =>
    intro t b
    rw [get, List.nil_append]
    rfl
  | cons name a ih =>
    intro t b
    cases t with
    | dir entries =>
      rw [List.cons_append, get, get]
      cases entries.lookup name with
      | none => rfl
      | some s => exact ih s b
    | file content => rfl
    | link target => rfl

/-- What is under a directory is one of its entries. -/
theorem get_snoc {t : Tree} {a : Location} {entries : List (PathName × Tree)}
    (h : t.get a = some (.dir entries)) (name : PathName) :
    t.get (a ++ [name]) = entries.lookup name := by
  rw [get_append, h, Option.bind_some, get]
  cases entries.lookup name with
  | none => rfl
  | some s => exact get.eq_1 s

theorem get_nil (t : Tree) : t.get [] = some t := get.eq_1 t

theorem lookup_setEntry (entries : List (PathName × Tree)) (name other : PathName)
    (node : Option Tree) : (setEntry entries name node).lookup other = if other =
      name then node else entries.lookup other := by
  have hothers : (entries.filter fun e => e.1 ≠ name).lookup other = if other =
      name then none else entries.lookup other := by
    induction entries with
    | nil => simp
    | cons e entries ih =>
      by_cases he : e.1 = name
      · rw [List.filter_cons_of_neg (by simpa using he), ih, List.lookup_cons, he]
        split
        · rfl
        · rename_i hne
          rw [beq_false_of_ne hne]
      · rw [List.filter_cons_of_pos (by simpa using he), List.lookup_cons, ih, List.lookup_cons]
        by_cases hother : other = e.1
        · simp only [hother, beq_self_eq_true, if_neg he]
        · rw [beq_false_of_ne hother]
  cases node with
  | none => exact hothers
  | some t =>
    change List.lookup other ((name, t) :: entries.filter fun e => e.1 ≠ name) = _
    rw [List.lookup_cons, hothers]
    by_cases hother : other = name
    · simp only [hother, beq_self_eq_true, if_true]
    · rw [if_neg hother, if_neg hother, beq_false_of_ne hother]

/-- A node without links does not bring any. -/
theorem link_of_put {node : Option Tree}
    (hnode : ∀ a t, node.bind (fun s => s.get a) = some t → t.isLink = false) :
    ∀ (a : Location) (root : Tree) {b : Location} {t : Tree}, (root.put a node).get b = some t →
      t.isLink = true → root.get b = some t := by
  intro a
  induction a with
  | nil =>
    intro root b t h _
    rwa [put.eq_3 root [] node (fun _ _ _ h => nomatch h) (fun _ _ _ _ _ h => nomatch h)] at h
  | cons name a ih =>
    intro root b t h hlink
    cases root with
    | file content => exact h
    | link target => exact h
    | dir entries =>
      cases b with
      | nil =>
        have hdir : ∃ entries', (Tree.dir entries).put (name :: a) node = .dir entries' := by
          cases a with
          | nil => exact ⟨_, rfl⟩
          | cons next a =>
            rw [put]
            split
            · exact ⟨_, rfl⟩
            · exact ⟨_, rfl⟩
        obtain ⟨entries', hput⟩ := hdir
        rw [hput, get_nil] at h
        obtain rfl := Option.some.inj h
        cases hlink
      | cons first b =>
        cases a with
        | nil =>
          rw [put, get, lookup_setEntry] at h
          by_cases hfirst : first = name
          · rw [if_pos hfirst] at h
            have := hnode b t (by cases node with
              | none => exact h
              | some s => exact h)
            rw [hlink] at this
            cases this
          · rw [if_neg hfirst] at h
            rw [get]
            exact h
        | cons next a =>
          rw [put] at h
          cases hname : entries.lookup name with
          | none =>
            rw [hname] at h
            exact h
          | some s =>
            rw [hname] at h
            dsimp only at h
            rw [get, lookup_setEntry] at h
            rw [get]
            by_cases hfirst : first = name
            · rw [if_pos hfirst] at h
              rw [hfirst, hname]
              exact ih s h hlink
            · rw [if_neg hfirst] at h
              exact h

end Tree

/-! ## Paths without links -/

/-- Where a path leads by its names alone. -/
def lexical : Location → List PathName → Location
  | at_, [] => at_
  | at_, name :: rest =>
    if name = ['.'] then lexical at_ rest
    else if name = ['.', '.'] then lexical at_.dropLast rest
    else lexical (at_ ++ [name]) rest

/-- No part of a path is a symbolic link. -/
def Plain (root : Tree) : Location → List PathName → Prop
  | _, [] => True
  | at_, name :: rest =>
    if name = ['.'] then Plain root at_ rest
    else if name = ['.', '.'] then Plain root at_.dropLast rest
    else (∀ t, root.get (at_ ++ [name]) = some t → t.isLink = false) ∧
      Plain root (at_ ++ [name]) rest

section Plain

variable {root : Tree} {at_ : Location} {names rest : List PathName}

theorem lexical_append : ∀ (names : List PathName) (at_ : Location) (rest : List PathName),
    lexical at_ (names ++ rest) = lexical (lexical at_ names) rest := by
  intro names
  induction names with
  | nil => exact fun _ _ => rfl
  | cons name names ih =>
    intro at_ rest
    rw [List.cons_append, lexical, lexical]
    split
    · exact ih ..
    · split
      · exact ih ..
      · exact ih ..

theorem plain_append : ∀ {names : List PathName} {at_ : Location},
    Plain root at_ (names ++ rest) ↔ Plain root at_ names ∧
      Plain root (lexical at_ names) rest := by
  intro names
  induction names with
  | nil =>
    intro at_
    simp [Plain, lexical]
  | cons name names ih =>
    intro at_
    rw [List.cons_append, Plain, Plain, lexical]
    split
    · exact ih
    · split
      · exact ih
      · rw [ih, and_assoc]

/-- A path without links leads where its names say, or nowhere. -/
theorem walkWith_plain {jump : Location → List PathName → Except Errno Reached} :
    ∀ {names : List PathName} {at_ : Location},
    Plain root at_ names →
      (walkWith root jump at_ names = .ok ⟨lexical at_ names, []⟩ ∧
        walkWith root jump at_ (names ++ rest) = walkWith root jump (lexical at_ names) rest) ∨
        ∃ e, walkWith root jump at_ names = .error e ∧
          walkWith root jump at_ (names ++ rest) = .error e := by
  intro names
  induction names with
  | nil => exact fun _ => .inl ⟨rfl, rfl⟩
  | cons name names ih =>
    intro at_ hplain
    rw [List.cons_append, walkWith, walkWith, lexical]
    rw [Plain] at hplain
    split
    · exact .inr ⟨_, rfl, rfl⟩
    · rename_i entries hdir
      split
      · rename_i hname
        rw [if_pos hname] at hplain
        exact ih hplain
      · rename_i hname
        rw [if_neg hname] at hplain
        split
        · rename_i hup
          rw [if_pos hup] at hplain
          exact ih hplain
        · rename_i hup
          rw [if_neg hup] at hplain
          split
          · rename_i target hlink
            have hfalse := hplain.1 (.link target) (by rw [Tree.get_snoc hdir, hlink])
            cases hfalse
          · exact ih hplain.2
    · exact .inr ⟨_, rfl, rfl⟩

theorem exists_jump (root : Tree) (budget : ℕ) : ∃ jump, walk root budget = walkWith root jump := by
  cases budget with
  | zero => exact ⟨_, rfl⟩
  | succ budget => exact ⟨_, rfl⟩

/-- **The rule for a path without links.** -/
theorem walk_plain (budget : ℕ) (h : Plain root at_ names) (rest : List PathName) :
    (walk root budget at_ names = .ok ⟨lexical at_ names, []⟩ ∧
      walk root budget at_ (names ++ rest) = walk root budget (lexical at_ names) rest) ∨
      ∃ e, walk root budget at_ names = .error e ∧
        walk root budget at_ (names ++ rest) = .error e := by
  obtain ⟨jump, hjump⟩ := exists_jump root budget
  rw [hjump]
  exact walkWith_plain h

/-- Where nothing leads up, the names are appended. -/
theorem lexical_eq : ∀ {names : List PathName} {at_ : Location}, ['.', '.'] ∉ names →
    lexical at_ names = at_ ++ names.filter fun s => s ≠ ['.'] := by
  intro names
  induction names with
  | nil =>
    intro at_ _
    simp [lexical]
  | cons name names ih =>
    intro at_ hup
    rw [List.mem_cons, not_or] at hup
    rw [lexical]
    split
    · rename_i hname
      rw [ih hup.2, List.filter_cons_of_neg (by simpa using hname)]
    · rename_i hname
      rw [if_neg (Ne.symm hup.1), ih hup.2, List.filter_cons_of_pos (by simpa using hname),
        List.append_assoc]
      rfl

/-- A path without links that is not found, and does not lead up, has nothing at its end. -/
theorem get_of_notFound {jump : Location → List PathName → Except Errno Reached} :
    ∀ {names : List PathName} {at_ : Location},
    Plain root at_ names → ['.', '.'] ∉ names → walkWith root jump at_ names = .error .notFound →
      ∀ more, root.get (lexical at_ names ++ more) = none := by
  intro names
  induction names with
  | nil => exact fun _ _ h => nomatch h
  | cons name names ih =>
    intro at_ hplain hup h more
    rw [walkWith] at h
    split at h
    · rename_i hnone
      rw [lexical_eq hup, List.append_assoc, Tree.get_append, hnone]
      rfl
    · rename_i entries hdir
      rw [List.mem_cons, not_or] at hup
      rw [Plain] at hplain
      rw [lexical]
      split at h
      · rename_i hname
        rw [if_pos hname] at hplain ⊢
        exact ih hplain hup.2 h more
      · rename_i hname
        rw [if_neg hname, if_neg (Ne.symm hup.1)] at hplain ⊢
        rw [if_neg (Ne.symm hup.1)] at h
        split at h
        · rename_i target hlink
          have hfalse := hplain.1 (.link target) (by rw [Tree.get_snoc hdir, hlink])
          cases hfalse
        · exact ih hplain.2 hup.2 h more
    · cases h

/-- A path is found as far as it leads up. -/
def Sane (root : Tree) (at_ : Location) (names : List PathName) : Prop :=
  ∃ pre post r, names = pre ++ post ∧ ['.', '.'] ∉ post ∧ walk root maxSymlinks at_ pre = .ok r

theorem Sane.append {more : List PathName} (h : Sane root at_ names) (hmore : ['.', '.'] ∉ more) :
    Sane root at_ (names ++ more) := by
  obtain ⟨pre, post, r, rfl, hpost, hr⟩ := h
  exact ⟨pre, post ++ more, r, List.append_assoc .., by simp [hpost, hmore], hr⟩

theorem Sane.get_of_notFound (h : Sane root at_ names) (hplain : Plain root at_ names)
    (hnone : walk root maxSymlinks at_ names = .error .notFound) (more : Location) :
    root.get (lexical at_ names ++ more) = none := by
  obtain ⟨pre, post, r, rfl, hpost, hr⟩ := h
  obtain ⟨hpre, hrest⟩ := plain_append.mp hplain
  rcases walk_plain maxSymlinks hpre post with ⟨-, hwalk⟩ | ⟨e, herror, -⟩
  · rw [hwalk] at hnone
    rw [lexical_append]
    obtain ⟨jump, hjump⟩ := exists_jump root maxSymlinks
    rw [hjump] at hnone
    exact BgDesk.get_of_notFound hrest hpost hnone more
  · rw [hr] at herror
    cases herror

/-- `Plain`, evaluated. -/
def isPlain (root : Tree) : Location → List PathName → Bool
  | _, [] => true
  | at_, name :: rest =>
    if name = ['.'] then isPlain root at_ rest
    else if name = ['.', '.'] then isPlain root at_.dropLast rest
    else ((root.get (at_ ++ [name])).all fun t => !t.isLink) && isPlain root (at_ ++ [name]) rest

theorem plain_of_isPlain :
    ∀ {names : List PathName} {at_ : Location}, isPlain root at_ names = true →
      Plain root at_ names := by
  intro names
  induction names with
  | nil => exact fun _ => trivial
  | cons name names ih =>
    intro at_ h
    rw [isPlain] at h
    rw [Plain]
    split
    · rename_i hname
      rw [if_pos hname] at h
      exact ih h
    · rename_i hname
      rw [if_neg hname] at h
      split
      · rename_i hup
        rw [if_pos hup] at h
        exact ih h
      · rename_i hup
        rw [if_neg hup, Bool.and_eq_true] at h
        refine ⟨fun t ht => ?_, ih h.2⟩
        rw [ht, Option.all_some, Bool.not_eq_true'] at h
        exact h.1

/-- `.` is no part of a path. -/
theorem plain_filter : ∀ {names : List PathName} {at_ : Location},
    Plain root at_ (names.filter fun s => s ≠ ['.']) ↔ Plain root at_ names := by
  intro names
  induction names with
  | nil => exact Iff.rfl
  | cons name names ih =>
    intro at_
    by_cases hname : name = ['.']
    · rw [List.filter_cons_of_neg (by simpa using hname), Plain, if_pos hname]
      exact ih
    · rw [List.filter_cons_of_pos (by simpa using hname), Plain, Plain, if_neg hname]
      split
      · exact ih
      · rw [ih]

end Plain

/-! ## Changes that bring no links -/

/-- The links of the second disk are links of the first. -/
structure NoNewLinks (d d' : Disk) : Prop where
  cwd : d'.cwd = d.cwd
  links : ∀ a t, d'.root.get a = some t → t.isLink = true → d.root.get a = some t

namespace NoNewLinks

variable {d d' d'' : Disk}

theorem refl (d : Disk) : NoNewLinks d d := ⟨rfl, fun _ _ h _ => h⟩

theorem trans (h : NoNewLinks d d') (h' : NoNewLinks d' d'') : NoNewLinks d d'' :=
  ⟨h'.cwd.trans h.cwd, fun a t ht hlink => h.links a t (h'.links a t ht hlink) hlink⟩

theorem plain (h : NoNewLinks d d') :
    ∀ {names : List PathName} {at_ : Location}, Plain d.root at_ names →
      Plain d'.root at_ names := by
  intro names
  induction names with
  | nil => exact fun _ => trivial
  | cons name names ih =>
    intro at_ hplain
    rw [Plain] at hplain ⊢
    split
    · rename_i hname
      rw [if_pos hname] at hplain
      exact ih hplain
    · rename_i hname
      rw [if_neg hname] at hplain
      split
      · rename_i hup
        rw [if_pos hup] at hplain
        exact ih hplain
      · rename_i hup
        rw [if_neg hup] at hplain
        refine ⟨fun t ht => ?_, ih hplain.2⟩
        by_contra hlink
        rw [Bool.not_eq_false] at hlink
        have hold := hplain.1 t (h.links _ t ht hlink)
        rw [hlink] at hold
        cases hold

theorem put_none (d : Disk) (a : Location) : NoNewLinks d (d.put a none) :=
  ⟨rfl, fun _ _ => Tree.link_of_put (fun _ _ h => by cases h) a d.root⟩

theorem put_file (d : Disk) (a : Location) (content : Bytes) :
    NoNewLinks d (d.put a (some (.file content))) := by
  refine ⟨rfl, fun _ _ => Tree.link_of_put (fun b t h => ?_) a d.root⟩
  cases b with
  | nil =>
    obtain rfl := Option.some.inj h
    rfl
  | cons name b => cases h

theorem put_dir (d : Disk) (a : Location) : NoNewLinks d (d.put a (some (.dir []))) := by
  refine ⟨rfl, fun _ _ => Tree.link_of_put (fun b t h => ?_) a d.root⟩
  cases b with
  | nil =>
    obtain rfl := Option.some.inj h
    rfl
  | cons name b => cases h

theorem removeFile {p : PathName} (h : d.removeFile p = .ok d') : NoNewLinks d d' := by
  rw [Disk.removeFile] at h
  split at h
  · cases h
  · cases h
  · cases h
  · obtain rfl := Except.ok.inj h
    exact put_none ..

theorem openFile {p : PathName} {truncate : Bool} {r : Reached}
    (h : d.openFile p truncate = .ok (r, d')) : NoNewLinks d d' := by
  rw [Disk.openFile] at h
  split at h
  · cases h
  · split at h
    · cases h
    · obtain ⟨-, rfl⟩ := Prod.mk.inj (Except.ok.inj h)
      exact put_file ..
    · obtain ⟨-, rfl⟩ := Prod.mk.inj (Except.ok.inj h)
      exact put_file ..

theorem writeAt (d : Disk) (a : Location) (pos : ℕ) (data : Bytes) :
    NoNewLinks d (d.writeAt a pos data) := by
  rw [Disk.writeAt]
  split
  · exact put_file ..
  · exact refl d

theorem createDirAll :
    ∀ (names : List PathName) (d : Disk) (start : Location) (done : List PathName),
    NoNewLinks d (d.createDirAll start done names) := by
  intro names
  induction names with
  | nil => exact fun d _ _ => refl d
  | cons name names ih =>
    intro d start done
    rw [Disk.createDirAll]
    split
    · split
      · exact ih ..
      · exact (put_dir ..).trans (ih ..)
      · exact refl d
    · exact refl d

end NoNewLinks

theorem rename_cwd {d d' : Disk} {p q : PathName} (h : d.rename p q = .ok d') : d'.cwd = d.cwd := by
  rw [Disk.rename] at h
  split at h
  · cases h
  · cases h
  · cases h
  · dsimp only at h
    repeat' split at h
    all_goals
      first
        | cases h
          done
        | obtain rfl := Except.ok.inj h
          rfl

/-! ## The last part -/

/-- `symlink_metadata` says it is a link. -/
def Disk.isLink (d : Disk) (p : PathName) : Bool :=
  match d.symlinkMetadata p with
  | .ok t => t.isLink
  | .error _ => false

section Last

variable {d : Disk} {p : PathName} {names : List PathName} {name : PathName}

/-- The last name of a path without links before it is looked up where they lead. -/
theorem place_plain (hsteps : p.steps = names ++ [name]) (hdot : name ≠ ['.'])
    (hup : name ≠ ['.', '.']) (hplain : Plain d.root (d.start p) names) :
    (∃ entries, d.root.get (lexical (d.start p) names) = some (.dir entries) ∧
        d.place p = .ok (lexical (d.start p) names, name,
          d.root.get (lexical (d.start p) names ++ [name]))) ∨
      (d.place p = .error .notFound ∧ d.root.get (lexical (d.start p) names) = none) ∨
      (d.place p = .error .notDir ∧ ∀ entries,
        d.root.get (lexical (d.start p) names) ≠ some (.dir entries)) ∨
      ∃ e, walk d.root maxSymlinks (d.start p) names = .error e ∧ d.place p = .error e := by
  have hplace : d.place p = match walk d.root maxSymlinks (d.start p) names with
      | .error e => .error e
      | .ok r =>
        match d.root.get r.location with
        | none => .error .notFound
        | some (.dir entries) => .ok (r.location, name, entries.lookup name)
        | some _ => .error .notDir := by
    rw [Disk.place, hsteps, List.getLast?_concat, List.dropLast_concat]
    simp [hdot, hup]
  have hwalk := walk_plain maxSymlinks hplain []
  rw [List.append_nil] at hwalk
  rcases hwalk with ⟨hok, -⟩ | ⟨e, herror, -⟩
  · rw [hok] at hplace
    dsimp only at hplace
    cases hget : d.root.get (lexical (d.start p) names) with
    | none =>
      rw [hget] at hplace
      exact .inr (.inl ⟨hplace, rfl⟩)
    | some t =>
      rw [hget] at hplace
      cases t with
      | dir entries =>
        refine .inl ⟨entries, rfl, ?_⟩
        rw [Tree.get_snoc hget]
        exact hplace
      | file content => exact .inr (.inr (.inl ⟨hplace, nofun⟩))
      | link target => exact .inr (.inr (.inl ⟨hplace, nofun⟩))
  · rw [herror] at hplace
    exact .inr (.inr (.inr ⟨e, herror, hplace⟩))

/-- **A path with no link before its last name** leads through a link if that is one. -/
theorem resolve_plain (hsteps : p.steps = names ++ [name]) (hdot : name ≠ ['.'])
    (hup : name ≠ ['.', '.']) (hplain : Plain d.root (d.start p) names) {r : Reached}
    (h : d.resolve p = .ok r) : (d.isLink p = false ∧ r.via = []) ∨
      (d.isLink p = true ∧ ∃ via, r.via = (lexical (d.start p) names ++ [name]) :: via) := by
  rw [Disk.resolve] at h
  split at h
  · cases h
  · rw [hsteps] at h
    rcases walk_plain maxSymlinks hplain [name] with ⟨hok, hwalk⟩ | ⟨e, -, herror⟩
    · rw [hwalk] at h
      have hlast := place_plain hsteps hdot hup hplain
      obtain ⟨jump, hjump⟩ := exists_jump d.root maxSymlinks
      rw [hjump, walkWith] at h
      split at h
      · cases h
      · rename_i entries hdir
        rw [if_neg hdot, if_neg hup] at h
        have hplace : d.place p = .ok (lexical (d.start p) names, name,
            d.root.get (lexical (d.start p) names ++ [name])) := by
          rcases hlast with ⟨-, -, hplace⟩ | ⟨-, hnone⟩ | ⟨-, hother⟩ | ⟨e, herror, -⟩
          · exact hplace
          · rw [hdir] at hnone
            cases hnone
          · exact absurd hdir (hother entries)
          · rw [hok] at herror
            cases herror
        rw [Tree.get_snoc hdir] at hplace
        rw [Disk.isLink, Disk.symlinkMetadata, hplace]
        split at h
        · rename_i target hlink
          refine .inr ⟨by rw [hlink]; rfl, ?_⟩
          cases hrest : jump (if target.isAbsolute then [] else lexical (d.start p) names)
            (target.steps ++ []) with
          | error e =>
            rw [hrest] at h
            cases h
          | ok r' =>
            rw [hrest] at h
            obtain rfl := Except.ok.inj h
            exact ⟨_, rfl⟩
        · rename_i hnolink
          obtain rfl := Except.ok.inj h
          refine .inl ⟨?_, rfl⟩
          cases hentry : entries.lookup name with
          | none => rfl
          | some t =>
            cases t with
            | dir entries => rfl
            | file content => rfl
            | link target => exact absurd hentry (hnolink target)
      · cases h
    · rw [herror] at h
      cases h

end Last

end BgDesk
