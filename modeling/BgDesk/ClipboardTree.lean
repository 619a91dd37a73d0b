import BgDesk.ClipboardSafety

/-!
# The tree of a list of files

The files of a peer's clipboard as a file system to be mounted: one node for each entry of the list,
under a root. An inode is the position of its node and one more, the number a peer knows a file by
is its inode less two, and a node is put under the directory of the same list that its path leads
through, if that has been listed, or else under the root.

* `Building.addFile`, `buildTree`, `lookup` — the code, with nothing where it would panic;
* `TreeOf` — what a tree has to do with the list it is made from;
* `build_tree_numbered` — the numbers, and that the paths of a list in order lead to its entries.
-/

namespace BgDesk
namespace Clipboard

/-! ## The nodes -/

/-- `InodeAttributes`; no extended attributes are kept. -/
structure InodeAttributes where
  inode : ℕ
  size : UInt64
  lastAccessed : ℤ
  lastModified : ℤ
  lastMetadataChanged : ℤ
  creationTime : ℤ
  kind : FileType
  perm : UInt16
  deriving DecidableEq

/-- `FUSE_ROOT_ID`. -/
def fuseRootId : ℕ := 1

/-- `MAX_NAME_LEN`, in bytes. -/
def maxNameLen : ℕ := 255

/-- `PERM_RWX`. -/
def permRwx : UInt16 := 0o755

namespace InodeAttributes

/-- `InodeAttributes::new_root`, at a time. -/
def newRoot (now : ℤ) : InodeAttributes where
  inode := fuseRootId
  size := 0
  lastAccessed := now
  lastModified := now
  lastMetadataChanged := now
  creationTime := now
  kind := .directory
  perm := permRwx

/-- `InodeAttributes::from_description`. -/
def fromDescription (now : ℤ) (inode : ℕ) (desc : FileDescription) : InodeAttributes where
  inode
  size := desc.size
  lastAccessed := now
  lastModified := desc.lastModified
  lastMetadataChanged := desc.lastMetadataChanged
  creationTime := desc.creationTime
  kind := desc.kind
  perm := desc.perm

end InodeAttributes

/-- `FuseNode`, without the handles that are open on it. -/
structure FuseNode where
  connId : Int32
  clipDataId : Int32
  index : ℕ
  parent : Option ℕ
  name : PathName
  attributes : InodeAttributes
  children : List ℕ
  deriving DecidableEq

namespace FuseNode

/-- `FuseNode::new_root`. -/
def newRoot (now : ℤ) : FuseNode where
  connId := 0
  clipDataId := 0
  index := 0
  parent := none
  name := ['/']
  attributes := .newRoot now
  children := []

/-- `FuseNode::from_description`. -/
def fromDescription (now : ℤ) (inode : ℕ) (desc : FileDescription) : FuseNode where
  connId := desc.connId
  clipDataId := desc.clipDataId
  index := inode - 2
  parent := none
  name := desc.name
  attributes := .fromDescription now inode desc
  children := []

/-- `add_child`. -/
def addChild (node : FuseNode) (inode : ℕ) : FuseNode :=
  { node with children := node.children ++ [inode] }

end FuseNode

/-! ## Building the tree -/

/-- Where `build_tree` stands: the nodes, and the inode of each directory by its path. -/
structure Building where
  treeList : List FuseNode
  subRootMap : List Component → Option ℕ

namespace Building

/-- The root, which is found as `/` and as the empty path. -/
def start (now : ℕ → ℤ) : Building where
  treeList := [.newRoot (now fuseRootId)]
  subRootMap := fun path => if path = [.rootDir] ∨ path = [] then some fuseRootId else none

/-- `tree_list[parent_inode as usize - 1].add_child(inode)`. -/
def addChildAt (treeList : List FuseNode) (parentInode inode : ℕ) : Option (List FuseNode) := do
  let idx ← checkedSub parentInode 1
  if idx < treeList.length then some (treeList.modify idx fun node => node.addChild inode) else none

/-- The inode a file is put under. -/
def parentInode (b : Building) (path : List Component) : ℕ :=
  match Component.parent path with
  | some parent => (b.subRootMap parent).getD fuseRootId
  | none => fuseRootId

/-- One round of the loop of `build_tree`; a node is made at the time `now` of its inode. -/
def addFile (now : ℕ → ℤ) (b : Building) (file : FileDescription) :
    Option (Except CliprdrError Building) := do
  let path := file.name.pathComponents
  let inode := b.treeList.length + fuseRootId
  let parentInode := b.parentInode path
  let treeList ← addChildAt b.treeList parentInode inode
  match Component.lastName path with
  | none => return .error (.fileError file.name)
  | some baseName =>
    let subRootMap :=
      if file.kind = .directory then Function.update b.subRootMap path
        (some inode) else b.subRootMap
    let fuseNode := FuseNode.fromDescription (now inode) inode { file with name := baseName }
    return .ok
      { treeList := treeList ++ [{ fuseNode with parent := some parentInode }], subRootMap }

/-- The loop of `build_tree`. -/
def addFiles (now : ℕ → ℤ) : Building → List FileDescription → Option (Except CliprdrError Building)
  | b, [] => some (.ok b)
  | b, file :: files => do
    match ← b.addFile now file with
    | .error e => return .error e
    | .ok b => b.addFiles now files

end Building

/-- `FuseNode::build_tree`. -/
def buildTree (now : ℕ → ℤ) (files : List FileDescription) :
    Option (Except CliprdrError (List FuseNode)) := do
  match ← (Building.start now).addFiles now files with
  | .error e => return .error e
  | .ok b => return .ok b.treeList

/-! ## Looking a name up -/

/-- The errors `lookup` replies with. -/
inductive Errno where
  | enametoolong : Errno
  | enoent : Errno
  | enotdir : Errno
  deriving DecidableEq

/-- The length of a name in bytes. -/
def nameLen (name : PathName) : ℕ := (name.flatMap String.utf8EncodeChar).length

/-- The loop of `lookup` over the children of a directory. -/
def findChild (entries : List FuseNode) (name : PathName) :
    List ℕ → Option (Except Errno InodeAttributes)
  | [] => some (.error .enoent)
  | inode :: inodes => do
    let idx ← checkedSub inode 1
    let child ← entries[idx]?
    if child.name = name then return .ok child.attributes else findChild entries name inodes

/-- `lookup`. -/
def lookup (entries : List FuseNode) (parent : ℕ) (name : PathName) :
    Option (Except Errno InodeAttributes) :=
  if maxNameLen < nameLen name then some (.error .enametoolong)
  else do
    let idx ← checkedSub parent 1
    match entries[idx]? with
    | none => return .error .enoent
    | some parentEntry =>
      if parentEntry.attributes.kind ≠ .directory then return .error .enotdir
      else findChild entries name parentEntry.children

/-- Following the names of a path, one after the other. -/
def walk (entries : List FuseNode) : ℕ → List PathName → Option (Except Errno ℕ)
  | inode, [] => some (.ok inode)
  | inode, name :: names => do
    match ← lookup entries inode name with
    | .error e => return .error e
    | .ok attributes => walk entries attributes.inode names

/-! ## What a tree has to do with its list -/

/-- A directory of the list, by its path and its inode. -/
def Listed (files : List FileDescription) (path : List Component) (inode : ℕ) : Prop :=
  ∃ i d, files[i]? = some d ∧ d.kind = .directory ∧ d.name.pathComponents = path ∧ inode = i + 2

/-- The parent of a file behind these: the directory its path leads through, and the root if that is
none of them. -/
def ParentOf (before : List FileDescription) (path : List Component) (p : ℕ) : Prop :=
  Listed before path.dropLast p ∨ p = fuseRootId ∧
    (path.dropLast = [] ∨ ∀ q, ¬Listed before path.dropLast q)

/-- The inodes of the nodes below a node, in the order of the list. -/
def childrenOf (tree : List FuseNode) (p : ℕ) : List ℕ :=
  (tree.filter fun node => node.parent = some p).map fun node => node.attributes.inode

/-- The node of a file, in its place in the list. -/
structure EntryOf (node : FuseNode) (i : ℕ) (file : FileDescription) : Prop where
  inode : node.attributes.inode = i + 2
  index : node.index = i
  name : Component.lastName file.name.pathComponents = some node.name
  connId : node.connId = file.connId
  clipDataId : node.clipDataId = file.clipDataId
  kind : node.attributes.kind = file.kind
  size : node.attributes.size = file.size
  perm : node.attributes.perm = file.perm

/-- The tree of a list. -/
structure TreeOf (files : List FileDescription) (tree : List FuseNode) : Prop where
  length : tree.length = files.length + 1
  root : ∃ node, tree[0]? = some node ∧ node.attributes.inode = fuseRootId ∧
    node.attributes.kind = .directory ∧ node.parent = none
  entry : ∀ i file, files[i]? = some file → ∃ node p, tree[i + 1]? = some node ∧
    EntryOf node i file ∧
    node.parent = some p ∧ ParentOf (files.take i) file.name.pathComponents p
  children : ∀ i node, tree[i]? = some node → node.children = childrenOf tree (i + 1)

/-! ## The numbers of a tree -/

section
variable {files : List FileDescription} {tree : List FuseNode}

theorem listed_append (file : FileDescription) (path : List Component) (q : ℕ) :
    Listed (files ++ [file]) path q ↔
      Listed files path q ∨ file.kind = .directory ∧ file.name.pathComponents = path ∧
        q = files.length + 2 := by
  constructor
  · rintro ⟨i, d, hd, hkind, hpath, rfl⟩
    rw [List.getElem?_append] at hd
    split at hd
    · exact .inl ⟨i, d, hd, hkind, hpath, rfl⟩
    · next hge =>
      obtain ⟨hlt, rfl⟩ := List.getElem?_eq_some_iff.mp hd
      obtain rfl : i = files.length := by
        have hone : i - files.length < 1 := hlt
        omega
      rw [List.getElem_singleton] at hkind hpath
      exact .inr ⟨hkind, hpath, rfl⟩
  · rintro (⟨i, d, hd, hkind, hpath, rfl⟩ | ⟨hkind, hpath, rfl⟩)
    · exact ⟨i, d, List.getElem?_append_left (List.getElem?_eq_some_iff.mp hd).1 ▸ hd, hkind,
        hpath, rfl⟩
    · exact ⟨files.length, file, List.getElem?_concat_length, hkind, hpath, rfl⟩

namespace TreeOf

variable {i : ℕ} {node : FuseNode}

/-- Every node but the root is that of an entry. -/
theorem entry_of_succ (h : TreeOf files tree) (hnode : tree[i + 1]? = some node) :
    ∃ file p, files[i]? = some file ∧ EntryOf node i file ∧ node.parent = some p ∧
      ParentOf (files.take i) file.name.pathComponents p := by
  have hlt : i < files.length := by
    have hlen := (List.getElem?_eq_some_iff.mp hnode).1
    have htree := h.length
    omega
  obtain ⟨entry, p, hentry, hrest⟩ := h.entry i files[i] (List.getElem?_eq_getElem hlt)
  obtain rfl := Option.some.inj (hentry.symm.trans hnode)
  exact ⟨files[i], p, List.getElem?_eq_getElem hlt, hrest⟩

/-- An inode is the position of its node and one more. -/
theorem inode (h : TreeOf files tree) (hnode : tree[i]? = some node) :
    node.attributes.inode = i + 1 := by
  cases i with
  | zero =>
    obtain ⟨root, hroot, hinode, -⟩ := h.root
    obtain rfl := Option.some.inj (hroot.symm.trans hnode)
    exact hinode
  | succ i =>
    obtain ⟨file, p, -, hof, -⟩ := h.entry_of_succ hnode
    exact hof.inode

/-- The parent of a file is a directory, and stands before it. -/
theorem directory (h : TreeOf files tree) {path : List Component} {p : ℕ}
    (hp : ParentOf (files.take i) path p) :
    ∃ k node, p = k + 1 ∧ k ≤ i ∧ tree[k]? = some node ∧ node.attributes.kind = .directory := by
  obtain ⟨j, d, hd, hkind, -, rfl⟩ | ⟨rfl, -⟩ := hp
  · rw [List.getElem?_take] at hd
    split at hd
    · next hlt =>
      obtain ⟨node, p, hnode, hof, -⟩ := h.entry j d hd
      exact ⟨j + 1, node, rfl, hlt, hnode, hof.kind.trans hkind⟩
    · cases hd
  · obtain ⟨root, hroot, -, hkind, -⟩ := h.root
    exact ⟨0, root, rfl, Nat.zero_le i, hroot, hkind⟩

/-- Whatever has a parent is an entry of the list. -/
theorem entry_of_parent (h : TreeOf files tree) {p : ℕ} (hnode : tree[i]? = some node)
    (hp : node.parent = some p) :
    ∃ j file, i = j + 1 ∧ files[j]? = some file ∧ EntryOf node j file ∧
      ParentOf (files.take j) file.name.pathComponents p := by
  cases i with
  | zero =>
    obtain ⟨root, hroot, -, -, hnone⟩ := h.root
    obtain rfl := Option.some.inj (hroot.symm.trans hnode)
    rw [hnone] at hp
    cases hp
  | succ j =>
    obtain ⟨file, q, hfile, hof, hq, hparent⟩ := h.entry_of_succ hnode
    obtain rfl := Option.some.inj (hq.symm.trans hp)
    exact ⟨j, file, rfl, hfile, hof, hparent⟩

theorem mem_childrenOf (h : TreeOf files tree) {p inode : ℕ} :
    inode ∈ childrenOf tree p ↔ ∃ i node, inode = i + 1 ∧ tree[i]? = some node ∧
      node.parent = some p := by
  rw [childrenOf, List.mem_map]
  constructor
  · rintro ⟨node, hmem, rfl⟩
    obtain ⟨hmem, hp⟩ := List.mem_filter.mp hmem
    obtain ⟨i, hi⟩ := List.mem_iff_getElem?.mp hmem
    exact ⟨i, node, h.inode hi, hi, of_decide_eq_true hp⟩
  · rintro ⟨i, node, rfl, hi, hp⟩
    exact ⟨node, List.mem_filter.mpr ⟨List.mem_iff_getElem?.mpr ⟨i, hi⟩, decide_eq_true hp⟩,
      h.inode hi⟩

/-- No inode comes twice. -/
theorem childrenOf_nodup (h : TreeOf files tree) (p : ℕ) : (childrenOf tree p).Nodup := by
  have hinodes : tree.map (fun node => node.attributes.inode) = List.range' 1 tree.length := by
    refine List.ext_getElem? fun i => ?_
    rw [List.getElem?_map]
    cases hi : tree[i]? with
    | none =>
      rw [List.getElem?_eq_none (by rw [List.length_range']; exact List.getElem?_eq_none_iff.mp hi),
        Option.map_none]
    | some node =>
      rw [List.getElem?_range' (List.getElem?_eq_some_iff.mp hi).1, Option.map_some, h.inode hi,
        one_mul, Nat.add_comm]
  have hnodup : (tree.map fun node => node.attributes.inode).Nodup := hinodes ▸ List.nodup_range'
  exact hnodup.sublist (List.filter_sublist.map _)

end TreeOf
end

/-! ## One file more -/

/-- Where `build_tree` stands behind these files: the map holds their directories, the last of each
path. -/
structure Grown (done : List FileDescription) (b : Building) :
  Prop extends TreeOf done b.treeList where
  rootPath : b.subRootMap [] = some fuseRootId
  listed : ∀ path inode, path ≠ [.rootDir] → path ≠ [] → b.subRootMap path = some inode →
    Listed done path inode
  unlisted : ∀ path, b.subRootMap path = none → ∀ q, ¬Listed done path q

theorem grown_start (now : ℕ → ℤ) : Grown [] (.start now) where
  length := rfl
  root := ⟨_, rfl, rfl, rfl, rfl⟩
  entry := by
    rintro i file h
    cases h
  children := by
    rintro (_ | i) node h
    · obtain rfl := Option.some.inj h
      rfl
    · cases h
  rootPath := rfl
  listed := by
    intro path inode hroot hnil h
    have hnone : (Building.start now).subRootMap path = none := if_neg (not_or.mpr ⟨hroot, hnil⟩)
    rw [hnone] at h
    cases h
  unlisted := by
    rintro path - q ⟨i, d, hd, -⟩
    cases hd

theorem addChildAt_eq (tree : List FuseNode) {k : ℕ} (inode : ℕ) (hk : k < tree.length) :
    Building.addChildAt tree (k + 1) inode = some (tree.modify k fun node =>
      node.addChild inode) := by
  rw [Building.addChildAt, checkedSub, if_pos (Nat.le_add_left 1 k), Option.bind_eq_bind,
    Option.bind_some,
    Nat.add_sub_cancel, if_pos hk]

section
variable {tree : List FuseNode} {k inode : ℕ} {new : FuseNode}

/-- The nodes behind a new one: only the children of its parent are others. -/
theorem getElem?_grown_of_lt {i : ℕ} (hi : i < tree.length) :
    ((tree.modify k fun node => node.addChild inode) ++ [new])[i]? =
      tree[i]?.map fun node => if k = i then node.addChild inode else node := by
  rw [List.getElem?_append_left (by rwa [List.length_modify]), List.getElem?_modify]
  rfl

theorem getElem?_grown_length :
    ((tree.modify k fun node => node.addChild inode) ++ [new])[tree.length]? = some new := by
  rw [List.getElem?_append_right (by rw [List.length_modify]), List.length_modify, Nat.sub_self]
  rfl

theorem childrenOf_cons (node : FuseNode) (nodes : List FuseNode) (q : ℕ) :
    childrenOf (node :: nodes) q = (if node.parent = some q then [node.attributes.inode] else []) ++
      childrenOf nodes q := by
  rw [childrenOf, List.filter_cons]
  by_cases hq : node.parent = some q
  · rw [if_pos (decide_eq_true hq), if_pos hq]
    rfl
  · rw [if_neg (by simp [hq]), if_neg hq]
    rfl

/-- A new child changes neither the parent nor the inode of a node. -/
theorem childrenOf_modify (k inode : ℕ) (q : ℕ) :
    childrenOf (tree.modify k fun node => node.addChild inode) q = childrenOf tree q := by
  induction tree generalizing k with
  | nil => rw [List.modify_nil]
  | cons node nodes ih =>
    cases k with
    | zero =>
      rw [List.modify_zero_cons, childrenOf_cons, childrenOf_cons]
      rfl
    | succ k => rw [List.modify_succ_cons, childrenOf_cons, childrenOf_cons, ih]

theorem childrenOf_grown (hinode : new.attributes.inode = inode) (q : ℕ) :
    childrenOf ((tree.modify k fun node => node.addChild inode) ++ [new]) q =
      childrenOf tree q ++ if new.parent = some q then [inode] else [] := by
  have hnew : childrenOf [new] q = if new.parent = some q then [inode] else [] := by
    rw [childrenOf_cons, hinode]
    exact List.append_nil _
  calc
    childrenOf ((tree.modify k fun node => node.addChild inode) ++ [new]) q
    _ = childrenOf (tree.modify k fun node => node.addChild inode) q ++ childrenOf [new] q := by
        rw [childrenOf, List.filter_append, List.map_append]
        rfl
    _ = childrenOf tree q ++ if new.parent = some q then [inode] else [] := by
      rw [childrenOf_modify, hnew]

end

/-- The components of a name: those of the directory it is in, and the last. -/
theorem components_of_valid {name : PathName} (h : validateFileName name = .ok ()) :
    ∃ (dir : List PathName) (last : PathName),
      name.pathComponents = dir.map .normal ++ [.normal last] := by
  have hnorm := (normalized_of_valid h).pathComponents
  obtain hnil | ⟨dir, last, hparts⟩ := List.eq_nil_or_concat (name.splitOn '/')
  · exact absurd hnil (List.splitOn_ne_nil _ _)
  · refine ⟨dir, last, ?_⟩
    rw [hnorm, hparts, List.concat_eq_append, List.map_append, List.map_singleton]

theorem map_normal_ne_root (dir : List PathName) : dir.map Component.normal ≠ [.rootDir] := by
  cases dir with
  | nil => exact List.cons_ne_nil _ _ ∘ Eq.symm
  | cons d ds =>
    rw [List.map_cons]
    intro h
    cases (List.cons.inj h).1

variable {done files : List FileDescription}

/-- The parent `build_tree` finds. -/
theorem Grown.parentInode {b : Building} (h : Grown done b) (dir : List PathName)
    (last : PathName) : ParentOf done (dir.map .normal ++ [.normal last])
      (b.parentInode (dir.map .normal ++ [.normal last])) := by
  rw [ParentOf, List.dropLast_concat, Building.parentInode, Component.parent_append_normal]
  dsimp only
  by_cases hnil : dir.map Component.normal = []
  · rw [hnil, h.rootPath]
    exact .inr ⟨rfl, .inl rfl⟩
  · cases hmap : b.subRootMap (dir.map .normal) with
    | none => exact .inr ⟨rfl, .inr (h.unlisted _ hmap)⟩
    | some inode => exact .inl (h.listed _ _ (map_normal_ne_root dir) hnil hmap)

/-- The tree with one node more. -/
theorem TreeOf.grow {tree : List FuseNode} (h : TreeOf done tree) {file : FileDescription} {k : ℕ}
    {new : FuseNode} (hk : k < tree.length) (hof : EntryOf new done.length file)
    (hp : new.parent = some (k + 1)) (hparent : ParentOf done file.name.pathComponents (k + 1))
    (hchildren : new.children = []) :
    TreeOf (done ++ [file]) ((tree.modify k fun node => node.addChild new.attributes.inode) ++
      [new]) := by
  have hlen := h.length
  have hinode : new.attributes.inode = tree.length + 1 := by rw [hof.inode, hlen]
  refine ⟨?_, ?_, fun i f hf => ?_, fun i node hnode => ?_⟩
  · rw [List.length_append, List.length_modify, List.length_append, hlen]
    rfl
  · obtain ⟨root, hroot, hrest⟩ := h.root
    rw [getElem?_grown_of_lt (by omega), hroot, Option.map_some]
    refine ⟨_, rfl, ?_⟩
    split
    · exact hrest
    · exact hrest
  · by_cases hi : i < done.length
    · rw [List.getElem?_append_left hi] at hf
      obtain ⟨node, p, hnode, hentry, hrest⟩ := h.entry i f hf
      rw [getElem?_grown_of_lt (by omega), hnode, Option.map_some,
        List.take_append_of_le_length hi.le]
      refine ⟨_, p, rfl, ?_⟩
      split
      · exact ⟨⟨hentry.inode, hentry.index, hentry.name, hentry.connId, hentry.clipDataId,
          hentry.kind, hentry.size,
          hentry.perm⟩, hrest⟩
      · exact ⟨hentry, hrest⟩
    · obtain rfl : i = done.length := by
        have hle := (List.getElem?_eq_some_iff.mp hf).1
        rw [List.length_append, List.length_singleton] at hle
        omega
      obtain rfl := Option.some.inj (List.getElem?_concat_length.symm.trans hf)
      rw [← hlen, getElem?_grown_length, List.take_left]
      exact ⟨new, k + 1, rfl, hof, hp, hparent⟩
  · rw [childrenOf_grown rfl, hp]
    by_cases hi : i < tree.length
    · rw [getElem?_grown_of_lt hi] at hnode
      obtain ⟨old, hold, rfl⟩ := Option.map_eq_some_iff.mp hnode
      have hmine := h.children i old hold
      by_cases hki : k = i
      · rw [if_pos hki, if_pos (by rw [hki]), FuseNode.addChild, hmine]
      · rw [if_neg hki, if_neg (fun heq => hki (Nat.succ.inj (Option.some.inj heq))), hmine,
          List.append_nil]
    · -- nothing has the new node for its parent yet
      obtain rfl : i = tree.length := by
        have hle := (List.getElem?_eq_some_iff.mp hnode).1
        rw [List.length_append, List.length_modify, List.length_singleton] at hle
        omega
      rw [getElem?_grown_length] at hnode
      obtain rfl := Option.some.inj hnode
      have hnone : childrenOf tree (tree.length + 1) = [] := by
        refine List.eq_nil_iff_forall_not_mem.mpr fun inode hmem => ?_
        obtain ⟨j, child, -, hchild, hparent⟩ := h.mem_childrenOf.mp hmem
        obtain ⟨l, f, rfl, -, -, hof⟩ := h.entry_of_parent hchild hparent
        obtain ⟨m, -, hm, hle, -⟩ := h.directory hof
        have hlt := (List.getElem?_eq_some_iff.mp hchild).1
        omega
      rw [hchildren, hnone, if_neg (by simp; omega)]
      rfl

/-- One round of the loop. -/
theorem Grown.addFile {b : Building} (h : Grown done b) {file : FileDescription}
    (hvalid : validateFileName file.name = .ok ()) (now : ℕ → ℤ) :
    ∃ b', b.addFile now file = some (.ok b') ∧ Grown (done ++ [file]) b' := by
  obtain ⟨dir, last, hpath⟩ := components_of_valid hvalid
  have hparent := h.parentInode dir last
  rw [← hpath] at hparent
  have hall : ParentOf (done.take done.length)
      file.name.pathComponents (b.parentInode file.name.pathComponents) := by
    rwa [List.take_length]
  obtain ⟨k, parent, hk, -, hnode, -⟩ := h.toTreeOf.directory hall
  have hlt := (List.getElem?_eq_some_iff.mp hnode).1
  have hlast : Component.lastName file.name.pathComponents = some last :=
    hpath ▸ Component.lastName_append_normal _ _
  have hlen := h.length
  rw [hk] at hparent
  let inode := b.treeList.length + fuseRootId
  let new : FuseNode :=
    { FuseNode.fromDescription (now inode) inode { file with name := last } with
      parent := some (k + 1) }
  let subRootMap := if file.kind = .directory then Function.update b.subRootMap
    file.name.pathComponents (some inode) else b.subRootMap
  have hinode : inode = done.length + 2 := by
    change b.treeList.length + 1 = done.length + 2
    omega
  have hof : EntryOf new done.length file :=
    ⟨hinode, Nat.sub_eq_of_eq_add hinode, hlast, rfl, rfl, rfl, rfl, rfl⟩
  refine
    ⟨{ treeList := (b.treeList.modify k fun node => node.addChild inode) ++ [new], subRootMap }, ?_,
      ?_⟩
  · rw [Building.addFile]
    dsimp only
    rw [hk, addChildAt_eq _ _ hlt, Option.bind_eq_bind, Option.bind_some, hlast]
    rfl
  · have hmap : subRootMap = if file.kind = .directory then
        Function.update b.subRootMap file.name.pathComponents (some inode) else b.subRootMap := rfl
    refine ⟨h.toTreeOf.grow hlt hof rfl hparent rfl, ?_, fun path q hroot hnil hq => ?_,
      fun path hnone q hq => ?_⟩
    · have hne : [] ≠ file.name.pathComponents :=
        hpath ▸ (List.append_ne_nil_of_right_ne_nil _ (List.cons_ne_nil _ _)).symm
      change subRootMap [] = some fuseRootId
      rw [hmap]
      split
      · rw [Function.update_of_ne hne, h.rootPath]
      · exact h.rootPath
    · change subRootMap path = some q at hq
      rw [listed_append]
      rw [hmap] at hq
      split at hq
      · next hkind =>
        by_cases hsame : path = file.name.pathComponents
        · rw [hsame, Function.update_self] at hq
          exact .inr ⟨hkind, hsame.symm, (Option.some.inj hq).symm.trans hinode⟩
        · rw [Function.update_of_ne hsame] at hq
          exact .inl (h.listed path q hroot hnil hq)
      · exact .inl (h.listed path q hroot hnil hq)
    · change subRootMap path = none at hnone
      rw [hmap] at hnone
      obtain hq | ⟨hkind, rfl, -⟩ := (listed_append file path q).mp hq
      · split at hnone
        · by_cases hsame : path = file.name.pathComponents
          · rw [hsame, Function.update_self] at hnone
            cases hnone
          · rw [Function.update_of_ne hsame] at hnone
            exact h.unlisted path hnone q hq
        · exact h.unlisted path hnone q hq
      · rw [if_pos hkind, Function.update_self] at hnone
        cases hnone

theorem Grown.addFiles (now : ℕ → ℤ) (hvalid : ∀ f ∈ files, validateFileName f.name = .ok ()) :
    ∀ {done : List FileDescription} {b : Building}, Grown done b →
      ∃ b', b.addFiles now files = some (.ok b') ∧ Grown (done ++ files) b' := by
  induction files with
  | nil =>
    intro done b h
    exact ⟨b, rfl, by rwa [List.append_nil]⟩
  | cons file files ih =>
    intro done b h
    obtain ⟨b', hb', hgrown⟩ := h.addFile (hvalid file List.mem_cons_self) now
    obtain ⟨b'', hb'', hgrown'⟩ := ih (fun f hf => hvalid f (List.mem_cons_of_mem _ hf)) hgrown
    refine ⟨b'', ?_, ?_⟩
    · rw [Building.addFiles, hb', Option.bind_eq_bind, Option.bind_some]
      exact hb''
    · rwa [List.append_assoc, List.singleton_append] at hgrown'

/-- `build_tree` makes the tree of its list. -/
theorem buildTree_treeOf (now : ℕ → ℤ) (hvalid : ∀ f ∈ files, validateFileName f.name = .ok ()) :
    ∃ tree, buildTree now files = some (.ok tree) ∧ TreeOf files tree := by
  obtain ⟨b, hb, hgrown⟩ := (grown_start now).addFiles now hvalid
  refine ⟨b.treeList, ?_, hgrown.toTreeOf⟩
  rw [buildTree, hb, Option.bind_eq_bind, Option.bind_some]
  rfl

/-! ## Following a path -/

section
variable {files : List FileDescription} {tree : List FuseNode}

variable {i j p : ℕ} {file : FileDescription} {dir : List Component}

theorem findChild_eq {name : PathName} {node : FuseNode} (hnode : tree[j]? = some node)
    (hname : node.name = name) : ∀ {children : List ℕ}, j + 1 ∈ children →
      (∀ c ∈ children, ∃ i n, c = i + 1 ∧ tree[i]? = some n ∧ (n.name = name → i = j)) →
      findChild tree name children = some (.ok node.attributes) := by
  intro children
  induction children with
  | nil =>
    rintro ⟨⟩
  | cons c cs ih =>
    intro hmem hall
    obtain ⟨i, n, rfl, hn, honly⟩ := hall c List.mem_cons_self
    rw [findChild, checkedSub, if_pos (Nat.le_add_left 1 i), Option.bind_eq_bind, Option.bind_some,
      Nat.add_sub_cancel,
      hn, Option.bind_eq_bind, Option.bind_some]
    by_cases hfound : n.name = name
    · obtain rfl := honly hfound
      rw [if_pos hfound, Option.some.inj (hn.symm.trans hnode)]
      rfl
    · rw [if_neg hfound]
      refine ih ?_ fun c hc => hall c (List.mem_cons_of_mem _ hc)
      obtain heq | hmem := List.mem_cons.mp hmem
      · obtain rfl := Nat.succ.inj heq
        rw [Option.some.inj (hnode.symm.trans hn)] at hname
        exact absurd hname hfound
      · exact hmem

theorem walk_append {q : ℕ} {dir : List PathName} (names : List PathName)
    (h : walk tree p dir = some (.ok q)) : walk tree p (dir ++ names) = walk tree q names := by
  induction dir generalizing p with
  | nil =>
    obtain rfl := Except.ok.inj (Option.some.inj h)
    rfl
  | cons name dir ih =>
    rw [walk] at h
    rw [List.cons_append, walk]
    cases hlookup : lookup tree p name with
    | none =>
      rw [hlookup] at h
      cases h
    | some reply =>
      rw [hlookup, Option.bind_eq_bind, Option.bind_some] at h
      rw [Option.bind_eq_bind, Option.bind_some]
      cases reply with
      | error e => cases Option.some.inj h
      | ok attributes => exact ih h

/-- A list in order: no name comes twice, and the directories a path leads through are listed before
it. -/
structure Ordered (files : List FileDescription) : Prop where
  distinct : (files.map fun file => file.name).Nodup
  ancestors : ∀ i file, files[i]? = some file → ∀ ancestor : List Component, ancestor ≠ [] →
    ancestor <+: file.name.pathComponents → ancestor ≠ file.name.pathComponents →
      ∃ q, Listed (files.take i) ancestor q

/-- In a list in order, the parent of a file is where its path leads. -/
theorem Ordered.parentOf (h : Ordered files) (hfile : files[i]? = some file) {last : Component}
    (hpath : file.name.pathComponents = dir ++ [last])
    (hp : ParentOf (files.take i) file.name.pathComponents p) :
    dir = [] ∧ p = fuseRootId ∨ Listed (files.take i) dir p := by
  rw [ParentOf, hpath, List.dropLast_concat] at hp
  obtain hp | ⟨rfl, hnil | hnone⟩ := hp
  · exact .inr hp
  · exact .inl ⟨hnil, rfl⟩
  · by_cases hnil : dir = []
    · exact .inl ⟨hnil, rfl⟩
    · have hproper : dir ≠ file.name.pathComponents := by
        rw [hpath]
        exact fun heq => List.cons_ne_nil _ _ (List.self_eq_append_right.mp heq)
      obtain ⟨q, hq⟩ := h.ancestors i file hfile dir hnil (hpath ▸ List.prefix_append _ _) hproper
      exact absurd hq (hnone q)

theorem Listed.of_take {path : List Component} {q : ℕ} (h : Listed (files.take i) path q) :
    ∃ j d, j < i ∧ files[j]? = some d ∧ d.name.pathComponents = path ∧ q = j + 2 := by
  obtain ⟨j, d, hd, -, hpath, rfl⟩ := h
  rw [List.getElem?_take] at hd
  split at hd
  · next hlt => exact ⟨j, d, hlt, hd, hpath, rfl⟩
  · cases hd

/-- Files with one parent are in one directory. -/
theorem Ordered.dir_eq (h : Ordered files) {other : FileDescription} (hfile : files[i]? = some file)
    (hother : files[j]? = some other) {dir' : List Component} {last last' : Component}
    (hpath : file.name.pathComponents = dir ++ [last])
    (hpath' : other.name.pathComponents = dir' ++ [last'])
    (hp : ParentOf (files.take i) file.name.pathComponents p)
    (hp' : ParentOf (files.take j) other.name.pathComponents p) : dir = dir' := by
  obtain ⟨rfl, hroot⟩ | hlisted := h.parentOf hfile hpath hp <;>
    obtain ⟨rfl, hroot'⟩ | hlisted' := h.parentOf hother hpath' hp'
  · rfl
  · obtain ⟨k, -, -, -, -, rfl⟩ := hlisted'.of_take
    cases hroot
  · obtain ⟨k, -, -, -, -, rfl⟩ := hlisted.of_take
    cases hroot'
  · obtain ⟨k, d, -, hd, rfl, rfl⟩ := hlisted.of_take
    obtain ⟨l, d', -, hd', rfl, heq⟩ := hlisted'.of_take
    obtain rfl := Nat.add_right_cancel heq
    rw [Option.some.inj (hd.symm.trans hd')]

theorem Ordered.index_eq (h : Ordered files)
    (hvalid : ∀ f ∈ files, validateFileName f.name = .ok ()) {other : FileDescription}
    (hfile : files[i]? = some file) (hother : files[j]? = some other)
    (hpath : other.name.pathComponents = file.name.pathComponents) : j = i := by
  have hname : other.name = file.name :=
    (normalized_of_valid (hvalid _ (List.mem_of_getElem? hother))).eq_of_pathComponents
      (normalized_of_valid (hvalid _ (List.mem_of_getElem? hfile))) hpath
  have hi : (files.map fun file => file.name)[i]? = some file.name := by
    rw [List.getElem?_map, hfile, Option.map_some]
  have hj : (files.map fun file => file.name)[j]? = some file.name := by
    rw [List.getElem?_map, hother, Option.map_some, hname]
  obtain ⟨hjlt, -⟩ := List.getElem?_eq_some_iff.mp hj
  exact (List.getElem?_inj hjlt h.distinct).mp (hj.trans hi.symm)

/-- The last name of a path, looked up in the directory of its entry. -/
theorem lookup_entry (h : Ordered files) (htree : TreeOf files tree)
    (hvalid : ∀ f ∈ files, validateFileName f.name = .ok ()) (hfile : files[i]? = some file)
    {last : PathName} (hpath : file.name.pathComponents = dir ++ [.normal last])
    (hlen : nameLen last ≤ maxNameLen) {node : FuseNode} (hnode : tree[i + 1]? = some node)
    (hof : EntryOf node i file) (hp : node.parent = some p)
    (hparent : ParentOf (files.take i) file.name.pathComponents p) :
    lookup tree p last = some (.ok node.attributes) := by
  obtain ⟨k, parent, rfl, -, hk, hkind⟩ := htree.directory hparent
  have hlast : node.name = last := by
    have hname := hof.name
    rw [hpath, Component.lastName_append_normal] at hname
    exact (Option.some.inj hname).symm
  rw [lookup, if_neg (Nat.not_lt.mpr hlen), checkedSub, if_pos (Nat.le_add_left 1 k),
    Option.bind_eq_bind,
    Option.bind_some, Nat.add_sub_cancel, hk]
  dsimp only
  rw [if_neg (not_not.mpr hkind), htree.children k parent hk]
  refine findChild_eq hnode hlast (htree.mem_childrenOf.mpr ⟨i + 1, node, rfl, hnode, hp⟩)
    fun c hc => ?_
  obtain ⟨l, child, rfl, hchild, hpc⟩ := htree.mem_childrenOf.mp hc
  refine ⟨l, child, rfl, hchild, fun hsame => ?_⟩
  obtain ⟨m, other, rfl, hother, hofc, hparentc⟩ := htree.entry_of_parent hchild hpc
  obtain ⟨dir', last', hpath'⟩ := components_of_valid (hvalid other (List.mem_of_getElem? hother))
  have hname := hofc.name
  rw [hpath', Component.lastName_append_normal, hsame] at hname
  obtain rfl := Option.some.inj hname
  have hdir := h.dir_eq hfile hother hpath hpath' hparent hparentc
  rw [h.index_eq hvalid hfile hother (by rw [hpath', hpath, hdir])]

/-- The path of an entry leads to its inode: by its directory, which is an earlier entry or the
root, and its last name. -/
theorem walk_entry (h : Ordered files) (htree : TreeOf files tree)
    (hvalid : ∀ f ∈ files, validateFileName f.name = .ok ()) (i : ℕ) :
    ∀ {file : FileDescription} {names : List PathName}, files[i]? = some file →
      file.name.pathComponents = names.map .normal → (∀ name ∈ names, nameLen name ≤ maxNameLen) →
      walk tree fuseRootId names = some (.ok (i + 2)) := by
  induction i using Nat.strong_induction_on with
  | _ i ih =>
    intro file names hfile hnames hlen
    obtain rfl | ⟨dir, last, rfl⟩ := List.eq_nil_or_concat names
    · obtain ⟨dir, last, hpath⟩ := components_of_valid (hvalid file (List.mem_of_getElem? hfile))
      rw [hnames] at hpath
      exact absurd hpath.symm (List.append_ne_nil_of_right_ne_nil _ (List.cons_ne_nil _ _))
    rw [List.concat_eq_append] at hnames hlen ⊢
    have hpath : file.name.pathComponents = dir.map .normal ++ [.normal last] := by
      rw [hnames, List.map_append, List.map_singleton]
    obtain ⟨node, p, hnode, hof, hp, hparent⟩ := htree.entry i file hfile
    have hdir : walk tree fuseRootId dir = some (.ok p) := by
      obtain ⟨hnil, rfl⟩ | hlisted := h.parentOf hfile hpath hparent
      · rw [List.map_eq_nil_iff] at hnil
        rw [hnil]
        rfl
      · obtain ⟨j, d, hlt, hd, hd', rfl⟩ := hlisted.of_take
        exact ih j hlt hd hd' fun name hname => hlen name (List.mem_append_left _ hname)
    have hlookup := lookup_entry h htree hvalid hfile hpath (hlen last (List.mem_concat_self))
      hnode hof hp hparent
    rw [walk_append _ hdir, walk, hlookup, Option.bind_eq_bind, Option.bind_some, ← hof.inode]
    rfl

end

/-- The numbers of a tree: inodes by position, indices by the list, and one parent, which is a
directory with a smaller inode. -/
structure Numbered (files : List FileDescription) (tree : List FuseNode) : Prop where
  length : tree.length = files.length + 1
  inode : ∀ (i : ℕ) (node : FuseNode), tree[i]? = some node → node.attributes.inode = i + 1
  index : ∀ (i : ℕ) (node : FuseNode), tree[i + 1]? = some node → node.index = i
  parent : ∀ (i : ℕ) (node : FuseNode), tree[i + 1]? = some node → ∃ (k : ℕ) (above : FuseNode),
    tree[k]? = some above ∧
    above.attributes.kind = .directory ∧ above.attributes.inode < node.attributes.inode ∧
    node.parent = some above.attributes.inode ∧ above.children.count node.attributes.inode = 1 ∧
    ∀ (l : ℕ) (other : FuseNode), tree[l]? = some other →
      node.attributes.inode ∈ other.children → l = k
  children : ∀ node ∈ tree, ∀ inode ∈ node.children, ∃ (i : ℕ) (child : FuseNode),
    tree[i + 1]? = some child ∧
    child.attributes.inode = inode

theorem TreeOf.numbered {tree : List FuseNode} (h : TreeOf files tree) : Numbered files tree where
  length := h.length
  inode := fun i node hnode => h.inode hnode
  index := by
    intro i node hnode
    obtain ⟨file, p, -, hof, -⟩ := h.entry_of_succ hnode
    exact hof.index
  parent := by
    intro i node hnode
    obtain ⟨file, p, -, hof, hp, hparent⟩ := h.entry_of_succ hnode
    obtain ⟨k, above, rfl, hle, habove, hkind⟩ := h.directory hparent
    have hinode := h.inode habove
    rw [hof.inode]
    refine ⟨k, above, habove, hkind, by
      omega, hp.trans (by rw [hinode]), ?_, fun l other hother hmem => ?_⟩
    · rw [h.children k above habove]
      exact List.count_eq_one_of_mem (h.childrenOf_nodup _)
        (h.mem_childrenOf.mpr ⟨i + 1, node, rfl, hnode, hp⟩)
    · rw [h.children l other hother] at hmem
      obtain ⟨j, child, heq, hchild, hpc⟩ := h.mem_childrenOf.mp hmem
      obtain rfl := Nat.succ.inj heq
      obtain rfl := Option.some.inj (hchild.symm.trans hnode)
      exact Nat.succ.inj (Option.some.inj (hpc.symm.trans hp))
  children := by
    intro node hnode inode hmem
    obtain ⟨k, hk⟩ := List.mem_iff_getElem?.mp hnode
    rw [h.children k node hk] at hmem
    obtain ⟨j, child, rfl, hchild, hp⟩ := h.mem_childrenOf.mp hmem
    obtain ⟨i, file, rfl, -, hof, -⟩ := h.entry_of_parent hchild hp
    exact ⟨i, child, hchild, hof.inode⟩

/-- **The tree of a list.** Whatever names the reader has accepted, and in whatever order,
`build_tree` makes a node for each entry of a list, numbered through and each below one directory;
and in a list in order, the path of an entry leads to it. -/
theorem build_tree_numbered (now : ℕ → ℤ) (files : List FileDescription)
    (hvalid : ∀ f ∈ files, validateFileName f.name = .ok ()) :
    ∃ tree, buildTree now files = some (.ok tree) ∧ Numbered files tree ∧
      (Ordered files → ∀ i file names, files[i]? = some file →
        file.name.pathComponents = names.map .normal →
        (∀ name ∈ names, nameLen name ≤ maxNameLen) →
          walk tree fuseRootId names = some (.ok (i + 2))) := by
  obtain ⟨tree, htree, hof⟩ := buildTree_treeOf now hvalid
  exact ⟨tree, htree, hof.numbered, fun hordered i file names hfile hnames hlen =>
    walk_entry hordered hof hvalid i hfile hnames hlen⟩

/-- A description of 1970. -/
def plainDescription (name : PathName) (kind : FileType) : FileDescription where
  connId := 0
  name
  kind
  atime := 0
  lastModified := 0
  lastMetadataChanged := 0
  creationTime := 0
  size := 0
  perm := 0
  clipDataId := 0

example : let files :=
  [plainDescription "/test/folder0".toList .directory,
    plainDescription "/test/folder0/file0".toList .file,
      plainDescription "/test/folder1".toList .directory,
        plainDescription "/test/folder1/file1".toList .file]
    (buildTree (fun _ => 0) files).map (Except.map (List.map fun node => node.children)) =
      some (.ok [[2, 4], [3], [], [5], []]) := by decide

theorem build_tree_numbered_folder :
    ∃ tree, buildTree (fun _ => 0) [plainDescription "a".toList .directory,
      plainDescription "a/b".toList .file] =
        some (.ok tree) ∧
      Numbered [plainDescription "a".toList .directory, plainDescription "a/b".toList .file] tree ∧
      walk tree fuseRootId ["a".toList, "b".toList] = some (.ok 3) := by
  have hvalid : ∀ f ∈ [plainDescription "a".toList .directory, plainDescription "a/b".toList .file],
      validateFileName f.name = .ok () := by decide
  obtain ⟨tree, htree, hnumbered, hwalk⟩ := build_tree_numbered (fun _ => 0) _ hvalid
  refine ⟨tree, htree, hnumbered, hwalk ⟨by decide, ?_⟩ 1 _ ["a".toList, "b".toList] rfl (by decide)
    (by decide)⟩
  have hfolder : (plainDescription "a".toList .directory).name.pathComponents = [] ++
      [.normal ['a']] := by decide
  have hfile : (plainDescription "a/b".toList .file).name.pathComponents = [.normal ['a']] ++
      [.normal ['b']] := by decide
  rintro (_ | _ | i) file hentry ancestor hnil hprefix hproper
  · obtain rfl := Option.some.inj hentry
    rw [hfolder] at hprefix hproper
    exact absurd (List.prefix_nil.mp ((List.prefix_concat_iff.mp hprefix).resolve_left hproper))
      hnil
  · obtain rfl := Option.some.inj hentry
    rw [hfile] at hprefix hproper
    have habove := (List.prefix_concat_iff.mp hprefix).resolve_left hproper
    rw [← List.nil_append [_], List.prefix_concat_iff] at habove
    obtain rfl := habove.resolve_right fun hp => hnil (List.prefix_nil.mp hp)
    exact ⟨2, 0, _, rfl, rfl, hfolder, rfl⟩
  · cases hentry

end Clipboard
end BgDesk
