import BgDesk.FileSystem
import BgDesk.IdWhitelist
import BgDesk.Machine

/-!
# The downloaded update

`src/updater/download.rs`, with the check of `src/update_hash.rs`: the file of an update is taken
from where it was downloaded to before, if it is the right one, or else downloaded into a file of
its own, which gets the right name when it has been verified. Any number of processes may do this
for the same artifact, and each of them may stop anywhere.

A call is known by its number, `pid` is the process it belongs to. A directory is a map from names
to what is there; the bytes of a file are kept under the number of the file, so that a handle goes
on with its own file whatever happens to the name. `digest` is SHA-256 in hexadecimal.

* `go` — one operation of a call, with how it ends;
* `Fits`, `Sound`, `Goes` — what goes for a call, for the directory and for an operation;
* `artifact_safe`, `artifact_verified`, `artifact_returns`.
-/

namespace BgDesk
namespace UpdateArtifact

/-! ## The code -/

/-- `SHA256_HEX_LENGTH` -/
def sha256HexLength : ℕ := 64

/-- `UPDATE_FILE_CREATE_ATTEMPTS` -/
def updateFileCreateAttempts : ℕ := 16

/-- The errors, by their messages; the paths in them are left out. -/
inductive Error where
  /-- of the file system or the HTTP client -/
  | library : Error
  /-- "Failed to download the new version file" -/
  | status : ℕ → Error
  /-- "Refusing to use update cache path that is not a regular file" -/
  | notRegular : Error
  /-- "Refusing to remove update cache path that is not a file" -/
  | notFile : Error
  /-- "Failed to create temporary update file" -/
  | noTempFile : Error
  /-- "Update artifact size mismatch": expected, got -/
  | sizeMismatch : ℕ → ℕ → Error
  /-- "Expected update file SHA256 is malformed" -/
  | malformed : Error
  /-- "SHA256 mismatch": expected, got -/
  | mismatch : List Char → List Char → Error
  deriving DecidableEq

def isAsciiHexdigit (c : Char) : Bool := c.isDigit || ('a' ≤ c && c ≤ 'f') || ('A' ≤ c && c ≤ 'F')

/-- `verify_sha256_reader` of a reader that does not fail; `none` is `Ok`. -/
def verifySha256Reader (digest : Bytes → List Char) (expectedSha256 : List Char) (content : Bytes) :
    Option Error :=
  let expectedSha256 := (IdWhitelist.trim expectedSha256).map Char.toLower
  if expectedSha256.length ≠ sha256HexLength ∨
    expectedSha256.all isAsciiHexdigit = false then some .malformed
  else if digest content ≠ expectedSha256 then some (.mismatch expectedSha256 (digest content))
  else none

/-- What is to be downloaded, and the name it gets. -/
structure Artifact where
  fileName : PathName
  expectedSize : ℕ
  expectedSha256 : List Char

/-- What the response is limited to, `expected_size.saturating_add(1)`. -/
def Artifact.limit (a : Artifact) : ℕ := min (a.expectedSize + 1) (2 ^ 64 - 1)

/-- What may get the name. -/
def Artifact.Verified (digest : Bytes → List Char) (a : Artifact) (content : Bytes) : Prop :=
  content.length = a.expectedSize ∧ verifySha256Reader digest a.expectedSha256 content = none

/-- What a name stands for: a file, a link, with the bytes that are read through it, or something
else. -/
inductive Entry where
  | file : ℕ → Entry
  | symlink : Option Bytes → Entry
  | other : Entry
  deriving DecidableEq

/-- What `remove_cached_update_artifact` is called before: the download, or the new name of a file.
-/
inductive Next where
  | fetch : Next
  | rename : ℕ → PathName → Next
  deriving DecidableEq

/-- The operation a call comes to. A file is given as its number and its name. -/
inductive Phase where
  /-- `symlink_metadata` of `cached_update_artifact_size` -/
  | cached : Phase
  /-- `verify_file_sha256`: one step, from where the file is opened, since no call writes to a file
  that has the name -/
  | hashing : Phase
  /-- `symlink_metadata` of `remove_cached_update_artifact` -/
  | removing : Next → Phase
  /-- its `remove_file` -/
  | unlinking : Next → Phase
  /-- the request -/
  | fetching : Phase
  /-- `create_download_temp_file`, with the attempts before -/
  | creating : ℕ → Phase
  /-- `std::io::copy`, with the bytes copied -/
  | copying : ℕ → PathName → ℕ → Phase
  /-- `verify_update_file_sha256` -/
  | verifying : ℕ → PathName → Phase
  /-- `std::fs::rename` -/
  | moving : ℕ → PathName → Phase
  /-- `remove_update_file` before the error is returned -/
  | cleaning : ℕ → PathName → Error → Phase
  /-- returned, with the error if there was one -/
  | done : Option Error → Phase
  deriving DecidableEq

/-- The operation after a removal that went well. -/
def Next.goOn : Next → Phase
  | .fetch => .fetching
  | .rename node temp => .moving node temp

/-- What follows one that failed. -/
def Next.fail (e : Error) : Next → Phase
  | .fetch => .done (some e)
  | .rename node temp => .cleaning node temp e

/-- How an operation ends. -/
inductive Move where
  | ok : Move
  | fault : Move
  /-- the response is no success -/
  | status : ℕ → Move
  /-- the number that was drawn -/
  | random : UInt64 → Move
  /-- some bytes are read, and written -/
  | chunk : Bytes → Move
  /-- nothing is left to be read -/
  | eof : Move
  deriving DecidableEq

structure State where
  names : PathName → Option Entry
  data : ℕ → Bytes
  /-- the number of the next file -/
  nextNode : ℕ
  phase : ℕ → Phase
  /-- the temporary files that could not be removed -/
  stale : List PathName

/-- The name of a temporary file. -/
def tempName (fileName : PathName) (pid : ℕ) (random : UInt64) : PathName :=
  '.' :: fileName ++ '.' :: Nat.toDigits 10 pid ++ '.' :: Nat.toDigits 10 random.toNat ++
    ['.', 'd', 'o', 'w', 'n', 'l', 'o', 'a', 'd']

namespace State

def enter (r : ℕ) (phase : Phase) (s : State) : State :=
  { s with phase := Function.update s.phase r phase }

/-- A name is removed. -/
def unlink (name : PathName) (s : State) : State :=
  { s with names := Function.update s.names name none }

/-- What is read from a name. -/
def read (name : PathName) (s : State) : Option Bytes :=
  match s.names name with
  | some (.file node) => some (s.data node)
  | some (.symlink target) => target
  | _ => none

variable (a : Artifact) (digest : Bytes → List Char)

/-- One operation of call `r`. -/
def go (pid : ℕ → ℕ) (r : ℕ) (m : Move) (s : State) : Option State :=
  match s.phase r, m with
  | .cached, .ok =>
    some <| s.enter r <|
      match s.names a.fileName with
      | none => .fetching
      | some (.file node) =>
        if (s.data node).length = a.expectedSize then .hashing else .removing .fetch
      | some (.symlink _) => .removing .fetch
      | some .other => .done (some .notRegular)
  | .cached, .fault => some (s.enter r (.done (some .library)))
  | .hashing, .ok =>
    some <| s.enter r <|
      match s.read a.fileName with
      | none => .removing .fetch
      | some content =>
        if verifySha256Reader digest a.expectedSha256 content =
          none then .done none else .removing .fetch
  -- whatever went wrong, the file is removed
  | .hashing, .fault => some (s.enter r (.removing .fetch))
  | .removing next, .ok =>
    some <| s.enter r <|
      match s.names a.fileName with
      | none => next.goOn
      | some .other => next.fail .notFile
      | _ => .unlinking next
  | .removing next, .fault => some (s.enter r (next.fail .library))
  | .unlinking next, .ok =>
    match s.names a.fileName with
    -- somebody else removed it
    | none | some .other => some (s.enter r (next.fail .library))
    | _ => some ((s.unlink a.fileName).enter r next.goOn)
  | .unlinking next, .fault => some (s.enter r (next.fail .library))
  | .fetching, .ok => some (s.enter r (.creating 0))
  | .fetching, .status code => some (s.enter r (.done (some (.status code))))
  | .fetching, .fault => some (s.enter r (.done (some .library)))
  | .creating attempts, .random n =>
    let temp := tempName a.fileName (pid r) n
    match s.names temp with
    | some _ =>
      some (s.enter r (if attempts + 1 < updateFileCreateAttempts then .creating
        (attempts + 1) else .done (some .noTempFile)))
    | none =>
      some <| { s with
        names := Function.update s.names temp (some (.file s.nextNode)),
        data := Function.update s.data s.nextNode [],
        nextNode := s.nextNode + 1 }.enter r (.copying s.nextNode temp 0)
  | .creating _, .fault => some (s.enter r (.done (some .library)))
  | .copying node temp written, .chunk bytes =>
    if bytes ≠ [] ∧ written + bytes.length ≤ a.limit then
      some <| { s with data := Function.update s.data node (s.data node ++ bytes) }.enter r
        (.copying node temp (written + bytes.length))
    else none
  | .copying node temp written, .eof =>
    some <| s.enter r <|
      if written ≠ a.expectedSize then .cleaning node temp
        (.sizeMismatch a.expectedSize written) else .verifying node temp
  | .copying node temp _, .fault => some (s.enter r (.cleaning node temp .library))
  | .verifying node temp, .ok =>
    some <| s.enter r <|
      match verifySha256Reader digest a.expectedSha256 (s.data node) with
      | none => .removing (.rename node temp)
      | some e => .cleaning node temp e
  | .verifying node temp, .fault => some (s.enter r (.cleaning node temp .library))
  | .moving node temp, .ok =>
    match s.names temp, s.names a.fileName with
    | none, _ | _, some .other => some (s.enter r (.cleaning node temp .library))
    | some entry, _ =>
      some <|
        { s with
          names := Function.update (Function.update s.names temp none) a.fileName (some entry)
            }.enter r (.done none)
  | .moving node temp, .fault => some (s.enter r (.cleaning node temp .library))
  | .cleaning _ temp e, .ok => some ((s.unlink temp).enter r (.done (some e)))
  | .cleaning _ temp e, .fault =>
    some ({ s with stale := temp :: s.stale }.enter r (.done (some e)))
  | _, _ => none

end State

def step (a : Artifact) (digest : Bytes → List Char) (pid : ℕ → ℕ) (s : State) (act : ℕ × Move) :
    Option State :=
  s.go a digest pid act.1 act.2

/-! ## What holds in every run -/

theorem tempName_ne (fileName : PathName) (pid : ℕ) (random : UInt64) :
    tempName fileName pid random ≠ fileName := by
  intro h
  have hlength := congrArg List.length h
  simp only [tempName, List.length_append, List.length_cons] at hlength
  omega

/-- The temporary file a call has: its name and its number. -/
def Phase.holds : Phase → Option (PathName × ℕ)
  | .copying node temp _ | .verifying node temp | .removing (.rename node temp) | .unlinking
    (.rename node temp)
  | .moving node temp | .cleaning node temp _ => some (temp, node)
  | .cached | .hashing | .removing .fetch | .unlinking .fetch | .fetching | .creating _ | .done _ =>
    none

section Invariant

variable (a : Artifact) (digest : Bytes → List Char) (s₀ : State)

/-- A file that is nobody else's. -/
structure Own (names : PathName → Option Entry) (temp : PathName) (node : ℕ) : Prop where
  ne : temp ≠ a.fileName
  fresh : s₀.names temp = none
  named : names temp = some (.file node)
  new : s₀.nextNode ≤ node
  only : ∀ name, names name = some (.file node) → name = temp

/-- Nothing, or a file of the right length. -/
def Sized (names : PathName → Option Entry) (data : ℕ → Bytes) : Prop :=
  names a.fileName = none ∨ ∃ node, names a.fileName = some (.file node) ∧
    (data node).length = a.expectedSize

/-- What a call relies on. -/
def Fits (names : PathName → Option Entry) (data : ℕ → Bytes) : Phase → Prop
  | .hashing => Sized a names data
  | .copying node temp written => Own a s₀ names temp node ∧ (data node).length = written
  | .verifying node temp => Own a s₀ names temp node ∧ (data node).length = a.expectedSize
  | .removing (.rename node temp) | .unlinking (.rename node temp) | .moving node temp =>
    Own a s₀ names temp node ∧ a.Verified digest (data node)
  | .cleaning node temp _ => Own a s₀ names temp node
  | .cached | .removing .fetch | .unlinking .fetch | .fetching | .creating _ | .done _ => True

/-- **The name stands for what it stood for, for nothing, or for a verified file.** -/
structure Sound (s : State) : Prop where
  allocated : ∀ name node, s.names name = some (.file node) → node < s.nextNode
  grown : s₀.nextNode ≤ s.nextNode
  old : ∀ node, node < s₀.nextNode → s.data node = s₀.data node
  fits : ∀ r, Fits a digest s₀ s.names s.data (s.phase r)
  apart : ∀ r r' temp node node', (s.phase r).holds = some (temp, node) →
    (s.phase r').holds = some (temp, node') → r = r'
  final : s.names a.fileName = s₀.names a.fileName ∨ s.names a.fileName = none ∨
    ∃ node, s.names a.fileName = some (.file node) ∧ a.Verified digest (s.data node)
  kept : ∀ name e, name ≠ a.fileName → s₀.names name = some e → s.names name = some e
  added : ∀ name, name ≠ a.fileName → s₀.names name = none → s.names name ≠ none →
    (∃ r node, (s.phase r).holds = some (name, node)) ∨ name ∈ s.stale
  small : ∀ node, s₀.nextNode ≤ node → (s.data node).length ≤ a.limit

end Invariant

section Lemmas

variable {a : Artifact} {digest : Bytes → List Char} {s₀ s s' : State}
  {names names' : PathName → Option Entry} {data data' : ℕ → Bytes}
  {r : ℕ} {phase phase' : Phase} {temp : PathName} {node : ℕ}

/-- Where every call begins. -/
structure Fresh (s₀ : State) : Prop where
  allocated : ∀ name node, s₀.names name = some (.file node) → node < s₀.nextNode
  phase : ∀ r, s₀.phase r = .cached
  small : ∀ node, s₀.nextNode ≤ node → s₀.data node = []

theorem Fresh.sound (h : Fresh s₀) : Sound a digest s₀ s₀ := by
  refine ⟨h.allocated, Nat.le_refl _, fun _ _ => rfl, ?_, ?_, .inl rfl, fun _ _ _ => id, ?_, ?_⟩
  · intro r
    rw [h.phase r]
    trivial
  · intro r r' temp node node' hr
    rw [h.phase r] at hr
    cases hr
  · intro name _ hnone hsome
    exact absurd hnone hsome
  · intro node hnode
    rw [h.small node hnode]
    exact Nat.zero_le _

theorem Fits.own (h : Fits a digest s₀ names data phase)
    (hholds : phase.holds = some (temp, node)) : Own a s₀ names temp node := by
  cases phase with
  | cached | hashing | fetching | creating | done => cases hholds
  | copying | verifying | moving =>
    cases hholds
    exact h.1
  | cleaning =>
    cases hholds
    exact h
  | removing next | unlinking next =>
    cases next with
    | fetch => cases hholds
    | rename =>
      cases hholds
      exact h.1

/-- What a call relies on goes on if its own file and the length of what the name stands for do. -/
theorem Fits.change (h : Fits a digest s₀ names data phase)
    (hown : ∀ temp node, phase.holds = some (temp, node) → Own a s₀ names' temp node ∧
    data' node = data node)
    (hsized : Sized a names data → Sized a names' data') : Fits a digest s₀ names' data' phase := by
  cases phase with
  | cached | fetching | creating | done => trivial
  | hashing => exact hsized h
  | copying node temp | verifying node temp | moving node temp =>
    obtain ⟨hown, hdata⟩ := hown temp node rfl
    exact ⟨hown, hdata ▸ h.2⟩
  | cleaning node temp e => exact (hown temp node rfl).1
  | removing next | unlinking next =>
    cases next with
    | fetch => trivial
    | rename node temp =>
      obtain ⟨hown, hdata⟩ := hown temp node rfl
      exact ⟨hown, hdata ▸ h.2⟩

/-- A file is still nobody else's when its name is left and it gets no other. -/
theorem Own.change (h : Own a s₀ names temp node) (hsame : names' temp = names temp)
    (hfile : ∀ name, names' name = some (.file node) → names name = some (.file node)) :
    Own a s₀ names' temp node :=
  ⟨h.ne, h.fresh, hsame.trans h.named, h.new, fun name hname => h.only name (hfile name hname)⟩

variable {name : PathName}

/-- Names that were there at the beginning are nobody's temporary files. -/
theorem Own.not_old {e : Entry} (h : Own a s₀ names temp node) (hold : s₀.names name = some e) :
    name ≠ temp := by
  rintro rfl
  rw [h.fresh] at hold
  cases hold

theorem unlink_of_ne {name' : PathName} (h : name' ≠ name) :
    (s.unlink name).names name' = s.names name' :=
  Function.update_of_ne h _ _

theorem unlink_self : (s.unlink name).names name = none := Function.update_self _ _ _

theorem unlink_some {name' : PathName} {e : Entry} (h : (s.unlink name).names name' = some e) :
    s.names name' = some e := by
  by_cases hne : name' = name
  · rw [hne, unlink_self] at h
    cases h
  · rwa [unlink_of_ne hne] at h

namespace Sound

theorem own (h : Sound a digest s₀ s) (hholds : (s.phase r).holds = some (temp, node)) :
    Own a s₀ s.names temp node :=
  (h.fits r).own hholds

/-- Two calls have different files under different names. -/
theorem other (h : Sound a digest s₀ s) (hholds : (s.phase r).holds = some (temp, node)) {r' : ℕ}
    {temp' : PathName} {node' : ℕ} (hholds' : (s.phase r').holds = some (temp', node'))
    (hne : r' ≠ r) : temp' ≠ temp ∧ node' ≠ node := by
  have htemp : temp' ≠ temp := by
    rintro rfl
    exact hne (h.apart _ _ _ _ _ hholds' hholds)
  refine ⟨htemp, ?_⟩
  rintro rfl
  exact htemp ((h.own hholds).only temp' (h.own hholds').named)

theorem apart_update (h : Sound a digest s₀ s)
    (hholds : ∀ temp node, phase.holds = some (temp, node) →
    (∃ node', (s.phase r).holds = some (temp, node')) ∨ s.names temp = none) :
    ∀ i j temp node node', (Function.update s.phase r phase i).holds = some (temp, node) →
      (Function.update s.phase r phase j).holds = some (temp, node') → i = j := by
  have hnot : ∀ {j : ℕ} {temp : PathName} {node node' : ℕ}, j ≠ r →
    phase.holds = some (temp, node) →
      (s.phase j).holds = some (temp, node') → False := by
    intro j temp node node' hj hphase hj'
    obtain ⟨node₁, hr⟩ | hnone := hholds temp node hphase
    · exact hj (h.apart _ _ _ _ _ hj' hr)
    · rw [(h.own hj').named] at hnone
      cases hnone
  intro i j temp node node' hi hj
  by_cases hir : i = r
  · subst hir
    rw [Function.update_self] at hi
    by_cases hji : j = i
    · exact hji.symm
    · rw [Function.update_of_ne hji] at hj
      exact (hnot hji hi hj).elim
  · rw [Function.update_of_ne hir] at hi
    by_cases hjr : j = r
    · subst hjr
      rw [Function.update_self] at hj
      exact (hnot hir hj hi).elim
    · rw [Function.update_of_ne hjr] at hj
      exact h.apart _ _ _ _ _ hi hj

theorem fits_update (hfits : Fits a digest s₀ names data phase)
    (hother : ∀ r', r' ≠ r → Fits a digest s₀ names data (s.phase r')) :
    ∀ i, Fits a digest s₀ names data (Function.update s.phase r phase i) := by
  intro i
  rw [Function.update_apply]
  split
  · exact hfits
  · rename_i hne
    exact hother i hne

/-- What a new name belongs to, when the call that goes on leaves it or keeps it. -/
theorem added_update (h : Sound a digest s₀ s) {name : PathName} (hne : name ≠ a.fileName)
    (hnone : s₀.names name = none) (hsome : s.names name ≠ none)
    (hkeeps : ∀ node, (s.phase r).holds = some (name, node) →
    ∃ node', phase.holds = some (name, node')) :
    (∃ i node, (Function.update s.phase r phase i).holds = some (name, node)) ∨ name ∈ s.stale := by
  refine (h.added name hne hnone hsome).imp_left fun ⟨i, node, hi⟩ => ?_
  by_cases hir : i = r
  · subst hir
    obtain ⟨node', hphase⟩ := hkeeps node hi
    exact ⟨i, node', by rw [Function.update_self, hphase]⟩
  · exact ⟨i, node, by rw [Function.update_of_ne hir, hi]⟩

/-- **A call goes on**, and nothing else changes. -/
theorem enter (h : Sound a digest s₀ s) (hfits : Fits a digest s₀ s.names s.data phase)
    (hholds : phase.holds = (s.phase r).holds) : Sound a digest s₀ (s.enter r phase) := by
  refine ⟨h.allocated, h.grown, h.old, fits_update hfits fun r' _ => h.fits r', ?_, h.final, h.kept,
    ?_, h.small⟩
  · exact h.apart_update fun temp node hphase => .inl ⟨node, hholds ▸ hphase⟩
  · exact fun name hne hnone hsome => h.added_update hne hnone hsome fun node hr =>
      ⟨node, hholds.trans hr⟩

/-- The name is removed. -/
theorem unlinkFinal (h : Sound a digest s₀ s) : Sound a digest s₀ (s.unlink a.fileName) := by
  refine ⟨fun name node hname => h.allocated name node (unlink_some hname), h.grown, h.old, ?_,
    h.apart, .inr (.inl unlink_self), ?_, ?_,
    h.small⟩
  · intro i
    refine (h.fits i).change (fun temp node hi => ⟨?_, rfl⟩) fun _ => .inl unlink_self
    exact (h.own hi).change (unlink_of_ne (h.own hi).ne) fun name => unlink_some
  · intro name e hne hname
    exact (unlink_of_ne hne).trans (h.kept name e hne hname)
  · intro name hne hnone hsome
    rw [unlink_of_ne hne] at hsome
    exact h.added name hne hnone hsome

/-- A call gets a file of its own. -/
theorem create (h : Sound a digest s₀ s) (hr : (s.phase r).holds = none)
    (htemp : s.names temp = none) (hne : temp ≠ a.fileName) : Sound a digest s₀ ({ s with
      names := Function.update s.names temp (some (.file s.nextNode)),
      data := Function.update s.data s.nextNode [],
      nextNode := s.nextNode + 1 }.enter r (.copying s.nextNode temp 0)) := by
  have hnew : s₀.names temp = none := by
    cases hold : s₀.names temp with
    | none => rfl
    | some e =>
      rw [h.kept temp e hne hold] at htemp
      cases htemp
  have hdata : ∀ {name : PathName} {node : ℕ}, s.names name = some (.file node) →
      Function.update s.data s.nextNode [] node = s.data node := by
    intro name node hname
    have hlt := h.allocated name node hname
    exact Function.update_of_ne (by omega) _ _
  have hfinal : Function.update s.names temp (some (.file s.nextNode))
    a.fileName = s.names a.fileName :=
    Function.update_of_ne (Ne.symm hne) _ _
  refine ⟨?_, Nat.le_succ_of_le h.grown, ?_, fits_update ?_ ?_, ?_, ?_, ?_, ?_, ?_⟩
  · intro name node hname
    dsimp only [State.enter] at hname ⊢
    rw [Function.update_apply] at hname
    split at hname
    · cases hname
      exact Nat.lt_succ_self _
    · exact Nat.lt_succ_of_lt (h.allocated name node hname)
  · intro node hnode
    have hgrown := h.grown
    dsimp only [State.enter]
    rw [Function.update_of_ne (by omega)]
    exact h.old node hnode
  · refine ⟨⟨hne, hnew, Function.update_self _ _ _, h.grown, fun name hname => ?_⟩, ?_⟩
    · dsimp only [State.enter] at hname
      rw [Function.update_apply] at hname
      split at hname
      · assumption
      · exact absurd (h.allocated name _ hname) (Nat.lt_irrefl _)
    · dsimp only [State.enter]
      rw [Function.update_self]
      rfl
  · intro i hir
    refine (h.fits i).change (fun temp' node hi => ?_) ?_
    · have hnamed := (h.own hi).named
      refine ⟨(h.own hi).change (Function.update_of_ne ?_ _ _) fun name hname => ?_, hdata hnamed⟩
      · rintro rfl
        rw [hnamed] at htemp
        cases htemp
      · dsimp only [State.enter] at hname
        rw [Function.update_apply] at hname
        split at hname
        · cases hname
          exact absurd (h.allocated _ _ hnamed) (Nat.lt_irrefl _)
        · exact hname
    · rintro (hnone | ⟨node, hfile, hlength⟩)
      · exact .inl (hfinal.trans hnone)
      · exact .inr ⟨node, hfinal.trans hfile, (congrArg List.length (hdata hfile)).trans hlength⟩
  · refine h.apart_update fun temp' node hphase => ?_
    cases hphase
    exact .inr htemp
  · dsimp only [State.enter]
    rw [hfinal]
    refine h.final.imp_right (Or.imp_right fun ⟨node, hfile, hverified⟩ => ⟨node, hfile, ?_⟩)
    rwa [hdata hfile]
  · intro name e hname hold
    dsimp only [State.enter]
    rw [Function.update_of_ne]
    · exact h.kept name e hname hold
    · rintro rfl
      rw [hnew] at hold
      cases hold
  · intro name hname hnone hsome
    dsimp only [State.enter] at hsome ⊢
    by_cases heq : name = temp
    · subst heq
      refine .inl ⟨r, s.nextNode, ?_⟩
      rw [Function.update_self]
      rfl
    · rw [Function.update_of_ne heq] at hsome
      refine h.added_update hname hnone hsome fun node hnode => ?_
      rw [hr] at hnode
      cases hnode
  · intro node hnode
    dsimp only [State.enter]
    rw [Function.update_apply]
    split
    · exact Nat.zero_le _
    · exact h.small node hnode

/-- A call writes to its file. -/
theorem write (h : Sound a digest s₀ s) {written : ℕ} (hr : s.phase r = .copying node temp written)
    {bytes : Bytes} (hle : written + bytes.length ≤ a.limit) :
    Sound a digest s₀ ({ s with data := Function.update s.data node (s.data node ++ bytes) }.enter r
      (.copying node temp (written + bytes.length))) := by
  have hholds : (s.phase r).holds = some (temp, node) := by rw [hr, Phase.holds]
  obtain ⟨hown, hlength⟩ : Own a s₀ s.names temp node ∧ (s.data node).length = written := by
    have hfits := h.fits r
    rwa [hr] at hfits
  have hdata : ∀ {i : ℕ}, i ≠ node → Function.update s.data node (s.data node ++ bytes)
    i = s.data i :=
    fun hne => Function.update_of_ne hne _ _
  have hfinal : ∀ {i : ℕ}, s.names a.fileName = some (.file i) → i ≠ node := by
    rintro i hfile rfl
    exact hown.ne (hown.only _ hfile).symm
  have hgrows : (s.data node ++ bytes).length = written + bytes.length := by
    rw [List.length_append, hlength]
  refine ⟨h.allocated, h.grown, ?_, fits_update ?_ ?_, ?_, ?_, h.kept, ?_, ?_⟩
  · intro i hi
    have hnew := hown.new
    dsimp only [State.enter]
    rw [hdata (by omega)]
    exact h.old i hi
  · refine ⟨hown, ?_⟩
    dsimp only [State.enter]
    rw [Function.update_self, hgrows]
  · intro i hir
    refine (h.fits i).change (fun temp' node' hi => ⟨h.own hi, hdata (h.other hholds hi hir).2⟩) ?_
    rintro (hnone | ⟨i, hfile, hsize⟩)
    · exact .inl hnone
    · exact .inr ⟨i, hfile, (congrArg List.length (hdata (hfinal hfile))).trans hsize⟩
  · refine h.apart_update fun temp' node' hphase => ?_
    cases hphase
    exact .inl ⟨_, hholds⟩
  · refine h.final.imp_right (Or.imp_right fun ⟨i, hfile, hverified⟩ => ⟨i, hfile, ?_⟩)
    dsimp only [State.enter]
    rwa [hdata (hfinal hfile)]
  · exact fun name hne hnone hsome => h.added_update hne hnone hsome fun node' hr' =>
      ⟨node', hr' ▸ hholds.symm⟩
  · intro i hi
    dsimp only [State.enter]
    by_cases hin : i = node
    · subst hin
      rw [Function.update_self, hgrows]
      exact hle
    · rw [hdata hin]
      exact h.small i hi

/-- A verified file gets the name. -/
theorem rename (h : Sound a digest s₀ s) (hr : s.phase r = .moving node temp) :
    Sound a digest s₀ ({ s with
      names := Function.update (Function.update s.names temp none) a.fileName (some (.file node))
  }.enter r (.done none)) := by
  have hholds : (s.phase r).holds = some (temp, node) := by rw [hr, Phase.holds]
  obtain ⟨hown, hverified⟩ : Own a s₀ s.names temp node ∧ a.Verified digest (s.data node) := by
    have hfits := h.fits r
    rwa [hr] at hfits
  generalize hnames : Function.update (Function.update s.names temp none)
    a.fileName (some (.file node)) = names'
  have hself : names' a.fileName = some (.file node) := by
    rw [← hnames]
    exact Function.update_self _ _ _
  have htemp : names' temp = none := by
    rw [← hnames, Function.update_of_ne hown.ne, Function.update_self]
  have hother : ∀ {name : PathName}, name ≠ a.fileName → name ≠ temp →
      names' name = s.names name := by
    intro name hne hnt
    rw [← hnames, Function.update_of_ne hne, Function.update_of_ne hnt]
  have hfile : ∀ {name : PathName} {e : Entry}, names' name = some e → e = .file node ∨
      s.names name = some e := by
    intro name e hname
    by_cases hne : name = a.fileName
    · rw [hne, hself] at hname
      exact .inl (Option.some.inj hname).symm
    · by_cases hnt : name = temp
      · rw [hnt, htemp] at hname
        cases hname
      · rw [hother hne hnt] at hname
        exact .inr hname
  refine ⟨?_, h.grown, h.old, fits_update trivial ?_, ?_, .inr (.inr ⟨node, hself, hverified⟩), ?_,
    ?_, h.small⟩
  · intro name i hname
    obtain heq | hold := hfile hname
    · obtain rfl := Entry.file.inj heq
      exact h.allocated temp _ hown.named
    · exact h.allocated name i hold
  · intro i hir
    refine (h.fits i).change (fun temp' node' hi => ⟨?_, rfl⟩) fun _ =>
      .inr ⟨node, hself, hverified.1⟩
    obtain ⟨htt, hnn⟩ := h.other hholds hi hir
    refine (h.own hi).change (hother (h.own hi).ne htt) fun name hname => ?_
    exact (hfile hname).resolve_left fun heq => hnn (Entry.file.inj heq)
  · refine h.apart_update fun temp' node' hphase => ?_
    cases hphase
  · intro name e hne hold
    exact (hother hne (hown.not_old hold)).trans (h.kept name e hne hold)
  · intro name hne hnone hsome
    dsimp only [State.enter] at hsome ⊢
    by_cases hnt : name = temp
    · rw [hnt, htemp] at hsome
      exact absurd rfl hsome
    · rw [hother hne hnt] at hsome
      refine h.added_update hne hnone hsome fun node' hr' => ?_
      rw [hholds] at hr'
      cases hr'
      exact absurd rfl hnt

/-- A call removes its file. -/
theorem discard (h : Sound a digest s₀ s) (hholds : (s.phase r).holds = some (temp, node))
    (e : Error) : Sound a digest s₀ ((s.unlink temp).enter r (.done (some e))) := by
  have hown := h.own hholds
  have hfinal : (s.unlink temp).names a.fileName = s.names a.fileName :=
    unlink_of_ne (Ne.symm hown.ne)
  refine ⟨fun name i hname => h.allocated name i (unlink_some hname), h.grown, h.old,
    fits_update trivial ?_, ?_, ?_, ?_, ?_, h.small⟩
  · intro i hir
    refine (h.fits i).change (fun temp' node' hi => ⟨?_, rfl⟩) fun hsized => ?_
    · exact (h.own hi).change (unlink_of_ne (h.other hholds hi hir).1) fun name => unlink_some
    · rw [Sized] at hsized ⊢
      exact hfinal ▸ hsized
  · refine h.apart_update fun temp' node' hphase => ?_
    cases hphase
  · dsimp only [State.enter]
    rw [hfinal]
    exact h.final
  · intro name e hne hold
    exact (unlink_of_ne (hown.not_old hold)).trans (h.kept name e hne hold)
  · intro name hne hnone hsome
    dsimp only [State.enter] at hsome
    refine h.added_update hne hnone (fun hs => hsome ?_) fun node' hr' => ?_
    · cases hname : (s.unlink temp).names name with
      | none => rfl
      | some e =>
        rw [unlink_some hname] at hs
        cases hs
    · rw [hholds] at hr'
      cases hr'
      exact absurd unlink_self hsome

/-- A call cannot remove its file. -/
theorem abandon (h : Sound a digest s₀ s) (hholds : (s.phase r).holds = some (temp, node))
    (e : Error) :
    Sound a digest s₀ ({ s with stale := temp :: s.stale }.enter r (.done (some e))) := by
  refine ⟨h.allocated, h.grown, h.old, fits_update trivial fun r' _ => h.fits r', ?_, h.final,
    h.kept, ?_, h.small⟩
  · refine h.apart_update fun temp' node' hphase => ?_
    cases hphase
  · intro name hne hnone hsome
    dsimp only [State.enter] at hsome ⊢
    obtain ⟨i, node', hi⟩ | hstale := h.added name hne hnone hsome
    · by_cases hir : i = r
      · subst hir
        rw [hholds] at hi
        cases hi
        exact .inr List.mem_cons_self
      · refine .inl ⟨i, node', ?_⟩
        rw [Function.update_of_ne hir, hi]
    · exact .inr (List.mem_cons_of_mem _ hstale)

end Sound

/-- How far a call is from its end. -/
def Phase.rank (a : Artifact) : Phase → ℕ
  | .cached => a.limit + 29
  | .hashing => a.limit + 28
  | .removing .fetch => a.limit + 27
  | .unlinking .fetch => a.limit + 26
  | .fetching => a.limit + 25
  | .creating attempts => a.limit + 8 + (updateFileCreateAttempts - attempts)
  | .copying _ _ written => a.limit - written + 7
  | .verifying _ _ => 6
  | .removing (.rename _ _) => 5
  | .unlinking (.rename _ _) => 4
  | .moving _ _ => 3
  | .cleaning _ _ _ => 2
  | .done _ => 1

/-- An operation of call `r` keeps the invariant, brings the call nearer to its end, and ends it
with `Ok` only with a verified file. -/
structure Goes (a : Artifact) (digest : Bytes → List Char) (s₀ : State) (r : ℕ) (s s' : State) :
  Prop where
  sound : Sound a digest s₀ s'
  nearer : ∃ phase, s'.phase = Function.update s.phase r phase ∧ phase.rank a < (s.phase r).rank a
  verified : s'.phase r = .done none → ∃ node, s'.names a.fileName = some (.file node) ∧
    a.Verified digest (s'.data node)

/-- A call goes on, and has not returned `Ok`. -/
theorem Goes.of_enter {s₁ : State} (hsound : Sound a digest s₀ (s₁.enter r phase))
    (hsame : s₁.phase = s.phase) (hrank : phase.rank a < (s.phase r).rank a)
    (hphase : phase ≠ .done none) : Goes a digest s₀ r s (s₁.enter r phase) := by
  refine ⟨hsound, ⟨phase, by rw [State.enter, hsame], hrank⟩, fun hdone => absurd ?_ hphase⟩
  rw [← hdone]
  exact (Function.update_self r phase s₁.phase).symm

/-- A call that stands at `phase'` comes to `phase`. -/
theorem Sound.goes (h : Sound a digest s₀ s) (hp : s.phase r = phase')
    (hfits : Fits a digest s₀ s.names s.data phase) (hholds : phase.holds = phase'.holds)
    (hrank : phase.rank a < phase'.rank a) (hphase : phase ≠ .done none) :
    Goes a digest s₀ r s (s.enter r phase) := by
  subst hp
  exact .of_enter (h.enter hfits hholds) rfl hrank hphase

/-- The removal fails. -/
theorem Sound.fail (h : Sound a digest s₀ s) {next : Next}
    (hp : s.phase r = .removing next ∨ s.phase r = .unlinking next) (e : Error) :
    Goes a digest s₀ r s (s.enter r (next.fail e)) := by
  have hfits := h.fits r
  rcases hp with hp | hp
  all_goals
    rw [hp] at hfits
    cases next with
    | fetch =>
      exact h.goes hp trivial rfl (by simp only [Next.fail, Phase.rank]; omega) (by rintro ⟨⟩)
    | rename node temp =>
      exact h.goes hp hfits.1 rfl (by simp only [Next.fail, Phase.rank]; omega) (by rintro ⟨⟩)

variable {pid : ℕ → ℕ} {m : Move}

/-- The cached file is hashed: a call that returns here leaves it where it is. -/
theorem Sound.hashing (h : Sound a digest s₀ s)
    (hp : s.phase r = .hashing) (hgo : s.go a digest pid r m = some s') :
    Goes a digest s₀ r s s' := by
  have hfits := h.fits r
  unfold State.go at hgo
  rw [hp] at hgo hfits
  cases m with
  | ok =>
    obtain rfl := Option.some.inj hgo
    split
    · exact h.goes hp trivial rfl (by simp only [Phase.rank]; omega) (by rintro ⟨⟩)
    · rename_i content hread
      split
      · rename_i hverified
        refine ⟨h.enter trivial (by rw [hp]; rfl),
          ⟨_, rfl, by rw [hp]; simp only [Phase.rank]; omega⟩, fun _ => ?_⟩
        obtain hnone | ⟨node, hfile, hlength⟩ := hfits
        · rw [State.read, hnone] at hread
          cases hread
        · rw [State.read, hfile] at hread
          obtain rfl := Option.some.inj hread
          exact ⟨node, hfile, hlength, hverified⟩
      · exact h.goes hp trivial rfl (by simp only [Phase.rank]; omega) (by rintro ⟨⟩)
  | fault =>
    obtain rfl := Option.some.inj hgo
    exact h.goes hp trivial rfl (by simp only [Phase.rank]; omega) (by rintro ⟨⟩)
  | status | random | chunk | eof => cases hgo

/-- What has the name is looked at before it is removed. -/
theorem Sound.removing (h : Sound a digest s₀ s) {next : Next}
    (hp : s.phase r = .removing next) (hgo : s.go a digest pid r m = some s') :
    Goes a digest s₀ r s s' := by
  have hfits := h.fits r
  unfold State.go at hgo
  rw [hp] at hgo hfits
  cases m with
  | ok =>
    obtain rfl := Option.some.inj hgo
    split
    · cases next with
      | fetch =>
        exact h.goes hp trivial rfl (by simp only [Next.goOn, Phase.rank]; omega) (by rintro ⟨⟩)
      | rename node temp =>
        exact h.goes hp hfits rfl (by simp only [Next.goOn, Phase.rank]; omega) (by rintro ⟨⟩)
    · exact h.fail (.inl hp) _
    · cases next with
      | fetch => exact h.goes hp trivial rfl (by simp only [Phase.rank]; omega) (by rintro ⟨⟩)
      | rename node temp =>
        exact h.goes hp hfits rfl (by simp only [Phase.rank]; omega) (by rintro ⟨⟩)
  | fault =>
    obtain rfl := Option.some.inj hgo
    exact h.fail (.inl hp) _
  | status | random | chunk | eof => cases hgo

/-- The name is removed. -/
theorem Sound.unlinking (h : Sound a digest s₀ s) {next : Next}
    (hp : s.phase r = .unlinking next) (hgo : s.go a digest pid r m = some s') :
    Goes a digest s₀ r s s' := by
  unfold State.go at hgo
  rw [hp] at hgo
  cases m with
  | ok =>
    dsimp only at hgo
    split at hgo
    · obtain rfl := Option.some.inj hgo
      exact h.fail (.inr hp) _
    · obtain rfl := Option.some.inj hgo
      exact h.fail (.inr hp) _
    · obtain rfl := Option.some.inj hgo
      have hafter := h.unlinkFinal.fits r
      have hphase : (s.unlink a.fileName).phase r = .unlinking next := hp
      rw [hphase] at hafter
      cases next with
      | fetch =>
        refine .of_enter (h.unlinkFinal.enter trivial (by rw [hphase]; rfl)) rfl ?_ (by rintro ⟨⟩)
        rw [hp]
        simp only [Next.goOn, Phase.rank]
        omega
      | rename node temp =>
        refine .of_enter (h.unlinkFinal.enter hafter (by rw [hphase]; rfl)) rfl ?_ (by rintro ⟨⟩)
        rw [hp]
        simp only [Next.goOn, Phase.rank]
        omega
  | fault =>
    obtain rfl := Option.some.inj hgo
    exact h.fail (.inr hp) _
  | status | random | chunk | eof => cases hgo

/-- A temporary file is created, or its name is taken. -/
theorem Sound.creating (h : Sound a digest s₀ s) {attempts : ℕ}
    (hp : s.phase r = .creating attempts) (hgo : s.go a digest pid r m = some s') :
    Goes a digest s₀ r s s' := by
  unfold State.go at hgo
  rw [hp] at hgo
  cases m with
  | random n =>
    dsimp only at hgo
    split at hgo
    · obtain rfl := Option.some.inj hgo
      split
      · exact h.goes hp trivial rfl (by simp only [Phase.rank]; omega) (by rintro ⟨⟩)
      · exact h.goes hp trivial rfl (by simp only [Phase.rank]; omega) (by rintro ⟨⟩)
    · rename_i hfree
      obtain rfl := Option.some.inj hgo
      refine .of_enter (h.create (by rw [hp]; rfl) hfree (tempName_ne _ _ _))
        rfl ?_ (by rintro ⟨⟩)
      rw [hp]
      simp only [Phase.rank]
      omega
  | fault =>
    obtain rfl := Option.some.inj hgo
    exact h.goes hp trivial rfl (by simp only [Phase.rank]; omega) (by rintro ⟨⟩)
  | ok | status | chunk | eof => cases hgo

/-- The body is copied, and its length checked. -/
theorem Sound.copying (h : Sound a digest s₀ s) {written : ℕ}
    (hp : s.phase r = .copying node temp written) (hgo : s.go a digest pid r m = some s') :
    Goes a digest s₀ r s s' := by
  have hfits := h.fits r
  unfold State.go at hgo
  rw [hp] at hgo hfits
  cases m with
  | chunk bytes =>
    dsimp only at hgo
    split at hgo
    · rename_i hroom
      have hpos := List.length_pos_of_ne_nil hroom.1
      obtain rfl := Option.some.inj hgo
      refine .of_enter (h.write hp hroom.2) rfl ?_ (by rintro ⟨⟩)
      rw [hp]
      simp only [Phase.rank]
      omega
    · cases hgo
  | eof =>
    obtain rfl := Option.some.inj hgo
    split
    · exact h.goes hp hfits.1 rfl (by simp only [Phase.rank]; omega) (by rintro ⟨⟩)
    · rename_i hsize
      exact h.goes hp ⟨hfits.1, hfits.2.trans (not_not.mp hsize)⟩
        rfl (by simp only [Phase.rank]; omega) (by rintro ⟨⟩)
  | fault =>
    obtain rfl := Option.some.inj hgo
    exact h.goes hp hfits.1 rfl (by simp only [Phase.rank]; omega) (by rintro ⟨⟩)
  | ok | status | random => cases hgo

/-- The verified file gets the name. -/
theorem Sound.moving (h : Sound a digest s₀ s)
    (hp : s.phase r = .moving node temp) (hgo : s.go a digest pid r m = some s') :
    Goes a digest s₀ r s s' := by
  have hfits := h.fits r
  unfold State.go at hgo
  rw [hp] at hgo hfits
  have hfailed : ∀ e : Error, Goes a digest s₀ r s (s.enter r (.cleaning node temp e)) :=
    fun e => h.goes hp hfits.1 rfl (by simp only [Phase.rank]; omega) (by rintro ⟨⟩)
  cases m with
  | ok =>
    dsimp only at hgo
    split at hgo
    · obtain rfl := Option.some.inj hgo
      exact hfailed _
    · obtain rfl := Option.some.inj hgo
      exact hfailed _
    · rename_i entry hentry hfinal
      rw [hfits.1.named] at hentry
      obtain rfl := Option.some.inj hentry
      obtain rfl := Option.some.inj hgo
      refine ⟨h.rename hp, ⟨_, rfl, ?_⟩, fun _ => ⟨node, Function.update_self _ _ _, hfits.2⟩⟩
      rw [hp]
      simp only [Phase.rank]
      omega
  | fault =>
    obtain rfl := Option.some.inj hgo
    exact hfailed _
  | status | random | chunk | eof => cases hgo

theorem go_goes (h : Sound a digest s₀ s)
    (hgo : s.go a digest pid r m = some s') : Goes a digest s₀ r s s' := by
  have hfits := h.fits r
  unfold State.go at hgo
  cases hp : s.phase r with
  | cached =>
    rw [hp] at hgo
    cases m with
    | ok =>
      obtain rfl := Option.some.inj hgo
      split
      · exact h.goes hp trivial rfl (by simp only [Phase.rank]; omega) (by rintro ⟨⟩)
      · rename_i node hfile
        split
        · rename_i hlength
          exact h.goes hp (.inr ⟨node, hfile, hlength⟩) rfl (by simp only [Phase.rank]; omega)
            (by rintro ⟨⟩)
        · exact h.goes hp trivial rfl (by simp only [Phase.rank]; omega) (by rintro ⟨⟩)
      · exact h.goes hp trivial rfl (by simp only [Phase.rank]; omega) (by rintro ⟨⟩)
      · exact h.goes hp trivial rfl (by simp only [Phase.rank]; omega) (by rintro ⟨⟩)
    | fault =>
      obtain rfl := Option.some.inj hgo
      exact h.goes hp trivial rfl (by simp only [Phase.rank]; omega) (by rintro ⟨⟩)
    | status | random | chunk | eof => cases hgo
  | hashing => exact h.hashing hp hgo
  | removing next => exact h.removing hp hgo
  | unlinking next => exact h.unlinking hp hgo
  | fetching =>
    rw [hp] at hgo
    cases m with
    | ok =>
      obtain rfl := Option.some.inj hgo
      exact h.goes hp trivial rfl (by simp only [Phase.rank, updateFileCreateAttempts]; omega)
        (by rintro ⟨⟩)
    | status | fault =>
      obtain rfl := Option.some.inj hgo
      exact h.goes hp trivial rfl (by simp only [Phase.rank]; omega) (by rintro ⟨⟩)
    | random | chunk | eof => cases hgo
  | creating attempts => exact h.creating hp hgo
  | copying node temp written => exact h.copying hp hgo
  | verifying node temp =>
    rw [hp] at hgo hfits
    cases m with
    | ok =>
      obtain rfl := Option.some.inj hgo
      split
      · rename_i hverified
        exact h.goes hp ⟨hfits.1, hfits.2, hverified⟩ rfl (by simp only [Phase.rank]; omega)
          (by rintro ⟨⟩)
      · exact h.goes hp hfits.1 rfl (by simp only [Phase.rank]; omega) (by rintro ⟨⟩)
    | fault =>
      obtain rfl := Option.some.inj hgo
      exact h.goes hp hfits.1 rfl (by simp only [Phase.rank]; omega) (by rintro ⟨⟩)
    | status | random | chunk | eof => cases hgo
  | moving node temp => exact h.moving hp hgo
  | cleaning node temp e =>
    rw [hp] at hgo
    have hholds : (s.phase r).holds = some (temp, node) := by rw [hp, Phase.holds]
    have hrank : (Phase.done (some e)).rank a < (s.phase r).rank a := by
      rw [hp]
      simp only [Phase.rank]
      omega
    cases m with
    | ok =>
      obtain rfl := Option.some.inj hgo
      exact .of_enter (h.discard hholds e) rfl hrank (by rintro ⟨⟩)
    | fault =>
      obtain rfl := Option.some.inj hgo
      exact .of_enter (h.abandon hholds e) rfl hrank (by rintro ⟨⟩)
    | status | random | chunk | eof => cases hgo
  | done result =>
    rw [hp] at hgo
    cases m <;> cases hgo

theorem exec_sound {acts : List (ℕ × Move)} (hstart : Fresh s₀)
    (h : exec (step a digest pid) s₀ acts = some s) : Sound a digest s₀ s :=
  exec_invariant (fun _ _ _ hsound hstep => (go_goes hsound hstep).sound) hstart.sound h

/-! ## A download that stops and another one -/

/-- The three bytes `abc`, whose SHA-256 this is. -/
def abc : Artifact where
  fileName := ['u']
  expectedSize := 3
  expectedSha256 :=
    ['b', 'a', '7', '8', '1', '6', 'b', 'f', '8', 'f', '0', '1', 'c', 'f', 'e', 'a', '4', '1', '4',
      '1', '4', '0', 'd', 'e',
      '5', 'd', 'a', 'e', '2', '2', '2', '3', 'b', '0', '0', '3', '6', '1', 'a', '3', '9', '6', '1',
        '7', '7', 'a', '9', 'c',
      'b', '4', '1', '0', 'f', 'f', '6', '1', 'f', '2', '0', '0', '1', '5', 'a', 'd']

/-- SHA-256 of these bytes. -/
def digestAbc (content : Bytes) : List Char :=
  if content = [97, 98, 99] then abc.expectedSha256 else []

/-- A file of the wrong length stands where the artifact belongs. -/
def before : State where
  names name := if name = ['u'] then some (.file 0) else none
  data node := if node = 0 then [1] else []
  nextNode := 1
  phase _ := .cached
  stale := []

theorem before_fresh : Fresh before := by
  refine ⟨?_, fun _ => rfl, ?_⟩
  · intro name node hname
    rw [before] at hname
    dsimp only at hname
    split at hname
    · cases hname
      exact Nat.one_pos
    · cases hname
  · intro node hnode
    exact if_neg (Nat.ne_of_gt hnode)

/-- The first call removes the old file and stops in the middle of the download; the second draws
its number and another one. -/
def twice : List (ℕ × Move) :=
  [(0, .ok), (0, .ok), (0, .ok), (0, .ok), (0, .random 5), (0, .chunk [97]), (1, .ok), (1, .ok),
    (1, .random 5), (1, .random 6),
    (1, .chunk [97, 98]), (1, .chunk [99]), (1, .eof), (1, .ok), (1, .ok)]

/-! ## Every run -/

/-- **However the calls are interleaved, and wherever they stop**: what has the name of the artifact
is what had it at the beginning, or it is verified. Nothing else that was there has changed. What
was not is the file of a call that is not over, or could not be removed, and none of it is longer
than one byte more than the artifact. -/
theorem artifact_safe {pid : ℕ → ℕ} {acts : List (ℕ × Move)} (hstart : Fresh s₀)
    (h : exec (step a digest pid) s₀ acts = some s) :
    (s.names a.fileName = s₀.names a.fileName ∨ s.names a.fileName = none ∨
      ∃ node, s.names a.fileName = some (.file node) ∧ a.Verified digest (s.data node)) ∧
    (∀ name e, name ≠ a.fileName → s₀.names name = some e → s.names name = some e) ∧
    (∀ node, node < s₀.nextNode → s.data node = s₀.data node) ∧
    (∀ name, name ≠ a.fileName → s₀.names name = none → s.names name ≠ none →
      (∃ r node, (s.phase r).holds = some (name, node)) ∨ name ∈ s.stale) ∧
    ∀ node, s₀.nextNode ≤ node → (s.data node).length ≤ a.limit := by
  have hsound := exec_sound hstart h
  exact ⟨hsound.final, hsound.kept, hsound.old, hsound.added, hsound.small⟩

theorem artifact_safe_twice :
    ∃ s, exec (step abc digestAbc fun _ => 7) before twice = some s ∧ s.names ['u'] = none ∧
    ∀ node, 1 ≤ node → (s.data node).length ≤ abc.limit := by
  have hrun : exec (step abc digestAbc fun _ => 7) before twice = some _ := rfl
  obtain ⟨-, -, -, -, hsmall⟩ := artifact_safe before_fresh hrun
  exact ⟨_, hrun, rfl, hsmall⟩

/-- **A call that returns `Ok`** leaves a verified file with its last operation on the name,
whatever the other calls are doing. -/
theorem artifact_verified {pid : ℕ → ℕ} {acts : List (ℕ × Move)} {m : Move} (hstart : Fresh s₀)
    (h : exec (step a digest pid) s₀ acts = some s) (hstep : step a digest pid s (r, m) = some s')
    (hdone : s'.phase r = .done none) :
    ∃ node, s'.names a.fileName = some (.file node) ∧ a.Verified digest (s'.data node) :=
  (go_goes (exec_sound hstart h) hstep).verified hdone

theorem artifact_verified_twice :
    ∃ s s', exec (step abc digestAbc fun _ => 7) before twice = some s ∧
    step abc digestAbc (fun _ => 7) s (1, .ok) = some s' ∧
    ∃ node, s'.names ['u'] = some (.file node) ∧ abc.Verified digestAbc (s'.data node) := by
  have hphase : (exec (step abc digestAbc fun _ => 7) before (twice ++ [(1, .ok)])).map
      (fun s => s.phase 1) = some (.done none) := rfl
  obtain ⟨s', hall, hdone⟩ := Option.map_eq_some_iff.mp hphase
  obtain ⟨s, hrun, hlast⟩ := exec_append.mp hall
  obtain ⟨s'', hstep, hend⟩ := exec_cons.mp hlast
  obtain rfl := Option.some.inj hend
  exact ⟨s, s'', hrun, hstep, artifact_verified before_fresh hrun hstep hdone⟩

/-- A call that has not returned has an operation that may end without a fault. -/
theorem go_enabled (a : Artifact) (digest : Bytes → List Char) (pid : ℕ → ℕ) (s : State) (r : ℕ) :
    (∃ result, s.phase r = .done result) ∨ ∃ m, m ≠ .fault ∧
      (s.go a digest pid r m).isSome = true := by
  unfold State.go
  cases s.phase r with
  | done result => exact .inl ⟨result, rfl⟩
  | cached | hashing | removing | fetching | verifying | cleaning =>
    exact .inr ⟨.ok, by rintro ⟨⟩, rfl⟩
  | copying => exact .inr ⟨.eof, by rintro ⟨⟩, rfl⟩
  | unlinking next | moving node temp =>
    refine .inr ⟨.ok, by rintro ⟨⟩, ?_⟩
    dsimp only
    split <;> rfl
  | creating attempts =>
    refine .inr ⟨.random 0, by rintro ⟨⟩, ?_⟩
    dsimp only
    split <;> rfl

/-- **Every call returns**: whatever the server sends and whatever fails, it takes no more steps
than the artifact has bytes, and some thirty, and until it has returned there is one it can take. -/
theorem artifact_returns {pid : ℕ → ℕ} {acts : List (ℕ × Move)} (hstart : Fresh s₀)
    (h : exec (step a digest pid) s₀ acts = some s) (r : ℕ) :
    acts.countP (fun act => act.1 == r) ≤ a.limit + 28 ∧
      ((∃ result, s.phase r = .done result) ∨ ∃ m s', m ≠ .fault ∧
        step a digest pid s (r, m) = some s') := by
  have hcount : acts.countP (fun act => act.1 == r) + (s.phase r).rank a ≤ a.limit + 29 := by
    have hzero : ([] : List (ℕ × Move)).countP (fun act => act.1 == r) + (s₀.phase r).rank a ≤
        a.limit + 29 := by
      rw [hstart.phase r, List.countP_nil, Nat.zero_add]
      exact Nat.le_refl _
    refine (exec_invariant_history (I := fun hist s => Sound a digest s₀ s ∧
      hist.countP (fun act => act.1 == r) + (s.phase r).rank a ≤ a.limit + 29)
        ?_ ⟨hstart.sound, hzero⟩ h).2
    rintro hist s ⟨r', m⟩ s' ⟨hsound, hle⟩ hstep
    have hgoes := go_goes hsound hstep
    obtain ⟨phase, hphase, hrank⟩ := hgoes.nearer
    have hrank : phase.rank a < (s.phase r').rank a := hrank
    refine ⟨hgoes.sound, ?_⟩
    rw [List.countP_append, hphase]
    by_cases hr : r' = r
    · subst hr
      rw [Function.update_self, List.countP_singleton, if_pos (beq_self_eq_true _)]
      omega
    · rw [Function.update_of_ne (Ne.symm hr), List.countP_singleton, if_neg (by simpa using hr)]
      exact hle
  constructor
  · have hpos : 0 < (s.phase r).rank a := by
      cases s.phase r with
      | removing next | unlinking next => cases next <;> simp [Phase.rank]
      | _ => simp [Phase.rank]
    omega
  · obtain hdone | ⟨m, hm, hsome⟩ := go_enabled a digest pid s r
    · exact .inl hdone
    · obtain ⟨s', hs'⟩ := Option.isSome_iff_exists.mp hsome
      exact .inr ⟨m, s', hm, hs'⟩

theorem artifact_returns_twice : ∃ s, exec (step abc digestAbc fun _ => 7) before twice = some s ∧
    (twice.countP fun act => act.1 == 1) ≤ abc.limit + 28 := by
  have hrun : exec (step abc digestAbc fun _ => 7) before twice = some _ := rfl
  exact ⟨_, hrun, (artifact_returns before_fresh hrun 1).1⟩

end Lemmas

end UpdateArtifact
end BgDesk
