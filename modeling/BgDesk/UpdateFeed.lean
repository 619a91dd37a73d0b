import BgDesk.Json

/-!
# The update feed

`verify_latest_feed_with_keys` in `update_metadata.rs`, with `update_metadata/artifact.rs` and
`update_source.rs`. The feed is one signed document. The signature is for the canonical text of what
was read, not for the bytes that came, and the metadata are taken from the same value.

What comes from libraries is in `Library`: the reader of JSON, base64, the signatures and the parser
of URLs. It reads a file as a document, whose objects have the members in the order of the file; the
maps of `serde_json` are then sorted by name and keep the last of the members of one name.

* `verifyLatestFeedWithKeys` — the checks, in their order;
* `WellFormed` — what is asked of accepted metadata;
* `feed_authentic` — what acceptance says; `feed_reordered` is about members of the same name.
-/

namespace BgDesk
namespace Update

abbrev Bytes : Type := List UInt8

/-- What stops a check: a message, or the error of a library that is passed on. -/
inductive Error where
  | message : String → Error
  | library : Error
  deriving DecidableEq

/-- Return an error if something is wrong. -/
def bailIf (wrong : Bool) (error : Error) : Except Error Unit :=
  if wrong then .error error else .ok ()

/-- `ok_or_else`, or `context`. -/
def okOr {α : Type} (error : Error) : Option α → Except Error α
  | none => .error error
  | some a => .ok a

/-- What is fixed when the program is built. -/
structure Build where
  origin : String
  incomingOnly : Bool
  deriving DecidableEq

def Build.packageId (build : Build) : String :=
  if build.incomingOnly then "bgdesk-cliente" else "bgdesk-suporte"

def Build.edition (build : Build) : String := if build.incomingOnly then "cliente" else "suporte"

/-- What the code looks at in a parsed URL. -/
structure Url where
  query : Bool
  fragment : Bool
  lastSegment : Option String
  deriving DecidableEq

/-- What the code uses of libraries. -/
structure Library (ν : Type) where
  numerals : Numerals ν
  asU64 : ν → Option ℕ
  fromSlice : Bytes → Option (Json ν)
  decodeBase64 : String → Option Bytes
  encodeBase64 : Bytes → String
  signatureFromBytes : Bytes → Option Bytes
  sodiumInit : Bool
  verifyDetached : (signature message key : Bytes) → Bool
  parseUrl : String → Option Url

/-! ## Versions and names -/

/-- `split_once`. -/
def splitOnce (c : Char) (s : List Char) : Option (List Char × List Char) :=
  if c ∈ s then some (s.takeWhile (· ≠ c), (s.dropWhile (· ≠ c)).tail) else none

/-- `rsplit_once`. -/
def rsplitOnce (c : Char) (s : List Char) : Option (List Char × List Char) :=
  (splitOnce c s.reverse).map fun p => (p.2.reverse, p.1.reverse)

def stripPrefix (p s : List Char) : Option (List Char) :=
  if p.isPrefixOf s then some (s.drop p.length) else none

/-- A part of a version: digits without a zero before them, as a `u16`. -/
def versionPart (version : String) (value : List Char) : Except Error ℕ := do
  bailIf (value.isEmpty || !value.all Char.isDigit || decide (1 < value.length) && value.head? =
    some '0')
    (.message ("Invalid BGDesk version: " ++ version))
  let n := value.foldl (fun n c => 10 * n + (c.toNat - '0'.toNat)) 0
  if n < 2 ^ 16 then .ok n else .error .library

/-- The parts of a version. -/
def versionParts (version : String) : List (List Char) → Except Error (List ℕ)
  | [] => .ok []
  | value :: values => do
    let n ← versionPart version value
    let ns ← versionParts version values
    .ok (n :: ns)

def parseUpdateVersion (version : String) : Except Error (List ℕ) := do
  let (base, revision) := (splitOnce '-' version.toList).getD (version.toList, ['0'])
  let parts := base.splitOn '.'
  bailIf (parts.length ≠ 3) (.message ("Invalid BGDesk version: " ++ version))
  let result ← versionParts version (parts ++ [revision])
  bailIf (result.take 3 = [0, 0, 0] || version.toList.contains '-' && result.getD 3 0 = 0)
    (.message ("Invalid BGDesk version: " ++ version))
  .ok result

def displayVersionFromReleaseId (releaseId : String) : Except Error String := do
  let version := String.ofList ((stripPrefix ['v'] releaseId.toList).getD releaseId.toList)
  let _ ← parseUpdateVersion version
  .ok version

/-- A name that is safe as the last part of a path. -/
def safeFileName (fileName : List Char) : Bool :=
  !(fileName.isEmpty || fileName = ['.'] || fileName = ['.', '.']
    || !fileName.all fun c => c.isAlphanum || c = '.' || c = '_' || c = '-')

section Source

variable (build : Build)

def releaseUrl (releaseId : String) : String :=
  build.origin ++ "/updates/" ++ build.edition ++ "/" ++ releaseId

def releaseIdFromUpdateUrl (updateUrl : List Char) : Except Error String := do
  let start := (build.origin ++ "/updates/" ++ build.edition ++ "/").toList
  let releaseId ← okOr (.message ("Update URL is not a BGDesk " ++ build.edition ++ " release URL"))
    (stripPrefix start updateUrl)
  let releaseId := if releaseId.getLast? = some '/' then releaseId.dropLast else releaseId
  let _ ← displayVersionFromReleaseId (String.ofList releaseId)
  .ok (String.ofList releaseId)

def downloadFileName (downloadUrl : String) : Option String := do
  let (release, fileName) ← rsplitOnce '/' downloadUrl.toList
  if !safeFileName fileName then none
  else if release = build.origin.toList && ("bgdesk-" ++ build.edition ++ "-").toList.isPrefixOf
    fileName then
    some (String.ofList fileName)
  else
    let releaseId ← (releaseIdFromUpdateUrl build release).toOption
    if downloadUrl = releaseUrl build releaseId ++ "/" ++
      String.ofList fileName then some (String.ofList fileName) else none

end Source

/-! ## Metadata -/

structure UpdateArtifact where
  platform : String
  arch : String
  format : String
  url : String
  fileName : String
  size : ℕ
  sha256 : String
  deriving DecidableEq

structure UpdateMetadata where
  schemaVersion : ℕ
  app : String
  packageId : String
  version : String
  releaseId : String
  publishedAt : String
  signatureKeyId : String
  artifacts : List UpdateArtifact
  deriving DecidableEq

structure UpdateSignature where
  schemaVersion : ℕ
  algorithm : String
  keyId : String
  signature : String
  deriving DecidableEq

structure TrustedUpdateKey where
  keyId : String
  algorithm : String
  publicKey : Bytes
  deriving DecidableEq

/-- A feed that was accepted. -/
structure VerifiedUpdateFeed where
  metadata : UpdateMetadata
  signedBytes : Bytes
  deriving DecidableEq

section Verify

variable {ν : Type} (library : Library ν) (build : Build)

/-- The fields of a structure: by their names from an object, whose other members are ignored, or by
their places from an array. -/
def structFields (names : List String) : Json ν → Option (List (Json ν))
  | .object ms => names.mapM fun name => ms.lookup name
  | .array vs => if vs.length = names.length then some vs else none
  | .null | .bool _ | .number _ | .string _ => none

def stringField : Json ν → Option String
  | .string s => some s
  | .null | .bool _ | .number _ | .array _ | .object _ => none

/-- A number below `2 ^ width`. -/
def uintField (width : ℕ) : Json ν → Option ℕ
  | .number n => (library.asU64 n).filter (· < 2 ^ width)
  | .null | .bool _ | .string _ | .array _ | .object _ => none

def artifactFromValue (v : Json ν) : Option UpdateArtifact := do
  match ← structFields ["platform", "arch", "format", "url", "file_name", "size", "sha256"] v with
  | [platform, arch, format, url, fileName, size, sha256] =>
    some ⟨← stringField platform, ← stringField arch, ← stringField format, ← stringField url,
      ← stringField fileName,
      ← uintField library 64 size, ← stringField sha256⟩
  | _ => none

def metadataFromValue (v : Json ν) : Option UpdateMetadata := do
  match ← structFields ["schema_version", "app", "package_id", "version", "release_id",
    "published_at", "signature_key_id", "artifacts"] v with
  | [schemaVersion, app, packageId, version, releaseId, publishedAt, signatureKeyId,
      .array artifacts] =>
    some ⟨← uintField library 32 schemaVersion, ← stringField app, ← stringField packageId,
      ← stringField version,
      ← stringField releaseId, ← stringField publishedAt, ← stringField signatureKeyId,
      ← artifacts.mapM (artifactFromValue library)⟩
  | _ => none

def signatureFromValue (v : Json ν) : Option UpdateSignature := do
  match ← structFields ["schema_version", "algorithm", "key_id", "signature"] v with
  | [schemaVersion, algorithm, keyId, signature] =>
    some ⟨← uintField library 32 schemaVersion, ← stringField algorithm, ← stringField keyId,
      ← stringField signature⟩
  | _ => none

/-- `canonical_latest_json`: the objects are collected into sorted maps on all levels. -/
def canonicalLatestJson (v : Json ν) : Bytes :=
  (v.canonical library.numerals).flatMap String.utf8EncodeChar

def validateSignatureSchema (signature : UpdateSignature) : Except Error Unit := do
  bailIf (signature.schemaVersion ≠ 1) (.message "unsupported update signature schema version")
  bailIf (signature.algorithm ≠ "ed25519") (.message "unsupported update signature algorithm")

def decodeSignature (encoded : String) : Except Error Bytes := do
  let decoded ← okOr (.message "invalid update signature base64") (library.decodeBase64 encoded)
  bailIf (decoded.length ≠ 64 || library.encodeBase64 decoded ≠ encoded)
    (.message "invalid update signature length or encoding")
  okOr (.message "invalid update signature bytes") (library.signatureFromBytes decoded)

/-- `UPDATE_METADATA_SIGNATURE_CONTEXT`. -/
def signatureContext : Bytes := "RustDesk update metadata v1\n".toList.flatMap String.utf8EncodeChar

def verifyMetadataSignature (metadataBytes signature : Bytes) (trustedKey : TrustedUpdateKey) :
    Except Error Unit := do
  bailIf (!library.sodiumInit) (.message "failed to initialize sodiumoxide")
  bailIf (!library.verifyDetached signature (signatureContext ++ metadataBytes)
    trustedKey.publicKey)
    (.message "invalid update metadata signature")

def validateArtifactFileName (fileName : String) : Except Error Unit :=
  bailIf (!safeFileName fileName.toList) (.message "invalid update artifact file name")

def isSha256Hex (value : String) : Bool :=
  value.utf8ByteSize = 64 && value.toList.all fun c =>
    c.isDigit || decide ('a' ≤ c) && decide (c ≤ 'f') || decide ('A' ≤ c) && decide (c ≤ 'F')

/-- `validate_artifact`, for URLs that are a prefix and the name of the file. -/
def validateArtifact (artifact : UpdateArtifact) (exactPrefix : String) : Except Error Unit := do
  validateArtifactFileName artifact.fileName
  bailIf (!isSha256Hex artifact.sha256) (.message "invalid update artifact sha256")
  let parsedUrl ← okOr (.message "invalid update artifact URL") (library.parseUrl artifact.url)
  bailIf (parsedUrl.query || parsedUrl.fragment)
    (.message "update artifact URL must not contain query or fragment")
  bailIf (artifact.url ≠ exactPrefix ++ artifact.fileName)
    (.message "update artifact URL is outside expected release prefix")
  let basename ← okOr (.message "update artifact URL has no basename") parsedUrl.lastSegment
  bailIf (basename ≠ artifact.fileName) (.message "update artifact URL basename mismatch")

/-- The names of all files. -/
def validateFileNames : List UpdateArtifact → Except Error Unit
  | [] => .ok ()
  | artifact :: artifacts => do
    validateArtifactFileName artifact.fileName
    validateFileNames artifacts

def validateMetadata (metadata : UpdateMetadata) (signature : UpdateSignature)
    (expectedVersion expectedReleaseId expectedPackageId : String) : Except Error Unit := do
  bailIf (metadata.schemaVersion ≠ 1) (.message "unsupported update metadata schema version")
  bailIf (metadata.signatureKeyId ≠ signature.keyId)
    (.message "update metadata signature key id mismatch")
  bailIf (metadata.app ≠ "rustdesk") (.message "update metadata app mismatch")
  bailIf (metadata.packageId ≠ expectedPackageId)
    (.message "update metadata package id is not allowed")
  bailIf (expectedVersion ≠ metadata.version) (.message "update metadata version mismatch")
  bailIf (expectedReleaseId ≠ metadata.releaseId) (.message "update metadata release id mismatch")
  validateFileNames metadata.artifacts

/-- What an artifact is selected by. -/
def UpdateArtifact.selector (artifact : UpdateArtifact) : String × String × String :=
  (artifact.platform, artifact.arch, artifact.format)

/-- The loop over the artifacts, with the selectors and the names it has met. -/
def validateArtifacts :
    List (String × String × String) → List String → List UpdateArtifact → Except Error Unit
  | _, _, [] => .ok ()
  | selectors, names, artifact :: artifacts => do
    validateArtifact library artifact (build.origin ++ "/")
    bailIf (artifact.size = 0 || downloadFileName build artifact.url ≠ some artifact.fileName
      || selectors.contains artifact.selector || names.contains artifact.fileName)
      (.message "invalid or duplicate latest update artifact")
    validateArtifacts (artifact.selector :: selectors) (artifact.fileName :: names) artifacts

/-- The value without its signature, and the signature. -/
def removeSignature : Json ν → Option (Json ν × Json ν)
  | .object ms =>
    (ms.lookup "signature").map fun signature =>
      (.object (ms.filter (·.1 ≠ "signature")), signature)
  | .null | .bool _ | .number _ | .string _ | .array _ => none

/-- `verify_latest_feed_with_keys`. -/
def verifyLatestFeedWithKeys (bytes : Bytes) (keys : List TrustedUpdateKey) :
    Except Error VerifiedUpdateFeed := do
  let file ← okOr (.message "invalid latest.json") (library.fromSlice bytes)
  let (document, signature) ← okOr (.message "latest.json is missing its signature")
    (removeSignature file.sorted)
  let signature ← okOr (.message "invalid latest signature") (signatureFromValue library signature)
  validateSignatureSchema signature
  let key ← okOr (.message "unsupported update signature key")
    (keys.find? fun key => key.keyId = signature.keyId && key.algorithm = signature.algorithm)
  let decoded ← decodeSignature library signature.signature
  verifyMetadataSignature library (canonicalLatestJson library document) decoded key
  let metadata ← okOr .library (metadataFromValue library document)
  let _ ← parseUpdateVersion metadata.version
  let display ← displayVersionFromReleaseId metadata.releaseId
  bailIf (display ≠ metadata.version) (.message "update metadata release id mismatch")
  validateMetadata metadata signature metadata.version metadata.releaseId build.packageId
  bailIf metadata.artifacts.isEmpty (.message "latest.json contains no update artifacts")
  validateArtifacts library build [] [] metadata.artifacts
  .ok ⟨metadata, bytes⟩

end Verify

/-! ## What is asked of an accepted feed -/

/-- The metadata of an accepted feed. -/
structure WellFormed (build : Build) (metadata : UpdateMetadata) : Prop where
  schemaVersion : metadata.schemaVersion = 1
  app : metadata.app = "rustdesk"
  packageId : metadata.packageId = build.packageId
  version : ∃ parts, parseUpdateVersion metadata.version = .ok parts
  release : displayVersionFromReleaseId metadata.releaseId = .ok metadata.version
  artifacts : metadata.artifacts ≠ []
  selectors : (metadata.artifacts.map UpdateArtifact.selector).Nodup
  fileNames : (metadata.artifacts.map UpdateArtifact.fileName).Nodup
  safe : ∀ artifact ∈ metadata.artifacts, safeFileName artifact.fileName.toList = true
  urls : ∀ artifact ∈ metadata.artifacts, artifact.url = build.origin ++ "/" ++ artifact.fileName ∧
    downloadFileName build artifact.url = some artifact.fileName
  contents : ∀ artifact ∈ metadata.artifacts, 0 < artifact.size ∧ isSha256Hex artifact.sha256 = true

/-! ## Results -/

theorem bind_eq_ok {α β : Type} {x : Except Error α} {f : α → Except Error β} {b : β} :
    (x >>= f) = .ok b ↔ ∃ a, x = .ok a ∧ f a = .ok b := by
  cases x <;> simp [bind, Except.bind]

theorem bailIf_eq_ok {wrong : Bool} {e : Error} {u : Unit} :
    bailIf wrong e = .ok u ↔ wrong = false := by
  cases wrong <;> simp [bailIf]

theorem okOr_eq_ok {α : Type} {e : Error} {o : Option α} {a : α} :
    okOr e o = .ok a ↔ o = some a := by
  cases o <;> simp [okOr]

theorem utf8_injective : Function.Injective (List.flatMap String.utf8EncodeChar) := by
  intro cs ds h
  refine String.ofList_injective (String.toByteArray_inj.mp ?_)
  rw [String.toByteArray_ofList, String.toByteArray_ofList, List.utf8Encode, List.utf8Encode, h]

section Verify

variable {ν : Type} {library : Library ν} {build : Build}

/-- What `canonical_latest_json` gives for two values. -/
theorem canonicalLatestJson_eq_iff {v w : Json ν} (hv : v.Distinct) (hw : w.Distinct) :
    canonicalLatestJson library v = canonicalLatestJson library w ↔
      Json.Rearranged List.Perm v w := by
  rw [← Json.canonical_eq_iff library.numerals hv hw, canonicalLatestJson, canonicalLatestJson]
  exact ⟨fun h => utf8_injective h, fun h => by rw [h]⟩

/-- All checks were passed. -/
theorem verify_eq_ok {bytes : Bytes} {keys : List TrustedUpdateKey} {feed : VerifiedUpdateFeed} :
    verifyLatestFeedWithKeys library build bytes keys = .ok feed ↔
      ∃ file document value signature key decoded parts,
        library.fromSlice bytes = some file ∧ removeSignature file.sorted = some (document, value) ∧
        signatureFromValue library value = some signature ∧
          validateSignatureSchema signature = .ok () ∧
        (keys.find? fun key => key.keyId = signature.keyId && key.algorithm = signature.algorithm) =
          some key ∧
        decodeSignature library signature.signature = .ok decoded ∧
        verifyMetadataSignature library (canonicalLatestJson library document)
          decoded key = .ok () ∧
        metadataFromValue library document = some feed.metadata ∧
        parseUpdateVersion feed.metadata.version = .ok parts ∧
        displayVersionFromReleaseId feed.metadata.releaseId = .ok feed.metadata.version ∧
        validateMetadata feed.metadata signature feed.metadata.version feed.metadata.releaseId
          build.packageId = .ok () ∧
        feed.metadata.artifacts ≠ [] ∧ validateArtifacts library build [] []
          feed.metadata.artifacts = .ok () ∧
        feed.signedBytes = bytes := by
  obtain ⟨metadata, signed⟩ := feed
  simp only [verifyLatestFeedWithKeys, bind_eq_ok, okOr_eq_ok, bailIf_eq_ok, Prod.exists]
  constructor
  · rintro ⟨file, hfile, document, value, hremove, signature, hsignature, _, hschema, key, hkey,
      decoded, hdecoded, _,
      hverify, metadata', hmetadata, parts, hparts, display, hdisplay, _, hrelease, _, hvalid, _,
        hne, _, hartifacts, hfeed⟩
    obtain ⟨rfl, rfl⟩ := VerifiedUpdateFeed.mk.inj (Except.ok.inj hfeed)
    have hdisplay' : display = metadata'.version := by simpa using hrelease
    have hne' : metadata'.artifacts ≠ [] := by simpa using hne
    exact ⟨file, document, value, signature, key, decoded, parts, hfile, hremove, hsignature,
      hschema, hkey, hdecoded,
      hverify, hmetadata, hparts, hdisplay' ▸ hdisplay, hvalid, hne', hartifacts, rfl⟩
  · rintro ⟨file, document, value, signature, key, decoded, parts, hfile, hremove, hsignature,
      hschema, hkey, hdecoded,
      hverify, hmetadata, hparts, hdisplay, hvalid, hne, hartifacts, rfl⟩
    exact ⟨file, hfile, document, value, hremove, signature, hsignature, (), hschema, key, hkey,
      decoded, hdecoded, (),
      hverify, metadata, hmetadata, parts, hparts, _, hdisplay, (), by
        simp, (), hvalid, (), by simpa using hne, (),
      hartifacts, rfl⟩

/-- What the validation of a feed accepts. -/
theorem validateMetadata_eq_ok {metadata : UpdateMetadata} {signature : UpdateSignature}
    {version releaseId packageId : String}
    (h : validateMetadata metadata signature version releaseId packageId = .ok ()) :
    metadata.schemaVersion = 1 ∧ metadata.signatureKeyId = signature.keyId ∧
      metadata.app = "rustdesk" ∧
      metadata.packageId = packageId := by
  simp only [validateMetadata, bind_eq_ok, bailIf_eq_ok, decide_eq_false_iff_not, ne_eq,
    not_not] at h
  obtain ⟨_, hschema, _, hkey, _, happ, _, hpackage, -⟩ := h
  exact ⟨hschema, hkey, happ, hpackage⟩

/-- What that of an artifact accepts. -/
theorem validateArtifact_eq_ok {artifact : UpdateArtifact} {exactPrefix : String}
    (h : validateArtifact library artifact exactPrefix = .ok ()) :
    safeFileName artifact.fileName.toList = true ∧ isSha256Hex artifact.sha256 = true ∧
      artifact.url = exactPrefix ++ artifact.fileName := by
  simp only [validateArtifact, validateArtifactFileName, bind_eq_ok, bailIf_eq_ok, okOr_eq_ok,
    decide_eq_false_iff_not,
    ne_eq, not_not, Bool.not_eq_false'] at h
  obtain ⟨_, hsafe, _, hsha, _, _, _, _, _, hurl, -⟩ := h
  exact ⟨hsafe, hsha, hurl⟩

/-- What the loop over the artifacts finds out: each artifact is as it should be, and none repeats
what came before. -/
theorem validateArtifacts_eq_ok {artifacts : List UpdateArtifact}
    {selectors : List (String × String × String)} {names : List String}
    (h : validateArtifacts library build selectors names artifacts = .ok ()) :
    ((artifacts.map UpdateArtifact.selector).Nodup ∧ ∀ a ∈ artifacts, a.selector ∉ selectors) ∧
    ((artifacts.map UpdateArtifact.fileName).Nodup ∧ ∀ a ∈ artifacts, a.fileName ∉ names) ∧
    ∀ a ∈ artifacts, validateArtifact library a (build.origin ++ "/") = .ok () ∧ 0 < a.size ∧
      downloadFileName build a.url = some a.fileName := by
  induction artifacts generalizing selectors names with
  | nil => simp
  | cons artifact artifacts ih =>
    simp only [validateArtifacts, bind_eq_ok, bailIf_eq_ok, Bool.or_eq_false_iff,
      decide_eq_false_iff_not, ne_eq, not_not,
      List.contains_eq_mem] at h
    obtain ⟨_, hvalid, _, ⟨⟨⟨hsize, hdownload⟩, hselector⟩, hname⟩, hrest⟩ := h
    obtain ⟨⟨hselectors, hnew⟩, ⟨hnames, hnewName⟩, hall⟩ := ih hrest
    refine ⟨⟨?_, ?_⟩, ⟨?_, ?_⟩, ?_⟩
    · refine List.nodup_cons.mpr ⟨fun hmem => ?_, hselectors⟩
      obtain ⟨a, ha, heq⟩ := List.mem_map.mp hmem
      exact hnew a ha (heq ▸ List.mem_cons_self)
    · refine List.forall_mem_cons.mpr ⟨hselector, fun a ha hmem => ?_⟩
      exact hnew a ha (List.mem_cons_of_mem _ hmem)
    · refine List.nodup_cons.mpr ⟨fun hmem => ?_, hnames⟩
      obtain ⟨a, ha, heq⟩ := List.mem_map.mp hmem
      exact hnewName a ha (heq ▸ List.mem_cons_self)
    · refine List.forall_mem_cons.mpr ⟨hname, fun a ha hmem => ?_⟩
      exact hnewName a ha (List.mem_cons_of_mem _ hmem)
    · exact List.forall_mem_cons.mpr ⟨⟨hvalid, Nat.pos_of_ne_zero hsize, hdownload⟩, hall⟩

theorem verify_wellFormed {bytes : Bytes} {keys : List TrustedUpdateKey} {feed : VerifiedUpdateFeed}
    (h : verifyLatestFeedWithKeys library build bytes keys = .ok feed) :
    WellFormed build feed.metadata := by
  obtain ⟨_, _, _, _, _, _, parts, _, _, _, _, _, _, _, _, hparts, hdisplay, hvalid, hne,
      hartifacts, -⟩ := verify_eq_ok.mp h
  obtain ⟨hschema, -, happ, hpackage⟩ := validateMetadata_eq_ok hvalid
  obtain ⟨⟨hselectors, -⟩, ⟨hnames, -⟩, hall⟩ := validateArtifacts_eq_ok hartifacts
  constructor
  case schemaVersion => exact hschema
  case app => exact happ
  case packageId => exact hpackage
  case version => exact ⟨parts, hparts⟩
  case release => exact hdisplay
  case artifacts => exact hne
  case selectors => exact hselectors
  case fileNames => exact hnames
  case safe => exact fun a ha => (validateArtifact_eq_ok (hall a ha).1).1
  case urls => exact fun a ha => ⟨(validateArtifact_eq_ok (hall a ha).1).2.2, (hall a ha).2.2⟩
  case contents => exact fun a ha => ⟨(hall a ha).2.1, (validateArtifact_eq_ok (hall a ha).1).2.1⟩

theorem distinct_removeSignature {v document signature : Json ν} (hv : v.Distinct)
    (h : removeSignature v = some (document, signature)) : document.Distinct := by
  cases hv with
  | object hnodup hms =>
    obtain ⟨_, -, heq⟩ := Option.map_eq_some_iff.mp h
    obtain ⟨rfl, -⟩ := Prod.mk.inj heq
    refine .object (hnodup.sublist ((List.filter_sublist).map _)) fun m hm => ?_
    exact hms m (List.mem_of_mem_filter hm)
  | null | bool | number | string | array => cases h

/-- An accepted signature is one of the context and the message. -/
theorem verifyMetadataSignature_eq_ok {message signature : Bytes} {key : TrustedUpdateKey}
    (h : verifyMetadataSignature library message signature key = .ok ()) :
    library.verifyDetached signature (signatureContext ++ message) key.publicKey = true := by
  simp only [verifyMetadataSignature, bind_eq_ok, bailIf_eq_ok, Bool.not_eq_false'] at h
  obtain ⟨_, _, hverify⟩ := h
  exact hverify

/-- Signatures are ideal: only what the owner of a key signed is accepted. What acceptance then
says: the owner of the key that the metadata name signed the canonical text of one value, up to the
order of members; a file that differs only in white space and in the order of members is accepted
with the same metadata, if members of the same name stay in their order; and the metadata are as
they should be. -/
theorem feed_authentic {Signed : (key message : Bytes) → Prop}
    (hideal : ∀ signature message key, library.verifyDetached signature message key = true →
    Signed key message) : (∀ v w : Json ν, v.Distinct → w.Distinct →
      (canonicalLatestJson library v = canonicalLatestJson library w ↔
        Json.Rearranged List.Perm v w)) ∧
    ∀ bytes keys feed, verifyLatestFeedWithKeys library build bytes keys = .ok feed →
      ∃ file document signature, library.fromSlice bytes = some file ∧
        removeSignature file.sorted = some (document, signature) ∧
        (∃ key ∈ keys, key.keyId = feed.metadata.signatureKeyId ∧
          ∃ message, Signed key.publicKey message ∧
          ∀ v : Json ν, v.Distinct →
            (message = signatureContext ++ canonicalLatestJson library v ↔
              Json.Rearranged List.Perm document v)) ∧
        (∀ bytes' file', library.fromSlice bytes' = some file' →
          Json.Rearranged Json.SameByName file file' →
          verifyLatestFeedWithKeys library build bytes' keys = .ok ⟨feed.metadata, bytes'⟩) ∧
        WellFormed build feed.metadata := by
  refine ⟨fun v w hv hw => canonicalLatestJson_eq_iff hv hw, fun bytes keys feed h => ?_⟩
  obtain ⟨file, document, value, signature, key, decoded, parts, hfile, hremove, hsignature,
    hschema, hkey, hdecoded,
    hverify, hmetadata, hparts, hdisplay, hvalid, hne, hartifacts, -⟩ := verify_eq_ok.mp h
  refine ⟨file, document, value, hfile, hremove, ?_, fun bytes' file' hfile' hsame => ?_,
    verify_wellFormed h⟩
  · have hnamed : key.keyId = signature.keyId := by
      have hfound := List.find?_some hkey
      rw [Bool.and_eq_true] at hfound
      exact of_decide_eq_true hfound.1
    have hdistinct := distinct_removeSignature file.distinct_sorted hremove
    refine ⟨key, List.mem_of_find?_eq_some hkey, ?_, _,
      hideal _ _ _ (verifyMetadataSignature_eq_ok hverify), ?_⟩
    · exact hnamed.trans (validateMetadata_eq_ok hvalid).2.1.symm
    · intro v hv
      rw [← @canonicalLatestJson_eq_iff ν library _ _ hdistinct hv]
      exact List.append_right_inj _
  · -- the value is the same, and everything after it is about the value
    rw [Json.sorted_eq_of_rearranged hsame] at hremove
    exact verify_eq_ok.mpr ⟨file', document, value, signature, key, decoded, parts, hfile', hremove,
      hsignature, hschema,
      hkey, hdecoded, hverify, hmetadata, hparts, hdisplay, hvalid, hne, hartifacts, rfl⟩

end Verify

/-! ## A feed -/

/-- Natural numbers in decimal. -/
def decimal : Numerals ℕ where
  text := Nat.toDigits 10
  injective := fun m n h => by
    rw [← Nat.ofDigitChars_toDigits (n := m) (by decide : 1 < 10) (by decide), h,
      Nat.ofDigitChars_toDigits (by decide) (by decide)]
  ne_nil := fun _ => Nat.toDigits_ne_nil
  numeral := fun n c hc => by
    rw [isNumeral, Nat.isDigit_of_mem_toDigits (by decide) (by decide) hc]
    rfl

def fileBytes (file : Json ℕ) : Bytes := (file.write decimal).flatMap String.utf8EncodeChar

/-- The libraries at some files without white space, when one message was signed. -/
def fileLibrary (files : List (Json ℕ)) (signed : Bytes) : Library ℕ where
  numerals := decimal
  asU64 := fun n => if n < 2 ^ 64 then some n else none
  fromSlice := fun bytes => files.find? fun file => fileBytes file = bytes
  decodeBase64 := fun s =>
    if s = String.ofList (List.replicate 86 'A' ++
      ['=', '=']) then some (List.replicate 64 0) else none
  encodeBase64 := fun b =>
    if b = List.replicate 64 0 then String.ofList (List.replicate 86 'A' ++ ['=', '=']) else ""
  signatureFromBytes := some
  sodiumInit := true
  verifyDetached := fun signature message key =>
    signature = List.replicate 64 0 && message = signed && key = [1]
  parseUrl := fun url => some ⟨url.toList.contains '?', url.toList.contains '#',
    (rsplitOnce '/' url.toList).map fun p => String.ofList p.2⟩

theorem fileLibrary_fromSlice {files : List (Json ℕ)} (signed : Bytes) {file : Json ℕ}
    (h : file ∈ files) : (fileLibrary files signed).fromSlice (fileBytes file) = some file := by
  change files.find? (fun f => fileBytes f = fileBytes file) = some file
  cases hfind : files.find? (fun f => fileBytes f = fileBytes file) with
  | none => exact absurd (decide_eq_true rfl) (List.find?_eq_none.mp hfind file h)
  | some f =>
    have hfound := List.find?_some hfind
    have hbytes : fileBytes f = fileBytes file := of_decide_eq_true hfound
    exact congrArg some (Json.write_injective (utf8_injective hbytes))

/-- The members of a feed, but for its schema version. -/
def feedMembers : List (String × Json ℕ) :=
  [("app", .string "rustdesk"), ("package_id", .string "bgdesk-suporte"),
    ("version", .string "1.5.1"),
    ("release_id", .string "v1.5.1"), ("published_at", .string "2026-05-14T00:00:00Z"),
      ("signature_key_id", .string "main"),
    ("artifacts", .array [.object [("platform", .string "windows"), ("arch", .string "x86_64"),
      ("format", .string "exe"),
      ("url", .string "https://bgdesk.com/bgdesk-suporte-win64.exe"),
        ("file_name", .string "bgdesk-suporte-win64.exe"),
      ("size", .number 123456), ("sha256", .string (String.ofList (List.replicate 64 '0')))]])]

def feedSignature : Json ℕ :=
  .object [("schema_version", .number 1), ("algorithm", .string "ed25519"),
    ("key_id", .string "main"),
    ("signature", .string (String.ofList (List.replicate 86 'A' ++ ['=', '='])))]

/-- A file of the feed, in which the schema version comes several times. -/
def feedFile (versions : List ℕ) : Json ℕ :=
  .object (versions.map (fun n => ("schema_version", Json.number n)) ++
    ("signature", feedSignature) :: feedMembers)

/-- The value of a file without its signature. -/
def feedDocument (version : ℕ) : Json ℕ :=
  .object (SortedMap.collect (("schema_version", .number version) :: feedMembers.map fun m =>
    (m.1, m.2.sorted)))

/-- Schema version 1 was published and signed. -/
def feedLibrary : Library ℕ :=
  fileLibrary [feedFile [1], feedFile [2, 1], feedFile [1, 2]]
    (signatureContext ++ canonicalLatestJson (fileLibrary [] []) (feedDocument 1))

def feedKey : TrustedUpdateKey := ⟨"main", "ed25519", [1]⟩

theorem feedLibrary_canonical (v : Json ℕ) :
    canonicalLatestJson (fileLibrary [] []) v = canonicalLatestJson feedLibrary v := rfl

theorem fileLibrary_verify {files : List (Json ℕ)} {signed signature message key : Bytes} :
    (fileLibrary files signed).verifyDetached signature message key = true ↔
      signature = List.replicate 64 0 ∧ message = signed ∧ key = [1] := by
  change (decide (signature = List.replicate 64 0) && decide (message = signed) &&
    decide (key = [1])) = true ↔ _
  rw [Bool.and_eq_true, Bool.and_eq_true, decide_eq_true_eq, decide_eq_true_eq, decide_eq_true_eq,
    and_assoc]

theorem feedLibrary_verify {signature message key : Bytes} :
    feedLibrary.verifyDetached signature message key = true ↔
    signature = List.replicate 64 0 ∧ message = signatureContext ++
      canonicalLatestJson feedLibrary (feedDocument 1) ∧
      key = [1] := by
  rw [← feedLibrary_canonical]
  exact fileLibrary_verify

theorem feedSignature_eq : signatureFromValue feedLibrary feedSignature.sorted =
    some ⟨1, "ed25519", "main", String.ofList (List.replicate 86 'A' ++ ['=', '='])⟩ := rfl

theorem decodeSignature_feed :
    decodeSignature feedLibrary (String.ofList (List.replicate 86 'A' ++ ['=', '='])) =
      .ok (List.replicate 64 0) := by
  decide +kernel

/-- A file is accepted if schema version 1 is the one that stays. -/
theorem feedFile_accepted {versions : List ℕ}
    (hfile : feedFile versions ∈ [feedFile [1], feedFile [2, 1], feedFile [1, 2]])
    (hremove : removeSignature (feedFile versions).sorted =
    some (feedDocument 1, feedSignature.sorted)) :
    ∃ feed, verifyLatestFeedWithKeys feedLibrary ⟨"https://bgdesk.com", false⟩
      (fileBytes (feedFile versions)) [feedKey] = .ok feed := by
  have hchecks : ((metadataFromValue feedLibrary (feedDocument 1)).any fun metadata =>
      (parseUpdateVersion metadata.version).toOption.isSome ∧
      displayVersionFromReleaseId metadata.releaseId = .ok metadata.version ∧
      validateMetadata metadata ⟨1, "ed25519", "main",
        String.ofList (List.replicate 86 'A' ++ ['=', '='])⟩ metadata.version
        metadata.releaseId "bgdesk-suporte" = .ok () ∧
      metadata.artifacts ≠ [] ∧
      validateArtifacts feedLibrary ⟨"https://bgdesk.com", false⟩ [] []
        metadata.artifacts = .ok ()) = true := by
    decide +kernel
  obtain ⟨metadata, hmetadata, hchecks⟩ := (Option.any_eq_true _ _).mp hchecks
  obtain ⟨hparts, hdisplay, hvalid, hne, hartifacts⟩ := of_decide_eq_true hchecks
  cases hversion : parseUpdateVersion metadata.version with
  | error e =>
    rw [hversion] at hparts
    cases hparts
  | ok parts =>
    refine ⟨⟨metadata, fileBytes (feedFile versions)⟩,
      verify_eq_ok.mpr ⟨feedFile versions, feedDocument 1,
      feedSignature.sorted, _, feedKey, _, parts, fileLibrary_fromSlice _ hfile, hremove,
        feedSignature_eq, rfl, rfl,
      decodeSignature_feed, ?_, hmetadata, hversion, hdisplay, hvalid, hne, hartifacts, rfl⟩⟩
    have hverify : feedLibrary.verifyDetached (List.replicate 64 0)
        (signatureContext ++ canonicalLatestJson feedLibrary (feedDocument 1))
          feedKey.publicKey = true :=
      feedLibrary_verify.mpr ⟨rfl, rfl, rfl⟩
    rw [verifyMetadataSignature, hverify]
    rfl

theorem feed_authentic_one :
    ∃ feed, verifyLatestFeedWithKeys feedLibrary ⟨"https://bgdesk.com", false⟩
      (fileBytes (feedFile [1])) [feedKey] =
      .ok feed ∧ WellFormed ⟨"https://bgdesk.com", false⟩ feed.metadata := by
  obtain ⟨feed, hfeed⟩ := feedFile_accepted (by simp)
    (rfl : removeSignature (feedFile [1]).sorted = _)
  have hideal : ∀ signature message key, feedLibrary.verifyDetached signature message key = true →
      message = signatureContext ++ canonicalLatestJson feedLibrary (feedDocument 1) :=
    fun signature message key h => (feedLibrary_verify.mp h).2.1
  obtain ⟨_, _, _, _, _, _, _, hwellFormed⟩ := (feed_authentic hideal).2 _ _ _ hfeed
  exact ⟨feed, hfeed, hwellFormed⟩

/-- Members of the same name: a file is accepted, and with two of its members swapped it is not. -/
theorem feed_reordered : ∃ file file' : Json ℕ, Json.Rearranged List.Perm file file' ∧
      (∃ feed, verifyLatestFeedWithKeys feedLibrary ⟨"https://bgdesk.com", false⟩ (fileBytes file)
        [feedKey] = .ok feed) ∧
      feedLibrary.fromSlice (fileBytes file) = some file ∧
        feedLibrary.fromSlice (fileBytes file') = some file' ∧
      ∀ feed, verifyLatestFeedWithKeys feedLibrary ⟨"https://bgdesk.com", false⟩ (fileBytes file')
        [feedKey] ≠ .ok feed := by
  refine ⟨feedFile [2, 1], feedFile [1, 2], .members (.swap _ _ _), feedFile_accepted (by simp) rfl,
    fileLibrary_fromSlice _ (by simp), fileLibrary_fromSlice _ (by simp), fun feed h => ?_⟩
  obtain ⟨file, document, value, _, key, decoded, _, hfile, hremove, _, _, _, _, hverify, -⟩ :=
    verify_eq_ok.mp h
  obtain rfl := Option.some.inj (hfile.symm.trans (fileLibrary_fromSlice _ (by simp)))
  have hdocument : removeSignature (feedFile [1, 2]).sorted =
      some (feedDocument 2, feedSignature.sorted) := rfl
  obtain ⟨rfl, rfl⟩ := Prod.mk.inj (Option.some.inj (hdocument.symm.trans hremove))
  have hbytes :=
    List.append_cancel_left (feedLibrary_verify.mp (verifyMetadataSignature_eq_ok hverify)).2.1
  have hsorted : (feedDocument 2).sorted = (feedDocument 1).sorted :=
    Json.write_injective (utf8_injective hbytes)
  -- the schema versions are different
  have hmembers := Json.object.inj hsorted
  have hlookup := congrArg (List.lookup "schema_version") hmembers
  cases Option.some.inj hlookup

end Update
end BgDesk
