import Mathlib.Data.List.TakeDrop
import BgDesk.BytesCodec
import BgDesk.Utf8
import BgDesk.Base64

/-!
# Stored secrets

`libs/hbb_common/src/password_security.rs`: passwords in the configuration, as `"00"` and the base64
of a box. The newer layout of what is in the base64 has its nonce with it, behind a first byte that
says so; the older one is a box under the zero nonce and nothing else, and its first byte may be
anything.

The library is a parameter, `Sodium`, with `Sodium.Ideal` for what is expected of it: what was
sealed is `Sealed`, and a piece of a box opens only if it was sealed itself.

* `isEncrypted`, `encryptStrOrOriginal`, `decryptStrOrOriginal` and the same for bytes;
* `openSecretboxPayload_v1`, `openSecretboxPayload_legacy` — each layout is opened as itself;
* `Opens` — what a stored value may be opened to, and `decrypt_eq_some`;
* `stored_secrets`.
-/

namespace BgDesk
namespace StoredSecrets

/-! ## Values -/

/-- The bytes of a `&str`. -/
def asBytes (s : List Char) : Bytes := s.flatMap String.utf8EncodeChar

theorem asBytes_append (s t : List Char) : asBytes (s ++ t) = asBytes s ++ asBytes t :=
  List.flatMap_append ..

theorem asBytes_injective {s t : List Char} (h : asBytes s = asBytes t) : s = t := by
  have hlossy := congrArg Utf8.fromUtf8Lossy h
  rwa [asBytes, asBytes, Utf8.fromUtf8Lossy_encode, Utf8.fromUtf8Lossy_encode] at hlossy

theorem asBytes_isEmpty (s : List Char) : (asBytes s).isEmpty = s.isEmpty := by
  cases s with
  | nil => rfl
  | cons c s =>
    obtain ⟨lead, rest, hshape, -, -⟩ := Utf8.utf8EncodeChar_shape c
    rw [asBytes, List.flatMap_cons, hshape]
    rfl

theorem asBytes_ne_nil {s : List Char} (h : s ≠ []) :
    asBytes s ≠ [] := fun hnil => h (asBytes_injective hnil)

/-- `VERSION_LEN`. -/
def versionLen : ℕ := 2

/-- `FORMAT_V1`. -/
def formatV1 : UInt8 := 1

/-- `"00"`. -/
def version00 : List Char := ['0', '0']

theorem asBytes_version00 : asBytes version00 = [48, 48] := by decide

/-- `secretbox::NONCEBYTES`. -/
def nonceBytes : ℕ := 24

/-- `secretbox::KEYBYTES`. -/
def keyBytes : ℕ := 32

/-- `secretbox::MACBYTES`. -/
def macBytes : ℕ := 16

/-- `secretbox::Nonce`. -/
abbrev Nonce : Type := {bytes : Bytes // bytes.length = nonceBytes}

/-- `secretbox::Key`. -/
abbrev Key : Type := {bytes : Bytes // bytes.length = keyBytes}

/-- An array of zeros with the bytes copied to it. -/
def Nonce.ofBytes (bytes : Bytes) : Nonce := ⟨bytes.takeD nonceBytes 0, List.takeD_length ..⟩

/-- `Vec::resize` with zeros. -/
def Key.ofBytes (bytes : Bytes) : Key := ⟨bytes.takeD keyBytes 0, List.takeD_length ..⟩

/-- `legacy_nonce`. -/
def legacyNonce : Nonce := Nonce.ofBytes []

theorem Nonce.ofBytes_coe (nonce : Nonce) : Nonce.ofBytes nonce.1 = nonce := by
  refine Subtype.ext ?_
  change nonce.1.takeD nonceBytes 0 = nonce.1
  rw [List.takeD_eq_take 0 (Nat.le_of_eq nonce.2.symm),
    List.take_of_length_le (Nat.le_of_eq nonce.2)]

/-! ## The library -/

/-- What the code uses of the library: `base64` in its original variant, and `secretbox`. -/
structure Sodium where
  encode : Bytes → List Char
  decode : Bytes → Option Bytes
  secretboxSeal : Bytes → Nonce → Key → Bytes
  secretboxOpen : Bytes → Nonce → Key → Option Bytes

/-- What is expected of it, where `Sealed` are the keys, nonces and messages of the boxes there are.
Nothing that ends a box opens under its key unless it was sealed, and what was sealed is not found
with its nonce in a box: the bytes of a box are as good as random. -/
structure Sodium.Ideal (S : Sodium) (Sealed : Key → Nonce → Bytes → Prop) : Prop where
  decode_encode : ∀ bytes, S.decode (asBytes (S.encode bytes)) = some bytes
  encode_length : ∀ bytes, (S.encode bytes).length = (bytes.length + 2) / 3 * 4
  open_seal : ∀ data nonce key, S.secretboxOpen (S.secretboxSeal data nonce key)
    nonce key = some data
  seal_length : ∀ data nonce key, (S.secretboxSeal data nonce key).length = data.length + macBytes
  authentic : ∀ key nonce data, Sealed key nonce data →
    ∀ bytes, bytes <:+ S.secretboxSeal data nonce key →
    ∀ nonce' data', S.secretboxOpen bytes nonce' key = some data' →
      Sealed key nonce' data' ∧ bytes = S.secretboxSeal data' nonce' key
  independent : ∀ key nonce data, Sealed key nonce data →
    ∀ key' nonce' data', Sealed key' nonce' data' →
    ¬nonce'.1 ++ S.secretboxSeal data' nonce' key' <:+: S.secretboxSeal data nonce key

/-- What `symmetric_crypt` finds on the machine. -/
structure Machine where
  /-- `get_uuid`. -/
  uuid : Bytes
  /-- The public half of `Config::get_existing_key_pair`, on systems where it is asked for. -/
  existingPk : Option Bytes
  deriving DecidableEq

/-- The key of `get_uuid`. -/
def Machine.key (machine : Machine) : Key := Key.ofBytes machine.uuid

/-! ## The code -/

section Code

variable (S : Sodium) (machine : Machine)

/-- `open_secretbox_payload`. -/
def openSecretboxPayload (data : Bytes) (key : Key) : Option Bytes :=
  let v1 :=
    if data.head? = some formatV1 ∧ 1 + nonceBytes + macBytes ≤ data.length then
      S.secretboxOpen (data.drop (1 + nonceBytes))
        (Nonce.ofBytes ((data.drop 1).take nonceBytes)) key
    else none
  match v1 with
  | some decrypted => some decrypted
  | none => S.secretboxOpen data legacyNonce key

/-- `symmetric_crypt`; to encrypt, it is given what `gen_nonce` returns. -/
def symmetricCrypt (data : Bytes) : Option Nonce → Option Bytes
  | some nonce => some (formatV1 :: (nonce.1 ++ S.secretboxSeal data nonce machine.key))
  | none =>
    match openSecretboxPayload S data machine.key with
    | some decrypted => some decrypted
    | none =>
      match machine.existingPk with
      | some pk => if pk ≠ machine.uuid then openSecretboxPayload S data (Key.ofBytes pk) else none
      | none => none

/-- `encrypt`. -/
def encrypt (nonce : Nonce) (v : Bytes) : Option (List Char) :=
  if v ≠ [] then (symmetricCrypt S machine v (some nonce)).map S.encode else none

/-- `decrypt`. -/
def decrypt (v : Bytes) : Option Bytes :=
  if v ≠ [] then (S.decode v).bind fun v => symmetricCrypt S machine v none else none

/-- `is_encrypted`. -/
def isEncrypted (v : Bytes) : Bool :=
  if v.length ≤ versionLen ∨ ¬asBytes version00 <+: v then false
  else
    match S.decode (v.drop versionLen) with
    | some decoded => macBytes ≤ decoded.length
    | none => false

/-- `encrypt_str_or_original`. -/
def encryptStrOrOriginal (nonce : Nonce) (s version : List Char) (maxLen : ℕ) : List Char :=
  if isEncrypted S (asBytes s) then s
  else if s.length > maxLen then []
  else if version = version00 then
    match encrypt S machine nonce (asBytes s) with
    | some s => version ++ s
    | none => s
  else s

/-- `decrypt_str_or_original`. -/
def decryptStrOrOriginal (s currentVersion : List Char) : List Char × Bool × Bool :=
  let original := (s, false, !s.isEmpty && !isEncrypted S (asBytes s))
  if (asBytes s).length > versionLen then
    if version00 <+: s then
      match decrypt S machine ((asBytes s).drop versionLen) with
      | some v => (Utf8.fromUtf8Lossy v, true, decide (version00 ≠ currentVersion))
      | none => original
    else original
  else original

/-- `encrypt_vec_or_original`. -/
def encryptVecOrOriginal (nonce : Nonce) (v : Bytes) (version : List Char) (maxLen : ℕ) : Bytes :=
  if isEncrypted S v then v
  else if v.length > maxLen then []
  else if version = version00 then
    match encrypt S machine nonce v with
    | some s => asBytes version ++ asBytes s
    | none => v
  else v

/-- `decrypt_vec_or_original`. -/
def decryptVecOrOriginal (v : Bytes) (currentVersion : List Char) : Bytes × Bool × Bool :=
  let original := (v, false, !v.isEmpty && !isEncrypted S v)
  if v.length > versionLen then
    let version := Utf8.fromUtf8Lossy (v.take versionLen)
    if version = version00 then
      match decrypt S machine (v.drop versionLen) with
      | some v => (v, true, decide (version ≠ currentVersion))
      | none => original
    else original
  else original

end Code

/-! ## The two layouts -/

section Layouts

variable {S : Sodium} {Sealed : Key → Nonce → Bytes → Prop} {machine : Machine}

/-- With a nonce of its own, the box is opened under that nonce; what does not open is tried as the
older layout. -/
theorem openSecretboxPayload_v1 {nonce : Nonce} {box : Bytes} (key : Key)
    (hbox : macBytes ≤ box.length) : openSecretboxPayload S (formatV1 :: (nonce.1 ++ box)) key =
      match S.secretboxOpen box nonce key with
      | some decrypted => some decrypted
      | none => S.secretboxOpen (formatV1 :: (nonce.1 ++ box)) legacyNonce key := by
  have hnonce := nonce.2
  have hlong : 1 + nonceBytes + macBytes ≤ (formatV1 :: (nonce.1 ++ box)).length := by
    rw [List.length_cons, List.length_append, hnonce]
    omega
  have hdrop : (formatV1 :: (nonce.1 ++ box)).drop (1 + nonceBytes) = box := by
    rw [Nat.add_comm, List.drop_succ_cons, List.drop_left' hnonce]
  have htake : ((formatV1 :: (nonce.1 ++ box)).drop 1).take nonceBytes = nonce.1 := by
    rw [List.drop_succ_cons, List.drop_zero, List.take_left' hnonce]
  rw [openSecretboxPayload, if_pos ⟨rfl, hlong⟩, hdrop, htake, Nonce.ofBytes_coe]

variable {data payload : Bytes}

/-- What makes `data` a payload of the newer layout: its nonce and its box. -/
theorem exists_v1 (hfirst : data.head? = some formatV1)
    (hlong : 1 + nonceBytes + macBytes ≤ data.length) :
    ∃ (nonce : Nonce) (box : Bytes), data = formatV1 :: (nonce.1 ++ box) ∧
      macBytes ≤ box.length := by
  cases data with
  | nil => cases hfirst
  | cons first rest =>
    obtain rfl := Option.some.inj hfirst
    rw [List.length_cons] at hlong
    refine ⟨⟨rest.take nonceBytes, ?_⟩, rest.drop nonceBytes, ?_, ?_⟩
    · rw [List.length_take]
      omega
    · rw [List.take_append_drop]
    · rw [List.length_drop]
      omega

/-- A payload that cannot be of the newer layout is opened as the older one. -/
theorem openSecretboxPayload_of_not (key : Key)
    (h : ¬(data.head? = some formatV1 ∧ 1 + nonceBytes + macBytes ≤ data.length)) :
    openSecretboxPayload S data key = S.secretboxOpen data legacyNonce key := by
  rw [openSecretboxPayload, if_neg h]

/-- **The older layout is opened as itself**, whatever its first byte and its length: what would be
the box of the newer layout does not open, since it would have been sealed, and stands with its
nonce in another box. -/
theorem openSecretboxPayload_legacy (ideal : S.Ideal Sealed) {key : Key}
    (hsealed : Sealed key legacyNonce data) :
    openSecretboxPayload S (S.secretboxSeal data legacyNonce key) key = some data := by
  have hopen := ideal.open_seal data legacyNonce key
  by_cases hv1 : (S.secretboxSeal data legacyNonce key).head? = some formatV1 ∧
      1 + nonceBytes + macBytes ≤ (S.secretboxSeal data legacyNonce key).length
  · obtain ⟨nonce, box, hshape, hbox⟩ := exists_v1 hv1.1 hv1.2
    have htail : nonce.1 ++ box <:+ S.secretboxSeal data legacyNonce key :=
      ⟨[formatV1], by rw [hshape, List.singleton_append]⟩
    rw [hshape, openSecretboxPayload_v1 key hbox, ← hshape]
    cases hbad : S.secretboxOpen box nonce key with
    | none => exact hopen
    | some data' =>
      obtain ⟨hsealed', rfl⟩ :=
        ideal.authentic _ _ _ hsealed box ((List.suffix_append ..).trans htail) _ _ hbad
      exact absurd htail.isInfix (ideal.independent _ _ _ hsealed _ _ _ hsealed')
  · rw [openSecretboxPayload_of_not key hv1, hopen]

/-- What `encrypt` puts into the base64. -/
def v1Payload (S : Sodium) (machine : Machine) (nonce : Nonce) (data : Bytes) : Bytes :=
  formatV1 :: (nonce.1 ++ S.secretboxSeal data nonce machine.key)

theorem v1Payload_length (ideal : S.Ideal Sealed) (nonce : Nonce) (data : Bytes) :
    macBytes ≤ (v1Payload S machine nonce data).length := by
  rw [v1Payload, List.length_cons, List.length_append, ideal.seal_length]
  omega

theorem encrypt_eq {v : Bytes} (nonce : Nonce) (hv : v ≠ []) :
    encrypt S machine nonce v = some (S.encode (v1Payload S machine nonce v)) := by
  rw [encrypt, if_pos hv]
  rfl

theorem encrypt_nil (nonce : Nonce) : encrypt S machine nonce [] = none := rfl

theorem asBytes_encode_ne_nil (ideal : S.Ideal Sealed) (h : macBytes ≤ payload.length) :
    asBytes (S.encode payload) ≠ [] := by
  refine asBytes_ne_nil fun hnil => ?_
  have hlength := ideal.encode_length payload
  rw [hnil, List.length_nil] at hlength
  rw [macBytes] at h
  omega

/-- What is in the base64 of a payload. -/
theorem decrypt_encode (ideal : S.Ideal Sealed) (h : macBytes ≤ payload.length) :
    decrypt S machine (asBytes (S.encode payload)) = symmetricCrypt S machine payload none := by
  rw [decrypt, if_pos (asBytes_encode_ne_nil ideal h), ideal.decode_encode, Option.bind_some]

theorem symmetricCrypt_of_open (h : openSecretboxPayload S payload machine.key = some data) :
    symmetricCrypt S machine payload none = some data := by
  rw [symmetricCrypt, h]

theorem decrypt_v1 (ideal : S.Ideal Sealed) (nonce : Nonce) (data : Bytes) :
    decrypt S machine (asBytes (S.encode (v1Payload S machine nonce data))) = some data := by
  have hbox : macBytes ≤ (S.secretboxSeal data nonce machine.key).length := by
    rw [ideal.seal_length]
    exact Nat.le_add_left ..
  rw [decrypt_encode ideal (v1Payload_length ideal nonce data)]
  refine symmetricCrypt_of_open ?_
  rw [v1Payload, openSecretboxPayload_v1 machine.key hbox, ideal.open_seal]

theorem decrypt_legacy (ideal : S.Ideal Sealed) (hsealed : Sealed machine.key legacyNonce data) :
    decrypt S machine (asBytes (S.encode (S.secretboxSeal data legacyNonce machine.key))) =
      some data := by
  have hlength : macBytes ≤ (S.secretboxSeal data legacyNonce machine.key).length := by
    rw [ideal.seal_length]
    exact Nat.le_add_left ..
  rw [decrypt_encode ideal hlength]
  exact symmetricCrypt_of_open (openSecretboxPayload_legacy ideal hsealed)

end Layouts

/-! ## The prefix -/

section Prefix

variable {S : Sodium} {Sealed : Key → Nonce → Bytes → Prop} {machine : Machine}

theorem version00_begins {s : List Char} : version00 <+: s ↔ asBytes version00 <+: asBytes s := by
  constructor
  · rintro ⟨rest, rfl⟩
    exact ⟨asBytes rest, (asBytes_append ..).symm⟩
  · exact Utf8.prefix_of_encode

/-- The first two bytes read as `"00"` only if they are. -/
theorem lossy_take {v : Bytes} :
    Utf8.fromUtf8Lossy (v.take versionLen) = version00 ↔ asBytes version00 <+: v := by
  constructor
  · intro h
    have hmark : Utf8.replacement ∉ Utf8.fromUtf8Lossy (v.take versionLen) := by
      rw [h]
      decide
    have hencode := Utf8.encode_fromUtf8Lossy hmark
    rw [h] at hencode
    change asBytes version00 = _ at hencode
    rw [hencode]
    exact List.take_prefix ..
  · rintro ⟨rest, rfl⟩
    have htake : (asBytes version00 ++ rest).take versionLen = asBytes version00 :=
      List.take_left' rfl
    rw [htake]
    exact Utf8.fromUtf8Lossy_encode version00

theorem versionLen_lt {text : Bytes} (h : text ≠ []) :
    versionLen < (asBytes version00 ++ text).length := by
  have hpos := List.length_pos_iff.mpr h
  rw [List.length_append, asBytes_version00, versionLen, List.length_cons, List.length_singleton]
  omega

theorem drop_version00 (text : Bytes) : (asBytes version00 ++ text).drop versionLen = text :=
  List.drop_left' rfl

/-- A box of any kind looks encrypted. -/
theorem isEncrypted_encode (ideal : S.Ideal Sealed) {payload : Bytes}
    (h : macBytes ≤ payload.length) :
    isEncrypted S (asBytes version00 ++ asBytes (S.encode payload)) = true := by
  have hlong := versionLen_lt (asBytes_encode_ne_nil ideal h)
  rw [isEncrypted, if_neg (by
    rintro (hle | hbegins); exacts [absurd hlong (by omega), hbegins (List.prefix_append ..)]),
    drop_version00, ideal.decode_encode]
  exact decide_eq_true h

/-- Bytes that begin with the prefix, and something behind it. -/
theorem decryptVec_begins {text : Bytes} (currentVersion : List Char) (htext : text ≠ []) :
    decryptVecOrOriginal S machine (asBytes version00 ++ text) currentVersion =
      match decrypt S machine text with
      | some v => (v, true, decide (version00 ≠ currentVersion))
      | none => (asBytes version00 ++ text, false, !isEncrypted S (asBytes version00 ++ text)) := by
  have hne : (asBytes version00 ++ text).isEmpty = false := rfl
  rw [decryptVecOrOriginal, if_pos (versionLen_lt htext), lossy_take.mpr (List.prefix_append ..),
    if_pos rfl, drop_version00, hne]
  cases decrypt S machine text <;> rfl

/-- Text is decrypted as its bytes are. -/
theorem decryptStr_eq (s currentVersion : List Char) :
    decryptStrOrOriginal S machine s currentVersion =
      let (v, success, store) := decryptVecOrOriginal S machine (asBytes s) currentVersion
      (if success then Utf8.fromUtf8Lossy v else s, success, store) := by
  rw [decryptStrOrOriginal, decryptVecOrOriginal, asBytes_isEmpty]
  by_cases hlong : (asBytes s).length > versionLen
  · rw [if_pos hlong, if_pos hlong]
    by_cases hbegins : version00 <+: s
    · rw [if_pos hbegins, lossy_take.mpr (version00_begins.mp hbegins), if_pos rfl]
      cases decrypt S machine ((asBytes s).drop versionLen) <;> rfl
    · rw [if_neg hbegins, if_neg fun h => hbegins (version00_begins.mpr (lossy_take.mp h))]
      rfl
  · rw [if_neg hlong, if_neg hlong]
    rfl

end Prefix

/-! ## What can be decrypted -/

section Opening

variable (S : Sodium) (machine : Machine)

/-- The keys that `symmetric_crypt` tries. -/
def Machine.keys : List Key :=
  machine.key :: (machine.existingPk.toList.filter (· ≠ machine.uuid)).map Key.ofBytes

/-- The payload is a box that opens under the key, of one layout or the other. -/
def OpensUnder (payload : Bytes) (key : Key) (m : Bytes) : Prop :=
  (∃ (nonce : Nonce) (box : Bytes), payload = formatV1 :: (nonce.1 ++ box) ∧ macBytes ≤ box.length ∧
    S.secretboxOpen box nonce key = some m) ∨
  S.secretboxOpen payload legacyNonce key = some m

/-- The value is the prefix and the base64 of a box that opens under one of the keys. -/
def Opens (v m : Bytes) : Prop :=
  ∃ text payload, v = asBytes version00 ++ text ∧ text ≠ [] ∧ S.decode text = some payload ∧
    ∃ key ∈ machine.keys, OpensUnder S payload key m

end Opening

section Opened

variable {S : Sodium} {machine : Machine}

theorem openSecretboxPayload_some {payload m : Bytes} {key : Key}
    (h : openSecretboxPayload S payload key = some m) : OpensUnder S payload key m := by
  by_cases hv1 : payload.head? = some formatV1 ∧ 1 + nonceBytes + macBytes ≤ payload.length
  · obtain ⟨nonce, box, rfl, hbox⟩ := exists_v1 hv1.1 hv1.2
    rw [openSecretboxPayload_v1 key hbox] at h
    cases hopen : S.secretboxOpen box nonce key with
    | some m' =>
      rw [hopen] at h
      exact .inl ⟨nonce, box, rfl, hbox, by rw [hopen]; exact h⟩
    | none =>
      rw [hopen] at h
      exact .inr h
  · rw [openSecretboxPayload_of_not key hv1] at h
    exact .inr h

theorem openSecretboxPayload_none {payload : Bytes} {key : Key}
    (h : openSecretboxPayload S payload key = none) (m : Bytes) : ¬OpensUnder S payload key m := by
  rintro (⟨nonce, box, rfl, hbox, hopen⟩ | hopen)
  · rw [openSecretboxPayload_v1 key hbox, hopen] at h
    cases h
  · by_cases hv1 : payload.head? = some formatV1 ∧ 1 + nonceBytes + macBytes ≤ payload.length
    · obtain ⟨nonce, box, rfl, hbox⟩ := exists_v1 hv1.1 hv1.2
      rw [openSecretboxPayload_v1 key hbox, hopen] at h
      cases hbox' : S.secretboxOpen box nonce key with
      | some m' => rw [hbox'] at h; cases h
      | none => rw [hbox'] at h; cases h
    · rw [openSecretboxPayload_of_not key hv1, hopen] at h
      cases h

/-- The keys are tried one after the other. -/
theorem symmetricCrypt_eq (payload : Bytes) :
    symmetricCrypt S machine payload none = machine.keys.findSome?
      (openSecretboxPayload S payload) := by
  rw [symmetricCrypt, Machine.keys, List.findSome?_cons]
  cases openSecretboxPayload S payload machine.key with
  | some m => rfl
  | none =>
    cases machine.existingPk with
    | none => rfl
    | some pk =>
      by_cases hpk : pk ≠ machine.uuid
      · rw [Option.toList_some, List.filter_singleton, decide_eq_true hpk]
        change (if pk ≠ machine.uuid then _ else _) = List.findSome? _ [Key.ofBytes pk]
        rw [if_pos hpk, List.findSome?_singleton]
      · rw [Option.toList_some, List.filter_singleton, decide_eq_false hpk]
        change (if pk ≠ machine.uuid then _ else _) = none
        rw [if_neg hpk]

/-- `decrypt` finds what the text behind the prefix may be opened to, and fails where there is
nothing. -/
theorem decrypt_opens (S : Sodium) (machine : Machine) (text : Bytes) :
    (∃ m, decrypt S machine text = some m ∧ Opens S machine (asBytes version00 ++ text) m) ∨
    (decrypt S machine text = none ∧ ∀ m, ¬Opens S machine (asBytes version00 ++ text) m) := by
  cases hdecrypt : decrypt S machine text with
  | some m =>
    refine .inl ⟨m, rfl, ?_⟩
    by_cases htext : text ≠ []
    · rw [decrypt, if_pos htext] at hdecrypt
      obtain ⟨payload, hdecode, hcrypt⟩ := Option.bind_eq_some_iff.mp hdecrypt
      rw [symmetricCrypt_eq] at hcrypt
      obtain ⟨key, hkey, hopen⟩ := List.exists_of_findSome?_eq_some hcrypt
      exact ⟨text, payload, rfl, htext, hdecode, key, hkey, openSecretboxPayload_some hopen⟩
    · rw [decrypt, if_neg htext] at hdecrypt
      cases hdecrypt
  | none =>
    refine .inr ⟨rfl, ?_⟩
    rintro m ⟨text', payload, hv, htext, hdecode, key, hkey, hopens⟩
    obtain rfl := List.append_cancel_left hv
    rw [decrypt, if_pos htext, hdecode, Option.bind_some, symmetricCrypt_eq] at hdecrypt
    exact openSecretboxPayload_none (List.findSome?_eq_none_iff.mp hdecrypt key hkey) m hopens

/-- A value is opened to what it may be opened to, or is returned as it is. -/
theorem decryptVec_opens (S : Sodium) (machine : Machine) (v : Bytes) (currentVersion : List Char) :
    (∃ m, Opens S machine v m ∧ decryptVecOrOriginal S machine v currentVersion =
      (m, true, decide (version00 ≠ currentVersion))) ∨
    ((∀ m, ¬Opens S machine v m) ∧
      decryptVecOrOriginal S machine v currentVersion =
        (v, false, !v.isEmpty && !isEncrypted S v)) := by
  by_cases hbegins : asBytes version00 <+: v ∧ versionLen < v.length
  · obtain ⟨⟨text, rfl⟩, hlong⟩ := hbegins
    have htext : text ≠ [] := by
      rintro rfl
      rw [List.append_nil, asBytes_version00] at hlong
      exact absurd hlong (by decide)
    rw [decryptVec_begins currentVersion htext]
    rcases decrypt_opens S machine text with ⟨m, hdecrypt, hopens⟩ | ⟨hdecrypt, hopens⟩
    · exact .inl ⟨m, hopens, by rw [hdecrypt]⟩
    · exact .inr ⟨hopens, by rw [hdecrypt]; rfl⟩
  · refine .inr ⟨?_, ?_⟩
    · rintro m ⟨text, payload, rfl, htext, -⟩
      exact hbegins ⟨List.prefix_append .., versionLen_lt htext⟩
    · rw [decryptVecOrOriginal]
      by_cases hlong : v.length > versionLen
      · rw [if_pos hlong, if_neg fun h => hbegins ⟨lossy_take.mp h, hlong⟩]
      · rw [if_neg hlong]

theorem decryptStr_opens (S : Sodium) (machine : Machine) (s currentVersion : List Char) :
    (∃ m, Opens S machine (asBytes s) m ∧
      decryptStrOrOriginal S machine s currentVersion =
        (Utf8.fromUtf8Lossy m, true, decide (version00 ≠ currentVersion))) ∨
    ((∀ m, ¬Opens S machine (asBytes s) m) ∧
      decryptStrOrOriginal S machine s currentVersion =
        (s, false, !s.isEmpty && !isEncrypted S (asBytes s))) := by
  rw [decryptStr_eq]
  rcases decryptVec_opens S machine (asBytes s) currentVersion with ⟨m, hopens, heq⟩ | ⟨hopens, heq⟩
  · exact .inl ⟨m, hopens, by rw [heq]; rfl⟩
  · exact .inr ⟨hopens, by rw [heq, asBytes_isEmpty]; rfl⟩

end Opened

/-! ## What is encrypted -/

section Encrypting

variable {S : Sodium} {Sealed : Key → Nonce → Bytes → Prop} {machine : Machine}

theorem isEncrypted_nil : isEncrypted S [] = false := rfl

variable {s : List Char} {v : Bytes} {maxLen : ℕ}

theorem encryptStr_of_encrypted (nonce : Nonce) (version : List Char) (maxLen : ℕ)
    (h : isEncrypted S (asBytes s) = true) :
    encryptStrOrOriginal S machine nonce s version maxLen = s := by
  rw [encryptStrOrOriginal, if_pos h]

theorem encryptVec_of_encrypted (nonce : Nonce) (version : List Char) (maxLen : ℕ)
    (h : isEncrypted S v = true) : encryptVecOrOriginal S machine nonce v version maxLen = v := by
  rw [encryptVecOrOriginal, if_pos h]

theorem encryptStr_nil (nonce : Nonce) (version : List Char) (maxLen : ℕ) :
    encryptStrOrOriginal S machine nonce [] version maxLen = [] := by
  have hplain : ¬isEncrypted S (asBytes []) = true := by
    rw [asBytes, List.flatMap_nil, isEncrypted_nil]; decide
  have hmax : ¬([] : List Char).length > maxLen := Nat.not_lt_zero _
  rw [encryptStrOrOriginal, if_neg hplain, if_neg hmax, asBytes, List.flatMap_nil, encrypt_nil,
    ite_self]

theorem encryptVec_nil (nonce : Nonce) (version : List Char) (maxLen : ℕ) :
    encryptVecOrOriginal S machine nonce [] version maxLen = [] := by
  have hplain : ¬isEncrypted S [] = true := by rw [isEncrypted_nil]; decide
  have hmax : ¬([] : Bytes).length > maxLen := Nat.not_lt_zero _
  rw [encryptVecOrOriginal, if_neg hplain, if_neg hmax, encrypt_nil, ite_self]

/-- A value with something in it becomes the prefix and the base64 of a payload of the newer layout.
-/
theorem encryptStr_eq (nonce : Nonce) (hs : s ≠ []) (hmax : s.length ≤ maxLen)
    (hplain : isEncrypted S (asBytes s) = false) :
    encryptStrOrOriginal S machine nonce s version00 maxLen = version00 ++
      S.encode (v1Payload S machine nonce (asBytes s)) := by
  rw [encryptStrOrOriginal, if_neg (by rw [hplain]; decide), if_neg (Nat.not_lt.mpr hmax),
    if_pos rfl,
    encrypt_eq nonce (asBytes_ne_nil hs)]

theorem encryptVec_eq (nonce : Nonce) (hv : v ≠ []) (hmax : v.length ≤ maxLen)
    (hplain : isEncrypted S v = false) : encryptVecOrOriginal S machine nonce v version00 maxLen =
      asBytes version00 ++ asBytes (S.encode (v1Payload S machine nonce v)) := by
  rw [encryptVecOrOriginal, if_neg (by rw [hplain]; decide), if_neg (Nat.not_lt.mpr hmax),
    if_pos rfl, encrypt_eq nonce hv]

/-- What comes out of encrypting: something that looks encrypted, nothing, or the value itself under
a version that says so. -/
theorem encryptStr_cases (ideal : S.Ideal Sealed) (machine : Machine) (nonce : Nonce)
    (s version : List Char) (maxLen : ℕ) :
    isEncrypted S (asBytes (encryptStrOrOriginal S machine nonce s version maxLen)) = true ∨
    encryptStrOrOriginal S machine nonce s version maxLen = [] ∨
    (version ≠ version00 ∧ encryptStrOrOriginal S machine nonce s version maxLen = s) := by
  by_cases hencrypted : isEncrypted S (asBytes s) = true
  · rw [encryptStr_of_encrypted nonce version maxLen hencrypted]
    exact .inl hencrypted
  by_cases hmax : s.length > maxLen
  · rw [encryptStrOrOriginal, if_neg hencrypted, if_pos hmax]
    exact .inr (.inl rfl)
  by_cases hversion : version = version00
  · subst hversion
    by_cases hs : s = []
    · subst hs
      exact .inr (.inl (encryptStr_nil ..))
    · rw [encryptStr_eq nonce hs (Nat.le_of_not_lt hmax) (Bool.eq_false_of_not_eq_true hencrypted),
        asBytes_append]
      exact .inl (isEncrypted_encode ideal (v1Payload_length ideal ..))
  · rw [encryptStrOrOriginal, if_neg hencrypted, if_neg hmax, if_neg hversion]
    exact .inr (.inr ⟨hversion, rfl⟩)

theorem encryptVec_cases (ideal : S.Ideal Sealed) (machine : Machine) (nonce : Nonce) (v : Bytes)
    (version : List Char) (maxLen : ℕ) :
    isEncrypted S (encryptVecOrOriginal S machine nonce v version maxLen) = true ∨
    encryptVecOrOriginal S machine nonce v version maxLen = [] ∨
    (version ≠ version00 ∧ encryptVecOrOriginal S machine nonce v version maxLen = v) := by
  by_cases hencrypted : isEncrypted S v = true
  · rw [encryptVec_of_encrypted nonce version maxLen hencrypted]
    exact .inl hencrypted
  by_cases hmax : v.length > maxLen
  · rw [encryptVecOrOriginal, if_neg hencrypted, if_pos hmax]
    exact .inr (.inl rfl)
  by_cases hversion : version = version00
  · subst hversion
    by_cases hv : v = []
    · subst hv
      exact .inr (.inl (encryptVec_nil ..))
    · rw [encryptVec_eq nonce hv (Nat.le_of_not_lt hmax) (Bool.eq_false_of_not_eq_true hencrypted)]
      exact .inl (isEncrypted_encode ideal (v1Payload_length ideal ..))
  · rw [encryptVecOrOriginal, if_neg hencrypted, if_neg hmax, if_neg hversion]
    exact .inr (.inr ⟨hversion, rfl⟩)

/-- Encrypting again changes nothing, with a nonce of its own; what was encrypted, whatever else is
asked for. -/
theorem encryptStr_encryptStr (ideal : S.Ideal Sealed) {version version' : List Char} {maxLen' : ℕ}
    (nonce nonce' : Nonce) (hagain : version = version00 ∨ version' = version ∧ maxLen' = maxLen) :
    encryptStrOrOriginal S machine nonce' (encryptStrOrOriginal S machine nonce s version maxLen)
      version' maxLen' =
      encryptStrOrOriginal S machine nonce s version maxLen := by
  rcases encryptStr_cases ideal machine nonce s version maxLen with
    hencrypted | hnil | ⟨hversion, heq⟩
  · exact encryptStr_of_encrypted nonce' version' maxLen' hencrypted
  · rw [hnil]
    exact encryptStr_nil ..
  · obtain ⟨rfl, rfl⟩ := hagain.resolve_left hversion
    rw [heq, encryptStrOrOriginal, if_neg hversion]
    rw [encryptStrOrOriginal, if_neg hversion] at heq
    exact heq

theorem encryptVec_encryptVec (ideal : S.Ideal Sealed) {version version' : List Char} {maxLen' : ℕ}
    (nonce nonce' : Nonce) (hagain : version = version00 ∨ version' = version ∧ maxLen' = maxLen) :
    encryptVecOrOriginal S machine nonce' (encryptVecOrOriginal S machine nonce v version maxLen)
      version' maxLen' =
      encryptVecOrOriginal S machine nonce v version maxLen := by
  rcases encryptVec_cases ideal machine nonce v version maxLen with
    hencrypted | hnil | ⟨hversion, heq⟩
  · exact encryptVec_of_encrypted nonce' version' maxLen' hencrypted
  · rw [hnil]
    exact encryptVec_nil ..
  · obtain ⟨rfl, rfl⟩ := hagain.resolve_left hversion
    rw [heq, encryptVecOrOriginal, if_neg hversion]
    rw [encryptVecOrOriginal, if_neg hversion] at heq
    exact heq

/-- What the text behind the prefix is decrypted to is the value. -/
theorem decryptVec_of_decrypt {text m : Bytes} (currentVersion : List Char)
    (h : decrypt S machine text = some m) :
    decryptVecOrOriginal S machine (asBytes version00 ++ text)
      currentVersion = (m, true, decide (version00 ≠ currentVersion)) := by
  have htext : text ≠ [] := by
    rintro rfl
    cases h
  rw [decryptVec_begins currentVersion htext, h]

theorem decryptStr_of_decrypt {text : List Char} {m : Bytes} (currentVersion : List Char)
    (h : decrypt S machine (asBytes text) = some m) :
    decryptStrOrOriginal S machine (version00 ++ text) currentVersion =
      (Utf8.fromUtf8Lossy m, true, decide (version00 ≠ currentVersion)) := by
  rw [decryptStr_eq, asBytes_append, decryptVec_of_decrypt currentVersion h]
  rfl

end Encrypting

/-! ## Stored secrets -/

/-- **Stored secrets are kept.** What is encrypted is decrypted to what it was and need not be
stored again; encrypting twice is encrypting once; a box of the older layout is opened to what was
sealed in it, whatever its bytes; and a value is decrypted if it opens, and otherwise returned as it
is. -/
theorem stored_secret_format {S : Sodium} {Sealed : Key → Nonce → Bytes → Prop}
    (ideal : S.Ideal Sealed) (machine : Machine) :
    (∀ nonce s maxLen, s ≠ [] → s.length ≤ maxLen → isEncrypted S (asBytes s) = false →
      decryptStrOrOriginal S machine (encryptStrOrOriginal S machine nonce s version00 maxLen)
        version00 = (s, true, false)) ∧
    (∀ nonce v maxLen, v ≠ [] → v.length ≤ maxLen → isEncrypted S v = false →
      decryptVecOrOriginal S machine (encryptVecOrOriginal S machine nonce v version00 maxLen)
        version00 = (v, true, false)) ∧
    (∀ nonce nonce' s version version' maxLen maxLen',
      (version = version00 ∨ version' = version ∧ maxLen' = maxLen) →
      encryptStrOrOriginal S machine nonce' (encryptStrOrOriginal S machine nonce s version maxLen)
        version' maxLen' =
        encryptStrOrOriginal S machine nonce s version maxLen) ∧
    (∀ nonce nonce' v version version' maxLen maxLen',
      (version = version00 ∨ version' = version ∧ maxLen' = maxLen) →
      encryptVecOrOriginal S machine nonce' (encryptVecOrOriginal S machine nonce v version maxLen)
        version' maxLen' =
        encryptVecOrOriginal S machine nonce v version maxLen) ∧
    (∀ s currentVersion, Sealed machine.key legacyNonce (asBytes s) →
      decryptStrOrOriginal S machine (version00 ++
        S.encode (S.secretboxSeal (asBytes s) legacyNonce machine.key)) currentVersion =
        (s, true, decide (version00 ≠ currentVersion))) ∧
    (∀ v currentVersion, Sealed machine.key legacyNonce v →
      decryptVecOrOriginal S machine (asBytes
        (version00 ++ S.encode (S.secretboxSeal v legacyNonce machine.key))) currentVersion =
        (v, true, decide (version00 ≠ currentVersion))) ∧
    (∀ s currentVersion,
      (∃ m, Opens S machine (asBytes s) m ∧
        decryptStrOrOriginal S machine s currentVersion =
          (Utf8.fromUtf8Lossy m, true, decide (version00 ≠ currentVersion))) ∨
      ((∀ m, ¬Opens S machine (asBytes s) m) ∧
        decryptStrOrOriginal S machine s currentVersion =
          (s, false, !s.isEmpty && !isEncrypted S (asBytes s)))) ∧
    (∀ v currentVersion,
      (∃ m, Opens S machine v m ∧ decryptVecOrOriginal S machine v currentVersion =
        (m, true, decide (version00 ≠ currentVersion))) ∨
      ((∀ m, ¬Opens S machine v m) ∧
        decryptVecOrOriginal S machine v currentVersion =
          (v, false, !v.isEmpty && !isEncrypted S v))) := by
  refine ⟨?_, ?_, ?_, ?_, ?_, ?_, decryptStr_opens S machine, decryptVec_opens S machine⟩
  · intro nonce s maxLen hs hmax hplain
    rw [encryptStr_eq nonce hs hmax hplain, decryptStr_of_decrypt version00
      (decrypt_v1 ideal nonce (asBytes s)), asBytes,
      Utf8.fromUtf8Lossy_encode]
    rfl
  · intro nonce v maxLen hv hmax hplain
    rw [encryptVec_eq nonce hv hmax hplain, decryptVec_of_decrypt version00
      (decrypt_v1 ideal nonce v)]
    rfl
  · intro nonce nonce' s version version' maxLen maxLen' hagain
    exact encryptStr_encryptStr ideal nonce nonce' hagain
  · intro nonce nonce' v version version' maxLen maxLen' hagain
    exact encryptVec_encryptVec ideal nonce nonce' hagain
  · intro s currentVersion hsealed
    rw [decryptStr_of_decrypt currentVersion (decrypt_legacy ideal hsealed), asBytes,
      Utf8.fromUtf8Lossy_encode]
  · intro v currentVersion hsealed
    rw [asBytes_append]
    exact decryptVec_of_decrypt currentVersion (decrypt_legacy ideal hsealed)

/-! ## A box for tests -/

section Toy

/-- A tag that tells the zero nonce from the others, and a key by its first bytes. -/
def toyTag (nonce : Nonce) (key : Key) : Bytes :=
  (if nonce = legacyNonce then 1 else 2) :: key.1.take 15

/-- Base64, and boxes that are a tag and the message. -/
def toySodium : Sodium where
  encode bytes := (Base64.encode bytes).map fun c => Char.ofNat c.toNat
  decode := Base64.decode
  secretboxSeal data nonce key := toyTag nonce key ++ data
  secretboxOpen box nonce key := if toyTag nonce key <+: box then some (box.drop macBytes) else none

/-- A machine whose key is sevens. -/
def toyMachine : Machine := ⟨List.replicate keyBytes 7, none⟩

/-- A message of which the box is long enough for the newer layout, and begins as it does. -/
def toyMessage : Bytes := List.replicate 25 115

/-- One box of the older layout, and no other. -/
def ToySealed (key : Key) (nonce : Nonce) (data : Bytes) : Prop :=
  key = toyMachine.key ∧ nonce = legacyNonce ∧ data = toyMessage

theorem toyTag_length (nonce : Nonce) (key : Key) : (toyTag nonce key).length = macBytes := by
  rw [toyTag, List.length_cons, List.length_take, key.2]
  rfl

theorem utf8EncodeChar_ascii :
    ∀ n < 128, String.utf8EncodeChar (Char.ofNat n) = [UInt8.ofNat n] := by
  decide +kernel

/-- The characters of base64 are its bytes. -/
theorem asBytes_ascii {bytes : Bytes} (h : ∀ c ∈ bytes, c < 128) :
    asBytes (bytes.map fun c => Char.ofNat c.toNat) = bytes := by
  induction bytes with
  | nil => rfl
  | cons c bytes ih =>
    obtain ⟨hc, hbytes⟩ := List.forall_mem_cons.mp h
    have hchar := utf8EncodeChar_ascii c.toNat (UInt8.lt_iff_toNat_lt.mp hc)
    rw [UInt8.ofNat_toNat] at hchar
    rw [List.map_cons, asBytes, List.flatMap_cons, hchar, ← asBytes, ih hbytes]
    rfl

/-- The box begins with a one, and nothing else in it is a tag or a nonce. -/
theorem toyBox_eq :
    ∃ rest, toySodium.secretboxSeal toyMessage legacyNonce toyMachine.key = 1 :: rest ∧
    ∀ b ∈ rest, b ≠ 0 ∧ b ≠ 1 ∧ b ≠ 2 := by
  refine ⟨List.replicate 15 7 ++ toyMessage, rfl, ?_⟩
  intro b hb
  rcases List.mem_append.mp hb with hb | hb
  · rw [List.eq_of_mem_replicate hb]
    decide
  · rw [List.eq_of_mem_replicate hb]
    decide

theorem toyIdeal : toySodium.Ideal ToySealed where
  decode_encode bytes := by
    change Base64.decode (asBytes ((Base64.encode bytes).map fun c => Char.ofNat c.toNat)) =
      some bytes
    rw [asBytes_ascii (Base64.encode_lt bytes), Base64.decode_encode]
  encode_length bytes := by
    change ((Base64.encode bytes).map fun c => Char.ofNat c.toNat).length = _
    rw [List.length_map, Base64.encode_length]
  open_seal data nonce key := by
    change (if toyTag nonce key <+: toyTag nonce key ++
      data then some ((toyTag nonce key ++ data).drop macBytes) else none) = _
    rw [if_pos (List.prefix_append ..), List.drop_left' (toyTag_length nonce key)]
  seal_length data nonce key := by
    change (toyTag nonce key ++ data).length = _
    rw [List.length_append, toyTag_length, Nat.add_comm]
  authentic := by
    rintro key nonce data ⟨rfl, rfl, rfl⟩ bytes hsuffix nonce' data' hopen
    obtain ⟨rest, hbox, hrest⟩ := toyBox_eq
    change (if toyTag nonce' toyMachine.key <+: bytes then some (bytes.drop macBytes) else none) =
      some data' at hopen
    split at hopen
    · rename_i htag
      obtain ⟨more, rfl⟩ := htag
      rw [hbox, List.suffix_cons_iff] at hsuffix
      -- a tag begins with a one or a two, and only the first byte of the box is one of them
      rcases hsuffix with hall | hpart
      · have hnonce : nonce' = legacyNonce := by
          by_contra hne
          rw [toyTag, if_neg hne] at hall
          exact absurd (List.cons.inj hall).1 (by decide)
        subst hnonce
        have hmore : more = toyMessage := by
          rw [← hbox] at hall
          exact List.append_cancel_left hall
        subst hmore
        rw [List.drop_left' (toyTag_length ..)] at hopen
        obtain rfl := Option.some.inj hopen
        exact ⟨⟨rfl, rfl, rfl⟩, rfl⟩
      · obtain ⟨-, hone, htwo⟩ := hrest _ (hpart.subset (List.mem_cons_self ..))
        by_cases hnonce : nonce' = legacyNonce
        · exact absurd (if_pos hnonce) hone
        · exact absurd (if_neg hnonce) htwo
    · cases hopen
  independent := by
    rintro key nonce data ⟨rfl, rfl, rfl⟩ key' nonce' data' ⟨rfl, rfl, rfl⟩ hinfix
    obtain ⟨rest, hbox, hrest⟩ := toyBox_eq
    have hzero : (0 : UInt8) ∈ (1 : UInt8) :: rest := by
      rw [← hbox]
      exact hinfix.subset (List.mem_append_left _ (by decide))
    rcases List.mem_cons.mp hzero with h | h
    · exact absurd h (by decide)
    · exact (hrest _ h).1 rfl

/-- A password goes through, and a box of the older layout that could be taken for the newer one is
opened all the same. -/
theorem stored_secret_format_legacy : decryptVecOrOriginal toySodium toyMachine
      (encryptVecOrOriginal toySodium toyMachine (Nonce.ofBytes [5]) [112, 119] version00 128)
        version00 = ([112, 119], true, false) ∧
    openSecretboxPayload toySodium (toySodium.secretboxSeal toyMessage legacyNonce toyMachine.key)
      toyMachine.key = some toyMessage ∧
    (toySodium.secretboxSeal toyMessage legacyNonce toyMachine.key).head? = some formatV1 ∧
    1 + nonceBytes + macBytes ≤
      (toySodium.secretboxSeal toyMessage legacyNonce toyMachine.key).length ∧
    decryptVecOrOriginal toySodium toyMachine
      (asBytes (version00 ++ toySodium.encode
        (toySodium.secretboxSeal toyMessage legacyNonce toyMachine.key))) version00 =
      (toyMessage, true, false) :=
  have hall := stored_secret_format toyIdeal toyMachine
  ⟨hall.2.1 (Nonce.ofBytes [5]) [112, 119] 128 (by decide) (by decide) (by decide), by
    decide, by decide, by decide,
    hall.2.2.2.2.2.1 toyMessage version00 ⟨rfl, rfl, rfl⟩⟩

end Toy

end StoredSecrets
end BgDesk
