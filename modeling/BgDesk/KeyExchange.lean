import Mathlib.Data.List.Basic
import BgDesk.Machine
import BgDesk.EncryptedStream

/-!
# The key exchange

`Client::secure_connection` of `src/client.rs` on one side, `identity_handshake` of `src/server.rs`
on the other, on a TCP stream. The controlled side signs an ephemeral key and the newest version it
speaks; the controller seals a fresh key to it, and says in the clear which version it picked. Each
side has several ways out that leave the stream without a key and return all the same.

Signatures, boxes, hashes and the message format are a parameter, `Library`.

* `secureConnection`, `identityHandshake` — what each side makes of the message it waits for;
* `honest_agreement` — the two functions on a wire that does nothing;
* `step` — one controller, any number of sessions of the controlled side, and a wire that brings
  anything to any of them; `Tampered` is what ideal cryptography still refuses;
* `Bound` — the invariant;
* `key_agreement` — both.
-/

namespace BgDesk
namespace Tcp

/-! ## Messages -/

/-- `KX_VERSION_LATEST`. -/
def kxVersionLatest : UInt32 := 1

/-- `kx_version_for`. -/
def kxVersionFor (advertised : UInt32) : UInt32 := min advertised kxVersionLatest

/-- `IdPk`. -/
structure IdPk where
  id : String
  pk : Bytes
  dtlsFingerprint : String
  kxVersion : UInt32
  deriving DecidableEq

/-- `PublicKey`. -/
structure PublicKey where
  asymmetricValue : Bytes
  symmetricValue : Bytes
  kxVersion : UInt32
  deriving DecidableEq

/-- `message::Union`, as far as the handshake tells messages apart. -/
inductive Union where
  | signedId (id : Bytes)
  | publicKey (pk : PublicKey)
  | other
  deriving DecidableEq

/-- `Message`. `none` is `Message::new()`. -/
abbrev Message : Type := Option Union

/-- What the handshake uses of other crates: besides `secretbox` and `generichash` these are `sign`,
`box_` and the message format. `X` are the secret keys. -/
structure Library (K X : Type) extends Sodium K where
  messageWrite : Message → Bytes
  messageParse : Bytes → Option Message
  idPkWrite : IdPk → Bytes
  idPkParse : Bytes → Option IdPk
  signPublic : X → Bytes
  sign : X → Bytes → Bytes
  verify : Bytes → Bytes → Option Bytes
  boxPublic : X → Bytes
  boxSeal : Bytes → Bytes → X → Bytes
  boxOpen : Bytes → Bytes → X → Option Bytes
  /-- the bytes of a key, and the key of as many bytes as a key has -/
  keyBytes : K → Bytes
  keyOf : Bytes → Option K

/-- What ideal cryptography and the message format promise whoever is on the wire. -/
structure Library.Ideal {K X : Type} (L : Library K X) : Prop extends Sodium.Ideal L.toSodium where
  open_only : ∀ key nonce key' nonce' data data',
    L.secretboxOpen key nonce (L.secretboxSeal key' nonce' data) = some data' → key = key'
  parse_write : ∀ m, L.messageParse (L.messageWrite m) = some m
  idPk_parse_write : ∀ m, L.idPkParse (L.idPkWrite m) = some m
  verify_sign : ∀ sk m pk m', L.verify pk (L.sign sk m) = some m' ↔ pk = L.signPublic sk ∧ m' = m
  boxPublic_length : ∀ sk, (L.boxPublic sk).length = publicKeyBytes
  box_open_seal : ∀ a b m, L.boxOpen (L.boxSeal m (L.boxPublic b) a) (L.boxPublic a) b = some m
  keyOf_keyBytes : ∀ key, L.keyOf (L.keyBytes key) = some key

/-! ## The stream key that was agreed on -/

/-- A stream with a key, and what the key comes from. -/
structure Negotiated (K : Type) where
  key : K
  isInitiator : Bool
  transcript : KxTranscript
  cipher : Encrypt K
  deriving DecidableEq

section Handshake

variable {K X : Type} (L : Library K X)

/-- `set_negotiated_key` of a TCP stream. -/
def setNegotiatedKey (key : K) (isInitiator : Bool) (t : KxTranscript) :
    Except String (Negotiated K) :=
  if t.picked = 0 then .ok ⟨key, isInitiator, t, Encrypt.new key⟩
  else if t.picked = 1 then do
    let cipher ← Encrypt.newSplit L.toSodium key isInitiator t
    return ⟨key, isInitiator, t, cipher⟩
  else .error ("unsupported key exchange version " ++ toString t.picked.toNat)

/-- `decode_id_pk_dtls`. -/
def decodeIdPkDtls (signed key : Bytes) : Option (String × Bytes × String × UInt32) := do
  let payload ← L.verify key signed
  let res ← L.idPkParse payload
  if res.pk.length = publicKeyBytes then return (res.id, res.pk, res.dtlsFingerprint, res.kxVersion)
  else none

/-- `decode_id_pk`. -/
def decodeIdPk (signed key : Bytes) : Option (String × Bytes) :=
  (decodeIdPkDtls L signed key).map fun (id, pk, _, _) => (id, pk)

/-- `Encrypt::decode`. -/
def decode (symmetricData theirPkB : Bytes) (ourSkB : X) : Except String K :=
  if theirPkB.length ≠ publicKeyBytes then
    .error ("Handshake failed: pk length " ++ toString theirPkB.length)
  else
    match L.boxOpen symmetricData theirPkB ourSkB with
    | none => .error "Handshake failed: box decryption failure"
    | some symmetricKey =>
      match L.keyOf symmetricKey with
      | none => .error "Handshake failed: invalid secret key length from peer"
      | some key => .ok key

/-! ## The controller -/

/-- What the controller knows of the peer before the handshake: the id it wants, the blob of the
rendezvous server, and the key of that server. -/
structure Knowledge where
  peerId : String
  signedIdPk : Bytes
  rsPk : Option Bytes

/-- The peer's signing key, if there is a trusted one. -/
def trustedKey (kn : Knowledge) : Option Bytes :=
  if kn.signedIdPk = [] then none
  else do
    let rsPk ← kn.rsPk
    let (id, pk) ← decodeIdPk L kn.signedIdPk rsPk
    if id = kn.peerId then return pk else none

/-- `create_symmetric_key_msg`, with the key pair and the key it generates. -/
def createSymmetricKeyMsg (theirPkB : Bytes) (ourSkB : X) (key : K) : Bytes × Bytes :=
  (L.boxPublic ourSkB, L.boxSeal (L.keyBytes key) theirPkB ourSkB)

/-- `secure_connection`, from the message it waits for to its end: what it sends, and the stream.
Every way out but the last leaves the stream as it is. -/
def secureConnection (peerId : String) (signPk : Bytes) (bytes : Bytes) (ourSkB : X) (key : K) :
    Message × Except String (Option (Negotiated K)) :=
  match L.messageParse bytes with
  | some (some (.signedId si)) =>
    match decodeIdPkDtls L si signPk with
    -- "pk mismatch, fall back to non-secure"
    | none => (some (.publicKey ⟨[], [], 0⟩), .ok none)
    | some (id, theirPkB, _, kxVersion) =>
      if id = peerId then
        let (asymmetricValue, symmetricValue) := createSymmetricKeyMsg L theirPkB ourSkB key
        let picked := kxVersionFor kxVersion
        (some (.publicKey ⟨asymmetricValue, symmetricValue, picked⟩),
          (setNegotiatedKey L key true ⟨asymmetricValue, theirPkB, kxVersion, picked⟩).map some)
      else (none, .ok none)
  | some _ => (none, .ok none)
  | none => (none, .ok none)

/-! ## The controlled side -/

/-- What the controlled side signs. -/
def identity (id : String) (ourSkB : X) : Bytes :=
  L.idPkWrite ⟨id, L.boxPublic ourSkB, "", kxVersionLatest⟩

/-- The message that `identity_handshake` starts with. -/
def signedIdentity (sk : X) (id : String) (ourSkB : X) : Message :=
  some (.signedId (L.sign sk (identity L id ourSkB)))

/-- `identity_handshake`, from the message it waits for to its end. -/
def identityHandshake (ourSkB : X) (bytes : Bytes) : Except String (Option (Negotiated K)) :=
  match L.messageParse bytes with
  | some (some (.publicKey pk)) =>
    if pk.asymmetricValue.length = publicKeyBytes then do
      let key ← decode L pk.symmetricValue pk.asymmetricValue ourSkB
      if kxVersionLatest < pk.kxVersion then
        .error ("Handshake failed: key exchange version " ++ toString pk.kxVersion.toNat ++
          " not offered, " ++
          toString kxVersionLatest.toNat ++ " was")
      else
        (setNegotiatedKey L key false ⟨pk.asymmetricValue, L.boxPublic ourSkB, kxVersionLatest,
          pk.kxVersion⟩).map some
    else if pk.asymmetricValue = [] then .ok none
    else .error "Handshake failed: invalid public sign key length from peer"
  | some _ => .ok none
  | none => .error "Handshake failed: invalid message format"

/-- Both functions on a wire that leaves the messages alone: the outcomes of the controller and of
the controlled side. A controller without a trusted key sends an empty message and does not wait. -/
def exchange (kn : Knowledge) (sk : X) (id : String) (controlledSk controllerSk : X) (key : K) :
    Except String (Option (Negotiated K)) × Except String (Option (Negotiated K)) :=
  match trustedKey L kn with
  | none => (.ok none, identityHandshake L controlledSk (L.messageWrite none))
  | some signPk =>
    let (reply, outcome) :=
      secureConnection L kn.peerId signPk (L.messageWrite (signedIdentity L sk id controlledSk))
        controllerSk key
    (outcome, identityHandshake L controlledSk (L.messageWrite reply))

/-! ## A wire that brings anything -/

/-- Where a side stands: before the message it waits for, or after it. A stream without a key hands
over every frame as it is. -/
inductive Phase (K : Type) where
  | waiting
  | failed
  | unkeyed (handed : List Bytes)
  | keyed (n : Negotiated K) (e : Endpoint K)

/-- The end of a handshake. -/
def Phase.of : Except String (Option (Negotiated K)) → Phase K
  | .error _ => .failed
  | .ok none => .unkeyed []
  | .ok (some n) => .keyed n (Endpoint.start n.cipher)

/-- A session of the controlled side. -/
structure Session (K X : Type) where
  secret : X
  phase : Phase K

/-- One controller, the sessions of the controlled side, and what was done with secrets: what was
signed, which boxes were sealed between which keys with what inside, and what was sealed with the
stream keys. -/
structure World (K X : Type) where
  controller : Phase K
  sessions : ℕ → Option (Session K X)
  signed : List Bytes
  boxes : List (Bytes × Bytes × Bytes)
  seals : List (K × Bytes × Bytes)

/-- The wire brings a message or a frame to the controller or to a session; a side starts, sends, or
gives up. What a side draws at random comes with the action. -/
inductive Event (K X : Type) where
  | connect (j : ℕ) (secret : X)
  | toController (bytes : Bytes) (secret : X) (key : K) (sent : Bool)
  | toSession (j : ℕ) (bytes : Bytes)
  | controllerFails
  | sessionFails (j : ℕ)
  | controllerSends (data : Bytes)
  | sessionSends (j : ℕ) (data : Bytes)
  | controllerReceives (frame : Bytes)
  | sessionReceives (j : ℕ) (frame : Bytes)

/-- The key `secure_connection` seals to, if it does. -/
def sealedTo (peerId : String) (signPk bytes : Bytes) : Option Bytes :=
  match L.messageParse bytes with
  | some (some (.signedId si)) =>
    match decodeIdPkDtls L si signPk with
    | none => none
    | some (id, theirPkB, _, _) => if id = peerId then some theirPkB else none
  | _ => none

/-- `send_raw` on a stream in this phase, and what it sealed. -/
def Phase.send (phase : Phase K) (data : Bytes) : Option (Phase K × List (K × Bytes × Bytes)) :=
  match phase with
  | .unkeyed handed => some (.unkeyed handed, [])
  | .keyed n e => do
    let e ← e.send L.toSodium data
    return (.keyed n e, [(e.cipher.key, getNonce e.cipher.sent, data)])
  | _ => none

/-- `next` on a stream in this phase. -/
def Phase.receive (phase : Phase K) (frame : Bytes) : Option (Phase K) :=
  match phase with
  | .unkeyed handed => some (.unkeyed (handed ++ [frame]))
  | .keyed n e => do
    let e ← e.receive L.toSodium frame
    return .keyed n e
  | _ => none

/-- The session with this number is changed. -/
def World.setPhase (w : World K X) (j : ℕ) (s : Session K X) (phase : Phase K) : World K X :=
  { w with sessions := Function.update w.sessions j (some { s with phase := phase }) }

/-- A key was sealed to a stranger. -/
def World.Leaked (w : World K X) : Prop :=
  ∃ box ∈ w.boxes, ¬∃ j s, w.sessions j = some s ∧ box.2.1 = L.boxPublic s.secret

variable (kn : Knowledge) (sk : X) (id : String)

/-- Before anything has happened. -/
def World.start : World K X :=
  ⟨match trustedKey L kn with
    | none => .unkeyed []
    | some _ => .waiting, fun _ => none, [], [], []⟩

/-- One event. -/
def kxStep (w : World K X) : Event K X → Option (World K X)
  | .connect j secret =>
    match w.sessions j with
    | some _ => none
    | none => some { w with sessions := Function.update w.sessions j (some ⟨secret, .waiting⟩)
                            signed := w.signed ++ [identity L id secret] }
  | .toController bytes secret key sent =>
    match w.controller, trustedKey L kn with
    | .waiting, some signPk =>
      let outcome := (secureConnection L kn.peerId signPk bytes secret key).2
      let w := { w with controller := if sent then Phase.of outcome else .failed }
      match sealedTo L kn.peerId signPk bytes with
      | none => some w
      | some pk => some { w with boxes := w.boxes ++ [(L.boxPublic secret, pk, L.keyBytes key)] }
    | _, _ => none
  | .toSession j bytes =>
    match w.sessions j with
    | some ⟨secret, .waiting⟩ =>
      some (w.setPhase j ⟨secret, .waiting⟩ (Phase.of (identityHandshake L secret bytes)))
    | _ => none
  | .controllerFails =>
    match w.controller with
    | .waiting => some { w with controller := .failed }
    | _ => none
  | .sessionFails j =>
    match w.sessions j with
    | some ⟨secret, .waiting⟩ => some (w.setPhase j ⟨secret, .waiting⟩ .failed)
    | _ => none
  | .controllerSends data => do
    let (phase, seals) ← w.controller.send L data
    return { w with controller := phase, seals := w.seals ++ seals }
  | .sessionSends j data => do
    let s ← w.sessions j
    let (phase, seals) ← s.phase.send L data
    return { w.setPhase j s phase with seals := w.seals ++ seals }
  | .controllerReceives frame => do
    let phase ← w.controller.receive L frame
    return { w with controller := phase }
  | .sessionReceives j frame => do
    let s ← w.sessions j
    let phase ← s.phase.receive L frame
    return w.setPhase j s phase

variable (adv : K → Prop)

/-- A key that was drawn at random: nobody else has it, and it is not derived from another one. -/
def FreshKey (key : K) : Prop := ¬adv key ∧ ∀ k data, L.generichash k data ≠ key

/-- What ideal cryptography lets the wire bring. A signature of the controlled side is one it made;
a box that opens between two keys was sealed between them, or by someone who knows what is inside; a
frame that opens was sealed under the same key and nonce, or by someone who knows the key. -/
def Tampered (w : World K X) : Event K X → Prop
  | .toController bytes _ key _ =>
    FreshKey L adv key ∧ ∀ si payload, L.messageParse bytes = some (some (.signedId si)) →
      L.verify (L.signPublic sk) si = some payload → payload ∈ w.signed
  | .toSession j bytes =>
    ∀ s pk m, w.sessions j = some s → L.messageParse bytes = some (some (.publicKey pk)) →
      L.boxOpen pk.symmetricValue pk.asymmetricValue s.secret = some m →
      (pk.asymmetricValue, L.boxPublic s.secret, m) ∈ w.boxes ∨ w.Leaked L ∨ ∀ k ∈ L.keyOf m, adv k
  | .controllerReceives frame =>
    ∀ n e data, w.controller = .keyed n e → 1 < frame.length →
      L.secretboxOpen e.cipher.openingKey (getNonce (e.cipher.received + 1)) frame = some data →
      (e.cipher.openingKey, getNonce (e.cipher.received + 1), data) ∈ w.seals ∨ w.Leaked L ∨
        adv e.cipher.openingKey
  | _ => True

/-! ## What the functions return -/

variable {L kn sk id adv}

variable {key : K} {n : Negotiated K} {bytes data frame pk : Bytes} {w w' : World K X}
  {p p' phase : Phase K} {j : ℕ} {s : Session K X} {e : Endpoint K}

theorem setNegotiatedKey_ok {isInitiator : Bool} {t : KxTranscript}
    (h : setNegotiatedKey L key isInitiator t = .ok n) :
    n.key = key ∧ n.isInitiator = isInitiator ∧ n.transcript = t ∧
      (t.picked = 0 ∧ n.cipher = Encrypt.new key ∨
        t.picked = 1 ∧ Encrypt.newSplit L.toSodium key isInitiator t = .ok n.cipher) := by
  rw [setNegotiatedKey] at h
  split at h
  · obtain rfl := Except.ok.inj h
    exact ⟨rfl, rfl, rfl, .inl ⟨‹_›, rfl⟩⟩
  · split at h
    · cases hsplit : Encrypt.newSplit L.toSodium key isInitiator t with
      | error e =>
        rw [hsplit] at h
        cases h
      | ok cipher =>
        rw [hsplit] at h
        obtain rfl := Except.ok.inj h
        exact ⟨rfl, rfl, rfl, .inr ⟨‹_›, rfl⟩⟩
    · cases h

theorem except_map_eq_ok {ε α β : Type} {x : Except ε α} {f : α → β} {b : β} (h : x.map f = .ok b) :
    ∃ a, x = .ok a ∧ f a = b := by
  cases x with
  | error e => cases h
  | ok a => exact ⟨a, rfl, Except.ok.inj h⟩

/-- The controller keys its stream only for an identity that verifies, and seals the key to it. -/
theorem secureConnection_keyed {peerId : String} {signPk : Bytes} {secret : X}
    (h : (secureConnection L peerId signPk bytes secret key).2 = .ok (some n)) :
    ∃ si theirPkB fingerprint kxVersion, L.messageParse bytes = some (some (.signedId si)) ∧
      decodeIdPkDtls L si signPk = some (peerId, theirPkB, fingerprint, kxVersion) ∧
      setNegotiatedKey L key true ⟨L.boxPublic secret, theirPkB, kxVersion,
        kxVersionFor kxVersion⟩ = .ok n := by
  rw [secureConnection] at h
  split at h
  · rename_i si hparse
    split at h
    · cases Except.ok.inj h
    · rename_i id theirPkB fingerprint kxVersion hdecode
      split at h
      · rename_i hid
        obtain ⟨n', hset, heq⟩ := except_map_eq_ok h
        obtain rfl := Option.some.inj heq
        exact ⟨si, theirPkB, fingerprint, kxVersion, hparse, hid ▸ hdecode, hset⟩
      · cases Except.ok.inj h
  · cases Except.ok.inj h
  · cases Except.ok.inj h

theorem sealedTo_eq_some {peerId : String} {signPk : Bytes}
    (h : sealedTo L peerId signPk bytes = some pk) :
    ∃ si fingerprint kxVersion, L.messageParse bytes = some (some (.signedId si)) ∧
      decodeIdPkDtls L si signPk = some (peerId, pk, fingerprint, kxVersion) := by
  rw [sealedTo] at h
  split at h
  · rename_i si hparse
    split at h
    · cases h
    · rename_i id theirPkB fingerprint kxVersion hdecode
      split at h
      · rename_i hid
        obtain rfl := Option.some.inj h
        exact ⟨si, fingerprint, kxVersion, hparse, hid ▸ hdecode⟩
      · cases h
  · cases h

theorem decodeIdPkDtls_eq_some {signed key : Bytes} {id : String} {fingerprint : String}
    {kxVersion : UInt32} (h : decodeIdPkDtls L signed key = some (id, pk, fingerprint, kxVersion)) :
    ∃ payload, L.verify key signed = some payload ∧
      L.idPkParse payload = some ⟨id, pk, fingerprint, kxVersion⟩ ∧ pk.length = publicKeyBytes := by
  obtain ⟨payload, hverify, h⟩ := Option.bind_eq_some_iff.mp h
  obtain ⟨res, hparse, h⟩ := Option.bind_eq_some_iff.mp h
  split at h
  · rename_i hlength
    obtain ⟨rfl, hpk⟩ := Prod.mk.inj (Option.some.inj h)
    obtain ⟨rfl, hrest⟩ := Prod.mk.inj hpk
    obtain ⟨rfl, rfl⟩ := Prod.mk.inj hrest
    exact ⟨payload, hverify, hparse, hlength⟩
  · cases h

/-- The controlled side keys its stream with what is in a box to its own key. -/
theorem identityHandshake_keyed {secret : X} (h : identityHandshake L secret bytes = .ok (some n)) :
    ∃ pk m key, L.messageParse bytes = some (some (.publicKey pk)) ∧
      L.boxOpen pk.symmetricValue pk.asymmetricValue secret = some m ∧ L.keyOf m = some key ∧
      setNegotiatedKey L key false ⟨pk.asymmetricValue, L.boxPublic secret, kxVersionLatest,
        pk.kxVersion⟩ = .ok n := by
  rw [identityHandshake] at h
  split at h
  · rename_i pk hparse
    split at h
    · rename_i hlength
      rw [decode, if_neg (not_not_intro hlength)] at h
      cases hopen : L.boxOpen pk.symmetricValue pk.asymmetricValue secret with
      | none =>
        rw [hopen] at h
        cases h
      | some m =>
        rw [hopen] at h
        dsimp only at h
        cases hkey : L.keyOf m with
        | none =>
          rw [hkey] at h
          cases h
        | some key =>
          rw [hkey] at h
          change (if kxVersionLatest < pk.kxVersion then _ else _) = _ at h
          split at h
          · cases h
          · obtain ⟨n', hset, heq⟩ := except_map_eq_ok h
            obtain rfl := Option.some.inj heq
            exact ⟨pk, m, key, hparse, hopen, hkey, hset⟩
    · split at h
      · cases Except.ok.inj h
      · cases h
  · cases Except.ok.inj h
  · cases h

/-! ## On a wire that does nothing -/

/-- The two outcomes go together: neither stream has a key, or both have the same one, from the same
transcript, in opposite roles. -/
def Agree (controller controlled : Option (Negotiated K)) : Prop :=
  controller = none ∧ controlled = none ∨
    ∃ n n', controller = some n ∧ controlled = some n' ∧ n.key = n'.key ∧
      n.transcript = n'.transcript ∧
      n.isInitiator = true ∧ n'.isInitiator = false

theorem decodeIdPkDtls_sign (hL : L.Ideal) (secret : X) :
    decodeIdPkDtls L (L.sign sk (identity L id secret)) (L.signPublic sk) =
      some (id, L.boxPublic secret, "", kxVersionLatest) := by
  have hverify : L.verify (L.signPublic sk) (L.sign sk (identity L id secret)) =
    some (identity L id secret) :=
    (hL.verify_sign _ _ _ _).mpr ⟨rfl, rfl⟩
  rw [decodeIdPkDtls, hverify]
  simp [identity, hL.idPk_parse_write, hL.boxPublic_length]

/-- The controlled side opens the box the controller sealed to it. -/
theorem identityHandshake_sealed (hL : L.Ideal) (controlledSk controllerSk : X) (key : K) :
    identityHandshake L controlledSk (L.messageWrite (some (.publicKey ⟨L.boxPublic controllerSk,
        L.boxSeal (L.keyBytes key) (L.boxPublic controlledSk) controllerSk, kxVersionLatest⟩))) =
      (setNegotiatedKey L key false
        ⟨L.boxPublic controllerSk, L.boxPublic controlledSk, kxVersionLatest, kxVersionLatest⟩).map
          some := by
  have hdecode : decode L (L.boxSeal (L.keyBytes key) (L.boxPublic controlledSk) controllerSk)
      (L.boxPublic controllerSk) controlledSk = .ok key := by
    simp [decode, hL.boxPublic_length, hL.box_open_seal, hL.keyOf_keyBytes]
  simp only [identityHandshake, hL.parse_write, hL.boxPublic_length, hdecode, if_true]
  rfl

/-- **Agreement**: on a wire that leaves the messages alone, two functions that return leave the
streams alike, whatever the controller knows. -/
theorem honest_agreement (hL : L.Ideal) {controlledSk controllerSk : X}
    {c d : Option (Negotiated K)}
    (h : exchange L kn sk id controlledSk controllerSk key = (.ok c, .ok d)) : Agree c d := by
  have hempty : identityHandshake L controlledSk (L.messageWrite none) = .ok none := by
    rw [identityHandshake, hL.parse_write]
  rw [exchange] at h
  cases htrusted : trustedKey L kn with
  | none =>
    rw [htrusted] at h
    dsimp only at h
    rw [hempty] at h
    obtain ⟨hc, hd⟩ := Prod.mk.inj h
    exact .inl ⟨(Except.ok.inj hc).symm, (Except.ok.inj hd).symm⟩
  | some signPk =>
    rw [htrusted] at h
    simp only [secureConnection, hL.parse_write, signedIdentity] at h
    cases hdecode : decodeIdPkDtls L (L.sign sk (identity L id controlledSk)) signPk with
    | none =>
      -- the wrong key: the controller says so with an empty public key
      rw [hdecode] at h
      obtain ⟨hc, hd⟩ := Prod.mk.inj h
      simp only [identityHandshake, hL.parse_write] at hd
      exact .inl ⟨(Except.ok.inj hc).symm, (Except.ok.inj hd).symm⟩
    | some res =>
      obtain ⟨id', pk, fingerprint, kxVersion⟩ := res
      obtain ⟨payload, hverify, -, -⟩ := decodeIdPkDtls_eq_some hdecode
      obtain ⟨rfl, -⟩ := (hL.verify_sign _ _ _ _).mp hverify
      rw [decodeIdPkDtls_sign hL] at hdecode h
      obtain ⟨rfl, hrest⟩ := Prod.mk.inj (Option.some.inj hdecode)
      dsimp only at h
      by_cases hid : id = kn.peerId
      · rw [if_pos hid] at h
        obtain ⟨hc, hd⟩ := Prod.mk.inj h
        obtain ⟨n, hset, rfl⟩ := except_map_eq_ok hc
        have hpicked : kxVersionFor kxVersionLatest = kxVersionLatest := rfl
        rw [createSymmetricKeyMsg, hpicked] at hset hd
        rw [identityHandshake_sealed hL] at hd
        obtain ⟨n', hset', rfl⟩ := except_map_eq_ok hd
        obtain ⟨hkey, hrole, htranscript, -⟩ := setNegotiatedKey_ok hset
        obtain ⟨hkey', hrole', htranscript', -⟩ := setNegotiatedKey_ok hset'
        exact .inr ⟨n, n', rfl, rfl, hkey.trans hkey'.symm, htranscript.trans htranscript'.symm,
          hrole, hrole'⟩
      · rw [if_neg hid] at h
        obtain ⟨hc, hd⟩ := Prod.mk.inj h
        rw [hempty] at hd
        exact .inl ⟨(Except.ok.inj hc).symm, (Except.ok.inj hd).symm⟩

/-! ## The invariant -/

variable (L) in
/-- A stream with a key, and what it has sealed and seen since. -/
structure Held (n : Negotiated K) (e : Endpoint K) : Prop where
  negotiated : setNegotiatedKey L n.key n.isInitiator n.transcript = .ok n
  ordered : e.Ordered L.toSodium n.cipher.key n.cipher.openingKey

variable (L adv) in
/-- The controller's stream. -/
structure ControllerBound (n : Negotiated K) (e : Endpoint K) : Prop extends Held L n e where
  role : n.isInitiator = true
  fresh : FreshKey L adv n.key
  advertised : n.transcript.advertised = kxVersionLatest
  picked : n.transcript.picked = kxVersionLatest

variable (L adv) in
/-- The stream of a session. The key may be one that whoever is on the wire has sealed. -/
structure SessionBound (secret : X) (n : Negotiated K) (e : Endpoint K) :
  Prop extends Held L n e where
  role : n.isInitiator = false
  responder : n.transcript.responderPk = L.boxPublic secret
  key : adv n.key ∨ ∀ k data, L.generichash k data ≠ n.key

variable (L id adv) in
/-- What holds in every state of a run. -/
structure Bound (w : World K X) : Prop where
  signed : ∀ payload ∈ w.signed, ∃ j s, w.sessions j = some s ∧ payload = identity L id s.secret
  boxed : ∀ box ∈ w.boxes, (∃ key, box.2.2 = L.keyBytes key ∧ FreshKey L adv key) ∧
    ∃ j s, w.sessions j = some s ∧ box.2.1 = L.boxPublic s.secret
  controller : ∀ n e, w.controller = .keyed n e → ControllerBound L adv n e
  sessions : ∀ j s n e, w.sessions j = some s → s.phase = .keyed n e →
    SessionBound L adv s.secret n e
  sealing : ∀ entry ∈ w.seals, (∃ n e, w.controller = .keyed n e ∧ n.cipher.key = entry.1) ∨
    ∃ j s n e, w.sessions j = some s ∧ s.phase = .keyed n e ∧ n.cipher.key = entry.1
  opened : ∀ n e data, w.controller = .keyed n e → some data ∈ e.results →
    ∃ entry ∈ w.seals, entry.1 = n.cipher.openingKey

theorem Bound.not_leaked (hw : Bound L id adv w) : ¬w.Leaked L := by
  rintro ⟨box, hbox, hstranger⟩
  exact hstranger (hw.boxed box hbox).2

/-- A phase goes on: a stream that has a key keeps it. -/
def Phase.Later (p p' : Phase K) : Prop := ∀ n e, p = .keyed n e → ∃ e', p' = .keyed n e'

/-- The world goes on. -/
structure Grows (w w' : World K X) : Prop where
  controller : w.controller.Later w'.controller
  sessions : ∀ j s, w.sessions j = some s →
    ∃ s', w'.sessions j = some s' ∧ s'.secret = s.secret ∧ s.phase.Later s'.phase

theorem Phase.later_refl (p : Phase K) : p.Later p := fun _ e h => ⟨e, h⟩

theorem Phase.later_of_waiting (p' : Phase K) (h : p = .waiting) : p.Later p' := by
  intro n e heq
  cases h.symm.trans heq

/-- The session that moved, and the others. -/
theorem setPhase_sessions {j' : ℕ} {s' : Session K X}
    (h : (w.setPhase j s phase).sessions j' = some s') :
    j' = j ∧ s' = { s with phase := phase } ∨ j' ≠ j ∧ w.sessions j' = some s' := by
  by_cases hj : j' = j
  · obtain rfl := hj
    have hself : (w.setPhase j' s phase).sessions j' = some { s with phase := phase } :=
      Function.update_self ..
    exact .inl ⟨rfl, (Option.some.inj (hself.symm.trans h)).symm⟩
  · exact .inr ⟨hj, (Function.update_of_ne hj ..).symm.trans h⟩

theorem grows_setPhase (hs : w.sessions j = some s) (hlater : s.phase.Later phase) :
    Grows w (w.setPhase j s phase) := by
  refine ⟨Phase.later_refl _, fun j' s' hs' => ?_⟩
  by_cases hj : j' = j
  · obtain rfl := hj
    obtain rfl := Option.some.inj (hs.symm.trans hs')
    exact ⟨{ s with phase := phase }, Function.update_self .., rfl, hlater⟩
  · exact ⟨s', (Function.update_of_ne hj ..).trans hs', rfl, Phase.later_refl _⟩

theorem grows_controller (hlater : w.controller.Later phase) :
    Grows w { w with controller := phase } :=
  ⟨hlater, fun _ s hs => ⟨s, hs, rfl, Phase.later_refl _⟩⟩

/-- An entry of the log stays accounted for. -/
theorem Grows.sealing (hgrow : Grows w w')
    (h : (∃ n e, w.controller = .keyed n e ∧ n.cipher.key = key) ∨
      ∃ j s n e, w.sessions j = some s ∧ s.phase = .keyed n e ∧ n.cipher.key = key) :
    (∃ n e, w'.controller = .keyed n e ∧ n.cipher.key = key) ∨
      ∃ j s n e, w'.sessions j = some s ∧ s.phase = .keyed n e ∧ n.cipher.key = key := by
  rcases h with ⟨n, e, hc, hkey⟩ | ⟨j, s, n, e, hs, hphase, hkey⟩
  · obtain ⟨e', hc'⟩ := hgrow.controller n e hc
    exact .inl ⟨n, e', hc', hkey⟩
  · obtain ⟨s', hs', -, hlater⟩ := hgrow.sessions j s hs
    obtain ⟨e', hphase'⟩ := hlater n e hphase
    exact .inr ⟨j, s', n, e', hs', hphase', hkey⟩

/-- A session stays where its public key was used. -/
theorem Grows.secret (hgrow : Grows w w') {f : X → Bytes} {b : Bytes}
    (h : ∃ j s, w.sessions j = some s ∧ b = f s.secret) :
    ∃ j s, w'.sessions j = some s ∧ b = f s.secret := by
  obtain ⟨j, s, hs, hb⟩ := h
  obtain ⟨s', hs', hsecret, -⟩ := hgrow.sessions j s hs
  exact ⟨j, s', hs', hsecret ▸ hb⟩

/-- An event that signs nothing and seals no key: what is left to show is what became of the
streams. -/
theorem Bound.grow (hw : Bound L id adv w) (hgrow : Grows w w') (hsigned : w'.signed = w.signed)
    (hboxes : w'.boxes = w.boxes) (hcontroller : ∀ n e, w'.controller = .keyed n e →
    ControllerBound L adv n e)
    (hsessions : ∀ j s n e, w'.sessions j = some s → s.phase = .keyed n e →
    SessionBound L adv s.secret n e) (hseals : ∀ entry ∈ w'.seals, entry ∈ w.seals ∨
    (∃ n e, w'.controller = .keyed n e ∧ n.cipher.key = entry.1) ∨
      ∃ j s n e, w'.sessions j = some s ∧ s.phase = .keyed n e ∧ n.cipher.key = entry.1)
    (hopened : ∀ n e data, w'.controller = .keyed n e → some data ∈ e.results →
      ∃ entry ∈ w'.seals, entry.1 = n.cipher.openingKey) : Bound L id adv w' where
  signed := fun payload hpayload => hgrow.secret (hw.signed payload (hsigned ▸ hpayload))
  boxed := fun box hbox =>
    ⟨(hw.boxed box (hboxes ▸ hbox)).1, hgrow.secret (hw.boxed box (hboxes ▸ hbox)).2⟩
  controller := hcontroller
  sessions := hsessions
  sealing := fun entry hentry =>
    (hseals entry hentry).elim (fun hold => hgrow.sealing (hw.sealing entry hold)) fun h => h
  opened := hopened

/-! ## What each event keeps -/

theorem held_start {isInitiator : Bool} {t : KxTranscript}
    (h : setNegotiatedKey L key isInitiator t = .ok n) : Held L n (Endpoint.start n.cipher) := by
  obtain ⟨hkey, hrole, htranscript, hcipher⟩ := setNegotiatedKey_ok h
  refine ⟨by rw [hkey, hrole, htranscript, h], ?_⟩
  rcases hcipher with ⟨-, hcipher⟩ | ⟨-, hsplit⟩
  · exact Endpoint.ordered_start (by rw [hcipher]; rfl) (by rw [hcipher]; rfl)
  · have hcipher := (Encrypt.newSplit_ok hsplit).2
    exact Endpoint.ordered_start (by rw [hcipher]) (by rw [hcipher])

theorem Phase.of_eq_keyed {outcome : Except String (Option (Negotiated K))}
    (h : Phase.of outcome = .keyed n e) : outcome = .ok (some n) ∧ e = Endpoint.start n.cipher := by
  cases outcome with
  | error message => cases h
  | ok stream =>
    cases stream with
    | none => cases h
    | some n' =>
      obtain ⟨rfl, rfl⟩ := Phase.keyed.inj h
      exact ⟨rfl, rfl⟩

/-- Sending keeps the key and what was seen. -/
theorem Phase.send_cases {seals : List (K × Bytes × Bytes)} (h : p.send L data = some (p', seals)) :
    (∃ handed, p = .unkeyed handed ∧ p' = .unkeyed handed ∧ seals = []) ∨
      ∃ n e e', p = .keyed n e ∧ p' = .keyed n e' ∧ e.send L.toSodium data = some e' ∧
        seals = [(e'.cipher.key, getNonce e'.cipher.sent, data)] := by
  cases p with
  | waiting => cases h
  | failed => cases h
  | unkeyed handed =>
    obtain ⟨rfl, rfl⟩ := Prod.mk.inj (Option.some.inj h)
    exact .inl ⟨handed, rfl, rfl, rfl⟩
  | keyed n e =>
    obtain ⟨e', hsend, h⟩ := Option.bind_eq_some_iff.mp h
    obtain ⟨rfl, rfl⟩ := Prod.mk.inj (Option.some.inj h)
    exact .inr ⟨n, e, e', rfl, rfl, hsend, rfl⟩

/-- A frame is taken as it is while there is no key, and opened with one. -/
theorem Phase.receive_cases (h : p.receive L frame = some p') :
    (∃ handed, p = .unkeyed handed ∧ p' = .unkeyed (handed ++ [frame])) ∨
      ∃ n e e', p = .keyed n e ∧ p' = .keyed n e' ∧ e.receive L.toSodium frame = some e' := by
  cases p with
  | waiting => cases h
  | failed => cases h
  | unkeyed handed => exact .inl ⟨handed, rfl, (Option.some.inj h).symm⟩
  | keyed n e =>
    obtain ⟨e', hreceive, h⟩ := Option.bind_eq_some_iff.mp h
    exact .inr ⟨n, e, e', rfl, (Option.some.inj h).symm, hreceive⟩

theorem Phase.send_later {seals : List (K × Bytes × Bytes)} (h : p.send L data = some (p', seals)) :
    p.Later p' := by
  intro n e hp
  rcases Phase.send_cases h with ⟨handed, rfl, -, -⟩ | ⟨n', e', e'', rfl, rfl, -, -⟩
  · cases hp
  · obtain ⟨rfl, rfl⟩ := Phase.keyed.inj hp
    exact ⟨e'', rfl⟩

theorem Phase.receive_later (h : p.receive L frame = some p') : p.Later p' := by
  intro n e hp
  rcases Phase.receive_cases h with ⟨handed, rfl, -⟩ | ⟨n', e', e'', rfl, rfl, -⟩
  · cases hp
  · obtain ⟨rfl, rfl⟩ := Phase.keyed.inj hp
    exact ⟨e'', rfl⟩

/-- What a session signed is all that verifies, so the controller seals to a session. -/
theorem Bound.decoded (hL : L.Ideal) (hw : Bound L id adv w) {si : Bytes} {secret : X} {sent : Bool}
    (htampered : Tampered L sk adv w (.toController bytes secret key sent))
    (hparse : L.messageParse bytes = some (some (.signedId si))) {id' : String}
    {fingerprint : String} {kxVersion : UInt32}
    (hdecode : decodeIdPkDtls L si (L.signPublic sk) = some (id', pk, fingerprint, kxVersion)) :
    kxVersion = kxVersionLatest ∧ ∃ j s, w.sessions j = some s ∧ pk = L.boxPublic s.secret := by
  obtain ⟨payload, hverify, hidPk, -⟩ := decodeIdPkDtls_eq_some hdecode
  obtain ⟨j, s, hs, rfl⟩ := hw.signed payload (htampered.2 si payload hparse hverify)
  rw [identity, hL.idPk_parse_write] at hidPk
  obtain ⟨-, rfl, -, rfl⟩ := IdPk.mk.inj (Option.some.inj hidPk)
  exact ⟨rfl, j, s, hs, rfl⟩

/-- A session begins. -/
theorem bound_connect {secret : X} (hw : Bound L id adv w)
    (h : kxStep L kn id w (.connect j secret) = some w') : Bound L id adv w' := by
  rw [kxStep] at h
  cases hj : w.sessions j with
  | some s =>
    rw [hj] at h
    cases h
  | none =>
    rw [hj] at h
    obtain rfl := Option.some.inj h
    have hnew : ∀ j' s', Function.update w.sessions j (some ⟨secret, .waiting⟩) j' = some s' →
        s' = ⟨secret, .waiting⟩ ∨ w.sessions j' = some s' := by
      intro j' s' hs'
      by_cases heq : j' = j
      · obtain rfl := heq
        rw [Function.update_self] at hs'
        exact .inl (Option.some.inj hs').symm
      · exact .inr ((Function.update_of_ne heq ..).symm.trans hs')
    have hgrow : Grows w { w with sessions := Function.update w.sessions j (some ⟨secret, .waiting⟩)
                                  signed := w.signed ++ [identity L id secret] } := by
      refine ⟨Phase.later_refl _, fun j' s' hs' => ⟨s', ?_, rfl, Phase.later_refl _⟩⟩
      have hne : j' ≠ j := by
        rintro rfl
        cases hj.symm.trans hs'
      exact (Function.update_of_ne hne ..).trans hs'
    refine ⟨fun payload hpayload => ?_, fun box hbox =>
      ⟨(hw.boxed box hbox).1, hgrow.secret (hw.boxed box hbox).2⟩,
      hw.controller, fun j' s' n e hs' hphase => ?_, fun entry hentry =>
        hgrow.sealing (hw.sealing entry hentry),
      hw.opened⟩
    · rcases List.mem_append.mp hpayload with hpayload | hpayload
      · exact hgrow.secret (hw.signed payload hpayload)
      · obtain rfl := List.mem_singleton.mp hpayload
        exact ⟨j, ⟨secret, .waiting⟩, Function.update_self .., rfl⟩
    · rcases hnew j' s' hs' with rfl | hs'
      · cases hphase
      · exact hw.sessions j' s' n e hs' hphase

/-- The adversary sends bytes to a controller. -/
theorem bound_toController (hL : L.Ideal) (hgenuine : trustedKey L kn = some (L.signPublic sk))
    {secret : X} {sent : Bool} (hw : Bound L id adv w)
    (htampered : Tampered L sk adv w (.toController bytes secret key sent))
    (h : kxStep L kn id w (.toController bytes secret key sent) = some w') : Bound L id adv w' := by
  rw [kxStep] at h
  split at h
  · rename_i signPk hwaiting htrusted
    obtain rfl := Option.some.inj (hgenuine.symm.trans htrusted)
    dsimp only at h
    generalize hphase :
      (if sent then Phase.of (secureConnection L kn.peerId (L.signPublic sk) bytes secret key).2
      else .failed) = phase at h
    have hgrow : ∀ boxes, Grows w { w with controller := phase, boxes := boxes } := fun boxes =>
      ⟨Phase.later_of_waiting _ hwaiting, fun _ s hs => ⟨s, hs, rfl, Phase.later_refl _⟩⟩
    have hcontroller : ∀ n e, phase = .keyed n e → ControllerBound L adv n e ∧ e.results = [] := by
      rintro n e rfl
      split at hphase
      · obtain ⟨houtcome, rfl⟩ := Phase.of_eq_keyed hphase
        obtain ⟨si, pk, fingerprint, kxVersion, hparse, hdecode, hset⟩ :=
          secureConnection_keyed houtcome
        obtain ⟨rfl, -⟩ := hw.decoded hL htampered hparse hdecode
        obtain ⟨hkey, hrole, htranscript, -⟩ := setNegotiatedKey_ok hset
        refine ⟨⟨held_start hset, hrole, hkey ▸ htampered.1, ?_, ?_⟩, rfl⟩
        · rw [htranscript]
        · rw [htranscript]
          rfl
      · cases hphase
    have hbound : ∀ boxes, (∀ box ∈ boxes, (∃ key, box.2.2 = L.keyBytes key ∧ FreshKey L adv key) ∧
        ∃ j s, w.sessions j = some s ∧ box.2.1 = L.boxPublic s.secret) →
        Bound L id adv { w with controller := phase, boxes := boxes } := fun boxes hboxes =>
      ⟨hw.signed, hboxes, fun n e hn => (hcontroller n e hn).1, hw.sessions,
        fun entry hentry => (hgrow boxes).sealing (hw.sealing entry hentry),
        fun n e data hn hdata => by
          rw [(hcontroller n e hn).2] at hdata
          cases hdata⟩
    split at h
    · obtain rfl := Option.some.inj h
      exact hbound w.boxes hw.boxed
    · rename_i pk hsealed
      obtain rfl := Option.some.inj h
      obtain ⟨si, fingerprint, kxVersion, hparse, hdecode⟩ := sealedTo_eq_some hsealed
      obtain ⟨-, hsession⟩ := hw.decoded hL htampered hparse hdecode
      refine hbound _ fun box hbox => ?_
      rcases List.mem_append.mp hbox with hbox | hbox
      · exact hw.boxed box hbox
      · obtain rfl := List.mem_singleton.mp hbox
        exact ⟨⟨key, rfl, htampered.1⟩, hsession⟩
  · cases h

/-- It sends bytes to a session. -/
theorem bound_toSession (hL : L.Ideal) (hw : Bound L id adv w)
    (htampered : Tampered L sk adv w (.toSession j bytes))
    (h : kxStep L kn id w (.toSession j bytes) = some w') : Bound L id adv w' := by
  rw [kxStep] at h
  split at h
  · rename_i secret hs
    obtain rfl := Option.some.inj h
    have hgrow :
      Grows w (w.setPhase j ⟨secret, .waiting⟩ (Phase.of (identityHandshake L secret bytes))) :=
      grows_setPhase hs (Phase.later_of_waiting _ rfl)
    refine hw.grow hgrow rfl rfl hw.controller (fun j' s n e hs' hphase => ?_) (fun _ h => .inl h)
      hw.opened
    rcases setPhase_sessions hs' with ⟨rfl, rfl⟩ | ⟨-, hs'⟩
    · obtain ⟨houtcome, rfl⟩ := Phase.of_eq_keyed hphase
      obtain ⟨pk, m, key, hparse, hopen, hkeyOf, hset⟩ := identityHandshake_keyed houtcome
      obtain ⟨hkey, hrole, htranscript, -⟩ := setNegotiatedKey_ok hset
      refine ⟨held_start hset, hrole, by rw [htranscript], ?_⟩
      rw [hkey]
      rcases htampered _ pk m hs hparse hopen with hbox | hleaked | hadv
      · -- the box of the controller: its key is fresh
        obtain ⟨⟨key', hm, -, hfresh⟩, -⟩ := hw.boxed _ hbox
        dsimp only at hm
        rw [hm, hL.keyOf_keyBytes] at hkeyOf
        obtain rfl := Option.some.inj hkeyOf
        exact .inr hfresh
      · exact absurd hleaked hw.not_leaked
      · exact .inl (hadv key hkeyOf)
    · exact hw.sessions j' s n e hs' hphase
  · cases h

/-- A controller sends. -/
theorem bound_controllerSends (hw : Bound L id adv w)
    (h : kxStep L kn id w (.controllerSends data) = some w') : Bound L id adv w' := by
  obtain ⟨⟨phase, seals⟩, hsend, h⟩ := Option.bind_eq_some_iff.mp h
  obtain rfl := Option.some.inj h
  have hgrow : Grows w { w with controller := phase, seals := w.seals ++ seals } :=
    ⟨Phase.send_later hsend, fun _ s hs => ⟨s, hs, rfl, Phase.later_refl _⟩⟩
  rcases Phase.send_cases hsend with ⟨handed, hphase, rfl, rfl⟩ | ⟨n, e, e', hphase, rfl, hend, rfl⟩
  · refine hw.grow hgrow rfl rfl ?_ hw.sessions (fun entry hentry => .inl (by simpa using hentry))
      ?_
    · intro n e hn
      cases hn
    · intro n e data' hn
      cases hn
  · have hn := hw.controller n e hphase
    obtain ⟨he', -, hresults, -⟩ := Endpoint.send_ordered hn.ordered hend
    refine hw.grow hgrow rfl rfl ?_ hw.sessions ?_ ?_
    · intro n₁ e₁ heq
      obtain ⟨rfl, rfl⟩ := Phase.keyed.inj heq
      exact { hn with ordered := he' }
    · intro entry hentry
      rcases List.mem_append.mp hentry with hentry | hentry
      · exact .inl hentry
      · obtain rfl := List.mem_singleton.mp hentry
        exact .inr (.inl ⟨n, e', rfl, he'.keyed.symm⟩)
    · intro n₁ e₁ data' heq hdata
      obtain ⟨rfl, rfl⟩ := Phase.keyed.inj heq
      obtain ⟨entry, hentry, hkey⟩ := hw.opened n e data' hphase (hresults ▸ hdata)
      exact ⟨entry, List.mem_append_left _ hentry, hkey⟩

/-- A session sends. -/
theorem bound_sessionSends (hw : Bound L id adv w)
    (h : kxStep L kn id w (.sessionSends j data) = some w') : Bound L id adv w' := by
  obtain ⟨s, hs, h⟩ := Option.bind_eq_some_iff.mp h
  obtain ⟨⟨phase, seals⟩, hsend, h⟩ := Option.bind_eq_some_iff.mp h
  obtain rfl := Option.some.inj h
  have hgrow : Grows w { w.setPhase j s phase with seals := w.seals ++ seals } :=
    { grows_setPhase hs (Phase.send_later hsend) with }
  have hopened : ∀ n e data', w.controller = .keyed n e → some data' ∈ e.results →
      ∃ entry ∈ w.seals ++ seals, entry.1 = n.cipher.openingKey := by
    intro n e data' hn hdata
    obtain ⟨entry, hentry, hkey⟩ := hw.opened n e data' hn hdata
    exact ⟨entry, List.mem_append_left _ hentry, hkey⟩
  refine hw.grow hgrow rfl rfl hw.controller (fun j' s' n' e' hs' hphase' => ?_)
    (fun entry hentry => ?_) hopened
  · rcases setPhase_sessions hs' with ⟨rfl, rfl⟩ | ⟨-, hs'⟩
    · rcases Phase.send_cases hsend with ⟨handed, -, rfl, -⟩ | ⟨n, e, e₁, hphase, rfl, hend, -⟩
      · cases hphase'
      · obtain ⟨rfl, rfl⟩ := Phase.keyed.inj hphase'
        have hn := hw.sessions j' s n e hs hphase
        exact { hn with ordered := (Endpoint.send_ordered hn.ordered hend).1 }
    · exact hw.sessions j' s' n' e' hs' hphase'
  · rcases List.mem_append.mp hentry with hold | hnew
    · exact .inl hold
    · rcases Phase.send_cases hsend with ⟨handed, -, -, rfl⟩ | ⟨n, e, e', hphase, rfl, hend, rfl⟩
      · cases hnew
      · obtain rfl := List.mem_singleton.mp hnew
        have he' := (Endpoint.send_ordered (hw.sessions j s n e hs hphase).ordered hend).1
        exact .inr (.inr ⟨j, { s with phase := .keyed n e' }, n, e', Function.update_self .., rfl,
          he'.keyed.symm⟩)

/-- The key the controller opens with is derived from its own, so nobody else has it. -/
theorem ControllerBound.split (hn : ControllerBound L adv n e) :
    Encrypt.WellFormed n.transcript ∧ n.cipher.key =
      Encrypt.subkey L.toSodium n.key kxSplitInitiator n.transcript ∧
      n.cipher.openingKey = Encrypt.subkey L.toSodium n.key kxSplitResponder n.transcript := by
  obtain ⟨-, -, -, hcipher⟩ := setNegotiatedKey_ok hn.negotiated
  rcases hcipher with ⟨hzero, -⟩ | ⟨-, hsplit⟩
  · rw [hn.picked] at hzero
    cases hzero
  · obtain ⟨ht, hcipher⟩ := Encrypt.newSplit_ok hsplit
    rw [hn.role] at hcipher
    rw [hcipher]
    exact ⟨ht, rfl, rfl⟩

/-- A controller reads what it got. -/
theorem bound_controllerReceives (hadv : ∀ k data, adv (L.generichash k data) → adv k)
    (hw : Bound L id adv w) (htampered : Tampered L sk adv w (.controllerReceives frame))
    (h : kxStep L kn id w (.controllerReceives frame) = some w') : Bound L id adv w' := by
  obtain ⟨phase, hreceive, h⟩ := Option.bind_eq_some_iff.mp h
  obtain rfl := Option.some.inj h
  have hgrow := grows_controller (Phase.receive_later hreceive)
  rcases Phase.receive_cases hreceive with ⟨handed, hphase, rfl⟩ | ⟨n, e, e', hphase, rfl, hend⟩
  · refine hw.grow hgrow rfl rfl ?_ hw.sessions (fun _ h => .inl h) ?_
    · intro n e hn
      cases hn
    · intro n e data' hn
      cases hn
  · have hn := hw.controller n e hphase
    obtain ⟨he', -, hresults⟩ := Endpoint.receive_ordered hn.ordered hend
    refine hw.grow hgrow rfl rfl ?_ hw.sessions (fun _ h => .inl h) ?_
    · intro n₁ e₁ heq
      obtain ⟨rfl, rfl⟩ := Phase.keyed.inj heq
      exact { hn with ordered := he' }
    · intro n₁ e₁ data heq hdata
      obtain ⟨rfl, rfl⟩ := Phase.keyed.inj heq
      rcases hresults with hresults | ⟨hlong, hresults⟩
      · exact hw.opened n e data hphase (hresults ▸ hdata)
      · rw [hresults] at hdata
        rcases List.mem_append.mp hdata with hdata | hdata
        · exact hw.opened n e data hphase hdata
        · have hcount : e.cipher.received = e.results.length := by
            rw [hn.ordered.received, hn.ordered.results, List.length_mapIdx]
          have hopen := htampered n e data hphase hlong
          rw [hn.ordered.opens, hcount] at hopen
          rcases hopen (List.mem_singleton.mp hdata).symm with hlog | hleaked | hknown
          · exact ⟨_, hlog, rfl⟩
          · exact absurd hleaked hw.not_leaked
          · rw [hn.split.2.2] at hknown
            exact absurd (hadv _ _ hknown) hn.fresh.1

/-- A session reads what it got. -/
theorem bound_sessionReceives (hw : Bound L id adv w)
    (h : kxStep L kn id w (.sessionReceives j frame) = some w') : Bound L id adv w' := by
  obtain ⟨s, hs, h⟩ := Option.bind_eq_some_iff.mp h
  obtain ⟨phase, hreceive, h⟩ := Option.bind_eq_some_iff.mp h
  obtain rfl := Option.some.inj h
  refine hw.grow (grows_setPhase hs (Phase.receive_later hreceive)) rfl rfl hw.controller
    (fun j' s' n' e' hs' hphase' => ?_) (fun _ h => .inl h) hw.opened
  rcases setPhase_sessions hs' with ⟨rfl, rfl⟩ | ⟨-, hs'⟩
  · rcases Phase.receive_cases hreceive with ⟨handed, -, rfl⟩ | ⟨n, e, e₁, hphase, rfl, hend⟩
    · cases hphase'
    · obtain ⟨rfl, rfl⟩ := Phase.keyed.inj hphase'
      have hn := hw.sessions j' s n e hs hphase
      exact { hn with ordered := (Endpoint.receive_ordered hn.ordered hend).1 }
  · exact hw.sessions j' s' n' e' hs' hphase'

/-- **Step**: every event that ideal cryptography allows keeps the invariant. -/
theorem kxStep_bound (hL : L.Ideal) (hadv : ∀ k data, adv (L.generichash k data) → adv k)
    (hgenuine : trustedKey L kn = some (L.signPublic sk)) {event : Event K X}
    (hw : Bound L id adv w) (htampered : Tampered L sk adv w event)
    (h : kxStep L kn id w event = some w') : Bound L id adv w' := by
  cases event with
  | connect j secret => exact bound_connect hw h
  | toController bytes secret key sent => exact bound_toController hL hgenuine hw htampered h
  | toSession j bytes => exact bound_toSession hL hw htampered h
  | controllerFails =>
    rw [kxStep] at h
    split at h
    · rename_i hwaiting
      obtain rfl := Option.some.inj h
      refine hw.grow (grows_controller (Phase.later_of_waiting _ hwaiting)) rfl rfl ?_ hw.sessions
        (fun _ h => .inl h) ?_
      · intro n e hn
        cases hn
      · intro n e data hn
        cases hn
    · cases h
  | sessionFails j =>
    rw [kxStep] at h
    split at h
    · rename_i secret hs
      obtain rfl := Option.some.inj h
      refine hw.grow (grows_setPhase hs (Phase.later_of_waiting _ rfl)) rfl rfl hw.controller
        (fun j' s' n e hs' hphase => ?_) (fun _ h => .inl h) hw.opened
      rcases setPhase_sessions hs' with ⟨rfl, rfl⟩ | ⟨-, hs'⟩
      · cases hphase
      · exact hw.sessions j' s' n e hs' hphase
    · cases h
  | controllerSends data => exact bound_controllerSends hw h
  | sessionSends j data => exact bound_sessionSends hw h
  | controllerReceives frame => exact bound_controllerReceives hadv hw htampered h
  | sessionReceives j frame => exact bound_sessionReceives hw h

/-! ## Every run -/

variable (L) in
/-- The controller and a session of the controlled side are two ends of one exchange, at the newest
version, and the session is the one whose key the controller sealed to. -/
structure SameExchange (n n' : Negotiated K) (secret : X) : Prop where
  key : n.key = n'.key
  transcript : n.transcript = n'.transcript
  roles : n.isInitiator = true ∧ n'.isInitiator = false
  responder : n.transcript.responderPk = L.boxPublic secret
  advertised : n.transcript.advertised = kxVersionLatest
  picked : n.transcript.picked = kxVersionLatest

/-- A key of a session that is derived from the controller's key is derived from the same
transcript. -/
theorem SessionBound.same (hL : L.Ideal) (hadv : ∀ k data, adv (L.generichash k data) → adv k)
    {n n' : Negotiated K} {e e' : Endpoint K} {secret : X} (hn : ControllerBound L adv n e)
    (hn' : SessionBound L adv secret n' e') {d : UInt8}
    (h : n'.cipher.key = Encrypt.subkey L.toSodium n.key d n.transcript ∨
      n'.cipher.openingKey = Encrypt.subkey L.toSodium n.key d n.transcript) : SameExchange L n n'
        secret := by
  obtain ⟨-, -, -, hcipher⟩ := setNegotiatedKey_ok hn'.negotiated
  have hwell := hn.split.1
  rcases hcipher with ⟨-, hcipher⟩ | ⟨-, hsplit⟩
  · -- a stream of version 0 has the exchanged key itself
    have hkey : n'.key = L.generichash n.key (Encrypt.kdfInput d n.transcript) := by
      rw [hcipher] at h
      exact h.elim (fun h => h) fun h => h
    rcases hn'.key with hknown | hfresh
    · rw [hkey] at hknown
      exact absurd (hadv _ _ hknown) hn.fresh.1
    · exact absurd hkey.symm (hfresh _ _)
  · obtain ⟨hwell', hcipher⟩ := Encrypt.newSplit_ok hsplit
    have hsub : ∃ d', Encrypt.subkey L.toSodium n'.key d' n'.transcript =
        Encrypt.subkey L.toSodium n.key d n.transcript := by
      rw [hcipher] at h
      exact h.elim (fun h => ⟨_, h⟩) fun h => ⟨_, h⟩
    obtain ⟨d', hsub⟩ := hsub
    obtain ⟨hkey, -, htranscript⟩ := Encrypt.subkey_inj hL.toIdeal hwell' hwell hsub
    exact ⟨hkey.symm, htranscript.symm, ⟨hn.role, hn'.role⟩, htranscript ▸ hn'.responder,
      hn.advertised, hn.picked⟩

/-- A frame the controller's stream with a key has opened. -/
theorem Bound.controller_accepts (hL : L.Ideal)
    (hadv : ∀ k data, adv (L.generichash k data) → adv k) (hw : Bound L id adv w)
    (hn : w.controller = .keyed n e) (hdata : some data ∈ e.results) :
    ∃ j s n' e', w.sessions j = some s ∧ s.phase = .keyed n' e' ∧ SameExchange L n n' s.secret := by
  have hbound := hw.controller n e hn
  obtain ⟨hwell, hsend, hopen⟩ := hbound.split
  obtain ⟨entry, hentry, hkey⟩ := hw.opened n e data hn hdata
  rw [hopen] at hkey
  rcases hw.sealing entry hentry with ⟨n₁, e₁, hn₁, hkey₁⟩ | ⟨j, s, n', e', hs, hphase, hkey'⟩
  · -- the controller does not open what it sealed itself
    obtain ⟨rfl, -⟩ := Phase.keyed.inj (hn.symm.trans hn₁)
    rw [hsend, hkey] at hkey₁
    exact absurd (Encrypt.subkey_inj hL.toIdeal hwell hwell hkey₁).2.1 (by decide)
  · exact ⟨j, s, n', e', hs, hphase, (hw.sessions j s n' e' hs hphase).same hL hadv hbound
      (.inl (hkey'.trans hkey))⟩

/-- A frame the controller sealed and a session has opened. -/
theorem Bound.session_accepts (hL : L.Ideal) (hadv : ∀ k data, adv (L.generichash k data) → adv k)
    (hw : Bound L id adv w) {n' : Negotiated K} {e' : Endpoint K} {i : ℕ}
    (hn : w.controller = .keyed n e) (hs : w.sessions j = some s) (hphase : s.phase = .keyed n' e')
    (hframe : e'.frames[i]? = some frame) (hresult : e'.results[i]? = some (some data))
    (hbox : frame ∈ e.boxes) : SameExchange L n n' s.secret := by
  have hbound := hw.controller n e hn
  have hbound' := hw.sessions j s n' e' hs hphase
  rw [hbound.ordered.boxes] at hbox
  obtain ⟨k, hk, rfl⟩ := List.mem_mapIdx.mp hbox
  rw [hbound'.ordered.results, List.getElem?_mapIdx, hframe, Option.map_some] at hresult
  have hkey := hL.open_only _ _ _ _ _ _ (Option.some.inj hresult)
  exact hbound'.same hL hadv hbound (.inr (hkey.trans hbound.split.2.1))

theorem bound_start (hgenuine : trustedKey L kn = some (L.signPublic sk)) :
    Bound L id adv (World.start L kn) := by
  have hwaiting : (World.start L kn : World K X).controller = .waiting := by
    rw [World.start, hgenuine]
  refine ⟨by simp [World.start], by simp [World.start], ?_, by simp [World.start], by
    simp [World.start], ?_⟩
  · intro n e hn
    cases hwaiting.symm.trans hn
  · intro n e data hn
    cases hwaiting.symm.trans hn

/-- **Key agreement, and no downgrade**. On a wire that leaves the messages alone, two handshakes
that return leave both streams without a key, or with the same key and transcript in opposite roles.
On any wire, if the controller has the peer's own signing key, a frame its stream opens under a key,
and a frame of its own that a session opens, show that both ends are of one exchange, at the newest
version. -/
theorem key_agreement (hL : L.Ideal) :
    (∀ (kn : Knowledge) (sk : X) (id : String) (controlledSk controllerSk : X) (key : K)
      (c d : Option (Negotiated K)),
      exchange L kn sk id controlledSk controllerSk key = (.ok c, .ok d) → Agree c d) ∧
    ∀ (adv : K → Prop) (kn : Knowledge) (sk : X) (id : String) (events : List (Event K X))
      (w : World K X),
      (∀ k data, adv (L.generichash k data) → adv k) → trustedKey L kn = some (L.signPublic sk) →
      Along (kxStep L kn id) (Tampered L sk adv) (World.start L kn) events →
      exec (kxStep L kn id) (World.start L kn) events = some w →
      ∀ n e, w.controller = .keyed n e →
        ((∃ data, some data ∈ e.results) →
          ∃ j s n' e', w.sessions j = some s ∧ s.phase = .keyed n' e' ∧
            SameExchange L n n' s.secret) ∧
        ∀ (j i : ℕ) (s : Session K X) (n' : Negotiated K) (e' : Endpoint K) (frame data : Bytes),
          w.sessions j = some s → s.phase = .keyed n' e' → e'.frames[i]? = some frame →
          e'.results[i]? = some (some data) → frame ∈ e.boxes → SameExchange L n n' s.secret := by
  refine ⟨fun kn sk id controlledSk controllerSk key c d h => honest_agreement hL h, ?_⟩
  intro adv kn sk id events w hadv hgenuine htampered hrun n e hn
  have hw : Bound L id adv w := exec_invariant_along
    (fun w event w' hw htampered h => kxStep_bound hL hadv hgenuine hw htampered h)
      (bound_start hgenuine) htampered hrun
  refine ⟨?_, ?_⟩
  · rintro ⟨data, hdata⟩
    exact hw.controller_accepts hL hadv hn hdata
  · intro j i s n' e' frame data hs hphase hframe hresult hbox
    exact hw.session_accepts hL hadv hn hs hphase hframe hresult hbox

end Handshake

/-! ## An instance -/

/-- `unary`, read back. -/
def readUnary : Bytes → ℕ × Bytes
  | [] => (0, [])
  | b :: rest => if b = 1 then ((readUnary rest).1 + 1, (readUnary rest).2) else (0, rest)

@[simp] theorem readUnary_unary (n : ℕ) (rest : Bytes) :
    readUnary (unary n ++ rest) = (n, rest) := by
  induction n with
  | zero => rfl
  | succ n ih =>
    rw [unary, List.replicate_succ, List.cons_append, List.cons_append, ← unary, readUnary, ih]
    rfl

/-- `block`, read back. -/
def readBlock (b : Bytes) : Bytes × Bytes :=
  ((readUnary b).2.take (readUnary b).1, (readUnary b).2.drop (readUnary b).1)

@[simp] theorem readBlock_block (b rest : Bytes) : readBlock (block b ++ rest) = (b, rest) := by
  simp [readBlock, block]

/-- So many numbers, read one after the other. -/
def readMany {α : Type} (read : Bytes → α × Bytes) : ℕ → Bytes → List α × Bytes
  | 0, b => ([], b)
  | n + 1, b => ((read b).1 :: (readMany read n (read b).2).1, (readMany read n (read b).2).2)

theorem readMany_flatMap {α : Type} (read : Bytes → α × Bytes) (write : α → Bytes)
    (h : ∀ a rest, read (write a ++ rest) = (a, rest)) (l : List α) (rest : Bytes) :
    readMany read l.length (l.flatMap write ++ rest) = (l, rest) := by
  induction l with
  | nil => rfl
  | cons a l ih => simp [readMany, h, ih]

def text (s : String) : Bytes := unary s.toList.length ++ s.toList.flatMap fun c => unary c.toNat

def readText (b : Bytes) : String × Bytes :=
  let chars := readMany (fun b => (Char.ofNat (readUnary b).1, (readUnary b).2))
    (readUnary b).1 (readUnary b).2
  (String.ofList chars.1, chars.2)

@[simp] theorem readText_text (s : String) (rest : Bytes) :
    readText (text s ++ rest) = (s, rest) := by
  have hmany := readMany_flatMap (fun b => (Char.ofNat (readUnary b).1, (readUnary b).2))
    (fun c => unary c.toNat)
    (by simp) s.toList rest
  simp only [readText, text, List.append_assoc, readUnary_unary, hmany, String.ofList_toList]

def readKey (b : Bytes) : TermKey × Bytes :=
  let hashed := readMany readBlock (readUnary (readUnary b).2).1 (readUnary (readUnary b).2).2
  (⟨(readUnary b).1, hashed.1⟩, hashed.2)

@[simp] theorem readKey_code (key : TermKey) (rest : Bytes) :
    readKey (key.code ++ rest) = (key, rest) := by
  have hmany := readMany_flatMap readBlock block readBlock_block key.hashed rest
  simp only [readKey, TermKey.code, List.append_assoc, readUnary_unary, hmany]

/-- Signatures and boxes as terms: they name the keys they were made with. -/
def termLibrary : Library TermKey ℕ where
  toSodium := termSodium
  messageWrite
    | none => []
    | some (.signedId si) => 1 :: si
    | some (.publicKey pk) =>
      2 :: (block pk.asymmetricValue ++ (block pk.symmetricValue ++ unary pk.kxVersion.toNat))
    | some .other => [3]
  messageParse
    | [] => some none
    | 1 :: si => some (some (.signedId si))
    | 2 :: b =>
      let asymmetric := readBlock b
      let symmetric := readBlock asymmetric.2
      some (some (.publicKey ⟨asymmetric.1, symmetric.1, UInt32.ofNat (readUnary symmetric.2).1⟩))
    | [3] => some (some .other)
    | _ => none
  idPkWrite m := text m.id ++ (block m.pk ++ (text m.dtlsFingerprint ++ unary m.kxVersion.toNat))
  idPkParse b :=
    let id := readText b
    let pk := readBlock id.2
    let fingerprint := readText pk.2
    some ⟨id.1, pk.1, fingerprint.1, UInt32.ofNat (readUnary fingerprint.2).1⟩
  signPublic sk := littleEndian 32 sk
  sign sk m := littleEndian 32 sk ++ m
  verify pk blob := if blob.take 32 = pk then some (blob.drop 32) else none
  boxPublic sk := littleEndian 32 sk
  boxSeal m pk sk := littleEndian 32 sk ++ (pk ++ m)
  boxOpen b pk sk := if b.take 64 = pk ++ littleEndian 32 sk then some (b.drop 64) else none
  keyBytes := TermKey.code
  keyOf b := some (readKey b).1

theorem readUnary_last (n : ℕ) : readUnary (unary n) = (n, []) := by
  have h := readUnary_unary n []
  rwa [List.append_nil] at h

theorem termLibrary_ideal : termLibrary.Ideal where
  toIdeal := termSodium_ideal
  open_only key nonce key' nonce' data data' h := by
    have hleft : key.tag nonce <+: key'.tag nonce' ++ data := by
      by_contra hnot
      simp [termLibrary, termSodium, hnot] at h
    obtain ⟨rest, hrest⟩ := hleft
    simp only [TermKey.tag, List.append_assoc] at hrest
    have hkey := congrArg readKey (List.append_cancel_left hrest)
    rw [readKey_code, readKey_code] at hkey
    exact (Prod.mk.inj hkey).1
  parse_write m := by
    cases m with
    | none => rfl
    | some msg =>
      cases msg with
      | publicKey pk => simp [termLibrary, readUnary_last]
      | signedId | other => rfl
  idPk_parse_write m := by simp [termLibrary, readUnary_last]
  verify_sign sk m pk m' := by
    have htake : (littleEndian 32 sk ++ m).take 32 = littleEndian 32 sk :=
      List.take_left' (littleEndian_length 32 sk)
    have hdrop : (littleEndian 32 sk ++ m).drop 32 = m :=
      List.drop_left' (littleEndian_length 32 sk)
    simp only [termLibrary, htake, hdrop, Option.ite_none_right_eq_some, Option.some.injEq]
    exact ⟨fun h => ⟨h.1.symm, h.2.symm⟩, fun h => ⟨h.1.symm, h.2.symm⟩⟩
  boxPublic_length sk := by simp [termLibrary, publicKeyBytes]
  box_open_seal a b m := by
    have hlength : (littleEndian 32 a ++ littleEndian 32 b).length = 64 := by simp
    have htake : (littleEndian 32 a ++ littleEndian 32 b ++ m).take 64 = littleEndian 32 a ++
      littleEndian 32 b :=
      List.take_left' hlength
    have hdrop : (littleEndian 32 a ++ littleEndian 32 b ++ m).drop 64 = m :=
      List.drop_left' hlength
    simp only [termLibrary, ← List.append_assoc, htake, hdrop, if_true]
  keyOf_keyBytes key := by
    have h := readKey_code key []
    rw [List.append_nil] at h
    simp [termLibrary, h]

section Relay

variable {K X : Type} [DecidableEq K] (L : Library K X) (sk : X)

/-- The wire brings nothing it made itself: what verifies was signed, and what opens was sealed. -/
def Relayed (w : World K X) : Event K X → Bool
  | .toController bytes _ _ _ =>
    match L.messageParse bytes with
    | some (some (.signedId si)) =>
      (L.verify (L.signPublic sk) si).all fun payload => decide (payload ∈ w.signed)
    | _ => true
  | .toSession j bytes =>
    match w.sessions j, L.messageParse bytes with
    | some s, some (some (.publicKey pk)) =>
      (L.boxOpen pk.symmetricValue pk.asymmetricValue s.secret).all fun m =>
        decide ((pk.asymmetricValue, L.boxPublic s.secret, m) ∈ w.boxes)
    | _, _ => true
  | .controllerReceives frame =>
    match w.controller with
    | .keyed _ e =>
      (L.secretboxOpen e.cipher.openingKey (getNonce (e.cipher.received + 1)) frame).all fun data =>
        decide ((e.cipher.openingKey, getNonce (e.cipher.received + 1), data) ∈ w.seals)
    | _ => true
  | _ => true

/-- The key the controller draws. -/
def Event.draws : Event K X → Option K
  | .toController _ _ key _ => some key
  | _ => none

theorem relayed_tampered {adv : K → Prop} {w : World K X} {event : Event K X}
    (hfresh : ∀ key ∈ event.draws, FreshKey L adv key) (h : Relayed L sk w event = true) :
    Tampered L sk adv w event := by
  cases event with
  | toController bytes secret key sent =>
    refine ⟨hfresh key rfl, fun si payload hparse hverify => ?_⟩
    simpa [Relayed, hparse, hverify] using h
  | toSession j bytes =>
    intro s pk m hs hparse hopen
    exact .inl (by simpa [Relayed, hs, hparse, hopen] using h)
  | controllerReceives frame =>
    intro n e data hn _ hopen
    exact .inl (by simpa [Relayed, hn, hopen] using h)
  | connect | controllerFails | sessionFails | controllerSends | sessionSends | sessionReceives =>
    trivial

end Relay

/-- Keys of the wire's own. -/
def termAdv (key : TermKey) : Prop := key.exchanged ≠ 0

theorem termAdv_hash (key : TermKey) (data : Bytes)
    (h : termAdv (termLibrary.generichash key data)) : termAdv key := h

theorem termFresh : FreshKey termLibrary termAdv ⟨0, []⟩ := by
  refine ⟨by simp [termAdv], fun key data h => ?_⟩
  cases (TermKey.mk.inj h).2

def sampleKnowledge : Knowledge :=
  ⟨"", termLibrary.sign 2 (termLibrary.idPkWrite ⟨"", termLibrary.signPublic 1, "", 0⟩),
    some (termLibrary.signPublic 2)⟩

/-- The handshake of the key pairs 5 and 6, a frame each way, and a frame that comes back. -/
def sampleEvents : List (Event TermKey ℕ) :=
  [.connect 0 5,
    .toController (termLibrary.messageWrite (signedIdentity termLibrary 1 "" 5)) 6 ⟨0, []⟩ true,
    .toSession 0 (termLibrary.messageWrite (some (.publicKey ⟨termLibrary.boxPublic 6,
      termLibrary.boxSeal (termLibrary.keyBytes ⟨0, []⟩) (termLibrary.boxPublic 5) 6, 1⟩))),
    .controllerSends [104, 105],
    .sessionReceives 0 (termLibrary.secretboxSeal (Encrypt.subkey termSodium ⟨0, []⟩ 1
      ⟨termLibrary.boxPublic 6, termLibrary.boxPublic 5, 1, 1⟩) (getNonce 1) [104, 105]),
    .sessionSends 0 [106, 107],
    .controllerReceives (termLibrary.secretboxSeal (Encrypt.subkey termSodium ⟨0, []⟩ 2
      ⟨termLibrary.boxPublic 6, termLibrary.boxPublic 5, 1, 1⟩) (getNonce 1) [106, 107])]

/-- What a stream with a key has opened. -/
def Phase.opened {K : Type} : Phase K → List (Option Bytes)
  | .keyed _ e => e.results
  | _ => []

theorem along_relayed (events : List (Event TermKey ℕ)) (w : World TermKey ℕ)
    (hdraws : ∀ event ∈ events, ∀ key ∈ event.draws, key = ⟨0, []⟩)
    (h : Along (kxStep termLibrary sampleKnowledge "")
    (fun w event => Relayed termLibrary 1 w event = true) w events) :
    Along (kxStep termLibrary sampleKnowledge "") (Tampered termLibrary 1 termAdv) w events :=
  along_imp (fun event hevent _ hrelayed => relayed_tampered termLibrary 1
    (fun key hkey => hdraws event hevent key hkey ▸ termFresh) hrelayed) h

theorem key_agreement_sample : ∃ w n e j s n' e', exec (kxStep termLibrary sampleKnowledge "")
      (World.start termLibrary sampleKnowledge)
        sampleEvents = some w ∧ w.controller = .keyed n e ∧ some [106, 107] ∈ e.results ∧
      w.sessions j = some s ∧ s.phase = .keyed n' e' ∧ SameExchange termLibrary n n' s.secret := by
  have hrun :
    (exec (kxStep termLibrary sampleKnowledge "") (World.start termLibrary sampleKnowledge)
      sampleEvents).any
      (fun w => decide (w.controller.opened = [some [106, 107]])) = true := by decide +kernel
  have hgenuine : trustedKey termLibrary sampleKnowledge = some (termLibrary.signPublic 1) := by
    decide +kernel
  have htampered := along_relayed sampleEvents (World.start termLibrary sampleKnowledge)
    (by decide +kernel) (by decide +kernel)
  obtain ⟨w, hexec, hw⟩ := (Option.any_eq_true _ _).mp hrun
  have hopened := of_decide_eq_true hw
  cases hn : w.controller with
  | waiting => simp [hn, Phase.opened] at hopened
  | failed => simp [hn, Phase.opened] at hopened
  | unkeyed handed => simp [hn, Phase.opened] at hopened
  | keyed n e =>
    have hdata : some [106, 107] ∈ e.results := by
      rw [hn, Phase.opened] at hopened
      simp [hopened]
    obtain ⟨j, s, n', e', hs, hphase, hsame⟩ :=
      ((key_agreement termLibrary_ideal).2 termAdv sampleKnowledge 1 ""
      sampleEvents w termAdv_hash hgenuine htampered hexec n e hn).1 ⟨_, hdata⟩
    exact ⟨w, n, e, j, s, n', e', hexec, hn, hdata, hs, hphase, hsame⟩

/-- What `next` has handed over of frames longer than one byte. -/
def Phase.Accepts {K : Type} : Phase K → Bytes → Prop
  | .unkeyed handed, frame => 1 < frame.length ∧ frame ∈ handed
  | .keyed _ e, frame =>
    ∃ (i : ℕ) (data : Bytes), e.frames[i]? = some frame ∧ e.results[i]? = some (some data)
  | _, _ => False

/-- A first message that is no message, and a frame. -/
def fallbackEvents : List (Event TermKey ℕ) :=
  [.connect 0 5, .toController [9, 9] 6 ⟨0, []⟩ true, .controllerReceives [1, 2, 3]]

/-- **Fallback**: a controller with the peer's signing key goes on without a stream key after a
message that does not parse, and takes the frames that follow as they are. -/
theorem fallback_accepts :
    trustedKey termLibrary sampleKnowledge = some (termLibrary.signPublic 1) ∧
      Along (kxStep termLibrary sampleKnowledge "") (Tampered termLibrary 1 termAdv)
        (World.start termLibrary sampleKnowledge) fallbackEvents ∧
      ∃ w, exec (kxStep termLibrary sampleKnowledge "") (World.start termLibrary sampleKnowledge)
        fallbackEvents =
          some w ∧ w.controller.Accepts [1, 2, 3] ∧ ¬∃ n e, w.controller = .keyed n e := by
  refine ⟨by
    decide +kernel, along_relayed _ _ (by decide +kernel) (by decide +kernel), _, rfl, ?_, ?_⟩
  · exact ⟨by decide, List.mem_singleton_self _⟩
  · rintro ⟨n, e, h⟩
    cases h

end Tcp
end BgDesk
