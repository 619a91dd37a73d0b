import Mathlib.Data.List.Basic
import BgDesk.Machine
import BgDesk.Checked
import BgDesk.BytesCodec
import BgDesk.LittleEndian

/-!
# The encrypted stream

`libs/hbb_common/src/tcp.rs`: two counters, one for each direction, stand in for a nonce on the
wire. The counter of the sender moves with every message, that of the receiver with every frame
longer than one byte, whether it opens or not.

The library behind it is a parameter, `Sodium`, and what is expected of it is `Sodium.Ideal`
together with `Authentic`: a frame opens only if it was sealed under the same key and nonce.

* `Encrypt.enc`, `Encrypt.dec`, `Encrypt.newSplit` — the stream key;
* `step` — two ends, and a wire on which anything may happen to whole frames;
* `step_ordered` — what one step keeps: what an end sealed and what it saw are functions of its
  counters;
* `authenticated_delivery` — every run.
-/

namespace BgDesk
namespace Tcp

/-! ## The stream key -/

/-- `secretbox::NONCEBYTES`. -/
def nonceBytes : ℕ := 24

/-- `box_::PUBLICKEYBYTES`. -/
def publicKeyBytes : ℕ := 32

/-- `KX_SPLIT_CONTEXT`, `b"rdkx-spl"`. -/
def kxSplitContext : Bytes := [114, 100, 107, 120, 45, 115, 112, 108]

/-- `KX_SPLIT_INITIATOR`. -/
def kxSplitInitiator : UInt8 := 1

/-- `KX_SPLIT_RESPONDER`. -/
def kxSplitResponder : UInt8 := 2

/-- What the stream uses of the library: `secretbox` and the keyed `generichash`. -/
structure Sodium (K : Type) where
  secretboxSeal : K → Bytes → Bytes → Bytes
  secretboxOpen : K → Bytes → Bytes → Option Bytes
  generichash : K → Bytes → K

/-- A box opens under the key and the nonce it was sealed with, it is longer than its tag, and
hashes do not collide. -/
structure Sodium.Ideal {K : Type} (S : Sodium K) : Prop where
  open_seal : ∀ key nonce data, S.secretboxOpen key nonce (S.secretboxSeal key nonce data) =
    some data
  seal_length : ∀ key nonce data, 16 ≤ (S.secretboxSeal key nonce data).length
  generichash_inj : ∀ key data key' data', S.generichash key data = S.generichash key' data' →
    key = key' ∧ data = data'

/-- `KxTranscript`. -/
structure KxTranscript where
  initiatorPk : Bytes
  responderPk : Bytes
  advertised : UInt32
  picked : UInt32
  deriving DecidableEq

/-- `get_nonce`. -/
def getNonce (seqnum : ℕ) : Bytes := littleEndian 8 seqnum ++ List.replicate (nonceBytes - 8) 0

theorem getNonce_inj {m n : ℕ} (hm : m < 2 ^ 64) (hn : n < 2 ^ 64) (h : getNonce m = getNonce n) :
    m = n :=
  littleEndian_inj hm hn (List.append_cancel_right h)

/-- `Encrypt`: the sending key, the send and receive counters, and the receiving key where it
differs. -/
structure Encrypt (K : Type) where
  key : K
  sent : ℕ
  received : ℕ
  receiving : Option K
  deriving DecidableEq

namespace Encrypt

variable {K : Type} (S : Sodium K)

/-- `Encrypt::new`. -/
def new (key : K) : Encrypt K := ⟨key, 0, 0, none⟩

/-- What `derive_subkey` feeds the hash. -/
def kdfInput (direction : UInt8) (t : KxTranscript) : Bytes :=
  kxSplitContext ++ [direction] ++ littleEndian 4 t.advertised.toNat ++
    littleEndian 4 t.picked.toNat ++
    t.initiatorPk ++ t.responderPk

/-- `derive_subkey`. -/
def deriveSubkey (key : K) (direction : UInt8) (t : KxTranscript) : Except String K :=
  if t.initiatorPk.length ≠ publicKeyBytes ∨ t.responderPk.length ≠ publicKeyBytes then
    .error "key exchange transcript has a public key of the wrong length"
  else .ok (S.generichash key (kdfInput direction t))

/-- `Encrypt::new_split`. -/
def newSplit (key : K) (isInitiator : Bool) (t : KxTranscript) : Except String (Encrypt K) := do
  let initiator ← deriveSubkey S key kxSplitInitiator t
  let responder ← deriveSubkey S key kxSplitResponder t
  return if isInitiator then ⟨initiator, 0, 0, some responder⟩ else ⟨responder, 0, 0,
    some initiator⟩

/-- The key `dec` opens with. -/
def openingKey (e : Encrypt K) : K := e.receiving.getD e.key

/-- `dec`. The counter of frames moves even if the frame does not open. -/
def dec (e : Encrypt K) (bytes : Bytes) : Option (Encrypt K × Except String Bytes) :=
  if bytes.length ≤ 1 then some (e, .ok bytes)
  else do
    let received ← checkedAdd 64 e.received 1
    return ({ e with received := received },
      match S.secretboxOpen e.openingKey (getNonce received) bytes with
      | some res => .ok res
      | none => .error "decryption error")

/-- `enc`. -/
def enc (e : Encrypt K) (data : Bytes) : Option (Encrypt K × Bytes) := do
  let sent ← checkedAdd 64 e.sent 1
  return ({ e with sent := sent }, S.secretboxSeal e.key (getNonce sent) data)

/-! ### Subkeys -/

variable {S}

theorem kdfInput_inj {d d' : UInt8} {t t' : KxTranscript}
    (ht : t.initiatorPk.length = t'.initiatorPk.length) (h : kdfInput d t = kdfInput d' t') :
    d = d' ∧ t = t' := by
  rw [kdfInput, kdfInput] at h
  simp only [List.append_assoc] at h
  obtain ⟨-, h⟩ := List.append_inj h rfl
  obtain ⟨hd, h⟩ := List.append_inj h rfl
  obtain ⟨hadvertised, h⟩ := List.append_inj h (by simp)
  obtain ⟨hpicked, h⟩ := List.append_inj h (by simp)
  obtain ⟨hinitiator, hresponder⟩ := List.append_inj h ht
  have hnum : ∀ x y : UInt32, littleEndian 4 x.toNat = littleEndian 4 y.toNat → x = y :=
    fun x y h =>
    UInt32.toNat_inj.mp (littleEndian_inj (UInt32.toNat_lt x) (UInt32.toNat_lt y) h)
  refine ⟨(List.cons.inj hd).1, ?_⟩
  cases t
  cases t'
  simp only [KxTranscript.mk.injEq]
  exact ⟨hinitiator, hresponder, hnum _ _ hadvertised, hnum _ _ hpicked⟩

/-- A transcript whose public keys have the right length. -/
def WellFormed (t : KxTranscript) : Prop :=
  t.initiatorPk.length = publicKeyBytes ∧ t.responderPk.length = publicKeyBytes

/-- The key of one direction. -/
def subkey (S : Sodium K) (key : K) (direction : UInt8) (t : KxTranscript) : K :=
  S.generichash key (kdfInput direction t)

theorem subkey_inj (hS : S.Ideal) {key key' : K} {d d' : UInt8} {t t' : KxTranscript}
    (ht : WellFormed t) (ht' : WellFormed t') (h : subkey S key d t = subkey S key' d' t') :
    key = key' ∧ d = d' ∧ t = t' := by
  obtain ⟨hkey, hdata⟩ := hS.generichash_inj _ _ _ _ h
  exact ⟨hkey, kdfInput_inj (ht.1.trans ht'.1.symm) hdata⟩

/-- The direction a side sends in. -/
def direction (isInitiator : Bool) : UInt8 :=
  if isInitiator then kxSplitInitiator else kxSplitResponder

theorem newSplit_ok {key : K} {isInitiator : Bool} {t : KxTranscript} {e : Encrypt K}
    (h : newSplit S key isInitiator t = .ok e) : WellFormed t ∧
      e = ⟨subkey S key (direction isInitiator) t, 0, 0,
        some (subkey S key (direction !isInitiator) t)⟩ := by
  rw [newSplit, deriveSubkey, deriveSubkey] at h
  by_cases hlen : t.initiatorPk.length ≠ publicKeyBytes ∨ t.responderPk.length ≠ publicKeyBytes
  · rw [if_pos hlen] at h
    cases h
  · rw [if_neg hlen, if_neg hlen] at h
    refine ⟨by simpa [WellFormed] using hlen, ?_⟩
    obtain rfl := Except.ok.inj h
    cases isInitiator <;> rfl

end Encrypt

/-! ## Two ends and a wire -/

/-- The two sides of the key exchange. -/
inductive Side where
  | initiator
  | responder
  deriving DecidableEq

/-- The peer. -/
def Side.other : Side → Side
  | .initiator => .responder
  | .responder => .initiator

/-- The side that sent the sealed key. -/
def Side.isInitiator : Side → Bool
  | .initiator => true
  | .responder => false

@[simp] theorem Side.other_other (side : Side) : side.other.other = side := by cases side <;> rfl

theorem Side.eq_or_eq_other (side side' : Side) : side' = side ∨ side' = side.other := by
  cases side <;> cases side' <;> simp [Side.other]

/-- One end, with what has been passed to `enc` and `dec`. -/
structure Endpoint (K : Type) where
  cipher : Encrypt K
  /-- what `enc` was given -/
  plaintexts : List Bytes
  /-- what `enc` returned -/
  boxes : List Bytes
  /-- the frames longer than one byte that `dec` was given -/
  frames : List Bytes
  /-- what `dec` made of each of them -/
  results : List (Option Bytes)

/-- Both ends, and every use of `secretbox::seal`: the key, the nonce and the message. -/
structure Link (K : Type) where
  ends : Side → Endpoint K
  seals : List (K × Bytes × Bytes)

/-- An end sends a message, or a frame arrives at it. The wire may bring any frame at any time. -/
inductive Act where
  | send (side : Side) (data : Bytes)
  | receive (side : Side) (frame : Bytes)
  deriving DecidableEq

section Wire

variable {K : Type} (S : Sodium K)

def Endpoint.start (cipher : Encrypt K) : Endpoint K := ⟨cipher, [], [], [], []⟩

def Link.start (ciphers : Side → Encrypt K) : Link K :=
  ⟨fun side => Endpoint.start (ciphers side), []⟩

/-- `send_raw`, up to the wire. -/
def Endpoint.send (e : Endpoint K) (data : Bytes) : Option (Endpoint K) := do
  let (cipher, box) ← e.cipher.enc S data
  return { e with
    cipher := cipher, plaintexts := e.plaintexts ++ [data], boxes := e.boxes ++ [box] }

/-- `next`, from the wire on. A frame of at most one byte is handed over as it is. -/
def Endpoint.receive (e : Endpoint K) (frame : Bytes) : Option (Endpoint K) := do
  let (cipher, res) ← e.cipher.dec S frame
  return if frame.length ≤ 1 then { e with cipher := cipher }
    else { e with
      cipher := cipher, frames := e.frames ++ [frame], results := e.results ++ [res.toOption] }

/-- One step. -/
def step (l : Link K) : Act → Option (Link K)
  | .send side data => do
    let e ← (l.ends side).send S data
    return ⟨Function.update l.ends side e, l.seals ++
      [(e.cipher.key, getNonce e.cipher.sent, data)]⟩
  | .receive side frame => do
    let e ← (l.ends side).receive S frame
    return { l with ends := Function.update l.ends side e }

/-- **Authenticity**: a frame that opens was sealed under the same key and nonce. -/
def Authentic (l : Link K) : Act → Prop
  | .send _ _ => True
  | .receive side frame =>
    let cipher := (l.ends side).cipher
    let nonce := getNonce (cipher.received + 1)
    1 < frame.length → ∀ data ∈ S.secretboxOpen cipher.openingKey nonce frame,
      (cipher.openingKey, nonce, data) ∈ l.seals ∧
        frame = S.secretboxSeal cipher.openingKey nonce data

/-! ## What one step keeps -/

/-- What an end sealed and saw, as functions of what it was given. -/
structure Endpoint.Ordered (key opening : K) (e : Endpoint K) : Prop where
  keyed : e.cipher.key = key
  opens : e.cipher.openingKey = opening
  sent : e.cipher.sent = e.plaintexts.length
  few : e.plaintexts.length < 2 ^ 64
  boxes : e.boxes = e.plaintexts.mapIdx fun i data => S.secretboxSeal key (getNonce (i + 1)) data
  received : e.cipher.received = e.frames.length
  seen : e.frames.length < 2 ^ 64
  results : e.results = e.frames.mapIdx fun i frame =>
    S.secretboxOpen opening (getNonce (i + 1)) frame

variable {S} {key opening : K}

theorem Endpoint.ordered_start {cipher : Encrypt K} (hsent : cipher.sent = 0)
    (hreceived : cipher.received = 0) :
    (Endpoint.start cipher).Ordered S cipher.key cipher.openingKey :=
  ⟨rfl, rfl, hsent, by simp [Endpoint.start], rfl, hreceived, by simp [Endpoint.start], rfl⟩

theorem checkedAdd_eq_some {w a b c : ℕ} (h : checkedAdd w a b = some c) :
    c = a + b ∧ a + b < 2 ^ w := by
  rw [checkedAdd] at h
  split at h
  · exact ⟨(Option.some.inj h).symm, ‹_›⟩
  · cases h

variable {data frame : Bytes} {l l' : Link K} {side : Side} {ciphers : Side → Encrypt K}
  {acts : List Act}

/-- What sending does to an end. -/
theorem Endpoint.send_ordered {e e' : Endpoint K} (he : e.Ordered S key opening)
    (h : e.send S data = some e') :
    e'.Ordered S key opening ∧ e'.plaintexts = e.plaintexts ++ [data] ∧ e'.results = e.results ∧
      e'.cipher.sent = e.plaintexts.length + 1 := by
  obtain ⟨⟨cipher, box⟩, henc, h⟩ := Option.bind_eq_some_iff.mp h
  obtain ⟨sent, hadd, henc⟩ := Option.bind_eq_some_iff.mp henc
  obtain ⟨rfl, hfew⟩ := checkedAdd_eq_some hadd
  obtain ⟨rfl, rfl⟩ := Prod.mk.inj (Option.some.inj henc)
  obtain rfl := Option.some.inj h
  have hsent : e.cipher.sent + 1 = e.plaintexts.length + 1 := congrArg (· + 1) he.sent
  have hlength : (e.plaintexts ++ [data]).length = e.plaintexts.length + 1 := by simp
  refine ⟨{ he with sent := ?_, few := ?_, boxes := ?_ }, rfl, rfl, hsent⟩
  · exact hsent.trans hlength.symm
  · show (e.plaintexts ++ [data]).length < 2 ^ 64
    omega
  · show e.boxes ++ [S.secretboxSeal e.cipher.key (getNonce (e.cipher.sent + 1)) data] = _
    rw [List.mapIdx_concat, he.boxes, he.keyed, he.sent]

/-- What receiving does to an end. -/
theorem Endpoint.receive_ordered {e e' : Endpoint K} (he : e.Ordered S key opening)
    (h : e.receive S frame = some e') : e'.Ordered S key opening ∧ e'.plaintexts = e.plaintexts ∧
      (e'.results = e.results ∨
        1 < frame.length ∧ e'.results = e.results ++
          [S.secretboxOpen opening (getNonce (e.results.length + 1)) frame]) := by
  obtain ⟨⟨cipher, res⟩, hdec, h⟩ := Option.bind_eq_some_iff.mp h
  rw [Encrypt.dec] at hdec
  have hlength : e.results.length = e.frames.length := by rw [he.results, List.length_mapIdx]
  by_cases hshort : frame.length ≤ 1
  · rw [if_pos hshort] at hdec
    obtain ⟨rfl, rfl⟩ := Prod.mk.inj (Option.some.inj hdec)
    dsimp only at h
    rw [if_pos hshort] at h
    obtain rfl := Option.some.inj h
    exact ⟨{ he with }, rfl, .inl rfl⟩
  · rw [if_neg hshort] at hdec
    obtain ⟨received, hadd, hdec⟩ := Option.bind_eq_some_iff.mp hdec
    obtain ⟨rfl, hseen⟩ := checkedAdd_eq_some hadd
    obtain ⟨rfl, rfl⟩ := Prod.mk.inj (Option.some.inj hdec)
    dsimp only at h
    rw [if_neg hshort] at h
    obtain rfl := Option.some.inj h
    have hres :
      (match S.secretboxOpen e.cipher.openingKey (getNonce (e.cipher.received + 1)) frame with
        | some res => Except.ok res
        | none => Except.error "decryption error" : Except String Bytes).toOption =
          S.secretboxOpen opening (getNonce (e.frames.length + 1)) frame := by
      rw [he.opens, he.received]
      cases S.secretboxOpen opening (getNonce (e.frames.length + 1)) frame <;> rfl
    have hreceived := he.received
    have happend : (e.frames ++ [frame]).length = e.frames.length + 1 := by simp
    refine ⟨{ he with received := ?_, seen := ?_, results := ?_ }, rfl, .inr ⟨by omega, ?_⟩⟩
    · show e.cipher.received + 1 = (e.frames ++ [frame]).length
      omega
    · show (e.frames ++ [frame]).length < 2 ^ 64
      omega
    · dsimp only
      rw [hres, List.mapIdx_concat, he.results]
    · dsimp only
      rw [hres, hlength]

variable (S) in
/-- Both ends, and the log: what is in it was sealed by an end in its turn, and what an end opened
is in it. -/
structure Link.Ordered (keys openings : Side → K) (l : Link K) : Prop where
  ends : ∀ side, (l.ends side).Ordered S (keys side) (openings side)
  sealing : ∀ key nonce data, (key, nonce, data) ∈ l.seals →
    ∃ side i, key = keys side ∧ nonce = getNonce (i + 1) ∧ (l.ends side).plaintexts[i]? = some data
  opened : ∀ side i data, (l.ends side).results[i]? = some (some data) →
    (openings side, getNonce (i + 1), data) ∈ l.seals

variable {keys openings : Side → K}

theorem step_send (h : step S l (.send side data) = some l') :
    (l.ends side).send S data = some (l'.ends side) ∧
      (∀ side' ≠ side, l'.ends side' = l.ends side') ∧
      l'.seals = l.seals ++ [((l'.ends side).cipher.key, getNonce (l'.ends side).cipher.sent,
        data)] := by
  obtain ⟨e, hsend, h⟩ := Option.bind_eq_some_iff.mp h
  obtain rfl := Option.some.inj h
  simp only [Function.update_self]
  exact ⟨hsend, fun side' hside => Function.update_of_ne hside _ _, trivial⟩

theorem step_receive (h : step S l (.receive side frame) = some l') :
    (l.ends side).receive S frame = some (l'.ends side) ∧
      (∀ side' ≠ side, l'.ends side' = l.ends side') ∧
      l'.seals = l.seals := by
  obtain ⟨e, hreceive, h⟩ := Option.bind_eq_some_iff.mp h
  obtain rfl := Option.some.inj h
  simp only [Function.update_self]
  exact ⟨hreceive, fun side' hside => Function.update_of_ne hside _ _, trivial⟩

theorem send_ordered (hl : l.Ordered S keys openings) (h : step S l (.send side data) = some l') :
    l'.Ordered S keys openings ∧
      l'.seals = l.seals ++ [(keys side, getNonce ((l.ends side).plaintexts.length + 1),
        data)] := by
  obtain ⟨hsend, hother, hlog⟩ := step_send h
  obtain ⟨he, hplain, hresults, hsent⟩ := Endpoint.send_ordered (hl.ends side) hsend
  rw [he.keyed, hsent] at hlog
  refine ⟨⟨fun side' => ?_, fun key nonce data' hmem => ?_, fun side' i data' hres => ?_⟩, hlog⟩
  · by_cases hside : side' = side
    · exact hside ▸ he
    · exact hother side' hside ▸ hl.ends side'
  · rw [hlog] at hmem
    rcases List.mem_append.mp hmem with hmem | hmem
    · obtain ⟨side', i, hkey, hnonce, hi⟩ := hl.sealing key nonce data' hmem
      refine ⟨side', i, hkey, hnonce, ?_⟩
      by_cases hside : side' = side
      · rw [hside] at hi ⊢
        rw [hplain]
        exact (List.getElem?_append_left (List.getElem?_eq_some_iff.mp hi).1).trans hi
      · rw [hother side' hside]
        exact hi
    · obtain ⟨rfl, hrest⟩ := Prod.mk.inj (List.mem_singleton.mp hmem)
      obtain ⟨rfl, rfl⟩ := Prod.mk.inj hrest
      refine ⟨side, (l.ends side).plaintexts.length, rfl, rfl, ?_⟩
      rw [hplain]
      exact List.getElem?_concat_length
  · rw [hlog]
    refine List.mem_append_left _ (hl.opened side' i data' ?_)
    by_cases hside : side' = side
    · rw [hside] at hres ⊢
      rwa [hresults] at hres
    · rwa [hother side' hside] at hres

theorem receive_ordered (hl : l.Ordered S keys openings)
    (hauth : Authentic S l (.receive side frame)) (h : step S l (.receive side frame) = some l') :
    l'.Ordered S keys openings ∧ l'.seals = l.seals ∧
      ∀ side, (l'.ends side).plaintexts = (l.ends side).plaintexts := by
  obtain ⟨hreceive, hother, hlog⟩ := step_receive h
  obtain ⟨he, hplain, hresults⟩ := Endpoint.receive_ordered (hl.ends side) hreceive
  have hsame : ∀ side', (l'.ends side').plaintexts = (l.ends side').plaintexts := by
    intro side'
    by_cases hside : side' = side
    · rw [hside, hplain]
    · rw [hother side' hside]
  refine ⟨⟨fun side' => ?_, fun key nonce data hmem => ?_, fun side' i data hres => ?_⟩, hlog,
    hsame⟩
  · by_cases hside : side' = side
    · exact hside ▸ he
    · exact hother side' hside ▸ hl.ends side'
  · obtain ⟨side', i, hkey, hnonce, hi⟩ := hl.sealing key nonce data (hlog ▸ hmem)
    exact ⟨side', i, hkey, hnonce, (congrArg (·[i]?) (hsame side')).trans hi⟩
  · rw [hlog]
    by_cases hside : side' = side
    · rw [hside] at hres ⊢
      rcases hresults with hresults | ⟨hlong, hresults⟩
      · exact hl.opened side i data (hresults ▸ hres)
      · rw [hresults] at hres
        rcases Nat.lt_trichotomy i (l.ends side).results.length with hlt | heq | hgt
        · rw [List.getElem?_append_left hlt] at hres
          exact hl.opened side i data hres
        · -- the frame that has just come
          rw [heq, List.getElem?_concat_length] at hres
          have hend := hl.ends side
          have hcount : (l.ends side).cipher.received = (l.ends side).results.length := by
            rw [hend.received, hend.results, List.length_mapIdx]
          have hopen := hauth hlong data
          rw [hend.opens, hcount] at hopen
          exact heq ▸ (hopen (Option.some.inj hres)).1
        · rw [List.getElem?_eq_none (by simp; omega)] at hres
          cases hres
    · rw [hother side' hside] at hres
      exact hl.opened side' i data hres

/-- **Step**: every step of an authentic run keeps both ends in order, and never seals twice under
the same key and nonce. -/
theorem step_ordered (hkeys : keys .initiator ≠ keys .responder) {act : Act}
    (hl : l.Ordered S keys openings ∧ (l.seals.map fun entry => (entry.1, entry.2.1)).Nodup)
    (hauth : Authentic S l act) (h : step S l act = some l') :
    l'.Ordered S keys openings ∧ (l'.seals.map fun entry => (entry.1, entry.2.1)).Nodup := by
  obtain ⟨hl, hnodup⟩ := hl
  cases act with
  | send side data =>
    obtain ⟨hl', hlog⟩ := send_ordered hl h
    refine ⟨hl', ?_⟩
    rw [hlog, List.map_append]
    refine List.nodup_append.mpr ⟨hnodup, by simp, ?_⟩
    rintro pair hpair _ hnew rfl
    obtain ⟨⟨key, nonce, data'⟩, hmem, rfl⟩ := List.mem_map.mp hpair
    obtain ⟨side', i, hkey, hnonce, hi⟩ := hl.sealing key nonce data' hmem
    simp only [List.map_cons, List.map_nil, List.mem_singleton, Prod.mk.injEq] at hnew
    obtain ⟨hkey', hnonce'⟩ := hnew
    have hside : side' = side := by
      have heq : keys side' = keys side := hkey.symm.trans hkey'
      cases side <;> cases side' <;>
        first | rfl | exact absurd heq hkeys | exact absurd heq.symm hkeys
    have hlt : i < (l.ends side).plaintexts.length := by
      rw [hside] at hi
      exact (List.getElem?_eq_some_iff.mp hi).1
    have hfew := (hl'.ends side).few
    have hlength : (l'.ends side).plaintexts.length = (l.ends side).plaintexts.length + 1 := by
      obtain ⟨hsend, -, -⟩ := step_send h
      rw [(Endpoint.send_ordered (hl.ends side) hsend).2.1]
      simp
    have := getNonce_inj (by omega) (by omega) (hnonce.symm.trans hnonce')
    omega
  | receive side frame =>
    obtain ⟨hl', hlog, -⟩ := receive_ordered hl hauth h
    exact ⟨hl', hlog ▸ hnodup⟩

/-- **Run**: what `step_ordered` keeps, from ends whose counters are at zero. -/
theorem run_ordered (hzero : ∀ side, (ciphers side).sent = 0 ∧ (ciphers side).received = 0)
    (hauth : Along (step S) (Authentic S) (Link.start ciphers) acts)
    (hrun : exec (step S) (Link.start ciphers) acts = some l) :
    l.Ordered S (fun side => (ciphers side).key) (fun side => (ciphers side).openingKey) ∧
      ((ciphers .initiator).key ≠ (ciphers .responder).key →
        (l.seals.map fun entry => (entry.1, entry.2.1)).Nodup) := by
  have hstart : (Link.start ciphers).Ordered S (fun side => (ciphers side).key) fun side =>
    (ciphers side).openingKey :=
    ⟨fun side => Endpoint.ordered_start (hzero side).1 (hzero side).2, by simp [Link.start],
      by simp [Link.start, Endpoint.start]⟩
  have hstep : ∀ (l : Link K) (act : Act) (l' : Link K),
      l.Ordered S (fun side => (ciphers side).key) (fun side => (ciphers side).openingKey) →
        Authentic S l act →
      step S l act = some l' →
      l'.Ordered S (fun side => (ciphers side).key) fun side => (ciphers side).openingKey := by
    intro l act l' hl hauth h
    cases act with
    | send side data => exact (send_ordered hl h).1
    | receive side frame => exact (receive_ordered hl hauth h).1
  refine ⟨exec_invariant_along hstep hstart hauth hrun, fun hkeys => ?_⟩
  have honce := exec_invariant_along (fun l act l' hl hauth h => step_ordered hkeys hl hauth h)
    ⟨hstart, by simp [Link.start]⟩ hauth hrun
  exact honce.2

/-- What an end opened was sealed by an end that sends under its opening key, as the message of the
same number. -/
theorem Link.Ordered.opened_from (hl : l.Ordered S keys openings) {i : ℕ}
    (h : (l.ends side).results[i]? = some (some data)) :
    ∃ side', keys side' = openings side ∧ (l.ends side').plaintexts[i]? = some data := by
  obtain ⟨side', j, hkey, hnonce, hj⟩ := hl.sealing _ _ _ (hl.opened side i data h)
  have hi : i < (l.ends side).frames.length := by
    have := (List.getElem?_eq_some_iff.mp h).1
    rwa [(hl.ends side).results, List.length_mapIdx] at this
  have hj' : j < (l.ends side').plaintexts.length := (List.getElem?_eq_some_iff.mp hj).1
  have hseen := (hl.ends side).seen
  have hfew := (hl.ends side').few
  have := getNonce_inj (by omega) (by omega) hnonce
  obtain rfl : i = j := by omega
  exact ⟨side', hkey.symm, hj⟩

/-- Frames that are the peer's boxes in order all open. -/
theorem Link.Ordered.recovered (hS : S.Ideal) (hl : l.Ordered S keys openings) {side' : Side}
    (hkey : keys side' = openings side) (h : (l.ends side).frames <+: (l.ends side').boxes) :
    (l.ends side).results = ((l.ends side').plaintexts.take (l.ends side).frames.length).map
      some := by
  rw [(hl.ends side').boxes] at h
  have hlength := h.length_le
  rw [List.length_mapIdx] at hlength
  rw [(hl.ends side).results]
  refine List.ext_getElem? fun i => ?_
  rw [List.getElem?_mapIdx, List.getElem?_map, List.getElem?_take]
  by_cases hi : i < (l.ends side).frames.length
  · have hframe := (List.prefix_iff_getElem?.mp h) i hi
    rw [List.getElem?_mapIdx, List.getElem?_eq_getElem
      (by omega : i < (l.ends side').plaintexts.length),
      Option.map_some] at hframe
    rw [if_pos hi, List.getElem?_eq_getElem hi, List.getElem?_eq_getElem (by omega),
      Option.map_some, Option.map_some,
      ← Option.some.inj hframe, hkey, hS.open_seal]
  · rw [if_neg hi, List.getElem?_eq_none (by omega)]
    rfl

/-- What a run between two ends with the same key and transcript delivers. -/
structure Delivered (l : Link K) : Prop where
  /-- what opens is the message of the same number that the peer sent -/
  inOrder : ∀ (side : Side) (i : ℕ) (data : Bytes), (l.ends side).results[i]? = some (some data) →
    (l.ends side.other).plaintexts[i]? = some data
  /-- frames that arrive as they were sent, with short frames anywhere between them, all open -/
  recovered : ∀ side, (l.ends side).frames <+: (l.ends side.other).boxes →
    (l.ends side).results = ((l.ends side.other).plaintexts.take (l.ends side).frames.length).map
      some
  /-- no key is used with a nonce twice, in either direction -/
  nonces : (l.seals.map fun entry => (entry.1, entry.2.1)).Nodup

/-- The two ends of one exchange send and open under the two keys of it, crosswise. -/
theorem delivered (hS : S.Ideal) {key : K} {t : KxTranscript}
    (hsplit : ∀ side, Encrypt.newSplit S key side.isInitiator t = .ok (ciphers side))
    (hauth : Along (step S) (Authentic S) (Link.start ciphers) acts)
    (hrun : exec (step S) (Link.start ciphers) acts = some l) : Delivered l := by
  have ht : Encrypt.WellFormed t := (Encrypt.newSplit_ok (hsplit .initiator)).1
  have hcipher := fun side => (Encrypt.newSplit_ok (hsplit side)).2
  have hkey : ∀ side, (ciphers side).key = Encrypt.subkey S key (Encrypt.direction side.isInitiator)
    t :=
    fun side => by rw [hcipher side]
  have hopening : ∀ side, (ciphers side).openingKey = (ciphers side.other).key := by
    intro side
    rw [hcipher side, hcipher side.other]
    cases side <;> rfl
  have hne : ∀ side, (ciphers side).key ≠ (ciphers side.other).key := by
    intro side heq
    rw [hkey, hkey] at heq
    have hdirection := (Encrypt.subkey_inj hS ht ht heq).2.1
    cases side <;> exact absurd hdirection (by decide)
  obtain ⟨hl, honce⟩ := run_ordered (fun side => by rw [hcipher side]; exact ⟨rfl, rfl⟩) hauth hrun
  refine ⟨fun side i data h => ?_, fun side h => hl.recovered hS (hopening side).symm h,
    honce (hne .initiator)⟩
  obtain ⟨side', hkey', hdata⟩ := hl.opened_from h
  rcases side.eq_or_eq_other side' with rfl | rfl
  · exact absurd (hkey'.trans (hopening side')) (hne side')
  · exact hdata

/-- Ends with different transcripts have no key in common. -/
theorem none_opened (hS : S.Ideal) {key : Side → K} {role : Side → Bool} {t : Side → KxTranscript}
    (hne : t .initiator ≠ t .responder)
    (hsplit : ∀ side, Encrypt.newSplit S (key side) (role side) (t side) = .ok (ciphers side))
    (hauth : Along (step S) (Authentic S) (Link.start ciphers) acts)
    (hrun : exec (step S) (Link.start ciphers) acts = some l) :
    ∀ side, ∀ result ∈ (l.ends side).results, result = none := by
  have ht := fun side => (Encrypt.newSplit_ok (hsplit side)).1
  have hcipher := fun side => (Encrypt.newSplit_ok (hsplit side)).2
  obtain ⟨hl, -⟩ := run_ordered (fun side => by rw [hcipher side]; exact ⟨rfl, rfl⟩) hauth hrun
  intro side result hmem
  obtain ⟨i, hi⟩ := List.mem_iff_getElem?.mp hmem
  cases result with
  | none => rfl
  | some data =>
    obtain ⟨side', hkey, -⟩ := hl.opened_from hi
    rw [hcipher side', hcipher side] at hkey
    obtain ⟨-, hdirection, htranscript⟩ := Encrypt.subkey_inj hS (ht side') (ht side) hkey
    rcases side.eq_or_eq_other side' with rfl | rfl
    · cases hrole : role side' <;> rw [hrole] at hdirection <;> exact absurd hdirection (by decide)
    · cases side
      · exact absurd htranscript.symm hne
      · exact absurd htranscript hne

/-- A version 0 end that an exchanged key was given to, and an end of version 1: the second opens
nothing, and the first nothing that the second sealed. -/
theorem versions_apart (hS : S.Ideal) {key key' : K} (hfresh : ∀ k data, S.generichash k data ≠ key)
    {role : Bool} {t : KxTranscript} (hnew : ciphers side = Encrypt.new key)
    (hsplit : Encrypt.newSplit S key' role t = .ok (ciphers side.other))
    (hauth : Along (step S) (Authentic S) (Link.start ciphers) acts)
    (hrun : exec (step S) (Link.start ciphers) acts = some l) :
    (∀ result ∈ (l.ends side.other).results, result = none) ∧
      ∀ (i : ℕ) (data : Bytes), (l.ends side).results[i]? = some (some data) →
        (l.ends side).plaintexts[i]? = some data := by
  obtain ⟨ht, hcipher⟩ := Encrypt.newSplit_ok hsplit
  have hzero : ∀ side', (ciphers side').sent = 0 ∧ (ciphers side').received = 0 := by
    intro side'
    rcases side.eq_or_eq_other side' with rfl | rfl
    · rw [hnew]
      exact ⟨rfl, rfl⟩
    · rw [hcipher]
      exact ⟨rfl, rfl⟩
  obtain ⟨hl, -⟩ := run_ordered hzero hauth hrun
  refine ⟨fun result hmem => ?_, fun i data h => ?_⟩
  · obtain ⟨i, hi⟩ := List.mem_iff_getElem?.mp hmem
    cases result with
    | none => rfl
    | some data =>
      obtain ⟨side', hkey, -⟩ := hl.opened_from hi
      rw [hcipher] at hkey
      rcases side.eq_or_eq_other side' with rfl | rfl
      · rw [hnew] at hkey
        exact absurd hkey.symm (hfresh _ _)
      · rw [hcipher] at hkey
        have hdirection := (Encrypt.subkey_inj hS ht ht hkey).2.1
        cases role <;> exact absurd hdirection (by decide)
  · obtain ⟨side', hkey, hdata⟩ := hl.opened_from h
    rcases side.eq_or_eq_other side' with rfl | rfl
    · exact hdata
    · rw [hcipher, hnew] at hkey
      exact absurd hkey (hfresh _ _)

/-- **Authenticated delivery in order**: whatever the wire does to the frames of either direction,
the `i`-th frame an end accepts carries the `i`-th message of its peer; frames the wire leaves alone
all arrive; no key meets a nonce twice. Ends that disagree on the transcript, or on the version of
the exchange, do not accept each other's frames. -/
theorem authenticated_delivery (hS : S.Ideal) :
    (∀ (key : K) (t : KxTranscript) (ciphers : Side → Encrypt K) (acts : List Act) (l : Link K),
      (∀ side, Encrypt.newSplit S key side.isInitiator t = .ok (ciphers side)) →
      Along (step S) (Authentic S) (Link.start ciphers) acts →
        exec (step S) (Link.start ciphers) acts = some l →
      Delivered l) ∧
    (∀ (key : Side → K) (role : Side → Bool) (t : Side → KxTranscript) (ciphers : Side → Encrypt K)
      (acts : List Act) (l : Link K),
      t .initiator ≠ t .responder →
      (∀ side, Encrypt.newSplit S (key side) (role side) (t side) = .ok (ciphers side)) →
      Along (step S) (Authentic S) (Link.start ciphers) acts →
        exec (step S) (Link.start ciphers) acts = some l →
      ∀ side, ∀ result ∈ (l.ends side).results, result = none) ∧
    ∀ (key key' : K) (role : Bool) (t : KxTranscript) (ciphers : Side → Encrypt K) (side : Side)
      (acts : List Act) (l : Link K),
      (∀ k data, S.generichash k data ≠ key) →
      ciphers side = Encrypt.new key → Encrypt.newSplit S key' role t = .ok (ciphers side.other) →
      Along (step S) (Authentic S) (Link.start ciphers) acts →
        exec (step S) (Link.start ciphers) acts = some l →
      (∀ result ∈ (l.ends side.other).results, result = none) ∧
        ∀ (i : ℕ) (data : Bytes), (l.ends side).results[i]? = some (some data) →
          (l.ends side).plaintexts[i]? = some data := by
  refine ⟨?_, ?_, ?_⟩
  · intro key t ciphers acts l hsplit hauth hrun
    exact delivered hS hsplit hauth hrun
  · intro key role t ciphers acts l hne hsplit hauth hrun
    exact none_opened hS hne hsplit hauth hrun
  · intro key key' role t ciphers side acts l hfresh hnew hsplit hauth hrun
    exact versions_apart hS hfresh hnew hsplit hauth hrun

end Wire

/-! ## An instance -/

/-- Keys as terms: an exchanged key, and the data it was hashed with since. -/
structure TermKey where
  exchanged : ℕ
  hashed : List Bytes
  deriving DecidableEq

/-- A number that ends where it ends. -/
def unary (n : ℕ) : Bytes := List.replicate n 1 ++ [0]

/-- Bytes that end where they end. -/
def block (b : Bytes) : Bytes := unary b.length ++ b

/-- The bytes of a key. -/
def TermKey.code (key : TermKey) : Bytes :=
  unary key.exchanged ++ (unary key.hashed.length ++ key.hashed.flatMap block)

/-- The tag of a box. -/
def TermKey.tag (key : TermKey) (nonce : Bytes) : Bytes :=
  List.replicate 16 0 ++ (key.code ++ block nonce)

/-- Boxes as terms: the tag names the key and the nonce, and only they open it. -/
def termSodium : Sodium TermKey where
  secretboxSeal key nonce data := key.tag nonce ++ data
  secretboxOpen key nonce box :=
    if key.tag nonce <+: box then some (box.drop (key.tag nonce).length) else none
  generichash key data := ⟨key.exchanged, data :: key.hashed⟩

theorem termSodium_ideal : termSodium.Ideal where
  open_seal key nonce data := by simp [termSodium]
  seal_length key nonce data := by
    simp only [termSodium, TermKey.tag, List.length_append, List.length_replicate]
    omega
  generichash_inj key data key' data' h := by
    obtain ⟨hexchanged, hhashed⟩ := TermKey.mk.inj h
    obtain ⟨rfl, hrest⟩ := List.cons.inj hhashed
    cases key
    cases key'
    exact ⟨by simp_all, rfl⟩

instance {K : Type} [DecidableEq K] (S : Sodium K) (l : Link K) (act : Act) :
    Decidable (Authentic S l act) :=
  match act with
  | .send _ _ => isTrue trivial
  | .receive _ _ => inferInstanceAs (Decidable (_ → _))

def sampleTranscript : KxTranscript := ⟨List.replicate 32 1, List.replicate 32 2, 1, 1⟩

def sampleCipher (side : Side) : Encrypt TermKey :=
  ⟨Encrypt.subkey termSodium ⟨0, []⟩ (Encrypt.direction side.isInitiator) sampleTranscript, 0, 0,
    some (Encrypt.subkey termSodium ⟨0, []⟩ (Encrypt.direction side.other.isInitiator)
      sampleTranscript)⟩

def sampleBox : Bytes :=
  termSodium.secretboxSeal (sampleCipher .initiator).key (getNonce 1) [104, 105]

/-- A message that arrives after a short frame, and is then duplicated and reflected. -/
def duplicatedActs : List Act :=
  [.receive .responder [7], .send .initiator [104, 105], .receive .responder sampleBox,
    .receive .responder sampleBox,
    .receive .initiator sampleBox]

theorem authenticated_delivery_duplicated :
    ∃ l, exec (step termSodium) (Link.start sampleCipher) duplicatedActs = some l ∧
      (l.ends .responder).results = [some [104, 105], none] ∧ (l.ends .initiator).results = [none] ∧
        Delivered l := by
  have hrun : (exec (step termSodium) (Link.start sampleCipher) duplicatedActs).any (fun l =>
      decide ((l.ends .responder).results = [some [104, 105], none] ∧
        (l.ends .initiator).results = [none])) = true := by
    decide +kernel
  obtain ⟨l, hexec, hp⟩ := (Option.any_eq_true _ _).mp hrun
  obtain ⟨hresponder, hinitiator⟩ := of_decide_eq_true hp
  have hsplit : ∀ side, Encrypt.newSplit termSodium ⟨0, []⟩ side.isInitiator sampleTranscript =
      .ok (sampleCipher side) := by
    intro side
    cases side
    · rfl
    · rfl
  exact ⟨l, hexec, hresponder, hinitiator,
    (authenticated_delivery termSodium_ideal).1 _ _ _ _ _ hsplit (by decide +kernel) hexec⟩

end Tcp
end BgDesk
