import Mathlib.Logic.Function.Basic
import BgDesk.BytesCodec
import BgDesk.Machine
import BgDesk.Overwrite

/-!
# Uploading a recording

`src/hbbs_http/record_upload.rs`: while a recording is written, the parts that are there already are
sent to the API server, and when it is finished its first bytes once more, since the recorder writes
them last. The recorder goes on writing between any two steps of the uploader: the length of the
file is asked for before the file is read.

The copy is what the messages say: every part at its offset, the tail at the beginning. Where the
recorder wrote a second time is kept in `touched`.

* `go`, `event` — the code; `step` — a run, with the recorder;
* `Sound` — what goes for the copy and for what the uploader has in hand; `exec_sound`;
* `upload_copies`, `upload_finishes`.
-/

namespace BgDesk
namespace RecordUpload

/-! ## The code -/

/-- `MAX_HEADER_LEN` -/
def maxHeaderLen : ℕ := 1024

/-- `SHOULD_SEND_TIME`, in milliseconds -/
def shouldSendTime : ℕ := 1000

/-- `SHOULD_SEND_SIZE` -/
def shouldSendSize : ℕ := 1024 * 1024

/-- What is sent to `/api/record`; a file is known by its name. -/
inductive Message where
  | new : ℕ → Message
  | part : ℕ → ℕ → Bytes → Message
  | tail : ℕ → Bytes → Message
  | remove : ℕ → Message
  deriving DecidableEq

/-- What the uploader is about to do; `true` is for the last part. -/
inductive Phase where
  /-- to wait for the recorder -/
  | idle : Phase
  | sendNew : Phase
  /-- to open the file and to ask for its length -/
  | metadata : Bool → Phase
  /-- to read from where it stands, with the length it was told -/
  | read : Bool → ℕ → Phase
  | sendPart : Bool → ℕ → Bytes → Phase
  /-- to read the beginning -/
  | header : Phase
  | sendTail : Bytes → Phase
  | sendRemove : Phase
  deriving DecidableEq

/-- A `RecordUploader`, what it sent, and the files. -/
structure State where
  now : ℕ
  contents : ℕ → Bytes
  /-- where the recorder wrote again: offsets and lengths -/
  touched : ℕ → List (ℕ × ℕ)
  file : ℕ
  uploadSize : ℕ
  running : Bool
  lastSend : ℕ
  phase : Phase
  /-- the messages that arrived, oldest first -/
  sent : List Message
  /-- whether the file was made on the server -/
  created : Bool

namespace State

def start (contents : ℕ → Bytes) : State :=
  ⟨0, contents, fun _ => [], 0, 0, false, 0, .idle, [], false⟩

/-- A message arrives. -/
def deliver (m : Message) (s : State) : State :=
  { s with
    sent := s.sent ++ [m],
    created :=
      match m with
      | .new _ => true
      | .remove _ => false
      | _ => s.created }

/-- After `handle_frame`: the tail, if the part was the last one. -/
def afterFrame (flush : Bool) (s : State) : State :=
  { s with phase := if flush then .header else .idle }

/-- The uploader goes on, and nothing fails. What `send` returns `Ok` for has been taken by the
server: a message it refuses it answers with an `error`. -/
def go (s : State) : Option State :=
  match s.phase with
  | .idle => none
  | .sendNew => some { s.deliver (.new s.file) with phase := .idle }
  | .metadata flush =>
    let len := (s.contents s.file).length
    if len ≤ s.uploadSize then some (s.afterFrame flush)
    else if flush = false ∧ len - s.uploadSize < shouldSendSize then some (s.afterFrame flush)
    else some { s with phase := .read flush len }
  | .read flush len =>
    some { s with phase := .sendPart flush len ((s.contents s.file).drop s.uploadSize) }
  | .sendPart flush len buf =>
    some ({ s.deliver (.part s.file s.uploadSize buf) with
      uploadSize := len, lastSend := s.now }.afterFrame flush)
  | .header => some { s with phase := .sendTail ((s.contents s.file).take maxHeaderLen) }
  | .sendTail buf => some { s.deliver (.tail s.file buf) with phase := .idle }
  | .sendRemove => some { s.deliver (.remove s.file) with phase := .idle }

/-- Something fails; a message may have arrived all the same. -/
def fail (arrived : Bool) (s : State) : Option State :=
  let s' :=
    match s.phase, arrived with
    | .sendNew, true => s.deliver (.new s.file)
    | .sendPart _ _ buf, true => s.deliver (.part s.file s.uploadSize buf)
    | .sendTail buf, true => s.deliver (.tail s.file buf)
    | .sendRemove, true => s.deliver (.remove s.file)
    | _, _ => s
  if s.phase = .idle then none else some { s' with phase := .idle, running := false }

end State

/-- `RecordState` -/
inductive Event where
  | newFile : ℕ → Event
  | newFrame : Event
  | writeTail : Event
  | removeFile : Event
  deriving DecidableEq

/-- What `run` does with what it receives. -/
def State.event (e : Event) (s : State) : Option State :=
  if s.phase = .idle then
    some <|
      match e with
      | .newFile f =>
        { s with
          file := f, uploadSize := 0, running := true, lastSend := s.now, phase :=
            .sendNew, created := false }
      | .newFrame =>
        if s.running && shouldSendTime ≤ s.now -
          s.lastSend then { s with phase := .metadata false } else s
      | .writeTail => if s.running then { s with phase := .metadata true } else s
      | .removeFile => if s.running then { s with phase := .sendRemove } else s
  else none

/-! ## A run -/

inductive Act where
  | pass : ℕ → Act
  /-- the recorder writes at the end of a file -/
  | append : ℕ → Bytes → Act
  /-- or where something was written before -/
  | rewrite : ℕ → ℕ → Bytes → Act
  | event : Event → Act
  | go : Act
  | fail : Bool → Act
  deriving DecidableEq

def step (s : State) : Act → Option State
  | .pass d => some { s with now := s.now + d }
  | .append f bytes =>
    some { s with contents := Function.update s.contents f (s.contents f ++ bytes) }
  | .rewrite f pos bytes =>
    if pos + bytes.length ≤ (s.contents f).length then
      some
        { s with
          contents := Function.update s.contents f (overwrite (s.contents f) pos bytes),
          touched := Function.update s.touched f ((pos, bytes.length) :: s.touched f) }
    else none
  | .event e => s.event e
  | .go => s.go
  | .fail arrived => s.fail arrived

/-- What the messages say of a file, unless one of them leaves a gap. -/
def copyOf (f : ℕ) (messages : List Message) : Option Bytes :=
  messages.foldl
    (fun copy m =>
      match m with
      | .new f' => if f' = f then some [] else copy
      | .part f' pos buf =>
        if f' = f then copy.bind fun bytes =>
          if pos ≤ bytes.length then some (overwrite bytes pos buf) else none else copy
      | .tail f' buf => if f' = f then copy.map fun bytes => overwrite bytes 0 buf else copy
      | .remove f' => if f' = f then none else copy)
    none

/-- The recorder did not write there again. -/
def Stable (ranges : List (ℕ × ℕ)) (i : ℕ) : Prop := ∀ r ∈ ranges, ¬(r.1 ≤ i ∧ i < r.1 + r.2)

/-! ## The copy -/

section Copy

variable (f : ℕ) (messages : List Message)

theorem copyOf_new : copyOf f (messages ++ [.new f]) = some [] := by
  rw [copyOf, List.foldl_append]
  exact if_pos rfl

theorem copyOf_part (pos : ℕ) (buf : Bytes) : copyOf f (messages ++ [.part f pos buf]) =
    (copyOf f messages).bind fun bytes =>
      if pos ≤ bytes.length then some (overwrite bytes pos buf) else none := by
  rw [copyOf, List.foldl_append]
  exact if_pos rfl

theorem copyOf_tail (buf : Bytes) :
    copyOf f (messages ++ [.tail f buf]) = (copyOf f messages).map fun bytes =>
      overwrite bytes 0 buf := by
  rw [copyOf, List.foldl_append]
  exact if_pos rfl

end Copy

/-! ## What goes in every run -/

/-- What the uploader has in hand. -/
def InHand (s : State) : Prop :=
  match s.phase with
  | .read _ len => s.uploadSize ≤ len ∧ len ≤ (s.contents s.file).length
  | .sendPart _ len buf =>
    PieceOf (Stable (s.touched s.file)) (s.contents s.file) s.uploadSize buf ∧ s.uploadSize ≤ len ∧
      len ≤ s.uploadSize + buf.length
  | .sendTail buf => PieceOf (Stable (s.touched s.file)) (s.contents s.file) 0 buf
  | .sendNew => s.uploadSize = 0
  | _ => True

/-- **The copy is one**, as far as it goes, and it goes as far as the uploader says. -/
structure Sound (s : State) : Prop where
  copy : s.created = true → ∃ bytes, copyOf s.file s.sent = some bytes ∧
    CopyOf (Stable (s.touched s.file)) (s.contents s.file) bytes ∧ s.uploadSize ≤ bytes.length
  inHand : InHand s

theorem stable_cons {ranges : List (ℕ × ℕ)} {r : ℕ × ℕ} {i : ℕ} (h : Stable (r :: ranges) i) :
    Stable ranges i ∧ ¬(r.1 ≤ i ∧ i < r.1 + r.2) :=
  ⟨fun r' hr' => h r' (List.mem_cons_of_mem _ hr'), h r List.mem_cons_self⟩

theorem start_sound (contents : ℕ → Bytes) : Sound (.start contents) := ⟨by rintro ⟨⟩, trivial⟩

namespace Sound

variable {s s' : State}

/-- The recorder writes: every copy and every piece stays one. -/
theorem recorded (h : Sound s) {contents : ℕ → Bytes} {touched : ℕ → List (ℕ × ℕ)}
    (hchanges : Changes (Stable (s.touched s.file)) (s.contents s.file) (Stable (touched s.file))
    (contents s.file)) : Sound { s with contents := contents, touched := touched } := by
  constructor
  · intro hcreated
    obtain ⟨bytes, hbytes, hc, hsize⟩ := h.copy hcreated
    exact ⟨bytes, hbytes, hc.changes hchanges, hsize⟩
  · have hinHand := h.inHand
    unfold InHand at hinHand ⊢
    dsimp only
    cases hphase : s.phase with
    | read flush len =>
      rw [hphase] at hinHand
      exact ⟨hinHand.1, hinHand.2.trans hchanges.length⟩
    | sendPart flush len buf =>
      rw [hphase] at hinHand
      exact ⟨hinHand.1.changes hchanges, hinHand.2⟩
    | sendTail buf =>
      rw [hphase] at hinHand
      exact PieceOf.changes hinHand hchanges
    | sendNew =>
      rw [hphase] at hinHand
      exact hinHand
    | idle | metadata | header | sendRemove => trivial

theorem append (h : Sound s) (f : ℕ) (bytes : Bytes) :
    Sound { s with contents := Function.update s.contents f (s.contents f ++ bytes) } := by
  refine h.recorded ?_
  by_cases hf : s.file = f
  · subst hf
    rw [Function.update_self]
    exact changes_append _ _ bytes
  · rw [Function.update_of_ne hf]
    exact changes_refl _ _

theorem rewrite (h : Sound s) {f pos : ℕ} {bytes : Bytes}
    (hin : pos + bytes.length ≤ (s.contents f).length) : Sound
      { s with
        contents := Function.update s.contents f (overwrite (s.contents f) pos bytes),
        touched := Function.update s.touched f ((pos, bytes.length) :: s.touched f) } := by
  refine h.recorded ?_
  by_cases hf : s.file = f
  · subst hf
    rw [Function.update_self, Function.update_self]
    exact changes_overwrite hin fun i => stable_cons
  · rw [Function.update_of_ne hf, Function.update_of_ne hf]
    exact changes_refl _ _

/-- A part arrives. -/
theorem part (h : Sound s) (hcreated : s.created = true) {buf : Bytes}
    (hpiece : PieceOf (Stable (s.touched s.file)) (s.contents s.file) s.uploadSize buf) :
    ∃ bytes, copyOf s.file (s.sent ++ [.part s.file s.uploadSize buf]) = some bytes ∧
      CopyOf (Stable (s.touched s.file)) (s.contents s.file) bytes ∧
        s.uploadSize + buf.length ≤ bytes.length := by
  obtain ⟨bytes, hbytes, hcopy, hsize⟩ := h.copy hcreated
  refine ⟨overwrite bytes s.uploadSize buf, ?_, hcopy.write hpiece hsize, ?_⟩
  · rw [copyOf_part, hbytes, Option.bind_some, if_pos hsize]
  · rw [length_overwrite hsize]
    exact Nat.le_max_right _ _

/-- The tail arrives. -/
theorem tail (h : Sound s) (hcreated : s.created = true) {buf : Bytes}
    (hpiece : PieceOf (Stable (s.touched s.file)) (s.contents s.file) 0 buf) :
    ∃ bytes, copyOf s.file (s.sent ++ [.tail s.file buf]) = some bytes ∧
      CopyOf (Stable (s.touched s.file)) (s.contents s.file) bytes ∧
        s.uploadSize ≤ bytes.length := by
  obtain ⟨bytes, hbytes, hcopy, hsize⟩ := h.copy hcreated
  refine ⟨overwrite bytes 0 buf, ?_, hcopy.write hpiece (Nat.zero_le _), ?_⟩
  · rw [copyOf_tail, hbytes, Option.map_some]
  · rw [length_overwrite (Nat.zero_le _)]
    exact hsize.trans (Nat.le_max_left _ _)

theorem go (h : Sound s) (hgo : s.go = some s') : Sound s' := by
  have hinHand := h.inHand
  unfold InHand at hinHand
  unfold State.go at hgo
  cases hphase : s.phase with
  | idle =>
    rw [hphase] at hgo
    cases hgo
  | sendNew =>
    rw [hphase] at hgo hinHand
    obtain rfl := Option.some.inj hgo
    refine ⟨fun _ => ⟨[], copyOf_new _ _, copyOf_nil _ _, ?_⟩, trivial⟩
    exact Nat.le_of_eq hinHand
  | metadata flush =>
    rw [hphase] at hgo
    dsimp only at hgo
    have hafter : Sound (s.afterFrame flush) := by
      refine ⟨h.copy, ?_⟩
      unfold InHand State.afterFrame
      cases flush <;> trivial
    split at hgo
    · obtain rfl := Option.some.inj hgo
      exact hafter
    · next hmore =>
      split at hgo
      · obtain rfl := Option.some.inj hgo
        exact hafter
      · obtain rfl := Option.some.inj hgo
        exact ⟨h.copy, Nat.le_of_not_le hmore, le_rfl⟩
  | read flush len =>
    rw [hphase] at hgo hinHand
    obtain rfl := Option.some.inj hgo
    refine ⟨h.copy, pieceOf_drop _ (hinHand.1.trans hinHand.2), hinHand.1, ?_⟩
    change len ≤ s.uploadSize + ((s.contents s.file).drop s.uploadSize).length
    rw [List.length_drop]
    have hlen := hinHand.2
    omega
  | sendPart flush len buf =>
    rw [hphase] at hgo hinHand
    obtain rfl := Option.some.inj hgo
    obtain ⟨hpiece, -, hlen⟩ := hinHand
    constructor
    · intro hcreated
      obtain ⟨bytes, hbytes, hcopy, hsize⟩ := h.part hcreated hpiece
      exact ⟨bytes, hbytes, hcopy, hlen.trans hsize⟩
    · unfold InHand State.afterFrame
      cases flush <;> trivial
  | header =>
    rw [hphase] at hgo
    obtain rfl := Option.some.inj hgo
    exact ⟨h.copy, pieceOf_take _ _ _⟩
  | sendTail buf =>
    rw [hphase] at hgo hinHand
    obtain rfl := Option.some.inj hgo
    exact ⟨fun hcreated => h.tail hcreated hinHand, trivial⟩
  | sendRemove =>
    rw [hphase] at hgo
    obtain rfl := Option.some.inj hgo
    exact ⟨by rintro ⟨⟩, trivial⟩

theorem fail (h : Sound s) {arrived : Bool} (hfail : s.fail arrived = some s') : Sound s' := by
  have hinHand := h.inHand
  unfold InHand at hinHand
  unfold State.fail at hfail
  dsimp only at hfail
  split at hfail
  · cases hfail
  · obtain rfl := Option.some.inj hfail
    refine ⟨?_, trivial⟩
    split
    · next hphase =>
      rw [hphase] at hinHand
      exact fun _ => ⟨[], copyOf_new _ _, copyOf_nil _ _, Nat.le_of_eq hinHand⟩
    · next flush len buf hphase =>
      rw [hphase] at hinHand
      intro hcreated
      obtain ⟨bytes, hbytes, hcopy, hsize⟩ := h.part hcreated hinHand.1
      exact ⟨bytes, hbytes, hcopy, (Nat.le_add_right _ _).trans hsize⟩
    · next buf hphase =>
      rw [hphase] at hinHand
      exact fun hcreated => h.tail hcreated hinHand
    · rintro ⟨⟩
    · exact h.copy

theorem event (h : Sound s) {e : Event} (hevent : s.event e = some s') : Sound s' := by
  unfold State.event at hevent
  split at hevent
  · obtain rfl := Option.some.inj hevent
    cases e with
    | newFile f => exact ⟨by rintro ⟨⟩, rfl⟩
    | newFrame | writeTail | removeFile =>
      dsimp only
      split
      · exact ⟨h.copy, trivial⟩
      · exact h
  · cases hevent

theorem step {a : Act} (h : Sound s) (hstep : step s a = some s') : Sound s' := by
  cases a with
  | pass d =>
    obtain rfl := Option.some.inj hstep
    exact ⟨h.copy, h.inHand⟩
  | append f bytes =>
    obtain rfl := Option.some.inj hstep
    exact h.append f bytes
  | rewrite f pos bytes =>
    unfold RecordUpload.step at hstep
    dsimp only at hstep
    split at hstep
    · next hin =>
      obtain rfl := Option.some.inj hstep
      exact h.rewrite hin
    · cases hstep
  | event e => exact h.event hstep
  | go => exact h.go hstep
  | fail arrived => exact h.fail hstep

end Sound

theorem exec_sound {contents : ℕ → Bytes} {acts : List Act} {s : State}
    (h : exec step (.start contents) acts = some s) : Sound s :=
  exec_invariant (fun _ _ _ hs hstep => hs.step hstep) (start_sound contents) h

/-! ## A recording that is finished -/

/-- The file is finished, and so will the copy be. -/
structure Finishing (content : Bytes) (ranges : List (ℕ × ℕ)) (s : State) : Prop where
  written : s.contents s.file = content
  again : s.touched s.file = ranges
  created : s.created = true
  stage :
    match s.phase with
    | .metadata flush => flush = true
    | .read flush len | .sendPart flush len _ => flush = true ∧ len = content.length
    | .header => ∀ bytes, copyOf s.file s.sent = some bytes → content.length ≤ bytes.length
    | .sendTail buf =>
      buf = content.take maxHeaderLen ∧ ∀ bytes, copyOf s.file s.sent = some bytes →
        content.length ≤ bytes.length
    | .idle => ∀ bytes, copyOf s.file s.sent = some bytes →
      bytes.length = content.length ∧ ∀ i, i < maxHeaderLen ∨ Stable ranges i →
        bytes[i]? = content[i]?
    | .sendNew | .sendRemove => False

namespace Finishing

variable {content : Bytes} {ranges : List (ℕ × ℕ)} {s s' : State}

/-- A copy that is as long as the file, and has its beginning from it. -/
theorem copied {bytes : Bytes} (hcopy : CopyOf (Stable ranges) content bytes)
    (hlength : content.length ≤ bytes.length) :
    (overwrite bytes 0 (content.take maxHeaderLen)).length = content.length ∧
      ∀ i, i < maxHeaderLen ∨ Stable ranges i →
        (overwrite bytes 0 (content.take maxHeaderLen))[i]? = content[i]? := by
  have hle := hcopy.length
  constructor
  · rw [length_overwrite (Nat.zero_le _), List.length_take]
    omega
  · intro i hi
    rw [getElem?_overwrite (Nat.zero_le _), List.length_take]
    split
    · next hin => rw [Nat.sub_zero, List.getElem?_take_of_lt (by omega)]
    · next hout =>
      by_cases hend : i < bytes.length
      · exact hcopy.same i hend (hi.resolve_left (by omega))
      · rw [List.getElem?_eq_none (by omega), List.getElem?_eq_none (by omega)]

theorem go (hs : Sound s) (h : Finishing content ranges s) (hgo : s.go = some s') :
    Finishing content ranges s' := by
  have hstage := h.stage
  have hinHand := hs.inHand
  unfold InHand at hinHand
  obtain ⟨bytes, hbytes, hcopy, hsize⟩ := hs.copy h.created
  rw [h.written, h.again] at hcopy
  unfold State.go at hgo
  cases hphase : s.phase with
  | idle =>
    rw [hphase] at hgo
    cases hgo
  | sendNew | sendRemove =>
    rw [hphase] at hstage
    exact hstage.elim
  | metadata flush =>
    rw [hphase] at hgo hstage
    obtain rfl : flush = true := hstage
    dsimp only at hgo
    rw [h.written] at hgo
    split at hgo
    · next hall =>
      obtain rfl := Option.some.inj hgo
      refine ⟨h.written, h.again, h.created, ?_⟩
      intro bytes' hbytes'
      change copyOf s.file s.sent = some bytes' at hbytes'
      rw [hbytes] at hbytes'
      obtain rfl := Option.some.inj hbytes'
      exact hall.trans hsize
    · split at hgo
      · next hsmall => cases hsmall.1
      · obtain rfl := Option.some.inj hgo
        exact ⟨h.written, h.again, h.created, rfl, rfl⟩
  | read flush len =>
    rw [hphase] at hgo hstage
    obtain rfl := Option.some.inj hgo
    exact ⟨h.written, h.again, h.created, hstage⟩
  | sendPart flush len buf =>
    rw [hphase] at hgo hstage hinHand
    obtain ⟨rfl, rfl⟩ := hstage
    obtain rfl := Option.some.inj hgo
    obtain ⟨hpiece, -, hlen⟩ := hinHand
    refine ⟨h.written, h.again, h.created, ?_⟩
    intro bytes' hbytes'
    obtain ⟨bytes'', hbytes'', -, hlong⟩ := hs.part h.created hpiece
    change copyOf s.file (s.sent ++ [.part s.file s.uploadSize buf]) = some bytes' at hbytes'
    rw [hbytes''] at hbytes'
    obtain rfl := Option.some.inj hbytes'
    exact hlen.trans hlong
  | header =>
    rw [hphase] at hgo hstage
    obtain rfl := Option.some.inj hgo
    refine ⟨h.written, h.again, h.created, ?_, hstage⟩
    rw [h.written]
  | sendTail buf =>
    rw [hphase] at hgo hstage
    obtain ⟨rfl, hlong⟩ := hstage
    obtain rfl := Option.some.inj hgo
    refine ⟨h.written, h.again, h.created, ?_⟩
    intro bytes' hbytes'
    change copyOf s.file (s.sent ++ [.tail s.file (content.take maxHeaderLen)]) =
      some bytes' at hbytes'
    rw [copyOf_tail, hbytes] at hbytes'
    obtain rfl := Option.some.inj hbytes'
    exact copied hcopy (hlong bytes hbytes)

end Finishing

/-- Nothing fails, and the recorder is done. -/
def Act.undisturbed : Act → Bool
  | .pass _ | .go => true
  | _ => false

/-- **The copy is one in every run**, whatever the recorder writes between the steps of the uploader
and whatever fails: once the file was made on the server no part leaves a gap, the copy is a
beginning of the file except where the recorder wrote again, and it goes as far as the uploader
says. -/
theorem upload_copies {contents : ℕ → Bytes} {acts : List Act} {s : State}
    (h : exec step (.start contents) acts = some s) (hcreated : s.created = true) :
    ∃ bytes, copyOf s.file s.sent = some bytes ∧ s.uploadSize ≤ bytes.length ∧
      bytes.length ≤ (s.contents s.file).length ∧
      ∀ i < bytes.length, Stable (s.touched s.file) i → bytes[i]? = (s.contents s.file)[i]? := by
  obtain ⟨bytes, hbytes, hcopy, hsize⟩ := (exec_sound h).copy hcreated
  exact ⟨bytes, hbytes, hsize, hcopy.length, hcopy.same⟩

/-- A part arrives, and its answer does not. -/
theorem upload_copies_unanswered : ∃ s bytes, exec step (.start fun _ => [])
      [.event (.newFile 3), .go, .append 3 [1, 2], .event .writeTail, .go, .append 3 [4], .go,
        .fail true, .append 3 [5], .event .newFrame] = some s ∧
      copyOf s.file s.sent = some bytes ∧ s.uploadSize ≤ bytes.length ∧ bytes.length ≤ 4 := by
  have hrun : exec step (.start fun _ => []) [.event (.newFile 3), .go, .append 3 [1, 2],
    .event .writeTail, .go, .append 3 [4], .go,
    .fail true, .append 3 [5], .event .newFrame] = some _ := rfl
  obtain ⟨bytes, hbytes, hsize, hlength, -⟩ := upload_copies hrun rfl
  exact ⟨_, bytes, hrun, hbytes, hsize, hlength⟩

/-- **A recording that is finished is copied**: when the recorder is done and says so, and nothing
fails until the uploader waits again, the copy is the file, except where the recorder wrote again
behind the first 1024 bytes. -/
theorem upload_finishes {contents : ℕ → Bytes} {acts : List Act} {s : State}
    (h : exec step (.start contents) acts = some s) (hcreated : s.created = true)
    (hrunning : s.running = true) {later : List Act} {s' : State}
    (hlater : exec step s (.event .writeTail :: later) = some s')
    (hquiet : ∀ a ∈ later, a.undisturbed = true) (hidle : s'.phase = .idle) :
    ∃ bytes, copyOf s'.file s'.sent = some bytes ∧ bytes.length = (s.contents s.file).length ∧
      ∀ i, i < maxHeaderLen ∨ Stable (s.touched s.file) i →
        bytes[i]? = (s.contents s.file)[i]? := by
  have hsound := exec_sound h
  obtain ⟨s₁, hevent, hrun⟩ := exec_cons.mp hlater
  have hsound₁ : Sound s₁ := hsound.step hevent
  have hfirst : Finishing (s.contents s.file) (s.touched s.file) s₁ := by
    change s.event .writeTail = some s₁ at hevent
    unfold State.event at hevent
    split at hevent
    · obtain rfl := Option.some.inj hevent
      exact ⟨rfl, rfl, hcreated, rfl⟩
    · cases hevent
  obtain ⟨hsound', hlast⟩ : Sound s' ∧ Finishing (s.contents s.file) (s.touched s.file) s' := by
    have halong : Along step (fun _ a => a.undisturbed = true) s₁ later :=
      along_of_forall (fun a ha _ => hquiet a ha) s₁
    refine exec_invariant_along (I := fun t => Sound t ∧
      Finishing (s.contents s.file) (s.touched s.file) t) ?_ ⟨hsound₁, hfirst⟩ halong hrun
    rintro t a t' ⟨ht, hfin⟩ ha hstep
    refine ⟨ht.step hstep, ?_⟩
    cases a with
    | pass d =>
      obtain rfl := Option.some.inj hstep
      exact ⟨hfin.written, hfin.again, hfin.created, hfin.stage⟩
    | go => exact hfin.go ht hstep
    | append | rewrite | event | fail => cases ha
  obtain ⟨bytes, hbytes, -⟩ := hsound'.copy hlast.created
  have hstage := hlast.stage
  rw [hidle] at hstage
  exact ⟨bytes, hbytes, hstage bytes hbytes⟩

/-- A part and its tail are sent; then the beginning is written again and something behind it, and
the recording is finished once more. -/
theorem upload_finishes_rewritten : ∃ s s' bytes, exec step (.start fun _ => [])
      [.event (.newFile 3), .go, .append 3 [1, 2], .event .writeTail, .go, .append 3 [4], .go, .go,
        .go, .go, .rewrite 3 0 [7], .append 3 [5, 6]] = some s ∧
      exec step s [.event .writeTail, .go, .go, .go, .go, .go] = some s' ∧
        copyOf 3 s'.sent = some bytes ∧
      bytes.length = 5 ∧ bytes[0]? = some 7 := by
  have hrun : exec step (.start fun _ => []) [.event (.newFile 3), .go, .append 3 [1, 2],
    .event .writeTail, .go, .append 3 [4], .go, .go,
    .go, .go, .rewrite 3 0 [7], .append 3 [5, 6]] = some _ := rfl
  have hlater : ∀ s, exec step (.start fun _ => [])
    [.event (.newFile 3), .go, .append 3 [1, 2], .event .writeTail, .go, .append 3 [4], .go,
    .go, .go, .go, .rewrite 3 0 [7], .append 3 [5, 6]] = some s →
      ∃ s', exec step s [.event .writeTail, .go, .go, .go, .go, .go] = some s' ∧
      s'.phase = .idle ∧ s'.file = 3 := by
    rintro s ⟨⟩
    exact ⟨_, rfl, rfl, rfl⟩
  obtain ⟨s', hlater', hidle, hfile⟩ := hlater _ hrun
  obtain ⟨bytes, hbytes, hlength, hsame⟩ := upload_finishes hrun rfl rfl hlater' (by decide) hidle
  rw [hfile] at hbytes
  exact ⟨_, s', bytes, hrun, hlater', hbytes, hlength, hsame 0 (.inl (by decide))⟩

end RecordUpload
end BgDesk
