import Mathlib.Data.List.AList
import Mathlib.Data.List.Induction
import BgDesk.Machine
import BgDesk.BytesCodec

/-!
# Services and their subscribers

`server/service.rs`: a service sends the same messages to all its subscribers. A service that needs
a snapshot keeps new subscribers apart until a callback has told them how things stand; they join
the others when the `ServiceSwap` the callback was given is dropped.

* `Subscriber` — the trait, with what the service relies on, for `ConnInner` and `MouseCursorSub`;
* `Service.step` — one critical section under the lock at a time, by a connection or by the thread
  of the service;
* `Service.Introduced` — a subscriber hears the service only after a whole snapshot, and nothing
  after it has left;
* `Service.Prompt` — nobody subscribes when the callback has begun to talk;
* `snapshot_before_stream` — every run in which nobody does.

Whoever subscribes in the middle of a callback joins the others with the rest of the snapshot.
-/

namespace BgDesk
namespace Services

/-! ## Subscribers -/

/-- `Message`, as far as the subscribers tell one from another. -/
inductive Message where
  | videoFrame : Bytes → Message
  | switchDisplay : Bytes → Message
  | cursorData : (id : UInt64) → Bytes → Message
  | cursorId : UInt64 → Message
  | other : Bytes → Message
  deriving DecidableEq

/-- `ConnInner`: the two channels of a connection, with what was put into them. -/
structure ConnInner where
  id : Int32
  tx : Option (List Message)
  txVideo : Option (List Message)
  deriving DecidableEq

/-- `ConnInner::send`. -/
def ConnInner.send (c : ConnInner) (m : Message) : ConnInner :=
  match m with
  | .videoFrame _ | .switchDisplay _ => { c with txVideo := c.txVideo.map (· ++ [m]) }
  | _ => { c with tx := c.tx.map (· ++ [m]) }

/-- The trait `Subscriber` together with `From<ConnInner>`. A service keeps a subscriber under its
id. -/
class Subscriber (T : Type) : Type where
  ofConn : ConnInner → T
  id : T → Int32
  send : T → Message → T
  id_ofConn : ∀ c, id (ofConn c) = c.id
  id_send : ∀ s m, id (send s m) = id s

instance : Subscriber ConnInner where
  ofConn := id
  id := ConnInner.id
  send := ConnInner.send
  id_ofConn _ := rfl
  id_send _ m := by cases m <;> rfl

/-- `MouseCursorSub`. -/
structure MouseCursorSub where
  inner : ConnInner
  cached : AList (fun _ : UInt64 => Message)

/-- `MouseCursorSub::send`: a shape that was sent before is named by its id. -/
def MouseCursorSub.send (s : MouseCursorSub) (m : Message) : MouseCursorSub :=
  match m with
  | .cursorData id _ =>
    match s.cached.lookup id with
    | some m => { s with inner := s.inner.send m }
    | none => { inner := s.inner.send m, cached := s.cached.insert id (.cursorId id) }
  | m => { s with inner := s.inner.send m }

instance : Subscriber MouseCursorSub where
  ofConn inner := ⟨inner, ∅⟩
  id s := s.inner.id
  send := MouseCursorSub.send
  id_ofConn _ := rfl
  id_send s m := by
    have hinner : ∀ m, (s.inner.send m).id = s.inner.id := Subscriber.id_send s.inner
    rw [MouseCursorSub.send.eq_def]
    split
    · split
      · exact hinner _
      · exact hinner _
    · exact hinner _

/-! ## The service -/

/-- A `HashMap` of subscribers. -/
abbrev Subscribers (T : Type) : Type := AList (fun _ : Int32 => T)

/-- Every value is replaced by another one. -/
def mapValues {T : Type} (f : Int32 → T → T) (m : Subscribers T) : Subscribers T where
  entries := m.entries.map fun e => ⟨e.1, f e.1 e.2⟩
  nodupKeys := by
    have hkeys : (m.entries.map fun e => (⟨e.1, f e.1 e.2⟩ : Sigma fun _ : Int32 => T)).keys =
      m.entries.keys :=
      List.map_map
    rw [List.NodupKeys, hkeys]
    exact m.nodupKeys

variable {T : Type} [Subscriber T]

/-- `ServiceInner`. -/
structure ServiceInner (T : Type) where
  subscribes : Subscribers T
  newSubscribes : Subscribers T
  needSnapshot : Bool

namespace ServiceInner

/-- `send_new_subscribes`. -/
def sendNewSubscribes (s : ServiceInner T) (m : Message) : ServiceInner T :=
  { s with newSubscribes := mapValues (fun _ t => Subscriber.send t m) s.newSubscribes }

/-- `swap_new_subscribes`. -/
def swapNewSubscribes (s : ServiceInner T) : ServiceInner T :=
  { s with
    subscribes := s.newSubscribes.entries.foldl (fun m e => m.insert (Subscriber.id e.2) e.2)
      s.subscribes
    newSubscribes := ∅ }

/-- `on_subscribe`. -/
def onSubscribe (s : ServiceInner T) (sub : ConnInner) : ServiceInner T :=
  if sub.id ∈ s.subscribes then s
  else if s.needSnapshot then
    { s with newSubscribes := s.newSubscribes.insert sub.id (Subscriber.ofConn sub) }
  else { s with subscribes := s.subscribes.insert sub.id (Subscriber.ofConn sub) }

/-- `on_unsubscribe`. -/
def onUnsubscribe (s : ServiceInner T) (id : Int32) : ServiceInner T :=
  if id ∈ s.subscribes then { s with subscribes := s.subscribes.erase id }
  else { s with newSubscribes := s.newSubscribes.erase id }

/-- The loop of `send_shared` and of those like it: to whom a message goes. -/
def sendWhere (s : ServiceInner T) (p : Int32 → T → Bool) (m : Message) : ServiceInner T :=
  { s with
    subscribes := mapValues (fun id t => if p id t then Subscriber.send t m else t) s.subscribes }

end ServiceInner

/-- The ways to send a message to those who have subscribed. -/
inductive Ordinary where
  | sendShared
  | sendVideoFrameShared
  | sendTo (id : Int32)
  | sendToOthers (id : Int32)
  | sendWithout (sub : Int32)
  deriving DecidableEq

/-- To whom. -/
def Ordinary.includes (T : Type) [Subscriber T] : Ordinary → Int32 → T → Bool
  | .sendShared, _, _ => true
  | .sendVideoFrameShared, _, _ => true
  | .sendTo id, sid, _ => sid = id
  | .sendToOthers id, sid, _ => sid ≠ id
  | .sendWithout sub, _, s => sub ≠ Subscriber.id s

/-- What happens to one subscriber. -/
inductive Event where
  /-- it subscribes, and had not before -/
  | joined : Event
  /-- it unsubscribes -/
  | left : Event
  /-- it is sent a message of a callback -/
  | snapshot : (k : ℕ) → Message → Event
  /-- a callback has returned, after so many messages -/
  | completed : (k : ℕ) → List Message → Event
  /-- it is moved to those who have subscribed -/
  | promoted : Event
  /-- it is sent an ordinary message -/
  | ordinary : Message → Event
  deriving DecidableEq

/-- The service, with the callback under way and what it has sent, the number of callbacks before
it, and what has happened to each subscriber. -/
structure Service (T : Type) where
  inner : ServiceInner T
  callback : Option (List Message)
  snapshots : ℕ
  history : Int32 → List Event

inductive Act where
  | onSubscribe : ConnInner → Act
  | onUnsubscribe : Int32 → Act
  /-- `snapshot` looks for new subscribers -/
  | snapshot : Act
  /-- `ServiceSwap::send_shared` -/
  | swapSend : Message → Act
  /-- the callback returns, and the `ServiceSwap` is dropped -/
  | swapDrop : Act
  | send : Ordinary → Message → Act
  deriving DecidableEq

namespace Service

/-- `ServiceTmpl::new`. -/
def new (T : Type) (needSnapshot : Bool) : Service T := ⟨⟨∅, ∅, needSnapshot⟩, none, 0, fun _ => []⟩

/-- To everybody in a map something happens. -/
def note (history : Int32 → List Event) (p : Int32 → Bool) (e : Event) : Int32 → List Event :=
  fun id => if p id then history id ++ [e] else history id

/-- One critical section. -/
def step (s : Service T) : Act → Option (Service T)
  | .onSubscribe sub =>
    some { s with
      inner := s.inner.onSubscribe sub
      history := note s.history
        (fun id => id = sub.id ∧ id ∉ s.inner.subscribes ∧ id ∉ s.inner.newSubscribes) .joined }
  | .onUnsubscribe id =>
    some { s with inner := s.inner.onUnsubscribe id, history := note s.history (· = id) .left }
  | .snapshot =>
    match s.callback with
    | some _ => none
    | none =>
      some { s with callback := if s.inner.newSubscribes.entries.length > 0 then some [] else none }
  | .swapSend m =>
    match s.callback with
    | some sent =>
      some { s with
        inner := s.inner.sendNewSubscribes m
        callback := some (sent ++ [m])
        history := note s.history (· ∈ s.inner.newSubscribes) (.snapshot s.snapshots m) }
    | none => none
  | .swapDrop =>
    match s.callback with
    | some sent =>
      some { s with
        inner := s.inner.swapNewSubscribes
        callback := none
        snapshots := s.snapshots + 1
        history := note (note s.history (fun _ => true) (.completed s.snapshots sent))
          (· ∈ s.inner.newSubscribes)
          .promoted }
    | none => none
  | .send how m =>
    some { s with
      inner := s.inner.sendWhere (how.includes T) m
      history := note s.history (fun id => (s.inner.subscribes.lookup id).any (how.includes T id))
        (.ordinary m) }

end Service

/-! ## The history of a subscriber -/

namespace Event

/-- It is sent something. -/
def isSent : Event → Bool
  | .snapshot _ _ | .ordinary _ => true
  | _ => false

/-- It is treated as one of those who have subscribed. -/
def isStream : Event → Bool
  | .promoted | .ordinary _ => true
  | _ => false

/-- A message of a callback. -/
def heard (k : ℕ) : Event → Option Message
  | .snapshot i m => if i = k then some m else none
  | _ => none

end Event

/-- What has happened since it subscribed. -/
def sinceJoined (h : List Event) : List Event := (h.reverse.takeWhile (· ≠ .joined)).reverse

/-- It has subscribed and not unsubscribed. -/
def present (h : List Event) : Bool :=
  h.foldl (fun p e => match e with
    | .joined => true
    | .left => false
    | _ => p) false

/-- It has heard, since it subscribed, all the messages of a callback that has returned. -/
def Ready (h : List Event) : Prop :=
  ∃ k sent, .completed k sent ∈ sinceJoined h ∧ (sinceJoined h).filterMap (Event.heard k) = sent

/-- An event in its place: a subscriber who is not there is sent nothing, and one who is not ready
is not moved to the others and not sent what they are sent. -/
structure Proper (before : List Event) (e : Event) : Prop where
  ready : e.isStream = true → Ready before
  present : e.isSent = true → present before = true

section History

variable {h : List Event} {e : Event}

theorem sinceJoined_append (he : e ≠ .joined) : sinceJoined (h ++ [e]) = sinceJoined h ++ [e] := by
  rw [sinceJoined, List.reverse_append, List.reverse_singleton, List.singleton_append,
    List.takeWhile_cons_of_pos (by simpa using he), List.reverse_cons]
  rfl

theorem sinceJoined_joined (h : List Event) : sinceJoined (h ++ [Event.joined]) = [] := by
  rw [sinceJoined, List.reverse_append, List.reverse_singleton, List.singleton_append,
    List.takeWhile_cons_of_neg (by decide)]
  rfl

theorem mem_of_mem_sinceJoined (he : e ∈ sinceJoined h) : e ∈ h :=
  List.mem_reverse.mp ((List.takeWhile_sublist _).subset (List.mem_reverse.mp he))

theorem present_append (h : List Event) (e : Event) : present (h ++ [e]) =
    match e with
    | .joined => true
    | .left => false
    | _ => present h := List.foldl_append

/-- Once ready, always ready, until it subscribes again or hears more of the same callback. -/
theorem Ready.append (hready : Ready h) (he : e ≠ .joined) (hheard : ∀ k, e.heard k = none) :
    Ready (h ++ [e]) := by
  obtain ⟨k, sent, hcompleted, hsent⟩ := hready
  refine ⟨k, sent, ?_, ?_⟩
  · rw [sinceJoined_append he]
    exact List.mem_append_left _ hcompleted
  · rw [sinceJoined_append he, List.filterMap_append, hsent, List.filterMap_cons, hheard,
      List.filterMap_nil,
      List.append_nil]

theorem Each.snoc (hh : Each Proper h) (he : Proper h e) : Each Proper (h ++ [e]) :=
  hh.append (each_singleton (by rw [List.append_nil]; exact he))

/-- Nobody is there who has left and not come back. -/
theorem present_of_left {before after : List Event} (hnot : .joined ∉ after) :
    present (before ++ Event.left :: after) = false := by
  induction after using List.reverseRecOn with
  | nil => rw [present_append]
  | append_singleton after e ih =>
    rw [← List.cons_append, ← List.append_assoc, present_append]
    have hafter : .joined ∉ after := fun hmem => hnot (List.mem_append_left _ hmem)
    cases e with
    | joined => exact absurd (List.mem_append_right _ (List.mem_singleton_self _)) hnot
    | left => rfl
    | _ => exact ih hafter

end History

/-! ## One subscriber -/

/-- What holds for one subscriber: `sub` and `new` say in which of the maps it is. -/
structure Tracked (h : List Event) (sub new : Prop) (callback : Option (List Message)) (k : ℕ) :
  Prop where
  proper : Each Proper h
  present : present h = true ↔ sub ∨ new
  apart : sub → ¬new
  ready : sub → Ready h
  fresh : ∀ i m, .snapshot i m ∈ h → i ≤ k ∧ (callback = none → i < k)
  current : ∀ sent, callback = some sent → new → (sinceJoined h).filterMap (Event.heard k) = sent

namespace Tracked

variable {h : List Event} {sub new : Prop} {callback : Option (List Message)} {k : ℕ}
  {sent : List Message} {m : Message}

theorem congr {sub' new' : Prop} (ht : Tracked h sub new callback k) (hsub : sub' ↔ sub)
    (hnew : new' ↔ new) : Tracked h sub' new' callback k := by
  rw [hsub, hnew]
  exact ht

theorem nil : Tracked [] False False none 0 :=
  ⟨each_nil _, by simp [Services.present], nofun, nofun, nofun, nofun⟩

theorem join (ht : Tracked h sub new callback k) (hcallback : callback.getD [] = []) :
    Tracked (h ++ [Event.joined]) False True callback k where
  proper := Each.snoc ht.proper ⟨nofun, nofun⟩
  present := by
    rw [present_append]
    simp
  apart := nofun
  ready := nofun
  fresh i m hm := by
    rcases List.mem_append.mp hm with hm | hm
    · exact ht.fresh i m hm
    · cases List.mem_singleton.mp hm
  current sent hsent _ := by
    rw [sinceJoined_joined]
    rw [hsent] at hcallback
    exact hcallback.symm

theorem leave (ht : Tracked h sub new callback k) :
    Tracked (h ++ [Event.left]) False False callback k where
  proper := Each.snoc ht.proper ⟨nofun, nofun⟩
  present := by
    rw [present_append]
    simp
  apart := nofun
  ready := nofun
  fresh i m hm := by
    rcases List.mem_append.mp hm with hm | hm
    · exact ht.fresh i m hm
    · cases List.mem_singleton.mp hm
  current _ _ := nofun

/-- A callback begins. -/
theorem begin (ht : Tracked h sub new none k) : Tracked h sub new (some []) k where
  proper := ht.proper
  present := ht.present
  apart := ht.apart
  ready := ht.ready
  fresh i m hm := ⟨(ht.fresh i m hm).1, nofun⟩
  current sent hsent _ := by
    obtain rfl := Option.some.inj hsent
    refine List.filterMap_eq_nil_iff.mpr fun e he => ?_
    cases e with
    | snapshot i m =>
      have hlt := (ht.fresh i m (mem_of_mem_sinceJoined he)).2 rfl
      exact if_neg (Nat.ne_of_lt hlt)
    | _ => rfl

/-- The callback sends a message. -/
theorem told (ht : Tracked h sub new (some sent) k) (hnew : new) (m : Message) :
    Tracked (h ++ [Event.snapshot k m]) sub new (some (sent ++ [m])) k where
  proper := Each.snoc ht.proper ⟨nofun, fun _ => ht.present.mpr (.inr hnew)⟩
  present := by
    rw [present_append]
    exact ht.present
  apart := ht.apart
  ready hsub := absurd hnew (ht.apart hsub)
  fresh i m' hm := by
    rcases List.mem_append.mp hm with hm | hm
    · exact ⟨(ht.fresh i m' hm).1, nofun⟩
    · obtain ⟨rfl, -⟩ := Event.snapshot.inj (List.mem_singleton.mp hm)
      exact ⟨Nat.le_refl _, nofun⟩
  current sent' hsent' hnew' := by
    obtain rfl := Option.some.inj hsent'
    rw [sinceJoined_append (e := Event.snapshot k m) nofun, List.filterMap_append,
      ht.current sent rfl hnew']
    simp [Event.heard]

/-- It sends one to others. -/
theorem untold (ht : Tracked h sub new (some sent) k) (hnew : ¬new) (m : Message) :
    Tracked h sub new (some (sent ++ [m])) k where
  proper := ht.proper
  present := ht.present
  apart := ht.apart
  ready := ht.ready
  fresh i m hm := ⟨(ht.fresh i m hm).1, nofun⟩
  current _ _ h := absurd h hnew

theorem ordinary (ht : Tracked h sub new callback k) (hsub : sub) (m : Message) :
    Tracked (h ++ [Event.ordinary m]) sub new callback k where
  proper := Each.snoc ht.proper ⟨fun _ => ht.ready hsub, fun _ => ht.present.mpr (.inl hsub)⟩
  present := by
    rw [present_append]
    exact ht.present
  apart := ht.apart
  ready _ := (ht.ready hsub).append nofun fun _ => rfl
  fresh i m hm := by
    rcases List.mem_append.mp hm with hm | hm
    · exact ht.fresh i m hm
    · cases List.mem_singleton.mp hm
  current sent hsent hnew := absurd hnew (ht.apart hsub)

/-- The callback returns, and nothing changes for those who were not waiting for it. -/
theorem pass (ht : Tracked h sub new (some sent) k) (hnew : ¬new) :
    Tracked (h ++ [Event.completed k sent]) sub False none (k + 1) where
  proper := Each.snoc ht.proper ⟨nofun, nofun⟩
  present := by
    rw [present_append, ht.present]
    simp [hnew]
  apart _ := id
  ready hsub := (ht.ready hsub).append nofun fun _ => rfl
  fresh i m hm := by
    rcases List.mem_append.mp hm with hm | hm
    · have hle := (ht.fresh i m hm).1
      exact ⟨Nat.le_succ_of_le hle, fun _ => Nat.lt_succ_of_le hle⟩
    · cases List.mem_singleton.mp hm
  current := nofun

/-- The others have heard all of it. -/
theorem promote (ht : Tracked h sub new (some sent) k) (hnew : new) :
    Tracked (h ++ [.completed k sent] ++ [Event.promoted]) True False none (k + 1) := by
  have hready : Ready (h ++ [Event.completed k sent]) := by
    refine ⟨k, sent, ?_, ?_⟩
    · rw [sinceJoined_append (e := .completed k sent) nofun]
      exact List.mem_append_right _ (List.mem_singleton_self _)
    · rw [sinceJoined_append (e := .completed k sent) nofun, List.filterMap_append,
        ht.current sent rfl hnew]
      exact List.append_nil _
  have hpresent : Services.present (h ++ [.completed k sent] ++ [Event.promoted]) = true := by
    rw [present_append, present_append]
    exact ht.present.mpr (.inr hnew)
  refine ⟨Each.snoc (Each.snoc ht.proper ⟨nofun, nofun⟩) ⟨fun _ => hready, nofun⟩, ?_, fun _ => id,
    fun _ => hready.append nofun fun _ => rfl, fun i m hm => ?_, nofun⟩
  · exact iff_of_true hpresent (.inl True.intro)
  · rcases List.mem_append.mp hm with hm | hm
    · rcases List.mem_append.mp hm with hm | hm
      · have hle := (ht.fresh i m hm).1
        exact ⟨Nat.le_succ_of_le hle, fun _ => Nat.lt_succ_of_le hle⟩
      · cases List.mem_singleton.mp hm
    · cases List.mem_singleton.mp hm

end Tracked

/-! ## All subscribers -/

variable {m : Subscribers T}

omit [Subscriber T] in
theorem mem_mapValues {f : Int32 → T → T} {id : Int32} : id ∈ mapValues f m ↔ id ∈ m := by
  have hkeys : (mapValues f m).keys = m.keys := List.map_map
  rw [AList.mem_keys, AList.mem_keys, hkeys]

/-- Everybody is kept under their id. -/
def Keyed (m : Subscribers T) : Prop := ∀ e ∈ m.entries, Subscriber.id e.2 = e.1

theorem Keyed.insert (h : Keyed m) (sub : ConnInner) :
    Keyed (m.insert sub.id (Subscriber.ofConn sub)) := by
  intro e he
  rw [AList.entries_insert] at he
  rcases List.mem_cons.mp he with rfl | he
  · exact Subscriber.id_ofConn sub
  · exact h e ((List.kerase_sublist _ _).subset he)

theorem Keyed.erase (h : Keyed m) (id : Int32) : Keyed (m.erase id) :=
  fun e he => h e ((List.kerase_sublist _ _).subset he)

theorem Keyed.mapValues (h : Keyed m) {f : Int32 → T → T}
    (hf : ∀ id t, Subscriber.id (f id t) = Subscriber.id t) : Keyed (mapValues f m) := by
  intro e he
  obtain ⟨old, hold, rfl⟩ := List.mem_map.mp he
  exact (hf _ _).trans (h old hold)

/-- The loop of `swap_new_subscribes`. -/
theorem mem_foldl_insert {l : List (Sigma fun _ : Int32 => T)}
    (hl : ∀ e ∈ l, Subscriber.id e.2 = e.1) (m : Subscribers T) {id : Int32} :
    id ∈ l.foldl (fun m e => m.insert (Subscriber.id e.2) e.2) m ↔ id ∈ m ∨ id ∈ l.keys := by
  induction l generalizing m with
  | nil => simp
  | cons e l ih =>
    rw [List.foldl_cons, ih (fun e he => hl e (List.mem_cons_of_mem _ he)), AList.mem_insert,
      hl e List.mem_cons_self,
      List.keys_cons, List.mem_cons]
    tauto

namespace Service

variable {s s' : Service T}

/-- What holds between two critical sections. -/
structure Inv (s : Service T) : Prop where
  needSnapshot : s.inner.needSnapshot = true
  keyed : Keyed s.inner.newSubscribes
  tracked : ∀ id, Tracked (s.history id) (id ∈ s.inner.subscribes) (id ∈ s.inner.newSubscribes)
    s.callback s.snapshots

/-- Who subscribes has subscribed before, or the callback under way has not sent anything yet. -/
def Prompt (s : Service T) : Act → Prop
  | .onSubscribe sub =>
    sub.id ∈ s.inner.subscribes ∨ sub.id ∈ s.inner.newSubscribes ∨ s.callback.getD [] = []
  | _ => True

instance (s : Service T) (a : Act) : Decidable (s.Prompt a) :=
  match a with
  | .onSubscribe _ => inferInstanceAs (Decidable (_ ∨ _ ∨ _))
  | .onUnsubscribe _ | .snapshot | .swapSend _ | .swapDrop | .send _ _ =>
    inferInstanceAs (Decidable True)

theorem new_inv : (new T true).Inv := by
  refine ⟨rfl, nofun, fun id => ?_⟩
  have hnot : id ∈ (∅ : Subscribers T) ↔ False := iff_false_intro (AList.notMem_empty id)
  exact Tracked.nil.congr hnot hnot

/-- A viewer subscribes. -/
theorem Inv.onSubscribe (h : s.Inv) {sub : ConnInner} (hprompt : s.Prompt (.onSubscribe sub))
    (hstep : s.step (.onSubscribe sub) = some s') : s'.Inv := by
  obtain rfl := Option.some.inj hstep
  by_cases hsub : sub.id ∈ s.inner.subscribes
  · have hinner : s.inner.onSubscribe sub = s.inner := if_pos hsub
    simp only [hinner]
    refine ⟨h.needSnapshot, h.keyed, fun id => ?_⟩
    simp only [note]
    split
    · next hjoined =>
      obtain ⟨rfl, hnot, -⟩ := of_decide_eq_true hjoined
      exact absurd hsub hnot
    · exact h.tracked id
  · have hinner : s.inner.onSubscribe sub =
        { s.inner with
          newSubscribes := s.inner.newSubscribes.insert sub.id (Subscriber.ofConn sub) } := by
      rw [ServiceInner.onSubscribe, if_neg hsub, if_pos h.needSnapshot]
    simp only [hinner]
    refine ⟨h.needSnapshot, h.keyed.insert sub, fun id => ?_⟩
    simp only [note]
    split
    · next hjoined =>
      obtain ⟨rfl, hnot, hnew⟩ := of_decide_eq_true hjoined
      have hcallback : s.callback.getD [] = [] := by
        rcases hprompt with hin | hin | hcallback
        · exact absurd hin hnot
        · exact absurd hin hnew
        · exact hcallback
      refine ((h.tracked sub.id).join hcallback).congr (iff_false_intro hnot) (iff_true_intro ?_)
      exact (AList.mem_insert _).mpr (.inl rfl)
    · next hjoined =>
      refine (h.tracked id).congr Iff.rfl ?_
      rw [AList.mem_insert]
      refine ⟨fun hid => ?_, .inr⟩
      rcases hid with rfl | hid
      · by_contra hnew
        exact hjoined (decide_eq_true ⟨rfl, hsub, hnew⟩)
      · exact hid

/-- A viewer leaves. -/
theorem Inv.onUnsubscribe (h : s.Inv) {id : Int32} (hstep : s.step (.onUnsubscribe id) = some s') :
    s'.Inv := by
  obtain rfl := Option.some.inj hstep
  -- nobody is in both maps, so that one removal is enough
  have hsubs : ∀ i, i ∈ (s.inner.onUnsubscribe id).subscribes ↔ i ≠ id ∧
      i ∈ s.inner.subscribes := by
    intro i
    rw [ServiceInner.onUnsubscribe]
    split
    · exact AList.mem_erase
    · next hsub =>
      refine ⟨fun hi => ⟨?_, hi⟩, And.right⟩
      rintro rfl
      exact hsub hi
  have hnews : ∀ i, i ∈ (s.inner.onUnsubscribe id).newSubscribes ↔ i ≠ id ∧
      i ∈ s.inner.newSubscribes := by
    intro i
    rw [ServiceInner.onUnsubscribe]
    split
    · next hsub =>
      refine ⟨fun hi => ⟨?_, hi⟩, And.right⟩
      rintro rfl
      exact (h.tracked i).apart hsub hi
    · exact AList.mem_erase
  refine ⟨?_, ?_, fun i => ?_⟩
  · change (s.inner.onUnsubscribe id).needSnapshot = true
    rw [ServiceInner.onUnsubscribe]
    split
    · exact h.needSnapshot
    · exact h.needSnapshot
  · change Keyed (s.inner.onUnsubscribe id).newSubscribes
    rw [ServiceInner.onUnsubscribe]
    split
    · exact h.keyed
    · exact h.keyed.erase id
  · simp only [note]
    split
    · next hid =>
      obtain rfl := of_decide_eq_true hid
      refine (h.tracked i).leave.congr ?_ ?_
      · rw [hsubs]
        exact iff_false_intro fun hi => hi.1 rfl
      · rw [hnews]
        exact iff_false_intro fun hi => hi.1 rfl
    · next hid =>
      have hne : i ≠ id := fun heq => hid (decide_eq_true heq)
      refine (h.tracked i).congr ?_ ?_
      · rw [hsubs]
        exact ⟨And.right, fun hi => ⟨hne, hi⟩⟩
      · rw [hnews]
        exact ⟨And.right, fun hi => ⟨hne, hi⟩⟩

theorem Inv.snapshot (h : s.Inv) (hstep : s.step .snapshot = some s') : s'.Inv := by
  rw [step] at hstep
  split at hstep
  · cases hstep
  · next hnone =>
    obtain rfl := Option.some.inj hstep
    refine ⟨h.needSnapshot, h.keyed, fun id => ?_⟩
    have ht := h.tracked id
    rw [hnone] at ht
    simp only
    split
    · exact ht.begin
    · exact ht

theorem Inv.swapSend (h : s.Inv) {m : Message} (hstep : s.step (.swapSend m) = some s') :
    s'.Inv := by
  rw [step] at hstep
  split at hstep
  · next sent hsome =>
    obtain rfl := Option.some.inj hstep
    refine ⟨h.needSnapshot, h.keyed.mapValues fun _ t => Subscriber.id_send t m, fun id => ?_⟩
    have ht := h.tracked id
    rw [hsome] at ht
    simp only [note]
    split
    · next hnew => exact (ht.told (of_decide_eq_true hnew) m).congr Iff.rfl mem_mapValues
    · next hnew =>
        exact (ht.untold (fun hin => hnew (decide_eq_true hin)) m).congr Iff.rfl mem_mapValues
  · cases hstep

theorem Inv.swapDrop (h : s.Inv) (hstep : s.step .swapDrop = some s') : s'.Inv := by
  rw [step] at hstep
  split at hstep
  · next sent hsome =>
    obtain rfl := Option.some.inj hstep
    have hsubs : ∀ id, id ∈ s.inner.swapNewSubscribes.subscribes ↔ id ∈ s.inner.subscribes ∨
      id ∈ s.inner.newSubscribes :=
      fun id => mem_foldl_insert h.keyed _
    have hnews : ∀ id, id ∈ s.inner.swapNewSubscribes.newSubscribes ↔ False :=
      fun id => iff_false_intro (AList.notMem_empty id)
    refine ⟨h.needSnapshot, nofun, fun id => ?_⟩
    have ht := h.tracked id
    rw [hsome] at ht
    simp only [note, if_true]
    split
    · next hnew =>
      have hin := of_decide_eq_true hnew
      refine (ht.promote hin).congr ?_ (hnews id)
      rw [hsubs]
      exact iff_true_intro (.inr hin)
    · next hnew =>
      have hout : id ∉ s.inner.newSubscribes := fun hin => hnew (decide_eq_true hin)
      refine (ht.pass hout).congr ?_ (hnews id)
      rw [hsubs]
      exact or_iff_left hout
  · cases hstep

/-- A message goes to the subscribers there are. -/
theorem Inv.send (h : s.Inv) {how : Ordinary} {m : Message}
    (hstep : s.step (.send how m) = some s') : s'.Inv := by
  obtain rfl := Option.some.inj hstep
  refine ⟨h.needSnapshot, h.keyed, fun id => ?_⟩
  simp only [note]
  split
  · next hany =>
    have hsub : id ∈ s.inner.subscribes := by
      obtain ⟨t, ht, -⟩ := (Option.any_eq_true _ _).mp hany
      exact AList.lookup_isSome.mp (Option.isSome_of_eq_some ht)
    exact ((h.tracked id).ordinary hsub m).congr mem_mapValues Iff.rfl
  · exact (h.tracked id).congr mem_mapValues Iff.rfl

/-- **Every step keeps the invariant.** -/
theorem step_inv {a : Act} (h : s.Inv) (hprompt : s.Prompt a) (hstep : s.step a = some s') :
    s'.Inv := by
  cases a with
  | onSubscribe sub => exact h.onSubscribe hprompt hstep
  | onUnsubscribe id => exact h.onUnsubscribe hstep
  | snapshot => exact h.snapshot hstep
  | swapSend m => exact h.swapSend hstep
  | swapDrop => exact h.swapDrop hstep
  | send how m => exact h.send hstep

/-- What a subscriber can rely on. -/
structure Introduced (s : Service T) : Prop where
  /-- a subscriber is moved to the others, and is sent what they are sent, after a whole snapshot -/
  ready : ∀ id before (e : Event) after, s.history id = before ++ e :: after → e.isStream = true →
    Ready before
  apart : ∀ id, id ∈ s.inner.subscribes → id ∉ s.inner.newSubscribes
  /-- a subscriber who has left and not subscribed again is sent nothing -/
  silent : ∀ id before after, s.history id = before ++ Event.left :: after → Event.joined ∉ after →
    ∀ e ∈ after, e.isSent = false

theorem Inv.introduced (h : s.Inv) : s.Introduced := by
  refine ⟨fun id before e after heq => ((h.tracked id).proper before e after heq).ready,
    fun id => (h.tracked id).apart, ?_⟩
  intro id before after heq hnot e he
  obtain ⟨first, last, rfl⟩ := List.append_of_mem he
  by_contra hsent
  have hproper := (h.tracked id).proper (before ++ .left :: first)
    e last (by rw [heq, List.append_assoc]; rfl)
  have hfirst : .joined ∉ first := fun hmem => hnot (List.mem_append_left _ hmem)
  have hpresent := hproper.present (Bool.eq_true_of_not_eq_false hsent)
  rw [present_of_left hfirst] at hpresent
  cases hpresent

end Service

/-- **Snapshot before stream**, in every run in which nobody subscribes in the middle of a callback.
-/
theorem snapshot_before_stream {acts : List Act} {s : Service T}
    (hall : Along Service.step Service.Prompt (Service.new T true) acts)
    (hrun : exec Service.step (Service.new T true) acts = some s) : s.Introduced :=
  (exec_invariant_along (fun _ _ _ => Service.step_inv) Service.new_inv hall hrun).introduced

/-- A connection. -/
def viewer (id : Int32) : ConnInner := ⟨id, some [], some []⟩

/-- One viewer joins before the callback begins to talk, and one after it is over. -/
theorem snapshot_before_stream_twice : ∃ s, exec Service.step (Service.new ConnInner true)
    [.onSubscribe (viewer 1), .snapshot, .onSubscribe (viewer 2), .swapSend (.other [1]),
      .swapSend (.other [2]), .swapDrop,
      .onSubscribe (viewer 3), .send .sendShared (.other [3]), .onUnsubscribe 1,
      .send .sendVideoFrameShared (.videoFrame [4])] = some s ∧ s.Introduced ∧
    s.history 2 = [.joined, .snapshot 0 (.other [1]), .snapshot 0 (.other [2]),
      .completed 0 [.other [1], .other [2]],
      .promoted, .ordinary (.other [3]), .ordinary (.videoFrame [4])] := by
  have hrun : (exec Service.step (Service.new ConnInner true)
      [.onSubscribe (viewer 1), .snapshot, .onSubscribe (viewer 2), .swapSend (.other [1]),
        .swapSend (.other [2]),
        .swapDrop, .onSubscribe (viewer 3), .send .sendShared (.other [3]), .onUnsubscribe 1,
        .send .sendVideoFrameShared (.videoFrame [4])]).any
          (fun s => s.history 2 = [.joined, .snapshot 0 (.other [1]),
          .snapshot 0 (.other [2]), .completed 0 [.other [1], .other [2]], .promoted,
            .ordinary (.other [3]),
          .ordinary (.videoFrame [4])]) = true := by decide +kernel
  obtain ⟨s, hs, hp⟩ := (Option.any_eq_true _ _).mp hrun
  exact ⟨s, hs, snapshot_before_stream (by decide +kernel) hs, of_decide_eq_true hp⟩

/-- A viewer who joins between two messages of the callback is moved to the others with the second
one only. -/
theorem promoted_with_half :
    ¬∀ acts s, exec Service.step (Service.new ConnInner true) acts = some s → s.Introduced := by
  intro h
  have hrun : (exec Service.step (Service.new ConnInner true)
      [.onSubscribe (viewer 1), .snapshot, .swapSend (.other [1]), .onSubscribe (viewer 2),
        .swapSend (.other [2]),
        .swapDrop]).any (fun s => s.history 2 = [.joined, .snapshot 0 (.other [2]),
          .completed 0 [.other [1], .other [2]], .promoted]) = true := by decide +kernel
  obtain ⟨s, hs, hp⟩ := (Option.any_eq_true _ _).mp hrun
  have hhistory := of_decide_eq_true hp
  obtain ⟨k, sent, hcompleted, hsent⟩ := (h _ s hs).ready 2
    [.joined, .snapshot 0 (.other [2]), .completed 0 [.other [1], .other [2]]] .promoted []
      hhistory rfl
  have hsince :
    sinceJoined [.joined, .snapshot 0 (.other [2]), .completed 0 [.other [1], .other [2]]] =
      [.snapshot 0 (.other [2]), .completed 0 [.other [1], .other [2]]] := by decide
  rw [hsince] at hcompleted hsent
  rcases List.mem_cons.mp hcompleted with heq | hcompleted
  · cases heq
  · obtain ⟨rfl, rfl⟩ := Event.completed.inj (List.mem_singleton.mp hcompleted)
    exact absurd hsent (by decide)

end Services
end BgDesk
