import Mathlib.Data.List.AList
import Mathlib.Data.Finset.Basic
import BgDesk.Machine

/-!
# Keyboard shortcuts

`keyboard/shortcuts.rs` and `process_event_with_session` of `keyboard.rs`, for one session in Map
mode. A press that fires a shortcut belongs to this side until it is released. The modifiers of the
chord are lifted on the remote while they are still held here, and pressed again before the next
ordinary key.

* `matchEvent` — the bindings;
* `Tables`, `tryDispatch`, `processEventWithSession` — the four shared tables, and what one event
  does with them;
* `State.Inv` — the tables against the keys that are held and those that the remote holds down;
* `State.InStep`, `shortcuts_in_step` — what follows for every run.

Every event becomes one event for the remote, known by its key; the lock modes are left out.
-/

namespace BgDesk
namespace Shortcuts

/-! ## Keys and bindings -/

/-- `rdev::Key`, as far as the code tells one from another. -/
inductive Key where
  | shiftLeft | shiftRight | controlLeft | controlRight | alt | altGr | metaLeft | metaRight
  | delete | backspace | tab | space | home | «end» | pageUp | pageDown
  | insert | «return» | kpReturn | leftArrow | rightArrow | upArrow | downArrow | keyA
  | keyB | keyC | keyD | keyE | keyF | keyG | keyH | keyI
  | keyJ | keyK | keyL | keyM | keyN | keyO | keyP | keyQ
  | keyR | keyS | keyT | keyU | keyV | keyW | keyX | keyY
  | keyZ | num0 | num1 | num2 | num3 | num4 | num5 | num6
  | num7 | num8 | num9 | f1 | f2 | f3 | f4 | f5
  | f6 | f7 | f8 | f9 | f10 | f11 | f12
  | other : ℕ → Key
  deriving DecidableEq

/-- `is_modifier`. These are also the keys of `MODIFIERS_STATE`. -/
def isModifier : Key → Bool
  | .shiftLeft | .shiftRight | .controlLeft | .controlRight | .metaLeft | .metaRight | .alt
  | .altGr => true
  | _ => false

inductive EventType where
  | keyPress : Key → EventType
  | keyRelease : Key → EventType
  deriving DecidableEq

/-- `rdev::Event`: its type, and the codes of the platform. -/
structure Event where
  eventType : EventType
  code : ℕ
  deriving DecidableEq

inductive Modifier where
  | primary
  | ctrl
  | alt
  | shift
  deriving DecidableEq

structure Binding where
  action : String
  mods : List Modifier
  key : String
  deriving DecidableEq

structure Bindings where
  enabled : Bool
  passThrough : Bool
  bindings : List Binding
  deriving DecidableEq

inductive Os where
  | windows
  | macos
  | linux
  | android
  | ios
  deriving DecidableEq

def modsBits (m : List Modifier) : ℕ :=
  m.foldl (fun bits x => bits ||| match x with
    | .primary => 1
    | .alt => 2
    | .shift => 4
    | .ctrl => 8) 0

def modsEqual (a b : List Modifier) : Bool := modsBits a = modsBits b

/-- `match_normalized`. -/
def matchNormalized (key : String) (mods : List Modifier) (b : Bindings) : Option String :=
  if !b.enabled || b.passThrough then none
  else (b.bindings.find? fun binding =>
    !binding.mods.isEmpty && binding.key = key && modsEqual binding.mods mods).map
    Binding.action

def normalizeModifiers (os : Os) (alt ctrl shift command : Bool) : List Modifier :=
  (if os = .macos ∨ os = .ios then (if command then [Modifier.primary] else []) ++
    (if ctrl then [Modifier.ctrl] else [])
    else if ctrl then [Modifier.primary] else []) ++
  (if alt then [Modifier.alt] else []) ++ (if shift then [Modifier.shift] else [])

/-- The name of a key in the bindings. -/
def keyName : Key → Option String
  | .delete =>
    some "delete" | .backspace => some "backspace" | .tab => some "tab" | .space => some "space"
  | .home =>
    some "home" | .«end» => some "end" | .pageUp => some "page_up" | .pageDown => some "page_down"
  | .insert =>
    some "insert" | .«return» | .kpReturn => some "enter" | .leftArrow => some "arrow_left"
  | .rightArrow =>
    some "arrow_right" | .upArrow => some "arrow_up" | .downArrow => some "arrow_down"
  | .keyA =>
    some "a" | .keyB => some "b" | .keyC => some "c" | .keyD => some "d" | .keyE => some "e"
  | .keyF =>
    some "f" | .keyG => some "g" | .keyH => some "h" | .keyI => some "i" | .keyJ => some "j"
  | .keyK =>
    some "k" | .keyL => some "l" | .keyM => some "m" | .keyN => some "n" | .keyO => some "o"
  | .keyP =>
    some "p" | .keyQ => some "q" | .keyR => some "r" | .keyS => some "s" | .keyT => some "t"
  | .keyU =>
    some "u" | .keyV => some "v" | .keyW => some "w" | .keyX => some "x" | .keyY => some "y"
  | .keyZ => some "z" | .num0 => some "digit0" | .num1 => some "digit1" | .num2 => some "digit2"
  | .num3 =>
    some "digit3" | .num4 => some "digit4" | .num5 => some "digit5" | .num6 => some "digit6"
  | .num7 =>
    some "digit7" | .num8 => some "digit8" | .num9 => some "digit9" | .f1 => some "f1" | .f2 =>
      some "f2"
  | .f3 =>
    some "f3" | .f4 => some "f4" | .f5 => some "f5" | .f6 => some "f6" | .f7 => some "f7" | .f8 =>
      some "f8"
  | .f9 => some "f9" | .f10 => some "f10" | .f11 => some "f11" | .f12 => some "f12"
  | _ => none

/-- `event_to_key_name`. -/
def eventToKeyName (e : Event) : Option String :=
  match e.eventType with
  | .keyPress k => keyName k
  | .keyRelease _ => none

/-- `match_event`, for the modifiers that are held. The flag says that AltGr, where it is held,
stands for AltGraph or may do so. -/
def matchEvent (os : Os) (altGraph : Bool) (b : Bindings) (state : Key → Bool) (e : Event) :
    Option String :=
  if !b.enabled || b.passThrough then none
  else do
    let name ← eventToKeyName e
    let ctrl := state .controlLeft || state .controlRight
    let shift := state .shiftLeft || state .shiftRight
    let command := state .metaLeft || state .metaRight
    let alt := state .alt || state .altGr
    let action ← matchNormalized name (normalizeModifiers os alt ctrl shift command) b
    if (os = .windows ∨ os = .linux) ∧ altGraph ∧ state .altGr then none else some action

/-- `runs_on_release`. -/
def runsOnRelease (action : String) : Bool :=
  action = "send_clipboard_keystrokes" ||
    ["close_tab", "switch_tab_next", "switch_tab_prev", "restart_remote", "switch_sides",
      "toggle_chat"].contains action

/-- The actions before which ordinary keys are released too. -/
def releasesOrdinaryKeys (action : String) : Bool :=
  runsOnRelease action || ["toggle_view_only", "toggle_show_my_cursor", "insert_lock",
    "send_ctrl_alt_del",
    "keyboard_mode_map", "keyboard_mode_translate", "keyboard_mode_legacy"].contains action

/-! ## The tables -/

/-- A `HashMap` from keys to their presses. -/
abbrev Held : Type := AList (fun _ : Key => Event)

/-- A key with its press. -/
abbrev Entry : Type := Sigma fun _ : Key => Event

/-- `KeyEvent`. -/
structure KeyEvent where
  key : Key
  down : Bool
  code : ℕ
  deriving DecidableEq

/-- `TO_RELEASE`, `MODIFIERS_STATE`, `FIRED_KEYS`, `RELEASE_ACTIONS`, and `RELEASED_MODIFIERS` of
the session. -/
structure Tables where
  toRelease : Held
  modifiersState : Key → Bool
  firedKeys : Finset Key
  releaseActions : AList (fun _ : Key => String)
  releasedModifiers : Option Held

namespace Tables

def new : Tables := ⟨∅, fun _ => false, ∅, ∅, none⟩

/-- `update_modifiers_state`. -/
def updateModifiersState (t : Tables) (e : Event) : Tables :=
  match e.eventType with
  | .keyPress k =>
    if isModifier k then { t with modifiersState := Function.update t.modifiersState k true } else t
  | .keyRelease k =>
    if isModifier k then { t with
      modifiersState := Function.update t.modifiersState k false } else t

/-- `event_to_key_events` in Map mode. -/
def eventToKeyEvents (t : Tables) (e : Event) : Tables × KeyEvent :=
  let t := t.updateModifiersState e
  match e.eventType with
  | .keyPress k => ({ t with toRelease := t.toRelease.insert k e }, ⟨k, true, e.code⟩)
  | .keyRelease k => ({ t with toRelease := t.toRelease.erase k }, ⟨k, false, e.code⟩)

/-- The events one after another, each sent as soon as it is encoded. -/
def sendAll (t : Tables) : List Event → Tables × List KeyEvent
  | [] => (t, [])
  | e :: es =>
    let (t, keyEvent) := t.eventToKeyEvents e
    let (t, keyEvents) := t.sendAll es
    (t, keyEvent :: keyEvents)

/-- `is_long_press`. -/
def isLongPress (t : Tables) (e : Event) : Bool :=
  match e.eventType with
  | .keyPress k => isModifier k && t.modifiersState k
  | .keyRelease _ => false

/-- `restore_remote_modifiers`. -/
def restoreRemoteModifiers (t : Tables) (e : Event) : Tables × List KeyEvent :=
  match e.eventType with
  | .keyRelease _ => (t, [])
  | .keyPress key =>
    if isModifier key then (t, [])
    else match t.releasedModifiers with
      | none => (t, [])
      | some held =>
        { t with releasedModifiers := none }.sendAll
          ((held.entries.filter fun x : Entry => t.modifiersState x.1).map Sigma.snd)

/-- The releases of the keys in a list. -/
def releases (l : List Entry) : List Event :=
  l.map fun ⟨k, e⟩ => { e with eventType := .keyRelease k }

/-- `release_remote_non_modifiers`. -/
def releaseRemoteNonModifiers (t : Tables) : Tables × List KeyEvent :=
  t.sendAll (releases (t.toRelease.entries.filter fun x => !isModifier x.1))

/-- `send_windows_menu_ctrl`, without the swap. -/
def windowsMenuCtrl (down : Bool) : KeyEvent := ⟨.controlLeft, down, 0x1d⟩

/-- Every modifier that was sent is Alt or Meta, and there is one. -/
def neutralizeMenu (peer : String) (toRelease : List Entry) : Bool :=
  peer = "windows" && !toRelease.isEmpty && toRelease.all fun x =>
    x.1 = .alt || x.1 = .altGr || x.1 = .metaLeft || x.1 = .metaRight

/-- `release_remote_keys`. -/
def releaseRemoteKeys (t : Tables) (peer : String) : Tables × List KeyEvent :=
  let toRelease := t.toRelease.entries.filter fun x => isModifier x.1
  let held := toRelease.filter fun x => t.modifiersState x.1
  let ctrl := fun down => if neutralizeMenu peer toRelease then [windowsMenuCtrl down] else []
  let (t, sent) := t.sendAll (releases toRelease)
  ({ t with
    modifiersState := fun k => if k ∈ held.map Sigma.fst then true else t.modifiersState k
    releasedModifiers := some (held.foldl (fun m x => m.insert x.1 x.2) ∅)
    toRelease := held.foldl (fun m x => m.insert x.1 x.2) t.toRelease },
      ctrl true ++ sent ++ ctrl false)

/-- The beginning of `try_dispatch`. -/
def forgetReleased (t : Tables) (e : Event) : Tables :=
  match e.eventType with
  | .keyPress _ => t
  | .keyRelease k =>
    match t.releasedModifiers with
    | none => t
    | some held =>
      let held := held.erase k
      { t with releasedModifiers := if held.entries.isEmpty then none else some held }

end Tables

/-- What an event does: the tables, what is sent to the remote, the actions that are pushed, and
whether the event is consumed. -/
structure Outcome where
  tables : Tables
  sent : List KeyEvent
  actions : List (Key × String)
  consumed : Bool

/-- What belongs to a call and is no table. -/
structure Env where
  os : Os
  /-- `peer_platform` in lower case -/
  peer : String
  altGraph : Bool
  bindings : Bindings
  deriving DecidableEq

/-- The action that a press fires. A key that was forwarded fires nothing. -/
def Tables.fires (t : Tables) (env : Env) (e : Event) : Option String :=
  match e.eventType with
  | .keyPress key =>
    if key ∈ t.toRelease then none else matchEvent env.os env.altGraph env.bindings
      t.modifiersState e
  | .keyRelease _ => matchEvent env.os env.altGraph env.bindings t.modifiersState e

/-- The end of `try_dispatch`, for an action. -/
def fire (t : Tables) (env : Env) (e : Event) (action : String) : Outcome :=
  let (t, ordinary) := if releasesOrdinaryKeys action then t.releaseRemoteNonModifiers else (t, [])
  let (t, modifiers) := t.releaseRemoteKeys env.peer
  match e.eventType with
  | .keyPress k =>
    let t := { t with firedKeys := insert k t.firedKeys }
    if runsOnRelease action then
      ⟨{ t with releaseActions := t.releaseActions.insert k action }, ordinary ++ modifiers,
        [], true⟩
    else ⟨{ t with releaseActions := t.releaseActions.erase k }, ordinary ++ modifiers,
      [(k, action)], true⟩
  | .keyRelease k => ⟨t, ordinary ++ modifiers, [(k, action)], true⟩

/-- `try_dispatch`. -/
def tryDispatch (t : Tables) (env : Env) (e : Event) : Outcome :=
  let t := t.forgetReleased e
  match e.eventType with
  | .keyPress k =>
    if k ∈ t.firedKeys then ⟨t, [], [], true⟩
    else match t.fires env e with
      | some action => fire t env e action
      | none =>
        let (t, sent) := t.restoreRemoteModifiers e
        ⟨t, sent, [], false⟩
  | .keyRelease k =>
    if k ∈ t.firedKeys then
      let t := { t with firedKeys := t.firedKeys.erase k }
      ⟨{ t with releaseActions := t.releaseActions.erase k }, [],
        ((t.releaseActions.lookup k).map (k, ·)).toList, true⟩
    else match t.fires env e with
      | some action => fire t env e action
      | none =>
        let (t, sent) := t.restoreRemoteModifiers e
        ⟨t, sent, [], false⟩

/-- `process_event_with_session`. -/
def processEventWithSession (t : Tables) (env : Env) (e : Event) : Outcome :=
  let dispatch := tryDispatch t env e
  if dispatch.consumed then dispatch
  else if dispatch.tables.isLongPress e then dispatch
  else
    let (t, keyEvent) := dispatch.tables.eventToKeyEvents e
    { dispatch with tables := t, sent := dispatch.sent ++ [keyEvent] }

/-! ## The session -/

/-- The session. The code keeps neither what has been sent nor the actions nor the keys that are
held. -/
structure State where
  bindings : Bindings
  tables : Tables
  sent : List KeyEvent
  actions : List (Key × String)
  held : Finset Key

inductive Act where
  | key : Event → (altGraph : Bool) → Act
  /-- `reload_from_config` -/
  | reload : Bindings → Act
  /-- the order in which the tables are gone through is arbitrary -/
  | rehash : (toRelease releasedModifiers : Held) → Act

namespace State

def new (bindings : Bindings) : State := ⟨bindings, .new, [], [], ∅⟩

/-- A key is released only while it is held; a press of a key that is held is a repeat. -/
def WellFormed (s : State) (e : Event) : Prop :=
  match e.eventType with
  | .keyPress _ => True
  | .keyRelease k => k ∈ s.held

instance (s : State) (e : Event) : Decidable (s.WellFormed e) :=
  match h : e.eventType with
  | .keyPress _ => isTrue (by rw [WellFormed, h]; trivial)
  | .keyRelease k => decidable_of_iff (k ∈ s.held) (by rw [WellFormed, h])

/-- The keys that are held after an event. -/
def heldAfter (s : State) (e : Event) : Finset Key :=
  match e.eventType with
  | .keyPress k => insert k s.held
  | .keyRelease k => s.held.erase k

/-- What an event does. -/
def outcome (os : Os) (peer : String) (s : State) (e : Event) (altGraph : Bool) : Outcome :=
  processEventWithSession s.tables ⟨os, peer, altGraph, s.bindings⟩ e

def step (os : Os) (peer : String) (s : State) : Act → Option State
  | .key e altGraph =>
    if s.WellFormed e then
      let o := s.outcome os peer e altGraph
      some { s with
        tables := o.tables, sent := s.sent ++ o.sent, actions := s.actions ++ o.actions, held :=
          s.heldAfter e }
    else none
  | .reload bindings => some { s with bindings }
  | .rehash toRelease releasedModifiers =>
    if s.tables.toRelease.entries.Perm toRelease.entries then
      match s.tables.releasedModifiers with
      | none => some { s with tables := { s.tables with toRelease } }
      | some held =>
        if held.entries.Perm releasedModifiers.entries then
          some { s with
            tables := { s.tables with toRelease, releasedModifiers := some releasedModifiers } }
        else none
    else none

end State

/-! ## What the remote holds down -/

/-- The last event sent for a key. -/
def lastFor (sent : List KeyEvent) (k : Key) : Option KeyEvent :=
  (sent.filter fun e => e.key = k).getLast?

/-- The remote holds the key down. -/
def remoteDown (sent : List KeyEvent) (k : Key) : Bool := (lastFor sent k).any KeyEvent.down

theorem remoteDown_append_singleton (sent : List KeyEvent) (e : KeyEvent) (k : Key) :
    remoteDown (sent ++ [e]) k = if e.key = k then e.down else remoteDown sent k := by
  rw [remoteDown, lastFor, List.filter_append]
  by_cases hk : e.key = k
  · rw [List.filter_cons_of_pos (by simpa using hk), List.filter_nil, List.getLast?_concat,
      if_pos hk]
    rfl
  · rw [List.filter_cons_of_neg (by simpa using hk), List.filter_nil, List.append_nil, if_neg hk]
    rfl

/-- Events of one kind, one after another. -/
theorem remoteDown_append {down : Bool} {l : List KeyEvent} (h : ∀ e ∈ l, e.down = down)
    (sent : List KeyEvent) (k : Key) :
    remoteDown (sent ++ l) k = if k ∈ l.map KeyEvent.key then down else remoteDown sent k := by
  induction l generalizing sent with
  | nil => simp
  | cons e l ih =>
    obtain ⟨he, hl⟩ := List.forall_mem_cons.mp h
    rw [List.append_cons, ih hl, remoteDown_append_singleton, he, List.map_cons]
    by_cases hmem : k ∈ l.map KeyEvent.key
    · rw [if_pos hmem, if_pos (List.mem_cons_of_mem _ hmem)]
    · rw [if_neg hmem]
      by_cases hk : e.key = k
      · rw [if_pos hk, if_pos (hk ▸ List.mem_cons_self)]
      · rw [if_neg hk, if_neg]
        rintro hin
        rcases List.mem_cons.mp hin with heq | hin
        · exact hk heq.symm
        · exact hmem hin

/-! ## Sending many events -/

namespace Tables

variable {t : Tables}

/-- Every key is there with a press of it. -/
def Keyed (m : Held) : Prop := ∀ x ∈ m.entries, x.2.eventType = .keyPress x.1

/-- The type of a press or of a release. -/
def typeOf (down : Bool) (k : Key) : EventType := if down then .keyPress k else .keyRelease k

/-- The presses of a list of keys, or their releases, have been sent. -/
structure Sent (down : Bool) (t : Tables) (keys : List Key) (t' : Tables) (sent : List KeyEvent) :
  Prop where
  toRelease : ∀ k, k ∈ t'.toRelease ↔ if k ∈ keys then down = true else k ∈ t.toRelease
  keyed : Keyed t.toRelease → Keyed t'.toRelease
  modifiersState : ∀ k, t'.modifiersState k = if isModifier k ∧
    k ∈ keys then down else t.modifiersState k
  rest : t' = { t with toRelease := t'.toRelease, modifiersState := t'.modifiersState }
  keys : sent.map KeyEvent.key = keys
  down : ∀ e ∈ sent, e.down = down

variable {m : Held} {k : Key} {e : Event} {down : Bool} {keys : List Key} {t' : Tables}
  {l : List KeyEvent}

theorem Keyed.erase (h : Keyed m) (k : Key) : Keyed (m.erase k) :=
  fun x hx => h x ((List.kerase_sublist _ _).subset hx)

theorem Keyed.insert (h : Keyed m) (he : e.eventType = .keyPress k) : Keyed (m.insert k e) := by
  intro x hx
  rw [AList.entries_insert] at hx
  rcases List.mem_cons.mp hx with rfl | hx
  · exact he
  · exact h x ((List.kerase_sublist _ _).subset hx)

theorem Keyed.foldl {l : List Entry} (hl : ∀ x ∈ l, x.2.eventType = .keyPress x.1) :
    ∀ {m : Held}, Keyed m → Keyed (l.foldl (fun m x => m.insert x.1 x.2) m) := by
  induction l with
  | nil => exact fun h => h
  | cons x l ih =>
    intro m h
    obtain ⟨hx, hl⟩ := List.forall_mem_cons.mp hl
    exact ih hl (h.insert hx)

theorem mem_foldl_insert {l : List Entry} :
    ∀ {m : Held}, k ∈ l.foldl (fun m x => m.insert x.1 x.2) m ↔ k ∈ m ∨ k ∈ l.map Sigma.fst := by
  induction l with
  | nil => simp
  | cons x l ih =>
    intro m
    rw [List.foldl_cons, ih, AList.mem_insert, List.map_cons, List.mem_cons, or_comm (a := k = x.1),
      or_assoc]

/-- One event, encoded and sent. -/
theorem eventToKeyEvents_sent {d : Bool} (he : e.eventType = typeOf d k) :
    Sent d t [k] (t.eventToKeyEvents e).1 [(t.eventToKeyEvents e).2] := by
  cases d with
  | true =>
    have he : e.eventType = .keyPress k := he
    have hupdate : t.updateModifiersState e =
        { t with
          modifiersState := if isModifier k then Function.update t.modifiersState k
            true else t.modifiersState } := by
      simp only [updateModifiersState, he]
      split <;> rfl
    simp only [eventToKeyEvents, he, hupdate]
    refine ⟨?_, fun h => h.insert he, ?_, rfl, rfl, by simp⟩
    · intro k'
      simp only [AList.mem_insert, List.mem_singleton]
      split <;> simp_all
    · intro k'
      simp only [List.mem_singleton]
      by_cases hk : k' = k
      · subst hk
        split <;> simp_all
      · split <;> simp_all
  | false =>
    have he : e.eventType = .keyRelease k := he
    have hupdate : t.updateModifiersState e =
        { t with
          modifiersState := if isModifier k then Function.update t.modifiersState k
            false else t.modifiersState } := by
      simp only [updateModifiersState, he]
      split <;> rfl
    simp only [eventToKeyEvents, he, hupdate]
    refine ⟨?_, fun h => h.erase k, ?_, rfl, rfl, by simp⟩
    · intro k'
      simp only [AList.mem_erase, List.mem_singleton]
      split <;> simp_all
    · intro k'
      simp only [List.mem_singleton]
      by_cases hk : k' = k
      · subst hk
        split <;> simp_all
      · split <;> simp_all

theorem Sent.cons {down : Bool} {k : Key} {keys : List Key} {t₁ t₂ : Tables} {s₁ s₂ : List KeyEvent}
    (h₁ : Sent down t [k] t₁ s₁) (h₂ : Sent down t₁ keys t₂ s₂) :
    Sent down t (k :: keys) t₂ (s₁ ++ s₂) := by
  refine ⟨?_, fun h => h₂.keyed (h₁.keyed h), ?_, ?_, ?_, ?_⟩
  · intro k'
    rw [h₂.toRelease, h₁.toRelease]
    by_cases hk : k' ∈ keys
    · rw [if_pos hk, if_pos (List.mem_cons_of_mem _ hk)]
    · simp only [List.mem_cons, List.not_mem_nil, hk, or_false, if_false]
  · intro k'
    rw [h₂.modifiersState, h₁.modifiersState]
    by_cases hk : k' ∈ keys
    · by_cases hm : isModifier k' = true <;> simp [hk, hm]
    · simp only [List.mem_cons, List.not_mem_nil, hk, and_false, or_false, if_false]
  · rw [h₂.rest, h₁.rest]
  · rw [List.map_append, h₁.keys, h₂.keys, List.singleton_append]
  · intro e he
    rcases List.mem_append.mp he with he | he
    · exact h₁.down e he
    · exact h₂.down e he

theorem sendAll_sent {es : List Event} :
    ∀ {t : Tables} {keys : List Key}, es.map Event.eventType = keys.map (typeOf down) →
      Sent down t keys (t.sendAll es).1 (t.sendAll es).2 := by
  induction es with
  | nil =>
    intro t keys h
    obtain rfl : keys = [] := List.map_eq_nil_iff.mp h.symm
    exact ⟨by simp [sendAll], fun h => h, by simp [sendAll], rfl, rfl, by simp [sendAll]⟩
  | cons e es ih =>
    intro t keys h
    cases keys with
    | nil => simp at h
    | cons k keys =>
      obtain ⟨he, hes⟩ := List.cons.inj h
      exact (eventToKeyEvents_sent he).cons (ih hes)

/-- What the remote holds down afterwards. -/
theorem Sent.remoteDown (h : Sent down t keys t' l) (sent : List KeyEvent) (k : Key) :
    remoteDown (sent ++ l) k = if k ∈ keys then down else remoteDown sent k := by
  rw [remoteDown_append h.down, h.keys]

/-- The keys of the entries that meet a condition. -/
theorem mem_filter_keys {p : Key → Bool} :
    k ∈ (m.entries.filter fun x : Entry => p x.1).map Sigma.fst ↔ k ∈ m ∧ p k = true := by
  simp only [AList.mem_keys, AList.keys, List.keys, List.mem_map, List.mem_filter]
  constructor
  · rintro ⟨x, ⟨hx, hp⟩, rfl⟩
    exact ⟨⟨x, hx, rfl⟩, hp⟩
  · rintro ⟨⟨x, hx, rfl⟩, hp⟩
    exact ⟨x, ⟨hx, hp⟩, rfl⟩

theorem releases_eventType (l : List Entry) :
    (releases l).map Event.eventType = (l.map Sigma.fst).map (typeOf false) := by
  rw [releases, List.map_map, List.map_map]
  rfl

theorem presses_eventType {l : List Entry} (h : ∀ x ∈ l, x.2.eventType = .keyPress x.1) :
    (l.map Sigma.snd).map Event.eventType = (l.map Sigma.fst).map (typeOf true) := by
  rw [List.map_map, List.map_map]
  exact List.map_congr_left h

theorem Sent.releasedModifiers (h : Sent down t keys t' l) :
    t'.releasedModifiers = t.releasedModifiers := by
  rw [h.rest]

theorem Sent.firedKeys (h : Sent down t keys t' l) : t'.firedKeys = t.firedKeys := by
  rw [h.rest]

theorem Sent.releaseActions (h : Sent down t keys t' l) : t'.releaseActions = t.releaseActions := by
  rw [h.rest]

/-! ## The tables against the keys -/

/-- The modifier has been lifted on the remote while it is held here. -/
def Lifted (t : Tables) (k : Key) : Prop := ∃ m ∈ t.releasedModifiers, k ∈ m

/-- The tables, against the keys that are held and those that the remote holds down. -/
structure Inv (t : Tables) (held : Finset Key) (down : Key → Bool) : Prop where
  state : ∀ k, isModifier k = true → (t.modifiersState k = true ↔ k ∈ held)
  forwarded : ∀ k, isModifier k = true → k ∈ held → k ∈ t.toRelease
  owed : ∀ k ∈ t.toRelease, k ∈ held
  keyed : Keyed t.toRelease
  liftedKeyed : ∀ m ∈ t.releasedModifiers, Keyed m
  lifted : ∀ k, t.Lifted k → isModifier k = true ∧ k ∈ held
  up : ∀ k, k ∉ t.toRelease → down k = false
  down : ∀ k ∈ held, isModifier k = true → ¬t.Lifted k → down k = true
  fired : ∀ k ∈ t.firedKeys, isModifier k = false ∧ k ∈ held ∧ k ∉ t.toRelease
  pending : ∀ k ∈ t.releaseActions, k ∈ t.firedKeys

variable {held : Finset Key} {down : Key → Bool} {sent : List KeyEvent}

theorem Inv.new : Inv .new ∅ (remoteDown []) where
  state := by simp [Tables.new]
  forwarded := by simp
  owed := by simp [Tables.new]
  keyed := by simp [Keyed, Tables.new]
  liftedKeyed := by simp [Tables.new]
  lifted := by simp [Lifted, Tables.new]
  up _ _ := rfl
  down := by simp
  fired := by simp [Tables.new]
  pending := by simp [Tables.new]

/-- Once nothing is lifted, the remote holds exactly the modifiers that are held here. -/
theorem Inv.remote (h : Inv t held down) (hnone : t.releasedModifiers = none)
    (hk : isModifier k = true) : down k = true ↔ k ∈ held := by
  constructor
  · intro hdown
    by_contra hheld
    have hup := h.up k fun hin => hheld (h.owed k hin)
    rw [hup] at hdown
    cases hdown
  · intro hheld
    refine h.down k hheld hk ?_
    rintro ⟨m, hm, -⟩
    rw [hnone] at hm
    cases hm

/-- One more key is held, and it is no modifier. -/
theorem Inv.hold (h : Inv t held down) (hk : isModifier k = false) :
    Inv t (insert k held) down := by
  have hne : ∀ {k'}, isModifier k' = true → k' ≠ k := by
    rintro k' hk' rfl
    rw [hk] at hk'
    cases hk'
  refine { h with state := ?_, forwarded := ?_, owed := ?_, lifted := ?_, down := ?_, fired := ?_ }
  · intro k' hk'
    rw [h.state k' hk', Finset.mem_insert, or_iff_right (hne hk')]
  · intro k' hk' hin
    exact h.forwarded k' hk' (Finset.mem_of_mem_insert_of_ne hin (hne hk'))
  · exact fun k' hin => Finset.mem_insert_of_mem (h.owed k' hin)
  · exact fun k' hl => ⟨(h.lifted k' hl).1, Finset.mem_insert_of_mem (h.lifted k' hl).2⟩
  · intro k' hin hk'
    exact h.down k' (Finset.mem_of_mem_insert_of_ne hin (hne hk')) hk'
  · intro k' hk'
    obtain ⟨h₁, h₂, h₃⟩ := h.fired k' hk'
    exact ⟨h₁, Finset.mem_insert_of_mem h₂, h₃⟩

theorem lifted_congr (h : t'.releasedModifiers = t.releasedModifiers) (k : Key) :
    t'.Lifted k ↔ t.Lifted k := by
  rw [Lifted, Lifted, h]

/-! ### Lifting -/

theorem releaseRemoteNonModifiers_sent (t : Tables) :
    Sent false t ((t.toRelease.entries.filter fun x : Entry => !isModifier x.1).map Sigma.fst)
      t.releaseRemoteNonModifiers.1 t.releaseRemoteNonModifiers.2 :=
  sendAll_sent (releases_eventType _)

theorem Inv.releaseRemoteNonModifiers (h : Inv t held (remoteDown sent)) :
    Inv t.releaseRemoteNonModifiers.1 held (remoteDown
      (sent ++ t.releaseRemoteNonModifiers.2)) := by
  have hs := t.releaseRemoteNonModifiers_sent
  have hkeys : ∀ k, k ∈ (t.toRelease.entries.filter fun x : Entry => !isModifier x.1).map
    Sigma.fst ↔
      k ∈ t.toRelease ∧ (!isModifier k) = true := fun k =>
        mem_filter_keys (p := fun k => !isModifier k)
  generalize t.releaseRemoteNonModifiers = r at hs ⊢
  generalize (t.toRelease.entries.filter fun x : Entry => !isModifier x.1).map Sigma.fst =
    keys at hs hkeys
  have hmod : ∀ {k}, isModifier k = true → k ∉ keys := by
    intro k hk hin
    simpa [hk] using ((hkeys k).mp hin).2
  have hin : ∀ k, k ∈ r.1.toRelease ↔ k ∈ t.toRelease ∧ k ∉ keys := by
    intro k
    rw [hs.toRelease]
    split <;> simp_all
  refine ⟨?_, ?_, ?_, hs.keyed h.keyed, ?_, ?_, ?_, ?_, ?_, ?_⟩
  · intro k hk
    rw [hs.modifiersState, if_neg fun hh => hmod hk hh.2]
    exact h.state k hk
  · exact fun k hk hheld => (hin k).mpr ⟨h.forwarded k hk hheld, hmod hk⟩
  · exact fun k hk => h.owed k ((hin k).mp hk).1
  · rw [hs.releasedModifiers]
    exact h.liftedKeyed
  · intro k hk
    rw [lifted_congr hs.releasedModifiers] at hk
    exact h.lifted k hk
  · intro k hk
    rw [hs.remoteDown]
    by_cases hkey : k ∈ keys
    · rw [if_pos hkey]
    · rw [if_neg hkey]
      exact h.up k fun hto => hk ((hin k).mpr ⟨hto, hkey⟩)
  · intro k hheld hk hl
    rw [lifted_congr hs.releasedModifiers] at hl
    rw [hs.remoteDown, if_neg (hmod hk)]
    exact h.down k hheld hk hl
  · intro k hk
    rw [hs.firedKeys] at hk
    obtain ⟨h₁, h₂, h₃⟩ := h.fired k hk
    exact ⟨h₁, h₂, fun hh => h₃ ((hin k).mp hh).1⟩
  · rw [hs.releaseActions, hs.firedKeys]
    exact h.pending

/-- The modifiers that are owed to the remote. -/
def modifiers (t : Tables) : List Entry := t.toRelease.entries.filter fun x => isModifier x.1

/-- Those of them that are held. -/
def heldModifiers (t : Tables) : List Entry := t.modifiers.filter fun x => t.modifiersState x.1

theorem mem_modifiers : k ∈ t.modifiers.map Sigma.fst ↔ k ∈ t.toRelease ∧ isModifier k = true :=
  mem_filter_keys

/-- Every modifier that is owed is held. -/
theorem Inv.heldModifiers (h : Inv t held down) : t.heldModifiers = t.modifiers := by
  rw [Tables.heldModifiers, List.filter_eq_self]
  intro x hx
  obtain ⟨hin, hk⟩ := mem_modifiers.mp (List.mem_map_of_mem hx)
  exact (h.state x.1 hk).mpr (h.owed x.1 hin)

theorem modifiers_keyed (h : Keyed t.toRelease) :
    ∀ x ∈ t.modifiers, x.2.eventType = .keyPress x.1 :=
  fun x hx => h x (List.mem_of_mem_filter hx)

/-- A chord of Alt and Meta alone: the Ctrl that hides it goes down and up. -/
theorem remoteDown_menu {c : Bool → List KeyEvent}
    (hl : l.map KeyEvent.key = keys) (hup : ∀ e ∈ l, e.down = false) (hctrl : c = (fun _ => []) ∨
      c = (fun down => [windowsMenuCtrl down]) ∧ .controlLeft ∉ keys ∧
        remoteDown sent .controlLeft = false) (k : Key) :
    remoteDown (sent ++ (c true ++ l ++ c false))
      k = if k ∈ keys then false else remoteDown sent k := by
  obtain rfl | ⟨rfl, hkeys, hdown⟩ := hctrl
  · rw [List.nil_append, List.append_nil, remoteDown_append hup, hl]
  · rw [← List.append_assoc, remoteDown_append_singleton, ← List.append_assoc,
      remoteDown_append hup, hl,
      remoteDown_append_singleton]
    by_cases hk : .controlLeft = k
    · subst hk
      simp only [windowsMenuCtrl, if_neg hkeys, hdown, if_true]
    · have hne : ∀ down, (windowsMenuCtrl down).key ≠ k := fun _ => hk
      rw [if_neg (hne false), if_neg (hne true)]

/-- The tables after `release_remote_keys`. -/
theorem releaseRemoteKeys_fst (t : Tables) (peer : String) : (t.releaseRemoteKeys peer).1 =
      { (t.sendAll (releases t.modifiers)).1 with
        modifiersState := fun k =>
          if k ∈ t.heldModifiers.map Sigma.fst then true else (t.sendAll
            (releases t.modifiers)).1.modifiersState k
        releasedModifiers := some (t.heldModifiers.foldl (fun m x => m.insert x.1 x.2) ∅)
        toRelease := t.heldModifiers.foldl (fun m x => m.insert x.1 x.2)
          (t.sendAll (releases t.modifiers)).1.toRelease } :=
  rfl

theorem Inv.remoteDown_releaseRemoteKeys (h : Inv t held (remoteDown sent)) (peer : String)
    (k : Key) : remoteDown (sent ++ (t.releaseRemoteKeys peer).2) k =
      if k ∈ t.modifiers.map Sigma.fst then false else remoteDown sent k := by
  have hs := sendAll_sent (t := t) (releases_eventType t.modifiers)
  refine remoteDown_menu (c := fun down =>
    if neutralizeMenu peer t.modifiers then [windowsMenuCtrl down] else []) hs.keys
    hs.down ?_ k
  by_cases hmenu : neutralizeMenu peer t.modifiers = true
  · -- the remote holds no Ctrl, as it would be owed
    have hctrl : .controlLeft ∉ t.modifiers.map Sigma.fst := by
      intro hin
      obtain ⟨x, hx, hkey⟩ := List.mem_map.mp hin
      have hall := List.all_eq_true.mp (Bool.and_eq_true_iff.mp hmenu).2 x hx
      simp [hkey] at hall
    have hup := h.up .controlLeft fun hin => hctrl (mem_modifiers.mpr ⟨hin, rfl⟩)
    exact Or.inr ⟨by simp only [if_pos hmenu], hctrl, hup⟩
  · exact Or.inl (by simp only [if_neg hmenu])

theorem Inv.releaseRemoteKeys (h : Inv t held (remoteDown sent)) (peer : String) :
    Inv (t.releaseRemoteKeys peer).1 held (remoteDown (sent ++ (t.releaseRemoteKeys peer).2)) := by
  have hs := sendAll_sent (t := t) (releases_eventType t.modifiers)
  have hdown := h.remoteDown_releaseRemoteKeys peer
  have hkeys : ∀ k, k ∈ t.modifiers.map Sigma.fst ↔ k ∈ t.toRelease ∧ isModifier k = true :=
    fun k => mem_modifiers
  have hkeyed := modifiers_keyed h.keyed
  rw [releaseRemoteKeys_fst, h.heldModifiers]
  generalize (t.sendAll (releases t.modifiers)).1 = t₁ at hs ⊢
  generalize t.modifiers = l at *
  -- what is owed stays, and the local state too
  have hto : ∀ k, k ∈ l.foldl (fun m x => m.insert x.1 x.2) t₁.toRelease ↔ k ∈ t.toRelease := by
    intro k
    rw [mem_foldl_insert, hs.toRelease]
    by_cases hk : k ∈ l.map Sigma.fst
    · simp only [hk, or_true, ((hkeys k).mp hk).1]
    · simp only [hk, or_false, if_false]
  have hlift : ∀ k, k ∈ l.foldl (fun m x => m.insert x.1 x.2) (∅ : Held) ↔ k ∈ t.toRelease ∧
      isModifier k = true := by
    intro k
    rw [mem_foldl_insert, ← hkeys]
    simp
  refine ⟨?_, ?_, ?_, ?_, ?_, ?_, ?_, ?_, ?_, ?_⟩
  · intro k hk
    rw [← h.state k hk]
    by_cases hin : k ∈ l.map Sigma.fst
    · simp only [if_pos hin, (h.state k hk).mpr (h.owed k ((hkeys k).mp hin).1)]
    · simp only [hs.modifiersState, hin, and_false, if_false]
  · exact fun k hk hheld => (hto k).mpr (h.forwarded k hk hheld)
  · exact fun k hk => h.owed k ((hto k).mp hk)
  · exact Keyed.foldl hkeyed (hs.keyed h.keyed)
  · intro m hm
    obtain rfl := Option.some.inj hm
    exact Keyed.foldl hkeyed (by simp [Keyed])
  · rintro k ⟨m, hm, hk⟩
    obtain rfl := Option.some.inj hm
    obtain ⟨hin, hmod⟩ := (hlift k).mp hk
    exact ⟨hmod, h.owed k hin⟩
  · intro k hk
    rw [hdown, if_neg fun hin => hk ((hto k).mpr ((hkeys k).mp hin).1)]
    exact h.up k fun hin => hk ((hto k).mpr hin)
  · intro k hheld hmod hnot
    exact absurd ⟨_, rfl, (hlift k).mpr ⟨h.forwarded k hmod hheld, hmod⟩⟩ hnot
  · intro k hk
    obtain ⟨h₁, h₂, h₃⟩ := h.fired k (hs.firedKeys ▸ hk)
    exact ⟨h₁, h₂, fun hin => h₃ ((hto k).mp hin)⟩
  · intro k hk
    exact hs.firedKeys.symm ▸ h.pending k (hs.releaseActions ▸ hk)

/-! ### Pressing again, and the event itself -/

theorem with_none (h : t.releasedModifiers = none) : { t with releasedModifiers := none } = t := by
  cases t
  cases h
  rfl

theorem restoreRemoteModifiers_sent (h : ∀ m ∈ t.releasedModifiers, Keyed m)
    (he : e.eventType = .keyPress k) (hk : isModifier k = false) :
    ∃ keys, Sent true { t with releasedModifiers := none }
      keys (t.restoreRemoteModifiers e).1 (t.restoreRemoteModifiers e).2 ∧
      ∀ k', k' ∈ keys ↔ t.Lifted k' ∧ t.modifiersState k' = true := by
  simp only [restoreRemoteModifiers, he, hk, Bool.false_eq_true, if_false, Lifted]
  cases hm : t.releasedModifiers with
  | none => exact ⟨[], ⟨by simp, fun h => h, by simp, (with_none hm).symm, rfl, by simp⟩, by simp⟩
  | some m =>
    have hkeyed : ∀ x ∈ m.entries.filter fun x : Entry =>
      t.modifiersState x.1, x.2.eventType = .keyPress x.1 :=
      fun x hx => h m hm x (List.mem_of_mem_filter hx)
    refine ⟨_, sendAll_sent (presses_eventType hkeyed), ?_⟩
    intro k'
    rw [mem_filter_keys]
    simp

theorem Inv.restoreRemoteModifiers (h : Inv t held (remoteDown sent))
    (he : e.eventType = .keyPress k) (hk : isModifier k = false) :
    Inv (t.restoreRemoteModifiers e).1 held (remoteDown (sent ++ (t.restoreRemoteModifiers e).2)) ∧
      (t.restoreRemoteModifiers e).1.releasedModifiers = none := by
  obtain ⟨keys, hs, hkeys⟩ := restoreRemoteModifiers_sent h.liftedKeyed he hk
  have hmod : ∀ k', k' ∈ keys ↔ t.Lifted k' := by
    intro k'
    rw [hkeys, and_iff_left_iff_imp]
    intro hl
    obtain ⟨hmod, hheld⟩ := h.lifted k' hl
    exact (h.state k' hmod).mpr hheld
  have hto : ∀ k', k' ∈ (t.restoreRemoteModifiers e).1.toRelease ↔ k' ∈ t.toRelease := by
    intro k'
    rw [hs.toRelease]
    by_cases hin : k' ∈ keys
    · obtain ⟨hm, hheld⟩ := h.lifted k' ((hmod k').mp hin)
      simp only [if_pos hin, h.forwarded k' hm hheld]
    · rw [if_neg hin]
  have hnone := hs.releasedModifiers
  refine ⟨⟨?_, ?_, ?_, hs.keyed h.keyed, ?_, ?_, ?_, ?_, ?_, ?_⟩, hnone⟩
  · intro k' hm
    rw [hs.modifiersState]
    by_cases hin : k' ∈ keys
    · simp only [hm, hin, (h.lifted k' ((hmod k').mp hin)).2, and_self, if_true]
    · rw [if_neg fun hh => hin hh.2]
      exact h.state k' hm
  · exact fun k' hm hheld => (hto k').mpr (h.forwarded k' hm hheld)
  · exact fun k' hin => h.owed k' ((hto k').mp hin)
  · intro m hm
    rw [hnone] at hm
    cases hm
  · rintro k' ⟨m, hm, -⟩
    rw [hnone] at hm
    cases hm
  · intro k' hin
    rw [hs.remoteDown, if_neg]
    · exact h.up k' fun hh => hin ((hto k').mpr hh)
    · intro hk'
      obtain ⟨hm, hheld⟩ := h.lifted k' ((hmod k').mp hk')
      exact hin ((hto k').mpr (h.forwarded k' hm hheld))
  · intro k' hheld hm _
    rw [hs.remoteDown]
    by_cases hin : k' ∈ keys
    · rw [if_pos hin]
    · rw [if_neg hin]
      exact h.down k' hheld hm fun hl => hin ((hmod k').mpr hl)
  · intro k' hf
    obtain ⟨h₁, h₂, h₃⟩ := h.fired k' (hs.firedKeys ▸ hf)
    exact ⟨h₁, h₂, fun hin => h₃ ((hto k').mp hin)⟩
  · intro k' hp
    exact hs.firedKeys.symm ▸ h.pending k' (hs.releaseActions ▸ hp)

/-- A press that is forwarded. -/
theorem Inv.press (h : Inv t held (remoteDown sent)) (he : e.eventType = .keyPress k)
    (hfired : k ∉ t.firedKeys) : Inv (t.eventToKeyEvents e).1 (insert k held)
      (remoteDown (sent ++ [(t.eventToKeyEvents e).2])) := by
  have hs := eventToKeyEvents_sent (t := t) (d := true) he
  have hto : ∀ k', k' ∈ (t.eventToKeyEvents e).1.toRelease ↔ k' = k ∨ k' ∈ t.toRelease := by
    intro k'
    rw [hs.toRelease]
    by_cases hk : k' = k <;> simp [hk]
  refine ⟨?_, ?_, ?_, hs.keyed h.keyed, ?_, ?_, ?_, ?_, ?_, ?_⟩
  · intro k' hm
    rw [hs.modifiersState]
    by_cases hk : k' = k
    · simp [hk, hk ▸ hm]
    · simp [hk, h.state k' hm]
  · intro k' hm hheld
    refine (hto k').mpr ((Finset.mem_insert.mp hheld).imp_right fun hheld => ?_)
    exact h.forwarded k' hm hheld
  · intro k' hin
    exact Finset.mem_insert.mpr (((hto k').mp hin).imp_right (h.owed k'))
  · rw [hs.releasedModifiers]
    exact h.liftedKeyed
  · intro k' hl
    obtain ⟨hm, hheld⟩ := h.lifted k' ((lifted_congr hs.releasedModifiers k').mp hl)
    exact ⟨hm, Finset.mem_insert_of_mem hheld⟩
  · intro k' hin
    rw [hs.remoteDown, if_neg fun hk => hin ((hto k').mpr (Or.inl (List.mem_singleton.mp hk)))]
    exact h.up k' fun hh => hin ((hto k').mpr (Or.inr hh))
  · intro k' hheld hm hl
    rw [hs.remoteDown]
    by_cases hk : k' = k
    · rw [if_pos (List.mem_singleton.mpr hk)]
    · rw [if_neg fun hh => hk (List.mem_singleton.mp hh)]
      exact h.down k' (Finset.mem_of_mem_insert_of_ne hheld hk) hm fun hh =>
        hl ((lifted_congr hs.releasedModifiers k').mpr hh)
  · intro k' hf
    rw [hs.firedKeys] at hf
    obtain ⟨h₁, h₂, h₃⟩ := h.fired k' hf
    refine ⟨h₁, Finset.mem_insert_of_mem h₂, fun hin => ?_⟩
    rcases (hto k').mp hin with rfl | hin
    · exact hfired hf
    · exact h₃ hin
  · intro k' hp
    exact hs.firedKeys.symm ▸ h.pending k' (hs.releaseActions ▸ hp)

/-- `try_dispatch` forgets that a key was lifted as soon as it is released. -/
theorem forgetReleased_spec (h : ∀ m ∈ t.releasedModifiers, Keyed m)
    (he : e.eventType = .keyRelease k) :
    ∃ r, t.forgetReleased e = { t with releasedModifiers := r } ∧ (∀ m ∈ r, Keyed m) ∧
      ∀ k', { t with releasedModifiers := r }.Lifted k' ↔ t.Lifted k' ∧ k' ≠ k := by
  simp only [forgetReleased, he, Lifted]
  cases hr : t.releasedModifiers with
  | none => exact ⟨none, (with_none hr).symm, by simp, by simp⟩
  | some m =>
    refine ⟨_, rfl, ?_, ?_⟩
    · intro m' hm'
      obtain rfl := Option.some.inj (Option.ite_none_left_eq_some.mp hm').2
      exact (h m hr).erase k
    · intro k'
      by_cases hempty : (m.erase k).entries.isEmpty = true
      · have hnil : (m.erase k).entries = [] := List.isEmpty_iff.mp hempty
        have hnot : k' ∉ m.erase k := by
          rw [AList.mem_keys, AList.keys, hnil]
          exact List.not_mem_nil
        rw [AList.mem_erase] at hnot
        simp only [if_pos hempty]
        simp
        tauto
      · simp only [if_neg hempty]
        simp [AList.mem_erase, and_comm]

/-- A release that is forwarded. -/
theorem Inv.release (h : Inv t held (remoteDown sent)) (he : e.eventType = .keyRelease k)
    (hfired : k ∉ t.firedKeys) : Inv ((t.forgetReleased e).eventToKeyEvents e).1 (held.erase k)
      (remoteDown (sent ++ [((t.forgetReleased e).eventToKeyEvents e).2])) := by
  obtain ⟨r, hr, hrkeyed, hlift⟩ := forgetReleased_spec h.liftedKeyed he
  rw [hr]
  have hs := eventToKeyEvents_sent (t := { t with releasedModifiers := r }) (d := false) he
  have hto : ∀ k', k' ∈ ({ t with releasedModifiers := r }.eventToKeyEvents e).1.toRelease ↔
      k' ≠ k ∧ k' ∈ t.toRelease := by
    intro k'
    rw [hs.toRelease]
    by_cases hk : k' = k <;> simp [hk]
  refine ⟨?_, ?_, ?_, hs.keyed h.keyed, ?_, ?_, ?_, ?_, ?_, ?_⟩
  · intro k' hm
    rw [hs.modifiersState]
    by_cases hk : k' = k
    · simp [hk, hk ▸ hm]
    · simp [hk, h.state k' hm]
  · intro k' hm hheld
    obtain ⟨hne, hheld⟩ := Finset.mem_erase.mp hheld
    exact (hto k').mpr ⟨hne, h.forwarded k' hm hheld⟩
  · intro k' hin
    exact Finset.mem_erase.mpr (((hto k').mp hin).imp_right (h.owed k'))
  · rw [hs.releasedModifiers]
    exact hrkeyed
  · intro k' hl
    obtain ⟨hl, hne⟩ := (hlift k').mp ((lifted_congr hs.releasedModifiers k').mp hl)
    obtain ⟨hm, hheld⟩ := h.lifted k' hl
    exact ⟨hm, Finset.mem_erase.mpr ⟨hne, hheld⟩⟩
  · intro k' hin
    rw [hs.remoteDown]
    by_cases hk : k' = k
    · rw [if_pos (List.mem_singleton.mpr hk)]
    · rw [if_neg fun hh => hk (List.mem_singleton.mp hh)]
      exact h.up k' fun hh => hin ((hto k').mpr ⟨hk, hh⟩)
  · intro k' hheld hm hl
    obtain ⟨hne, hheld⟩ := Finset.mem_erase.mp hheld
    rw [hs.remoteDown, if_neg fun hh => hne (List.mem_singleton.mp hh)]
    refine h.down k' hheld hm fun hh => hl ?_
    exact (lifted_congr hs.releasedModifiers k').mpr ((hlift k').mpr ⟨hh, hne⟩)
  · intro k' hf
    rw [hs.firedKeys] at hf
    obtain ⟨h₁, h₂, h₃⟩ := h.fired k' hf
    have hne : k' ≠ k := by
      rintro rfl
      exact hfired hf
    exact ⟨h₁, Finset.mem_erase.mpr ⟨hne, h₂⟩, fun hin => h₃ ((hto k').mp hin).2⟩
  · intro k' hp
    exact hs.firedKeys.symm ▸ h.pending k' (hs.releaseActions ▸ hp)

/-! ### The tables of shortcuts -/

/-- What is done to the remote for a chord or before a key: the tables of shortcuts stay, and
ordinary keys are only released. -/
structure Moves (t t' : Tables) (sent : List KeyEvent) : Prop where
  firedKeys : t'.firedKeys = t.firedKeys
  releaseActions : t'.releaseActions = t.releaseActions
  toRelease : ∀ k, isModifier k = false → k ∈ t'.toRelease → k ∈ t.toRelease
  keys : ∀ e ∈ sent, isModifier e.key = true ∨ e.down = false ∧ e.key ∈ t.toRelease

theorem Moves.refl (t : Tables) : Moves t t [] := ⟨rfl, rfl, fun _ _ h => h, by simp⟩

theorem Moves.trans {t₁ t₂ : Tables} {s₁ s₂ : List KeyEvent} (h₁ : Moves t t₁ s₁)
    (h₂ : Moves t₁ t₂ s₂) : Moves t t₂ (s₁ ++ s₂) := by
  refine ⟨h₂.firedKeys.trans h₁.firedKeys, h₂.releaseActions.trans h₁.releaseActions, ?_, ?_⟩
  · exact fun k hk hin => h₁.toRelease k hk (h₂.toRelease k hk hin)
  · intro e he
    rcases List.mem_append.mp he with he | he
    · exact h₁.keys e he
    · by_cases hm : isModifier e.key = true
      · exact Or.inl hm
      · obtain ⟨hd, hin⟩ := (h₂.keys e he).resolve_left hm
        exact Or.inr ⟨hd, h₁.toRelease _ (Bool.not_eq_true _ ▸ hm) hin⟩

/-- Among it there is no press of a non-modifier. -/
theorem Moves.not_press (h : Moves t t' sent) {e : KeyEvent} (hdown : e.down = true)
    (hkey : isModifier e.key = false) : e ∉ sent := by
  intro he
  rcases h.keys e he with hm | ⟨hup, -⟩
  · rw [hkey] at hm
    cases hm
  · rw [hdown] at hup
    cases hup

/-- Releases of what is owed. -/
theorem Sent.moves (h : Sent false t keys t' l) (hkeys : ∀ k ∈ keys, k ∈ t.toRelease) :
    Moves t t' l := by
  refine ⟨h.firedKeys, h.releaseActions, ?_, ?_⟩
  · intro k _ hin
    rw [h.toRelease] at hin
    split at hin
    · cases hin
    · exact hin
  · intro e he
    exact Or.inr ⟨h.down e he, hkeys _ (h.keys ▸ List.mem_map_of_mem he)⟩

theorem releaseRemoteNonModifiers_moves (t : Tables) :
    Moves t t.releaseRemoteNonModifiers.1 t.releaseRemoteNonModifiers.2 := by
  refine t.releaseRemoteNonModifiers_sent.moves fun k hk => ?_
  exact (mem_filter_keys (p := fun k => !isModifier k).mp hk).1

theorem releaseRemoteKeys_moves (t : Tables) (peer : String) :
    Moves t (t.releaseRemoteKeys peer).1 (t.releaseRemoteKeys peer).2 := by
  have hs := sendAll_sent (t := t) (releases_eventType t.modifiers)
  have hm := hs.moves fun k hk => (mem_modifiers.mp hk).1
  refine ⟨hm.firedKeys, hm.releaseActions, ?_, ?_⟩
  · intro k hk hin
    rw [releaseRemoteKeys_fst] at hin
    rcases mem_foldl_insert.mp hin with hin | hin
    · exact hm.toRelease k hk hin
    · obtain ⟨x, hx, rfl⟩ := List.mem_map.mp hin
      have hmod := (mem_modifiers.mp (List.mem_map_of_mem (List.mem_of_mem_filter hx))).2
      rw [hk] at hmod
      cases hmod
  · have hctrl :
      ∀ down, ∀ e ∈ if neutralizeMenu peer t.modifiers then [windowsMenuCtrl down] else [],
        isModifier e.key = true := by
      intro down e he
      split at he
      · rw [List.mem_singleton.mp he]
        rfl
      · cases he
    intro e he
    have he : e ∈ (if neutralizeMenu peer t.modifiers then [windowsMenuCtrl true] else []) ++
        (t.sendAll (releases t.modifiers)).2 ++
          (if neutralizeMenu peer t.modifiers then [windowsMenuCtrl false] else []) := he
    rcases List.mem_append.mp he with he | he
    · rcases List.mem_append.mp he with he | he
      · exact Or.inl (hctrl true e he)
      · exact hm.keys e he
    · exact Or.inl (hctrl false e he)

theorem Inv.restoreRemoteModifiers_moves (h : Inv t held down) (he : e.eventType = .keyPress k)
    (hk : isModifier k = false) :
    Moves t (t.restoreRemoteModifiers e).1 (t.restoreRemoteModifiers e).2 := by
  obtain ⟨keys, hs, hkeys⟩ := restoreRemoteModifiers_sent h.liftedKeyed he hk
  have hmod : ∀ k' ∈ keys, isModifier k' = true := fun k' hin =>
    (h.lifted k' ((hkeys k').mp hin).1).1
  refine ⟨hs.firedKeys, hs.releaseActions, ?_, ?_⟩
  · intro k' hk' hin
    rw [hs.toRelease, if_neg] at hin
    · exact hin
    · intro hh
      rw [hmod k' hh] at hk'
      cases hk'
  · exact fun x hx => Or.inl (hmod _ (hs.keys ▸ List.mem_map_of_mem hx))

end Tables

/-! ## One event -/

namespace Tables

variable {t : Tables} {held : Finset Key} {sent : List KeyEvent} {e : Event} {k : Key} {env : Env}
  {action : String}

/-- What is released on the remote before an action. -/
def release (t : Tables) (peer action : String) : Tables × List KeyEvent :=
  let r := if releasesOrdinaryKeys action then t.releaseRemoteNonModifiers else (t, [])
  ((r.1.releaseRemoteKeys peer).1, r.2 ++ (r.1.releaseRemoteKeys peer).2)

theorem release_moves (t : Tables) (peer action : String) :
    Moves t (t.release peer action).1 (t.release peer action).2 := by
  rw [release]
  split
  · exact t.releaseRemoteNonModifiers_moves.trans (releaseRemoteKeys_moves _ _)
  · exact (Moves.refl t).trans (releaseRemoteKeys_moves _ _)

theorem Inv.afterRelease (h : Inv t held (remoteDown sent)) (peer action : String) :
    Inv (t.release peer action).1 held (remoteDown (sent ++ (t.release peer action).2)) := by
  rw [Tables.release]
  split
  · rw [← List.append_assoc]
    exact h.releaseRemoteNonModifiers.releaseRemoteKeys peer
  · exact h.releaseRemoteKeys peer

/-- A press that fires. -/
theorem fire_press (he : e.eventType = .keyPress k) : fire t env e action =
      { tables := { (t.release env.peer action).1 with
          firedKeys := insert k (t.release env.peer action).1.firedKeys
          releaseActions :=
            if runsOnRelease action then (t.release env.peer action).1.releaseActions.insert
              k action
            else (t.release env.peer action).1.releaseActions.erase k }
        sent := (t.release env.peer action).2
        actions := if runsOnRelease action then [] else [(k, action)]
        consumed := true } := by
  simp only [fire, he, release]
  split <;> split <;> rfl

theorem matchEvent_release (he : e.eventType = .keyRelease k) (state : Key → Bool) :
    matchEvent env.os env.altGraph env.bindings state e = none := by
  simp [matchEvent, eventToKeyName, he]

/-- No binding has a modifier for its key. -/
theorem keyName_modifier (hk : isModifier k = true) : keyName k = none := by
  cases k <;> first | rfl | cases hk

/-- What fires is no modifier and has not been forwarded. -/
theorem fires_press (he : e.eventType = .keyPress k) (h : t.fires env e = some action) :
    isModifier k = false ∧ k ∉ t.toRelease := by
  simp only [fires, he] at h
  obtain ⟨hto, h⟩ := Option.ite_none_left_eq_some.mp h
  refine ⟨?_, hto⟩
  by_contra hk
  rw [Bool.not_eq_false] at hk
  simp [matchEvent, eventToKeyName, he, keyName_modifier hk] at h

theorem forgetReleased_press (he : e.eventType = .keyPress k) : t.forgetReleased e = t := by
  simp only [forgetReleased, he]

theorem forgetReleased_eq (t : Tables) (e : Event) : t.forgetReleased e =
      { t with releasedModifiers := (t.forgetReleased e).releasedModifiers } := by
  simp only [forgetReleased]
  split
  · rfl
  · split <;> rfl

/-- A repeat of a key that fired. -/
theorem process_fired_press (he : e.eventType = .keyPress k) (hfired : k ∈ t.firedKeys) :
    processEventWithSession t env e = ⟨t, [], [], true⟩ := by
  simp only [processEventWithSession, tryDispatch, he, forgetReleased_press he, if_pos hfired,
    if_true]

theorem process_fire (he : e.eventType = .keyPress k) (hfired : k ∉ t.firedKeys)
    (h : t.fires env e = some action) : processEventWithSession t env e = fire t env e action := by
  simp only [processEventWithSession, tryDispatch, he, forgetReleased_press he, if_neg hfired, h]
  rw [if_pos]
  rw [fire_press he]

/-- The release of a key that fired. -/
theorem process_fired_release (he : e.eventType = .keyRelease k) (hfired : k ∈ t.firedKeys) :
    processEventWithSession t env e =
      ⟨{ t.forgetReleased e with
        firedKeys := t.firedKeys.erase k, releaseActions := t.releaseActions.erase k }, [],
        ((t.releaseActions.lookup k).map (k, ·)).toList, true⟩ := by
  rw [forgetReleased_eq]
  have hf : k ∈ (t.forgetReleased e).firedKeys := by
    rw [forgetReleased_eq]
    exact hfired
  simp only [processEventWithSession, tryDispatch, he, if_pos hf, if_true]
  rw [forgetReleased_eq]

theorem process_release (he : e.eventType = .keyRelease k) (hfired : k ∉ t.firedKeys) :
    processEventWithSession t env e =
      ⟨((t.forgetReleased e).eventToKeyEvents e).1, [((t.forgetReleased e).eventToKeyEvents e).2],
        [], false⟩ := by
  have hf : k ∉ (t.forgetReleased e).firedKeys := by
    rw [forgetReleased_eq]
    exact hfired
  have hnone : (t.forgetReleased e).fires env e = none := by
    simp only [fires, he]
    exact matchEvent_release he _
  simp only [processEventWithSession, tryDispatch, he, if_neg hf, hnone, restoreRemoteModifiers,
    isLongPress,
    Bool.false_eq_true, if_false, List.nil_append]

/-- A press of a modifier that fires nothing. -/
theorem process_modifier (he : e.eventType = .keyPress k) (hfired : k ∉ t.firedKeys)
    (hk : isModifier k = true) : processEventWithSession t env e =
      if t.modifiersState k then ⟨t, [], [], false⟩
      else ⟨(t.eventToKeyEvents e).1, [(t.eventToKeyEvents e).2], [], false⟩ := by
  have hnone : t.fires env e = none := by
    by_contra hsome
    obtain ⟨action, h⟩ := Option.ne_none_iff_exists'.mp hsome
    have hno := (fires_press he h).1
    rw [hk] at hno
    cases hno
  simp only [processEventWithSession, tryDispatch, he, forgetReleased_press he, if_neg hfired,
    hnone, restoreRemoteModifiers,
    hk, if_true, isLongPress, Bool.true_and, Bool.false_eq_true, if_false, List.nil_append]

/-- A press of another key that fires nothing. -/
theorem process_press (he : e.eventType = .keyPress k) (hfired : k ∉ t.firedKeys)
    (hnone : t.fires env e = none) (hk : isModifier k = false) : processEventWithSession t env e =
      ⟨((t.restoreRemoteModifiers e).1.eventToKeyEvents e).1,
        (t.restoreRemoteModifiers e).2 ++ [((t.restoreRemoteModifiers e).1.eventToKeyEvents e).2],
          [], false⟩ := by
  simp only [processEventWithSession, tryDispatch, he, forgetReleased_press he, if_neg hfired,
    hnone, isLongPress, hk,
    Bool.false_and, Bool.false_eq_true, if_false]

theorem Inv.fire (h : Inv t held (remoteDown sent)) (he : e.eventType = .keyPress k)
    (hfires : t.fires env e = some action) : Inv (fire t env e action).tables (insert k held)
      (remoteDown (sent ++ (fire t env e action).sent)) := by
  obtain ⟨hk, hto⟩ := fires_press he hfires
  have hr := (h.afterRelease env.peer action).hold hk
  have hm := t.release_moves env.peer action
  rw [fire_press he]
  refine { hr with fired := ?_, pending := ?_ }
  · intro k' hf
    rcases Finset.mem_insert.mp hf with rfl | hf
    · exact ⟨hk, Finset.mem_insert_self _ _, fun hin => hto (hm.toRelease _ hk hin)⟩
    · exact hr.fired k' hf
  · intro k' hp
    refine Finset.mem_insert.mpr ?_
    by_cases hkk : k' = k
    · exact Or.inl hkk
    · refine Or.inr (hr.pending k' ?_)
      change k' ∈ (if runsOnRelease action = true then _ else _ : AList fun _ : Key => String) at hp
      split at hp
      · exact (AList.mem_insert _).mp hp |>.resolve_left hkk
      · exact (AList.mem_erase.mp hp).2

theorem Inv.processPress (h : Inv t held (remoteDown sent)) (he : e.eventType = .keyPress k) :
    Inv (processEventWithSession t env e).tables (insert k held)
      (remoteDown (sent ++ (processEventWithSession t env e).sent)) := by
  by_cases hfired : k ∈ t.firedKeys
  · rw [process_fired_press he hfired, List.append_nil]
    exact h.hold (h.fired k hfired).1
  by_cases hk : isModifier k = true
  · rw [process_modifier he hfired hk]
    split
    · next hstate =>
      -- a repeat
      rw [List.append_nil, Finset.insert_eq_of_mem ((h.state k hk).mp hstate)]
      exact h
    · exact h.press he hfired
  rw [Bool.not_eq_true] at hk
  cases hfires : t.fires env e with
  | some action =>
    rw [process_fire he hfired hfires]
    exact h.fire he hfires
  | none =>
    rw [process_press he hfired hfires hk, ← List.append_assoc]
    have hm := h.restoreRemoteModifiers_moves he hk
    exact (h.restoreRemoteModifiers he hk).1.press he (hm.firedKeys ▸ hfired)

theorem Inv.processRelease (h : Inv t held (remoteDown sent)) (he : e.eventType = .keyRelease k) :
    Inv (processEventWithSession t env e).tables (held.erase k)
      (remoteDown (sent ++ (processEventWithSession t env e).sent)) := by
  by_cases hfired : k ∈ t.firedKeys
  · obtain ⟨r, hr, hkeyed, hlift⟩ := forgetReleased_spec h.liftedKeyed he
    obtain ⟨hk, -, hto⟩ := h.fired k hfired
    rw [process_fired_release he hfired, List.append_nil, hr]
    have hne : ∀ {k'}, isModifier k' = true → k' ≠ k := by
      rintro k' hk' rfl
      rw [hk] at hk'
      cases hk'
    refine { h with
      forwarded := ?_, owed := ?_, liftedKeyed := hkeyed, lifted := ?_, down := ?_, state :=
        ?_, fired := ?_, pending := ?_ }
    · intro k' hk'
      rw [h.state k' hk', Finset.mem_erase, and_iff_right (hne hk')]
    · exact fun k' hk' hin => h.forwarded k' hk' (Finset.mem_of_mem_erase hin)
    · refine fun k' hin => Finset.mem_erase.mpr ⟨?_, h.owed k' hin⟩
      rintro rfl
      exact hto hin
    · intro k' hl
      obtain ⟨hl, hkk⟩ := (hlift k').mp hl
      obtain ⟨hm, hheld⟩ := h.lifted k' hl
      exact ⟨hm, Finset.mem_erase.mpr ⟨hkk, hheld⟩⟩
    · intro k' hheld hk' hl
      exact h.down k' (Finset.mem_of_mem_erase hheld) hk' fun hh =>
        hl ((hlift k').mpr ⟨hh, hne hk'⟩)
    · intro k' hf
      obtain ⟨hkk, hf⟩ := Finset.mem_erase.mp hf
      obtain ⟨h₁, h₂, h₃⟩ := h.fired k' hf
      exact ⟨h₁, Finset.mem_erase.mpr ⟨hkk, h₂⟩, h₃⟩
    · intro k' hp
      obtain ⟨hkk, hp⟩ := AList.mem_erase.mp hp
      exact Finset.mem_erase.mpr ⟨hkk, h.pending k' hp⟩
  · rw [process_release he hfired]
    exact h.release he hfired

theorem mem_congr {m m' : Held} (h : m.entries.Perm m'.entries) (k : Key) : k ∈ m ↔ k ∈ m' := by
  rw [AList.mem_keys, AList.mem_keys]
  exact (h.map Sigma.fst).mem_iff

theorem Keyed.congr {m m' : Held} (h : m.entries.Perm m'.entries) (hm : Keyed m) : Keyed m' :=
  fun x hx => hm x (h.mem_iff.mpr hx)

/-- The order in the tables does not matter. -/
theorem Inv.rehash {down : Key → Bool} (h : Inv t held down) {m : Held}
    (hm : t.toRelease.entries.Perm m.entries) {r : Option Held}
    (hr : Option.Rel (fun a b : Held => a.entries.Perm b.entries) t.releasedModifiers r) :
    Inv { t with toRelease := m, releasedModifiers := r } held down := by
  have hto := mem_congr hm
  have hlift : ∀ k, { t with toRelease := m, releasedModifiers := r }.Lifted k ↔ t.Lifted k := by
    intro k
    change (∃ a ∈ r, k ∈ a) ↔ ∃ a ∈ t.releasedModifiers, k ∈ a
    generalize t.releasedModifiers = r₀ at hr
    cases hr with
    | some hp => simpa using (mem_congr hp k).symm
    | none => simp
  refine ⟨h.state, fun k hk hheld => (hto k).mp (h.forwarded k hk hheld),
    fun k hk => h.owed k ((hto k).mpr hk),
    h.keyed.congr hm, ?_, fun k hk => h.lifted k ((hlift k).mp hk), fun k hk => h.up k fun hh =>
      hk ((hto k).mp hh),
    fun k hheld hk hl => h.down k hheld hk fun hh => hl ((hlift k).mpr hh), ?_, h.pending⟩
  · have hkeyed := h.liftedKeyed
    generalize t.releasedModifiers = r₀ at hr hkeyed
    cases hr with
    | some hp =>
      rintro a ha
      obtain rfl := Option.some.inj ha
      exact (hkeyed _ rfl).congr hp
    | none => simp
  · intro k hk
    obtain ⟨h₁, h₂, h₃⟩ := h.fired k hk
    exact ⟨h₁, h₂, fun hin => h₃ ((hto k).mpr hin)⟩

end Tables

/-! ## Every run -/

namespace State

variable {os : Os} {peer : String} {s s' : State} {e : Event} {altGraph : Bool} {k : Key}
  {action : String} {a : Act}

def Inv (s : State) : Prop := s.tables.Inv s.held (remoteDown s.sent)

theorem step_key (h : step os peer s (.key e altGraph) = some s') : s.WellFormed e ∧ s' = { s with
      tables := (s.outcome os peer e altGraph).tables
      sent := s.sent ++ (s.outcome os peer e altGraph).sent
      actions := s.actions ++ (s.outcome os peer e altGraph).actions
      held := s.heldAfter e } := by
  obtain ⟨hwf, h⟩ := Option.ite_none_right_eq_some.mp h
  exact ⟨hwf, (Option.some.inj h).symm⟩

/-- A rehash leaves everything but the order in two tables. -/
theorem step_rehash {m r : Held} (h : step os peer s (.rehash m r) = some s') :
    ∃ r', s' = { s with tables := { s.tables with toRelease := m, releasedModifiers := r' } } ∧
      s.tables.toRelease.entries.Perm m.entries ∧
      Option.Rel (fun a b : Held => a.entries.Perm b.entries) s.tables.releasedModifiers r' := by
  obtain ⟨hm, h⟩ := Option.ite_none_right_eq_some.mp h
  cases hr : s.tables.releasedModifiers with
  | none =>
    simp only [hr] at h
    exact ⟨none, by rw [← Option.some.inj h, ← hr], hm, .none⟩
  | some held =>
    simp only [hr] at h
    obtain ⟨hp, h⟩ := Option.ite_none_right_eq_some.mp h
    exact ⟨some r, (Option.some.inj h).symm, hm, .some hp⟩

theorem Inv.key (h : s.Inv) (e : Event) (altGraph : Bool) :
    (s.outcome os peer e altGraph).tables.Inv (s.heldAfter e)
      (remoteDown (s.sent ++ (s.outcome os peer e altGraph).sent)) := by
  cases he : e.eventType with
  | keyPress k =>
    rw [show s.heldAfter e = insert k s.held by rw [heldAfter, he]]
    exact Tables.Inv.processPress h he
  | keyRelease k =>
    rw [show s.heldAfter e = s.held.erase k by rw [heldAfter, he]]
    exact Tables.Inv.processRelease h he

theorem Inv.step (h : s.Inv) (hstep : step os peer s a = some s') : s'.Inv := by
  cases a with
  | key e altGraph =>
    obtain ⟨-, rfl⟩ := step_key hstep
    exact h.key e altGraph
  | reload bindings =>
    obtain rfl := Option.some.inj hstep
    exact h
  | rehash m r =>
    obtain ⟨r', rfl, hm, hr⟩ := step_rehash hstep
    exact Tables.Inv.rehash h hm hr

theorem inv_of_run {bindings : Bindings} {as : List Act}
    (h : exec (step os peer) (.new bindings) as = some s) : s.Inv :=
  exec_invariant (I := Inv) (fun _ _ _ hI hs => hI.step hs)
    (show (State.new bindings).Inv from Tables.Inv.new) h

/-! ### The modifiers under an ordinary key -/

theorem eq_of_concat_eq_append_cons {α : Type} {l pre post : List α} {a b : α}
    (h : l ++ [a] = pre ++ b :: post) (hb : b ∉ l) : l = pre := by
  induction post using List.reverseRecOn with
  | nil => exact (List.append_inj_left' h rfl)
  | append_singleton post c _ =>
    rw [← List.cons_append, ← List.append_assoc] at h
    have hl := List.append_inj_left' h rfl
    exact absurd (hl ▸ List.mem_append_right _ List.mem_cons_self) hb

/-- What a press of a non-modifier finds on the remote. -/
theorem Inv.modifiers (h : s.Inv) {pre post : List KeyEvent} {keyEvent : KeyEvent}
    (hsent : (s.outcome os peer e altGraph).sent = pre ++ keyEvent :: post)
    (hdown : keyEvent.down = true) (hkey : isModifier keyEvent.key = false) {m : Key}
    (hm : isModifier m = true) : remoteDown (s.sent ++ pre) m = true ↔ m ∈ s.heldAfter e := by
  have hmem : keyEvent ∈ (s.outcome os peer e altGraph).sent := by
    rw [hsent]
    exact List.mem_append_right _ List.mem_cons_self
  rw [outcome] at hsent hmem
  cases he : e.eventType with
  | keyRelease k =>
    by_cases hfired : k ∈ s.tables.firedKeys
    · rw [Tables.process_fired_release he hfired] at hmem
      cases hmem
    · rw [Tables.process_release he hfired] at hmem
      have hup :=
        (Tables.eventToKeyEvents_sent (t := s.tables.forgetReleased e) (d := false) he).down _ hmem
      rw [hdown] at hup
      cases hup
  | keyPress k =>
    by_cases hfired : k ∈ s.tables.firedKeys
    · rw [Tables.process_fired_press he hfired] at hmem
      cases hmem
    by_cases hk : isModifier k = true
    · rw [Tables.process_modifier he hfired hk] at hmem
      split at hmem
      · cases hmem
      · have hkeys := (Tables.eventToKeyEvents_sent (t := s.tables) (d := true) he).keys
        rw [List.mem_singleton.mp hmem, (List.cons.inj hkeys).1, hk] at hkey
        cases hkey
    rw [Bool.not_eq_true] at hk
    cases hfires : s.tables.fires ⟨os, peer, altGraph, s.bindings⟩ e with
    | some action =>
      rw [Tables.process_fire he hfired hfires, Tables.fire_press he] at hmem
      exact absurd hmem ((s.tables.release_moves peer action).not_press hdown hkey)
    | none =>
      rw [Tables.process_press he hfired hfires hk] at hsent
      have hnot := (h.restoreRemoteModifiers_moves he hk).not_press hdown hkey
      obtain rfl : (s.tables.restoreRemoteModifiers e).2 = pre :=
        eq_of_concat_eq_append_cons hsent hnot
      rw [heldAfter, he, Finset.mem_insert, or_iff_right]
      · obtain ⟨hInv, hnone⟩ := Tables.Inv.restoreRemoteModifiers h he hk
        exact hInv.remote hnone hm
      · rintro rfl
        rw [hk] at hm
        cases hm

/-! ### A key that fired -/

/-- The events sent for a key. -/
def sentFor (s : State) (k : Key) : List KeyEvent := s.sent.filter fun e => e.key = k

/-- The actions that a key has fired. -/
def actionsFor (s : State) (k : Key) : List (Key × String) := s.actions.filter fun x => x.1 = k

/-- The key belongs to this side, with what it still owes on its release. -/
structure Owned (s : State) (k : Key) (pending : Option String) (sent : List KeyEvent)
  (actions : List (Key × String)) :
    Prop where
  inv : s.Inv
  fired : k ∈ s.tables.firedKeys
  pending : s.tables.releaseActions.lookup k = pending
  sent : s.sentFor k = sent
  actions : s.actionsFor k = actions

/-- The event is a release of the key. -/
def Releases (k : Key) : Act → Prop
  | .key e _ => e.eventType = .keyRelease k
  | _ => False

/-- The event is a press of the key that fires. -/
structure Fires (os : Os) (peer : String) (s : State) (e : Event) (altGraph : Bool) (k : Key)
  (action : String) : Prop where
  press : e.eventType = .keyPress k
  fired : k ∉ s.tables.firedKeys
  fires : s.tables.fires ⟨os, peer, altGraph, s.bindings⟩ e = some action

theorem filter_key_nil {l : List KeyEvent} {t t' : Tables} (h : Tables.Moves t t' l)
    (hk : isModifier k = false) (hto : k ∉ t.toRelease) : l.filter (fun e => e.key = k) = [] := by
  rw [List.filter_eq_nil_iff]
  intro e he hek
  obtain rfl : e.key = k := of_decide_eq_true hek
  rcases h.keys e he with hm | ⟨-, hin⟩
  · rw [hk] at hm
    cases hm
  · exact hto hin

/-- The press that fires takes the key. -/
theorem Inv.owned (h : s.Inv) (hf : Fires os peer s e altGraph k action)
    (hstep : State.step os peer s (.key e altGraph) = some s') :
    s'.Owned k (if runsOnRelease action then some action else none) (s.sentFor k)
      (s.actionsFor k ++ if runsOnRelease action then [] else [(k, action)]) := by
  obtain ⟨hk, hto⟩ := Tables.fires_press hf.press hf.fires
  have hInv := h.step hstep
  have hm := s.tables.release_moves peer action
  obtain ⟨-, rfl⟩ := step_key hstep
  have ho : s.outcome os peer e altGraph = fire s.tables ⟨os, peer, altGraph, s.bindings⟩ e
    action :=
    Tables.process_fire hf.press hf.fired hf.fires
  rw [Tables.fire_press hf.press] at ho
  refine ⟨hInv, ?_, ?_, ?_, ?_⟩
  · rw [ho]
    exact Finset.mem_insert_self _ _
  · rw [ho]
    split
    · exact AList.lookup_insert _
    · exact AList.lookup_erase _ _
  · rw [sentFor, ho, List.filter_append, filter_key_nil hm hk hto, List.append_nil]
    rfl
  · rw [actionsFor, ho, List.filter_append]
    split
    · rfl
    · rw [List.filter_cons_of_pos (by simp), List.filter_nil]
      rfl

theorem filter_own {down : Bool} {k' : Key} {t t' : Tables} {l : List KeyEvent}
    (h : Tables.Sent down t [k'] t' l) (hne : k' ≠ k) : l.filter (fun e => e.key = k) = [] := by
  rw [List.filter_eq_nil_iff]
  intro e he hek
  have hin := List.mem_map_of_mem (f := KeyEvent.key) he
  rw [h.keys, List.mem_singleton] at hin
  exact hne (hin.symm.trans (of_decide_eq_true hek))

/-- What an event leaves of a key that fired. -/
structure Untouched (k : Key) (t : Tables) (o : Outcome) : Prop where
  fired : k ∈ o.tables.firedKeys
  pending : o.tables.releaseActions.lookup k = t.releaseActions.lookup k
  sent : o.sent.filter (fun x => x.key = k) = []
  actions : o.actions.filter (fun x => x.1 = k) = []

/-- An event of another key, for a key that fired. -/
theorem Inv.untouched (h : s.Inv) (hfired : k ∈ s.tables.firedKeys) {k' : Key} (hne : k' ≠ k)
    (he : e.eventType = .keyPress k' ∨ e.eventType = .keyRelease k') (altGraph : Bool) :
    Untouched k s.tables (s.outcome os peer e altGraph) := by
  obtain ⟨hk, -, hto⟩ := h.fired k hfired
  rw [outcome]
  by_cases hfired' : k' ∈ s.tables.firedKeys
  · obtain he | he := he
    · rw [Tables.process_fired_press he hfired']
      exact ⟨hfired, rfl, rfl, rfl⟩
    · rw [Tables.process_fired_release he hfired']
      refine ⟨Finset.mem_erase.mpr ⟨hne.symm, hfired⟩, AList.lookup_erase_ne hne.symm, rfl, ?_⟩
      cases s.tables.releaseActions.lookup k' <;> simp [hne]
  obtain he | he := he
  · by_cases hk' : isModifier k' = true
    · rw [Tables.process_modifier he hfired' hk']
      split
      · exact ⟨hfired, rfl, rfl, rfl⟩
      · have hs := Tables.eventToKeyEvents_sent (t := s.tables) (d := true) he
        exact ⟨hs.firedKeys ▸ hfired, by rw [hs.releaseActions], filter_own hs hne, rfl⟩
    rw [Bool.not_eq_true] at hk'
    cases hfires : s.tables.fires ⟨os, peer, altGraph, s.bindings⟩ e with
    | some action =>
      have hm := s.tables.release_moves peer action
      rw [Tables.process_fire he hfired' hfires, Tables.fire_press he]
      refine ⟨Finset.mem_insert_of_mem (hm.firedKeys ▸ hfired), ?_, filter_key_nil hm hk hto, ?_⟩
      · rw [← hm.releaseActions]
        split
        · exact AList.lookup_insert_ne hne.symm
        · exact AList.lookup_erase_ne hne.symm
      · split <;> simp [hne]
    | none =>
      have hm := h.restoreRemoteModifiers_moves he hk'
      have hs := Tables.eventToKeyEvents_sent (t := (s.tables.restoreRemoteModifiers e).1)
        (d := true) he
      rw [Tables.process_press he hfired' hfires hk']
      refine ⟨hs.firedKeys ▸ hm.firedKeys ▸ hfired, by
        rw [hs.releaseActions, hm.releaseActions], ?_, rfl⟩
      rw [List.filter_append, filter_key_nil hm hk hto, filter_own hs hne, List.nil_append]
  · have hs := Tables.eventToKeyEvents_sent (t := s.tables.forgetReleased e) (d := false) he
    rw [Tables.process_release he hfired']
    refine ⟨?_, ?_, filter_own hs hne, rfl⟩
    · rw [hs.firedKeys, Tables.forgetReleased_eq]
      exact hfired
    · rw [hs.releaseActions, Tables.forgetReleased_eq]

variable {pending : Option String} {sent : List KeyEvent} {actions : List (Key × String)}

/-- What one step leaves of a key that fired. -/
theorem Owned.step (h : s.Owned k pending sent actions) (ha : ¬Releases k a)
    (hstep : State.step os peer s a = some s') : s'.Owned k pending sent actions := by
  have hInv := h.inv.step hstep
  cases a with
  | reload bindings =>
    obtain rfl := Option.some.inj hstep
    exact ⟨hInv, h.fired, h.pending, h.sent, h.actions⟩
  | rehash m r =>
    obtain ⟨r', rfl, -, -⟩ := step_rehash hstep
    exact ⟨hInv, h.fired, h.pending, h.sent, h.actions⟩
  | key e altGraph =>
    have hu : Untouched k s.tables (s.outcome os peer e altGraph) := by
      by_cases he : e.eventType = .keyPress k
      · -- a repeat
        rw [outcome, Tables.process_fired_press he h.fired]
        exact ⟨h.fired, rfl, rfl, rfl⟩
      cases hev : e.eventType with
      | keyPress k' =>
        refine h.inv.untouched h.fired ?_ (Or.inl hev) altGraph
        rintro rfl
        exact he hev
      | keyRelease k' =>
        refine h.inv.untouched h.fired ?_ (Or.inr hev) altGraph
        rintro rfl
        exact ha hev
    obtain ⟨-, rfl⟩ := step_key hstep
    refine ⟨hInv, hu.fired, hu.pending.trans h.pending, ?_, ?_⟩
    · rw [sentFor, List.filter_append, hu.sent, List.append_nil]
      exact h.sent
    · rw [actionsFor, List.filter_append, hu.actions, List.append_nil]
      exact h.actions

theorem Owned.run (h : s.Owned k pending sent actions) {as : List Act}
    (has : ∀ a ∈ as, ¬Releases k a) (hrun : exec (State.step os peer) s as = some s') :
    s'.Owned k pending sent actions :=
  exec_invariant_along (I := fun s => s.Owned k pending sent actions)
    (C := fun _ a => ¬Releases k a)
    (fun _ _ _ hI hC hstep => hI.step hC hstep) h (along_of_forall (fun a ha _ => has a ha) s) hrun

/-- The release gives the key back. -/
theorem Owned.release (h : s.Owned k pending sent actions) (he : e.eventType = .keyRelease k)
    (hstep : State.step os peer s (.key e altGraph) = some s') :
    s'.sentFor k = sent ∧ s'.actionsFor k = actions ++ (pending.map (k, ·)).toList := by
  obtain ⟨-, rfl⟩ := step_key hstep
  rw [sentFor, actionsFor, outcome, Tables.process_fired_release he h.fired, h.pending]
  refine ⟨?_, ?_⟩
  · rw [List.append_nil]
    exact h.sent
  · rw [List.filter_append, ← h.actions, actionsFor]
    cases pending <;> simp

/-! ### In step -/

/-- The session has not got the remote keyboard out of step, and will not. -/
structure InStep (os : Os) (peer : String) (s : State) : Prop where
  /-- from the press that fires to the release of its key, nothing is sent for the key -/
  silent : ∀ {e altGraph k action s₁ as s₂}, Fires os peer s e altGraph k action →
    State.step os peer s (.key e altGraph) = some s₁ → (∀ a ∈ as, ¬Releases k a) →
    exec (State.step os peer) s₁ as = some s₂ → s₂.sentFor k = s.sentFor k ∧
      ∀ {e' altGraph' s₃}, e'.eventType = .keyRelease k →
        State.step os peer s₂ (.key e' altGraph') = some s₃ →
        s₃.sentFor k = s.sentFor k
  /-- a press of a non-modifier is sent under the modifiers that are held -/
  modifiers : ∀ {e altGraph pre} {keyEvent : KeyEvent} {post}, s.WellFormed e →
    (s.outcome os peer e altGraph).sent = pre ++ keyEvent :: post → keyEvent.down = true →
    isModifier keyEvent.key = false → ∀ {m}, isModifier m = true →
      (remoteDown (s.sent ++ pre) m = true ↔ m ∈ s.heldAfter e)
  /-- a key that is up is up on the remote -/
  up : ∀ {k}, k ∉ s.held → ∀ e ∈ lastFor s.sent k, e.down = false
  /-- the action is pushed once, at the press or at the release -/
  once : ∀ {e altGraph k action s₁ as s₂}, Fires os peer s e altGraph k action →
    State.step os peer s (.key e altGraph) = some s₁ → (∀ a ∈ as, ¬Releases k a) →
    exec (State.step os peer) s₁ as = some s₂ →
      s₂.actionsFor k = s.actionsFor k ++ (if runsOnRelease action then [] else [(k, action)]) ∧
      ∀ {e' altGraph' s₃}, e'.eventType = .keyRelease k →
        State.step os peer s₂ (.key e' altGraph') = some s₃ →
        s₃.actionsFor k = s.actionsFor k ++ [(k, action)]

theorem Inv.inStep (h : s.Inv) : s.InStep os peer where
  silent hf hstep has hrun := by
    have ho := (h.owned hf hstep).run has hrun
    exact ⟨ho.sent, fun he' hstep' => (ho.release he' hstep').1⟩
  modifiers _ hsent hdown hkey _ hm := h.modifiers hsent hdown hkey hm
  up := by
    intro k hk e he
    have hup : remoteDown s.sent k = false := Tables.Inv.up h k fun hin =>
      hk (Tables.Inv.owed h k hin)
    rw [remoteDown, he] at hup
    exact hup
  once hf hstep has hrun := by
    have ho := (h.owned hf hstep).run has hrun
    refine ⟨ho.actions, fun he' hstep' => ?_⟩
    rw [(ho.release he' hstep').2, List.append_assoc]
    split <;> rfl

/-- **Shortcuts never leave the remote keyboard out of step.** -/
theorem shortcuts_in_step {bindings : Bindings} {as : List Act}
    (h : exec (State.step os peer) (.new bindings) as = some s) : s.InStep os peer :=
  (inv_of_run h).inStep

/-- Ctrl and Alt are held, and A fires; then B is typed under them. -/
theorem shortcuts_in_step_chord : ∃ s : State, exec (State.step .linux "windows")
      (.new ⟨true, false, [⟨"toggle_fullscreen", [.primary, .alt], "a"⟩]⟩)
        [.key ⟨.keyPress .controlLeft, 29⟩ false, .key ⟨.keyPress .alt, 56⟩ false,
          .key ⟨.keyPress .keyA, 30⟩ false,
          .key ⟨.keyPress .keyA, 30⟩ false, .key ⟨.keyRelease .keyA, 30⟩ false,
            .key ⟨.keyPress .keyB, 48⟩ false] = some s ∧
      s.InStep .linux "windows" ∧ s.actions = [(.keyA, "toggle_fullscreen")] ∧
      s.sent.map (fun e => (e.key, e.down)) =
        [(.controlLeft, true), (.alt, true), (.alt, false), (.controlLeft, false),
        (.controlLeft, true), (.alt, true), (.keyB, true)] := by
  have hrun :
    ((exec (State.step .linux "windows")
      (.new ⟨true, false, [⟨"toggle_fullscreen", [.primary, .alt], "a"⟩]⟩)
        [.key ⟨.keyPress .controlLeft, 29⟩ false, .key ⟨.keyPress .alt, 56⟩ false,
          .key ⟨.keyPress .keyA, 30⟩ false,
          .key ⟨.keyPress .keyA, 30⟩ false, .key ⟨.keyRelease .keyA, 30⟩ false,
            .key ⟨.keyPress .keyB, 48⟩ false]).any
      fun s => decide (s.actions = [(.keyA, "toggle_fullscreen")] ∧
        s.sent.map (fun e => (e.key, e.down)) =
          [(.controlLeft, true), (.alt, true), (.alt, false), (.controlLeft, false),
          (.controlLeft, true), (.alt, true), (.keyB, true)])) = true := by decide +kernel
  obtain ⟨s, hs, hp⟩ := (Option.any_eq_true _ _).mp hrun
  exact ⟨s, hs, shortcuts_in_step hs, of_decide_eq_true hp⟩

end State

end Shortcuts
end BgDesk
