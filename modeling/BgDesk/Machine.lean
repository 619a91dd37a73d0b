import Mathlib.Data.List.Basic

/-!
# Partial machines and their runs

The generic part of the development. A machine is a partial step function
`step : σ → α → Option σ`: the action carries every choice the environment
makes (which task runs, what a read returns, what the peer sends), and `none`
says the action is not enabled in that state. Runs are then plain lists of
actions, so a concrete run can be evaluated and a claim about every
interleaving is a claim about every list.

* `exec` — the state a list of actions leads to, if all of them are enabled;
* `exec_invariant` — what one step preserves, a whole run preserves;
* `exec_invariant_history` — the same for what is said of a state and of the
  actions that led to it;
* `exec_reaches` — where some action always brings a measure down, a run of such
  actions gets there;
* `Along` — every step of a run meets a condition on its action and on the
  state it starts from; `exec_invariant_along` is the invariant rule under such
  a condition, and `along_of_invariant` passes from one condition to another;
* `Throughout` — every state of a run meets a condition;
* `observe` — the events of a run that concern one party, each with what the
  party is afterwards; `observe_eq_replay` is the rule for two runs that look the
  same to it;
* `Each` — every entry of a record meets a condition on the entries before it.
-/

namespace BgDesk

universe u v

variable {σ : Type u} {α : Type v}

/-- Run a list of actions. `none` as soon as one of them is not enabled. -/
def exec (step : σ → α → Option σ) : σ → List α → Option σ
  | s, [] => some s
  | s, a :: as =>
    match step s a with
    | none => none
    | some s' => exec step s' as

@[simp] theorem exec_nil (step : σ → α → Option σ) (s : σ) : exec step s [] = some s := rfl

variable {step : σ → α → Option σ} {s s' : σ} {as bs : List α} {I P : σ → Prop} {C D : σ → α → Prop}

/-- Inversion of a run at its first step. -/
theorem exec_cons {s'' : σ} {a : α} :
    exec step s (a :: as) = some s'' ↔ ∃ s', step s a = some s' ∧ exec step s' as = some s'' := by
  rw [exec]
  cases h : step s a <;> simp

/-- A run of `as ++ bs` is a run of `as` followed by a run of `bs`. -/
theorem exec_append : ∀ {s s'' : σ}, exec step s (as ++ bs) = some s'' ↔
      ∃ s', exec step s as = some s' ∧ exec step s' bs = some s'' := by
  induction as with
  | nil =>
    intro s s''
    simp
  | cons a as ih =>
    intro s s''
    rw [List.cons_append, exec_cons]
    constructor
    · rintro ⟨s₁, h₁, h₂⟩
      obtain ⟨s', h₃, h₄⟩ := ih.mp h₂
      exact ⟨s', exec_cons.mpr ⟨s₁, h₁, h₃⟩, h₄⟩
    · rintro ⟨s', h₁, h₂⟩
      obtain ⟨s₁, h₃, h₄⟩ := exec_cons.mp h₁
      exact ⟨s₁, h₃, ih.mpr ⟨s', h₄, h₂⟩⟩

/-- **Invariant rule**: what every step preserves, every run preserves. -/
theorem exec_invariant (hstep : ∀ s a s', I s → step s a = some s' → I s') :
    ∀ {as : List α} {s s' : σ}, I s → exec step s as = some s' → I s' := by
  intro as
  induction as with
  | nil =>
    intro s s' hI h
    obtain rfl := Option.some.inj h
    exact hI
  | cons a as ih =>
    intro s s' hI h
    obtain ⟨s₁, h₁, h₂⟩ := exec_cons.mp h
    exact ih (hstep _ _ _ hI h₁) h₂

/-- **Invariant rule with a history**: what every step preserves of the state and of the
actions before it, every run preserves. -/
theorem exec_invariant_history {I : List α → σ → Prop}
    (hstep : ∀ hist s a s', I hist s → step s a = some s' → I (hist ++ [a]) s') :
    ∀ {as hist : List α} {s s' : σ}, I hist s → exec step s as = some s' → I (hist ++ as) s' := by
  intro as
  induction as with
  | nil =>
    intro hist s s' hI h
    obtain rfl := Option.some.inj h
    rwa [List.append_nil]
  | cons a as ih =>
    intro hist s s' hI h
    obtain ⟨s₁, h₁, h₂⟩ := exec_cons.mp h
    rw [List.append_cons]
    exact ih (hstep _ _ _ _ hI h₁) h₂

/-- **Progress rule**: if every state that meets `P` and not yet `Q` has an action of `own` that
keeps `P` and brings `measure` down, a run of such actions leads from `P` to `Q`. -/
theorem exec_reaches {Q : σ → Prop} {own : α → Prop} {measure : σ → ℕ}
    (hstep : ∀ s, P s → Q s ∨ ∃ a s', own a ∧ step s a = some s' ∧ P s' ∧ measure s' < measure s) :
    ∀ {s : σ}, P s → ∃ as s', (∀ a ∈ as, own a) ∧ exec step s as = some s' ∧ P s' ∧ Q s' := by
  intro s
  induction hn : measure s using Nat.strongRecOn generalizing s with
  | _ n ih =>
    intro hP
    obtain hQ | ⟨a, s₁, ha, h₁, hP₁, hlt⟩ := hstep s hP
    · exact ⟨[], s, nofun, rfl, hP, hQ⟩
    · obtain ⟨as, s', has, h', hP', hQ'⟩ := ih (measure s₁) (by omega) rfl hP₁
      refine ⟨a :: as, s', ?_, exec_cons.mpr ⟨s₁, h₁, h'⟩, hP', hQ'⟩
      intro b hb
      rcases List.mem_cons.mp hb with rfl | hb
      · exact ha
      · exact has b hb

/-- Every step of the run of `as` from `s` meets `C` in the state it starts from. -/
def Along (step : σ → α → Option σ) (C : σ → α → Prop) : σ → List α → Prop
  | _, [] => True
  | s, a :: as =>
    C s a ∧ match step s a with
      | none => True
      | some s' => Along step C s' as

instance Along.decidable (step : σ → α → Option σ) (C : σ → α → Prop)
    [∀ s a, Decidable (C s a)] : ∀ (s : σ) (as : List α), Decidable (Along step C s as)
  | _, [] => isTrue trivial
  | s, a :: as =>
    match h : step s a with
    | none => decidable_of_iff (C s a) (by rw [Along, h]; simp)
    | some s' =>
      have : Decidable (Along step C s' as) := Along.decidable step C s' as
      decidable_of_iff (C s a ∧ Along step C s' as) (by rw [Along, h])

/-- A condition that the actions meet in every state. -/
theorem along_of_forall (h : ∀ a ∈ as, ∀ s, C s a) : ∀ s, Along step C s as := by
  induction as with
  | nil => exact fun _ => trivial
  | cons a as ih =>
    intro s
    obtain ⟨ha, has⟩ := List.forall_mem_cons.mp h
    refine ⟨ha s, ?_⟩
    split
    · trivial
    · exact ih has _

/-- A condition that follows from the one a run meets. -/
theorem along_imp (h : ∀ a ∈ as, ∀ s, C s a → D s a) :
    ∀ {s : σ}, Along step C s as → Along step D s as := by
  induction as with
  | nil => exact fun _ => trivial
  | cons a as ih =>
    intro s hC
    obtain ⟨ha, has⟩ := List.forall_mem_cons.mp h
    refine ⟨ha s hC.1, ?_⟩
    have hrest := hC.2
    cases hs : step s a with
    | none => trivial
    | some s' =>
      rw [hs] at hrest
      exact ih has hrest

/-- Two conditions that a run meets, it meets together. -/
theorem along_and : ∀ {s : σ}, Along step C s as → Along step D s as →
      Along step (fun s a => C s a ∧ D s a) s as := by
  induction as with
  | nil => exact fun _ _ => trivial
  | cons a as ih =>
    intro s hC hD
    refine ⟨⟨hC.1, hD.1⟩, ?_⟩
    have hC' := hC.2
    have hD' := hD.2
    cases hs : step s a with
    | none => trivial
    | some s' =>
      rw [hs] at hC' hD'
      exact ih hC' hD'

/-- A condition that follows, where an invariant holds, from the one a run meets. -/
theorem along_of_invariant (hstep : ∀ s a s', I s → C s a → step s a = some s' → I s')
    (h : ∀ s a, I s → C s a → D s a) :
    ∀ {as : List α} {s : σ}, I s → Along step C s as → Along step D s as := by
  intro as
  induction as with
  | nil => exact fun _ _ => trivial
  | cons a as ih =>
    intro s hI hC
    refine ⟨h s a hI hC.1, ?_⟩
    have hrest := hC.2
    cases hs : step s a with
    | none => trivial
    | some s' =>
      rw [hs] at hrest
      exact ih (hstep s a s' hI hC.1 hs) hrest

/-- A run of `as ++ bs` meets `C` if the run of `as` does and that of `bs` from where it ends. -/
theorem along_append (has : Along step C s as) (hexec : exec step s as = some s')
    (hbs : Along step C s' bs) : Along step C s (as ++ bs) := by
  induction as generalizing s with
  | nil =>
    obtain rfl := Option.some.inj hexec
    exact hbs
  | cons a as ih =>
    obtain ⟨s₁, h₁, h₂⟩ := exec_cons.mp hexec
    rw [Along, h₁] at has
    rw [List.cons_append, Along, h₁]
    exact ⟨has.1, ih has.2 h₂⟩

/-- What a run meets, its first part meets. -/
theorem along_take : ∀ {s : σ}, Along step C s (as ++ bs) → Along step C s as := by
  induction as with
  | nil => exact fun _ => trivial
  | cons a as ih =>
    intro s h
    refine ⟨h.1, ?_⟩
    have hrest := h.2
    cases hs : step s a with
    | none => trivial
    | some s' =>
      rw [hs] at hrest
      exact ih hrest

/-- What a run meets, its last part meets. -/
theorem along_drop (h : Along step C s (as ++ bs)) (hexec : exec step s as = some s') :
    Along step C s' bs := by
  induction as generalizing s with
  | nil =>
    obtain rfl := Option.some.inj hexec
    exact h
  | cons a as ih =>
    obtain ⟨s₁, h₁, h₂⟩ := exec_cons.mp hexec
    rw [List.cons_append, Along, h₁] at h
    exact ih h.2 h₂

/-- **Invariant rule under a condition**: if every step that meets `C` preserves
`I`, a run whose steps all meet `C` preserves `I`. -/
theorem exec_invariant_along (hstep : ∀ s a s', I s → C s a → step s a = some s' → I s') :
    ∀ {as : List α} {s s' : σ}, I s → Along step C s as → exec step s as = some s' → I s' := by
  intro as
  induction as with
  | nil =>
    intro s s' hI _ h
    obtain rfl := Option.some.inj h
    exact hI
  | cons a as ih =>
    intro s s' hI hC h
    obtain ⟨s₁, h₁, h₂⟩ := exec_cons.mp h
    rw [Along, h₁] at hC
    exact ih (hstep _ _ _ hI hC.1 h₁) hC.2 h₂

/-! ## What holds all the time -/

/-- Every state of the run of `as` from `s` meets `P`. -/
def Throughout (step : σ → α → Option σ) (P : σ → Prop) (s : σ) (as : List α) : Prop :=
  ∀ done s', done <+: as → exec step s done = some s' → P s'

theorem throughout_cons {a : α} (h : step s a = some s') :
    Throughout step P s (a :: as) ↔ P s ∧ Throughout step P s' as := by
  constructor
  · intro hP
    refine ⟨hP [] s (List.nil_prefix) rfl, fun done s'' hdone hexec => ?_⟩
    exact hP (a :: done) s'' ((List.prefix_cons_inj a).mpr hdone) (exec_cons.mpr ⟨s', h, hexec⟩)
  · rintro ⟨hs, hP⟩ done s'' hdone hexec
    cases done with
    | nil =>
      obtain rfl := Option.some.inj hexec
      exact hs
    | cons b done =>
      obtain ⟨rfl, hrest⟩ := List.cons_prefix_cons.mp hdone
      obtain ⟨s₁, h₁, hexec⟩ := exec_cons.mp hexec
      obtain rfl := Option.some.inj (h.symm.trans h₁)
      exact hP done s'' hrest hexec

/-- An invariant holds all the time. -/
theorem throughout_of_invariant (hP : ∀ s, I s → P s)
    (hstep : ∀ s a s', I s → step s a = some s' → I s') (hI : I s) : Throughout step P s as :=
  fun _ s' _ hexec => hP s' (exec_invariant hstep hI hexec)

/-- An invariant of the steps that meet a condition holds all the time in a run that meets it. -/
theorem throughout_of_along (hP : ∀ s, I s → P s)
    (hstep : ∀ s a s', I s → C s a → step s a = some s' → I s') (hI : I s)
    (hC : Along step C s as) : Throughout step P s as := by
  rintro done s' ⟨rest, rfl⟩ hexec
  exact hP s' (exec_invariant_along hstep hI (along_take hC) hexec)

/-! ## What one party sees of a run -/

section Observation

variable {ε β γ : Type*}

/-- The events of a run as one party sees them, each with what the party is after it. -/
def observe (step : σ → α → Option σ) (event : σ → α → Option ε) (view : σ → β) :
    σ → List α → List (ε × β)
  | _, [] => []
  | s, a :: as =>
    match step s a with
    | none => []
    | some s' =>
      match event s a with
      | none => observe step event view s' as
      | some e => (e, view s') :: observe step event view s' as

/-- The same events, replayed by the party alone. -/
def replay (next : β → ε → β) : β → List ε → List (ε × β)
  | _, [] => []
  | b, e :: es => (e, next b e) :: replay next (next b e) es

/-- **Independence rule**: if every step moves the view of a party by its own event, or leaves it
alone where there is none, what the party sees of a run is a function of its own events. -/
theorem observe_eq_replay {step : σ → α → Option σ} {event : σ → α → Option ε} {view : σ → β}
    {I : σ → Prop}
    {C : σ → α → Prop} {next : β → ε → β} (hstep : ∀ s a s', I s → C s a → step s a = some s' →
      I s' ∧ view s' = (event s a).elim (view s) (next (view s))) :
    ∀ {as : List α} {s : σ}, I s → Along step C s as →
      observe step event view s as = replay next (view s)
        ((observe step event view s as).map Prod.fst) := by
  intro as
  induction as with
  | nil => exact fun _ _ => rfl
  | cons a as ih =>
    intro s hI hC
    rw [observe]
    rw [Along] at hC
    cases h : step s a with
    | none => rfl
    | some s' =>
      rw [h] at hC
      obtain ⟨hI', hview⟩ := hstep s a s' hI hC.1 h
      have hrest := ih hI' hC.2
      cases he : event s a with
      | none =>
        rw [he, Option.elim_none] at hview
        rw [hview] at hrest
        exact hrest
      | some e =>
        rw [he, Option.elim_some] at hview
        rw [hview] at hrest
        simpa [replay, hview] using hrest

/-- A coarser view sees the same events. -/
theorem observe_map (step : σ → α → Option σ) (event : σ → α → Option ε) (view : σ → β)
    (f : β → γ) : ∀ (as : List α) (s : σ), observe step event (fun s => f (view s)) s as =
      (observe step event view s as).map fun p => (p.1, f p.2) := by
  intro as
  induction as with
  | nil => exact fun _ => rfl
  | cons a as ih =>
    intro s
    rw [observe, observe]
    cases step s a with
    | none => rfl
    | some s' =>
      cases event s a with
      | none => exact ih s'
      | some e => simp [ih s']

end Observation

/-! ## Records of what happened -/

/-- Every entry of a record meets `P` with the entries before it. -/
def Each (P : List α → α → Prop) (l : List α) : Prop :=
  ∀ before x after, l = before ++ x :: after → P before x

theorem each_nil (P : List α → α → Prop) : Each P [] := by
  intro before x after h
  cases before <;> cases h

theorem each_singleton {P : List α → α → Prop} {x : α} (h : P [] x) : Each P [x] := by
  intro before y after heq
  obtain ⟨rfl, hx⟩ | ⟨before, rfl, hx⟩ := List.cons_eq_append_iff.mp heq
  · obtain ⟨rfl, -⟩ := List.cons.inj hx
    exact h
  · cases before <;> cases hx

/-- A record goes on with entries that meet the condition after it. -/
theorem Each.append {P : List α → α → Prop} {l m : List α} (hl : Each P l)
    (hm : Each (fun before => P (l ++ before)) m) : Each P (l ++ m) := by
  intro before x after h
  obtain ⟨before', rfl, h'⟩ | ⟨l', rfl, h'⟩ := List.append_eq_append_iff.mp h
  · exact hm before' x after h'
  · cases l' with
    | nil =>
      simpa using hm [] x after h'.symm
    | cons y l' =>
      obtain ⟨rfl, -⟩ := List.cons.inj h'
      exact hl before x l' rfl

end BgDesk
