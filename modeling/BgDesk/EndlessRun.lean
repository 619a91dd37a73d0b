import Mathlib.Data.Nat.Init
import Mathlib.Order.Nat
import BgDesk.Machine

/-!
# Endless runs

What a run of a machine has to come to. `Machine` is about lists of actions, and says what never
happens; that something does happen can only be said of a run that goes on without an end, under a
condition that keeps it from passing over what it could do.

* `EndlessRun` — a run with an action at every time;
* `EndlessRun.exec_take` — its beginnings are the runs of `Machine`, so that an invariant is one
  along it;
* `WeaklyFair` — the actions of one party are not passed over for ever while one of them can be
  taken;
* `WeaklyFair.eventually` — the rule: the party's actions bring a measure down, and where it takes
  none of them one of them can be taken from some time on.
-/

namespace BgDesk

universe u v

variable {σ : Type u} {α : Type v}

/-- A run without an end: the action at time `n` leads from the state at time `n` to the next one.
-/
structure EndlessRun (step : σ → α → Option σ) : Type (max u v) where
  state : ℕ → σ
  action : ℕ → α
  next : ∀ n, step (state n) (action n) = some (state (n + 1))

namespace EndlessRun

variable {step : σ → α → Option σ} (run : EndlessRun step)

/-- The beginning of an endless run is a run. -/
theorem exec_take (n : ℕ) :
    exec step (run.state 0) ((List.range n).map run.action) = some (run.state n) := by
  induction n with
  | zero => rfl
  | succ n ih =>
    rw [List.range_succ, List.map_append]
    exact exec_append.mpr ⟨run.state n, ih, exec_cons.mpr ⟨run.state (n + 1), run.next n, rfl⟩⟩

/-- What every step keeps is so at every later time. -/
theorem of_le {P : σ → Prop} {n m : ℕ}
    (hstep : ∀ k, n ≤ k → P (run.state k) → P (run.state (k + 1))) (hnm : n ≤ m)
    (hn : P (run.state n)) : P (run.state m) := by
  induction m, hnm using Nat.le_induction with
  | base => exact hn
  | succ k hk ih => exact hstep k hk ih

/-- The actions of `own` are not passed over: where one of them is enabled from some time on, one of
them is taken. -/
def WeaklyFair (own : α → Prop) : Prop :=
  ∀ n, (∀ m, n ≤ m → ∃ a, own a ∧ (step (run.state m) a).isSome) → ∃ m, n ≤ m ∧ own (run.action m)

/-- A measure that no step brings up and that every action of `own` brings down: there is a last
action of `own`. -/
theorem quiet {own : α → Prop} {measure : σ → ℕ}
    (hown : ∀ n, own (run.action n) → measure (run.state (n + 1)) < measure (run.state n))
    (hother : ∀ n, ¬ own (run.action n) → measure (run.state (n + 1)) ≤ measure (run.state n)) :
    ∃ n, ∀ m, n ≤ m → ¬ own (run.action m) := by
  have hle : ∀ n, measure (run.state (n + 1)) ≤ measure (run.state n) := by
    intro n
    by_cases h : own (run.action n)
    · exact (hown n h).le
    · exact hother n h
  have hlast : ∀ k n, measure (run.state n) = k → ∃ n', ∀ m, n' ≤ m → ¬ own (run.action m) := by
    intro k
    induction k using Nat.strongRecOn with
    | _ k ih =>
      intro n hk
      by_cases h : ∃ m, n ≤ m ∧ own (run.action m)
      · obtain ⟨m, hnm, hm⟩ := h
        have hdown : measure (run.state m) ≤ k := by
          refine run.of_le (P := fun s => measure s ≤ k) ?_ hnm hk.le
          intro j _ hj
          exact (hle j).trans hj
        exact ih _ (lt_of_lt_of_le (hown m hm) hdown) (m + 1) rfl
      · refine ⟨n, fun m hnm hm => h ⟨m, hnm, hm⟩⟩
  exact hlast _ 0 rfl

variable {run}

/-- **Progress under weak fairness**: the actions of `own` bring a measure down until `Q`, the other
ones do not bring it up, and where `own` takes no more actions before `Q` one of them is enabled
from some time on. Then `Q` comes. -/
theorem WeaklyFair.eventually {own : α → Prop} (hfair : run.WeaklyFair own) (Q : σ → Prop)
    (measure : σ → ℕ) (hown : ∀ n, own (run.action n) → Q (run.state (n + 1)) ∨
    measure (run.state (n + 1)) < measure (run.state n))
    (hother : ∀ n, ¬ own (run.action n) → measure (run.state (n + 1)) ≤ measure (run.state n))
    (hready : ∀ n, (∀ m, n ≤ m → ¬ Q (run.state m) ∧ ¬ own (run.action m)) →
      ∃ n', n ≤ n' ∧ ∀ m, n' ≤ m → ∃ a, own a ∧ (step (run.state m) a).isSome) :
    ∃ n, Q (run.state n) := by
  by_contra hnever
  have hQ : ∀ n, ¬ Q (run.state n) := fun n hn => hnever ⟨n, hn⟩
  obtain ⟨n, hquiet⟩ := run.quiet (fun n hn => (hown n hn).resolve_left (hQ _)) hother
  obtain ⟨n', hle, henabled⟩ := hready n fun m hm => ⟨hQ m, hquiet m hm⟩
  obtain ⟨m, hm, hact⟩ := hfair n' henabled
  exact hquiet m (hle.trans hm) hact

end EndlessRun

end BgDesk
