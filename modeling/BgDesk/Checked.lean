import Mathlib.Algebra.GroupWithZero.Nat
import Mathlib.Data.List.Basic
import BgDesk.Machine

/-!
# Computations that may fail, and arithmetic of a fixed width

The generic part for programs on machine integers. A number of `w` bits is a natural number, and
the operations on it return nothing where the machine would overflow or divide by zero.

* `Returns` — a computation returns something, and what it returns meets a condition; the rules
  `returns_pure`, `Returns.bind` and `Returns.mono` follow a program, and `returns_mapM`,
  `returns_foldlM` and `returns_foldlM_range` a loop;
* `exec_returns` — the invariant rule for machines that never get stuck;
* `checkedAdd`, `checkedMul`, `checkedSub`, `checkedDiv`, `checkedSum`, each with the condition
  under which it returns.
-/

namespace BgDesk

universe u

variable {α β : Type u}

/-- The computation returns, and what it returns meets `P`. -/
def Returns (x : Option α) (P : α → Prop) : Prop := ∃ a, x = some a ∧ P a

theorem returns_pure {a : α} {P : α → Prop} (h : P a) : Returns (some a) P := ⟨a, rfl, h⟩

theorem Returns.mono {x : Option α} {P Q : α → Prop} (hx : Returns x P) (h : ∀ a, P a → Q a) :
    Returns x Q := by
  obtain ⟨a, ha, hP⟩ := hx
  exact ⟨a, ha, h a hP⟩

variable {f : α → Option β} {a b w : ℕ}

/-- **Sequencing**: what the first computation promises is what the second may rely on. -/
theorem Returns.bind {x : Option α} {P : α → Prop} {Q : β → Prop} (hx : Returns x P)
    (hf : ∀ a, P a → Returns (f a) Q) : Returns (x >>= f) Q := by
  obtain ⟨a, rfl, hP⟩ := hx
  exact hf a hP

/-- A computation on every element of a list. -/
theorem returns_mapM {P : β → Prop} :
    ∀ {l : List α}, (∀ a ∈ l, Returns (f a) P) → Returns (l.mapM f) fun bs => ∀ b ∈ bs, P b := by
  intro l
  induction l with
  | nil => exact fun _ => ⟨[], rfl, by simp⟩
  | cons a l ih =>
    intro h
    obtain ⟨ha, hl⟩ := List.forall_mem_cons.mp h
    obtain ⟨b, hb, hP⟩ := ha
    obtain ⟨bs, hbs, hPs⟩ := ih hl
    exact ⟨b :: bs, by simp [List.mapM_cons, hb, hbs], List.forall_mem_cons.mpr ⟨hP, hPs⟩⟩

theorem returns_mapM_length :
    ∀ {l : List α}, (∀ a ∈ l, Returns (f a) fun _ => True) → Returns (l.mapM f) fun bs =>
      bs.length = l.length := by
  intro l
  induction l with
  | nil => exact fun _ => returns_pure rfl
  | cons a l ih =>
    intro h
    obtain ⟨ha, hl⟩ := List.forall_mem_cons.mp h
    rw [List.mapM_cons]
    refine ha.bind fun b _ => (ih hl).bind fun bs hbs => returns_pure ?_
    rw [List.length_cons, List.length_cons, hbs]

/-- A computation on every element of a list that is known for each of them. -/
theorem mapM_eq_some_map {g : α → β} :
    ∀ {l : List α}, (∀ a ∈ l, f a = some (g a)) → l.mapM f = some (l.map g) := by
  intro l
  induction l with
  | nil => exact fun _ => rfl
  | cons a l ih =>
    intro h
    obtain ⟨ha, hl⟩ := List.forall_mem_cons.mp h
    simp [List.mapM_cons, ha, ih hl]

/-- Where the results of a list come from, and where its elements go. -/
theorem mem_of_mapM_eq_some : ∀ {l : List α} {l' : List β}, l.mapM f = some l' →
      (∀ b ∈ l', ∃ a ∈ l, f a = some b) ∧ ∀ a ∈ l, ∃ b ∈ l', f a = some b := by
  intro l
  induction l with
  | nil =>
    intro l' h
    obtain rfl : [] = l' := Option.some.inj h
    exact ⟨nofun, nofun⟩
  | cons a l ih =>
    intro l' h
    rw [List.mapM_cons] at h
    obtain ⟨b, hb, h⟩ := Option.bind_eq_some_iff.mp h
    obtain ⟨bs, hbs, h⟩ := Option.bind_eq_some_iff.mp h
    obtain rfl := Option.some.inj h
    obtain ⟨hfrom, hto⟩ := ih hbs
    refine ⟨?_, ?_⟩
    · intro c hc
      rcases List.mem_cons.mp hc with rfl | hc
      · exact ⟨a, List.mem_cons_self, hb⟩
      · obtain ⟨x, hx, hxc⟩ := hfrom c hc
        exact ⟨x, List.mem_cons_of_mem _ hx, hxc⟩
    · intro x hx
      rcases List.mem_cons.mp hx with rfl | hx
      · exact ⟨b, List.mem_cons_self, hb⟩
      · obtain ⟨c, hc, hxc⟩ := hto x hx
        exact ⟨c, List.mem_cons_of_mem _ hc, hxc⟩

/-- **Loops**: what every round keeps, the loop keeps. -/
theorem returns_foldlM {f : β → α → Option β} {I : β → Prop} :
    ∀ {l : List α} {b : β}, I b → (∀ b a, I b → a ∈ l → Returns (f b a) I) →
      Returns (l.foldlM f b) I := by
  intro l
  induction l with
  | nil => exact fun hb _ => returns_pure hb
  | cons a l ih =>
    intro b hb h
    rw [List.foldlM_cons]
    refine (h b a hb List.mem_cons_self).bind ?_
    intro b' hb'
    exact ih hb' fun b a hb ha => h b a hb (List.mem_cons_of_mem _ ha)

/-- A loop that counts, with an invariant that knows the count. -/
theorem returns_foldlM_range {f : α → ℕ → Option α} {I : ℕ → α → Prop} {a : α} :
    ∀ {n : ℕ}, I 0 a → (∀ i a, i < n → I i a → Returns (f a i) (I (i + 1))) →
      Returns ((List.range n).foldlM f a) (I n) := by
  intro n
  induction n with
  | zero => exact fun ha _ => returns_pure ha
  | succ n ih =>
    intro ha h
    rw [List.range_succ, List.foldlM_append]
    refine (ih ha fun i a hi => h i a (by omega)).bind ?_
    intro a' ha'
    rw [List.foldlM_cons]
    exact (h n a' (by omega) ha').bind fun _ h => returns_pure h

/-- A machine whose actions all return as long as the invariant holds has a run for every list of
them. -/
theorem exec_returns {σ α : Type*} {step : σ → α → Option σ} {I : σ → Prop} {C : α → Prop}
    (hstep : ∀ s a, I s → C a → Returns (step s a) I) :
    ∀ {as : List α} {s : σ}, I s → (∀ a ∈ as, C a) → Returns (exec step s as) I := by
  intro as
  induction as with
  | nil => exact fun hI _ => returns_pure hI
  | cons a as ih =>
    intro s hI has
    obtain ⟨ha, has⟩ := List.forall_mem_cons.mp has
    obtain ⟨s₁, h₁, hI₁⟩ := hstep s a hI ha
    rw [exec, h₁]
    exact ih hI₁ has

/-- Addition in `w` bits. -/
def checkedAdd (w a b : ℕ) : Option ℕ := if a + b < 2 ^ w then some (a + b) else none

/-- Multiplication in `w` bits. -/
def checkedMul (w a b : ℕ) : Option ℕ := if a * b < 2 ^ w then some (a * b) else none

/-- Subtraction. -/
def checkedSub (a b : ℕ) : Option ℕ := if b ≤ a then some (a - b) else none

/-- Division. -/
def checkedDiv (a b : ℕ) : Option ℕ := if b = 0 then none else some (a / b)

/-- Inversion of an addition. -/
theorem checkedAdd_eq_some {c : ℕ} (h : checkedAdd w a b = some c) : c = a + b :=
  (Option.some.inj (Option.ite_none_right_eq_some.mp h).2).symm

theorem checkedDiv_eq_some {c : ℕ} (h : checkedDiv a b = some c) : c = a / b :=
  (Option.some.inj (Option.ite_none_left_eq_some.mp h).2).symm

/-- The sum of a list in `w` bits, from the left. -/
def checkedSum (w : ℕ) : ℕ → List ℕ → Option ℕ
  | acc, [] => some acc
  | acc, x :: xs => do
    let acc ← checkedAdd w acc x
    checkedSum w acc xs

theorem checkedAdd_returns (h : a + b < 2 ^ w) : Returns (checkedAdd w a b) (· = a + b) :=
  ⟨a + b, if_pos h, rfl⟩

theorem checkedSub_returns (h : b ≤ a) : Returns (checkedSub a b) (· = a - b) :=
  ⟨a - b, if_pos h, rfl⟩

theorem checkedDiv_returns (h : 0 < b) : Returns (checkedDiv a b) (· = a / b) :=
  ⟨a / b, if_neg (Nat.ne_of_gt h), rfl⟩

theorem checkedSum_returns : ∀ {l : List ℕ} {acc : ℕ}, acc + l.sum < 2 ^ w →
      Returns (checkedSum w acc l) (· = acc + l.sum) := by
  intro l
  induction l with
  | nil => exact fun {acc} _ => ⟨acc, rfl, by simp⟩
  | cons x xs ih =>
    intro acc h
    rw [List.sum_cons] at h ⊢
    refine (checkedAdd_returns (by omega)).bind ?_
    rintro _ rfl
    rw [← Nat.add_assoc]
    exact ih (by omega)

end BgDesk
