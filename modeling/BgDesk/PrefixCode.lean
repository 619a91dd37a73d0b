import Mathlib.Data.List.Basic

/-!
# Codes that say where they end

A list of things written one after the other, each with a code that cannot be taken for another one
however it goes on. What has been read off the front of such a list is the front of the list.

* `SelfDelimiting` — such a code;
* `SelfDelimiting.split` — who has read the codes of `as` and some more has read the beginning of
  the list.
-/

namespace BgDesk

variable {α β : Type*}

/-- No code begins like that of something else. -/
structure SelfDelimiting (P : α → Prop) (code : α → List β) : Prop where
  eq : ∀ a b x y, P a → P b → code a ++ x = code b ++ y → a = b
  ne_nil : ∀ a, code a ≠ []

namespace SelfDelimiting

variable {P : α → Prop} {code : α → List β}

/-- **What is read off the front of a list is its front**, and what is read beyond belongs to the
rest. -/
theorem split (h : SelfDelimiting P code) {as : List α} (has : ∀ a ∈ as, P a) :
    ∀ {bs : List α} {more : List β}, (∀ b ∈ bs, P b) → as.flatMap code ++ more <+: bs.flatMap code →
      ∃ rest, bs = as ++ rest ∧ more <+: rest.flatMap code := by
  induction as with
  | nil =>
    intro bs more _ hpre
    exact ⟨bs, rfl, hpre⟩
  | cons a as ih =>
    intro bs more hbs hpre
    cases bs with
    | nil =>
      have hnil := List.prefix_nil.mp hpre
      simp only [List.flatMap_cons, List.append_eq_nil_iff] at hnil
      exact absurd hnil.1.1 (h.ne_nil a)
    | cons b bs =>
      obtain ⟨y, hy⟩ := hpre
      rw [List.flatMap_cons, List.flatMap_cons, List.append_assoc, List.append_assoc] at hy
      obtain rfl := h.eq a b _ _ (has a List.mem_cons_self) (hbs b List.mem_cons_self) hy
      have htail : as.flatMap code ++ more <+: bs.flatMap code :=
        ⟨y, by rw [List.append_assoc]; exact List.append_cancel_left hy⟩
      obtain ⟨rest, rfl, hmore⟩ := ih (fun c hc => has c (List.mem_cons_of_mem _ hc))
        (fun c hc => hbs c (List.mem_cons_of_mem _ hc)) htail
      exact ⟨rest, rfl, hmore⟩

end SelfDelimiting

end BgDesk
