import Mathlib.Data.List.Basic

/-!
# Runs of a labelled step relation

A loop over a list that changes a state at every item, known only by what one
turn can do. What every turn keeps, the loop keeps.
-/

namespace Lib

variable {α σ : Type*}

/-- One step for each label, in order. -/
inductive Steps (R : α → σ → σ → Prop) : List α → σ → σ → Prop
  | nil (s : σ) : Steps R [] s s
  | cons {a : α} {as : List α} {s t u : σ} :
      R a s t → Steps R as t u → Steps R (a :: as) s u

namespace Steps

variable {R : α → σ → σ → Prop} {as bs : List α} {s t u : σ}

theorem eq_of_nil (h : Steps R [] s t) : s = t := by
  cases h
  rfl

theorem append (h₁ : Steps R as s t) (h₂ : Steps R bs t u) : Steps R (as ++ bs) s u := by
  induction h₁ with
  | nil => exact h₂
  | cons hr _ ih => exact .cons hr (ih h₂)

/-- What every step keeps, the run keeps. -/
theorem invariant {P : σ → Prop} (hstep : ∀ a ∈ as, ∀ s t, R a s t → P s → P t)
    (h : Steps R as s t) (hs : P s) : P t := by
  induction h with
  | nil => exact hs
  | cons hr _ ih =>
      refine ih (fun a ha => hstep a (List.mem_cons_of_mem _ ha)) ?_
      exact hstep _ List.mem_cons_self _ _ hr hs

end Steps

end Lib
