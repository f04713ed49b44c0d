import Mathlib.Data.Fintype.EquivFin
import Mathlib.Logic.Relation
import Mathlib.Order.WellFounded

/-!
# Orders of a dependency relation

Items are put into a list one by one, always the least of those that have all
their dependencies in the list. What is in the list depends, in the end, on
nothing, so no cycle is reachable from it. Where the list cannot grow, every
item outside depends on another one outside, and among finitely many items that
only goes on for ever on a cycle: so outside are exactly the items from which a
cycle is reachable.
-/

namespace Lib

open Relation

variable {α : Type*} {dep : α → α → Prop} {l : List α} {a : α}

/-- Following dependencies from here, a cycle can be reached. -/
def ReachesCycle (dep : α → α → Prop) (a : α) : Prop :=
  ∃ b, ReflTransGen dep a b ∧ TransGen dep b b

/-- All that is missing before this item is the item itself. -/
def ReadyAfter (dep : α → α → Prop) (l : List α) (a : α) : Prop := a ∉ l ∧ ∀ b, dep a b → b ∈ l

/-- The least item that is ready comes next. -/
inductive GreedyOrder [LE α] (dep : α → α → Prop) : List α → Prop
  | nil : GreedyOrder dep []
  | snoc {l : List α} {a : α} (h : GreedyOrder dep l) (hready : ReadyAfter dep l a)
      (hleast : ∀ b, ReadyAfter dep l b → a ≤ b) : GreedyOrder dep (l ++ [a])

namespace GreedyOrder

variable [LE α]

theorem nodup (h : GreedyOrder dep l) : l.Nodup := by
  induction h with
  | nil => exact List.nodup_nil
  | snoc _ hready _ ih =>
      rw [List.nodup_append]
      refine ⟨ih, List.nodup_singleton _, fun x hx y hy heq => ?_⟩
      rw [heq, List.mem_singleton.mp hy] at hx
      exact hready.1 hx

/-- Each item was the least that was ready when it came. -/
theorem split (h : GreedyOrder dep l) {l₁ l₂ : List α} (hl : l = l₁ ++ a :: l₂) :
    ReadyAfter dep l₁ a ∧ ∀ b, ReadyAfter dep l₁ b → a ≤ b := by
  induction h generalizing l₂ with
  | nil => simp at hl
  | @snoc l b _ hready hleast ih =>
      rcases List.eq_nil_or_concat l₂ with rfl | ⟨l₂, c, rfl⟩
      · obtain ⟨rfl, hlast⟩ := List.append_inj' hl rfl
        obtain rfl : b = a := by simpa using hlast
        exact ⟨hready, hleast⟩
      · have hshift : l ++ [b] = (l₁ ++ a :: l₂) ++ [c] := by simpa using hl
        obtain ⟨hl', -⟩ := List.append_inj' hshift rfl
        exact ih hl'

theorem acc (h : GreedyOrder dep l) (ha : a ∈ l) : Acc (fun x y => dep y x) a := by
  induction h generalizing a with
  | nil => cases ha
  | snoc _ hready _ ih =>
      rcases List.mem_append.mp ha with ha | ha
      · exact ih ha
      · rw [List.mem_singleton.mp ha]
        exact Acc.intro _ fun b hb => ih (hready.2 b hb)

end GreedyOrder

/-- What depends, in the end, on nothing reaches no cycle. -/
theorem not_reachesCycle_of_acc (h : Acc (fun x y => dep y x) a) : ¬ReachesCycle dep a := by
  induction h with
  | intro a _ ih =>
      rintro ⟨b, hab, hcycle⟩
      -- there is a first step, to the cycle or on it
      rcases hab.cases_head with rfl | ⟨c, hac, hcb⟩
      · obtain ⟨c, hac, hca⟩ := TransGen.head'_iff.mp hcycle
        exact ih c hac ⟨a, hca, hcycle⟩
      · exact ih c hac ⟨b, hcb, hcycle⟩

/-- Among finitely many items, those that reach no cycle depend, in the end, on
nothing. -/
theorem acc_of_not_reachesCycle [Finite α] (h : ¬ReachesCycle dep a) :
    Acc (fun x y => dep y x) a := by
  let free : Type _ := {a : α // ¬ReachesCycle dep a}
  let below : free → free → Prop := fun x y => TransGen dep y.1 x.1
  have htrans : IsTrans free below := ⟨fun x y z hxy hyz => hyz.trans hxy⟩
  have hirrefl : Std.Irrefl below := ⟨fun x hx => x.2 ⟨x.1, .refl, hx⟩⟩
  have hwf : WellFounded below := Finite.wellFounded_of_trans_of_irrefl below
  have hall : ∀ x : free, Acc (fun x y => dep y x) x.1 := by
    intro x
    induction x using hwf.induction with
    | _ x ih =>
        refine Acc.intro _ fun b hb => ?_
        have hfree : ¬ReachesCycle dep b := by
          rintro ⟨c, hbc, hcycle⟩
          exact x.2 ⟨c, .head hb hbc, hcycle⟩
        exact ih ⟨b, hfree⟩ (.single hb)
  exact hall ⟨a, h⟩

/-- Where nothing is ready, what is outside of the list are the items from which
a cycle is reachable. -/
theorem GreedyOrder.not_mem_iff [LE α] [Finite α] (h : GreedyOrder dep l)
    (hstalled : ∀ b, ¬ReadyAfter dep l b) (a : α) : a ∉ l ↔ ReachesCycle dep a := by
  constructor
  · intro ha
    by_contra hfree
    have hacc := acc_of_not_reachesCycle hfree
    clear hfree
    induction hacc with
    | intro a _ ih =>
        refine hstalled a ⟨ha, fun b hb => ?_⟩
        by_contra hbl
        exact ih b hb hbl
  · intro hcycle ha
    exact not_reachesCycle_of_acc (h.acc ha) hcycle

end Lib
