import Mathlib.Data.List.Lex

/-!
# Lists told apart at a position

Two lists are in the order of their first difference when both have an item
there and the left one has the smaller. Unlike the lexicographic order this one
does not count a proper prefix as smaller, so whatever is put behind the two
lists leaves them in the same order.
-/

namespace Lib

variable {α : Type*} [LT α]

inductive FirstLess : List α → List α → Prop
  | head {x y : α} {s t : List α} : x < y → FirstLess (x :: s) (y :: t)
  | cons {x : α} {s t : List α} : FirstLess s t → FirstLess (x :: s) (x :: t)

namespace FirstLess

variable {s t : List α}

theorem lt (h : FirstLess s t) : s < t := by
  induction h with
  | head hxy => exact List.Lex.rel hxy
  | cons _ ih => exact List.Lex.cons ih

/-- What stands behind the difference does not matter. -/
theorem append (h : FirstLess s t) (u v : List α) : FirstLess (s ++ u) (t ++ v) := by
  induction h with
  | head hxy => exact .head hxy
  | cons _ ih => exact .cons ih

theorem append_left (h : FirstLess s t) (u : List α) : FirstLess (u ++ s) (u ++ t) := by
  induction u with
  | nil => exact h
  | cons x u ih => exact .cons ih

theorem ne_nil (h : FirstLess s t) : s ≠ [] ∧ t ≠ [] := by
  cases h <;> exact ⟨List.cons_ne_nil _ _, List.cons_ne_nil _ _⟩

/-- Cut at one length, the difference is still there or was cut off. -/
theorem take (h : FirstLess s t) (n : ℕ) :
    FirstLess (s.take n) (t.take n) ∨ s.take n = t.take n := by
  induction h generalizing n with
  | head hxy =>
      cases n with
      | zero => exact .inr rfl
      | succ n => exact .inl (.head hxy)
  | cons _ ih =>
      cases n with
      | zero => exact .inr rfl
      | succ n =>
          rcases ih n with h | h
          · exact .inl (.cons h)
          · exact .inr (by rw [List.take_succ_cons, List.take_succ_cons, h])

end FirstLess

end Lib
