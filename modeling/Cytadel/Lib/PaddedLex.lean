import Mathlib.Order.PiLex
import Mathlib.Order.Compare
import Mathlib.Order.Lattice.Nat

/-!
# Lists compared with padding

Two lists of pieces are compared piece by piece, the shorter one continued
with a padding piece for ever. The order is the lexicographic one on
sequences; what is needed of it is how it reads off a first piece.
-/

namespace Lib

variable {κ : Type*}

/-- The sequence a list stands for: its pieces, then the padding. -/
def padLex (pad : κ) (l : List κ) : Lex (ℕ → κ) := toLex fun i => l.getD i pad

variable {pad x y : κ} {xs ys : List κ} {o : Ordering}

/-- An exhausted list reads as one more padding piece. -/
theorem padLex_nil : padLex pad ([] : List κ) = padLex pad [pad] := by
  refine congrArg toLex (funext fun i => ?_)
  cases i <;> simp

theorem padLex_cons_congr (h : padLex pad xs = padLex pad ys) :
    padLex pad (x :: xs) = padLex pad (x :: ys) := by
  refine congrArg toLex (funext fun i => ?_)
  cases i with
  | zero => rfl
  | succ i => exact congrFun h i

variable [LinearOrder κ]

theorem padLex_cons_lt (h : x < y) : padLex pad (x :: xs) < padLex pad (y :: ys) :=
  ⟨0, fun j hj => absurd hj (Nat.not_lt_zero j), h⟩

theorem padLex_cons_lt_cons (h : padLex pad xs < padLex pad ys) :
    padLex pad (x :: xs) < padLex pad (x :: ys) := by
  obtain ⟨i, heq, hlt⟩ := h
  refine ⟨i + 1, fun j hj => ?_, hlt⟩
  cases j with
  | zero => rfl
  | succ j => exact heq j (Nat.lt_of_succ_lt_succ hj)

/-- A shared first piece decides nothing. -/
theorem padLex_compares_cons (h : o.Compares (padLex pad xs) (padLex pad ys)) :
    o.Compares (padLex pad (x :: xs)) (padLex pad (x :: ys)) := by
  cases o with
  | lt => exact padLex_cons_lt_cons h
  | eq => exact padLex_cons_congr h
  | gt => exact padLex_cons_lt_cons h

/-- First pieces that differ decide. -/
theorem padLex_compares_of_ne (hne : x ≠ y) (h : o.Compares x y) :
    o.Compares (padLex pad (x :: xs)) (padLex pad (y :: ys)) := by
  cases o with
  | lt => exact padLex_cons_lt h
  | eq => exact absurd h hne
  | gt => exact padLex_cons_lt h

/-- A first piece other than the padding decides against an exhausted list. -/
theorem padLex_compares_nil_of_ne (hne : x ≠ pad) (h : o.Compares x pad) :
    o.Compares (padLex pad (x :: xs)) (padLex pad []) := by
  rw [padLex_nil]
  exact padLex_compares_of_ne hne h

/-- The padding as a first piece decides nothing against an exhausted list. -/
theorem padLex_compares_nil_pad (h : o.Compares (padLex pad xs) (padLex pad [])) :
    o.Compares (padLex pad (pad :: xs)) (padLex pad []) := by
  rw [padLex_nil]
  exact padLex_compares_cons h

end Lib
