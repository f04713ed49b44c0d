import Mathlib.Algebra.Group.Nat.Defs
import Mathlib.Data.Nat.Init
import Mathlib.Tactic.Basic

/-!
# What holds of every byte

A fact about a byte is checked byte by byte, along a tree over the numbers
below 256, so that a check never goes deeper than the tree is high.
-/

namespace Lib

/-- The test passes on each of the `2 ^ k` numbers from `2 ^ k * n` on. -/
def allFrom (p : ℕ → Bool) : ℕ → ℕ → Bool
  | 0, n => p n
  | k + 1, n => allFrom p k (2 * n) && allFrom p k (2 * n + 1)

theorem allFrom_spec {p : ℕ → Bool} {k n i : ℕ} (h : allFrom p k n = true) (hi : i < 2 ^ k) :
    p (2 ^ k * n + i) = true := by
  induction k generalizing n i with
  | zero =>
      obtain rfl : i = 0 := by simpa using hi
      simpa [allFrom] using h
  | succ k ih =>
      rw [allFrom, Bool.and_eq_true] at h
      rw [Nat.pow_succ] at hi ⊢
      rcases Nat.lt_or_ge i (2 ^ k) with hlt | hge
      · have hleft := ih h.1 hlt
        rwa [← Nat.mul_assoc] at hleft
      · have hright := ih h.2 (i := i - 2 ^ k) (by omega)
        have hsum : 2 ^ k * (2 * n + 1) + (i - 2 ^ k) = 2 ^ k * 2 * n + i := by
          rw [Nat.mul_add, Nat.mul_one, ← Nat.mul_assoc]
          omega
        rwa [hsum] at hright

theorem forall_byte {p : UInt8 → Prop} [DecidablePred p]
    (h : allFrom (fun n => decide (p (.ofNat n))) 8 0 = true) (c : UInt8) : p c := by
  have hc := allFrom_spec h c.toNat_lt
  rw [Nat.mul_zero, Nat.zero_add, UInt8.ofNat_toNat] at hc
  exact of_decide_eq_true hc

/-- For a text whose bytes are known. -/
theorem forall_mem_of_all {p : UInt8 → Prop} [DecidablePred p] {s : List UInt8}
    (h : (s.all fun c => decide (p c)) = true) : ∀ c ∈ s, p c :=
  fun c hc => of_decide_eq_true (List.all_eq_true.mp h c hc)

end Lib
