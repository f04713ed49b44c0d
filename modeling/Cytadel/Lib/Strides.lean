import Mathlib.Tactic.Basic
import Mathlib.Data.Nat.Init
import Mathlib.Order.Defs.LinearOrder

/-!
# Reading in strides

A sequence of `n` items is read from the multiples of a stride on, some items
at each. Whether all of them are read is decided by what each read reaches: by
the time the next stride begins, one of the reads so far must have come there.
-/

namespace Lib

variable {n stride : ℕ} {len : ℕ → ℕ}

/-- Every item is in one of the reads. -/
def StridesCover (n stride : ℕ) (len : ℕ → ℕ) : Prop :=
  ∀ j < n, ∃ k, k * stride ≤ j ∧ j < k * stride + len k

/-- No stride begins behind a gap. -/
def NoGap (n stride : ℕ) (len : ℕ → ℕ) : Prop :=
  ∀ k, k * stride < n → ∃ k' ≤ k, min ((k + 1) * stride) n ≤ k' * stride + len k'

theorem stridesCover_iff_noGap (hpos : 0 < stride) :
    StridesCover n stride len ↔ NoGap n stride len := by
  constructor
  · intro hcover k hk
    -- the last item before the next stride is in a read, and that read is not later
    have hnext : k * stride < (k + 1) * stride := by
      rw [Nat.succ_mul]
      omega
    obtain ⟨k', hk', hlen⟩ := hcover (min ((k + 1) * stride) n - 1) (by omega)
    refine ⟨k', ?_, by omega⟩
    have hlt : k' * stride < (k + 1) * stride := by omega
    exact Nat.lt_succ_iff.mp (Nat.lt_of_mul_lt_mul_right hlt)
  · intro hgap j hj
    have hle : j / stride * stride ≤ j := Nat.div_mul_le_self j stride
    have hlt : j < (j / stride + 1) * stride := by
      rw [Nat.mul_comm]
      exact Nat.lt_mul_div_succ j hpos
    obtain ⟨k, hk, hreach⟩ := hgap (j / stride) (by omega)
    have hmul : k * stride ≤ j / stride * stride := Nat.mul_le_mul_right stride hk
    exact ⟨k, by omega, by omega⟩

/-- Where no read goes beyond its stride, each has to fill it. -/
theorem noGap_iff_full (hpos : 0 < stride) (hlen : ∀ k, k * stride < n → len k ≤ stride)
    (hin : ∀ k, k * stride < n → len k ≤ n - k * stride) :
    NoGap n stride len ↔ ∀ k, k * stride < n → len k = min stride (n - k * stride) := by
  constructor
  · intro hgap k hk
    obtain ⟨k', hk', hreach⟩ := hgap k hk
    have hmul : k' * stride ≤ k * stride := Nat.mul_le_mul_right stride hk'
    have hle := hlen k' (by omega)
    rw [Nat.succ_mul] at hreach
    obtain rfl | hlt := Nat.eq_or_lt_of_le hk'
    · have hle' := hin k' hk
      omega
    · -- an earlier read ends before this stride has begun
      have hbefore : (k' + 1) * stride ≤ k * stride := Nat.mul_le_mul_right stride hlt
      rw [Nat.succ_mul] at hbefore
      omega
  · intro hfull k hk
    refine ⟨k, Nat.le_refl k, ?_⟩
    rw [hfull k hk, Nat.succ_mul]
    omega

end Lib
