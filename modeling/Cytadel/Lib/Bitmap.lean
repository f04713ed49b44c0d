import Mathlib.Data.Nat.Bitwise

/-!
# A set of numbers in an array of bytes

Number `k` is bit `k % 8` of byte `k / 8`. A number past the end of the array
is in no set, and setting it does nothing.
-/

namespace Lib

abbrev Bitmap (n : ℕ) := Vector UInt8 n

/-- `1u << k % 8`. -/
def bitMask (k : ℕ) : UInt8 := 1 <<< UInt8.ofNat (k % 8)

namespace Bitmap

variable {n : ℕ}

def empty (n : ℕ) : Bitmap n := .replicate n 0

def byteOf (b : Bitmap n) (k : ℕ) : UInt8 := b[k / 8]?.getD 0

def test (b : Bitmap n) (k : ℕ) : Bool := b.byteOf k &&& bitMask k != 0

def set (b : Bitmap n) (k : ℕ) : Bitmap n :=
  b.setIfInBounds (k / 8) (b.byteOf k ||| bitMask k)

/-- The loop that sets one number after the other. -/
def setAll (b : Bitmap n) (ks : List ℕ) : Bitmap n := ks.foldl set b

end Bitmap

/-! ## One bit of a byte -/

theorem bitMask_toNat (k : ℕ) : (bitMask k).toNat = 2 ^ (k % 8) := by
  have hk : k % 8 < 8 := Nat.mod_lt _ (by decide)
  have hpow : 2 ^ (k % 8) < 2 ^ 8 := Nat.pow_lt_pow_right (by decide) hk
  have hshift : (UInt8.ofNat (k % 8)).toNat % 8 = k % 8 := by
    rw [UInt8.toNat_ofNat']
    omega
  rw [bitMask, UInt8.toNat_shiftLeft, hshift]
  show 1 <<< (k % 8) % 2 ^ 8 = 2 ^ (k % 8)
  rw [Nat.shiftLeft_eq, Nat.one_mul, Nat.mod_eq_of_lt hpow]

theorem and_bitMask_ne_zero (x : UInt8) (k : ℕ) :
    (x &&& bitMask k != 0) = x.toNat.testBit (k % 8) := by
  have hzero : x &&& bitMask k = 0 ↔ x.toNat &&& 2 ^ (k % 8) = 0 := by
    rw [← UInt8.toNat_inj, UInt8.toNat_and, bitMask_toNat]
    exact Iff.rfl
  have hbit := Nat.and_two_pow x.toNat (k % 8)
  cases ht : x.toNat.testBit (k % 8) with
  | true =>
      rw [ht] at hbit
      refine bne_iff_ne.mpr fun h => ?_
      rw [hzero.mp h] at hbit
      have hpos := Nat.two_pow_pos (k % 8)
      simp only [Bool.toNat_true, Nat.one_mul] at hbit
      omega
  | false =>
      rw [ht] at hbit
      rw [hzero.mpr (by simpa using hbit)]
      rfl

/-! ## The set -/

namespace Bitmap

variable {n : ℕ}

theorem byteOf_set {b : Bitmap n} {k : ℕ} (hk : k < 8 * n) (j : ℕ) :
    (b.set k).byteOf j = if k / 8 = j / 8 then b.byteOf k ||| bitMask k else b.byteOf j := by
  have hin : k / 8 < n := by omega
  rw [set, byteOf, Vector.getElem?_setIfInBounds]
  split
  · next => simp
  · rfl

theorem test_eq (b : Bitmap n) (k : ℕ) : b.test k = (b.byteOf k).toNat.testBit (k % 8) :=
  and_bitMask_ne_zero _ k

@[simp] theorem test_empty (k : ℕ) : (empty n).test k = false := by
  have hbyte : (empty n).byteOf k = 0 := by
    rw [empty, byteOf, Vector.getElem?_replicate]
    split <;> rfl
  rw [test_eq, hbyte]
  exact Nat.zero_testBit _

theorem test_set {b : Bitmap n} {k : ℕ} (hk : k < 8 * n) (j : ℕ) :
    (b.set k).test j = (k == j || b.test j) := by
  rw [test_eq, byteOf_set hk]
  split
  · next heq =>
      have hbyte : b.byteOf k = b.byteOf j := by rw [byteOf, byteOf, heq]
      rw [UInt8.toNat_or, Nat.testBit_or, bitMask_toNat, Nat.testBit_two_pow, hbyte, ← test_eq,
        Bool.or_comm]
      congr 1
      have hsame : k % 8 = j % 8 ↔ k = j := by omega
      rw [Bool.eq_iff_iff, decide_eq_true_iff, beq_iff_eq, hsame]
  · next hne =>
      have hkj : (k == j) = false := by
        rw [beq_eq_false_iff_ne]
        rintro rfl
        exact hne rfl
      rw [hkj, Bool.false_or, test_eq]

/-- After the loop the set holds what it held and what the loop went over. -/
theorem test_setAll {b : Bitmap n} {ks : List ℕ} (hks : ∀ k ∈ ks, k < 8 * n) (j : ℕ) :
    (b.setAll ks).test j = true ↔ j ∈ ks ∨ b.test j = true := by
  induction ks generalizing b with
  | nil => simp [setAll]
  | cons k ks ih =>
      have hk := hks k List.mem_cons_self
      have hrest := ih (b := b.set k) fun m hm => hks m (List.mem_cons_of_mem _ hm)
      show ((b.set k).setAll ks).test j = true ↔ _
      rw [hrest, test_set hk, Bool.or_eq_true, beq_iff_eq, List.mem_cons, eq_comm (a := k)]
      tauto

end Bitmap

end Lib
