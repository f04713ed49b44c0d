import Mathlib.Order.Compare
import Mathlib.Order.Lattice.Nat
import Mathlib.Algebra.Order.Group.Nat

/-!
# Partial comparisons inside a linear order

A comparison that may decline to answer has no transitivity of its own: a
chain can run through pairs it never compares. What rescues it is a key into a
linear order with which every answer it does give agrees. All the laws below
come from that one fact, and none of them asks what the comparison says about
a pair it was not asked about.
-/

namespace Lib

variable {α κ : Type*} [LinearOrder κ]

/-- Every answer of the partial comparison is the order of the keys. -/
def KeySound (cmp : α → α → Option Ordering) (key : α → κ) : Prop :=
  ∀ a b o, cmp a b = some o → o.Compares (key a) (key b)

variable {cmp : α → α → Option Ordering} {key : α → κ}

theorem KeySound.lt (h : KeySound cmp key) {a b : α}
    (hc : cmp a b = some .lt) : key a < key b := h a b _ hc

theorem KeySound.eq (h : KeySound cmp key) {a b : α}
    (hc : cmp a b = some .eq) : key a = key b := h a b _ hc

theorem KeySound.gt (h : KeySound cmp key) {a b : α}
    (hc : cmp a b = some .gt) : key b < key a := h a b _ hc

theorem KeySound.le (h : KeySound cmp key) {a b : α}
    (hc : cmp a b = some .lt ∨ cmp a b = some .eq) : key a ≤ key b := by
  rcases hc with hlt | heq
  · exact le_of_lt (h.lt hlt)
  · exact le_of_eq (h.eq heq)

/-- Along a chain of answers that never say `gt`, the keys climb. -/
theorem KeySound.chain_le (h : KeySound cmp key) {s : ℕ → α} {n : ℕ}
    (hs : ∀ i < n, cmp (s i) (s (i + 1)) = some .lt ∨
      cmp (s i) (s (i + 1)) = some .eq) {i j : ℕ} (hij : i ≤ j) (hj : j ≤ n) :
    key (s i) ≤ key (s j) := by
  induction j, hij using Nat.le_induction with
  | base => exact le_refl _
  | succ j _ ih =>
      exact le_trans (ih (by omega)) (h.le (hs j (by omega)))

/-- A chain that closes has no strict step. -/
theorem KeySound.no_strict_cycle (h : KeySound cmp key) {s : ℕ → α} {n : ℕ}
    (hclose : s n = s 0)
    (hs : ∀ i < n, cmp (s i) (s (i + 1)) = some .lt ∨
      cmp (s i) (s (i + 1)) = some .eq) {i : ℕ} (hi : i < n) :
    cmp (s i) (s (i + 1)) ≠ some .lt := by
  intro hlt
  have hup : key (s 0) ≤ key (s i) := h.chain_le hs (Nat.zero_le i) (by omega)
  have hrest : key (s (i + 1)) ≤ key (s n) := h.chain_le hs hi (le_refl n)
  rw [hclose] at hrest
  exact absurd (lt_of_lt_of_le (h.lt hlt) (le_trans hrest hup)) (lt_irrefl _)

/-- Equal answers may be substituted on both sides of any pair that is
compared before and after. -/
theorem KeySound.congr (h : KeySound cmp key) {a a' b b' : α} {o o' : Ordering}
    (ha : cmp a a' = some .eq) (hb : cmp b b' = some .eq)
    (ho : cmp a b = some o) (ho' : cmp a' b' = some o') : o = o' := by
  have hab := h a b o ho
  rw [h.eq ha, h.eq hb] at hab
  exact hab.inj (h a' b' o' ho')

end Lib
