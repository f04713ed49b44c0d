import Mathlib.Data.List.Basic
import Mathlib.Logic.Function.Basic

/-!
# Tickets

A counter hands out the numbers from zero on, one at a time, to any party that
has none; a party keeps its number until it puts it back. Whatever the order
of the draws and returns, every number below the counter is either held by one
party or was put back.
-/

namespace Lib

variable {ω : Type*} [DecidableEq ω]

/-- The next number, who holds which one, and the numbers put back, the oldest
first. -/
structure Tickets (ω : Type*) where
  next : ℕ
  holder : ω → Option ℕ
  returned : List ℕ

namespace Tickets

def draw (t : Tickets ω) (w : ω) : Tickets ω :=
  ⟨t.next + 1, Function.update t.holder w (some t.next), t.returned⟩

def giveBack (t : Tickets ω) (w : ω) (i : ℕ) : Tickets ω :=
  ⟨t.next, Function.update t.holder w none, t.returned ++ [i]⟩

omit [DecidableEq ω] in
/-- The numbers below the counter are shared out among the parties and the
returned ones. -/
structure Sound (t : Tickets ω) : Prop where
  held_lt : ∀ w i, t.holder w = some i → i < t.next
  held_once : ∀ w v i, t.holder w = some i → t.holder v = some i → w = v
  returned_lt : ∀ i ∈ t.returned, i < t.next
  returned_free : ∀ i ∈ t.returned, ∀ w, t.holder w ≠ some i
  covered : ∀ i < t.next, i ∈ t.returned ∨ ∃ w, t.holder w = some i

variable {t : Tickets ω} {w : ω} {i : ℕ}

omit [DecidableEq ω] in
theorem sound_start : Sound (⟨0, fun _ => none, []⟩ : Tickets ω) where
  held_lt := by simp
  held_once := by simp
  returned_lt := by simp
  returned_free := by simp
  covered := by simp

theorem Sound.draw (h : t.Sound) (hw : t.holder w = none) : (t.draw w).Sound where
  held_lt v j hj := by
    show j < t.next + 1
    by_cases hv : v = w
    · subst hv
      simp only [Tickets.draw, Function.update_self, Option.some.injEq] at hj
      omega
    · simp only [Tickets.draw, Function.update_of_ne hv] at hj
      exact Nat.lt_succ_of_lt (h.held_lt v j hj)
  held_once v u j hv hu := by
    -- the drawn number was held by nobody, as it is not below the counter
    have hfresh : ∀ x, t.holder x ≠ some t.next := fun x hx =>
      absurd (h.held_lt x _ hx) (Nat.lt_irrefl _)
    simp only [Tickets.draw, Function.update_apply] at hv hu
    split at hv
    · next hvw =>
        split at hu
        · next huw => rw [hvw, huw]
        · cases hv
          exact absurd hu (hfresh u)
    · split at hu
      · cases hu
        exact absurd hv (hfresh v)
      · exact h.held_once v u j hv hu
  returned_lt j hj := Nat.lt_succ_of_lt (h.returned_lt j hj)
  returned_free j hj v hv := by
    simp only [Tickets.draw, Function.update_apply] at hv
    split at hv
    · cases hv
      exact absurd (h.returned_lt _ hj) (Nat.lt_irrefl _)
    · exact h.returned_free j hj v hv
  covered j hj := by
    show j ∈ t.returned ∨ ∃ v, Function.update t.holder w (some t.next) v = some j
    have hj' : j < t.next + 1 := hj
    rcases Nat.lt_succ_iff_lt_or_eq.mp hj' with hlt | rfl
    · rcases h.covered j hlt with hr | ⟨v, hv⟩
      · exact .inl hr
      · have hne : v ≠ w := by
          rintro rfl
          rw [hw] at hv
          cases hv
        exact .inr ⟨v, by rw [Function.update_of_ne hne, hv]⟩
    · exact .inr ⟨w, Function.update_self ..⟩

theorem Sound.giveBack (h : t.Sound) (hw : t.holder w = some i) : (t.giveBack w i).Sound where
  held_lt v j hj := by
    simp only [Tickets.giveBack, Function.update_apply] at hj
    split at hj
    · cases hj
    · exact h.held_lt v j hj
  held_once v u j hv hu := by
    simp only [Tickets.giveBack, Function.update_apply] at hv hu
    split at hv
    · cases hv
    · split at hu
      · cases hu
      · exact h.held_once v u j hv hu
  returned_lt j hj := by
    rcases List.mem_append.mp hj with hj | hj
    · exact h.returned_lt j hj
    · rw [List.mem_singleton.mp hj]
      exact h.held_lt w i hw
  returned_free j hj v hv := by
    simp only [Tickets.giveBack, Function.update_apply] at hv
    split at hv
    · cases hv
    · next hne =>
        rcases List.mem_append.mp hj with hj | hj
        · exact h.returned_free j hj v hv
        · rw [List.mem_singleton.mp hj] at hv
          exact hne (h.held_once v w i hv hw)
  covered j hj := by
    show j ∈ t.returned ++ [i] ∨ ∃ v, Function.update t.holder w none v = some j
    rcases h.covered j hj with hr | ⟨v, hv⟩
    · exact .inl (List.mem_append_left _ hr)
    · by_cases hvw : v = w
      · subst hvw
        rw [hw, Option.some.injEq] at hv
        exact .inl (by simp [hv])
      · exact .inr ⟨v, by rw [Function.update_of_ne hvw, hv]⟩

end Tickets

end Lib
