import Mathlib.Data.List.Basic
import Mathlib.Data.List.TakeWhile

/-!
# Reads of a buffer that may fall outside

An index loop over a buffer, with every read checked: a read at or past the
end has no result. The lemmas place the loop in a buffer that is written as
what stands before the index and what stands from there on.
-/

namespace Lib

variable {α : Type} {pre run tail : List α} {p : α → Bool} {a : α} {n : ℕ}

/-- `n` elements from index `i` on. -/
def readSlice (buf : List α) (i n : ℕ) : Option (List α) :=
  if i + n ≤ buf.length then some ((buf.drop i).take n) else none

/-- `while (n-- > 0 && p(buf[i])) i++`: the index that it stops at. -/
def scanWhile (buf : List α) (p : α → Bool) : ℕ → ℕ → Option ℕ
  | 0, i => some i
  | n + 1, i => do
      let a ← buf[i]?
      if p a then scanWhile buf p n (i + 1) else some i

theorem getElem?_here (pre tail : List α) (a : α) : (pre ++ a :: tail)[pre.length]? = some a := by
  rw [List.getElem?_append_right (Nat.le_refl _), Nat.sub_self]
  rfl

theorem readSlice_here (pre run tail : List α) :
    readSlice (pre ++ (run ++ tail)) pre.length run.length = some run := by
  rw [readSlice, if_pos, List.drop_left, List.take_left]
  rw [List.length_append, List.length_append]
  exact Nat.add_le_add_left (Nat.le_add_right _ _) _

theorem readSlice_take (pre run tail : List α) (h : n ≤ run.length) :
    readSlice (pre ++ (run ++ tail)) pre.length n = some (run.take n) := by
  have hhere := readSlice_here pre (run.take n) (run.drop n ++ tail)
  rw [List.length_take, Nat.min_eq_left h, ← List.append_assoc (run.take n),
    List.take_append_drop] at hhere
  exact hhere

/-- The loop runs over its whole range. -/
theorem scanWhile_all (hrun : ∀ a ∈ run, p a = true) :
    scanWhile (pre ++ (run ++ tail)) p run.length pre.length =
      some (pre.length + run.length) := by
  induction run generalizing pre with
  | nil => rfl
  | cons a run ih =>
      have hnext := @ih (pre ++ [a]) fun b hb => hrun b (List.mem_cons_of_mem _ hb)
      rw [List.length_append, List.length_singleton, List.append_assoc, List.singleton_append]
        at hnext
      rw [List.length_cons, List.cons_append, scanWhile, getElem?_here, Option.bind_eq_bind,
        Option.bind_some, if_pos (hrun a List.mem_cons_self), hnext]
      congr 1
      omega

/-- The loop stops at an element that fails the test. -/
theorem scanWhile_stop (hrun : ∀ a ∈ run, p a = true) (hstop : p a = false)
    (hn : run.length < n) :
    scanWhile (pre ++ (run ++ a :: tail)) p n pre.length = some (pre.length + run.length) := by
  induction run generalizing pre n with
  | nil =>
      obtain ⟨n, rfl⟩ := Nat.exists_eq_succ_of_ne_zero (Nat.ne_of_gt hn)
      rw [List.nil_append, scanWhile, getElem?_here, Option.bind_eq_bind, Option.bind_some,
        if_neg (by rw [hstop]; exact Bool.false_ne_true)]
      rfl
  | cons b run ih =>
      obtain ⟨n, rfl⟩ := Nat.exists_eq_succ_of_ne_zero (Nat.ne_of_gt (Nat.zero_lt_of_lt hn))
      have hnext := @ih (pre ++ [b]) n (fun c hc => hrun c (List.mem_cons_of_mem _ hc))
        (Nat.lt_of_succ_lt_succ hn)
      rw [List.length_append, List.length_singleton, List.append_assoc, List.singleton_append]
        at hnext
      rw [List.length_cons, List.cons_append, scanWhile, getElem?_here, Option.bind_eq_bind,
        Option.bind_some, if_pos (hrun b List.mem_cons_self), hnext]
      congr 1
      omega

end Lib
