import Mathlib.Data.List.Basic
import Mathlib.Order.Defs.Unbundled

/-!
# Grouping a sorted stream

A single pass that keeps one group open, closes it where the key changes and
closes the last one at the end. On any stream it yields the maximal runs; on a
stream sorted by key these are the groups: one for each key, holding all rows
of it.
-/

namespace Lib

variable {α κ : Type*} [DecidableEq κ]

/-- The pass, with the group that is open. -/
def groupRuns (key : α → κ) : Option (κ × List α) → List α → List (κ × List α)
  | cur, [] => cur.toList
  | none, a :: as => groupRuns key (some (key a, [a])) as
  | some (k, xs), a :: as =>
      if key a = k then groupRuns key (some (k, xs ++ [a])) as
      else (k, xs) :: groupRuns key (some (key a, [a])) as

/-- One group for each key that occurs, with all its rows in their order. -/
structure IsGrouping (key : α → κ) (rows : List α) (gs : List (κ × List α)) : Prop where
  nodup : (gs.map (·.1)).Nodup
  run : ∀ g ∈ gs, g.2 = rows.filter fun a => key a = g.1
  mem : ∀ k, k ∈ gs.map (·.1) ↔ ∃ a ∈ rows, key a = k

variable {key : α → κ} {k : κ} {xs as : List α} {gs : List (κ × List α)}

theorem filter_key_self (hxs : ∀ x ∈ xs, key x = k) : xs.filter (fun a => key a = k) = xs := by
  rw [List.filter_eq_self]
  intro x hx
  simpa using hxs x hx

theorem filter_key_other (h : ∀ x ∈ xs, key x ≠ k) : xs.filter (fun a => key a = k) = [] := by
  rw [List.filter_eq_nil_iff]
  intro x hx
  simpa using h x hx

theorem isGrouping_single (hne : xs ≠ []) (hxs : ∀ x ∈ xs, key x = k) :
    IsGrouping key xs [(k, xs)] where
  nodup := by simp
  run g hg := by
    rw [List.mem_singleton.mp hg, filter_key_self hxs]
  mem k' := by
    obtain ⟨x, hx⟩ := List.exists_mem_of_ne_nil xs hne
    simp only [List.map_cons, List.map_nil, List.mem_singleton]
    constructor
    · rintro rfl
      exact ⟨x, hx, hxs x hx⟩
    · rintro ⟨y, hy, rfl⟩
      exact hxs y hy

/-- A group whose key does not come again stands before the others. -/
theorem IsGrouping.cons (h : IsGrouping key as gs) (hne : xs ≠ [])
    (hxs : ∀ x ∈ xs, key x = k) (hk : ∀ a ∈ as, key a ≠ k) :
    IsGrouping key (xs ++ as) ((k, xs) :: gs) where
  nodup := by
    rw [List.map_cons, List.nodup_cons]
    refine ⟨fun hmem => ?_, h.nodup⟩
    obtain ⟨a, ha, hak⟩ := (h.mem k).mp hmem
    exact hk a ha hak
  run g hg := by
    rw [List.filter_append]
    rcases List.mem_cons.mp hg with rfl | hg
    · rw [filter_key_self hxs, filter_key_other hk, List.append_nil]
    · have hother : ∀ x ∈ xs, key x ≠ g.1 := by
        intro x hx heq
        obtain ⟨a, ha, hag⟩ := (h.mem g.1).mp (List.mem_map_of_mem hg)
        exact hk a ha (by rw [hag, ← heq, hxs x hx])
      rw [filter_key_other hother, List.nil_append]
      exact h.run g hg
  mem k' := by
    obtain ⟨x, hx⟩ := List.exists_mem_of_ne_nil xs hne
    rw [List.map_cons, List.mem_cons, h.mem k']
    constructor
    · rintro (rfl | ⟨a, ha, hak⟩)
      · exact ⟨x, List.mem_append_left _ hx, hxs x hx⟩
      · exact ⟨a, List.mem_append_right _ ha, hak⟩
    · rintro ⟨a, ha, rfl⟩
      rcases List.mem_append.mp ha with ha | ha
      · exact Or.inl (hxs a ha)
      · exact Or.inr ⟨a, ha, rfl⟩

/-- The pass keeps every row. -/
theorem groupRuns_flatMap (key : α → κ) (cur : Option (κ × List α)) (as : List α) :
    (groupRuns key cur as).flatMap (·.2) = cur.toList.flatMap (·.2) ++ as := by
  induction as generalizing cur with
  | nil => cases cur <;> simp [groupRuns]
  | cons a as ih =>
      cases cur with
      | none =>
          rw [groupRuns, ih]
          simp
      | some g =>
          obtain ⟨k, xs⟩ := g
          rw [groupRuns]
          split
          · rw [ih]
            simp
          · rw [List.flatMap_cons, ih]
            simp

section Sorted

variable [LE κ] [Std.Antisymm (fun a b : κ => a ≤ b)]

theorem groupRuns_open (hne : xs ≠ []) (hxs : ∀ x ∈ xs, key x = k)
    (hle : ∀ a ∈ as, k ≤ key a) (hs : as.Pairwise fun a b => key a ≤ key b) :
    IsGrouping key (xs ++ as) (groupRuns key (some (k, xs)) as) := by
  induction as generalizing k xs with
  | nil =>
      rw [List.append_nil]
      exact isGrouping_single hne hxs
  | cons a as ih =>
      obtain ⟨ha, hs⟩ := List.pairwise_cons.mp hs
      rw [groupRuns]
      split
      · next hak =>
          rw [List.append_cons]
          refine ih (by simp) (fun x hx => ?_)
            (fun b hb => hle b (List.mem_cons_of_mem _ hb)) hs
          rcases List.mem_append.mp hx with hx | hx
          · exact hxs x hx
          · rw [List.mem_singleton.mp hx, hak]
      · next hak =>
          have hrest : IsGrouping key ([a] ++ as) (groupRuns key (some (key a, [a])) as) :=
            ih (by simp) (by simp) ha hs
          refine hrest.cons hne hxs ?_
          intro b hb hbk
          -- what comes after a key is not below it, so it cannot come back
          rcases List.mem_cons.mp hb with rfl | hb
          · exact hak hbk
          · refine hak (antisymm (r := fun a b : κ => a ≤ b) ?_ (hle a List.mem_cons_self))
            rw [← hbk]
            exact ha b hb

/-- On a sorted stream the runs are the groups. -/
theorem groupRuns_isGrouping (hs : as.Pairwise fun a b => key a ≤ key b) :
    IsGrouping key as (groupRuns key none as) := by
  cases as with
  | nil => exact ⟨List.nodup_nil, by simp [groupRuns], by simp [groupRuns]⟩
  | cons a as =>
      obtain ⟨ha, hs⟩ := List.pairwise_cons.mp hs
      have hopen : IsGrouping key ([a] ++ as) (groupRuns key (some (key a, [a])) as) :=
        groupRuns_open (by simp) (by simp) ha hs
      exact hopen

end Sorted

end Lib
