import Mathlib.Data.List.Sort

/-!
# First occurrences

The elements of a list whose key did not come before, in their order. Sorting
the keys together with their places finds the same elements: among equal keys
the first place comes first, so the places to keep are the heads of the runs.
-/

namespace Lib

variable {α κ : Type*}

section

variable [DecidableEq κ] (key : α → κ)

/-- The elements whose key is neither in `seen` nor a key before. -/
def firsts : List κ → List α → List α
  | _, [] => []
  | seen, a :: as =>
      if key a ∈ seen then firsts seen as else a :: firsts (key a :: seen) as

/-- The second components at which the first one changes. -/
def runHeads : Option κ → List (κ × ℕ) → List ℕ
  | _, [] => []
  | before, (k, i) :: rest =>
      if before = some k then runHeads (some k) rest else i :: runHeads (some k) rest

end

/-! ## What is kept -/

section

variable [DecidableEq κ] {key : α → κ}

/-- Keys may be renamed, as long as none of them fall together. -/
theorem firsts_map {β ι : Type*} [DecidableEq ι] {key' : β → ι} {f : β → α} {g : ι → κ}
    (hg : Function.Injective g) (hkey : ∀ b, key (f b) = g (key' b)) (seen : List ι)
    (bs : List β) :
    firsts key (seen.map g) (bs.map f) = (firsts key' seen bs).map f := by
  induction bs generalizing seen with
  | nil => rfl
  | cons b bs ih =>
      rw [List.map_cons, firsts, firsts]
      simp only [hkey, List.mem_map_of_injective hg]
      split
      · exact ih seen
      · rw [List.map_cons, ← List.map_cons, ih]

/-- An element is kept when no place before its own has its key; some of the
list has gone by already. -/
theorem firsts_eq_filter_from {seen : List κ} {before as : List α}
    (hseen : ∀ k, k ∈ seen ↔ k ∈ before.map key) :
    firsts key seen as =
      ((as.zipIdx before.length).filter fun p =>
        ∀ j < p.2, ((before ++ as).map key)[j]? ≠ some (key p.1)).map Prod.fst := by
  induction as generalizing seen before with
  | nil => rfl
  | cons a as ih =>
      have hhead : (∀ j < before.length, ((before ++ a :: as).map key)[j]? ≠ some (key a)) ↔
          key a ∉ seen := by
        rw [hseen, List.mem_iff_getElem?, not_exists]
        refine forall_congr' fun j => ?_
        rw [List.map_append]
        constructor
        · intro h hj
          have hlt : j < before.length := by
            rw [← List.length_map key]
            exact (List.getElem?_eq_some_iff.mp hj).1
          exact h hlt (by rwa [List.getElem?_append_left (by rwa [List.length_map])])
        · intro h hlt hj
          rw [List.getElem?_append_left (by rwa [List.length_map])] at hj
          exact h hj
      have hnext : before ++ a :: as = (before ++ [a]) ++ as := by
        rw [List.append_assoc]
        rfl
      have hlength : (before ++ [a]).length = before.length + 1 := by
        rw [List.length_append, List.length_singleton]
      rw [firsts, List.zipIdx_cons, List.filter_cons]
      simp only [decide_eq_true_iff, hhead]
      split
      · next ha =>
          rw [hnext, ← hlength]
          refine ih fun k => ?_
          rw [List.map_append, List.mem_append, ← hseen, List.map_singleton, List.mem_singleton]
          exact ⟨.inl, fun h => h.elim id fun hk => hk ▸ ha⟩
      · next ha =>
          rw [List.map_cons, hnext, ← hlength]
          refine congrArg (a :: ·) (ih fun k => ?_)
          rw [List.map_append, List.mem_append, ← hseen, List.map_singleton, List.mem_singleton,
            List.mem_cons, or_comm]

theorem firsts_sublist (seen : List κ) (as : List α) : (firsts key seen as).Sublist as := by
  induction as generalizing seen with
  | nil => exact List.Sublist.refl _
  | cons a as ih =>
      rw [firsts]
      split
      · exact (ih seen).cons a
      · exact (ih _).cons_cons a

theorem firsts_not_seen {seen : List κ} {as : List α} {a : α} (h : a ∈ firsts key seen as) :
    key a ∉ seen := by
  induction as generalizing seen with
  | nil => cases h
  | cons b as ih =>
      rw [firsts] at h
      split at h
      · exact ih h
      · next hb =>
          rcases List.mem_cons.mp h with rfl | h
          · exact hb
          · exact fun hseen => ih h (List.mem_cons_of_mem _ hseen)

/-- What is kept has different keys. -/
theorem firsts_nodup (seen : List κ) (as : List α) : ((firsts key seen as).map key).Nodup := by
  induction as generalizing seen with
  | nil => exact List.nodup_nil
  | cons a as ih =>
      rw [firsts]
      split
      · exact ih seen
      · rw [List.map_cons, List.nodup_cons]
        refine ⟨fun hmem => ?_, ih _⟩
        obtain ⟨b, hb, hkey⟩ := List.mem_map.mp hmem
        exact firsts_not_seen hb (hkey ▸ List.mem_cons_self)

theorem firsts_eq_filter (as : List α) :
    firsts key [] as =
      (as.zipIdx.filter fun p => ∀ j < p.2, (as.map key)[j]? ≠ some (key p.1)).map Prod.fst :=
  @firsts_eq_filter_from _ _ _ key [] [] as fun _ => Iff.rfl

end

/-! ## The heads of the runs -/

/-- Sorted by key, and by place where the keys are equal. -/
def KeysSorted [LT κ] (keys : List (κ × ℕ)) : Prop :=
  keys.Pairwise fun a b => a.1 < b.1 ∨ (a.1 = b.1 ∧ a.2 < b.2)

/-- The head of a run is the least place of its key. -/
theorem mem_runHeads [LinearOrder κ] [DecidableEq κ] {keys : List (κ × ℕ)} (hs : KeysSorted keys)
    {before : Option κ} (hbefore : ∀ b ∈ before, ∀ p ∈ keys, b ≤ p.1) {i : ℕ} :
    i ∈ runHeads before keys ↔
      ∃ k, (k, i) ∈ keys ∧ before ≠ some k ∧ ∀ j, (k, j) ∈ keys → i ≤ j := by
  induction keys generalizing before with
  | nil => simp [runHeads]
  | cons p rest ih =>
      obtain ⟨k₀, i₀⟩ := p
      have hrest := (List.pairwise_cons.mp hs).2
      have hhead := (List.pairwise_cons.mp hs).1
      have hle : ∀ b ∈ some k₀, ∀ p ∈ rest, b ≤ p.1 := by
        intro b hb p hp
        cases hb
        exact (hhead p hp).elim le_of_lt fun h => le_of_eq h.1
      have hafter := ih hrest hle
      have hsome : ∀ k, some k₀ ≠ some k ↔ k ≠ k₀ := fun k => by
        rw [ne_eq, Option.some.injEq, eq_comm]
      -- behind the head stand larger keys, and larger places of its own key
      have hother : (∃ k, (k, i) ∈ rest ∧ some k₀ ≠ some k ∧ ∀ j, (k, j) ∈ rest → i ≤ j) ↔
          ∃ k, k ≠ k₀ ∧ (k, i) ∈ (k₀, i₀) :: rest ∧ ∀ j, (k, j) ∈ (k₀, i₀) :: rest → i ≤ j := by
        refine exists_congr fun k => ?_
        rw [hsome]
        constructor
        · intro ⟨hmem, hne, hmin⟩
          refine ⟨hne, List.mem_cons_of_mem _ hmem, fun j hj => ?_⟩
          rcases List.mem_cons.mp hj with heq | hj
          · exact absurd (Prod.mk.inj heq).1 hne
          · exact hmin j hj
        · intro ⟨hne, hmem, hmin⟩
          refine ⟨?_, hne, fun j hj => hmin j (List.mem_cons_of_mem _ hj)⟩
          rcases List.mem_cons.mp hmem with heq | hmem
          · exact absurd (Prod.mk.inj heq).1 hne
          · exact hmem
      rw [runHeads]
      split
      · next heq =>
          rw [hafter, hother]
          refine exists_congr fun k => ?_
          rw [heq, hsome]
          exact and_left_comm
      · next hne =>
          rw [List.mem_cons, hafter, hother]
          constructor
          · rintro (rfl | ⟨k, hk, hmem, hmin⟩)
            · refine ⟨k₀, List.mem_cons_self, hne, fun j hj => ?_⟩
              rcases List.mem_cons.mp hj with heq | hj
              · exact le_of_eq (Prod.mk.inj heq).2.symm
              · rcases hhead _ hj with hlt | ⟨-, hlt⟩
                · exact absurd hlt (lt_irrefl _)
                · exact le_of_lt hlt
            · refine ⟨k, hmem, ?_, hmin⟩
              rintro rfl
              have hlow := hbefore k rfl (k₀, i₀) List.mem_cons_self
              have hrestmem : (k, i) ∈ rest := by
                rcases List.mem_cons.mp hmem with heq | hmem
                · exact absurd (Prod.mk.inj heq).1 hk
                · exact hmem
              have hhigh := hle k₀ rfl _ hrestmem
              exact hk (le_antisymm hlow hhigh)
          · intro ⟨k, hmem, hk, hmin⟩
            by_cases heq : k = k₀
            · subst heq
              refine .inl (le_antisymm (hmin i₀ List.mem_cons_self) ?_)
              rcases List.mem_cons.mp hmem with heq | hmem
              · exact le_of_eq (Prod.mk.inj heq).2.symm
              · rcases hhead _ hmem with hlt | ⟨-, hlt⟩
                · exact absurd hlt (lt_irrefl _)
                · exact le_of_lt hlt
            · exact .inr ⟨k, heq, hmem, hmin⟩

end Lib
