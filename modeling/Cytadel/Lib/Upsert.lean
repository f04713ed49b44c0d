import Mathlib.Logic.Function.Basic
import Mathlib.Data.List.Basic
import Cytadel.Lib.Firsts

/-!
# Tables under repeated upserts

Two ways a keyed table takes new rows. In the first a row that meets an old
one of its key is merged with it, the table being a function of the key; in
the second it is dropped, the table being a list that only grows. What both
have in common is that a prefix of the writes may be replayed: in front of the
whole sequence it leaves no trace. For the merge this takes two laws, that a
later row wins over a merged one as it wins over the first, and that a row
merged with itself is that row.
-/

namespace Lib

/-! ## Merging -/

section Merge

variable {κ ρ ρ' : Type*} [DecidableEq κ]

/-- A row that comes to an empty or an occupied place. -/
def mergeOpt (merge : ρ → ρ → ρ) (old : Option ρ) (r : ρ) : Option ρ :=
  some (old.elim r fun o => merge o r)

@[simp] theorem mergeOpt_none (merge : ρ → ρ → ρ) (r : ρ) : mergeOpt merge none r = some r := rfl

@[simp] theorem mergeOpt_some (merge : ρ → ρ → ρ) (o r : ρ) :
    mergeOpt merge (some o) r = some (merge o r) := rfl

def upsert (merge : ρ → ρ → ρ) (tab : κ → Option ρ) (item : κ × ρ) : κ → Option ρ :=
  Function.update tab item.1 (mergeOpt merge (tab item.1) item.2)

/-- The rows that come to one key. -/
def rowsAt (k : κ) (items : List (κ × ρ)) : List ρ :=
  items.filterMap fun i => if i.1 = k then some i.2 else none

theorem rowsAt_append (k : κ) (items items' : List (κ × ρ)) :
    rowsAt k (items ++ items') = rowsAt k items ++ rowsAt k items' := List.filterMap_append

theorem rowsAt_map (f : ρ → ρ') (k : κ) (items : List (κ × ρ)) :
    rowsAt k (items.map fun i => (i.1, f i.2)) = (rowsAt k items).map f := by
  simp only [rowsAt, List.filterMap_map, List.map_filterMap]
  refine List.filterMap_congr fun i _ => ?_
  simp only [Function.comp_apply]
  split <;> rfl

/-- Each key sees only its own rows. -/
theorem foldl_upsert_apply (merge : ρ → ρ → ρ) (items : List (κ × ρ)) (tab : κ → Option ρ)
    (k : κ) :
    items.foldl (upsert merge) tab k = (rowsAt k items).foldl (mergeOpt merge) (tab k) := by
  induction items generalizing tab with
  | nil => rfl
  | cons i items ih =>
      rw [List.foldl_cons, ih]
      by_cases hk : i.1 = k
      · simp [rowsAt, upsert, hk]
      · simp [rowsAt, upsert, hk, Function.update_of_ne (Ne.symm hk)]

/-- A view of the rows that respects the merge sees the same fold. -/
theorem foldl_mergeOpt_map {merge : ρ → ρ → ρ} {merge' : ρ' → ρ' → ρ'} {f : ρ → ρ'}
    (hf : ∀ a b, f (merge a b) = merge' (f a) (f b)) (rs : List ρ) (o : Option ρ) :
    (rs.foldl (mergeOpt merge) o).map f = (rs.map f).foldl (mergeOpt merge') (o.map f) := by
  induction rs generalizing o with
  | nil => rfl
  | cons r rs ih =>
      rw [List.foldl_cons, ih, List.map_cons, List.foldl_cons]
      cases o with
      | none => rfl
      | some a => simp [hf]

variable {merge : ρ → ρ → ρ}

/-- Where a later row wins over a merged one, only the last row counts. -/
theorem foldl_mergeOpt_some (habsorb : ∀ a b c, merge (merge a b) c = merge a c)
    (rs : List ρ) (a : ρ) :
    rs.foldl (mergeOpt merge) (some a) = some (rs.getLast?.elim a fun l => merge a l) := by
  induction rs generalizing a with
  | nil => rfl
  | cons r rs ih =>
      rw [List.foldl_cons, mergeOpt_some, ih, List.getLast?_cons]
      cases rs.getLast? <;> simp [habsorb]

/-- What stands at a place after the rows that come to it: the last of them,
merged into what stood there or, where nothing did, into the first of them. -/
def settled (merge : ρ → ρ → ρ) (old : Option ρ) (rs : List ρ) : Option ρ :=
  match rs.getLast? with
  | none => old
  | some last => some ((old.or rs.head?).elim last fun o => merge o last)

theorem foldl_mergeOpt_eq_settled (habsorb : ∀ a b c, merge (merge a b) c = merge a c)
    (hidem : ∀ a, merge a a = a) (rs : List ρ) (old : Option ρ) :
    rs.foldl (mergeOpt merge) old = settled merge old rs := by
  cases rs with
  | nil => rfl
  | cons r rs =>
      cases old with
      | some a =>
          rw [foldl_mergeOpt_some habsorb, settled, List.getLast?_cons]
          rfl
      | none =>
          rw [List.foldl_cons, mergeOpt_none, foldl_mergeOpt_some habsorb, settled,
            List.getLast?_cons]
          cases rs.getLast? with
          | none => exact congrArg some (hidem r).symm
          | some last => rfl

/-- A view of the rows that respects the merge sees the same. -/
theorem settled_map {merge' : ρ' → ρ' → ρ'} {f : ρ → ρ'}
    (hf : ∀ a b, f (merge a b) = merge' (f a) (f b)) (old : Option ρ) (rs : List ρ) :
    (settled merge old rs).map f = settled merge' (old.map f) (rs.map f) := by
  rw [settled, settled, List.getLast?_map, List.head?_map]
  cases rs.getLast? with
  | none => rfl
  | some last =>
      cases old with
      | some o => exact congrArg some (hf o last)
      | none =>
          cases rs.head? with
          | none => rfl
          | some first => exact congrArg some (hf first last)

/-- A place of the table after some items, as a view sees it. -/
theorem foldl_upsert_settled {merge' : ρ' → ρ' → ρ'} {f : ρ → ρ'}
    (habsorb : ∀ a b c, merge (merge a b) c = merge a c) (hidem : ∀ a, merge a a = a)
    (hf : ∀ a b, f (merge a b) = merge' (f a) (f b)) (items : List (κ × ρ)) (tab : κ → Option ρ)
    (k : κ) :
    (items.foldl (upsert merge) tab k).map f =
      settled merge' ((tab k).map f) (rowsAt k (items.map fun i => (i.1, f i.2))) := by
  rw [foldl_upsert_apply, foldl_mergeOpt_eq_settled habsorb hidem, settled_map hf, rowsAt_map]

/-- Replaying a prefix in front of the whole changes nothing. -/
theorem foldl_mergeOpt_replay (habsorb : ∀ a b c, merge (merge a b) c = merge a c)
    (hidem : ∀ a, merge a a = a) (rs rs' : List ρ) (o : Option ρ) :
    (rs ++ rs').foldl (mergeOpt merge) (rs.foldl (mergeOpt merge) o) =
      (rs ++ rs').foldl (mergeOpt merge) o := by
  cases rs with
  | nil => rfl
  | cons r rs =>
      cases o with
      | some a =>
          rw [foldl_mergeOpt_some habsorb, foldl_mergeOpt_some habsorb,
            foldl_mergeOpt_some habsorb]
          simp [List.getLast?_cons, habsorb]
      | none =>
          -- the first row of the replay falls back on the first row there was
          have hback : mergeOpt merge (rs.foldl (mergeOpt merge) (some r)) r = some r := by
            rw [foldl_mergeOpt_some habsorb]
            cases rs.getLast? <;> simp [habsorb, hidem]
          simp only [List.cons_append, List.foldl_cons, mergeOpt_none, hback]

end Merge

/-! ## Adding what is new -/

section AddNew

variable {α κ ρ : Type} [DecidableEq κ] {key : ρ → κ} {build : List ρ → α → ρ} {keyOf : α → κ}

/-- The row is built from the table, and added if its key is not there. -/
def addNew (key : ρ → κ) (build : List ρ → α → ρ) (tab : List ρ) (a : α) : List ρ :=
  if tab.any fun y => key y == key (build tab a) then tab else tab ++ [build tab a]

theorem addNew_of_mem (hkey : ∀ tab a, key (build tab a) = keyOf a) {tab : List ρ} {a : α}
    (h : keyOf a ∈ tab.map key) : addNew key build tab a = tab := by
  obtain ⟨y, hy, hk⟩ := List.mem_map.mp h
  rw [addNew, if_pos]
  rw [List.any_eq_true]
  exact ⟨y, hy, by rw [hkey, hk]; simp⟩

theorem addNew_of_not_mem (hkey : ∀ tab a, key (build tab a) = keyOf a) {tab : List ρ} {a : α}
    (h : keyOf a ∉ tab.map key) : addNew key build tab a = tab ++ [build tab a] := by
  rw [addNew, if_neg]
  rw [List.any_eq_true]
  rintro ⟨y, hy, hk⟩
  rw [hkey, beq_iff_eq] at hk
  exact h (List.mem_map.mpr ⟨y, hy, hk⟩)

theorem foldl_addNew_extends (as : List α) (tab : List ρ) :
    tab <+: as.foldl (addNew key build) tab := by
  induction as generalizing tab with
  | nil => exact List.prefix_refl tab
  | cons a as ih =>
      refine List.IsPrefix.trans ?_ (ih _)
      rw [addNew]
      split
      · exact List.prefix_refl tab
      · exact List.prefix_append _ _

/-- Every key that was asked for is there afterwards. -/
theorem keyOf_mem_foldl_addNew (hkey : ∀ tab a, key (build tab a) = keyOf a) {as : List α}
    {a : α} (ha : a ∈ as) (tab : List ρ) :
    keyOf a ∈ (as.foldl (addNew key build) tab).map key := by
  induction as generalizing tab with
  | nil => cases ha
  | cons b as ih =>
      rcases List.mem_cons.mp ha with rfl | ha
      · have hmem : keyOf a ∈ (addNew key build tab a).map key := by
          by_cases h : keyOf a ∈ tab.map key
          · rwa [addNew_of_mem hkey h]
          · simp [addNew_of_not_mem hkey h, hkey]
        exact ((foldl_addNew_extends as _).map key).subset hmem
      · exact ih ha _

/-- Adding only keys that are there changes nothing. -/
theorem foldl_addNew_of_mem (hkey : ∀ tab a, key (build tab a) = keyOf a) {as : List α}
    {tab : List ρ} (h : ∀ a ∈ as, keyOf a ∈ tab.map key) :
    as.foldl (addNew key build) tab = tab := by
  induction as with
  | nil => rfl
  | cons a as ih =>
      rw [List.foldl_cons, addNew_of_mem hkey (h a List.mem_cons_self)]
      exact ih fun b hb => h b (List.mem_cons_of_mem _ hb)

/-- Replaying a prefix in front of the whole changes nothing. -/
theorem foldl_addNew_replay (hkey : ∀ tab a, key (build tab a) = keyOf a) (as bs : List α)
    (tab : List ρ) :
    (as ++ bs).foldl (addNew key build) (as.foldl (addNew key build) tab) =
      (as ++ bs).foldl (addNew key build) tab := by
  rw [List.foldl_append, List.foldl_append,
    foldl_addNew_of_mem hkey fun a ha => keyOf_mem_foldl_addNew hkey ha tab]

/-- The rows of the items, one behind the other. -/
def pushAll (build : List ρ → α → ρ) (tab : List ρ) (as : List α) : List ρ :=
  as.foldl (fun tab a => tab ++ [build tab a]) tab

/-- What is pushed stands behind the table, a row for each item. -/
theorem pushAll_eq (build : List ρ → α → ρ) (tab : List ρ) (as : List α) :
    ∃ added, pushAll build tab as = tab ++ added ∧
      (∀ row ∈ added, ∃ a ∈ as, ∃ tab', row = build tab' a) ∧
      ∀ {γ : Type} (f : ρ → γ) (g : α → γ), (∀ tab a, f (build tab a) = g a) →
        added.map f = as.map g := by
  induction as generalizing tab with
  | nil => exact ⟨[], by simp [pushAll], by simp, fun _ _ _ => rfl⟩
  | cons a as ih =>
      obtain ⟨added, heq, hrows, hmap⟩ := ih (tab ++ [build tab a])
      refine ⟨build tab a :: added, ?_, fun row hrow => ?_, fun f g hf => ?_⟩
      · rw [pushAll, List.foldl_cons, ← pushAll, heq, List.append_assoc]
        rfl
      · rcases List.mem_cons.mp hrow with rfl | hrow
        · exact ⟨a, List.mem_cons_self, tab, rfl⟩
        · obtain ⟨b, hb, hbuilt⟩ := hrows row hrow
          exact ⟨b, List.mem_cons_of_mem _ hb, hbuilt⟩
      · rw [List.map_cons, List.map_cons, hf, hmap f g hf]

/-- Rows that tell their items tell which items were pushed. -/
theorem pushAll_inj {f : ρ → α} (hf : ∀ tab a, f (build tab a) = a) {tab : List ρ}
    {as bs : List α} (h : pushAll build tab as = pushAll build tab bs) : as = bs := by
  obtain ⟨added, hadded, -, hmap⟩ := pushAll_eq build tab as
  obtain ⟨added', hadded', -, hmap'⟩ := pushAll_eq build tab bs
  rw [hadded, hadded', List.append_cancel_left_eq] at h
  rw [← List.map_id as, ← List.map_id bs, ← hmap f id hf, ← hmap' f id hf, h]

/-- Of the items that come, the first of each new key is pushed. -/
theorem foldl_addNew_firsts (hkey : ∀ tab a, key (build tab a) = keyOf a) {as : List α}
    {tab : List ρ} {seen : List κ} (hseen : ∀ k, k ∈ seen ↔ k ∈ tab.map key) :
    as.foldl (addNew key build) tab = pushAll build tab (firsts keyOf seen as) := by
  induction as generalizing tab seen with
  | nil => rfl
  | cons a as ih =>
      rw [List.foldl_cons, firsts]
      split
      · next ha => rw [addNew_of_mem hkey ((hseen _).mp ha), ih hseen]
      · next ha =>
          rw [addNew_of_not_mem hkey fun hmem => ha ((hseen _).mpr hmem), pushAll, List.foldl_cons]
          refine ih fun k => ?_
          rw [List.map_append, List.mem_append, ← hseen, List.map_singleton, hkey,
            List.mem_singleton, List.mem_cons, or_comm]

/-- Behind the table stand rows of the items, under different keys that it did
not have. -/
theorem foldl_addNew_appends (hkey : ∀ tab a, key (build tab a) = keyOf a) (as : List α)
    (tab : List ρ) :
    ∃ added, as.foldl (addNew key build) tab = tab ++ added ∧
      (∀ row ∈ added, ∃ a ∈ as, ∃ tab', row = build tab' a) ∧
      (added.map key).Nodup ∧ (tab.map key).Disjoint (added.map key) := by
  obtain ⟨added, heq, hrows, hmap⟩ := pushAll_eq build tab (firsts keyOf (tab.map key) as)
  have hkeys : added.map key = (firsts keyOf (tab.map key) as).map keyOf := hmap key keyOf hkey
  refine ⟨added, ?_, fun row hrow => ?_, ?_, ?_⟩
  · rw [foldl_addNew_firsts hkey fun _ => Iff.rfl, heq]
  · obtain ⟨a, ha, hbuilt⟩ := hrows row hrow
    exact ⟨a, (firsts_sublist _ _).subset ha, hbuilt⟩
  · rw [hkeys]
    exact firsts_nodup _ _
  · rw [hkeys]
    intro k hk hnew
    obtain ⟨a, ha, rfl⟩ := List.mem_map.mp hnew
    exact firsts_not_seen ha hk

end AddNew

end Lib
