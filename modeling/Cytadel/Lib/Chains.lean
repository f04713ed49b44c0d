import Mathlib.Data.List.Perm.Basic
import Mathlib.Data.List.Nodup
import Mathlib.Logic.Function.Basic

/-!
# Chained hash tables

A table is a list of chains, and an entry for a key lives in the chain that
the hash of the key picks. A new entry goes to the head of its chain, an entry
that exists is overwritten where it is, and growing moves all entries one by
one to the heads of the chains of a larger table.

Which entries a table holds is its chains laid end to end. A table that is
`Hashed` holds no key twice and every entry in the chain it is looked for in,
so that a lookup is membership, and every operation is known by what it does
to the map that the table `Represents`.
-/

namespace Lib.Chains

variable {κ α : Type}

/-- The chain that the hash of a key picks. -/
def chainOf (hash : κ → ℕ) (t : List (List (κ × α))) (k : κ) : List (κ × α) :=
  t.getD (hash k % t.length) []

/-- The entry of a key, by a walk of its chain. -/
def find [DecidableEq κ] (hash : κ → ℕ) (t : List (List (κ × α))) (k : κ) : Option α :=
  (chainOf hash t k).lookup k

/-- A new entry, at the head of its chain. -/
def push (hash : κ → ℕ) (t : List (List (κ × α))) (k : κ) (v : α) : List (List (κ × α)) :=
  t.modify (hash k % t.length) fun chain => (k, v) :: chain

/-- The first entry of the key in a chain, overwritten. -/
def overwriteIn [DecidableEq κ] (k : κ) (v : α) : List (κ × α) → List (κ × α)
  | [] => []
  | e :: chain => if e.1 = k then (k, v) :: chain else e :: overwriteIn k v chain

/-- The entry of a key, overwritten in place. -/
def overwrite [DecidableEq κ] (hash : κ → ℕ) (t : List (List (κ × α))) (k : κ) (v : α) :
    List (List (κ × α)) :=
  t.modify (hash k % t.length) (overwriteIn k v)

/-- Every entry moved to a table of `n` chains, in the order of a walk. -/
def rehash (hash : κ → ℕ) (n : ℕ) (t : List (List (κ × α))) : List (List (κ × α)) :=
  t.flatten.foldl (fun t e => push hash t e.1 e.2) (List.replicate n [])

/-- Every entry is in the chain of its hash, and no key is there twice. -/
structure Hashed (hash : κ → ℕ) (t : List (List (κ × α))) : Prop where
  pos : 0 < t.length
  placed : ∀ i chain, t[i]? = some chain → ∀ e ∈ chain, hash e.1 % t.length = i
  nodup : (t.flatten.map Prod.fst).Nodup

/-- The table holds the pairs of the map. -/
def Represents (t : List (List (κ × α))) (f : κ → Option α) : Prop :=
  ∀ k v, (k, v) ∈ t.flatten ↔ f k = some v

variable {hash : κ → ℕ} {t : List (List (κ × α))} {f : κ → Option α}

/-! ## Lookup -/

theorem lookup_eq_some_iff [DecidableEq κ] {l : List (κ × α)} (h : (l.map Prod.fst).Nodup)
    {k : κ} {v : α} :
    l.lookup k = some v ↔ (k, v) ∈ l := by
  induction l with
  | nil => simp
  | cons e l ih =>
      obtain ⟨k', v'⟩ := e
      rw [List.map_cons, List.nodup_cons] at h
      rw [List.lookup_cons, List.mem_cons, Prod.mk.injEq]
      by_cases hk : k = k'
      · subst hk
        have hnot : (k, v) ∉ l := fun hm => h.1 (List.mem_map.mpr ⟨_, hm, rfl⟩)
        simp [hnot, eq_comm]
      · have hne : (k == k') = false := beq_eq_false_iff_ne.mpr hk
        simp [hne, hk, ih h.2]

theorem Hashed.chain_nodup (h : Hashed hash t) {chain : List (κ × α)} (hc : chain ∈ t) :
    (chain.map Prod.fst).Nodup :=
  h.nodup.sublist (List.Sublist.map _ (List.sublist_flatten_of_mem hc))

theorem getElem?_chainOf (hash : κ → ℕ) (ht : 0 < t.length) (k : κ) :
    t[hash k % t.length]? = some (chainOf hash t k) := by
  have hlt : hash k % t.length < t.length := Nat.mod_lt _ ht
  rw [chainOf, List.getD_eq_getElem?_getD, List.getElem?_eq_getElem hlt]
  rfl

theorem chainOf_mem (hash : κ → ℕ) (ht : 0 < t.length) (k : κ) : chainOf hash t k ∈ t :=
  List.mem_of_getElem? (getElem?_chainOf hash ht k)

/-- The chain a key is looked for in holds all entries of the key. -/
theorem Hashed.mem_flatten_iff (h : Hashed hash t) {k : κ} {v : α} :
    (k, v) ∈ t.flatten ↔ (k, v) ∈ chainOf hash t k := by
  constructor
  · intro hm
    obtain ⟨chain, hc, hm⟩ := List.mem_flatten.mp hm
    obtain ⟨i, hi⟩ := List.getElem?_of_mem hc
    have hidx := h.placed i chain hi _ hm
    have hchain := getElem?_chainOf hash h.pos k
    rw [show hash k % t.length = i from hidx, hi] at hchain
    rw [← Option.some.inj hchain]
    exact hm
  · intro hm
    exact List.mem_flatten.mpr ⟨_, chainOf_mem hash h.pos k, hm⟩

theorem Hashed.find_eq_some_iff [DecidableEq κ] (h : Hashed hash t) {k : κ} {v : α} :
    find hash t k = some v ↔ (k, v) ∈ t.flatten := by
  rw [find, h.mem_flatten_iff]
  exact lookup_eq_some_iff (h.chain_nodup (chainOf_mem hash h.pos k))

/-- A lookup reads the map. -/
theorem Hashed.find_eq [DecidableEq κ] (h : Hashed hash t) (hf : Represents t f) (k : κ) :
    find hash t k = f k := by
  apply Option.ext
  intro v
  rw [h.find_eq_some_iff, hf k v]

/-! ## A new entry -/

theorem flatten_modify_perm (t : List (List (κ × α))) {i : ℕ} (hi : i < t.length) (e : κ × α) :
    (t.modify i fun chain => e :: chain).flatten.Perm (e :: t.flatten) := by
  induction t generalizing i with
  | nil => exact absurd hi (Nat.not_lt_zero _)
  | cons chain t ih =>
      cases i with
      | zero => simp
      | succ i =>
          rw [List.modify_succ_cons, List.flatten_cons, List.flatten_cons]
          have hlt : i < t.length := Nat.lt_of_succ_lt_succ hi
          exact ((ih hlt).append_left chain).trans List.perm_middle

theorem push_perm (hash : κ → ℕ) (ht : 0 < t.length) (k : κ) (v : α) :
    (push hash t k v).flatten.Perm ((k, v) :: t.flatten) :=
  flatten_modify_perm t (Nat.mod_lt _ ht) (k, v)

@[simp] theorem push_length (k : κ) (v : α) : (push hash t k v).length = t.length := by
  simp [push]

theorem Hashed.push (h : Hashed hash t) {k : κ} (hk : k ∉ t.flatten.map Prod.fst) (v : α) :
    Hashed hash (push hash t k v) where
  pos := by
    rw [push_length]
    exact h.pos
  placed := by
    intro i chain hi e he
    rw [push_length]
    rw [Chains.push, List.getElem?_modify] at hi
    obtain ⟨old, hold, rfl⟩ := Option.map_eq_some_iff.mp hi
    split at he
    · next hidx =>
        rcases List.mem_cons.mp he with rfl | he
        · exact hidx
        · exact h.placed i old hold e he
    · exact h.placed i old hold e he
  nodup := by
    have hperm := ((push_perm hash h.pos k v).map Prod.fst).nodup_iff
    rw [hperm, List.map_cons, List.nodup_cons]
    exact ⟨hk, h.nodup⟩

theorem Represents.push [DecidableEq κ] (hf : Represents t f) (ht : 0 < t.length) {k : κ}
    (hk : f k = none) (v : α) : Represents (push hash t k v) (Function.update f k (some v)) := by
  intro k' v'
  rw [(push_perm hash ht k v).mem_iff, List.mem_cons, Prod.mk.injEq]
  by_cases hkk : k' = k
  · subst hkk
    rw [Function.update_self, hf k' v', hk]
    simp [eq_comm]
  · rw [Function.update_of_ne hkk, hf k' v']
    simp [hkk]

/-! ## An entry that exists -/

theorem overwriteIn_keys [DecidableEq κ] (k : κ) (v : α) (chain : List (κ × α)) :
    (overwriteIn k v chain).map Prod.fst = chain.map Prod.fst := by
  induction chain with
  | nil => rfl
  | cons e chain ih =>
      rw [overwriteIn]
      split
      · next he => simp [he]
      · simp [ih]

theorem mem_overwriteIn [DecidableEq κ] {k : κ} {v : α} {chain : List (κ × α)}
    (h : (chain.map Prod.fst).Nodup) {e : κ × α} :
    e ∈ overwriteIn k v chain ↔
      (e ∈ chain ∧ e.1 ≠ k) ∨ (e = (k, v) ∧ k ∈ chain.map Prod.fst) := by
  induction chain with
  | nil => simp [overwriteIn]
  | cons e' chain ih =>
      rw [List.map_cons, List.nodup_cons] at h
      rw [overwriteIn]
      split
      · next he =>
          subst he
          have hne : e ∈ chain → e.1 ≠ e'.1 := fun hm heq =>
            h.1 (heq ▸ List.mem_map_of_mem hm)
          have hself : e = e' → e.1 = e'.1 := congrArg Prod.fst
          simp only [List.mem_cons, List.map_cons, true_or, and_true]
          tauto
      · next he =>
          have hself : e = e' → e.1 ≠ k := fun heq => heq ▸ he
          have hk : ¬ k = e'.1 := fun heq => he heq.symm
          simp only [List.mem_cons, ih h.2, List.map_cons, hk, false_or]
          tauto

@[simp] theorem overwrite_length [DecidableEq κ] (k : κ) (v : α) :
    (overwrite hash t k v).length = t.length := by
  simp [overwrite]

theorem overwrite_keys [DecidableEq κ] (k : κ) (v : α) :
    (overwrite hash t k v).flatten.map Prod.fst = t.flatten.map Prod.fst := by
  rw [overwrite, List.map_flatten, List.map_flatten]
  congr 1
  apply List.ext_getElem?
  intro i
  rw [List.getElem?_map, List.getElem?_map, List.getElem?_modify]
  cases t[i]? with
  | none => rfl
  | some chain =>
      split
      · exact congrArg some (overwriteIn_keys k v chain)
      · rfl

theorem Hashed.overwrite [DecidableEq κ] (h : Hashed hash t) (k : κ) (v : α) :
    Hashed hash (overwrite hash t k v) where
  pos := by
    rw [overwrite_length]
    exact h.pos
  placed := by
    intro i chain hi e he
    rw [overwrite_length]
    rw [Chains.overwrite, List.getElem?_modify] at hi
    obtain ⟨old, hold, rfl⟩ := Option.map_eq_some_iff.mp hi
    split at he
    · have hkey : e.1 ∈ old.map Prod.fst := by
        rw [← overwriteIn_keys k v old]
        exact List.mem_map_of_mem he
      obtain ⟨e', he', heq⟩ := List.mem_map.mp hkey
      rw [← heq]
      exact h.placed i old hold e' he'
    · exact h.placed i old hold e he
  nodup := by
    rw [overwrite_keys]
    exact h.nodup

theorem chainOf_overwrite [DecidableEq κ] (ht : 0 < t.length) (k k' : κ) (v : α) :
    chainOf hash (overwrite hash t k v) k' =
      if hash k % t.length = hash k' % t.length then overwriteIn k v (chainOf hash t k')
      else chainOf hash t k' := by
  have hnew : 0 < (overwrite hash t k v).length := by
    rw [overwrite_length]
    exact ht
  have hchain := getElem?_chainOf hash hnew k'
  rw [overwrite_length, overwrite, List.getElem?_modify, getElem?_chainOf hash ht k'] at hchain
  exact (Option.some.inj hchain).symm

theorem Represents.overwrite [DecidableEq κ] (h : Hashed hash t) (hf : Represents t f) {k : κ}
    (hk : (f k).isSome) (v : α) :
    Represents (overwrite hash t k v) (Function.update f k (some v)) := by
  intro k' v'
  have hold : ∀ w, (k', w) ∈ chainOf hash t k' ↔ f k' = some w := by
    intro w
    rw [← hf k' w, h.mem_flatten_iff]
  have hmem := mem_overwriteIn (k := k) (v := v) (e := (k', v'))
    (h.chain_nodup (chainOf_mem hash h.pos k'))
  rw [(h.overwrite k v).mem_flatten_iff, chainOf_overwrite h.pos]
  by_cases hkk : k' = k
  · subst hkk
    obtain ⟨w, hw⟩ := Option.isSome_iff_exists.mp hk
    have hkey : k' ∈ (chainOf hash t k').map Prod.fst :=
      List.mem_map.mpr ⟨_, (hold w).mpr hw, rfl⟩
    rw [Function.update_self, if_pos rfl, hmem]
    simp [hkey, eq_comm]
  · rw [Function.update_of_ne hkk, ← hold v']
    split
    · rw [hmem]
      simp [hkk]
    · rfl

/-! ## Growing -/

theorem flatten_replicate_nil (n : ℕ) :
    (List.replicate n ([] : List (κ × α))).flatten = [] := by
  rw [List.flatten_eq_nil_iff]
  intro chain hc
  exact List.eq_of_mem_replicate hc

theorem Hashed.replicate (hash : κ → ℕ) {n : ℕ} (hn : 0 < n) :
    Hashed hash (List.replicate n ([] : List (κ × α))) where
  pos := by
    rw [List.length_replicate]
    exact hn
  placed := by
    intro i chain hi e he
    rw [List.eq_of_mem_replicate (List.mem_of_getElem? hi)] at he
    cases he
  nodup := by
    rw [flatten_replicate_nil]
    exact List.nodup_nil

/-- The walk that moves the entries, from any table the moved ones are not
in yet. -/
theorem Hashed.foldl_push (es : List (κ × α)) (t : List (List (κ × α))) (h : Hashed hash t)
    (hnodup : ((t.flatten ++ es).map Prod.fst).Nodup) :
    Hashed hash (es.foldl (fun t e => Chains.push hash t e.1 e.2) t) ∧
      (es.foldl (fun t e => Chains.push hash t e.1 e.2) t).flatten.Perm (t.flatten ++ es) := by
  induction es generalizing t with
  | nil =>
      rw [List.append_nil]
      exact ⟨h, List.Perm.refl _⟩
  | cons e es ih =>
      have hmoved : (Chains.push hash t e.1 e.2).flatten ++ es |>.Perm (t.flatten ++ e :: es) :=
        ((push_perm hash h.pos e.1 e.2).append_right es).trans List.perm_middle.symm
      have hkey : e.1 ∉ t.flatten.map Prod.fst := by
        rw [List.map_append, List.map_cons] at hnodup
        intro hm
        exact (List.nodup_append.mp hnodup).2.2 _ hm _ List.mem_cons_self rfl
      obtain ⟨hh, hp⟩ := ih _ (h.push hkey e.2) ((hmoved.map _).nodup_iff.mpr hnodup)
      exact ⟨hh, hp.trans hmoved⟩

theorem Hashed.rehash (h : Hashed hash t) {n : ℕ} (hn : 0 < n) :
    Hashed hash (rehash hash n t) ∧ (Chains.rehash hash n t).flatten.Perm t.flatten := by
  have hstart : (((List.replicate n ([] : List (κ × α))).flatten ++ t.flatten).map
      Prod.fst).Nodup := by
    rw [flatten_replicate_nil, List.nil_append]
    exact h.nodup
  have hmove := Hashed.foldl_push t.flatten _ (Hashed.replicate hash hn) hstart
  rw [flatten_replicate_nil, List.nil_append] at hmove
  exact hmove

/-- Moving the entries leaves the map. -/
theorem Represents.rehash (h : Hashed hash t) (hf : Represents t f) {n : ℕ} (hn : 0 < n) :
    Represents (rehash hash n t) f := by
  intro k v
  rw [(h.rehash hn).2.mem_iff]
  exact hf k v

end Lib.Chains
