import Mathlib.Data.Finset.Card
import Cytadel.Kb.Kb
import Cytadel.Proofs.KbAdmits

/-!
# The knowledge base is a finite map

The map is read off the calls alone: a key has the value of the last set that
succeeded. The table follows it through every run, whichever allocations fail.
A set that fails has not touched the table yet; one that succeeds overwrites
the entry of its key or puts a new one at the head of a chain, after the table
may have grown, and growing moves entries without changing which there are.
-/

namespace Cytadel.Kb

open Cytadel Lib

/-! ## The map -/

/-- What a call stored, if it was a set that succeeded. -/
def stored : KbOp × KbReply → Option (Bytes × KbValue)
  | (.setStrN (some key) (some value), .set true) => some (cstr key, .str value)
  | (.setInt (some key) value, .set true) => some (cstr key, .int value)
  | (.setBool (some key) value, .set true) => some (cstr key, .bool value)
  | _ => none

/-- Everything that was stored, in order. -/
def sets (hist : List (KbOp × KbReply)) : List (Bytes × KbValue) := hist.filterMap stored

/-- The value of the last successful set of a key. -/
def lastSet (hist : List (KbOp × KbReply)) (key : Bytes) : Option KbValue :=
  (sets hist).reverse.lookup key

theorem lastSet_append (hist : List (KbOp × KbReply)) (x : KbOp × KbReply) :
    lastSet (hist ++ [x]) =
      match stored x with
      | none => lastSet hist
      | some e => Function.update (lastSet hist) e.1 (some e.2) := by
  funext key
  rw [lastSet, sets, List.filterMap_append]
  cases hx : stored x with
  | none => simp [hx, lastSet, sets]
  | some e =>
      obtain ⟨k, v⟩ := e
      simp only [List.filterMap_cons, hx, List.filterMap_nil, List.reverse_append,
        List.reverse_cons, List.reverse_nil, List.nil_append, List.singleton_append,
        List.lookup_cons]
      by_cases hk : key = k
      · subst hk
        simp
      · have hne : (key == k) = false := beq_eq_false_iff_ne.mpr hk
        rw [Function.update_of_ne hk]
        simp [hne, lastSet, sets]

theorem lookup_isSome_iff {l : List (Bytes × KbValue)} {key : Bytes} :
    (l.lookup key).isSome ↔ key ∈ l.map Prod.fst := by
  induction l with
  | nil => simp
  | cons e l ih =>
      obtain ⟨k, v⟩ := e
      rw [List.lookup_cons, List.map_cons, List.mem_cons]
      by_cases hk : key = k
      · simp [hk]
      · have hne : (key == k) = false := beq_eq_false_iff_ne.mpr hk
        simp [hne, hk, ih]

theorem lastSet_isSome_iff {hist : List (KbOp × KbReply)} {key : Bytes} :
    (lastSet hist key).isSome ↔ key ∈ (sets hist).map Prod.fst := by
  rw [lastSet, lookup_isSome_iff, List.map_reverse, List.mem_reverse]

/-! ## The table -/

/-- A key and a value that the store may hold. -/
structure Admitted (key : Bytes) (value : KbValue) : Prop where
  key : KeyGrammar key
  str : ∀ s, value = .str s → 0 ∉ s ∧ Utf8 s ∧ s.length ≤ kbValueMaxLen

/-- The table holds the map, counts its entries, and holds only what is
admitted. -/
structure KbInv (kb : Kb) (f : Bytes → Option KbValue) : Prop where
  hashed : Chains.Hashed kbIndex kb.buckets
  holds : Chains.Represents kb.buckets f
  counted : kb.entryCount = kb.buckets.flatten.length
  admitted : ∀ key value, f key = some value → Admitted key value

theorem kbCreate_inv : KbInv kbCreate fun _ => none where
  hashed := Chains.Hashed.replicate kbIndex (by decide)
  holds := by
    intro key value
    rw [kbCreate, Chains.flatten_replicate_nil]
    simp
  counted := by
    rw [kbCreate, Chains.flatten_replicate_nil]
    rfl
  admitted := by
    intro key value h
    cases h

variable {kb : Kb} {f : Bytes → Option KbValue} {a : Allocs}

theorem KbInv.find (h : KbInv kb f) (key : Bytes) : kb.find key = f key :=
  h.hashed.find_eq h.holds key

theorem KbInv.growIfNeeded (h : KbInv kb f) (a : Allocs) : KbInv (kb.growIfNeeded a) f := by
  rw [Kb.growIfNeeded]
  split
  · exact h
  · simp only
    split
    · exact h
    · next hcount =>
        split
        · exact h
        · have hpos : 0 < sizeT (kb.buckets.length * 2) := by
            have := h.hashed.pos
            omega
          obtain ⟨hhashed, hperm⟩ := h.hashed.rehash hpos
          exact
            { hashed := hhashed
              holds := Chains.Represents.rehash h.hashed h.holds hpos
              counted := by
                rw [hperm.length_eq]
                exact h.counted
              admitted := h.admitted }

theorem update_admitted (h : ∀ key value, f key = some value → Admitted key value)
    {key : Bytes} {value : KbValue} (hnew : Admitted key value) (key' : Bytes) (value' : KbValue)
    (hf : Function.update f key (some value) key' = some value') : Admitted key' value' := by
  by_cases hk : key' = key
  · subst hk
    rw [Function.update_self] at hf
    cases hf
    exact hnew
  · rw [Function.update_of_ne hk] at hf
    exact h _ _ hf

theorem KbInv.insertNew (h : KbInv kb f) {key : Bytes} {value : KbValue} (hkey : f key = none)
    (hnew : Admitted key value) (hok : (kb.insertNew a key value).1 = true) :
    KbInv (kb.insertNew a key value).2 (Function.update f key (some value)) := by
  rw [Kb.insertNew] at hok ⊢
  split at hok
  · cases hok
  · split at hok
    · cases hok
    · next hentry hcopy =>
        rw [if_neg hentry, if_neg hcopy]
        have hgrown := h.growIfNeeded a
        generalize kb.growIfNeeded a = kb at hgrown
        have hpos := hgrown.hashed.pos
        have hfresh : key ∉ kb.buckets.flatten.map Prod.fst := by
          intro hm
          obtain ⟨e, he, rfl⟩ := List.mem_map.mp hm
          have := (hgrown.holds e.1 e.2).mp he
          rw [hkey] at this
          cases this
        exact
          { hashed := hgrown.hashed.push hfresh value
            holds := Chains.Represents.push hgrown.holds hpos hkey value
            counted := by
              show kb.entryCount + 1 = _
              rw [(Chains.push_perm kbIndex hpos key value).length_eq, List.length_cons,
                hgrown.counted]
            admitted := update_admitted hgrown.admitted hnew }

/-- A value that is stored goes into the map. -/
theorem KbInv.store (h : KbInv kb f) {key : Bytes} {value : KbValue} (hnew : Admitted key value)
    (hok : (kb.store a key value).1 = true) :
    KbInv (kb.store a key value).2 (Function.update f key (some value)) := by
  rw [Kb.store, h.find] at hok ⊢
  cases hf : f key with
  | none =>
      simp only [hf] at hok
      exact h.insertNew hf hnew hok
  | some old =>
      have hkey : (f key).isSome := by rw [hf]; rfl
      exact
        { hashed := h.hashed.overwrite key value
          holds := Chains.Represents.overwrite h.hashed h.holds hkey value
          counted := by
            show kb.entryCount = _
            rw [h.counted, ← List.length_map Prod.fst, ← List.length_map Prod.fst,
              Chains.overwrite_keys]
          admitted := update_admitted h.admitted hnew }

theorem store_failed {key : Bytes} {value : KbValue} (hok : (kb.store a key value).1 = false) :
    (kb.store a key value).2 = kb := by
  rw [Kb.store] at hok ⊢
  split at hok
  · rw [Kb.insertNew] at hok ⊢
    split at hok
    · next hentry => rw [if_pos hentry]
    · next hentry =>
        rw [if_neg hentry]
        split at hok
        · next hcopy => rw [if_pos hcopy]
        · cases hok
  · cases hok

theorem store_all (key : Bytes) (value : KbValue) :
    (kb.store .all key value).1 = true := by
  rw [Kb.store]
  split
  · rfl
  · rfl

/-! ## The calls -/

theorem setStrN_cases (kb : Kb) (a : Allocs) (key value : Option Bytes) :
    (kb.setStrN a key value = (false, kb) ∧
      (a = .all → ∀ k v, key = some k → value = some v → ¬ Admitted (cstr k) (.str v))) ∨
    (∃ k v, key = some k ∧ value = some v ∧ Admitted (cstr k) (.str v) ∧
      kb.setStrN a key value = kb.store a (cstr k) (.str v)) := by
  unfold Kb.setStrN
  cases key with
  | none => exact Or.inl ⟨rfl, fun _ k v hk => by cases hk⟩
  | some key =>
      by_cases hkey : validateKey (some key) = true
      · simp only [hkey, Bool.not_true, Bool.false_eq_true, if_false]
        cases value with
        | none => exact Or.inl ⟨rfl, fun _ k v _ hv => by cases hv⟩
        | some value =>
            by_cases hlen : value.length > kbValueMaxLen
            · refine Or.inl ⟨if_pos hlen, ?_⟩
              rintro - k v - ⟨rfl⟩ hadm
              exact absurd (hadm.str _ rfl).2.2 (Nat.not_le.mpr hlen)
            · simp only [if_neg hlen]
              by_cases hnul : validateNoEmbeddedNul value = true
              · simp only [hnul, Bool.not_true, Bool.false_eq_true, if_false]
                by_cases hutf : validateUtf8 value = true
                · simp only [hutf, Bool.not_true, Bool.false_eq_true, if_false]
                  cases hcopy : a.copy with
                  | false =>
                      refine Or.inl ⟨rfl, ?_⟩
                      rintro rfl
                      cases hcopy
                  | true =>
                      refine Or.inr ⟨key, value, rfl, rfl, ⟨(validateKey_iff key).mp hkey, ?_⟩, rfl⟩
                      rintro s ⟨rfl⟩
                      exact ⟨(validateNoEmbeddedNul_iff value).mp hnul,
                        (validateUtf8_iff value).mp hutf, Nat.not_lt.mp hlen⟩
                · refine Or.inl ⟨by simp [hutf], ?_⟩
                  rintro - k v - ⟨rfl⟩ hadm
                  exact hutf ((validateUtf8_iff value).mpr (hadm.str _ rfl).2.1)
              · refine Or.inl ⟨by simp [hnul], ?_⟩
                rintro - k v - ⟨rfl⟩ hadm
                exact hnul ((validateNoEmbeddedNul_iff value).mpr (hadm.str _ rfl).1)
      · refine Or.inl ⟨by simp [hkey], ?_⟩
        rintro - k v ⟨rfl⟩ - hadm
        exact hkey ((validateKey_iff key).mpr hadm.key)

theorem setScalar_cases (kb : Kb) (a : Allocs) (key : Option Bytes) (value : KbValue)
    (hscalar : ∀ s, value ≠ .str s) :
    (kb.setScalar a key value = (false, kb) ∧ ∀ k, key = some k → ¬ Admitted (cstr k) value) ∨
    (∃ k, key = some k ∧ Admitted (cstr k) value ∧
      kb.setScalar a key value = kb.store a (cstr k) value) := by
  unfold Kb.setScalar
  cases key with
  | none => exact Or.inl ⟨rfl, fun k hk => by cases hk⟩
  | some key =>
      by_cases hkey : validateKey (some key) = true
      · refine Or.inr ⟨key, rfl, ⟨(validateKey_iff key).mp hkey, ?_⟩, by simp [hkey]⟩
        intro s hs
        exact absurd hs (hscalar s)
      · refine Or.inl ⟨by simp [hkey], ?_⟩
        rintro k ⟨rfl⟩ hadm
        exact hkey ((validateKey_iff key).mpr hadm.key)

/-- What a set asks to store. -/
def KbOp.request : KbOp → Option (Option Bytes × Option KbValue)
  | .setStrN key value => some (key, value.map .str)
  | .setInt key value => some (key, some (.int value))
  | .setBool key value => some (key, some (.bool value))
  | _ => none

/-- The set asks for something that the store admits. -/
def KbOp.Admissible (op : KbOp) : Prop :=
  ∃ key value, op.request = some (some key, some value) ∧ Admitted (cstr key) value

/-- A set stores what it asks for or fails before it touches the table, and if
no allocation fails it fails only for what is not admitted. -/
theorem step_set (kb : Kb) (a : Allocs) {op : KbOp} {r : Option Bytes × Option KbValue}
    (h : op.request = some r) :
    (kb.step op a = (.set false, kb) ∧ (a = .all → ¬ op.Admissible)) ∨
    (∃ key value, Admitted (cstr key) value ∧ stored (op, .set true) = some (cstr key, value) ∧
      kb.step op a = (.set (kb.store a (cstr key) value).1, (kb.store a (cstr key) value).2)) := by
  have hnot : ∀ {k : Option Bytes} {v : Option KbValue}, op.request = some (k, v) →
      (∀ k' v', k = some k' → v = some v' → ¬ Admitted (cstr k') v') → ¬ op.Admissible := by
    rintro k v hreq hno ⟨k', v', hreq', hadm⟩
    rw [hreq] at hreq'
    cases hreq'
    exact hno k' v' rfl rfl hadm
  cases op with
  | setStrN key value =>
      rcases setStrN_cases kb a key value with ⟨hfail, hno⟩ | ⟨k, v, rfl, rfl, hadm, hstore⟩
      · refine Or.inl ⟨by rw [Kb.step, hfail]; rfl, fun ha => hnot rfl ?_⟩
        rintro k v hk hv
        obtain ⟨s, hs, rfl⟩ := Option.map_eq_some_iff.mp hv
        exact hno ha k s hk hs
      · exact Or.inr ⟨k, .str v, hadm, rfl, by rw [Kb.step, hstore]; rfl⟩
  | setInt key value =>
      rcases setScalar_cases kb a key (.int value) (by simp) with
        ⟨hfail, hno⟩ | ⟨k, rfl, hadm, hstore⟩
      · refine Or.inl ⟨by rw [Kb.step, Kb.setInt, hfail]; rfl, fun _ => hnot rfl ?_⟩
        rintro k v hk ⟨rfl⟩
        exact hno k hk
      · exact Or.inr ⟨k, .int value, hadm, rfl, by rw [Kb.step, Kb.setInt, hstore]; rfl⟩
  | setBool key value =>
      rcases setScalar_cases kb a key (.bool value) (by simp) with
        ⟨hfail, hno⟩ | ⟨k, rfl, hadm, hstore⟩
      · refine Or.inl ⟨by rw [Kb.step, Kb.setBool, hfail]; rfl, fun _ => hnot rfl ?_⟩
        rintro k v hk ⟨rfl⟩
        exact hno k hk
      · exact Or.inr ⟨k, .bool value, hadm, rfl, by rw [Kb.step, Kb.setBool, hstore]; rfl⟩
  | get key => cases h
  | getStr key => cases h
  | foreach => cases h
  | count => cases h

theorem step_read (kb : Kb) (a : Allocs) {op : KbOp} (h : op.request = none) :
    (kb.step op a).2 = kb ∧ ∀ reply, stored (op, reply) = none := by
  cases op with
  | setStrN key value => cases h
  | setInt key value => cases h
  | setBool key value => cases h
  | get key => exact ⟨rfl, fun _ => rfl⟩
  | getStr key => exact ⟨rfl, fun _ => rfl⟩
  | foreach => exact ⟨rfl, fun _ => rfl⟩
  | count => exact ⟨rfl, fun _ => rfl⟩

theorem stored_failed (op : KbOp) : stored (op, .set false) = none := by
  rw [stored.eq_def]
  split
  · next heq => cases heq
  · next heq => cases heq
  · next heq => cases heq
  · rfl

/-- One call keeps the table and the map together. -/
theorem step_inv {hist : List (KbOp × KbReply)} (h : KbInv kb (lastSet hist)) (op : KbOp)
    (a : Allocs) :
    KbInv (kb.step op a).2 (lastSet (hist ++ [(op, (kb.step op a).1)])) := by
  rw [lastSet_append]
  cases hreq : op.request with
  | none =>
      obtain ⟨hkb, hstored⟩ := step_read kb a hreq
      rw [hkb, hstored]
      exact h
  | some r =>
      rcases step_set kb a hreq with ⟨hfail, -⟩ | ⟨key, value, hadm, hstored, hstep⟩
      · rw [hfail, stored_failed]
        exact h
      · rw [hstep]
        simp only
        cases hok : (kb.store a (cstr key) value).1 with
        | true =>
            rw [hstored]
            exact h.store hadm hok
        | false =>
            rw [stored_failed, store_failed hok]
            exact h

theorem kbRun_append (steps : List (KbOp × Allocs)) (st : KbOp × Allocs) :
    kbRun (steps ++ [st]) =
      ((kbRun steps).1 ++ [(st.1, ((kbRun steps).2.step st.1 st.2).1)],
        ((kbRun steps).2.step st.1 st.2).2) := by
  rw [kbRun, List.foldl_append]
  rfl

/-- A whole run does. -/
theorem kbRun_inv (steps : List (KbOp × Allocs)) :
    KbInv (kbRun steps).2 (lastSet (kbRun steps).1) := by
  induction steps using List.reverseRecOn with
  | nil => exact kbCreate_inv
  | append_singleton steps st ih =>
      rw [kbRun_append]
      exact step_inv ih st.1 st.2

/-! ## The refinement -/

/-- The table answers as the finite map of the calls so far does. -/
structure RefinesMap (hist : List (KbOp × KbReply)) (kb : Kb) : Prop where
  /-- A get answers the typed value of the last successful set. -/
  get : ∀ key, KeyGrammar (cstr key) →
    kb.get (some key) = (lastSet hist (cstr key)).elim .notFound .found
  get_invalid : kb.get none = .invalidKey ∧
    ∀ key, ¬ KeyGrammar (cstr key) → kb.get (some key) = .invalidKey
  getStr : ∀ key s, kb.getStr (some key) = some s ↔ lastSet hist (cstr key) = some (.str s)
  /-- A set that fails leaves the whole table, and with it every later answer. -/
  set_failed : ∀ op a, (kb.step op a).1 = .set false → (kb.step op a).2 = kb
  /-- An admitted set fails only for want of memory. -/
  set_ok : ∀ op, op.Admissible → (kb.step op .all).1 = .set true
  /-- Reading changes nothing. -/
  read : ∀ op a, op.request = none → (kb.step op a).2 = kb
  /-- Every stored key is visited once, with its value. -/
  foreach : (kb.foreach.map Prod.fst).Nodup ∧
    ∀ key value, (key, value) ∈ kb.foreach ↔ lastSet hist key = some value
  count : kb.count = ((sets hist).map Prod.fst).toFinset.card
  admitted : ∀ key value, (key, value) ∈ kb.foreach → Admitted key value

theorem KbInv.get (h : KbInv kb f) {key : Bytes} (hkey : KeyGrammar (cstr key)) :
    kb.get (some key) = (f (cstr key)).elim .notFound .found := by
  have hval := (validateKey_iff key).mpr hkey
  rw [Kb.get]
  simp only [hval, Bool.not_true, Bool.false_eq_true, if_false, h.find]
  cases f (cstr key) with
  | none => rfl
  | some value => rfl

theorem get_invalid (kb : Kb) {key : Bytes} (hkey : ¬ KeyGrammar (cstr key)) :
    kb.get (some key) = .invalidKey := by
  have hval : validateKey (some key) = false := by
    rw [← Bool.not_eq_true, validateKey_iff]
    exact hkey
  rw [Kb.get]
  simp [hval]

theorem KbInv.getStr (h : KbInv kb f) (key s : Bytes) :
    kb.getStr (some key) = some s ↔ f (cstr key) = some (.str s) := by
  rw [Kb.getStr]
  by_cases hkey : KeyGrammar (cstr key)
  · rw [h.get hkey]
    cases hf : f (cstr key) with
    | none => simp
    | some value => cases value <;> simp
  · rw [get_invalid kb hkey]
    constructor
    · intro hn
      cases hn
    · intro hf
      exact absurd (h.admitted _ _ hf).key hkey

/-- The number of entries is that of the keys the map has. -/
theorem KbInv.count {hist : List (KbOp × KbReply)} (h : KbInv kb (lastSet hist)) :
    kb.count = ((sets hist).map Prod.fst).toFinset.card := by
  have hkeys : ((sets hist).map Prod.fst).toFinset =
      (kb.buckets.flatten.map Prod.fst).toFinset := by
    ext key
    rw [List.mem_toFinset, List.mem_toFinset, ← lastSet_isSome_iff, Option.isSome_iff_exists,
      List.mem_map]
    constructor
    · rintro ⟨value, hv⟩
      exact ⟨(key, value), (h.holds key value).mpr hv, rfl⟩
    · rintro ⟨e, he, rfl⟩
      exact ⟨e.2, (h.holds e.1 e.2).mp he⟩
  rw [hkeys, List.toFinset_card_of_nodup h.hashed.nodup, List.length_map]
  exact h.counted

/-- Whatever calls are made and whichever allocations fail, the table is the
finite map of the successful sets. -/
theorem kb_refines_map (steps : List (KbOp × Allocs)) :
    RefinesMap (kbRun steps).1 (kbRun steps).2 := by
  have h := kbRun_inv steps
  generalize (kbRun steps).1 = hist at h
  generalize (kbRun steps).2 = kb at h
  exact
    { get := fun key hkey => h.get hkey
      get_invalid := ⟨rfl, fun key hkey => get_invalid kb hkey⟩
      getStr := h.getStr
      set_failed := by
        intro op a hfail
        cases hreq : op.request with
        | none => exact (step_read kb a hreq).1
        | some r =>
            rcases step_set kb a hreq with ⟨hstep, -⟩ | ⟨key, value, -, -, hstep⟩
            · rw [hstep]
            · rw [hstep] at hfail ⊢
              exact store_failed (by simpa using hfail)
      set_ok := by
        intro op hadm
        obtain ⟨key, value, hreq, -⟩ := id hadm
        rcases step_set kb .all hreq with ⟨-, hno⟩ | ⟨key', value', -, -, hstep⟩
        · exact absurd hadm (hno rfl)
        · rw [hstep, store_all]
      read := fun op a hreq => (step_read kb a hreq).1
      foreach := ⟨h.hashed.nodup, h.holds⟩
      count := h.count
      admitted := fun key value hm => h.admitted key value ((h.holds key value).mp hm) }

end Cytadel.Kb
