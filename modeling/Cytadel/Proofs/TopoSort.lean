import Mathlib.Data.List.Count
import Cytadel.Lib.Dependencies
import Cytadel.Plugin.DepGraph

/-!
# The topological sort of the plugins

A counter is the number of dependencies, duplicates included, that name no
placed node. That is kept by every turn of the loop: the node that is placed is
subtracted as often as it was counted. So a node is ready exactly when all that
it depends on is placed, the order is the greedy one of `Lib.Dependencies`, and
where it stalls the nodes left over are those from which a cycle is reachable.
-/

namespace Cytadel.Plugin

open Cytadel Lib Relation

/-- The node `i` has a dependency that names the node `j`. -/
def DependsOn (nodes : List DepNode) (i j : Fin nodes.length) : Prop :=
  (nodes.get j).scriptId ∈ (nodes.get i).deps

/-- Every dependency names a node. -/
def Resolved (nodes : List DepNode) : Prop :=
  ∀ i, ∀ dep ∈ (nodes.get i).deps, ∃ j, (nodes.get j).scriptId = dep

def DistinctIds (nodes : List DepNode) : Prop := (nodes.map DepNode.scriptId).Nodup

variable {nodes : List DepNode}

theorem DistinctIds.inj (h : DistinctIds nodes) {i j : Fin nodes.length}
    (hid : (nodes.get i).scriptId = (nodes.get j).scriptId) : i = j := by
  have hinj := List.nodup_iff_injective_get.mp h
  have hmap : ∀ k : Fin nodes.length, (nodes.map DepNode.scriptId).get
      ⟨k, by rw [List.length_map]; exact k.isLt⟩ = (nodes.get k).scriptId := by
    intro k
    simp
  have heq := hinj ((hmap i).trans (hid.trans (hmap j).symm))
  exact Fin.ext (Fin.mk.inj heq)

/-! ## The check of the edges -/

theorem depgraphFindIndex_isNone (scriptId : Int64) :
    (depgraphFindIndex nodes scriptId).isNone ↔ ∀ j, (nodes.get j).scriptId ≠ scriptId := by
  rw [depgraphFindIndex, Option.isNone_iff_eq_none, List.find?_eq_none]
  simp

theorem missingEdge_eq_none : missingEdge nodes = none ↔ Resolved nodes := by
  rw [missingEdge, List.findSome?_eq_none_iff]
  simp only [List.mem_finRange, forall_const, Option.map_eq_none_iff, List.find?_eq_none,
    depgraphFindIndex_isNone, Resolved]
  push Not
  rfl

/-- The reported edge is one that leads to no node. -/
theorem missingEdge_eq_some {i : Fin nodes.length} {dep : Int64}
    (h : missingEdge nodes = some (i, dep)) :
    dep ∈ (nodes.get i).deps ∧ ∀ j, (nodes.get j).scriptId ≠ dep := by
  obtain ⟨i', -, hi'⟩ := List.exists_of_findSome?_eq_some h
  obtain ⟨dep', hfind, heq⟩ := Option.map_eq_some_iff.mp hi'
  obtain ⟨rfl, rfl⟩ := Prod.mk.inj heq
  have hnone := List.find?_some hfind
  exact ⟨List.mem_of_find?_eq_some hfind, (depgraphFindIndex_isNone _).mp hnone⟩

/-! ## The counters -/

theorem lowerInDegree_eq (scriptId : Int64) (deps : List Int64) (k : ℕ) :
    lowerInDegree scriptId deps (k + deps.count scriptId) = some k := by
  induction deps generalizing k with
  | nil => rfl
  | cons dep deps ih =>
      rw [lowerInDegree, List.count_cons]
      by_cases hdep : dep = scriptId
      · subst hdep
        simp only [beq_self_eq_true, if_true]
        rw [if_neg (by omega), ← Nat.add_assoc, Nat.add_sub_cancel]
        exact ih k
      · simp only [beq_iff_eq, hdep, if_false]
        exact ih k

/-- The loop over the nodes lowers the counters of those that are not placed. -/
theorem lowerInDegrees_eq {ready : Fin nodes.length} {placed : Fin nodes.length → Bool}
    {is : List (Fin nodes.length)} (hnodup : is.Nodup) {inDegree inDegree' : Fin nodes.length → ℕ}
    (hlower : ∀ i ∈ is, placed i = false →
      inDegree i = inDegree' i + (nodes.get i).deps.count (nodes.get ready).scriptId)
    (hkeep : ∀ i, (i ∉ is ∨ placed i = true) → inDegree i = inDegree' i) :
    lowerInDegrees nodes ready placed is inDegree = some inDegree' := by
  induction is generalizing inDegree with
  | nil =>
      rw [lowerInDegrees]
      exact congrArg some (funext fun i => hkeep i (Or.inl List.not_mem_nil))
  | cons i is ih =>
      obtain ⟨hi, hnodup⟩ := List.nodup_cons.mp hnodup
      rw [lowerInDegrees]
      cases hplaced : placed i with
      | true =>
          rw [if_pos rfl]
          refine ih hnodup (fun j hj => hlower j (List.mem_cons_of_mem _ hj)) fun j hj => ?_
          by_cases hji : j = i
          · rw [hji]
            exact hkeep i (Or.inr hplaced)
          · refine hkeep j (hj.imp_left fun hj => ?_)
            exact List.not_mem_cons_of_ne_of_not_mem hji hj
      | false =>
          rw [if_neg (by simp), hlower i List.mem_cons_self hplaced, lowerInDegree_eq]
          refine ih hnodup (fun j hj hpj => ?_) fun j hj => ?_
          · have hji : j ≠ i := by
              rintro rfl
              exact hi hj
            rw [Function.update_of_ne hji]
            exact hlower j (List.mem_cons_of_mem _ hj) hpj
          · by_cases hji : j = i
            · rw [hji, Function.update_self]
            · rw [Function.update_of_ne hji]
              refine hkeep j (hj.imp_left fun hj => ?_)
              exact List.not_mem_cons_of_ne_of_not_mem hji hj

/-- How many of its dependencies, each as often as it is listed, name no placed
node. -/
def unplacedDeps (nodes : List DepNode) (order : List (Fin nodes.length)) (i : Fin nodes.length) :
    ℕ :=
  (nodes.get i).deps.countP fun dep => dep ∉ order.map fun j => (nodes.get j).scriptId

theorem countP_not_mem_snoc {x : Int64} {ids : List Int64} (hx : x ∉ ids) (deps : List Int64) :
    deps.countP (fun dep => dep ∉ ids) =
      deps.countP (fun dep => dep ∉ ids ++ [x]) + deps.count x := by
  induction deps with
  | nil => rfl
  | cons dep deps ih =>
      rw [List.countP_cons, List.countP_cons, List.count_cons, ih]
      by_cases hdep : dep = x
      · subst hdep
        simp [hx]
        omega
      · simp [hdep]
        omega

/-- A node with nothing unplaced is one that is ready. -/
theorem unplacedDeps_eq_zero (hids : DistinctIds nodes) (hres : Resolved nodes)
    {order : List (Fin nodes.length)} {i : Fin nodes.length} :
    unplacedDeps nodes order i = 0 ↔ ∀ j, DependsOn nodes i j → j ∈ order := by
  rw [unplacedDeps, List.countP_eq_zero]
  simp only [decide_eq_true_eq, not_not, List.mem_map]
  constructor
  · intro h j hj
    obtain ⟨k, hk, hid⟩ := h _ hj
    rwa [← hids.inj hid]
  · intro h dep hdep
    obtain ⟨j, hj⟩ := hres i dep hdep
    subst hj
    exact ⟨j, h j hdep, rfl⟩

/-! ## The loop -/

/-- The state of the loop: the order so far is greedy, and each counter that is
still looked at says how much is missing. -/
structure KahnInv (nodes : List DepNode) (s : Kahn nodes.length) : Prop where
  greedy : GreedyOrder (DependsOn nodes) s.order
  placed : ∀ i, s.placed i = true ↔ i ∈ s.order
  inDegree : ∀ i, i ∉ s.order → s.inDegree i = unplacedDeps nodes s.order i

theorem Kahn.start_inv : KahnInv nodes (Kahn.start nodes) where
  greedy := .nil
  placed i := by simp [Kahn.start]
  inDegree i _ := by
    show (nodes.get i).deps.length = _
    rw [unplacedDeps, Kahn.start, List.map_nil, eq_comm, List.countP_eq_length]
    simp

section

variable {s : Kahn nodes.length} (hids : DistinctIds nodes) (hres : Resolved nodes)
include hids hres

/-- What the search for a ready node looks at. -/
theorem KahnInv.readyAfter_iff (h : KahnInv nodes s) (i : Fin nodes.length) :
    (!s.placed i && s.inDegree i == 0) = true ↔ ReadyAfter (DependsOn nodes) s.order i := by
  have hplaced : s.placed i = false ↔ i ∉ s.order := by
    rw [← h.placed i, Bool.not_eq_true]
  rw [ReadyAfter, Bool.and_eq_true, Bool.not_eq_true', beq_iff_eq, hplaced]
  refine and_congr_right fun hi => ?_
  rw [h.inDegree i hi]
  exact unplacedDeps_eq_zero hids hres

theorem KahnInv.ready_none (h : KahnInv nodes s) (hnone : s.ready = none) (i : Fin nodes.length) :
    ¬ReadyAfter (DependsOn nodes) s.order i := by
  rw [Kahn.ready, List.find?_eq_none] at hnone
  rw [← h.readyAfter_iff hids hres]
  exact hnone i (List.mem_finRange i)

theorem KahnInv.ready_some (h : KahnInv nodes s) {i : Fin nodes.length}
    (hsome : s.ready = some i) :
    ReadyAfter (DependsOn nodes) s.order i ∧
      ∀ j, ReadyAfter (DependsOn nodes) s.order j → i ≤ j := by
  obtain ⟨hi, as, bs, hsplit, hbefore⟩ := List.find?_eq_some_iff_append.mp hsome
  refine ⟨(h.readyAfter_iff hids hres i).mp hi, fun j hj => ?_⟩
  -- the nodes are searched in the order of their indices
  have hsorted := List.pairwise_lt_finRange nodes.length
  rw [hsplit] at hsorted
  have hj' := (h.readyAfter_iff hids hres j).mpr hj
  have hmem := List.mem_finRange j
  rw [hsplit] at hmem
  rcases List.mem_append.mp hmem with hmem | hmem
  · have hnot := hbefore j hmem
    rw [hj'] at hnot
    cases hnot
  · rcases List.mem_cons.mp hmem with rfl | hmem
    · exact le_refl _
    · have hcons := (List.pairwise_append.mp hsorted).2.1
      exact le_of_lt (List.rel_of_pairwise_cons hcons hmem)

omit hres in
/-- A turn that found a ready node: no counter goes below zero. -/
theorem KahnInv.place (h : KahnInv nodes s) {i : Fin nodes.length}
    (hready : ReadyAfter (DependsOn nodes) s.order i)
    (hleast : ∀ j, ReadyAfter (DependsOn nodes) s.order j → i ≤ j) :
    ∃ s', s.place nodes i = some s' ∧ KahnInv nodes s' ∧ s'.order = s.order ++ [i] := by
  have hfresh : (nodes.get i).scriptId ∉ s.order.map fun j => (nodes.get j).scriptId := by
    intro hm
    obtain ⟨j, hj, hid⟩ := List.mem_map.mp hm
    rw [hids.inj hid] at hj
    exact hready.1 hj
  let placed := Function.update s.placed i true
  have hplaced : ∀ j, placed j = true ↔ j ∈ s.order ++ [i] := by
    intro j
    rw [List.mem_append, List.mem_singleton]
    by_cases hji : j = i
    · simp [placed, hji]
    · simp [placed, hji, h.placed j]
  let inDegree' : Fin nodes.length → ℕ := fun j =>
    if placed j then s.inDegree j else unplacedDeps nodes (s.order ++ [i]) j
  have hlower : lowerInDegrees nodes i placed (List.finRange nodes.length) s.inDegree =
      some inDegree' := by
    refine lowerInDegrees_eq (List.nodup_finRange _) (fun j _ hj => ?_) fun j hj => ?_
    · have hnot : j ∉ s.order := by
        intro hm
        rw [(hplaced j).mpr (List.mem_append_left _ hm)] at hj
        cases hj
      rw [h.inDegree j hnot, unplacedDeps, countP_not_mem_snoc hfresh]
      simp only [inDegree', hj, unplacedDeps, List.map_append, List.map_cons, List.map_nil]
      rfl
    · have hpj : placed j = true := hj.resolve_left fun h => h (List.mem_finRange j)
      simp only [inDegree', hpj, if_true]
  refine ⟨⟨s.order ++ [i], placed, inDegree'⟩, ?_, ⟨?_, hplaced, fun j hj => ?_⟩, rfl⟩
  · show (lowerInDegrees nodes i placed _ s.inDegree).map _ = _
    rw [hlower]
    rfl
  · exact h.greedy.snoc hready hleast
  · have hpj : placed j = false := by
      rw [← Bool.not_eq_true, hplaced j]
      exact hj
    simp only [inDegree', hpj]
    rfl

/-- The loop ends with everything placed, or where nothing is ready. -/
theorem kahnLoop_spec (left : ℕ) (h : KahnInv nodes s)
    (hleft : s.order.length + left = nodes.length) :
    ∃ status s', kahnLoop nodes left s = some (status, s') ∧ KahnInv nodes s' ∧
      ((status = .ok ∧ s'.order.length = nodes.length) ∨
        (status = .cycle ∧ s'.order.length < nodes.length ∧
          ∀ i, ¬ReadyAfter (DependsOn nodes) s'.order i)) := by
  induction left generalizing s with
  | zero => exact ⟨.ok, s, rfl, h, Or.inl ⟨rfl, hleft⟩⟩
  | succ left ih =>
      rw [kahnLoop]
      cases hready : s.ready with
      | none => exact ⟨.cycle, s, rfl, h, Or.inr ⟨rfl, by omega, h.ready_none hids hres hready⟩⟩
      | some i =>
          obtain ⟨hi, hleast⟩ := h.ready_some hids hres hready
          obtain ⟨s', hplace, hinv, horder⟩ := h.place hids hi hleast
          simp only [hplace]
          refine ih hinv ?_
          rw [horder, List.length_append, List.length_singleton]
          omega

end

/-! ## The sort -/

def Acyclic (nodes : List DepNode) : Prop := ∀ i, ¬TransGen (DependsOn nodes) i i

theorem acyclic_iff : Acyclic nodes ↔ ∀ i, ¬ReachesCycle (DependsOn nodes) i := by
  constructor
  · rintro h i ⟨j, -, hj⟩
    exact h j hj
  · intro h i hi
    exact h i ⟨i, .refl, hi⟩

/-- What the sort of these nodes has to answer. -/
structure ToposortSpec (nodes : List DepNode) (res : ToposortResult nodes.length) : Prop where
  missing : res.status = .missingDependency ↔
    ∃ i, ∃ dep ∈ (nodes.get i).deps, ∀ j, (nodes.get j).scriptId ≠ dep
  bad : res.status = .missingDependency → ∃ i dep, res.bad = some (i, dep) ∧
    dep ∈ (nodes.get i).deps ∧ ∀ j, (nodes.get j).scriptId ≠ dep
  ok : Resolved nodes → (res.status = .ok ↔ Acyclic nodes)
  cycle : Resolved nodes → (res.status = .cycle ↔ ¬Acyclic nodes)
  perm : res.status = .ok → res.order.Perm (List.finRange nodes.length)
  before : res.status = .ok → ∀ l₁ i l₂, res.order = l₁ ++ i :: l₂ →
    ∀ j, DependsOn nodes i j → j ∈ l₁
  least : res.status = .ok → ∀ l₁ i l₂, res.order = l₁ ++ i :: l₂ →
    ReadyAfter (DependsOn nodes) l₁ i ∧ ∀ j, ReadyAfter (DependsOn nodes) l₁ j → i ≤ j
  marked : res.status = .cycle → ∀ i,
    res.inCycle i = true ↔ ReachesCycle (DependsOn nodes) i
  unmarked : res.status ≠ .cycle → ∀ i, res.inCycle i = false

theorem not_resolved_iff : ¬Resolved nodes ↔
    ∃ i, ∃ dep ∈ (nodes.get i).deps, ∀ j, (nodes.get j).scriptId ≠ dep := by
  rw [Resolved]
  push Not
  rfl

/-- An edge that leads nowhere is found before anything else is done. -/
theorem ToposortSpec.of_missing {i : Fin nodes.length} {dep : Int64}
    (h : missingEdge nodes = some (i, dep)) :
    ToposortSpec nodes ⟨.missingDependency, [], some (i, dep), fun _ => false⟩ := by
  obtain ⟨hdep, hnone⟩ := missingEdge_eq_some h
  have hres : ¬Resolved nodes := not_resolved_iff.mpr ⟨i, dep, hdep, hnone⟩
  exact
    { missing := iff_of_true rfl ⟨i, dep, hdep, hnone⟩
      bad := fun _ => ⟨i, dep, rfl, hdep, hnone⟩
      ok := fun h => absurd h hres
      cycle := fun h => absurd h hres
      perm := fun h => by cases h
      before := fun h => by cases h
      least := fun h => by cases h
      marked := fun h => by cases h
      unmarked := fun _ _ => rfl }

section

variable {s : Kahn nodes.length} (hres : Resolved nodes) (h : KahnInv nodes s)
include hres h

/-- Everything is placed. -/
theorem ToposortSpec.of_placed (hall : s.order.length = nodes.length) :
    ToposortSpec nodes ⟨.ok, s.order, none, fun _ => false⟩ := by
  have hperm : s.order.Perm (List.finRange nodes.length) := by
    refine (List.subperm_of_subset h.greedy.nodup fun i _ => List.mem_finRange i).perm_of_length_le
      ?_
    rw [List.length_finRange, hall]
  have hacyclic : Acyclic nodes := by
    rw [acyclic_iff]
    intro i
    exact not_reachesCycle_of_acc (h.greedy.acc (hperm.mem_iff.mpr (List.mem_finRange i)))
  exact
    { missing := iff_of_false (by simp) (by rwa [← not_resolved_iff, not_not])
      bad := fun h => by cases h
      ok := fun _ => iff_of_true rfl hacyclic
      cycle := fun _ => iff_of_false (by simp) (by rwa [not_not])
      perm := fun _ => hperm
      before := fun _ l₁ i l₂ hl => (h.greedy.split hl).1.2
      least := fun _ l₁ i l₂ hl => h.greedy.split hl
      marked := fun h => by cases h
      unmarked := fun _ _ => rfl }

/-- The loop has stalled. -/
theorem ToposortSpec.of_stalled (hsome : s.order.length < nodes.length)
    (hstalled : ∀ i, ¬ReadyAfter (DependsOn nodes) s.order i) :
    ToposortSpec nodes ⟨.cycle, s.order, none, fun i => !s.placed i⟩ := by
  have hmarked : ∀ i, (!s.placed i) = true ↔ ReachesCycle (DependsOn nodes) i := by
    intro i
    rw [← h.greedy.not_mem_iff hstalled, Bool.not_eq_true', ← Bool.not_eq_true, h.placed i]
  have hcyclic : ¬Acyclic nodes := by
    rw [acyclic_iff]
    intro hfree
    have hall : List.finRange nodes.length ⊆ s.order := by
      intro i _
      by_contra hi
      exact hfree i ((h.greedy.not_mem_iff hstalled i).mp hi)
    have hlen := ((List.nodup_finRange _).subperm hall).length_le
    rw [List.length_finRange] at hlen
    omega
  exact
    { missing := iff_of_false (by simp) (by rwa [← not_resolved_iff, not_not])
      bad := fun h => by cases h
      ok := fun _ => iff_of_false (by simp) hcyclic
      cycle := fun _ => iff_of_true rfl hcyclic
      perm := fun h => by cases h
      before := fun h => by cases h
      least := fun h => by cases h
      marked := fun _ => hmarked
      unmarked := fun h => absurd rfl h }

end

/-- The three ways in which the sort ends when it has memory for its two
arrays. No counter wraps in any of them. -/
theorem depgraphToposort_cases (hids : DistinctIds nodes) :
    (∃ i dep, missingEdge nodes = some (i, dep) ∧ depgraphToposort nodes true true =
      some ⟨.missingDependency, [], some (i, dep), fun _ => false⟩) ∨
    (Resolved nodes ∧ ∃ s, KahnInv nodes s ∧
      ((s.order.length = nodes.length ∧ depgraphToposort nodes true true =
          some ⟨.ok, s.order, none, fun _ => false⟩) ∨
        (s.order.length < nodes.length ∧
          (∀ i, ¬ReadyAfter (DependsOn nodes) s.order i) ∧ depgraphToposort nodes true true =
            some ⟨.cycle, s.order, none, fun i => !s.placed i⟩))) := by
  rw [depgraphToposort]
  split
  · next hempty =>
      have hres : Resolved nodes := fun i => absurd i.isLt (by omega)
      exact Or.inr ⟨hres, Kahn.start nodes, Kahn.start_inv, Or.inl ⟨hempty.symm, rfl⟩⟩
  · cases hmissing : missingEdge nodes with
    | some bad =>
        obtain ⟨i, dep⟩ := bad
        exact Or.inl ⟨i, dep, rfl, rfl⟩
    | none =>
        have hres := missingEdge_eq_none.mp hmissing
        obtain ⟨status, s, hloop, hinv, ⟨rfl, hall⟩ | ⟨rfl, hsome, hstalled⟩⟩ :=
          kahnLoop_spec hids hres nodes.length Kahn.start_inv (Nat.zero_add _)
        · refine Or.inr ⟨hres, s, hinv, Or.inl ⟨hall, ?_⟩⟩
          simp only [hloop]
          rfl
        · refine Or.inr ⟨hres, s, hinv, Or.inr ⟨hsome, hstalled, ?_⟩⟩
          simp only [hloop]
          rfl

theorem depgraphToposort_spec (hids : DistinctIds nodes) :
    ∃ res, depgraphToposort nodes true true = some res ∧ ToposortSpec nodes res := by
  obtain ⟨i, dep, hmissing, hrun⟩ | ⟨hres, s, hinv, ⟨hall, hrun⟩ | ⟨hsome, hstalled, hrun⟩⟩ :=
    depgraphToposort_cases hids
  · exact ⟨_, hrun, .of_missing hmissing⟩
  · exact ⟨_, hrun, .of_placed hres hinv hall⟩
  · exact ⟨_, hrun, .of_stalled hres hinv hsome hstalled⟩

/-- A cycle of one, with a duplicate edge into it. -/
theorem depgraphToposort_spec_cycle :
    ∃ res, depgraphToposort [⟨10, [20, 20]⟩, ⟨20, [20, 40]⟩, ⟨30, [40, 40]⟩, ⟨40, []⟩] true true =
        some res ∧
      ToposortSpec [⟨10, [20, 20]⟩, ⟨20, [20, 40]⟩, ⟨30, [40, 40]⟩, ⟨40, []⟩] res :=
  depgraphToposort_spec (by rw [DistinctIds]; decide)

/-! ## The registry -/

/-- The loop over the files keeps the ids of the headers distinct. -/
theorem addHeader_distinct {headers : List DepNode} (h : DistinctIds headers)
    (candidate : Option DepNode) : DistinctIds (addHeader headers candidate) := by
  cases candidate with
  | none => exact h
  | some header =>
      simp only [addHeader]
      split
      · exact h
      · next hfree =>
          rw [DistinctIds, List.map_append, List.nodup_append]
          refine ⟨h, List.nodup_singleton _, fun x hx y hy heq => hfree ?_⟩
          obtain ⟨other, hother, rfl⟩ := List.mem_map.mp hx
          rw [List.map_cons, List.map_nil, List.mem_singleton] at hy
          exact List.any_eq_true.mpr ⟨other, hother, by simp [heq, hy]⟩

theorem registeredHeaders_distinct (candidates : List (Option DepNode)) :
    DistinctIds (registeredHeaders candidates) := by
  have hfold : ∀ headers, DistinctIds headers →
      DistinctIds (candidates.foldl addHeader headers) := by
    induction candidates with
    | nil => exact fun headers h => h
    | cons candidate candidates ih => exact fun headers h => ih _ (addHeader_distinct h candidate)
  exact hfold [] List.nodup_nil

/-- A registry that starts has all of its plugins in the order, and each of them
behind all that it depends on. -/
theorem registryOrder_runs (candidates : List (Option DepNode)) {run : List DepNode}
    (h : registryOrder true true (registeredHeaders candidates) = some run) :
    run.Perm (registeredHeaders candidates) ∧
      ∀ l₁ x l₂, run = l₁ ++ x :: l₂ → ∀ dep ∈ x.deps, ∃ y ∈ l₁, y.scriptId = dep := by
  have hids := registeredHeaders_distinct candidates
  generalize registeredHeaders candidates = headers at h hids ⊢
  rw [registryOrder] at h
  obtain ⟨i, dep, hmissing, hrun⟩ | ⟨hres, s, hinv, ⟨hall, hrun⟩ | ⟨hsome, hstalled, hrun⟩⟩ :=
    depgraphToposort_cases hids
  · rw [hrun] at h
    cases h
  · rw [hrun] at h
    cases h
    have hspec := ToposortSpec.of_placed hres hinv hall
    constructor
    · have hperm := (hspec.perm rfl).map headers.get
      rwa [List.map_get_finRange] at hperm
    · intro l₁ x l₂ hl dep hdep
      obtain ⟨l₁', rest, hl', rfl, hrest⟩ := List.map_eq_append_iff.mp hl
      obtain ⟨i, l₂', rfl, rfl, -⟩ := List.map_eq_cons_iff.mp hrest
      obtain ⟨j, rfl⟩ := hres i dep hdep
      exact ⟨_, List.mem_map_of_mem (hspec.before rfl l₁' i l₂' hl' j hdep), rfl⟩
  · rw [hrun] at h
    cases h

end Cytadel.Plugin
