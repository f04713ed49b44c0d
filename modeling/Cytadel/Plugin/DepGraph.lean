import Mathlib.Data.List.FinRange
import Mathlib.Logic.Function.Basic
import Cytadel.Bytes

/-!
# The order in which plugins run

`src/plugin/depgraph.c`, and the part of `src/plugin/registry.c` that calls it.
A counter of unplaced dependencies is decremented without a check, so here it
answers `none` where it would go below zero. An index into `nodes` carries its
bound.
-/

namespace Cytadel.Plugin

open Cytadel

/-- `cytadel_depgraph_node_t`. -/
structure DepNode where
  scriptId : Int64
  deps : List Int64
  deriving DecidableEq, Repr

/-- `cytadel_depgraph_status_t`. -/
inductive DepgraphStatus
  | ok
  | missingDependency
  | cycle
  deriving DecidableEq, Repr

/-- What `cytadel_depgraph_toposort` answers and leaves in its arguments: of
`out_order` what has been written. -/
structure ToposortResult (n : ℕ) where
  status : DepgraphStatus
  order : List (Fin n)
  /-- `*out_bad_index` and `*out_bad_dep`. -/
  bad : Option (Fin n × Int64)
  inCycle : Fin n → Bool

section

variable (nodes : List DepNode)

/-- `cytadel_depgraph_find_index`. -/
def depgraphFindIndex (scriptId : Int64) : Option (Fin nodes.length) :=
  (List.finRange nodes.length).find? fun i => (nodes.get i).scriptId = scriptId

/-- The first edge, in the order of the two loops, that leads to no node. -/
def missingEdge : Option (Fin nodes.length × Int64) :=
  (List.finRange nodes.length).findSome? fun i =>
    ((nodes.get i).deps.find? fun dep => (depgraphFindIndex nodes dep).isNone).map fun dep =>
      (i, dep)

end

/-! ## The loop -/

/-- `out_order`, `placed` and `in_degree`. -/
structure Kahn (n : ℕ) where
  order : List (Fin n)
  placed : Fin n → Bool
  inDegree : Fin n → ℕ

/-- The lowest node that is ready. -/
def Kahn.ready {n : ℕ} (s : Kahn n) : Option (Fin n) :=
  (List.finRange n).find? fun i => !s.placed i && s.inDegree i == 0

/-- The counter of a node with these dependencies, when the node with this id is
placed. -/
def lowerInDegree (scriptId : Int64) : List Int64 → ℕ → Option ℕ
  | [], k => some k
  | dep :: deps, k =>
      if dep = scriptId then
        if k = 0 then none else lowerInDegree scriptId deps (k - 1)
      else lowerInDegree scriptId deps k

section

variable (nodes : List DepNode)

/-- The counters when all is prepared. -/
def Kahn.start : Kahn nodes.length where
  order := []
  placed := fun _ => false
  inDegree := fun i => (nodes.get i).deps.length

/-- The loop over the nodes behind a placement. -/
def lowerInDegrees (ready : Fin nodes.length) (placed : Fin nodes.length → Bool) :
    List (Fin nodes.length) → (Fin nodes.length → ℕ) → Option (Fin nodes.length → ℕ)
  | [], inDegree => some inDegree
  | i :: is, inDegree =>
      if placed i then lowerInDegrees ready placed is inDegree
      else
        match lowerInDegree (nodes.get ready).scriptId (nodes.get i).deps (inDegree i) with
        | none => none
        | some k => lowerInDegrees ready placed is (Function.update inDegree i k)

/-- A turn of the loop that found this node. -/
def Kahn.place (s : Kahn nodes.length) (ready : Fin nodes.length) : Option (Kahn nodes.length) :=
  let placed := Function.update s.placed ready true
  (lowerInDegrees nodes ready placed (List.finRange nodes.length) s.inDegree).map fun inDegree =>
    ⟨s.order ++ [ready], placed, inDegree⟩

/-- The loop, with how many nodes are left to place. -/
def kahnLoop : ℕ → Kahn nodes.length → Option (DepgraphStatus × Kahn nodes.length)
  | 0, s => some (.ok, s)
  | left + 1, s =>
      match s.ready with
      | none => some (.cycle, s)
      | some ready =>
          match s.place nodes ready with
          | none => none
          | some s => kahnLoop left s

/-- `cytadel_depgraph_toposort`, and whether its two `calloc` calls succeed. -/
def depgraphToposort (inDegreeOk placedOk : Bool) : Option (ToposortResult nodes.length) :=
  if nodes.length = 0 then some ⟨.ok, [], none, fun _ => false⟩
  else
    match missingEdge nodes with
    | some bad => some ⟨.missingDependency, [], some bad, fun _ => false⟩
    | none =>
        if !inDegreeOk || !placedOk then some ⟨.cycle, [], none, fun _ => false⟩
        else
          match kahnLoop nodes nodes.length (Kahn.start nodes) with
          | none => none
          | some (status, s) =>
              some ⟨status, s.order, none, fun i => status = .cycle && !s.placed i⟩

end

/-! ## The registry -/

/-- One turn of the loop over the files: `none` is a file that does not
register, and a header whose id is taken is skipped. -/
def addHeader (headers : List DepNode) (candidate : Option DepNode) : List DepNode :=
  match candidate with
  | none => headers
  | some header =>
      if headers.any fun h => h.scriptId == header.scriptId then headers else headers ++ [header]

/-- The headers that `cytadel_plugin_registry_load` registers. -/
def registeredHeaders (candidates : List (Option DepNode)) : List DepNode :=
  candidates.foldl addHeader []

/-- `cytadel_plugin_registry_load` from there on, with memory for its own arrays:
the headers in the order in which they run, or the refusal to start. -/
def registryOrder (inDegreeOk placedOk : Bool) (headers : List DepNode) : Option (List DepNode) :=
  match depgraphToposort headers inDegreeOk placedOk with
  | some ⟨.ok, order, _, _⟩ => some (order.map headers.get)
  | _ => none

end Cytadel.Plugin
