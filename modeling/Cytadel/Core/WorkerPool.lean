import Mathlib.Data.Int.Notation
import Mathlib.Data.List.Basic
import Mathlib.Logic.Function.Basic

/-!
# The worker pool

`src/core/worker_pool.c`: the scan of a list of targets by a handful of
threads that share one atomic cursor. A thread is where it stands in its loop,
and the scheduler picks whose turn it is: one atomic access, one host scan, one
store, one call of the parent at a time. Threads are numbered as the parent
creates them. What a host answers is whatever the network says.

An array that a caller passes along with its length is a function on the
indices below that length; a pointer that may be `NULL` is optional.
-/

namespace Cytadel.Core

/-- `CYTADEL_WORKER_POOL_HARD_CAP_WORKERS`. -/
def hardCapWorkers : ℤ := 1024

/-- `cytadel_worker_result_t`. -/
structure WorkerResult (R : Type) where
  result : R
  scanRc : ℤ
  deriving DecidableEq, Repr

/-- `cytadel_worker_pool_ctx_t`, for so many targets. -/
structure Ctx (Target Ports Opts R : Type) (n : ℕ) where
  targets : Option (Fin n → Target)
  ports : Option Ports
  opts : Option Opts
  outResults : Option (Fin n → WorkerResult R)
  nextIndex : ℕ

/-- A thread in `cytadel_worker_pool_thread_main`, with the value of its `i`:
before the claim, before the comparison with the count, before the store of
what the scan returned, out of the loop. -/
inductive Worker (n : ℕ)
  | ready
  | claimed (i : ℕ)
  | scanned (i : Fin n) (rc : ℤ)
  | exited (i : ℕ)
  deriving DecidableEq, Repr

/-- The parent in `cytadel_worker_pool_run`. -/
inductive Parent
  | creating (t : ℕ)
  | joining (t : ℕ)
  | returned (rc : ℤ)
  deriving DecidableEq, Repr

/-- What happens to a slot: the scan of its target writes the result, then its
worker the return code. -/
inductive Event (R : Type) (n : ℕ)
  | scan (worker : ℕ) (i : Fin n) (result : R) (rc : ℤ)
  | store (worker : ℕ) (i : Fin n) (rc : ℤ)
  deriving DecidableEq, Repr

variable {Target Ports Opts Net R : Type} {n : ℕ}

def Event.index : Event R n → Fin n
  | .scan _ i _ _ => i
  | .store _ i _ => i

/-- The pool as it runs; the history is what its slots have gone through. -/
structure Pool (Target Ports Opts R : Type) (n : ℕ) where
  ctx : Ctx Target Ports Opts R n
  workerCount : ℕ
  threads : ℕ → Option (Worker n)
  joined : ℕ → Bool
  parent : Parent
  created : ℕ
  createFailed : Bool
  joinFailed : Bool
  history : List (Event R n)

namespace Pool

variable (s : Pool Target Ports Opts R n)

/-- The events of one slot. -/
def slotHistory (i : Fin n) : List (Event R n) := s.history.filter fun e => e.index = i

def slot (i : Fin n) : Option (WorkerResult R) := s.ctx.outResults.map fun out => out i

def setSlot (i : Fin n) (r : WorkerResult R) : Pool Target Ports Opts R n :=
  { s with ctx.outResults := s.ctx.outResults.map fun out => Function.update out i r }

def setWorker (w : ℕ) (k : Worker n) : Pool Target Ports Opts R n :=
  { s with threads := Function.update s.threads w (some k) }

def record (e : Event R n) : Pool Target Ports Opts R n := { s with history := s.history ++ [e] }

end Pool

/-! ## The parent -/

/-- How many threads the pool asks for. -/
def workerCount (maxWorkers : ℤ) (targetCount : ℕ) : ℕ :=
  let maxWorkers := if maxWorkers < 1 then 1 else maxWorkers
  let maxWorkers := if maxWorkers > hardCapWorkers then hardCapWorkers else maxWorkers
  if maxWorkers.toNat > targetCount then targetCount else maxWorkers.toNat

/-- `cytadel_worker_pool_run`, up to the first `pthread_create`. -/
def workerPoolRun (targets : Option (Fin n → Target)) (ports : Option Ports) (opts : Option Opts)
    (maxWorkers : ℤ) (outResults : Option (Fin n → WorkerResult R)) (calloc : Bool) :
    Pool Target Ports Opts R n where
  ctx := ⟨targets, ports, opts, outResults, 0⟩
  workerCount := workerCount maxWorkers n
  threads := fun _ => none
  joined := fun _ => false
  parent :=
    if n = 0 then .returned 0
    else if targets.isNone || ports.isNone || outResults.isNone then .returned (-1)
    else if !calloc then .returned (-1)
    else .creating 0
  created := 0
  createFailed := false
  joinFailed := false
  history := []

inductive Action (Net : Type)
  | create (rc : ℤ)
  | join
  | finish
  | claim (w : ℕ)
  | leave (w : ℕ)
  | hostScan (w : ℕ) (net : Net)
  | store (w : ℕ)

/-- `pthread_create`: unless the call fails, there is one thread more. -/
def pthreadCreate (s : Pool Target Ports Opts R n) (t : ℕ) (rc : ℤ) :
    Pool Target Ports Opts R n :=
  if rc ≠ 0 then { s with createFailed := true, parent := .joining 0 }
  else
    { s.setWorker t .ready with
      created := s.created + 1
      parent := if t + 1 < s.workerCount then .creating (t + 1) else .joining 0 }

/-- `pthread_join`: it waits for a thread to leave, and fails where there is no
such thread (`ESRCH`) or it has been joined (`EINVAL`). -/
def pthreadJoin (s : Pool Target Ports Opts R n) (t : ℕ) : Option (ℤ × (ℕ → Bool)) :=
  match s.threads t with
  | none => some (3, s.joined)
  | some (.exited _) =>
      if s.joined t then some (22, s.joined) else some (0, Function.update s.joined t true)
  | some _ => none

/-- A turn of the parent. -/
def parentStep (s : Pool Target Ports Opts R n) : Action Net → Option (Pool Target Ports Opts R n)
  | .create rc =>
      match s.parent with
      | .creating t => some (pthreadCreate s t rc)
      | _ => none
  | .join =>
      match s.parent with
      | .joining t =>
          if t < s.created then
            (pthreadJoin s t).map fun (rc, joined) =>
              { s with joined, parent := .joining (t + 1)
                       joinFailed := s.joinFailed || decide (rc ≠ 0) }
          else none
      | _ => none
  | .finish =>
      match s.parent with
      | .joining t =>
          if t < s.created then none
          else
            some { s with parent := .returned (if s.createFailed || s.joinFailed then -1 else 0) }
      | _ => none
  | _ => none

/-! ## The threads -/

/-- A turn of a thread: `atomic_fetch_add_explicit`, the `break`, the call of
`cytadel_host_scan`, the store of its return code. -/
def threadStep (hostScan : Target → Option Ports → Option Opts → Net → R × ℤ)
    (s : Pool Target Ports Opts R n) : Action Net → Option (Pool Target Ports Opts R n)
  | .claim w =>
      match s.threads w with
      | some .ready =>
          some { s.setWorker w (.claimed s.ctx.nextIndex) with
            ctx.nextIndex := s.ctx.nextIndex + 1 }
      | _ => none
  | .leave w =>
      match s.threads w with
      | some (.claimed i) => if i ≥ n then some (s.setWorker w (.exited i)) else none
      | _ => none
  | .hostScan w net =>
      match s.threads w with
      | some (.claimed i) =>
          if h : i < n then do
            let targets ← s.ctx.targets
            let old ← s.slot ⟨i, h⟩
            let (result, rc) := hostScan (targets ⟨i, h⟩) s.ctx.ports s.ctx.opts net
            some (((s.setSlot ⟨i, h⟩ { old with result }).setWorker w
              (.scanned ⟨i, h⟩ rc)).record (.scan w ⟨i, h⟩ result rc))
          else none
      | _ => none
  | .store w =>
      match s.threads w with
      | some (.scanned i rc) => do
          let old ← s.slot i
          some (((s.setSlot i { old with scanRc := rc }).setWorker w .ready).record
            (.store w i rc))
      | _ => none
  | _ => none

/-- A turn of whoever the scheduler picks. -/
def poolStep (hostScan : Target → Option Ports → Option Opts → Net → R × ℤ) (a : Action Net)
    (s : Pool Target Ports Opts R n) : Option (Pool Target Ports Opts R n) :=
  (parentStep s a).or (threadStep hostScan s a)

end Cytadel.Core
