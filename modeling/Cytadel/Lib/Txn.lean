import Mathlib.Tactic.Basic
import Mathlib.Data.Nat.Init

/-!
# One connection to a transactional store

The store is any type `δ`. A session holds the durable value, the working copy
of an open transaction if there is one, a count of the calls made so far and a
log of what became durable. Every call can fail: the environment says which,
by the number of the call and its kind, and a call that fails changes nothing
but the count. A write lands in the working copy while a transaction is open
and is durable at once when none is.

A statement program is a tree of such calls, so that what is true of all of
them is proved once, by induction on the tree. The main fact is `run_inTxn`:
inside a transaction a program is a function of the call count and the working
copy alone, and the durable value and the log stay as they were.
-/

namespace Lib

/-- What fails, and what the clock reads, at each call. -/
structure Env (κ τ : Type) where
  fault : ℕ → κ → Bool
  clock : ℕ → τ

/-- The same clock, and nothing fails. -/
def Env.faultless {κ τ : Type} (env : Env κ τ) : Env κ τ :=
  { env with fault := fun _ _ => false }

@[simp] theorem Env.faultless_fault {κ τ : Type} (env : Env κ τ) (n : ℕ) (k : κ) :
    env.faultless.fault n k = false := rfl

@[simp] theorem Env.faultless_clock {κ τ : Type} (env : Env κ τ) (n : ℕ) :
    env.faultless.clock n = env.clock n := rfl

/-- A durable change, or a note the program left between two of them. -/
inductive Event (δ ρ : Type)
  | commit (before after : δ)
  | note (r : ρ)

structure Session (δ ρ : Type) where
  committed : δ
  txn : Option δ
  calls : ℕ
  log : List (Event δ ρ)

/-- A reply that is not an error carries the clock and the data as they stand
after the call. -/
inductive Reply (τ δ : Type)
  | error
  | constraint
  | done (now : τ) (view : δ)

section Session

variable {κ τ δ ρ : Type}

namespace Session

/-- What a read on this connection sees. -/
def view (s : Session δ ρ) : δ := s.txn.getD s.committed

def tick (s : Session δ ρ) : Session δ ρ := { s with calls := s.calls + 1 }

def write (s : Session δ ρ) (d : δ) : Session δ ρ :=
  match s.txn with
  | some _ => { s with txn := some d }
  | none => { s with committed := d, log := s.log ++ [.commit s.committed d] }

def note (s : Session δ ρ) (r : ρ) : Session δ ρ := { s with log := s.log ++ [.note r] }

/-- One statement call. Without a write it only reads; a write that answers
`none` is refused by a constraint. -/
def call (env : Env κ τ) (k : κ) (w : Option (τ → δ → Option δ)) (s : Session δ ρ) :
    Reply τ δ × Session δ ρ :=
  if env.fault s.calls k then (.error, s.tick)
  else
    match w with
    | none => (.done (env.clock s.calls) s.view, s.tick)
    | some f =>
        match f (env.clock s.calls) s.view with
        | none => (.constraint, s.tick)
        | some d => (.done (env.clock s.calls) d, s.tick.write d)

/-- There are no nested transactions: a second `begin` is refused. -/
def begin (env : Env κ τ) (k : κ) (s : Session δ ρ) : Bool × Session δ ρ :=
  if env.fault s.calls k || s.txn.isSome then (false, s.tick)
  else (true, { s.tick with txn := some s.committed })

/-- A `commit` that fails leaves the transaction open. -/
def commit (env : Env κ τ) (k : κ) (s : Session δ ρ) : Bool × Session δ ρ :=
  if env.fault s.calls k then (false, s.tick)
  else
    match s.txn with
    | none => (false, s.tick)
    | some d =>
        (true, { s.tick with
          committed := d, txn := none, log := s.log ++ [.commit s.committed d] })

/-- A `rollback` that fails leaves the transaction open. -/
def rollback (env : Env κ τ) (k : κ) (s : Session δ ρ) : Session δ ρ :=
  if env.fault s.calls k then s.tick else { s.tick with txn := none }

/-- The connection is closed, or the process dies, and a new one is opened. -/
def reopen (s : Session δ ρ) : Session δ ρ := { s with txn := none }

@[simp] theorem rollback_committed (env : Env κ τ) (k : κ) (s : Session δ ρ) :
    (s.rollback env k).committed = s.committed := by
  rw [rollback]
  split <;> rfl

@[simp] theorem rollback_log (env : Env κ τ) (k : κ) (s : Session δ ρ) :
    (s.rollback env k).log = s.log := by
  rw [rollback]
  split <;> rfl

/-- The session with a transaction open: its call count and working copy. -/
def inTxn (s : Session δ ρ) (x : ℕ × δ) : Session δ ρ :=
  { s with txn := some x.2, calls := x.1 }

/-- The session with the copy made durable. -/
def durable (s : Session δ ρ) (x : ℕ × δ) : Session δ ρ where
  committed := x.2
  txn := none
  calls := x.1
  log := s.log ++ [.commit s.committed x.2]

@[simp] theorem inTxn_committed (s : Session δ ρ) (x : ℕ × δ) :
    (s.inTxn x).committed = s.committed := rfl

@[simp] theorem inTxn_log (s : Session δ ρ) (x : ℕ × δ) : (s.inTxn x).log = s.log := rfl

/-- A `begin` that fails has only been counted; one that succeeds opens a copy
of the durable value. -/
theorem begin_cases (env : Env κ τ) (k : κ) (s : Session δ ρ) :
    (s.begin env k = (false, s.tick)) ∨
    (env.fault s.calls k = false ∧ s.txn = none ∧
      s.begin env k = (true, s.inTxn (s.calls + 1, s.committed))) := by
  rw [begin]
  split
  · exact Or.inl rfl
  · next h =>
      simp only [Bool.or_eq_true, not_or, Bool.not_eq_true] at h
      exact Or.inr ⟨h.1, by simpa using h.2, rfl⟩

/-- What a transaction that was not committed leaves: all that is durable, and
the connection as it was unless a rollback failed. -/
structure Kept (env : Env κ τ) (k : κ) (s s' : Session δ ρ) : Prop where
  committed : s'.committed = s.committed
  log : s'.log = s.log
  txn : s'.txn = s.txn ∨ (s.txn = none ∧ ∃ n, env.fault n k = true)

theorem Kept.of_calls (env : Env κ τ) (k : κ) (s : Session δ ρ) (n : ℕ) :
    Kept env k s { s with calls := n } := ⟨rfl, rfl, Or.inl rfl⟩

theorem Kept.view {env : Env κ τ} {k : κ} {s s' : Session δ ρ} (h : Kept env k s s')
    (hk : ∀ n, env.fault n k = false) : s'.view = s.view := by
  rcases h.txn with ht | ⟨-, n, hn⟩
  · rw [Session.view, ht, h.committed, Session.view]
  · rw [hk n] at hn
    cases hn

theorem rollback_kept (env : Env κ τ) (k : κ) {s : Session δ ρ} (hs : s.txn = none)
    (x : ℕ × δ) : Kept env k s ((s.inTxn x).rollback env k) where
  committed := by rw [rollback_committed, inTxn_committed]
  log := by rw [rollback_log, inTxn_log]
  txn := by
    rw [rollback]
    split
    · next hf => exact Or.inr ⟨hs, _, hf⟩
    · exact Or.inl hs.symm

theorem commit_inTxn (env : Env κ τ) (k : κ) (s : Session δ ρ) (x : ℕ × δ) :
    (s.inTxn x).commit env k =
      if env.fault x.1 k then (false, s.inTxn (x.1 + 1, x.2))
      else (true, s.durable (x.1 + 1, x.2)) := rfl

end Session

end Session

/-! ## Statement programs -/

/-- A tree of statement calls: the reply of each chooses what follows. -/
inductive Prog (κ τ δ α : Type) : Type
  | ret (a : α) : Prog κ τ δ α
  | call (k : κ) (w : Option (τ → δ → Option δ)) (cont : Reply τ δ → Prog κ τ δ α) :
      Prog κ τ δ α

namespace Prog

variable {κ τ δ ρ α β : Type}

def bind : Prog κ τ δ α → (α → Prog κ τ δ β) → Prog κ τ δ β
  | .ret a, f => f a
  | .call k w cont, f => .call k w fun r => (cont r).bind f

instance : Monad (Prog κ τ δ) where
  pure := .ret
  bind := Prog.bind

/-- A call that reads and writes nothing: did it succeed? -/
def attempt (k : κ) : Prog κ τ δ Bool :=
  .call k none fun
    | .done _ _ => .ret true
    | _ => .ret false

/-- The clock, as a call that may fail. -/
def timestamp (k : κ) : Prog κ τ δ (Option τ) :=
  .call k none fun
    | .done now _ => .ret (some now)
    | _ => .ret none

/-- A read: `none` when the call fails. -/
def select (k : κ) (f : δ → α) : Prog κ τ δ (Option α) :=
  .call k none fun
    | .done _ d => .ret (some (f d))
    | _ => .ret none

/-- How a writing step came back. -/
inductive Step
  | done
  | constraint
  | error
  deriving DecidableEq, Repr

def exec (k : κ) (f : τ → δ → Option δ) : Prog κ τ δ Step :=
  .call k (some f) fun
    | .done _ _ => .ret .done
    | .constraint => .ret .constraint
    | .error => .ret .error

/-- `n` calls of one kind, up to the first that fails. -/
def attemptAll (k : κ) : ℕ → Prog κ τ δ Bool
  | 0 => pure true
  | n + 1 => do
      if ← attempt k then attemptAll k n else pure false

/-- The program on a session. -/
def run (env : Env κ τ) : Prog κ τ δ α → Session δ ρ → α × Session δ ρ
  | .ret a, s => (a, s)
  | .call k w cont, s => (cont (s.call env k w).1).run env (s.call env k w).2

/-- One call on a working copy, with the number of the next call. -/
def evalCall (env : Env κ τ) (k : κ) (w : Option (τ → δ → Option δ)) (s : ℕ × δ) :
    Reply τ δ × ℕ × δ :=
  if env.fault s.1 k then (.error, s.1 + 1, s.2)
  else
    match w with
    | none => (.done (env.clock s.1) s.2, s.1 + 1, s.2)
    | some f =>
        match f (env.clock s.1) s.2 with
        | none => (.constraint, s.1 + 1, s.2)
        | some d => (.done (env.clock s.1) d, s.1 + 1, d)

/-- The program on a working copy. -/
def eval (env : Env κ τ) : Prog κ τ δ α → ℕ × δ → α × ℕ × δ
  | .ret a, s => (a, s)
  | .call k w cont, s => (cont (evalCall env k w s).1).eval env (evalCall env k w s).2

theorem call_inTxn (env : Env κ τ) (k : κ) (w : Option (τ → δ → Option δ))
    (s : Session δ ρ) (x : ℕ × δ) :
    (s.inTxn x).call env k w =
      ((evalCall env k w x).1, s.inTxn (evalCall env k w x).2) := by
  unfold Session.call evalCall
  by_cases hf : env.fault x.1 k = true
  · simp [Session.inTxn, Session.tick, hf]
  · cases w with
    | none => simp [Session.inTxn, Session.tick, Session.view, hf]
    | some f =>
        cases hd : f (env.clock x.1) x.2 <;>
          simp [Session.inTxn, Session.tick, Session.view, Session.write, hf, hd]

/-- Inside a transaction a program is its evaluation on the working copy: the
durable value and the log stay, and the transaction stays open. -/
theorem run_inTxn (env : Env κ τ) (p : Prog κ τ δ α) (s : Session δ ρ) (x : ℕ × δ) :
    p.run env (s.inTxn x) = ((p.eval env x).1, s.inTxn (p.eval env x).2) := by
  induction p generalizing x with
  | ret a => rfl
  | call k w cont ih =>
      rw [run, eval, call_inTxn env k w]
      exact ih _ _

theorem eval_pure (env : Env κ τ) (a : α) (s : ℕ × δ) :
    (pure a : Prog κ τ δ α).eval env s = (a, s) := rfl

theorem eval_bind (env : Env κ τ) (p : Prog κ τ δ α) (f : α → Prog κ τ δ β) (s : ℕ × δ) :
    (p >>= f).eval env s = (f (p.eval env s).1).eval env (p.eval env s).2 := by
  induction p generalizing s with
  | ret a => rfl
  | call k w cont ih => exact ih _ _

theorem run_bind (env : Env κ τ) (p : Prog κ τ δ α) (f : α → Prog κ τ δ β) (s : Session δ ρ) :
    (p >>= f).run env s = (f (p.run env s).1).run env (p.run env s).2 := by
  induction p generalizing s with
  | ret a => rfl
  | call k w cont ih => exact ih _ _

theorem run_attempt (env : Env κ τ) (k : κ) (s : Session δ ρ) :
    (attempt k : Prog κ τ δ Bool).run env s = (!env.fault s.calls k, s.tick) := by
  simp only [attempt, run, Session.call]
  cases env.fault s.calls k <;> rfl

/-- A run of attempts is only counted. -/
theorem run_attemptAll (env : Env κ τ) (k : κ) (m : ℕ) (s : Session δ ρ) :
    ∃ b n, (attemptAll k m : Prog κ τ δ Bool).run env s = (b, { s with calls := n }) := by
  induction m generalizing s with
  | zero => exact ⟨true, s.calls, rfl⟩
  | succ m ih =>
      rw [attemptAll, run_bind, run_attempt]
      cases env.fault s.calls k with
      | true => exact ⟨false, s.calls + 1, rfl⟩
      | false => exact ih s.tick

/-- A write outside a transaction that is done is durable. -/
theorem run_exec_done {env : Env κ τ} {k : κ} {f : τ → δ → Option δ} {s : Session δ ρ}
    (hs : s.txn = none) (h : ((exec k f).run env s).1 = .done) :
    f (env.clock s.calls) s.committed = some ((exec k f).run env s).2.committed := by
  simp only [exec, run, Session.call, Session.view, hs, Option.getD_none] at h ⊢
  cases hf : env.fault s.calls k with
  | true => simp [hf, run] at h
  | false =>
      cases hd : f (env.clock s.calls) s.committed with
      | none => simp [hf, hd, run] at h
      | some d => simp [run, Session.write, Session.tick, hs]

theorem eval_attempt (env : Env κ τ) (k : κ) (s : ℕ × δ) :
    (attempt k : Prog κ τ δ Bool).eval env s = (!env.fault s.1 k, s.1 + 1, s.2) := by
  simp only [attempt, eval, evalCall]
  cases env.fault s.1 k <;> rfl

theorem eval_timestamp (env : Env κ τ) (k : κ) (s : ℕ × δ) :
    (timestamp k : Prog κ τ δ (Option τ)).eval env s =
      (if env.fault s.1 k then none else some (env.clock s.1), s.1 + 1, s.2) := by
  simp only [timestamp, eval, evalCall]
  cases env.fault s.1 k <;> rfl

theorem eval_select (env : Env κ τ) (k : κ) (f : δ → α) (s : ℕ × δ) :
    (select k f : Prog κ τ δ (Option α)).eval env s =
      (if env.fault s.1 k then none else some (f s.2), s.1 + 1, s.2) := by
  simp only [select, eval, evalCall]
  cases env.fault s.1 k <;> rfl

/-- A writing step: an error or a refusal leaves the copy as it was. -/
theorem exec_cases (env : Env κ τ) (k : κ) (f : τ → δ → Option δ) (s : ℕ × δ) :
    (env.fault s.1 k = true ∧
      (exec k f : Prog κ τ δ Step).eval env s = (.error, s.1 + 1, s.2)) ∨
    (env.fault s.1 k = false ∧ f (env.clock s.1) s.2 = none ∧
      (exec k f : Prog κ τ δ Step).eval env s = (.constraint, s.1 + 1, s.2)) ∨
    (env.fault s.1 k = false ∧ ∃ d, f (env.clock s.1) s.2 = some d ∧
      (exec k f : Prog κ τ δ Step).eval env s = (.done, s.1 + 1, d)) := by
  simp only [exec, eval, evalCall]
  cases hf : env.fault s.1 k with
  | true => exact Or.inl ⟨rfl, rfl⟩
  | false =>
      cases hd : f (env.clock s.1) s.2 with
      | none => exact Or.inr (Or.inl ⟨rfl, rfl, rfl⟩)
      | some d => exact Or.inr (Or.inr ⟨rfl, d, rfl, rfl⟩)

/-- A run of attempts never touches the copy. It fails only if one of its
calls does. -/
theorem attemptAll_cases (env : Env κ τ) (k : κ) (m : ℕ) (s : ℕ × δ) :
    ((∀ i < m, env.fault (s.1 + i) k = false) ∧
      (attemptAll k m : Prog κ τ δ Bool).eval env s = (true, s.1 + m, s.2)) ∨
    (∃ i < m, env.fault (s.1 + i) k = true ∧
      (attemptAll k m : Prog κ τ δ Bool).eval env s = (false, s.1 + i + 1, s.2)) := by
  induction m generalizing s with
  | zero => exact Or.inl ⟨by simp, rfl⟩
  | succ m ih =>
      rw [attemptAll, eval_bind, eval_attempt]
      cases hf : env.fault s.1 k with
      | true => exact Or.inr ⟨0, by omega, hf, rfl⟩
      | false =>
          simp only [Bool.not_false, if_true]
          obtain ⟨hall, heq⟩ | ⟨i, hi, hfi, heq⟩ := ih (s.1 + 1, s.2)
          · refine Or.inl ⟨fun i hi => ?_, ?_⟩
            · cases i with
              | zero => exact hf
              | succ i =>
                  rw [← hall i (by omega)]
                  congr 1
                  omega
            · rw [heq]
              simp only [Nat.add_right_comm _ 1 m]
              rfl
          · refine Or.inr ⟨i + 1, by omega, ?_, ?_⟩
            · rw [← hfi]
              congr 1
              simp only
              omega
            · rw [heq]
              simp only [Nat.add_right_comm _ 1 i]
              rfl

end Prog

end Lib
