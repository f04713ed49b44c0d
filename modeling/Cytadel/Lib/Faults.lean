import Cytadel.Lib.Txn

/-!
# How a program meets a failing call

A statement program may give up at the first call that fails, with a result
that says so: that is `FailsTo`, and a run of such a program that did not give
up met no failure and is the failure-free run. `Clean` is the converse, that
it gives up only when some call fails. Both are read off the tree and compose
along `bind`.
-/

namespace Lib.Prog

variable {κ τ δ α β : Type}

/-- Every result of the program has the property. -/
def Always (Q : α → Prop) : Prog κ τ δ α → Prop
  | .ret a => Q a
  | .call _ _ cont => ∀ r, (cont r).Always Q

/-- A failure ends in a bad result. -/
def FailsTo (bad : α → Prop) : Prog κ τ δ α → Prop
  | .ret _ => True
  | .call _ _ cont => (cont .error).Always bad ∧ ∀ r, (cont r).FailsTo bad

/-- The replies of a call that does not fail: a refusal only where the write
refuses something. -/
def NoFault (w : Option (τ → δ → Option δ)) : Reply τ δ → Prop
  | .error => False
  | .constraint => ∃ f, w = some f ∧ ∃ now d, f now d = none
  | .done _ _ => True

/-- Where no call fails the result is good. -/
def Clean (good : α → Prop) : Prog κ τ δ α → Prop
  | .ret a => good a
  | .call _ w cont => ∀ r, NoFault w r → (cont r).Clean good

section Rules

variable {bad' : β → Prop} {good' : β → Prop}

theorem Always.bind {Q : α → Prop} {Q' : β → Prop} {p : Prog κ τ δ α}
    {f : α → Prog κ τ δ β} (hp : p.Always Q) (hf : ∀ a, Q a → (f a).Always Q') :
    (p >>= f).Always Q' := by
  induction p with
  | ret a => exact hf a hp
  | call k w cont ih => exact fun r => ih r (hp r)

theorem FailsTo.bind (bad : α → Prop) {p : Prog κ τ δ α} {f : α → Prog κ τ δ β}
    (hp : p.FailsTo bad) (hbad : ∀ a, bad a → (f a).Always bad')
    (hf : ∀ a, (f a).FailsTo bad') : (p >>= f).FailsTo bad' := by
  induction p with
  | ret a => exact hf a
  | call k w cont ih =>
      exact ⟨Always.bind hp.1 hbad, fun r => ih r (hp.2 r)⟩

theorem Clean.bind (good : α → Prop) {p : Prog κ τ δ α} {f : α → Prog κ τ δ β}
    (hp : p.Clean good) (hf : ∀ a, good a → (f a).Clean good') : (p >>= f).Clean good' := by
  induction p with
  | ret a => exact hf a hp
  | call k w cont ih => exact fun r hr => ih r (hp r hr)

theorem attempt_clean (k : κ) : (attempt k : Prog κ τ δ Bool).Clean (· = true) := by
  intro r hr
  cases r with
  | error => exact hr.elim
  | constraint =>
      obtain ⟨f, hf, -⟩ := hr
      cases hf
  | done now d => exact rfl

theorem attemptAll_clean (k : κ) (n : ℕ) :
    (attemptAll k n : Prog κ τ δ Bool).Clean (· = true) := by
  induction n with
  | zero => exact rfl
  | succ n ih =>
      refine Clean.bind _ (attempt_clean k) fun a ha => ?_
      rw [if_pos ha]
      exact ih

theorem attempt_failsTo (k : κ) : (attempt k : Prog κ τ δ Bool).FailsTo (· = false) := by
  refine ⟨rfl, fun r => ?_⟩
  cases r <;> trivial

theorem attemptAll_failsTo_false (k : κ) (n : ℕ) :
    (attemptAll k n : Prog κ τ δ Bool).FailsTo (· = false) := by
  induction n with
  | zero => trivial
  | succ n ih =>
      refine FailsTo.bind _ (attempt_failsTo k) (fun a ha => ?_) fun a => ?_
      · rw [ha]
        rfl
      · cases a
        · trivial
        · exact ih

theorem timestamp_failsTo (k : κ) :
    (timestamp k : Prog κ τ δ (Option τ)).FailsTo (· = none) := by
  refine ⟨rfl, fun r => ?_⟩
  cases r <;> trivial

theorem exec_failsTo (k : κ) (f : τ → δ → Option δ) :
    (exec k f : Prog κ τ δ Step).FailsTo (· = .error) := by
  refine ⟨rfl, fun r => ?_⟩
  cases r <;> trivial

theorem select_failsTo (k : κ) (g : δ → α) :
    (select k g : Prog κ τ δ (Option α)).FailsTo (· = none) := by
  refine ⟨rfl, fun r => ?_⟩
  cases r <;> trivial

/-- Go on if the first part did, and otherwise answer what is bad. -/
theorem FailsTo.guard {p : Prog κ τ δ Bool} {q : Prog κ τ δ β} {b : β}
    (hp : p.FailsTo (· = false)) (hb : bad' b) (hq : q.FailsTo bad') :
    (p >>= fun ok => if ok then q else pure b).FailsTo bad' := by
  refine FailsTo.bind _ hp (fun ok hok => ?_) fun ok => ?_
  · rw [hok]
    exact hb
  · cases ok
    · trivial
    · exact hq

theorem FailsTo.guardNot {p : Prog κ τ δ Bool} {q : Prog κ τ δ β} {b : β}
    (hp : p.FailsTo (· = false)) (hb : bad' b) (hq : q.FailsTo bad') :
    (p >>= fun ok => if !ok then pure b else q).FailsTo bad' := by
  refine FailsTo.bind _ hp (fun ok hok => ?_) fun ok => ?_
  · rw [hok]
    exact hb
  · cases ok
    · trivial
    · exact hq

end Rules

/-! ## Runs on a session -/

section Sessions

variable {ρ : Type} {env : Env κ τ} {bad : α → Prop}

theorem Always.run {Q : α → Prop} {p : Prog κ τ δ α} (h : p.Always Q) (s : Session δ ρ) :
    Q (p.run env s).1 := by
  induction p generalizing s with
  | ret a => exact h
  | call k w cont ih => exact ih _ (h _) _

/-- Where every failure gives up, a run that did not is the failure-free run,
on the durable value as in a transaction. -/
theorem FailsTo.run_faultless {p : Prog κ τ δ α} (h : p.FailsTo bad) (env : Env κ τ)
    (s : Session δ ρ) (hok : ¬ bad (p.run env s).1) :
    p.run env.faultless s = p.run env s := by
  induction p generalizing s with
  | ret a => rfl
  | call k w cont ih =>
      have hf : env.fault s.calls k = false := by
        cases hfk : env.fault s.calls k with
        | false => rfl
        | true =>
            have herr : (s.call env k w).1 = .error := by simp [Session.call, hfk]
            refine absurd ?_ hok
            rw [Prog.run, herr]
            exact h.1.run _
      have hcall : s.call env.faultless k w = s.call env k w := by
        unfold Session.call
        rw [hf, Env.faultless_fault, Env.faultless_clock]
      rw [Prog.run, Prog.run, hcall]
      exact ih _ (h.2 _) _ hok

theorem call_calls (env : Env κ τ) (k : κ) (w : Option (τ → δ → Option δ)) (s : Session δ ρ) :
    (s.call env k w).2.calls = s.calls + 1 := by
  unfold Session.call Session.write Session.tick
  split
  · rfl
  · split
    · rfl
    · split
      · rfl
      · split <;> rfl

theorem le_run_calls (p : Prog κ τ δ α) (env : Env κ τ) (s : Session δ ρ) :
    s.calls ≤ (p.run env s).2.calls := by
  induction p generalizing s with
  | ret a => exact Nat.le_refl _
  | call k w cont ih =>
      have hcall := call_calls env k w s
      have hrest := ih (s.call env k w).1 (s.call env k w).2
      rw [Prog.run]
      omega

/-- A program opens no transaction. -/
theorem run_closed (p : Prog κ τ δ α) (env : Env κ τ) {s : Session δ ρ} (hs : s.txn = none) :
    (p.run env s).2.txn = none := by
  induction p generalizing s with
  | ret a => exact hs
  | call k w cont ih =>
      refine ih _ ?_
      unfold Session.call
      split
      · exact hs
      · split
        · exact hs
        · split
          · exact hs
          · rw [Session.write, Session.tick]
            simp only [hs]

theorem call_noFault {k : κ} {w : Option (τ → δ → Option δ)} {s : Session δ ρ}
    (hf : env.fault s.calls k = false) : NoFault w (s.call env k w).1 := by
  unfold Session.call
  simp only [hf, Bool.false_eq_true, if_false]
  cases w with
  | none => trivial
  | some f =>
      cases hd : f (env.clock s.calls) s.view with
      | none => simpa [hd] using ⟨f, rfl, _, _, hd⟩
      | some d => simp [hd, NoFault]

/-- A result that is not good comes of a call of the run that failed. -/
theorem Clean.run_fault {good : α → Prop} {p : Prog κ τ δ α} (h : p.Clean good)
    (env : Env κ τ) (s : Session δ ρ) (hbad : ¬ good (p.run env s).1) :
    ∃ n < (p.run env s).2.calls, ∃ k, env.fault n k = true := by
  induction p generalizing s with
  | ret a => exact absurd h hbad
  | call k w cont ih =>
      cases hf : env.fault s.calls k with
      | true =>
          have hle := le_run_calls (cont (s.call env k w).1) env (s.call env k w).2
          rw [call_calls] at hle
          exact ⟨s.calls, hle, k, hf⟩
      | false => exact ih _ (h _ (call_noFault hf)) _ hbad

end Sessions

end Lib.Prog

namespace Lib.Session

variable {κ τ δ ρ : Type} {env : Env κ τ} {k : κ} {s s' : Session δ ρ}

theorem begin_faultless (h : (s.begin env k).1 = true) :
    s.txn = none ∧ s.begin env.faultless k = s.begin env k := by
  rw [begin] at h ⊢
  split at h
  · cases h
  · next hno =>
      rw [Bool.or_eq_true, not_or, Bool.not_eq_true, Bool.not_eq_true] at hno
      refine ⟨by simpa using hno.2, ?_⟩
      rw [begin, Env.faultless_fault, hno.1]

theorem commit_faultless (h : (s.commit env k).1 = true) :
    (s.commit env k).2.txn = none ∧ s.commit env.faultless k = s.commit env k := by
  rw [commit] at h ⊢
  split at h
  · cases h
  · next hno =>
      rw [Bool.not_eq_true] at hno
      rw [commit, Env.faultless_fault, hno, if_neg Bool.false_ne_true]
      cases ht : s.txn with
      | none =>
          rw [ht] at h
          cases h
      | some d => exact ⟨rfl, rfl⟩

@[simp] theorem reopen_reopen (s : Session δ ρ) : s.reopen.reopen = s.reopen := rfl

theorem reopen_eq (h : s.txn = none) : s.reopen = s := by
  rw [reopen, ← h]

/-- A rollback leaves what a new connection finds, whether it fails or not. -/
theorem rollback_faultless (env : Env κ τ) (k : κ) (s : Session δ ρ) :
    s.rollback env.faultless k = (s.rollback env k).reopen := by
  rw [rollback, rollback, Env.faultless_fault, if_neg Bool.false_ne_true]
  split <;> rfl

/-- A transaction is open between two calls of the program only after some call
of the connection has failed. -/
def Settled (env : Env κ τ) (s : Session δ ρ) : Prop :=
  s.txn ≠ none → ∃ n < s.calls, ∃ k, env.fault n k = true

theorem Settled.of_closed (h : s.txn = none) : s.Settled env := fun hopen => absurd h hopen

/-- Calls that leave the copy alone. -/
theorem Settled.of_eq (h : s.Settled env) (htxn : s'.txn = s.txn) (hcalls : s.calls ≤ s'.calls) :
    s'.Settled env := by
  intro hopen
  obtain ⟨n, hn, hfault⟩ := h (htxn ▸ hopen)
  exact ⟨n, by omega, hfault⟩

theorem Settled.rollback (env : Env κ τ) (k : κ) (s : Session δ ρ) :
    (s.rollback env k).Settled env := by
  rw [Session.rollback]
  split
  · next hfault => exact fun _ => ⟨s.calls, Nat.lt_succ_self _, k, hfault⟩
  · exact .of_closed rfl

theorem begin_false (h : (s.begin env k).1 = false) : (s.begin env k).2 = s.tick := by
  rw [begin] at h ⊢
  split at h
  · next hno => rw [if_pos hno]
  · cases h

end Lib.Session
