import Cytadel.Lib.Steps
import Cytadel.Lib.Txn

/-!
# How a program goes under a schedule of failures

Which calls a program makes, and which of its parts it leaves out, often hangs
on the failing calls alone and not on the data. A course says how: it reads
the schedule from the number of the first call on, and either gives up or ends
at the number of the next call with what was not left out. `FollowsAt` ties a
program on a working copy to its course, with a postcondition on what the
course kept; its rules follow the forms of the program.
-/

namespace Lib

variable {κ τ δ α β γ : Type}

/-- From the number of the first call: nothing when the program gives up. -/
abbrev Course (β : Type) := StateT ℕ Option β

namespace Course

/-- A call that has to succeed. -/
def must (fault : ℕ → κ → Bool) (k : κ) : Course Unit :=
  fun n => if fault n k then none else some ((), n + 1)

/-- Calls of one kind, up to the first that fails: did they all succeed? -/
def tries (fault : ℕ → κ → Bool) (k : κ) : ℕ → Course Bool
  | 0 => pure true
  | m + 1 => fun n => if fault n k then some (false, n + 1) else tries fault k m (n + 1)

/-- A statement: one of its binds may fail, and then it is left out, but its
step has to succeed. -/
def statement (fault : ℕ → κ → Bool) (bind step : κ) (m : ℕ) : Course Bool := do
  if ← tries fault bind m then
    must fault step
    pure true
  else pure false

/-- Items one after the other, and what is kept of them. -/
def walk (one : α → Course (Option β)) : List α → Course (List β)
  | [] => pure []
  | a :: as => do
      let kept ← one a
      let rest ← walk one as
      pure (kept.toList ++ rest)

theorem bind_apply (c : Course β) (k : β → Course γ) (n : ℕ) :
    (c >>= k) n = (c n).bind fun p => k p.1 p.2 := rfl

theorem tries_succ_apply (fault : ℕ → κ → Bool) (k : κ) (m n : ℕ) :
    tries fault k (m + 1) n =
      if fault n k then some (false, n + 1) else tries fault k m (n + 1) := rfl

end Course

open Course Prog

variable {env : Env κ τ}

theorem Prog.eval_attemptAll (env : Env κ τ) (k : κ) (m : ℕ) (x : ℕ × δ) :
    ∃ ok n, tries env.fault k m x.1 = some (ok, n) ∧
      (attemptAll k m : Prog κ τ δ Bool).eval env x = (ok, n, x.2) := by
  induction m generalizing x with
  | zero => exact ⟨true, x.1, rfl, rfl⟩
  | succ m ih =>
      rw [attemptAll, eval_bind, eval_attempt, tries_succ_apply]
      cases hf : env.fault x.1 k with
      | true => exact ⟨false, x.1 + 1, rfl, rfl⟩
      | false => exact ih (x.1 + 1, x.2)

/-- The program, from here on, goes as the course does: it says that it must
stop where the course gives up, and otherwise it ends at the same call, with a
copy that is right for what the course kept. -/
def FollowsAt (env : Env κ τ) (p : Prog κ τ δ (α × Bool)) (c : Course β) (R : β → δ → Prop)
    (x : ℕ × δ) : Prop :=
  match c x.1 with
  | none => (p.eval env x).1.2 = true
  | some (b, n) => ∃ a d, p.eval env x = ((a, false), n, d) ∧ R b d

namespace FollowsAt

variable {p : Prog κ τ δ (α × Bool)} {c : Course β} {R : β → δ → Prop} {x : ℕ × δ}

theorem pure {a : α} {b : β} (h : R b x.2) :
    FollowsAt env (Pure.pure (a, false)) (Pure.pure b) R x := ⟨a, x.2, rfl, h⟩

/-- One part after the other, unless the first must stop. -/
theorem andThen {g : α × Bool → γ × Bool} {f : α × Bool → Prog κ τ δ (γ × Bool)}
    {ε : Type} {k : β → Course ε} {S : ε → δ → Prop} (hp : FollowsAt env p c R x)
    (hg : ∀ r, r.2 = true → (g r).2 = true)
    (hf : ∀ b r n d, R b d → FollowsAt env (f r) (k b) S (n, d)) :
    FollowsAt env (p >>= fun r => if r.2 then Pure.pure (g r) else f r) (c >>= k) S x := by
  rw [FollowsAt] at hp
  rw [FollowsAt, bind_apply, eval_bind]
  cases hc : c x.1 with
  | none =>
      rw [hc] at hp
      simp only [Option.bind_none, hp, if_true, eval_pure]
      exact hg _ hp
  | some r =>
      rw [hc] at hp
      obtain ⟨a, d, heval, hr⟩ := hp
      rw [heval]
      exact hf _ _ _ _ hr

/-- What the course computes from what it kept. -/
theorem keep {ε : Type} {k : β → ε} {S : ε → δ → Prop} (hp : FollowsAt env p c R x)
    (hS : ∀ b d, R b d → S (k b) d) :
    FollowsAt env p (c >>= fun b => Pure.pure (k b)) S x := by
  rw [FollowsAt] at hp
  rw [FollowsAt, bind_apply]
  cases hc : c x.1 with
  | none => rwa [hc] at hp
  | some r =>
      rw [hc] at hp
      obtain ⟨a, d, heval, hr⟩ := hp
      exact ⟨a, d, heval, hS _ _ hr⟩

/-- What the program computes from its result. -/
theorem result {g : α × Bool → γ × Bool} (hp : FollowsAt env p c R x)
    (hg : ∀ r, (g r).2 = r.2) : FollowsAt env (p >>= fun r => Pure.pure (g r)) c R x := by
  rw [FollowsAt] at hp
  rw [FollowsAt, eval_bind]
  cases hc : c x.1 with
  | none =>
      rw [hc] at hp
      exact (hg _).trans hp
  | some r =>
      rw [hc] at hp
      obtain ⟨a, d, heval, hr⟩ := hp
      refine ⟨(g (a, false)).1, d, ?_, hr⟩
      have hflag : g (a, false) = ((g (a, false)).1, false) := Prod.ext rfl (hg _)
      rw [heval, eval_pure, ← hflag]

theorem of_eval {p' : Prog κ τ δ (α × Bool)} (h : p.eval env x = p'.eval env x)
    (hp : FollowsAt env p' c R x) : FollowsAt env p c R x := by
  rw [FollowsAt, h]
  exact hp

/-- The clock has to be read. -/
theorem timestamp {k : κ} {q : Option τ → Prog κ τ δ (α × Bool)} {fail : α}
    (hnone : q none = Pure.pure (fail, true))
    (hsome : ∀ now n, FollowsAt env (q (some now)) c R (n, x.2)) :
    FollowsAt env (Prog.timestamp k >>= q) (must env.fault k >>= fun _ => c) R x := by
  rw [FollowsAt, bind_apply, eval_bind, eval_timestamp, must]
  cases hf : env.fault x.1 k with
  | true =>
      simp only [if_true, Option.bind_none, hnone]
      rfl
  | false => exact hsome (env.clock x.1) (x.1 + 1)

/-- A statement that no constraint refuses here: its binds decide whether it
is made, and its step has to succeed. -/
theorem statement {kb ks : κ} {m : ℕ} {f : τ → δ → Option δ} {q : Prog κ τ δ (α × Bool)}
    {k : Step → Prog κ τ δ (α × Bool)} {fail : α} {c₁ c₀ : Course β}
    (hf : ∀ now, (f now x.2).isSome = true) (herr : k .error = Pure.pure (fail, true))
    (hdone : ∀ now n d, f now x.2 = some d → FollowsAt env (k .done) c₁ R (n, d))
    (hskip : ∀ n, FollowsAt env q c₀ R (n, x.2)) :
    FollowsAt env
      (do
        if ← attemptAll kb m then
          let r ← exec ks f
          k r
        else q)
      (do if ← Course.statement env.fault kb ks m then c₁ else c₀) R x := by
  obtain ⟨ok, n, htries, heval⟩ := eval_attemptAll env kb m x
  rw [FollowsAt, eval_bind, heval, bind_apply, Course.statement, bind_apply, htries]
  cases ok with
  | false => exact hskip n
  | true =>
      simp only [Option.bind_some, if_true, bind_apply, must, eval_bind]
      obtain ⟨hfault, hstep⟩ | ⟨-, hn, -⟩ | ⟨hfault, d, hd, hstep⟩ :=
        exec_cases env ks f (n, x.2)
      · simp only at hfault
        rw [hstep, herr, hfault]
        rfl
      · have hsome := hf (env.clock n)
        rw [hn] at hsome
        cases hsome
      · simp only at hfault
        rw [hstep, hfault]
        exact hdone _ _ _ hd

/-- A statement at the end: the course keeps whether it was made. -/
theorem statement_keep {kb ks : κ} {m : ℕ} {f : τ → δ → Option δ} {done skip fail : α}
    {k : Step → Prog κ τ δ (α × Bool)} {g : Bool → β}
    (hf : ∀ now, (f now x.2).isSome = true) (herr : k .error = Pure.pure (fail, true))
    (hok : k .done = Pure.pure (done, false))
    (hdone : ∀ now d, f now x.2 = some d → R (g true) d) (hskip : R (g false) x.2) :
    FollowsAt env
      (do
        if ← attemptAll kb m then
          let r ← exec ks f
          k r
        else Pure.pure (skip, false))
      (Course.statement env.fault kb ks m >>= fun ok => Pure.pure (g ok)) R x := by
  have hsplit : (fun ok => (Pure.pure (g ok) : Course β)) =
      fun ok => if ok then Pure.pure (g true) else Pure.pure (g false) := by
    funext ok
    cases ok <;> rfl
  rw [hsplit]
  refine statement hf herr (fun now n d hd => ?_) fun n => pure hskip
  rw [hok]
  exact pure (hdone now d hd)

end FollowsAt

/-! ## Nothing fails -/

namespace Course

theorem tries_faultless (k : κ) (m n : ℕ) :
    tries (fun _ _ => false) k m n = some (true, n + m) := by
  induction m generalizing n with
  | zero => rfl
  | succ m ih =>
      rw [tries_succ_apply, if_neg Bool.false_ne_true, ih]
      simp only [Nat.add_right_comm, Nat.add_assoc]

theorem statement_faultless (kb ks : κ) (m n : ℕ) :
    statement (fun _ _ => false) kb ks m n = some (true, n + m + 1) := by
  rw [statement, bind_apply, tries_faultless]
  rfl

/-- A walk in which every item is kept. -/
theorem walk_all {one : α → Course (Option β)} {f : α → β}
    (h : ∀ a n, ∃ n', one a n = some (some (f a), n')) (as : List α) (n : ℕ) :
    ∃ n', walk one as n = some (as.map f, n') := by
  induction as generalizing n with
  | nil => exact ⟨n, rfl⟩
  | cons a as ih =>
      obtain ⟨n₁, h₁⟩ := h a n
      obtain ⟨n₂, h₂⟩ := ih n₁
      refine ⟨n₂, ?_⟩
      rw [walk, bind_apply, h₁, Option.bind_some, bind_apply, h₂]
      rfl

end Course

end Lib
