import Cytadel.Lib.Txn

/-!
# What a program can write

A relation that every write of a program respects is respected by the whole
program, whatever its calls answer: `Writes` is read off the tree, call by
call, and composes along `bind`. A program without writes at all moves nothing
of a session but the number of its calls.
-/

namespace Lib.Prog

variable {κ τ δ ρ α β : Type} {R : δ → δ → Prop}

/-- Every write of the program goes along `R`. -/
def Writes (R : δ → δ → Prop) : Prog κ τ δ α → Prop
  | .ret _ => True
  | .call _ w cont =>
      (∀ f, w = some f → ∀ now d d', f now d = some d' → R d d') ∧ ∀ r, (cont r).Writes R

theorem Writes.bind {p : Prog κ τ δ α} {f : α → Prog κ τ δ β} (hp : p.Writes R)
    (hf : ∀ a, (f a).Writes R) : (p >>= f).Writes R := by
  induction p with
  | ret a => exact hf a
  | call k w cont ih => exact ⟨hp.1, fun r => ih r (hp.2 r)⟩

theorem attempt_writes (k : κ) : (attempt k : Prog κ τ δ Bool).Writes R := by
  refine ⟨fun f h => (by cases h), fun r => ?_⟩
  cases r <;> trivial

theorem attemptAll_writes (k : κ) (n : ℕ) : (attemptAll k n : Prog κ τ δ Bool).Writes R := by
  induction n with
  | zero => trivial
  | succ n ih =>
      refine Writes.bind (attempt_writes k) fun a => ?_
      cases a
      · trivial
      · exact ih

theorem timestamp_writes (k : κ) : (timestamp k : Prog κ τ δ (Option τ)).Writes R := by
  refine ⟨fun f h => (by cases h), fun r => ?_⟩
  cases r <;> trivial

theorem select_writes (k : κ) (g : δ → α) : (select k g : Prog κ τ δ (Option α)).Writes R := by
  refine ⟨fun f h => (by cases h), fun r => ?_⟩
  cases r <;> trivial

theorem exec_writes {k : κ} {f : τ → δ → Option δ}
    (hf : ∀ now d d', f now d = some d' → R d d') :
    (exec k f : Prog κ τ δ Step).Writes R := by
  refine ⟨fun g h => ?_, fun r => ?_⟩
  · cases h
    exact hf
  · cases r <;> trivial

/-- The working copy goes along a relation that its writes go along. -/
theorem Writes.eval {p : Prog κ τ δ α} (h : p.Writes R) (hrefl : ∀ d, R d d)
    (htrans : ∀ a b c, R a b → R b c → R a c) (env : Env κ τ) (s : ℕ × δ) :
    R s.2 (p.eval env s).2.2 := by
  induction p generalizing s with
  | ret a => exact hrefl s.2
  | call k w cont ih =>
      have hcall : R s.2 (evalCall env k w s).2.2 := by
        unfold evalCall
        split
        · exact hrefl s.2
        · cases w with
          | none => exact hrefl s.2
          | some f =>
              simp only
              split
              · exact hrefl s.2
              · next d hd => exact h.1 f rfl _ _ _ hd
      exact htrans _ _ _ hcall (ih _ (h.2 _) _)

/-- Without a write, a call on a session is one on what the session sees. -/
theorem Writes.call_eq {k : κ} {w : Option (τ → δ → Option δ)} {cont : Reply τ δ → Prog κ τ δ α}
    (h : (Prog.call k w cont).Writes fun _ _ => False) (env : Env κ τ) (s : Session δ ρ) :
    s.call env k w = ((evalCall env k w (s.calls, s.view)).1, s.tick) ∧
      (evalCall env k w (s.calls, s.view)).2 = (s.calls + 1, s.view) := by
  unfold Session.call evalCall
  split
  · exact ⟨rfl, rfl⟩
  · cases w with
    | none => exact ⟨rfl, rfl⟩
    | some f =>
        simp only
        cases hd : f (env.clock s.calls) s.view with
        | none => exact ⟨rfl, rfl⟩
        | some d => exact (h.1 f rfl _ _ _ hd).elim

/-- Without a write, a program on a session only makes calls, and answers what
it does on what the session sees. -/
theorem Writes.run_eq {p : Prog κ τ δ α} (h : p.Writes fun _ _ => False) (env : Env κ τ)
    (s : Session δ ρ) :
    ∃ n, p.run env s = ((p.eval env (s.calls, s.view)).1, { s with calls := n }) := by
  induction p generalizing s with
  | ret a => exact ⟨s.calls, rfl⟩
  | call k w cont ih =>
      obtain ⟨hcall, heval⟩ := h.call_eq env s
      obtain ⟨n, hn⟩ := ih (evalCall env k w (s.calls, s.view)).1 (h.2 _) s.tick
      rw [run, Prog.eval, hcall, hn, heval]
      exact ⟨n, rfl⟩

end Lib.Prog
