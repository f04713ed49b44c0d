import Mathlib.Logic.Relation
import Mathlib.Logic.Function.Basic
import Mathlib.Data.Fintype.Basic
import Cytadel.Lib.Writes

/-!
# Several connections to one store

A relation says what a single write may do. A session is within it, counted
from some value, if the durable value is reached from there by such writes, and
the copy of an open transaction from the durable value. Every call keeps that,
and so does every program whose writes go along the relation, whatever fails.

A store has any number of connections, and they act in any order. A connection
that is left in a transaction holds the lock: what the others do then does not
become durable. So the durable value only ever moves along the relation, and an
invariant of the single writes is one of the store.
-/

namespace Lib

open Relation

section Within

variable {κ τ δ ρ α : Type} {R : δ → δ → Prop}

/-- The durable value comes from `d` by writes along `R`, the open copy from the
durable value. -/
structure Session.Within (R : δ → δ → Prop) (d : δ) (s : Session δ ρ) : Prop where
  committed : ReflTransGen R d s.committed
  copy : ∀ x, s.txn = some x → ReflTransGen R s.committed x

namespace Session.Within

variable {d : δ} {s s' : Session δ ρ}

theorem of_eq (h : s.Within R d) (hc : s'.committed = s.committed) (ht : s'.txn = s.txn) :
    s'.Within R d where
  committed := hc ▸ h.committed
  copy x hx := hc ▸ h.copy x (ht ▸ hx)

/-- Nothing happened to the durable value, and no copy is open. -/
theorem of_closed (h : s.Within R d) (hc : s'.committed = s.committed) (ht : s'.txn = none) :
    s'.Within R d where
  committed := hc ▸ h.committed
  copy x hx := by
    rw [ht] at hx
    cases hx

theorem tick (h : s.Within R d) : s.tick.Within R d := h.of_eq rfl rfl

theorem reopen (h : s.Within R d) : s.reopen.Within R d := h.of_closed rfl rfl

theorem view (h : s.Within R d) : ReflTransGen R s.committed s.view := by
  rw [Session.view]
  cases ht : s.txn with
  | none => exact .refl
  | some x => exact h.copy x ht

theorem begin (h : s.Within R d) (env : Env κ τ) (k : κ) : (s.begin env k).2.Within R d := by
  rw [Session.begin]
  split
  · exact h.tick
  · refine ⟨h.committed, fun x hx => ?_⟩
    cases hx
    exact .refl

theorem rollback (h : s.Within R d) (env : Env κ τ) (k : κ) : (s.rollback env k).Within R d := by
  rw [Session.rollback]
  split
  · exact h.tick
  · exact h.of_closed rfl rfl

theorem commit (h : s.Within R d) (env : Env κ τ) (k : κ) : (s.commit env k).2.Within R d := by
  rw [Session.commit]
  split
  · exact h.tick
  · cases ht : s.txn with
    | none => exact h.tick
    | some x =>
        refine ⟨h.committed.trans (h.copy x ht), fun y hy => ?_⟩
        cases hy

/-- A write along the relation, in the copy if one is open. -/
theorem write (h : s.Within R d) {new : δ} (hnew : ReflTransGen R s.view new) :
    (s.write new).Within R d := by
  have hview := h.view.trans hnew
  rw [Session.write]
  cases ht : s.txn with
  | none => exact ⟨h.committed.trans hview, fun x hx => by
      simp only at hx
      cases hx⟩
  | some x =>
      refine ⟨h.committed, fun y hy => ?_⟩
      cases hy
      exact hview

theorem call (h : s.Within R d) (env : Env κ τ) (k : κ) {w : Option (τ → δ → Option δ)}
    (hw : ∀ f, w = some f → ∀ now new, f now s.view = some new → R s.view new) :
    (s.call env k w).2.Within R d := by
  unfold Session.call
  split
  · exact h.tick
  · cases w with
    | none => exact h.tick
    | some f =>
        simp only
        split
        · exact h.tick
        · next new hnew => exact h.tick.write (.single (hw f rfl _ _ hnew))

/-- A program all of whose writes go along the relation. -/
theorem run (h : s.Within R d) {p : Prog κ τ δ α} (hp : p.Writes R) (env : Env κ τ) :
    (p.run env s).2.Within R d := by
  induction p generalizing s with
  | ret a => exact h
  | call k w cont ih => exact ih _ (h.call env k fun f hf now new => hp.1 f hf now _ new) (hp.2 _)

end Session.Within

theorem Session.within_self (s : Session δ ρ) (hs : s.txn = none) : s.Within R s.committed where
  committed := .refl
  copy x hx := by
    rw [hs] at hx
    cases hx

end Within

/-! ## The store -/

variable {ι δ ρ : Type}

/-- The durable value, and the copy of each connection that is in a
transaction. -/
structure Store (ι δ : Type) where
  committed : δ
  txn : ι → Option δ

namespace Store

/-- A store that nobody is connected to. -/
def fresh (d : δ) : Store ι δ := ⟨d, fun _ => none⟩

/-- The store as one connection has it. -/
def session (s : Store ι δ) (i : ι) : Session δ ρ := ⟨s.committed, s.txn i, 0, []⟩

/-- Something that a connection does, or its end. -/
inductive Act (ι δ ρ : Type)
  | does (i : ι) (action : Session δ ρ → Session δ ρ)
  | closes (i : ι)

variable [DecidableEq ι]

def close (s : Store ι δ) (i : ι) : Store ι δ := { s with txn := Function.update s.txn i none }

variable [Fintype ι]

/-- Another connection is in a transaction. -/
def locked (s : Store ι δ) (i : ι) : Bool := decide (∃ j, j ≠ i ∧ (s.txn j).isSome = true)

def act (s : Store ι δ) : Act ι δ ρ → Store ι δ
  | .does i action =>
      let s' := action (s.session i)
      { committed := if s.locked i then s.committed else s'.committed
        txn := Function.update s.txn i s'.txn }
  | .closes i => s.close i

def run (s : Store ι δ) (acts : List (Act ι δ ρ)) : Store ι δ := acts.foldl act s

/-- Every connection is within the relation. -/
structure Within (R : δ → δ → Prop) (d : δ) (s : Store ι δ) : Prop where
  committed : ReflTransGen R d s.committed
  copy : ∀ i x, s.txn i = some x → ReflTransGen R s.committed x

/-- An action that keeps every session within the relation, from wherever it is
counted. -/
def Act.Keeps (R : δ → δ → Prop) : Act ι δ ρ → Prop
  | .does _ action => ∀ d s, s.Within R d → (action s).Within R d
  | .closes _ => True

variable {R : δ → δ → Prop} {d : δ} {s : Store ι δ}

omit [DecidableEq ι] [Fintype ι] in
theorem within_fresh (d : δ) : (fresh d : Store ι δ).Within R d where
  committed := .refl
  copy i x hx := by cases hx

omit [DecidableEq ι] [Fintype ι] in
theorem Within.session (h : s.Within R d) (i : ι) :
    (s.session i : Session δ ρ).Within R s.committed where
  committed := .refl
  copy x hx := h.copy i x hx

theorem locked_eq_false {i j : ι} (h : ¬ s.locked i = true) (hj : j ≠ i) : s.txn j = none := by
  rw [locked, decide_eq_true_iff] at h
  by_contra hsome
  exact h ⟨j, hj, Option.isSome_iff_ne_none.mpr hsome⟩

theorem Within.act (h : s.Within R d) {a : Act ι δ ρ} (ha : a.Keeps R) : (s.act a).Within R d := by
  cases a with
  | closes i =>
      refine ⟨h.committed, fun j x hx => ?_⟩
      by_cases hj : j = i
      · subst hj
        simp [Store.act, close] at hx
      · simp only [Store.act, close, Function.update_of_ne hj] at hx
        exact h.copy j x hx
  | does i action =>
      have hs := ha s.committed (s.session i) (h.session i)
      simp only [Store.act]
      by_cases hlocked : s.locked i = true
      · -- the lock is elsewhere: only the connection itself has moved
        rw [if_pos hlocked]
        refine ⟨h.committed, fun j x hx => ?_⟩
        by_cases hj : j = i
        · subst hj
          simp only [Function.update_self] at hx
          exact hs.committed.trans (hs.copy x hx)
        · simp only [Function.update_of_ne hj] at hx
          exact h.copy j x hx
      · rw [if_neg hlocked]
        refine ⟨h.committed.trans hs.committed, fun j x hx => ?_⟩
        by_cases hj : j = i
        · subst hj
          simp only [Function.update_self] at hx
          exact hs.copy x hx
        · simp only [Function.update_of_ne hj, locked_eq_false hlocked hj] at hx
          cases hx

theorem Within.run (h : s.Within R d) {acts : List (Act ι δ ρ)} (hacts : ∀ a ∈ acts, a.Keeps R) :
    (s.run acts).Within R d := by
  induction acts generalizing s with
  | nil => exact h
  | cons a acts ih =>
      exact ih (h.act (hacts a List.mem_cons_self))
        fun b hb => hacts b (List.mem_cons_of_mem _ hb)

end Store

end Lib
