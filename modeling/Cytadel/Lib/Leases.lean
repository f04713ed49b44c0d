import Mathlib.Data.List.Basic
import Mathlib.Logic.Function.Basic

/-!
# Numbers that are reused

A table gives out numbers, takes them back and gives them out again, to users
that nothing is known of and to users that are: what a known user has is a
lease, and no lease is for two numbers. A close is a request to take a number
back, whoever has it by then, so it is logged with whoever that was. As long
as a lease runs, none of the closes was for it.
-/

namespace Lib

inductive Holder (κ : Type*)
  | outside
  | lease (k : κ)
  deriving DecidableEq, Repr

/-- A close, who asked for it and who had the number. -/
structure Close (ν κ ι : Type*) where
  issuer : ι
  number : ν
  holder : Option (Holder κ)

structure Leases (ν κ ι : Type*) where
  holder : ν → Option (Holder κ)
  closes : List (Close ν κ ι)

namespace Leases

variable {ν κ ι : Type*} [DecidableEq ν] [DecidableEq κ]
variable (L : Leases ν κ ι)

def give (n : ν) (h : Holder κ) : Leases ν κ ι :=
  { L with holder := Function.update L.holder n (some h) }

/-- An outside user takes back its number. -/
def release (n : ν) : Leases ν κ ι := { L with holder := Function.update L.holder n none }

def close (issuer : ι) (n : ν) : Leases ν κ ι :=
  ⟨Function.update L.holder n none, L.closes ++ [⟨issuer, n, L.holder n⟩]⟩

omit [DecidableEq ν] in
/-- How many closes there were while the lease held their number. -/
def timesClosed (k : κ) : ℕ := L.closes.countP fun c => c.holder = some (.lease k)

omit [DecidableEq ν] in
structure Sound : Prop where
  held_once : ∀ {m n k}, L.holder m = some (.lease k) → L.holder n = some (.lease k) → m = n
  held_open : ∀ {n k}, L.holder n = some (.lease k) → L.timesClosed k = 0

variable {L} {m n : ν} {k l : κ} {issuer : ι}

theorem timesClosed_close :
    (L.close issuer n).timesClosed k =
      L.timesClosed k + if L.holder n = some (.lease k) then 1 else 0 := by
  simp [timesClosed, close, List.countP_append, List.countP_singleton]

omit [DecidableEq κ] in
theorem lease_of_update {h : Option (Holder κ)} (hh : h ≠ some (.lease k))
    (hm : Function.update L.holder n h m = some (.lease k)) :
    m ≠ n ∧ L.holder m = some (.lease k) := by
  by_cases hmn : m = n
  · subst hmn
    rw [Function.update_self] at hm
    exact absurd hm hh
  · rw [Function.update_of_ne hmn] at hm
    exact ⟨hmn, hm⟩

omit [DecidableEq κ] in
/-- What happens to the number of one user is nothing to another. -/
theorem holder_update_iff {h : Option (Holder κ)} (hn : L.holder n ≠ some (.lease k))
    (hh : h ≠ some (.lease k)) :
    Function.update L.holder n h m = some (.lease k) ↔ L.holder m = some (.lease k) := by
  refine ⟨fun hm => (lease_of_update hh hm).2, fun hm => ?_⟩
  have hmn : m ≠ n := by
    rintro rfl
    exact hn hm
  rw [Function.update_of_ne hmn, hm]

theorem Sound.outside (hs : L.Sound) : (L.give n .outside).Sound where
  held_once hm hn := hs.held_once (lease_of_update (by simp) hm).2 (lease_of_update (by simp) hn).2
  held_open hm := hs.held_open (lease_of_update (by simp) hm).2

theorem Sound.release (hs : L.Sound) : (L.release n).Sound where
  held_once hm hn := hs.held_once (lease_of_update (by simp) hm).2 (lease_of_update (by simp) hn).2
  held_open hm := hs.held_open (lease_of_update (by simp) hm).2

/-- A new lease. -/
theorem Sound.give (hs : L.Sound) (hnew : ∀ m, L.holder m ≠ some (.lease k))
    (hopen : L.timesClosed k = 0) : (L.give n (.lease k)).Sound := by
  have hcases : ∀ {m l}, (L.give n (.lease k)).holder m = some (.lease l) →
      l = k ∧ m = n ∨ l ≠ k ∧ L.holder m = some (.lease l) := by
    intro m l hm
    by_cases hlk : l = k
    · subst hlk
      refine .inl ⟨rfl, ?_⟩
      by_contra hmn
      simp only [Leases.give, Function.update_of_ne hmn] at hm
      exact hnew m hm
    · refine .inr ⟨hlk, (lease_of_update ?_ hm).2⟩
      simpa using Ne.symm hlk
  constructor
  · intro m m' l hm hm'
    rcases hcases hm with ⟨rfl, rfl⟩ | ⟨hl, hm⟩
    · rcases hcases hm' with ⟨-, rfl⟩ | ⟨hl, -⟩
      · rfl
      · exact absurd rfl hl
    · rcases hcases hm' with ⟨hl', -⟩ | ⟨-, hm'⟩
      · exact absurd hl' hl
      · exact hs.held_once hm hm'
  · intro m l hm
    rcases hcases hm with ⟨rfl, -⟩ | ⟨-, hm⟩
    · exact hopen
    · exact hs.held_open hm

theorem Sound.close (hs : L.Sound) : (L.close issuer n).Sound where
  held_once hm hn := hs.held_once (lease_of_update (by simp) hm).2 (lease_of_update (by simp) hn).2
  held_open {m k} hm := by
    obtain ⟨hmn, hm⟩ := lease_of_update (by simp) hm
    rw [timesClosed_close, hs.held_open hm, if_neg fun hn => hmn (hs.held_once hm hn)]

/-- The lease that held the number has been closed once. -/
theorem Sound.timesClosed_close_self (hs : L.Sound) (hn : L.holder n = some (.lease k)) :
    (L.close issuer n).timesClosed k = 1 := by
  rw [timesClosed_close, hs.held_open hn, if_pos hn]

theorem timesClosed_close_of_ne (hn : L.holder n = some (.lease k)) (hl : l ≠ k) :
    (L.close issuer n).timesClosed l = L.timesClosed l := by
  rw [timesClosed_close, hn, if_neg, Nat.add_zero]
  simpa using Ne.symm hl

end Leases

end Lib
