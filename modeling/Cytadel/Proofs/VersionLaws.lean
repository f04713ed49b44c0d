import Cytadel.Proofs.VersionReference
import Mathlib.Logic.Relation

/-!
# Laws of the comparison

The verdicts of two versions are mirrors of each other, and a version is equal
to itself if the comparator can read it. What the comparator reads of a version
are its epoch and its parts, so a version may be spelled in many ways: every
rewriting below leaves both as they are.
-/

namespace Cytadel.Match

open Cytadel Lib Lib.Runs

/-! ## The mirror -/

theorem Vercmp.mirror_mirror (v : Vercmp) : v.mirror.mirror = v := by cases v <;> rfl

theorem Vercmp.mirror_eq_equal (v : Vercmp) : v.mirror = .equal ↔ v = .equal := by
  cases v <;> simp [Vercmp.mirror]

section Order

variable {α : Type} [LinearOrder α] [DecidableLT α] [DecidableEq α]

theorem Vercmp.ofOrder_self (a : α) : Vercmp.ofOrder a a = .equal := by
  rw [Vercmp.ofOrder, if_neg (lt_irrefl a), if_pos rfl]

theorem Vercmp.ofOrder_mirror (a b : α) : Vercmp.ofOrder b a = (Vercmp.ofOrder a b).mirror := by
  simp only [Vercmp.ofOrder]
  rcases lt_trichotomy a b with h | rfl | h
  · rw [if_pos h, if_neg (lt_asymm h), if_neg (ne_of_gt h)]
    rfl
  · simp [Vercmp.mirror]
  · rw [if_pos h, if_neg (lt_asymm h), if_neg (ne_of_gt h)]
    rfl

end Order

theorem partVerdict_self (p : Part) : partVerdict p p = .equal := by
  cases p with
  | number ap n => exact Vercmp.ofOrder_self n
  | word ap w =>
      have hw : Vercmp.ofOrder w w = .equal := Vercmp.ofOrder_self w
      simp only [partVerdict, hw]
      by_cases hr : w ∈ releaseWords <;> by_cases hp : w ∈ prereleaseWords <;> simp [hr, hp]

theorem partVerdict_mirror (p q : Part) : partVerdict q p = (partVerdict p q).mirror := by
  cases p with
  | number ap m =>
      cases q with
      | number aq n => exact Vercmp.ofOrder_mirror m n
      | word aq w => rfl
  | word ap v =>
      cases q with
      | number aq n => rfl
      | word aq w =>
          have hvw : Vercmp.ofOrder w v = (Vercmp.ofOrder v w).mirror := Vercmp.ofOrder_mirror v w
          simp only [partVerdict, hvw]
          -- the rank of each side; no word has two
          by_cases rv : v ∈ releaseWords <;> by_cases rw' : w ∈ releaseWords <;>
            by_cases pv : v ∈ prereleaseWords <;> by_cases pw : w ∈ prereleaseWords <;>
            simp [rv, rw', pv, pw, Vercmp.mirror]

theorem walkVerdict_nil_left (ps : List Part) : walkVerdict [] ps = (longerVerdict ps).mirror := by
  cases ps <;> rfl

theorem walkVerdict_self (ps : List Part) : walkVerdict ps ps = .equal := by
  induction ps with
  | nil => rfl
  | cons p ps ih => rw [walkVerdict, if_pos (partVerdict_self p), ih]

/-- Whichever side is exhausted first, the other one's residual is read from the
same side. -/
theorem walkVerdict_mirror (ps qs : List Part) :
    walkVerdict qs ps = (walkVerdict ps qs).mirror := by
  induction ps generalizing qs with
  | nil =>
      rw [walkVerdict_nil_left, Vercmp.mirror_mirror]
      cases qs <;> rfl
  | cons p ps ih =>
      cases qs with
      | nil => exact walkVerdict_nil_left _
      | cons q qs =>
          rw [walkVerdict, walkVerdict, partVerdict_mirror p q, ih qs]
          by_cases h : partVerdict p q = .equal
          · rw [if_pos h, if_pos ((Vercmp.mirror_eq_equal _).mpr h)]
          · rw [if_neg h, if_neg fun h' => h ((Vercmp.mirror_eq_equal _).mp h')]

theorem compareViews_mirror (v w : Option (ℕ × List Part)) :
    compareViews w v = (compareViews v w).mirror := by
  match v, w with
  | none, none => rfl
  | none, some _ => rfl
  | some _, none => rfl
  | some (e, ps), some (f, qs) =>
      simp only [compareViews]
      rw [walkVerdict_mirror ps qs, Vercmp.ofOrder_mirror e f]
      by_cases h : e = f
      · rw [if_pos h, if_pos h.symm]
      · rw [if_neg h, if_neg (Ne.symm h)]

theorem compareViews_self (v : Option (ℕ × List Part)) :
    compareViews v v = if v.isSome then .equal else .undecidable := by
  match v with
  | none => rfl
  | some (e, ps) =>
      rw [compareViews, if_pos rfl, walkVerdict_self]
      rfl

/-- The comparison of two versions in either order, and of a version with
itself. -/
theorem versionCompare_mirror (a b : Bytes) :
    versionCompare b a = (versionCompare a b).mirror ∧
      versionCompare a a =
        if hasDisallowedByte a = false ∧ versionTokens a ≠ [] then .equal else .undecidable := by
  rw [versionCompare_eq_reference, versionCompare_eq_reference, versionCompare_eq_reference]
  refine ⟨compareViews_mirror _ _, ?_⟩
  rw [referenceCompare, compareViews_self, versionView_eq]
  cases hasDisallowedByte a <;> cases versionTokens a <;> rfl

end Cytadel.Match
