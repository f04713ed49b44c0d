import Mathlib.Order.Interval.Set.OrdConnected
import Cytadel.Match.CpeMatch
import Cytadel.Proofs.VersionOrder

/-!
# A row describes an interval of versions

Behind every answer of the comparator there is a key in a linear order, so a
bound describes a half line of keys, a range row the intersection of its
half lines, and an exact row a single key. All of these are order-connected.
`cpeMatchEvaluate` never names the set, but whatever it decides is decided by
membership in it: MATCH is inside, NO_MATCH is outside. A hole in a range
would need a key between two members that is no member.
-/

namespace Cytadel.Match

open Cytadel Lib

variable {d d₁ d₂ d₃ : Bytes}

/-- The keys a bound of this kind lets through. -/
noncomputable def BoundKind.allowed : BoundKind → Bytes → Set VersionKey
  | .startIncluding, b => Set.Ici (versionKey b)
  | .startExcluding, b => Set.Ioi (versionKey b)
  | .endIncluding, b => Set.Iic (versionKey b)
  | .endExcluding, b => Set.Iio (versionKey b)

theorem BoundKind.allowed_ordConnected (kind : BoundKind) (b : Bytes) :
    (kind.allowed b).OrdConnected := by
  cases kind with
  | startIncluding => exact Set.ordConnected_Ici
  | startExcluding => exact Set.ordConnected_Ioi
  | endIncluding => exact Set.ordConnected_Iic
  | endExcluding => exact Set.ordConnected_Iio

/-- A decided verdict on a bound is membership of the detected key. -/
theorem cpeBoundVerdict_sound {kind : BoundKind} {b : Bytes} :
    (cpeBoundVerdict kind (versionCompare d b) = .pass →
      versionKey d ∈ kind.allowed b) ∧
    (cpeBoundVerdict kind (versionCompare d b) = .fail →
      versionKey d ∉ kind.allowed b) := by
  have hsound := versionAnswer_keySound
  cases hc : versionCompare d b with
  | less =>
      have hlt : versionKey d < versionKey b := hsound.lt (versionAnswer_of_less hc)
      cases kind <;> simp [cpeBoundVerdict, BoundKind.allowed, hlt, le_of_lt hlt]
  | equal =>
      have heq : versionKey d = versionKey b := hsound.eq (versionAnswer_of_equal hc)
      cases kind <;> simp [cpeBoundVerdict, BoundKind.allowed, heq]
  | greater =>
      have hgt : versionKey b < versionKey d := hsound.gt (versionAnswer_of_greater hc)
      cases kind <;> simp [cpeBoundVerdict, BoundKind.allowed, hgt, le_of_lt hgt]
  | undecidable => simp [cpeBoundVerdict]

/-- The bound is set and has this verdict. -/
def boundIs (d : Bytes) (v : BoundVerdict) (p : Bytes × BoundKind) : Bool :=
  !p.1.isEmpty && decide (cpeBoundVerdict p.2 (versionCompare d p.1) = v)

/-- A flag the loop brings home was there before, or some set bound raised it. -/
theorem scanBounds_flags {bs : List (Bytes × BoundKind)} {acc acc' : BoundScan}
    (h : scanBounds d bs acc = some acc') :
    acc'.anyFail = (acc.anyFail || bs.any (boundIs d .fail)) ∧
    acc'.anyUndecidable = (acc.anyUndecidable || bs.any (boundIs d .undecidable)) := by
  induction bs generalizing acc with
  | nil =>
      simp only [scanBounds, Option.some.injEq] at h
      subst h
      simp
  | cons p rest ih =>
      obtain ⟨b, kind⟩ := p
      simp only [scanBounds] at h
      split at h
      · next hempty => simpa [boundIs, hempty] using ih h
      · next hset =>
          split at h
          · cases h
          · split at h <;> next hv => simpa [boundIs, hset, hv] using ih h

/-- The keys a row is about: none when it is not vulnerable, the meet of its
set bounds for a range row, the pinned key otherwise. -/
noncomputable def CpeMatchRow.allowed (row : CpeMatchRow) : Set VersionKey :=
  if row.vulnerable = 0 then ∅
  else if row.isRange then
    ⋂ p ∈ row.bounds, ⋂ _ : p.1 ≠ [], p.2.allowed p.1
  else {versionKey row.version}

theorem CpeMatchRow.allowed_ordConnected (row : CpeMatchRow) :
    row.allowed.OrdConnected := by
  rw [CpeMatchRow.allowed]
  split
  · exact Set.ordConnected_empty
  · split
    · exact Set.ordConnected_iInter fun p => Set.ordConnected_iInter fun _ =>
        Set.ordConnected_iInter fun _ => p.2.allowed_ordConnected p.1
    · exact Set.ordConnected_singleton

/-- A match means that every set bound passed. -/
theorem cpeEvaluateRangeRow_matched {row : CpeMatchRow}
    (h : cpeEvaluateRangeRow row d = .matched) :
    ∀ p ∈ row.bounds, p.1 ≠ [] → versionKey d ∈ p.2.allowed p.1 := by
  rw [cpeEvaluateRangeRow] at h
  cases hscan : scanBounds d row.bounds ⟨false, false, false⟩ with
  | none => simp [hscan] at h
  | some acc =>
      obtain ⟨hfail, hund⟩ := scanBounds_flags hscan
      have hflags : acc.anyFail = false ∧ acc.anyUndecidable = false := by
        cases hs : acc.anySet <;> cases hf : acc.anyFail <;>
          cases hu : acc.anyUndecidable <;> simp [hscan, hs, hf, hu] at h ⊢
      rw [hflags.1, Bool.false_or, eq_comm, List.any_eq_false] at hfail
      rw [hflags.2, Bool.false_or, eq_comm, List.any_eq_false] at hund
      intro p hp hne
      refine cpeBoundVerdict_sound.1 ?_
      -- neither FAIL nor UNDECIDABLE is left
      have hf := hfail p hp
      have hu := hund p hp
      cases hv : cpeBoundVerdict p.2 (versionCompare d p.1) <;>
        simp_all [boundIs]

/-- A decided non-match means that some set bound failed. -/
theorem cpeEvaluateRangeRow_noMatch {row : CpeMatchRow}
    (h : cpeEvaluateRangeRow row d = .noMatch) :
    ∃ p ∈ row.bounds, p.1 ≠ [] ∧ versionKey d ∉ p.2.allowed p.1 := by
  rw [cpeEvaluateRangeRow] at h
  cases hscan : scanBounds d row.bounds ⟨false, false, false⟩ with
  | none => simp [hscan] at h
  | some acc =>
      obtain ⟨hfail, -⟩ := scanBounds_flags hscan
      have hflag : acc.anyFail = true := by
        cases hs : acc.anySet <;> cases hf : acc.anyFail <;>
          cases hu : acc.anyUndecidable <;> simp [hscan, hs, hf, hu] at h ⊢
      rw [hflag, Bool.false_or, eq_comm, List.any_eq_true] at hfail
      obtain ⟨p, hp, hv⟩ := hfail
      simp only [boundIs, Bool.and_eq_true, Bool.not_eq_true', decide_eq_true_eq] at hv
      exact ⟨p, hp, by simpa using hv.1, cpeBoundVerdict_sound.2 hv.2⟩

/-- MATCH is inside the row's set of keys, and NO_MATCH is outside. -/
theorem cpeMatchEvaluate_sound {row : CpeMatchRow} :
    (cpeMatchEvaluate row d = .matched → versionKey d ∈ row.allowed) ∧
    (cpeMatchEvaluate row d = .noMatch → versionKey d ∉ row.allowed) := by
  rw [cpeMatchEvaluate, CpeMatchRow.allowed]
  by_cases hvul : row.vulnerable = 0
  · simp [hvul]
  · rw [if_neg (by simpa using hvul), if_neg hvul]
    by_cases hrange : row.isRange = true
    · rw [if_pos hrange, if_pos hrange]
      refine ⟨fun h => ?_, fun h => ?_⟩
      · simp only [Set.mem_iInter]
        exact cpeEvaluateRangeRow_matched h
      · obtain ⟨p, hp, hne, hnot⟩ := cpeEvaluateRangeRow_noMatch h
        simp only [Set.mem_iInter]
        exact fun hall => hnot (hall p hp hne)
    · rw [if_neg hrange, if_neg hrange]
      have hsound := versionAnswer_keySound
      cases hc : versionCompare d row.version with
      | less => simpa using (hsound.lt (versionAnswer_of_less hc)).ne
      | equal => simpa using hsound.eq (versionAnswer_of_equal hc)
      | greater => simpa using (hsound.gt (versionAnswer_of_greater hc)).ne'
      | undecidable => simp

/-- A row has no hole: between two matching versions nothing is a decided
non-match, and two versions the comparator calls equal are never told apart
by a decided match against a decided non-match. -/
theorem cpeMatchEvaluate_coherent (row : CpeMatchRow) (d₁ d₂ d₃ : Bytes) :
    (cpeMatchEvaluate row d₁ = .matched → cpeMatchEvaluate row d₃ = .matched →
      (versionCompare d₁ d₂ = .less ∨ versionCompare d₁ d₂ = .equal) →
      (versionCompare d₂ d₃ = .less ∨ versionCompare d₂ d₃ = .equal) →
      cpeMatchEvaluate row d₂ ≠ .noMatch) ∧
    (versionCompare d₁ d₂ = .equal →
      ¬(cpeMatchEvaluate row d₁ = .matched ∧ cpeMatchEvaluate row d₂ = .noMatch) ∧
      ¬(cpeMatchEvaluate row d₁ = .noMatch ∧ cpeMatchEvaluate row d₂ = .matched)) := by
  have hsound := versionAnswer_keySound
  refine ⟨fun h₁ h₃ h₁₂ h₂₃ h₂ => ?_, fun heq => ?_⟩
  · have hle₁₂ : versionKey d₁ ≤ versionKey d₂ :=
      hsound.le (h₁₂.imp versionAnswer_of_less versionAnswer_of_equal)
    have hle₂₃ : versionKey d₂ ≤ versionKey d₃ :=
      hsound.le (h₂₃.imp versionAnswer_of_less versionAnswer_of_equal)
    have hbetween : versionKey d₂ ∈ row.allowed :=
      row.allowed_ordConnected.out (cpeMatchEvaluate_sound.1 h₁)
        (cpeMatchEvaluate_sound.1 h₃) ⟨hle₁₂, hle₂₃⟩
    exact cpeMatchEvaluate_sound.2 h₂ hbetween
  · have hkey : versionKey d₁ = versionKey d₂ := hsound.eq (versionAnswer_of_equal heq)
    refine ⟨fun ⟨h₁, h₂⟩ => ?_, fun ⟨h₁, h₂⟩ => ?_⟩
    · exact cpeMatchEvaluate_sound.2 h₂ (hkey ▸ cpeMatchEvaluate_sound.1 h₁)
    · exact cpeMatchEvaluate_sound.2 h₁ (hkey ▸ cpeMatchEvaluate_sound.1 h₂)

/-- The range from 1.0 to 2.0 at 1.0, 1.5 and 2.0, and the two spellings of
the release 1.0. -/
theorem cpeMatchEvaluate_coherent_one_to_two :
    let row : CpeMatchRow := ⟨[0x2A], ascii "1.0", [], ascii "2.0", [], 1⟩
    cpeMatchEvaluate row (ascii "1.5") ≠ .noMatch ∧
      ¬(cpeMatchEvaluate row (ascii "1.0") = .matched ∧
        cpeMatchEvaluate row (ascii "1.0.0") = .noMatch) :=
  ⟨(cpeMatchEvaluate_coherent ⟨[0x2A], ascii "1.0", [], ascii "2.0", [], 1⟩
      (ascii "1.0") (ascii "1.5") (ascii "2.0")).1
      (by decide) (by decide) (by decide) (by decide),
    ((cpeMatchEvaluate_coherent ⟨[0x2A], ascii "1.0", [], ascii "2.0", [], 1⟩
      (ascii "1.0") (ascii "1.0.0") []).2 (by decide)).1⟩

end Cytadel.Match
