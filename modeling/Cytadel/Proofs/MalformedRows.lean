import Cytadel.Db.ScanPersist
import Cytadel.Proofs.CpeAttribution

/-!
# Rows that the evaluator calls malformed

The evaluator calls a range row malformed if it has no bound at all, or one that
is nothing but wildcards. The feed refuses the first kind, but only where the
version is `*`: an empty version makes a range row as well, and a bound of
wildcards is never looked at. What an entry must say so that its row can be
judged is stated here on the entry itself.
-/

namespace Cytadel.Db

open Cytadel Lib Match

/-! ## The evaluator -/

theorem scanBounds_none_iff {detected : Bytes} {bs : List (Bytes × BoundKind)} {acc : BoundScan} :
    scanBounds detected bs acc = none ↔ ∃ b ∈ bs, cpeBoundIsSentinelOnly b.1 = true := by
  induction bs generalizing acc with
  | nil => simp [scanBounds]
  | cons b bs ih =>
      obtain ⟨bound, kind⟩ := b
      simp only [scanBounds, List.exists_mem_cons_iff]
      by_cases hempty : bound.isEmpty = true
      · have hnot : cpeBoundIsSentinelOnly bound = false := by simp [cpeBoundIsSentinelOnly, hempty]
        rw [if_pos hempty, ih, hnot]
        simp
      · rw [if_neg hempty]
        by_cases hsent : cpeBoundIsSentinelOnly bound = true
        · simp [hsent]
        · rw [if_neg hsent]
          split <;> simp [ih, hsent]

theorem scanBounds_anySet {detected : Bytes} {bs : List (Bytes × BoundKind)} {acc acc' : BoundScan}
    (h : scanBounds detected bs acc = some acc') :
    acc'.anySet = (acc.anySet || bs.any fun b => !b.1.isEmpty) := by
  induction bs generalizing acc with
  | nil =>
      obtain rfl := Option.some.inj h
      simp
  | cons b bs ih =>
      obtain ⟨bound, kind⟩ := b
      simp only [scanBounds] at h
      split at h
      · next hempty =>
          rw [ih h]
          simp [hempty]
      · next hempty =>
          split at h
          · cases h
          · split at h <;> rw [ih h] <;> simp [hempty]

/-- A range row that says nothing, or that says it with a wildcard. -/
theorem cpeMatchEvaluate_malformed_iff (row : CpeMatchRow) (detected : Bytes) :
    cpeMatchEvaluate row detected = .malformedRow ↔
      row.vulnerable ≠ 0 ∧ row.isRange = true ∧
        ((∃ b ∈ row.bounds, cpeBoundIsSentinelOnly b.1 = true) ∨ ∀ b ∈ row.bounds, b.1 = []) := by
  rw [cpeMatchEvaluate]
  by_cases hvul : row.vulnerable = 0
  · simp [hvul]
  · rw [if_neg (by simpa using hvul)]
    by_cases hrange : row.isRange = true
    · rw [if_pos hrange, cpeEvaluateRangeRow]
      cases hscan : scanBounds detected row.bounds ⟨false, false, false⟩ with
      | none => simp [hvul, hrange, scanBounds_none_iff.mp hscan]
      | some acc =>
          have hsent : ¬ ∃ b ∈ row.bounds, cpeBoundIsSentinelOnly b.1 = true := by
            intro hs
            have hrefused : scanBounds detected row.bounds ⟨false, false, false⟩ = none :=
              scanBounds_none_iff.mpr hs
            rw [hscan] at hrefused
            cases hrefused
          have hset := scanBounds_anySet hscan
          rw [Bool.false_or] at hset
          have hnone : (∀ b ∈ row.bounds, b.1 = []) ↔ acc.anySet = false := by
            rw [hset, List.any_eq_false]
            simp
          rw [or_iff_right hsent, hnone]
          obtain ⟨anySet, anyFail, anyUndecidable⟩ := acc
          cases anySet <;> cases anyFail <;> cases anyUndecidable <;> simp [hvul, hrange]
    · rw [if_neg hrange]
      cases versionCompare detected row.version <;> simp [hrange]

/-! ## The entry -/

def boundKeys : List Bytes :=
  [ascii "versionStartIncluding", ascii "versionStartExcluding", ascii "versionEndIncluding",
    ascii "versionEndExcluding"]

/-- The version component of an entry's criteria. -/
def versionField (m : Json) : Option Bytes :=
  (jsonGetString (some m) (ascii "criteria")).bind fun c => cpe23Field (clipInto (1024 + 1) c) 5

/-- The entry is not about a vulnerability, or it names a version, or it has a
bound and no bound of wildcards. -/
def Judgeable (m : Json) : Prop :=
  jsonGetBool (some m) (ascii "vulnerable") = some false ∨
    (versionField m ≠ some [] ∧ versionField m ≠ some (ascii "*")) ∨
    ((∃ k ∈ boundKeys, readBound m k ≠ []) ∧
      ∀ k ∈ boundKeys, cpeBoundIsSentinelOnly (readBound m k) = false)

/-- The fields of a row that the evaluator reads. -/
theorem readCpeMatch_values {m : Json} {r : CpeRecord} (h : readCpeMatch m = some r) :
    (∃ v, versionField m = some v ∧ r.version = v.take 128) ∧
      [r.versionStartIncluding, r.versionStartExcluding, r.versionEndIncluding,
        r.versionEndExcluding] = boundKeys.map (readBound m) ∧
      (r.vulnerable = 0 ↔ jsonGetBool (some m) (ascii "vulnerable") = some false) := by
  simp only [readCpeMatch, Option.bind_eq_bind, Option.bind_eq_some_iff] at h
  obtain ⟨criteria, hcrit, part, -, vendor, -, product, -, version, hversion, h⟩ := h
  have hfield : versionField m = some version := by
    rw [jsonGetNonempty, Option.filter_eq_some_iff] at hcrit
    rw [versionField, hcrit.1, Option.bind_some, hversion]
  split at h
  · cases h
  · split at h
    · cases h
    · split at h
      · cases h
      · obtain rfl := Option.some.inj h
        refine ⟨⟨version, hfield, rfl⟩, rfl, ?_⟩
        cases jsonGetBool (some m) (ascii "vulnerable") with
        | none => simp
        | some b => cases b <;> simp

theorem take_eq_nil {s : Bytes} : s.take 128 = [] ↔ s = [] := by
  rw [List.take_eq_nil_iff]
  simp

theorem malformed_cases {novul star empty sentinel bound : Prop} :
    ¬ novul ∧ (star ∨ empty) ∧ (sentinel ∨ ¬ bound) ↔
      ¬ (novul ∨ (¬ empty ∧ ¬ star) ∨ (bound ∧ ¬ sentinel)) := by
  tauto

/-- The detected version has no part in it. -/
theorem storedRow_malformed_iff {cveId : Bytes} {m : Json} {row : CpeRow}
    (h : AddsRow cveId m row) (detected : Bytes) :
    cpeMatchEvaluate row.matchRow detected = .malformedRow ↔ ¬ Judgeable m := by
  obtain ⟨r, id, hr, rfl⟩ := h.read
  obtain ⟨⟨v, hv, hversion⟩, hbounds, hvul⟩ := readCpeMatch_values hr
  have hrange : ((r.row cveId id).matchRow.isRange = true) ↔ v = ascii "*" ∨ v = [] := by
    show (cpeIsStar r.version || r.version.isEmpty) = true ↔ _
    rw [hversion, Bool.or_eq_true, cpeIsStar, beq_iff_eq, List.isEmpty_iff]
    exact or_congr take_eq_star take_eq_nil
  have hrow : (r.row cveId id).matchRow.bounds.map Prod.fst = boundKeys.map (readBound m) := hbounds
  have hsome : ∀ P : Bytes → Prop, (∃ b ∈ (r.row cveId id).matchRow.bounds, P b.1) ↔
      ∃ k ∈ boundKeys, P (readBound m k) := by
    intro P
    have hmap : (∃ s ∈ (r.row cveId id).matchRow.bounds.map Prod.fst, P s) ↔
        ∃ s ∈ boundKeys.map (readBound m), P s := by rw [hrow]
    simpa only [List.mem_map, exists_exists_and_eq_and] using hmap
  have hsent := hsome fun s => cpeBoundIsSentinelOnly s = true
  have hset := hsome fun s => s ≠ []
  have hnone : (∀ b ∈ (r.row cveId id).matchRow.bounds, b.1 = []) ↔
      ¬ ∃ b ∈ (r.row cveId id).matchRow.bounds, b.1 ≠ [] := by simp
  have hvulnerable : (r.row cveId id).matchRow.vulnerable = r.vulnerable := rfl
  have hclean : (∀ k ∈ boundKeys, cpeBoundIsSentinelOnly (readBound m k) = false) ↔
      ¬ ∃ k ∈ boundKeys, cpeBoundIsSentinelOnly (readBound m k) = true := by simp
  simp only [cpeMatchEvaluate_malformed_iff, ne_eq, hrange, hnone, hsent, hset, hvulnerable,
    Judgeable, ← hvul, hv, Option.some.injEq, hclean]
  exact malformed_cases

/-- A stored row can be judged against every version exactly when its entry is
judgeable. -/
theorem storedRow_judged_iff {cveId : Bytes} {m : Json} {row : CpeRow}
    (h : AddsRow cveId m row) :
    (∀ detected, cpeMatchEvaluate row.matchRow detected ≠ .malformedRow) ↔ Judgeable m := by
  simp only [ne_eq, storedRow_malformed_iff h, not_not, forall_const]

/-- An entry on every version below a bound. -/
def boundedEntry (version bound : Bytes) : Json :=
  .object [
    (ascii "criteria",
      .string (ascii "cpe:2.3:a:acme:httpd:" ++ version ++ ascii ":*:*:*:*:*:*:*")),
    (ascii "versionEndExcluding", .string bound)]

theorem storedRow_judged_iff_below : ∃ row,
    AddsRow (ascii "CVE-2024-0001") (boundedEntry (ascii "*") (ascii "2.0")) row ∧
      ∀ detected, cpeMatchEvaluate row.matchRow detected ≠ .malformedRow := by
  have hread : (readCpeMatch (boundedEntry (ascii "*") (ascii "2.0"))).isSome = true := by decide
  obtain ⟨r, hr⟩ := Option.isSome_iff_exists.mp hread
  obtain ⟨id, hadds⟩ := addsRow_of_read hr (ascii "CVE-2024-0001")
  refine ⟨_, hadds, (storedRow_judged_iff hadds).mpr (Or.inr (Or.inr ⟨?_, by decide⟩))⟩
  exact ⟨ascii "versionEndExcluding", by decide, by decide⟩

/-- An entry of these is stored, and its row is malformed whatever is detected. -/
theorem storedRow_malformed {m : Json} (hread : (readCpeMatch m).isSome = true)
    (hbad : ¬ Judgeable m) : ∃ row, AddsRow (ascii "CVE-2024-0001") m row ∧
      ∀ detected, cpeMatchEvaluate row.matchRow detected = .malformedRow := by
  obtain ⟨r, hr⟩ := Option.isSome_iff_exists.mp hread
  obtain ⟨id, hadds⟩ := addsRow_of_read hr (ascii "CVE-2024-0001")
  exact ⟨_, hadds, fun detected => (storedRow_malformed_iff hadds detected).mpr hbad⟩

/-- An empty version without a bound, and a wildcard as the bound. -/
theorem storedRow_not_judged :
    (∃ row, AddsRow (ascii "CVE-2024-0001") (boundedEntry [] []) row ∧
      ∀ detected, cpeMatchEvaluate row.matchRow detected = .malformedRow) ∧
    ∃ row, AddsRow (ascii "CVE-2024-0001") (boundedEntry (ascii "*") (ascii "*")) row ∧
      ∀ detected, cpeMatchEvaluate row.matchRow detected = .malformedRow := by
  refine ⟨storedRow_malformed (by decide) ?_, storedRow_malformed (by decide) ?_⟩
  · rintro (hvul | ⟨hempty, -⟩ | ⟨⟨k, hk, hset⟩, -⟩)
    · revert hvul
      decide
    · revert hempty
      decide
    · revert k
      decide
  · rintro (hvul | ⟨-, hstar⟩ | ⟨-, hclean⟩)
    · revert hvul
      decide
    · revert hstar
      decide
    · revert hclean
      decide

end Cytadel.Db
