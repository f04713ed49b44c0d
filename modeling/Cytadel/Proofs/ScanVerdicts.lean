import Mathlib.Algebra.GroupWithZero.Nat
import Mathlib.Data.List.Count
import Cytadel.Proofs.ScanGroups
import Cytadel.Proofs.PageTables
import Cytadel.Proofs.ScanAtomicity

/-!
# One row for each CVE

A call that answered OK has written one row for each CVE among the candidates
that is not malformed throughout, and the verdict in it is the three-valued OR
of the outcomes of its rows. The verdict sees only which outcomes occur, so it
does not depend on the order of the rows.
-/

namespace Cytadel.Db

open Cytadel Cytadel.Match Lib

variable {ρ : Type} {env : Env Call Bytes} {scanId : ℤ} {det : Detection}

/-! ## The verdict -/

/-- Any match decides, then any undecided row, then any row that rules the
version out; malformed rows say nothing. -/
def kleeneOr (outcomes : List CpeMatch) : Option MatchStatus :=
  if .matched ∈ outcomes then some .confirmed
  else if .undecidable ∈ outcomes then some .undetermined
  else if .noMatch ∈ outcomes then some .notAffected
  else none

/-- The flags of a fold, on top of those there were. -/
theorem foldl_accumulateOutcome (outcomes : List CpeMatch) (a : Aggregate) :
    outcomes.foldl accumulateOutcome a =
      { anyMatch := a.anyMatch || decide (.matched ∈ outcomes)
        anyUndecidable := a.anyUndecidable || decide (.undecidable ∈ outcomes)
        anyNoMatch := a.anyNoMatch || decide (.noMatch ∈ outcomes)
        malformedCount := a.malformedCount + outcomes.count .malformedRow } := by
  induction outcomes generalizing a with
  | nil => simp
  | cons o outcomes ih =>
      rw [List.foldl_cons, ih]
      cases o <;> simp [accumulateOutcome, Nat.add_comm, Nat.add_left_comm]

theorem finalizeVerdict_foldl (outcomes : List CpeMatch) :
    finalizeVerdict (outcomes.foldl accumulateOutcome .zero) =
      ⟨kleeneOr outcomes, outcomes.count .malformedRow⟩ := by
  simp [foldl_accumulateOutcome, finalizeVerdict, Aggregate.zero, kleeneOr]

/-- What the rows say of the detected version. -/
def outcomes (det : Detection) (rows : List CpeRow) : List CpeMatch :=
  rows.map fun r => cpeMatchEvaluate r.matchRow det.detectedVersion

theorem aggregateCveVerdict_eq (det : Detection) (rows : List CpeRow) :
    aggregateCveVerdict (rows.map CpeRow.matchRow) det.detectedVersion =
      ⟨kleeneOr (outcomes det rows), (outcomes det rows).count .malformedRow⟩ := by
  rw [← finalizeVerdict_foldl, aggregateCveVerdict, outcomes, List.foldl_map, List.foldl_map]

theorem finalizeVerdict_groupOf (det : Detection) (run : Bytes × List CpeRow) :
    finalizeVerdict (groupOf det run).flags =
      ⟨kleeneOr (outcomes det run.2), (outcomes det run.2).count .malformedRow⟩ := by
  rw [← finalizeVerdict_foldl, outcomes, List.foldl_map]
  rfl

theorem kleeneOr_congr {os os' : List CpeMatch} (h : ∀ o, o ∈ os ↔ o ∈ os') :
    kleeneOr os = kleeneOr os' := by
  simp only [kleeneOr, h]

/-- There is a verdict unless every row is malformed. -/
theorem kleeneOr_isSome (os : List CpeMatch) :
    (kleeneOr os).isSome = true ↔ ∃ o ∈ os, o ≠ .malformedRow := by
  constructor
  · intro h
    rw [kleeneOr] at h
    split at h
    · next hm => exact ⟨_, hm, by simp⟩
    · split at h
      · next hm => exact ⟨_, hm, by simp⟩
      · split at h
        · next hm => exact ⟨_, hm, by simp⟩
        · cases h
  · rintro ⟨o, ho, hne⟩
    cases o with
    | malformedRow => exact absurd rfl hne
    | matched => simp [kleeneOr, ho]
    | undecidable =>
        rw [kleeneOr]
        split
        · rfl
        · simp
    | noMatch =>
        rw [kleeneOr]
        split
        · rfl
        · split
          · rfl
          · simp

/-! ## The candidates -/

instance : Std.Total candidateLe where
  total a b := by
    by_cases heq : a.cveId = b.cveId
    · rcases Nat.le_total a.id b.id with hid | hid
      · exact Or.inl ⟨Std.le_of_eq heq, fun _ => hid⟩
      · exact Or.inr ⟨Std.le_of_eq heq.symm, fun _ => hid⟩
    · rcases Std.le_total (a := a.cveId) (b := b.cveId) with h | h
      · exact Or.inl ⟨h, fun h' => absurd h' heq⟩
      · exact Or.inr ⟨h, fun h' => absurd h'.symm heq⟩

instance : IsTrans CpeRow candidateLe where
  trans a b c hab hbc := by
    refine ⟨Std.le_trans hab.1 hbc.1, fun hac => ?_⟩
    have hba : b.cveId = a.cveId := Std.le_antisymm (by rw [hac]; exact hbc.1) hab.1
    exact Nat.le_trans (hab.2 hba.symm) (hbc.2 (hba.trans hac))

/-- The candidate rows of a vendor and a product, in the order of the table. -/
def candidateRows (vendor product : Bytes) (d : Tables) : List CpeRow :=
  d.cveCpeMatches.filter (isCandidate vendor product)

theorem candidates_perm (vendor product : Bytes) (d : Tables) :
    (candidates vendor product d).Perm (candidateRows vendor product d) :=
  List.perm_insertionSort _ _

/-- The groups of the stream: one for each candidate CVE, with all its rows. -/
theorem candidates_groups (vendor product : Bytes) (d : Tables) :
    IsGrouping CpeRow.cveId (candidates vendor product d)
      (groupRuns CpeRow.cveId none (candidates vendor product d)) := by
  refine groupRuns_isGrouping ?_
  exact (List.pairwise_insertionSort candidateLe _).imp fun h => h.1

/-! ## The transaction -/

theorem flushLast_steps {cur : Option Group} {c c' : PersistCounts} {x x' : ℕ × Tables}
    (h : (flushLast scanId det cur c).eval env x = ((c', false), x')) :
    Steps (FlushEffect scanId det) cur.toList (c, x.2) (c', x'.2) := by
  cases cur with
  | none =>
      cases h
      exact .nil _
  | some g => exact .cons (flushGroup_effect h) (.nil _)

theorem updateMalformedDataCount_ok {n : ℕ} {x x' : ℕ × Tables}
    (h : (updateMalformedDataCount scanId n).eval env x = (true, x')) :
    malformedCountUpdate scanId n [] x.2 = some x'.2 := by
  simp only [updateMalformedDataCount, Prog.eval_bind, Prog.eval_attempt] at h
  cases hf : env.fault x.1 (.prepare .malformedCount) with
  | true => simp [hf, Prog.eval_pure] at h
  | false =>
      simp only [hf, Bool.not_false, if_true, Prog.eval_bind] at h
      obtain ⟨-, hb⟩ | ⟨i, -, -, hb⟩ :=
        Prog.attemptAll_cases env (Call.bind .malformedCount) 2 (x.1 + 1, x.2) <;> rw [hb] at h
      · simp only [if_true, Prog.eval_bind] at h
        obtain ⟨-, he⟩ | ⟨-, -, he⟩ | ⟨-, d, hd, he⟩ :=
          Prog.exec_cases env (Call.step .malformedCount) (malformedCountUpdate scanId n)
            (x.1 + 1 + 2, x.2) <;> rw [he] at h <;> cases h
        exact hd
      · cases h

/-- The stages of the transaction: the candidates are read, the loop and the
last flush go through, and the count is updated last. -/
theorem detectBody_stages {vendor product : Bytes} {c : PersistCounts} {x x' : ℕ × Tables}
    (h : (detectBody scanId vendor product det).eval env x = ((c, true), x')) :
    ∃ (n : ℕ) (cur : Option Group) (c₁ : PersistCounts) (y₁ y₂ : ℕ × Tables),
      (candidateLoop scanId det (candidates vendor product x.2) none .zero).eval env (n, x.2) =
        ((cur, c₁, false), y₁) ∧
      (flushLast scanId det cur c₁).eval env y₁ = ((c, false), y₂) ∧
      malformedCountUpdate scanId c.malformedEvents [] y₂.2 = some x'.2 := by
  rw [detectBody, Prog.eval_bind] at h
  have hview := prepareStatements_view env groupStatements x
  obtain ⟨⟨ok, y⟩, hp⟩ : ∃ r, (prepareStatements groupStatements).eval env x = r := ⟨_, rfl⟩
  rw [hp] at h hview
  cases ok with
  | false => cases h
  | true =>
      obtain ⟨n, d⟩ := y
      obtain rfl : d = x.2 := hview
      simp only [Bool.not_true, Bool.false_eq_true, if_false, Prog.eval_bind] at h
      obtain ⟨-, hb⟩ | ⟨i, -, -, hb⟩ :=
        Prog.attemptAll_cases env (Call.bind .candidates) 2 (n, x.2) <;> rw [hb] at h
      · simp only [Bool.not_true, Bool.false_eq_true, if_false, Prog.eval_bind,
          Prog.eval_select] at h
        cases hf : env.fault (n + 2) (.step .candidates) with
        | true =>
            simp only [hf, if_true] at h
            cases h
        | false =>
            simp only [hf, Bool.false_eq_true, if_false, Prog.eval_bind] at h
            obtain ⟨⟨⟨cur, c₁, failed⟩, y₁⟩, hl⟩ : ∃ r,
                (candidateLoop scanId det (candidates vendor product x.2) none .zero).eval env
                  (n + 2 + 1, x.2) = r := ⟨_, rfl⟩
            rw [hl] at h
            cases failed with
            | true => cases h
            | false =>
                simp only [Bool.false_eq_true, if_false, Prog.eval_bind] at h
                obtain ⟨⟨⟨c₂, failed⟩, y₂⟩, hlast⟩ : ∃ r,
                    (flushLast scanId det cur c₁).eval env y₁ = r := ⟨_, rfl⟩
                rw [hlast] at h
                cases failed with
                | true => cases h
                | false =>
                    simp only [Bool.false_eq_true, if_false, Prog.eval_bind] at h
                    obtain ⟨⟨done, y₃⟩, hup⟩ : ∃ r,
                        (updateMalformedDataCount scanId c₂.malformedEvents).eval env y₂ = r :=
                      ⟨_, rfl⟩
                    rw [hup] at h
                    cases h
                    exact ⟨_, cur, c₁, y₁, y₂, hl, hlast, updateMalformedDataCount_ok hup⟩
      · cases h

/-- The runs of the stream are flushed one by one, and the count is updated
last. -/
theorem detectBody_ok {vendor product : Bytes} {c : PersistCounts} {x x' : ℕ × Tables}
    (hids : ∀ row ∈ candidates vendor product x.2, row.badCveId = false)
    (h : (detectBody scanId vendor product det).eval env x = ((c, true), x')) :
    ∃ d, Steps (FlushEffect scanId det)
        ((groupRuns CpeRow.cveId none (candidates vendor product x.2)).map (groupOf det))
        (.zero, x.2) (c, d) ∧
      malformedCountUpdate scanId c.malformedEvents [] d = some x'.2 := by
  obtain ⟨n, cur, c₁, y₁, y₂, hloop, hlast, hup⟩ := detectBody_stages h
  obtain ⟨closed, o', hruns, rfl, hsteps⟩ := candidateLoop_runs (o := none) hids hloop
  refine ⟨y₂.2, ?_, hup⟩
  rw [hruns, List.map_append, ← Option.toList_map]
  exact hsteps.append (flushLast_steps hlast)

/-- The rows of `scan_results` that came on top. -/
def resultsSince (d d' : Tables) : List ScanResultRow :=
  d'.scanResults.drop d.scanResults.length

/-- The candidate rows of one CVE. -/
def candidatesOf (vendor product : Bytes) (d : Tables) (cveId : Bytes) : List CpeRow :=
  (candidateRows vendor product d).filter fun r => r.cveId = cveId

/-- What a detection with these candidates has to leave, when the tables were
`d` before and are `d'` after. -/
structure DetectionWritten (scanId : ℤ) (vendor product : Bytes) (det : Detection)
    (d d' : Tables) (counts : PersistCounts) : Prop where
  /-- Rows were added to `scan_results`, and the scan counts its malformed rows. -/
  tables : d' = { d with
    scanResults := d.scanResults ++ resultsSince d d'
    scans := Function.update d.scans scanId ((d.scans scanId).map fun st =>
      { st with malformedDataCount := st.malformedDataCount +
          (outcomes det (candidateRows vendor product d)).count .malformedRow }) }
  one : ((resultsSince d d').map (·.cveId)).Nodup
  /-- A CVE has a row just when one of its candidates is not malformed. -/
  complete : ∀ cveId, some cveId ∈ (resultsSince d d').map (·.cveId) ↔
    ∃ o ∈ outcomes det (candidatesOf vendor product d cveId), o ≠ .malformedRow
  /-- The row has the verdict of the candidates and the snapshot of the tables. -/
  row : ∀ row ∈ resultsSince d d', ∃ cveId cve, row.cveId = some cveId ∧
    (aggregateCveVerdict ((candidatesOf vendor product d cveId).map CpeRow.matchRow)
      det.detectedVersion).status = some row.matchStatus ∧
    kleeneOr (outcomes det (candidatesOf vendor product d cveId)) = some row.matchStatus ∧
    d.cves cveId = some cve ∧ row.severity = cve.severity ∧
    row.kevFlag = (if (d.kev cveId).isSome then 1 else 0) ∧
    row.epssScore = (d.epss cveId).map (·.epssScore) ∧
    row.scanId = scanId ∧ row.host = det.host ∧ row.port = det.port ∧
    row.service = det.service ∧ row.pluginId = det.pluginId ∧
    row.evidence = det.evidence ∧ row.remediation = det.remediation
  inserted : counts.rowsInserted = (resultsSince d d').length
  malformed : counts.malformedEvents =
    (outcomes det (candidateRows vendor product d)).count .malformedRow

/-! ## The groups against the candidates of a CVE -/

section Groups

variable {vendor product : Bytes} {d : Tables}

theorem outcomes_perm (det : Detection) {rows rows' : List CpeRow} (h : rows.Perm rows') :
    (outcomes det rows).Perm (outcomes det rows') := h.map _

/-- The outcomes of a group are those of its CVE. -/
theorem group_outcomes_perm (det : Detection) {run : Bytes × List CpeRow}
    (hrun : run ∈ groupRuns CpeRow.cveId none (candidates vendor product d)) :
    (outcomes det run.2).Perm (outcomes det (candidatesOf vendor product d run.1)) := by
  rw [(candidates_groups vendor product d).run run hrun]
  exact outcomes_perm det ((candidates_perm vendor product d).filter _)

theorem group_status (det : Detection) {run : Bytes × List CpeRow}
    (hrun : run ∈ groupRuns CpeRow.cveId none (candidates vendor product d)) :
    (finalizeVerdict (groupOf det run).flags).status =
      kleeneOr (outcomes det (candidatesOf vendor product d run.1)) := by
  rw [finalizeVerdict_groupOf]
  exact kleeneOr_congr fun o => (group_outcomes_perm det hrun).mem_iff

/-- The malformed rows of the groups are those of the candidates. -/
theorem groups_malformed (vendor product : Bytes) (d : Tables) (det : Detection) :
    (((groupRuns CpeRow.cveId none (candidates vendor product d)).map (groupOf det)).map
      fun g => g.flags.malformedCount).sum =
      (outcomes det (candidateRows vendor product d)).count .malformedRow := by
  have hcount : ∀ run : Bytes × List CpeRow, (groupOf det run).flags.malformedCount =
      (outcomes det run.2).count .malformedRow := fun run =>
    congrArg CveVerdict.malformedCount (finalizeVerdict_groupOf det run)
  have hflat := groupRuns_flatMap CpeRow.cveId none (candidates vendor product d)
  calc (((groupRuns CpeRow.cveId none (candidates vendor product d)).map (groupOf det)).map
        fun g => g.flags.malformedCount).sum
      = ((groupRuns CpeRow.cveId none (candidates vendor product d)).flatMap
          fun run => outcomes det run.2).count .malformedRow := by
        rw [List.count_flatMap, List.map_map]
        exact congrArg List.sum (List.map_congr_left fun run _ => hcount run)
    _ = (outcomes det (candidates vendor product d)).count .malformedRow := by
        simp only [outcomes, ← List.map_flatMap]
        rw [hflat]
        rfl
    _ = (outcomes det (candidateRows vendor product d)).count .malformedRow :=
        (outcomes_perm det (candidates_perm vendor product d)).count_eq _

/-- The CVEs that have a group with a verdict. -/
theorem mem_decided_groups (det : Detection) (cveId : Bytes) :
    cveId ∈ (((groupRuns CpeRow.cveId none (candidates vendor product d)).map
        (groupOf det)).filter Group.decided).map Group.cveId ↔
      ∃ o ∈ outcomes det (candidatesOf vendor product d cveId), o ≠ .malformedRow := by
  rw [← kleeneOr_isSome]
  constructor
  · intro h
    obtain ⟨g, hg, rfl⟩ := List.mem_map.mp h
    obtain ⟨hg, hdec⟩ := List.mem_filter.mp hg
    obtain ⟨run, hrun, rfl⟩ := List.mem_map.mp hg
    rw [Group.decided, group_status det hrun] at hdec
    exact hdec
  · intro h
    have hsome := h
    obtain ⟨o, ho, -⟩ := (kleeneOr_isSome _).mp h
    obtain ⟨row, hrow, -⟩ := List.mem_map.mp ho
    obtain ⟨hrow, hid⟩ := List.mem_filter.mp hrow
    have hmem : cveId ∈ (groupRuns CpeRow.cveId none (candidates vendor product d)).map (·.1) := by
      rw [(candidates_groups vendor product d).mem]
      exact ⟨row, (candidates_perm vendor product d).mem_iff.mpr hrow, by simpa using hid⟩
    obtain ⟨run, hrun, rfl⟩ := List.mem_map.mp hmem
    refine List.mem_map.mpr ⟨groupOf det run, List.mem_filter.mpr ⟨?_, ?_⟩, rfl⟩
    · exact List.mem_map_of_mem hrun
    · rw [Group.decided, group_status det hrun]
      exact hsome

end Groups

theorem forall₂_writtenAs_cveId {d : Tables} {gs : List Group} {new : List ScanResultRow}
    (h : List.Forall₂ (Group.WrittenAs scanId det d) gs new) :
    new.map (·.cveId) = (gs.map Group.cveId).map some := by
  induction h with
  | nil => rfl
  | cons hone _ ih =>
      obtain ⟨status, id, now, -, -, rfl⟩ := hone
      rw [List.map_cons, List.map_cons, ih]
      rfl

theorem forall₂_writtenAs_mem {d : Tables} {gs : List Group} {new : List ScanResultRow}
    {row : ScanResultRow} (h : List.Forall₂ (Group.WrittenAs scanId det d) gs new)
    (hrow : row ∈ new) : ∃ g ∈ gs, g.WrittenAs scanId det d row := by
  induction h with
  | nil => cases hrow
  | @cons g _ _ _ hone _ ih =>
      rcases List.mem_cons.mp hrow with rfl | hrow
      · exact ⟨g, List.mem_cons_self, hone⟩
      · obtain ⟨g', hg', hw⟩ := ih hrow
        exact ⟨g', List.mem_cons_of_mem _ hg', hw⟩

/-- The candidates have ids that fit the buffer of the group. -/
def CveIdsFit (vendor product : Bytes) (d : Tables) : Prop :=
  ∀ row ∈ candidateRows vendor product d, row.cveId ≠ [] ∧ row.cveId.length ≤ 64

theorem detection_written {vendor product : Bytes} {s : Session Tables ρ}
    (hok : (scanDetectAndPersist env scanId vendor product det s).status = .ok)
    (hids : CveIdsFit (vendor.map toLowerAscii) (product.map toLowerAscii) s.committed) :
    DetectionWritten scanId (vendor.map toLowerAscii) (product.map toLowerAscii) det s.committed
      (scanDetectAndPersist env scanId vendor product det s).session.committed
      (scanDetectAndPersist env scanId vendor product det s).counts := by
  obtain ⟨hfail, -⟩ | ⟨-, -, x, hbody, hsession⟩ :=
    scanDetectAndPersist_cases env scanId vendor product det s
  · exact absurd hok hfail
  rw [hsession]
  generalize (scanDetectAndPersist env scanId vendor product det s).counts = counts at hbody ⊢
  generalize vendor.map toLowerAscii = vendor at *
  generalize product.map toLowerAscii = product at *
  have hgood : ∀ row ∈ candidates vendor product s.committed, row.badCveId = false := by
    intro row hrow
    obtain ⟨hne, hlen⟩ := hids row ((candidates_perm vendor product s.committed).mem_iff.mp hrow)
    simp [CpeRow.badCveId, hne, hlen]
  obtain ⟨d, hsteps, hupdate⟩ := detectBody_ok hgood hbody
  obtain ⟨new, htab, hnew, hrows, hmal⟩ := steps_flush hsteps
  replace htab : d = { s.committed with scanResults := s.committed.scanResults ++ new } := htab
  rw [groups_malformed] at hmal
  have hmal' : counts.malformedEvents =
      (outcomes det (candidateRows vendor product s.committed)).count .malformedRow := by
    simpa [PersistCounts.zero] using hmal
  have hd' : x.2 = { s.committed with
      scanResults := s.committed.scanResults ++ new
      scans := Function.update s.committed.scans scanId ((s.committed.scans scanId).map fun st =>
        { st with malformedDataCount := st.malformedDataCount +
            (outcomes det (candidateRows vendor product s.committed)).count .malformedRow }) } := by
    simp only [malformedCountUpdate, Option.some.injEq] at hupdate
    rw [← hupdate, hmal', htab]
  have hsince : resultsSince s.committed x.2 = new := by
    rw [hd', resultsSince, List.drop_left]
  have hcves := forall₂_writtenAs_cveId hnew
  exact
    { tables := by rw [Session.durable, hsince, hd']
      one := by
        simp only [Session.durable, hsince, hcves]
        refine List.Nodup.map (Option.some_injective _) ?_
        refine (List.Sublist.map Group.cveId List.filter_sublist).nodup ?_
        rw [List.map_map]
        exact (candidates_groups vendor product s.committed).nodup
      complete := by
        intro cveId
        rw [← mem_decided_groups]
        simp only [Session.durable, hsince, hcves]
        exact List.mem_map_of_injective (Option.some_injective _)
      row := by
        intro row hrow
        simp only [Session.durable, hsince] at hrow
        obtain ⟨g, hg, status, id, now, hst, hfk, rfl⟩ := forall₂_writtenAs_mem hnew hrow
        obtain ⟨cve, hcve⟩ := Option.ne_none_iff_exists'.mp hfk
        obtain ⟨run, hrun, rfl⟩ := List.mem_map.mp (List.mem_of_mem_filter hg)
        have hkleene := (group_status det hrun).symm.trans hst
        refine ⟨run.1, cve, rfl, ?_, hkleene, hcve, ?_, rfl, rfl, rfl, rfl, rfl, rfl, rfl, rfl, rfl⟩
        · rw [aggregateCveVerdict_eq]
          exact hkleene
        · change severityOf run.1 s.committed = cve.severity
          have hcve' : s.committed.cves run.1 = some cve := hcve
          simp [severityOf, hcve']
      inserted := by
        simpa [Session.durable, hsince, PersistCounts.zero] using hrows
      malformed := hmal' }

/-! ## The order of the rows -/

/-- What was written, as CVEs with their verdicts. -/
def verdictsSince (d d' : Tables) : List (Option Bytes × MatchStatus) :=
  (resultsSince d d').map fun r => (r.cveId, r.matchStatus)

theorem DetectionWritten.mem_verdicts {vendor product : Bytes} {d d' : Tables}
    {counts : PersistCounts} (h : DetectionWritten scanId vendor product det d d' counts)
    (v : Option Bytes × MatchStatus) :
    v ∈ verdictsSince d d' ↔ ∃ cveId, v.1 = some cveId ∧
      kleeneOr (outcomes det (candidatesOf vendor product d cveId)) = some v.2 := by
  constructor
  · intro hv
    obtain ⟨row, hrow, rfl⟩ := List.mem_map.mp hv
    obtain ⟨cveId, _, hid, -, hkleene, -⟩ := h.row row hrow
    exact ⟨cveId, hid, hkleene⟩
  · rintro ⟨cveId, hid, hkleene⟩
    have hsome : some cveId ∈ (resultsSince d d').map (·.cveId) := by
      rw [h.complete, ← kleeneOr_isSome, hkleene]
      rfl
    obtain ⟨row, hrow, hrowId⟩ := List.mem_map.mp hsome
    obtain ⟨cveId', _, hid', -, hkleene', -⟩ := h.row row hrow
    obtain rfl : cveId' = cveId := Option.some.inj (hid'.symm.trans hrowId)
    refine List.mem_map.mpr ⟨row, hrow, Prod.ext (hrowId.trans hid.symm) ?_⟩
    exact Option.some.inj (hkleene'.symm.trans hkleene)

/-- Neither the candidates nor their outcomes look at the row id. -/
theorem outcomes_candidatesOf_content (det : Detection) (vendor product : Bytes) (d : Tables)
    (cveId : Bytes) :
    outcomes det (candidatesOf vendor product d cveId) =
      outcomes det (((d.cveCpeMatches.map CpeRow.content).filter
        (isCandidate vendor product)).filter fun r => r.cveId = cveId) := by
  simp only [candidatesOf, candidateRows, outcomes, List.filter_map, List.map_map]
  rfl

/-- For every content of the tables, a detection that answers OK has written
the verdict on each candidate CVE, once and completely; and from tables that
hold the same rows in another order it would have written the same verdicts. -/
theorem scanDetectAndPersist_verdicts (env : Env Call Bytes) (scanId : ℤ)
    (vendor product : Bytes) (det : Detection) (s : Session Tables ρ)
    (hok : (scanDetectAndPersist env scanId vendor product det s).status = .ok)
    (hids : CveIdsFit (vendor.map toLowerAscii) (product.map toLowerAscii) s.committed) :
    DetectionWritten scanId (vendor.map toLowerAscii) (product.map toLowerAscii) det s.committed
      (scanDetectAndPersist env scanId vendor product det s).session.committed
      (scanDetectAndPersist env scanId vendor product det s).counts ∧
    ∀ (env' : Env Call Bytes) (s' : Session Tables ρ),
      (scanDetectAndPersist env' scanId vendor product det s').status = .ok →
      (s'.committed.cveCpeMatches.map CpeRow.content).Perm
        (s.committed.cveCpeMatches.map CpeRow.content) →
      ∀ v, v ∈ verdictsSince s'.committed
          (scanDetectAndPersist env' scanId vendor product det s').session.committed ↔
        v ∈ verdictsSince s.committed
          (scanDetectAndPersist env scanId vendor product det s).session.committed := by
  have hwritten := detection_written hok hids
  refine ⟨hwritten, fun env' s' hok' hperm v => ?_⟩
  have hids' : CveIdsFit (vendor.map toLowerAscii) (product.map toLowerAscii) s'.committed := by
    intro row hrow
    obtain ⟨hmem, hcand⟩ := List.mem_filter.mp hrow
    obtain ⟨row₀, hmem₀, hcontent⟩ :=
      List.mem_map.mp (hperm.mem_iff.mp (List.mem_map_of_mem hmem))
    have hcand₀ : isCandidate (vendor.map toLowerAscii) (product.map toLowerAscii) row₀ = true := by
      change isCandidate _ _ row₀.content = true
      rw [hcontent]
      exact hcand
    have hfit := hids row₀ (List.mem_filter.mpr ⟨hmem₀, hcand₀⟩)
    have hcve : row₀.content.cveId = row.content.cveId := by rw [hcontent]
    rwa [show row₀.cveId = row.cveId from hcve] at hfit
  rw [(detection_written hok' hids').mem_verdicts, hwritten.mem_verdicts]
  have hsame : ∀ cveId,
      kleeneOr (outcomes det (candidatesOf (vendor.map toLowerAscii) (product.map toLowerAscii)
        s'.committed cveId)) =
      kleeneOr (outcomes det (candidatesOf (vendor.map toLowerAscii) (product.map toLowerAscii)
        s.committed cveId)) := by
    intro cveId
    refine kleeneOr_congr fun o => ?_
    rw [outcomes_candidatesOf_content, outcomes_candidatesOf_content det _ _ s.committed]
    exact (outcomes_perm det ((hperm.filter _).filter _)).mem_iff
  simp only [hsame]

/-- A running scan, one CVE, and three rows of it: a version, a withdrawn
version, and a range without a bound. -/
def oneCveTables : Tables :=
  let cve := ascii "CVE-2024-0001"
  let row (id : ℕ) (version : Bytes) (vulnerable : ℤ) : CpeRow :=
    ⟨id, cve, [], ascii "a", ascii "acme", ascii "httpd", version, [], [], [], [], vulnerable⟩
  { Tables.seeded with
    cves := fun id => if id = cve then some (placeholderRow [] []) else none
    cveCpeMatches := [row 1 (ascii "1.2") 1, row 2 (ascii "1.3") 0, row 3 (ascii "*") 1]
    scans := fun id =>
      if id = 1 then some ⟨[], none, [], [], [], .flag, .running, none, 0⟩ else none }

def oneCveDetection : Detection where
  host := ascii "10.0.0.1"
  port := 80
  service := none
  pluginId := ascii "banner"
  evidence := []
  remediation := none
  detectedVersion := ascii "1.2"

theorem scanDetectAndPersist_verdicts_one_cve :
    let r := scanDetectAndPersist quietEnv 1 (ascii "Acme") (ascii "httpd") oneCveDetection
      (oneCveTables.connect (ρ := Unit))
    r.status = .ok ∧ DetectionWritten 1 (ascii "acme") (ascii "httpd") oneCveDetection
      oneCveTables r.session.committed r.counts := by
  have hok : (scanDetectAndPersist quietEnv 1 (ascii "Acme") (ascii "httpd") oneCveDetection
      (oneCveTables.connect (ρ := Unit))).status = .ok := by decide +kernel
  have hids : CveIdsFit ((ascii "Acme").map toLowerAscii) ((ascii "httpd").map toLowerAscii)
      oneCveTables := by
    unfold CveIdsFit
    decide +kernel
  exact ⟨hok, (scanDetectAndPersist_verdicts quietEnv 1 (ascii "Acme") (ascii "httpd")
    oneCveDetection oneCveTables.connect hok hids).1⟩

end Cytadel.Db
