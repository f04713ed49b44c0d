import Cytadel.Proofs.HtmlSkeleton
import Cytadel.Proofs.RecordEffect
import Cytadel.Proofs.ScanAtomicity

/-!
# A report beside a scan that still runs

The six queries of a report share no transaction, so each of them sees what the
scan had committed by then. A scan only adds: rows to `scan_results`, and to the
count of malformed data of its own row. Two of the queries therefore agree if
and only if nothing was committed between them that the earlier one would have
counted, and that is what a report needs to describe one state.
-/

namespace Cytadel.Report

open Cytadel Cytadel.Db Lib Lib.Json

variable {ρ : Type}

/-! ## A scan adds -/

/-- Nothing of the scan is lost or counted down. -/
structure Grows (scanId : ℤ) (d d' : Tables) : Prop where
  rows : d.scanResults <+: d'.scanResults
  scan : ∀ row, d.scans scanId = some row → ∃ row', d'.scans scanId = some row' ∧
    row.malformedDataCount ≤ row'.malformedDataCount

section

variable {scanId : ℤ}

theorem Grows.refl (d : Tables) : Grows scanId d d :=
  ⟨List.prefix_refl _, fun row h => ⟨row, h, le_refl _⟩⟩

theorem Grows.trans (a b c : Tables) (h : Grows scanId a b) (h' : Grows scanId b c) :
    Grows scanId a c := by
  refine ⟨h.rows.trans h'.rows, ?_⟩
  intro row hrow
  obtain ⟨row', hrow', hle⟩ := h.scan row hrow
  obtain ⟨row'', hrow'', hle'⟩ := h'.scan row' hrow'
  exact ⟨row'', hrow'', le_trans hle hle'⟩

theorem insertResult_grows {row : ScanResultRow} {now : Bytes} {d d' : Tables}
    (h : insertResult row now d = some d') : Grows scanId d d' := by
  obtain ⟨-, -, id, -, -, rfl⟩ := insertResult_eq h
  exact ⟨List.prefix_append _ _, fun row h => ⟨row, h, le_refl _⟩⟩

theorem malformedCountUpdate_grows {n : ℕ} {now : Bytes} {d d' : Tables}
    (h : malformedCountUpdate scanId n now d = some d') : Grows scanId d d' := by
  simp only [malformedCountUpdate, Option.some.injEq] at h
  subst h
  refine ⟨List.prefix_refl _, ?_⟩
  intro row hrow
  refine ⟨{ row with malformedDataCount := row.malformedDataCount + n }, ?_, ?_⟩
  · simp [hrow]
  · show row.malformedDataCount ≤ row.malformedDataCount + n
    omega

theorem insertPlaceholder_grows {cveId nowTs now : Bytes} {d d' : Tables}
    (h : insertPlaceholder cveId nowTs now d = some d') : Grows scanId d d' := by
  rw [insertPlaceholder_frame h]
  exact ⟨List.prefix_refl _, fun row h => ⟨row, h, le_refl _⟩⟩

end

/-- The two calls by which a scan persists. -/
inductive ScanCall
  | detect (vendor product : Bytes) (det : Detection)
  | finding (f : Finding)

def ScanCall.run (env : Env Call Bytes) (scanId : ℤ) (c : ScanCall) (s : Session Tables ρ) :
    Session Tables ρ :=
  match c with
  | .detect vendor product det => (scanDetectAndPersist env scanId vendor product det s).session
  | .finding f => (scanPersistFinding env scanId f s).2

theorem ScanCall.run_grows (env : Env Call Bytes) (scanId : ℤ) (c : ScanCall)
    (s : Session Tables ρ) : Grows scanId s.committed (c.run env scanId s).committed := by
  cases c with
  | detect vendor product det =>
      obtain ⟨-, hkept⟩ | ⟨-, -, x, hbody, hs⟩ :=
        scanDetectAndPersist_cases env scanId vendor product det s
      · rw [ScanCall.run, hkept.committed]
        exact .refl _
      · have hwrites : (detectBody scanId (vendor.map toLowerAscii) (product.map toLowerAscii)
            det).Writes (Grows scanId) :=
          detectBody_writes (fun _ _ _ _ _ h => insertResult_grows h)
            (fun _ _ _ _ h => malformedCountUpdate_grows h) _ _ det
        have hgrows := hwrites.eval .refl .trans env (s.calls + 1, s.committed)
        rw [hbody] at hgrows
        rw [ScanCall.run, hs]
        exact hgrows
  | finding f =>
      obtain ⟨-, hkept⟩ | ⟨-, -, values, n, x, hbody, hs⟩ :=
        scanPersistFinding_cases env scanId f s
      · rw [ScanCall.run, hkept.committed]
        exact .refl _
      · have hwrites : (findingBody scanId f values).Writes (Grows scanId) :=
          findingBody_writes (fun _ _ _ _ _ h => insertResult_grows h)
            (fun _ _ _ _ _ h => insertPlaceholder_grows h) values
        have hgrows := hwrites.eval .refl .trans env (n, s.committed)
        rw [hbody] at hgrows
        rw [ScanCall.run, hs]
        exact hgrows

/-! ## What is committed while the report is read -/

def runCalls (env : Env Call Bytes) (scanId : ℤ) (calls : List ScanCall)
    (s : Session Tables ρ) : Session Tables ρ :=
  calls.foldl (fun s c => c.run env scanId s) s

theorem runCalls_grows (env : Env Call Bytes) (scanId : ℤ) (calls : List ScanCall)
    (s : Session Tables ρ) :
    Grows scanId s.committed (runCalls env scanId calls s).committed := by
  induction calls generalizing s with
  | nil => exact .refl _
  | cons c calls ih => exact .trans _ _ _ (c.run_grows env scanId s) (ih (c.run env scanId s))

/-- The committed state after this many of the calls. -/
def stateAfter (env : Env Call Bytes) (scanId : ℤ) (calls : List ScanCall)
    (s : Session Tables ρ) (k : ℕ) : Tables :=
  (runCalls env scanId (calls.take k) s).committed

theorem stateAfter_grows (env : Env Call Bytes) (scanId : ℤ) (calls : List ScanCall)
    (s : Session Tables ρ) {i j : ℕ} (h : i ≤ j) :
    Grows scanId (stateAfter env scanId calls s i) (stateAfter env scanId calls s j) := by
  have htake : calls.take j = calls.take i ++ (calls.take j).drop i := by
    have hcut := (List.take_append_drop i (calls.take j)).symm
    rwa [List.take_take, Nat.min_eq_left h] at hcut
  rw [stateAfter, stateAfter, htake, runCalls, runCalls, List.foldl_append]
  exact runCalls_grows env scanId _ _

/-- The queries of a report between the calls of the scan: how many of them had
been made when each of the queries ran. -/
structure Interleaved (states : ℕ → Tables) (w : ReportWorld) (seen : ReportQuery → ℕ) :
    Prop where
  snapshot : ∀ q, w.snapshot q = states (seen q)
  scanRow_le : seen .scanRow ≤ seen .severityCounts
  severityCounts_le : seen .severityCounts ≤ seen .kevCount
  kevCount_le : seen .kevCount ≤ seen .undeterminedCount
  undeterminedCount_le : seen .undeterminedCount ≤ seen .notAffectedCount
  notAffectedCount_le : seen .notAffectedCount ≤ seen .findings

/-! ## What a report says -/

/-- What a document is rendered from. -/
structure ReportContent where
  row : ScanRow
  counts : ReportCounts
  findings : List ScanResultRow

def ReportContent.json (c : ReportContent) (scanId : ℤ) : Bytes :=
  print (reportValue scanId c.row c.counts c.findings)

def ReportContent.html (c : ReportContent) (logo : Logo) (scanId : ℤ) : Bytes :=
  opsText (renderDocumentHead scanId ++ renderCover logo scanId c.row ++
    renderSummary c.row c.counts ++ [lit "<section class=\"findings\">\n<h2>Findings</h2>\n"] ++
    renderFindingGroups 0 none 0 c.findings ++ [lit "</section>\n</body>\n</html>\n"])

/-- The counts of some findings. -/
def findingCounts (rows : List ScanResultRow) : ReportCounts where
  severityCounts k := rows.countP fun r =>
    r.matchStatus = .confirmed ∧ r.severity = (k : ℤ) ∧ k ≤ 4
  kevCount := rows.countP fun r => r.matchStatus = .confirmed ∧ r.kevFlag = 1
  undeterminedCount := rows.countP fun r => r.matchStatus = .undetermined
  notAffectedCount := rows.countP fun r => r.matchStatus = .notAffected

/-- The counts are those of the findings beside them, and the findings and the
count of malformed data are those of one of the states. -/
def ReportContent.SingleState (c : ReportContent) (states : ℕ → Tables) (scanId : ℤ) : Prop :=
  c.counts = findingCounts c.findings ∧
  ∃ k row, (states k).scans scanId = some row ∧
    row.malformedDataCount = c.row.malformedDataCount ∧
    c.findings = findingsQuery scanId (states k)

/-- What a report is rendered from, with the row that its first query found. -/
def contentOf (w : ReportWorld) (scanId : ℤ) (row : ScanRow) : ReportContent where
  row := row
  counts := loadedCounts w scanId
  findings := findingsQuery scanId (w.snapshot .findings)

theorem reportJson_content {w : ReportWorld} {scanId : ℤ} {row : ScanRow} {out out' : ReportBuf}
    (hrow : (w.snapshot .scanRow).scans scanId = some row)
    (h : reportJson w scanId out = (.ok, out')) :
    out'.data = out.data ++ (contentOf w scanId row).json scanId := by
  obtain ⟨row', hrow', hdata⟩ := reportJson_ok h
  obtain rfl : row = row' := Option.some.inj (hrow.symm.trans hrow')
  exact hdata

theorem reportHtml_content {logo : Logo} {w : ReportWorld} {scanId : ℤ} {row : ScanRow}
    {out out' : ReportBuf} (hrow : (w.snapshot .scanRow).scans scanId = some row)
    (h : reportHtml logo w scanId out = (.ok, out')) :
    out'.data = out.data ++ (contentOf w scanId row).html logo scanId := by
  rw [(reportHtml_ok hrow h).1, reportHtmlBody, ReportContent.html]
  simp only [renderFindings, opsText_append, opsText_loadCounts, opsText_dupColumns,
    List.append_assoc]
  rfl

/-! ## Between two queries -/

/-- The rows of the scan that were committed between two states. -/
def addedRows (scanId : ℤ) (d d' : Tables) : List ScanResultRow :=
  (resultsOf scanId d').drop (resultsOf scanId d).length

theorem resultsOf_added {scanId : ℤ} {d d' : Tables} (h : Grows scanId d d') :
    resultsOf scanId d' = resultsOf scanId d ++ addedRows scanId d d' := by
  have hprefix : resultsOf scanId d <+: resultsOf scanId d' := h.rows.filter _
  exact (List.prefix_iff_eq_append.mp hprefix).symm

theorem findingsQuery_length (scanId : ℤ) (d : Tables) :
    (findingsQuery scanId d).length = (resultsOf scanId d).length :=
  (findingsQuery_sorted scanId d).1.length_eq

/-- The findings stay the same just when no row is added. -/
theorem findingsQuery_eq_iff {scanId : ℤ} {d d' : Tables} (h : Grows scanId d d') :
    findingsQuery scanId d = findingsQuery scanId d' ↔ addedRows scanId d d' = [] := by
  have hrows := resultsOf_added h
  constructor
  · intro heq
    have hlen := congrArg List.length heq
    rw [findingsQuery_length, findingsQuery_length, hrows, List.length_append] at hlen
    exact List.length_eq_zero_iff.mp (by omega)
  · intro hnil
    rw [findingsQuery, findingsQuery, hrows, hnil, List.append_nil]

/-- A count and the findings agree just when no row that counts is added. -/
theorem countP_findings_iff {scanId : ℤ} {d d' : Tables} (h : Grows scanId d d')
    (p : ScanResultRow → Bool) :
    (resultsOf scanId d).countP p = (findingsQuery scanId d').countP p ↔
      ∀ r ∈ addedRows scanId d d', p r = false := by
  rw [← countP_findings, resultsOf_added h, List.countP_append]
  constructor
  · intro heq r hr
    have hnone : (addedRows scanId d d').countP p = 0 := by omega
    simpa using List.countP_eq_zero.mp hnone r hr
  · intro hnone
    have hzero : (addedRows scanId d d').countP p = 0 :=
      List.countP_eq_zero.mpr fun r hr => by simp [hnone r hr]
    omega

/-- Nothing is committed between a query and the findings that the query would
have counted; and when the rows that are reported were all there, the count of
malformed data was still what the first query had read. -/
structure Undisturbed (states : ℕ → Tables) (scanId : ℤ) (seen : ReportQuery → ℕ) : Prop where
  severity : ∀ r ∈ addedRows scanId (states (seen .severityCounts)) (states (seen .findings)),
    ¬ (r.matchStatus = .confirmed ∧ 0 ≤ r.severity ∧ r.severity ≤ 4)
  kev : ∀ r ∈ addedRows scanId (states (seen .kevCount)) (states (seen .findings)),
    ¬ (r.matchStatus = .confirmed ∧ r.kevFlag = 1)
  undetermined : ∀ r ∈ addedRows scanId (states (seen .undeterminedCount))
    (states (seen .findings)), r.matchStatus ≠ .undetermined
  notAffected : ∀ r ∈ addedRows scanId (states (seen .notAffectedCount))
    (states (seen .findings)), r.matchStatus ≠ .notAffected
  malformed : ∃ k, seen .scanRow ≤ k ∧ k ≤ seen .findings ∧
    addedRows scanId (states k) (states (seen .findings)) = [] ∧
    ((states k).scans scanId).map (·.malformedDataCount) =
      ((states (seen .scanRow)).scans scanId).map (·.malformedDataCount)

section

variable {states : ℕ → Tables} {scanId : ℤ} {w : ReportWorld} {seen : ReportQuery → ℕ}
  {row : ScanRow} (hgrows : ∀ i j, i ≤ j → Grows scanId (states i) (states j))
  (hw : Interleaved states w seen)

include hgrows hw in
/-- The counts, query by query. -/
theorem counts_iff :
    loadedCounts w scanId = findingCounts (findingsQuery scanId (w.snapshot .findings)) ↔
      (∀ r ∈ addedRows scanId (states (seen .severityCounts)) (states (seen .findings)),
        ¬ (r.matchStatus = .confirmed ∧ 0 ≤ r.severity ∧ r.severity ≤ 4)) ∧
      (∀ r ∈ addedRows scanId (states (seen .kevCount)) (states (seen .findings)),
        ¬ (r.matchStatus = .confirmed ∧ r.kevFlag = 1)) ∧
      (∀ r ∈ addedRows scanId (states (seen .undeterminedCount)) (states (seen .findings)),
        r.matchStatus ≠ .undetermined) ∧
      ∀ r ∈ addedRows scanId (states (seen .notAffectedCount)) (states (seen .findings)),
        r.matchStatus ≠ .notAffected := by
  have h₁ := hw.severityCounts_le
  have h₂ := hw.kevCount_le
  have h₃ := hw.undeterminedCount_le
  have h₄ := hw.notAffectedCount_le
  simp only [loadedCounts, findingCounts, ReportCounts.mk.injEq, funext_iff, severityCount_eq,
    kevQuery, statusQuery, hw.snapshot]
  rw [countP_findings_iff (hgrows _ _ (by omega)), countP_findings_iff (hgrows _ _ (by omega)),
    countP_findings_iff (hgrows _ _ h₄)]
  simp only [countP_findings_iff (hgrows _ _ (show seen .severityCounts ≤ seen .findings by omega)),
    decide_eq_false_iff_not]
  refine and_congr_left fun _ => ⟨fun h r hr hconf => ?_, fun h k r hr hconf => ?_⟩
  · -- a severity of the scale is one of the five that are counted
    obtain ⟨hst, hlow, hhigh⟩ := hconf
    exact h r.severity.toNat r hr ⟨hst, by omega, by omega⟩
  · obtain ⟨hst, hsev, hk⟩ := hconf
    exact h r hr ⟨hst, by omega, by omega⟩

include hgrows hw in
/-- The findings and the count of malformed data. -/
theorem malformed_iff (hrow : (w.snapshot .scanRow).scans scanId = some row) :
    (∃ k row', (states k).scans scanId = some row' ∧
      row'.malformedDataCount = row.malformedDataCount ∧
      findingsQuery scanId (w.snapshot .findings) = findingsQuery scanId (states k)) ↔
    ∃ k, seen .scanRow ≤ k ∧ k ≤ seen .findings ∧
      addedRows scanId (states k) (states (seen .findings)) = [] ∧
      ((states k).scans scanId).map (·.malformedDataCount) =
        ((states (seen .scanRow)).scans scanId).map (·.malformedDataCount) := by
  have h₀ := hw.scanRow_le
  have h₁ := hw.severityCounts_le
  have h₂ := hw.kevCount_le
  have h₃ := hw.undeterminedCount_le
  have h₄ := hw.notAffectedCount_le
  rw [hw.snapshot] at hrow
  rw [hw.snapshot, hrow, Option.map_some]
  constructor
  · rintro ⟨k, row', hrow', hmalformed, hfindings⟩
    -- outside of the report's time the rows and the count stand still as well
    rcases lt_or_ge k (seen .scanRow) with hlt | hge
    · refine ⟨seen .scanRow, le_refl _, by omega, ?_, by rw [hrow]; rfl⟩
      have hsame := (findingsQuery_eq_iff (hgrows k _ (show k ≤ seen .findings by omega))).mp
        hfindings.symm
      have hlater := resultsOf_added (hgrows k _ (show k ≤ seen .findings by omega))
      have hfirst := resultsOf_added (hgrows k _ (show k ≤ seen .scanRow by omega))
      have hrest := resultsOf_added
        (hgrows _ _ (show seen .scanRow ≤ seen .findings by omega))
      rw [hsame, List.append_nil] at hlater
      have hlen := congrArg List.length hrest
      rw [hlater, hfirst, List.length_append, List.length_append] at hlen
      exact List.length_eq_zero_iff.mp (by omega)
    · rcases lt_or_ge (seen .findings) k with hlt | hle
      · refine ⟨seen .findings, by omega, le_refl _, ?_, ?_⟩
        · exact (findingsQuery_eq_iff (.refl _)).mp rfl
        · obtain ⟨mid, hmid, hle₁⟩ :=
            (hgrows _ _ (show seen .scanRow ≤ seen .findings by omega)).scan row hrow
          obtain ⟨last, hlast, hle₂⟩ := (hgrows _ k (by omega)).scan mid hmid
          obtain rfl : row' = last := Option.some.inj (hrow'.symm.trans hlast)
          rw [hmid, Option.map_some]
          congr 1
          omega
      · refine ⟨k, hge, hle, (findingsQuery_eq_iff (hgrows _ _ hle)).mp hfindings.symm, ?_⟩
        rw [hrow', Option.map_some, hmalformed]
  · rintro ⟨k, -, hle, hadded, hmalformed⟩
    obtain ⟨row', hrow', hcount⟩ := Option.map_eq_some_iff.mp hmalformed
    exact ⟨k, row', hrow', hcount, ((findingsQuery_eq_iff (hgrows _ _ hle)).mpr hadded).symm⟩

end

/-- For every interleaving of the queries of a report with the calls of a scan
that persists: a report that answers OK is the document of its content, and
this describes a single state just when the queries are undisturbed. -/
theorem report_singleState_iff {env : Env Call Bytes} {scanId : ℤ} {calls : List ScanCall}
    {s : Session Tables ρ} {w : ReportWorld} {seen : ReportQuery → ℕ} {row : ScanRow}
    (hw : Interleaved (stateAfter env scanId calls s) w seen)
    (hrow : (w.snapshot .scanRow).scans scanId = some row) :
    (∀ out out', reportJson w scanId out = (.ok, out') →
      out'.data = out.data ++ (contentOf w scanId row).json scanId) ∧
    (∀ logo out out', reportHtml logo w scanId out = (.ok, out') →
      out'.data = out.data ++ (contentOf w scanId row).html logo scanId) ∧
    ((contentOf w scanId row).SingleState (stateAfter env scanId calls s) scanId ↔
      Undisturbed (stateAfter env scanId calls s) scanId seen) := by
  have hgrows : ∀ i j, i ≤ j → Grows scanId (stateAfter env scanId calls s i)
      (stateAfter env scanId calls s j) := fun i j h => stateAfter_grows env scanId calls s h
  refine ⟨fun _ _ => reportJson_content hrow, fun _ _ _ => reportHtml_content hrow, ?_⟩
  rw [ReportContent.SingleState]
  simp only [contentOf]
  rw [counts_iff hgrows hw, malformed_iff hgrows hw hrow]
  constructor
  · rintro ⟨⟨h₁, h₂, h₃, h₄⟩, h₅⟩
    exact ⟨h₁, h₂, h₃, h₄, h₅⟩
  · intro h
    exact ⟨⟨h.severity, h.kev, h.undetermined, h.notAffected⟩, h.malformed⟩

/-- A finding of the scan, and the database before it is persisted. -/
def lateFinding : Finding :=
  ⟨ascii "10.0.0.9", 22, none, ascii "31", ascii "OpenSSH 9.0", none, none, 3⟩

def runningTables : Tables :=
  { Tables.seeded with scans := fun id => if id = 1 then some reportedScan else none }

def lateStates : ℕ → Tables :=
  stateAfter quietEnv 1 [.finding lateFinding] (runningTables.connect : Session Tables Unit)

/-- The findings are queried after the call, the rest when so many were made. -/
def lateWorld (k : ℕ) : ReportWorld :=
  ⟨fun _ => false, fun _ => false, fun q => lateStates (if q = .findings then 1 else k)⟩

theorem report_singleState_iff_after :
    (contentOf (lateWorld 1) 1 reportedScan).SingleState lateStates 1 := by
  have hw : Interleaved lateStates (lateWorld 1) fun _ => 1 :=
    ⟨fun q => by cases q <;> rfl, le_refl _, le_refl _, le_refl _, le_refl _, le_refl _⟩
  refine (report_singleState_iff hw rfl).2.2.mpr ?_
  have hnone : addedRows 1 (lateStates 1) (lateStates 1) = [] :=
    (findingsQuery_eq_iff (.refl _)).mp rfl
  rw [lateStates] at hnone
  refine ⟨?_, ?_, ?_, ?_, 1, le_refl _, le_refl _, hnone, rfl⟩
  all_goals
    simp only [hnone]
    intro r hr
    cases hr

/-- A finding that is committed between the counts and the query of the
findings: the report shows it, and counts no finding. -/
theorem report_mixes_states :
    Interleaved lateStates (lateWorld 0) (fun q => if q = .findings then 1 else 0) ∧
    ∃ out', reportJson (lateWorld 0) 1 (.empty 0) = (.ok, out') ∧
      out'.data = (contentOf (lateWorld 0) 1 reportedScan).json 1 ∧
      ¬ (contentOf (lateWorld 0) 1 reportedScan).SingleState lateStates 1 := by
  refine ⟨⟨fun _ => rfl, by decide, by decide, by decide, by decide, by decide⟩, ?_⟩
  obtain ⟨out', hrun⟩ := reportJson_quiet (w := lateWorld 0) (fun _ => rfl) (fun _ => rfl) 1
    (by decide) (by decide +kernel) (by decide +kernel)
  refine ⟨out', hrun, reportJson_content rfl hrun, ?_⟩
  rintro ⟨hcounts, -⟩
  have hshown : (findingCounts (contentOf (lateWorld 0) 1 reportedScan).findings).severityCounts 3 =
      1 := by decide +kernel
  rw [← hcounts] at hshown
  exact absurd hshown (by decide +kernel)

end Cytadel.Report
