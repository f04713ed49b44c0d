import Mathlib.Data.List.Sort
import Cytadel.Db.CveId
import Cytadel.Db.Schema
import Cytadel.Match.CpeMatch

/-!
# Persisting what a scan found

`src/db/scan_persist.c`. A detected service is looked up among the candidate
rows of its vendor and product; the rows come sorted by CVE, and one pass
folds the outcomes of each CVE into flags and writes one row of `scan_results`
wherever the CVE changes and once more at the end. A direct plugin finding is
one row by itself, behind a placeholder in `cves` when it names a CVE.

A `const char *` argument is the C string it points to; the two that may be
NULL are options.
-/

namespace Cytadel.Db

open Cytadel Cytadel.Match Lib

/-- `cytadel_scan_persist_status_t`. -/
inductive PersistStatus
  | ok
  | errInvalidArg
  | errDb
  | errRowSkipped
  deriving DecidableEq, Repr

/-- `cytadel_scan_persist_counts_t`. -/
structure PersistCounts where
  rowsInserted : ℕ
  malformedEvents : ℕ
  deriving DecidableEq, Repr

def PersistCounts.zero : PersistCounts := ⟨0, 0⟩

/-! ## The verdict on one CVE -/

/-- The flags that `accumulate_outcome` sets. -/
structure Aggregate where
  anyMatch : Bool
  anyUndecidable : Bool
  anyNoMatch : Bool
  malformedCount : ℕ
  deriving DecidableEq, Repr

def Aggregate.zero : Aggregate := ⟨false, false, false, 0⟩

/-- `accumulate_outcome`. -/
def accumulateOutcome (a : Aggregate) (outcome : CpeMatch) : Aggregate :=
  match outcome with
  | .matched => { a with anyMatch := true }
  | .noMatch => { a with anyNoMatch := true }
  | .undecidable => { a with anyUndecidable := true }
  | .malformedRow => { a with malformedCount := a.malformedCount + 1 }

/-- `cytadel_scan_cve_verdict_t`; without a verdict there is no status. -/
structure CveVerdict where
  status : Option MatchStatus
  malformedCount : ℕ
  deriving DecidableEq, Repr

/-- `finalize_verdict`. -/
def finalizeVerdict (a : Aggregate) : CveVerdict where
  status :=
    if a.anyMatch then some .confirmed
    else if a.anyUndecidable then some .undetermined
    else if a.anyNoMatch then some .notAffected
    else none
  malformedCount := a.malformedCount

/-- `cytadel_scan_aggregate_cve_verdict`. -/
def aggregateCveVerdict (rows : List CpeMatchRow) (detectedVersion : Bytes) : CveVerdict :=
  finalizeVerdict (rows.foldl
    (fun a row => accumulateOutcome a (cpeMatchEvaluate row detectedVersion)) .zero)

/-! ## Statements -/

/-- `cytadel_scan_detection_t`. -/
structure Detection where
  host : Bytes
  port : ℤ
  service : Option Bytes
  pluginId : Bytes
  evidence : Bytes
  remediation : Option Bytes
  detectedVersion : Bytes

/-- `lowercase_copy`, into a buffer of CYTADEL_SCAN_VENDOR_PRODUCT_BUF_LEN. -/
def lowercaseCopy (src : Bytes) : Option Bytes :=
  if src.isEmpty || src.length ≥ 256 + 1 then none else some (src.map toLowerAscii)

/-- `ORDER BY cve_id, id`, the first by the bytes. -/
def candidateLe (a b : CpeRow) : Prop :=
  a.cveId ≤ b.cveId ∧ (a.cveId = b.cveId → a.id ≤ b.id)

instance : DecidableRel candidateLe := fun _ _ => inferInstanceAs (Decidable (_ ∧ (_ → _)))

/-- The WHERE clause of the candidate lookup. -/
def isCandidate (vendor product : Bytes) (row : CpeRow) : Bool :=
  row.vendor == vendor && row.product == product

/-- The candidate lookup. -/
def candidates (vendor product : Bytes) (d : Tables) : List CpeRow :=
  (d.cveCpeMatches.filter (isCandidate vendor product)).insertionSort candidateLe

/-- The columns of a candidate that are evaluated. -/
def CpeRow.matchRow (r : CpeRow) : CpeMatchRow where
  version := r.version
  versionStartIncluding := r.versionStartIncluding
  versionStartExcluding := r.versionStartExcluding
  versionEndIncluding := r.versionEndIncluding
  versionEndExcluding := r.versionEndExcluding
  vulnerable := r.vulnerable

/-- `SELECT severity FROM cves`; a missing row counts as Info. -/
def severityOf (cveId : Bytes) (d : Tables) : ℤ := ((d.cves cveId).map (·.severity)).getD 0

/-- `SELECT 1 FROM kev`. -/
def kevFlagOf (cveId : Bytes) (d : Tables) : ℤ := if (d.kev cveId).isSome then 1 else 0

/-- `SELECT epss_score FROM epss`. -/
def epssScoreOf (cveId : Bytes) (d : Tables) : Option ℚ := (d.epss cveId).map (·.epssScore)

/-- `INSERT INTO scan_results`, for a row that still lacks its id and time. -/
def insertResult (row : ScanResultRow) (now : Bytes) (d : Tables) : Option Tables :=
  let row := { row with id := nextRowId (d.scanResults.map (·.id)), detectedAt := now }
  if !row.check then none
  else if (d.scans row.scanId).isNone then none
  else if row.cveId.any fun id => (d.cves id).isNone then none
  else some { d with scanResults := d.scanResults ++ [row] }

/-- A row that is inserted meets the checks, and its scan and its CVE are there. -/
theorem insertResult_eq {row : ScanResultRow} {now : Bytes} {d d' : Tables}
    (h : insertResult row now d = some d') :
    (d.scans row.scanId).isSome ∧ (∀ cveId, row.cveId = some cveId → (d.cves cveId).isSome) ∧
      ∃ id, id = nextRowId (d.scanResults.map (·.id)) ∧
        { row with id := id, detectedAt := now }.check = true ∧ d' = { d with
          scanResults := d.scanResults ++ [{ row with id := id, detectedAt := now }] } := by
  simp only [insertResult] at h
  split at h
  · cases h
  · next hcheck =>
      split at h
      · cases h
      · next hscan =>
          split at h
          · cases h
          · next hcve =>
              cases h
              refine ⟨?_, fun cveId hid => ?_, _, rfl, by simpa using hcheck, rfl⟩
              · simpa [Option.isSome_iff_ne_none] using hscan
              · simpa [Option.isSome_iff_ne_none, hid] using hcve

/-- `UPDATE scans SET malformed_data_count = malformed_data_count + ?`. -/
def malformedCountUpdate (scanId : ℤ) (malformedEvents : ℕ) (_now : Bytes) (d : Tables) :
    Option Tables :=
  some { d with
    scans := Function.update d.scans scanId ((d.scans scanId).map fun st =>
      { st with malformedDataCount := st.malformedDataCount + malformedEvents }) }

/-- One bound parameter, one step that reads. -/
def lookup {α : Type} (st : Stmt) (f : Tables → α) : Sql (Option α) := do
  if ← Prog.attempt (.bind st) then Prog.select (.step st) f else pure none

/-! ## A detected service -/

/-- `cur_cve_id` with the flags of its rows. -/
structure Group where
  cveId : Bytes
  flags : Aggregate
  deriving DecidableEq, Repr

/-- The row of `scan_results` that a group is written as. -/
def Detection.resultRow (det : Detection) (scanId : ℤ) (cveId : Bytes) (status : MatchStatus)
    (severity kevFlag : ℤ) (epssScore : Option ℚ) : ScanResultRow where
  id := 0
  scanId := scanId
  host := det.host
  port := det.port
  service := det.service
  pluginId := det.pluginId
  cveId := some cveId
  matchStatus := status
  severity := severity
  evidence := det.evidence
  remediation := det.remediation
  kevFlag := kevFlag
  epssScore := epssScore
  detectedAt := []

/-- `flush_group`. The flag says that the call failed. -/
def flushGroup (scanId : ℤ) (det : Detection) (g : Group) (c : PersistCounts) :
    Sql (PersistCounts × Bool) :=
  let verdict := finalizeVerdict g.flags
  let c := { c with malformedEvents := c.malformedEvents + verdict.malformedCount }
  match verdict.status with
  | none => pure (c, false)
  | some status => do
      match ← lookup .severityLookup (severityOf g.cveId) with
      | none => pure (c, true)
      | some severity =>
          match ← lookup .kevLookup (kevFlagOf g.cveId) with
          | none => pure (c, true)
          | some kevFlag =>
              match ← lookup .epssLookup (epssScoreOf g.cveId) with
              | none => pure (c, true)
              | some epssScore =>
                  if ← Prog.attemptAll (.bind .resultInsert) 12 then
                    let row := det.resultRow scanId g.cveId status severity kevFlag epssScore
                    match ← Prog.exec (.step .resultInsert) (insertResult row) with
                    | .done => pure ({ c with rowsInserted := c.rowsInserted + 1 }, false)
                    | _ => pure (c, true)
                  else pure (c, true)

/-- A row whose `cve_id` is empty or does not fit the buffer. -/
def CpeRow.badCveId (r : CpeRow) : Bool := r.cveId.isEmpty || r.cveId.length > 64

/-- The group after a row of its own. -/
def Group.take (g : Group) (det : Detection) (row : CpeRow) : Group :=
  { g with flags := accumulateOutcome g.flags (cpeMatchEvaluate row.matchRow det.detectedVersion) }

/-- What the loop does with one row: the group that is open afterwards. -/
def takeCandidate (scanId : ℤ) (det : Detection) (row : CpeRow) (cur : Option Group)
    (c : PersistCounts) : Sql (Option Group × PersistCounts × Bool) :=
  if row.badCveId then pure (cur, c, false)
  else
    let fresh : Group := ⟨row.cveId, .zero⟩
    match cur with
    | none => pure (some (fresh.take det row), c, false)
    | some g =>
        if row.cveId = g.cveId then pure (some (g.take det row), c, false)
        else do
          let r ← flushGroup scanId det g c
          if r.2 then pure (some g, r.1, true)
          else pure (some (fresh.take det row), r.1, false)

/-- The loop over the rows. Every row but the first is fetched by a step of
its own, and the last step answers that there are no more. -/
def candidateLoop (scanId : ℤ) (det : Detection) :
    List CpeRow → Option Group → PersistCounts → Sql (Option Group × PersistCounts × Bool)
  | [], cur, c => pure (cur, c, false)
  | row :: rows, cur, c => do
      let r ← takeCandidate scanId det row cur c
      if r.2.2 then pure r
      else if ← Prog.attempt (.step .candidates) then
        candidateLoop scanId det rows r.1 r.2.1
      else pure (r.1, r.2.1, true)

/-- The flush at the end of the stream, if a group is open. -/
def flushLast (scanId : ℤ) (det : Detection) (cur : Option Group) (c : PersistCounts) :
    Sql (PersistCounts × Bool) :=
  match cur with
  | none => pure (c, false)
  | some g => flushGroup scanId det g c

/-- `prepare_group_statements` and the candidate statement. -/
def groupStatements : List Stmt :=
  [.severityLookup, .kevLookup, .epssLookup, .resultInsert, .candidates]

/-- `update_malformed_data_count`. -/
def updateMalformedDataCount (scanId : ℤ) (malformedEvents : ℕ) : Sql Bool := do
  if ← Prog.attempt (.prepare .malformedCount) then
    if ← Prog.attemptAll (.bind .malformedCount) 2 then
      let r ← Prog.exec (.step .malformedCount) (malformedCountUpdate scanId malformedEvents)
      pure (r == .done)
    else pure false
  else pure false

/-- What `cytadel_scan_detect_and_persist` does between BEGIN and COMMIT: was
all of it done? -/
def detectBody (scanId : ℤ) (vendor product : Bytes) (det : Detection) :
    Sql (PersistCounts × Bool) := do
  if !(← prepareStatements groupStatements) then pure (.zero, false)
  else if !(← Prog.attemptAll (.bind .candidates) 2) then pure (.zero, false)
  else
    match ← Prog.select (.step .candidates) (candidates vendor product) with
    | none => pure (.zero, false)
    | some rows =>
        let r ← candidateLoop scanId det rows none .zero
        if r.2.2 then pure (r.2.1, false)
        else
          let last ← flushLast scanId det r.1 r.2.1
          if last.2 then pure (last.1, false)
          else
            let done ← updateMalformedDataCount scanId last.1.malformedEvents
            pure (last.1, done)

structure PersistResult (ρ : Type) where
  status : PersistStatus
  counts : PersistCounts
  session : Session Tables ρ

/-- The argument checks of `cytadel_scan_detect_and_persist`. -/
def Detection.badArgs (det : Detection) (scanId : ℤ) : Bool :=
  decide (scanId ≤ 0) || det.host.isEmpty || det.pluginId.isEmpty ||
    decide (det.port < 0 ∨ det.port > 65535)

/-- `cytadel_scan_detect_and_persist`. -/
def scanDetectAndPersist {ρ : Type} (env : Env Call Bytes) (scanId : ℤ)
    (vendor product : Bytes) (det : Detection) (s : Session Tables ρ) : PersistResult ρ :=
  if det.badArgs scanId then ⟨.errInvalidArg, .zero, s⟩
  else
    match lowercaseCopy vendor, lowercaseCopy product with
    | some vendorLc, some productLc =>
        let begun := s.begin env .begin
        if !begun.1 then ⟨.errDb, .zero, begun.2⟩
        else
          let body := (detectBody scanId vendorLc productLc det).run env begun.2
          if !body.1.2 then ⟨.errDb, body.1.1, body.2.rollback env .rollback⟩
          else
            let committed := body.2.commit env .commit
            if !committed.1 then
              ⟨.errDb, body.1.1, committed.2.rollback env .rollback⟩
            else ⟨.ok, body.1.1, committed.2⟩
    | _, _ => ⟨.errInvalidArg, .zero, s⟩

/-! ## A direct plugin finding -/

/-- `cytadel_scan_finding_persist_t`. -/
structure Finding where
  host : Bytes
  port : ℤ
  service : Option Bytes
  pluginId : Bytes
  evidence : Bytes
  remediation : Option Bytes
  cveId : Option Bytes
  severity : ℤ

/-- The argument checks of `cytadel_scan_persist_finding`. -/
def Finding.badArgs (f : Finding) (scanId : ℤ) : Bool :=
  decide (scanId ≤ 0) || f.host.isEmpty || f.pluginId.isEmpty ||
    decide (f.port < 0 ∨ f.port > 65535) || decide (f.severity < 0 ∨ f.severity > 4) ||
    f.cveId == some []

/-- `effective_cve_id`: a text outside the grammar becomes NULL. -/
def Finding.effectiveCveId (f : Finding) : Option Bytes := f.cveId.filter isValidCveId

/-- The row of `scan_results` that a finding is written as. -/
def Finding.resultRow (f : Finding) (scanId : ℤ) (kevFlag : ℤ) (epssScore : Option ℚ) :
    ScanResultRow where
  id := 0
  scanId := scanId
  host := f.host
  port := f.port
  service := f.service
  pluginId := f.pluginId
  cveId := f.effectiveCveId
  matchStatus := .confirmed
  severity := f.severity
  evidence := f.evidence
  remediation := f.remediation
  kevFlag := kevFlag
  epssScore := epssScore
  detectedAt := []

/-- `lookup_kev_flag` and `lookup_epss_score`, which prepare their statement
themselves. -/
def lookupPrepared {α : Type} (st : Stmt) (f : Tables → α) : Sql (Option α) := do
  if ← Prog.attempt (.prepare st) then lookup st f else pure none

/-- The snapshot that is taken before the transaction. -/
def findingSnapshot (cveId : Option Bytes) : Sql (Option (ℤ × Option ℚ)) :=
  match cveId with
  | none => pure (some (0, none))
  | some id => do
      match ← lookupPrepared .kevLookup (kevFlagOf id) with
      | none => pure none
      | some kevFlag =>
          match ← lookupPrepared .epssLookup (epssScoreOf id) with
          | none => pure none
          | some epssScore => pure (some (kevFlag, epssScore))

/-- The placeholder of a finding that names a CVE. -/
def findingPlaceholder (cveId : Option Bytes) : Sql PersistStatus :=
  match cveId with
  | none => pure .ok
  | some id => do
      match ← Prog.timestamp .timestamp with
      | none => pure .errDb
      | some nowTs =>
          if !(← Prog.attempt (.prepare .placeholder)) then pure .errDb
          else if !(← Prog.attemptAll (.bind .placeholder) 3) then pure .errDb
          else
            match ← Prog.exec (.step .placeholder) (insertPlaceholder id nowTs) with
            | .done => pure .ok
            | .constraint => pure .errRowSkipped
            | .error => pure .errDb

/-- What `cytadel_scan_persist_finding` does between BEGIN and COMMIT. -/
def findingBody (scanId : ℤ) (f : Finding) (snapshot : ℤ × Option ℚ) : Sql PersistStatus := do
  let placed ← findingPlaceholder f.effectiveCveId
  if placed != .ok then pure placed
  else if !(← Prog.attempt (.prepare .resultInsert)) then pure .errDb
  else if !(← Prog.attemptAll (.bind .resultInsert) 11) then pure .errDb
  else
    let row := f.resultRow scanId snapshot.1 snapshot.2
    match ← Prog.exec (.step .resultInsert) (insertResult row) with
    | .done => pure .ok
    | .constraint => pure .errRowSkipped
    | .error => pure .errDb

/-- `cytadel_scan_persist_finding`. -/
def scanPersistFinding {ρ : Type} (env : Env Call Bytes) (scanId : ℤ) (f : Finding)
    (s : Session Tables ρ) : PersistStatus × Session Tables ρ :=
  if f.badArgs scanId then (.errInvalidArg, s)
  else
    let snapshot := (findingSnapshot f.effectiveCveId).run env s
    match snapshot.1 with
    | none => (.errDb, snapshot.2)
    | some values =>
        let begun := snapshot.2.begin env .begin
        if !begun.1 then (.errDb, begun.2)
        else
          let body := (findingBody scanId f values).run env begun.2
          if body.1 != .ok then (body.1, body.2.rollback env .rollback)
          else
            let committed := body.2.commit env .commit
            if !committed.1 then (.errDb, committed.2.rollback env .rollback)
            else (.ok, committed.2)

/-! ## The row of the scan -/

/-- The row that `cytadel_scan_create` inserts. -/
def newScanRow (targetSpec authorizedBy : Bytes) (method : AuthorizationMethod) (now : Bytes) :
    ScanRow where
  startedAt := now
  finishedAt := none
  targetSpec := targetSpec
  authorizedBy := authorizedBy
  authorizationConfirmedAt := now
  authorizationMethod := method
  status := .running
  notes := none
  malformedDataCount := 0

def insertScan (scanId : ℤ) (targetSpec authorizedBy : Bytes) (method : AuthorizationMethod)
    (now : Bytes) (d : Tables) : Option Tables :=
  some { d with
    scans := Function.update d.scans scanId
      (some (newScanRow targetSpec authorizedBy method now)) }

/-- `cytadel_scan_create`: did it insert the row? -/
def scanCreate (scanId : ℤ) (targetSpec authorizedBy : Bytes) (method : AuthorizationMethod) :
    Sql Bool := do
  if ← Prog.attempt (.prepare .scanInsert) then
    if ← Prog.attemptAll (.bind .scanInsert) 3 then
      let r ← Prog.exec (.step .scanInsert) (insertScan scanId targetSpec authorizedBy method)
      pure (r == .done)
    else pure false
  else pure false

/-- `cytadel_scan_finalize_status_t`. -/
inductive FinalizeStatus
  | completed
  | aborted
  | failed
  deriving DecidableEq, Repr

/-- `cytadel_scan_finalize_status_to_string`, as the value of the column. -/
def FinalizeStatus.column : FinalizeStatus → ScanStatus
  | .completed => .completed
  | .aborted => .aborted
  | .failed => .failed

/-- `UPDATE scans SET status = ?, finished_at = .. WHERE scan_id = ?`. -/
def finalizeUpdate (scanId : ℤ) (status : FinalizeStatus) (now : Bytes) (d : Tables) :
    Option Tables :=
  some { d with
    scans := Function.update d.scans scanId ((d.scans scanId).map fun st =>
      { st with status := status.column, finishedAt := some now }) }

/-- The statement of `cytadel_scan_finalize`; an update that finds no row is an
error. Its calls count as those of the statement that made the row. -/
def finalizeBody (scanId : ℤ) (status : FinalizeStatus) : Sql PersistStatus := do
  if !(← Prog.attempt (.prepare .scanInsert)) then pure .errDb
  else if !(← Prog.attemptAll (.bind .scanInsert) 2) then pure .errDb
  else
    .call (.step .scanInsert) (some (finalizeUpdate scanId status)) fun
      | .done _ d => .ret (if (d.scans scanId).isSome then .ok else .errDb)
      | _ => .ret .errDb

/-- `cytadel_scan_finalize`. -/
def scanFinalize {ρ : Type} (env : Env Call Bytes) (scanId : ℤ) (status : FinalizeStatus)
    (s : Session Tables ρ) : PersistStatus × Session Tables ρ :=
  if scanId ≤ 0 then (.errInvalidArg, s) else (finalizeBody scanId status).run env s

end Cytadel.Db
