import Mathlib.Data.Rat.Init
import Mathlib.Algebra.Order.Ring.Unbundled.Rat
import Mathlib.Logic.Function.Basic
import Cytadel.Bytes
import Cytadel.Lib.Txn

/-!
# The schema

`src/db/db_migrations.c`, after its three migrations. A table with a text key
is a function from keys to rows; a table whose key is a row id is the list of
its rows in order of insertion. NOT NULL is the type of the column, a nullable
column is an option. The CHECK clauses are predicates, and every statement
that inserts applies the ones of its table, with the foreign keys, and answers
`none` where SQLite answers SQLITE_CONSTRAINT.
-/

namespace Cytadel.Db

open Cytadel

/-- A row of `cves`, without its key. -/
structure CveRow where
  published : Bytes
  lastModified : Bytes
  description : Bytes
  cvssV3Vector : Option Bytes
  cvssV3BaseScore : Option ℚ
  cvssV3Severity : Option Bytes
  cvssV2Vector : Option Bytes
  cvssV2BaseScore : Option ℚ
  cvssV2Severity : Option Bytes
  severity : ℤ
  source : Bytes
  ingestedAt : Bytes
  deriving DecidableEq

/-- A row of `cve_cpe_matches`. -/
structure CpeRow where
  id : ℕ
  cveId : Bytes
  cpe23Uri : Bytes
  part : Bytes
  vendor : Bytes
  product : Bytes
  version : Bytes
  versionStartIncluding : Bytes
  versionStartExcluding : Bytes
  versionEndIncluding : Bytes
  versionEndExcluding : Bytes
  vulnerable : ℤ
  deriving DecidableEq

/-- The columns of the UNIQUE clause of `cve_cpe_matches`. -/
structure CpeKey where
  cveId : Bytes
  cpe23Uri : Bytes
  versionStartIncluding : Bytes
  versionStartExcluding : Bytes
  versionEndIncluding : Bytes
  versionEndExcluding : Bytes
  vulnerable : ℤ
  deriving DecidableEq

def CpeRow.key (r : CpeRow) : CpeKey where
  cveId := r.cveId
  cpe23Uri := r.cpe23Uri
  versionStartIncluding := r.versionStartIncluding
  versionStartExcluding := r.versionStartExcluding
  versionEndIncluding := r.versionEndIncluding
  versionEndExcluding := r.versionEndExcluding
  vulnerable := r.vulnerable

/-- A row of `kev`, without its key. -/
structure KevRow where
  dateAdded : Bytes
  vendorProject : Bytes
  product : Bytes
  vulnerabilityName : Bytes
  requiredAction : Option Bytes
  dueDate : Option Bytes
  knownRansomware : ℤ
  notes : Option Bytes
  syncedAt : Bytes
  deriving DecidableEq

/-- A row of `epss`, without its key. -/
structure EpssRow where
  epssScore : ℚ
  percentile : ℚ
  scoreDate : Bytes
  syncedAt : Bytes
  deriving DecidableEq

inductive AuthorizationMethod
  | interactive
  | flag
  deriving DecidableEq, Repr

inductive ScanStatus
  | running
  | completed
  | aborted
  | failed
  deriving DecidableEq, Repr

/-- A row of `scans`, without its key. -/
structure ScanRow where
  startedAt : Bytes
  finishedAt : Option Bytes
  targetSpec : Bytes
  authorizedBy : Bytes
  authorizationConfirmedAt : Bytes
  authorizationMethod : AuthorizationMethod
  status : ScanStatus
  notes : Option Bytes
  malformedDataCount : ℤ
  deriving DecidableEq

/-- `cytadel_scan_match_status_t`, and the values of `match_status`. -/
inductive MatchStatus
  | confirmed
  | undetermined
  | notAffected
  deriving DecidableEq, Repr

/-- A row of `scan_results`. -/
structure ScanResultRow where
  id : ℕ
  scanId : ℤ
  host : Bytes
  port : ℤ
  service : Option Bytes
  pluginId : Bytes
  cveId : Option Bytes
  matchStatus : MatchStatus
  severity : ℤ
  evidence : Bytes
  remediation : Option Bytes
  kevFlag : ℤ
  epssScore : Option ℚ
  detectedAt : Bytes
  deriving DecidableEq

inductive Feed
  | nvd
  | kev
  | epss
  deriving DecidableEq, Repr

inductive SyncStatus
  | idle
  | running
  | success
  | error
  deriving DecidableEq, Repr

/-- A row of `sync_state`, without its key. -/
structure SyncState where
  lastSyncStarted : Option Bytes
  lastSyncCompleted : Option Bytes
  lastModWatermark : Option Bytes
  totalRecords : ℤ
  status : SyncStatus
  lastError : Option Bytes
  deriving DecidableEq

structure Tables where
  cves : Bytes → Option CveRow
  cveCpeMatches : List CpeRow
  kev : Bytes → Option KevRow
  epss : Bytes → Option EpssRow
  scans : ℤ → Option ScanRow
  scanResults : List ScanResultRow
  syncState : Feed → Option SyncState

/-- No rows, except the three that the first migration seeds. -/
def Tables.seeded : Tables where
  cves _ := none
  cveCpeMatches := []
  kev _ := none
  epss _ := none
  scans _ := none
  scanResults := []
  syncState _ := some ⟨none, none, none, 0, .idle, none⟩

/-! ## Constraints -/

/-- A REAL column that is NULL or in `[0, hi]`. -/
def checkReal (hi : ℚ) (q : Option ℚ) : Bool := q.all fun q => 0 ≤ q && q ≤ hi

/-- The values of `cvss_v3_severity`. -/
def v3Severities : List Bytes :=
  [ascii "NONE", ascii "LOW", ascii "MEDIUM", ascii "HIGH", ascii "CRITICAL"]

/-- The values of `cvss_v2_severity`. -/
def v2Severities : List Bytes := [ascii "LOW", ascii "MEDIUM", ascii "HIGH"]

/-- The CHECK clauses of `cves`. -/
def CveRow.check (r : CveRow) : Bool :=
  checkReal 10 r.cvssV3BaseScore && r.cvssV3Severity.all (v3Severities.contains ·) &&
    checkReal 10 r.cvssV2BaseScore && r.cvssV2Severity.all (v2Severities.contains ·) &&
    decide (0 ≤ r.severity ∧ r.severity ≤ 4)

/-- The CHECK clauses of `cve_cpe_matches`. -/
def CpeRow.check (r : CpeRow) : Bool :=
  [ascii "a", ascii "o", ascii "h"].contains r.part &&
    decide (r.vulnerable = 0 ∨ r.vulnerable = 1)

/-- The CHECK clause of `kev`. -/
def KevRow.check (r : KevRow) : Bool :=
  decide (r.knownRansomware = 0 ∨ r.knownRansomware = 1)

/-- The CHECK clauses of `epss`. -/
def EpssRow.check (r : EpssRow) : Bool :=
  checkReal 1 (some r.epssScore) && checkReal 1 (some r.percentile)

/-- The CHECK clauses of `scan_results`. -/
def ScanResultRow.check (r : ScanResultRow) : Bool :=
  decide (0 ≤ r.port ∧ r.port ≤ 65535) && decide (0 ≤ r.severity ∧ r.severity ≤ 4) &&
    decide (r.kevFlag = 0 ∨ r.kevFlag = 1) && checkReal 1 r.epssScore

/-- What SQLite keeps true of a database with this schema: every row passes
the CHECK clauses of its table and finds the rows it refers to, and the key of
a scan was generated. -/
structure Tables.Conforms (d : Tables) : Prop where
  cves : ∀ id r, d.cves id = some r → r.check = true
  cpe : ∀ r ∈ d.cveCpeMatches, r.check = true ∧ (d.cves r.cveId).isSome
  kev : ∀ id r, d.kev id = some r → r.check = true ∧ (d.cves id).isSome
  epss : ∀ id r, d.epss id = some r → r.check = true ∧ (d.cves id).isSome
  scans : ∀ id, (d.scans id).isSome → 0 < id
  results : ∀ r ∈ d.scanResults, r.check = true ∧ (d.scans r.scanId).isSome ∧
    ∀ id, r.cveId = some id → (d.cves id).isSome

/-- Without feeds only the scans and their results are to be checked. -/
theorem Tables.conforms_of_scans {scans : ℤ → Option ScanRow} {results : List ScanResultRow}
    (hscans : ∀ id, (scans id).isSome → 0 < id)
    (hresults : ∀ r ∈ results, r.check = true ∧ (scans r.scanId).isSome ∧ r.cveId = none) :
    { Tables.seeded with scans := scans, scanResults := results }.Conforms where
  cves := by
    intro id r h
    cases h
  cpe := by
    intro r h
    cases h
  kev := by
    intro id r h
    cases h
  epss := by
    intro id r h
    cases h
  scans := hscans
  results := by
    intro r h
    obtain ⟨hcheck, hscan, hcve⟩ := hresults r h
    refine ⟨hcheck, hscan, fun id hid => ?_⟩
    rw [hcve] at hid
    cases hid

/-- The row id that SQLite gives a new row: one more than the largest. -/
def nextRowId (ids : List ℕ) : ℕ := ids.foldl max 0 + 1

/-- The placeholder row that the KEV and EPSS feeds and the plugin findings
put into `cves` for an id it does not have. -/
def placeholderRow (nowTs now : Bytes) : CveRow where
  published := nowTs
  lastModified := nowTs
  description := []
  cvssV3Vector := none
  cvssV3BaseScore := none
  cvssV3Severity := none
  cvssV2Vector := none
  cvssV2BaseScore := none
  cvssV2Severity := none
  severity := 0
  source := ascii "placeholder"
  ingestedAt := now

/-- `INSERT INTO cves .. 'placeholder' .. ON CONFLICT (cve_id) DO NOTHING`, the
one text that `kev_ingest.c`, `epss_ingest.c` and `scan_persist.c` share. -/
def insertPlaceholder (cveId nowTs now : Bytes) (d : Tables) : Option Tables :=
  if !(placeholderRow nowTs now).check then none
  else
    match d.cves cveId with
    | some _ => some d
    | none =>
        some { d with cves := Function.update d.cves cveId (some (placeholderRow nowTs now)) }

/-! ## The calls -/

/-- The prepared statements of the modules below. -/
inductive Stmt
  | cveUpsert
  | cpeInsert
  | placeholder
  | kevUpsert
  | epssUpsert
  | syncState
  | watermark
  | severityLookup
  | kevLookup
  | epssLookup
  | resultInsert
  | candidates
  | malformedCount
  | scanInsert
  deriving DecidableEq, Repr

/-- The calls that can fail, by kind. -/
inductive Call
  | parse
  | begin
  | commit
  | rollback
  | timestamp
  | prepare (st : Stmt)
  | bind (st : Stmt)
  | step (st : Stmt)
  deriving DecidableEq, Repr

/-- A program of statement calls on the schema. -/
abbrev Sql (α : Type) := Lib.Prog Call Bytes Tables α

/-- Prepares the statements in order, up to the first that fails. -/
def prepareStatements : List Stmt → Sql Bool
  | [] => pure true
  | st :: rest => do
      if ← Lib.Prog.attempt (.prepare st) then prepareStatements rest else pure false

/-- Nothing fails, and the clock stands still. -/
def quietEnv : Lib.Env Call Bytes := ⟨fun _ _ => false, fun _ => ascii "2024-06-01T00:00:00.000Z"⟩

/-- A fresh connection to a database. -/
def Tables.connect {ρ : Type} (d : Tables) : Lib.Session Tables ρ := ⟨d, none, 0, []⟩

end Cytadel.Db
