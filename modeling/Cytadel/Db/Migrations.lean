import Cytadel.Bytes
import Cytadel.Lib.Race

/-!
# Migrations

`src/db/db_migrations.c`. What SQLite makes of a statement is a parameter: a
partial function on everything in the file but `schema_migrations`, which only
the runner touches. A batch of `sqlite3_exec` is the list of its statements,
and each of them is a call of its own, so that other connections can come in
between. The handle is not NULL.
-/

namespace Cytadel.Db

open Cytadel Lib Lib.Race

/-! ## The list of migrations -/

/-- CYTADEL_DB_MIGRATION_1_STATEMENTS: a table and its indexes in each batch. -/
def migration1Statements : List (List Bytes) :=
  [[ascii ("CREATE TABLE cves (" ++
      "    cve_id             TEXT    NOT NULL PRIMARY KEY," ++
      "    published          TEXT    NOT NULL," ++
      "    last_modified      TEXT    NOT NULL," ++
      "    description        TEXT    NOT NULL DEFAULT ''," ++
      "    cvss_v3_vector     TEXT," ++
      "    cvss_v3_base_score REAL    CHECK (cvss_v3_base_score IS NULL" ++
      "                                      OR (cvss_v3_base_score >= 0.0 AND " ++
      "cvss_v3_base_score <= 10.0))," ++
      "    cvss_v3_severity   TEXT    CHECK (cvss_v3_severity IS NULL" ++
      "                                      OR cvss_v3_severity IN " ++
      "('NONE','LOW','MEDIUM','HIGH','CRITICAL'))," ++
      "    cvss_v2_vector     TEXT," ++
      "    cvss_v2_base_score REAL    CHECK (cvss_v2_base_score IS NULL" ++
      "                                      OR (cvss_v2_base_score >= 0.0 AND " ++
      "cvss_v2_base_score <= 10.0))," ++
      "    cvss_v2_severity   TEXT    CHECK (cvss_v2_severity IS NULL" ++
      "                                      OR cvss_v2_severity IN " ++
      "('LOW','MEDIUM','HIGH'))," ++
      "    severity           INTEGER NOT NULL DEFAULT 0 CHECK (severity BETWEEN 0 AND 4)," ++
      "    source             TEXT    NOT NULL DEFAULT 'nvd'," ++
      "    ingested_at        TEXT    NOT NULL" ++
      ");"),
    ascii "CREATE INDEX idx_cves_last_modified ON cves (last_modified);",
    ascii "CREATE INDEX idx_cves_severity      ON cves (severity);"],
    -- cve_cpe_matches
   [ascii ("CREATE TABLE cve_cpe_matches (" ++
      "    id                      INTEGER NOT NULL PRIMARY KEY," ++
      "    cve_id                  TEXT    NOT NULL REFERENCES cves (cve_id) ON DELETE " ++
      "CASCADE," ++
      "    cpe23_uri                TEXT    NOT NULL," ++
      "    part                     TEXT    NOT NULL DEFAULT 'a' CHECK (part IN " ++
      "('a','o','h'))," ++
      "    vendor                   TEXT    NOT NULL," ++
      "    product                  TEXT    NOT NULL," ++
      "    version                  TEXT    NOT NULL DEFAULT '*'," ++
      "    version_start_including   TEXT    NOT NULL DEFAULT ''," ++
      "    version_start_excluding   TEXT    NOT NULL DEFAULT ''," ++
      "    version_end_including     TEXT    NOT NULL DEFAULT ''," ++
      "    version_end_excluding     TEXT    NOT NULL DEFAULT ''," ++
      "    vulnerable                INTEGER NOT NULL DEFAULT 1 CHECK (vulnerable IN (0,1))," ++
      "    UNIQUE (cve_id, cpe23_uri, version_start_including, version_start_excluding," ++
      "            version_end_including, version_end_excluding, vulnerable)" ++
      ");"),
    ascii "CREATE INDEX idx_cpe_vendor_product ON cve_cpe_matches (vendor, product);",
    ascii "CREATE INDEX idx_cpe_product        ON cve_cpe_matches (product);",
    ascii "CREATE INDEX idx_cpe_cve_id         ON cve_cpe_matches (cve_id);"],
    -- kev
   [ascii ("CREATE TABLE kev (" ++
      "    cve_id            TEXT    NOT NULL PRIMARY KEY REFERENCES cves (cve_id) ON " ++
      "DELETE CASCADE," ++
      "    date_added         TEXT    NOT NULL," ++
      "    vendor_project      TEXT    NOT NULL," ++
      "    product             TEXT    NOT NULL," ++
      "    vulnerability_name   TEXT    NOT NULL," ++
      "    required_action      TEXT," ++
      "    due_date             TEXT," ++
      "    known_ransomware     INTEGER NOT NULL DEFAULT 0 CHECK (known_ransomware IN " ++
      "(0,1))," ++
      "    notes                TEXT," ++
      "    synced_at            TEXT    NOT NULL" ++
      ") WITHOUT ROWID;")],
    -- epss
   [ascii ("CREATE TABLE epss (" ++
      "    cve_id     TEXT    NOT NULL PRIMARY KEY REFERENCES cves (cve_id) ON DELETE " ++
      "CASCADE," ++
      "    epss_score REAL    NOT NULL CHECK (epss_score  >= 0.0 AND epss_score  <= 1.0)," ++
      "    percentile REAL    NOT NULL CHECK (percentile  >= 0.0 AND percentile  <= 1.0)," ++
      "    score_date TEXT    NOT NULL," ++
      "    synced_at  TEXT    NOT NULL" ++
      ") WITHOUT ROWID;")],
    -- scans
   [ascii ("CREATE TABLE scans (" ++
      "    scan_id                     INTEGER NOT NULL PRIMARY KEY," ++
      "    started_at                   TEXT    NOT NULL," ++
      "    finished_at                  TEXT," ++
      "    target_spec                  TEXT    NOT NULL," ++
      "    authorized_by                 TEXT    NOT NULL," ++
      "    authorization_confirmed_at     TEXT    NOT NULL," ++
      "    authorization_method           TEXT    NOT NULL" ++
      "                                   CHECK (authorization_method IN " ++
      "('interactive','flag'))," ++
      "    status                       TEXT    NOT NULL DEFAULT 'running'" ++
      "                                   CHECK (status IN " ++
      "('running','completed','aborted','failed'))," ++
      "    notes                        TEXT" ++
      ");"),
    ascii "CREATE INDEX idx_scans_started_at ON scans (started_at DESC);"],
    -- scan_results
   [ascii ("CREATE TABLE scan_results (" ++
      "    id             INTEGER NOT NULL PRIMARY KEY," ++
      "    scan_id         INTEGER NOT NULL REFERENCES scans (scan_id) ON DELETE CASCADE," ++
      "    host            TEXT    NOT NULL," ++
      "    port            INTEGER NOT NULL CHECK (port BETWEEN 0 AND 65535)," ++
      "    service         TEXT," ++
      "    plugin_id       TEXT    NOT NULL," ++
      "    cve_id          TEXT    REFERENCES cves (cve_id) ON DELETE SET NULL," ++
      "    severity        INTEGER NOT NULL CHECK (severity BETWEEN 0 AND 4)," ++
      "    evidence        TEXT    NOT NULL," ++
      "    remediation     TEXT," ++
      "    kev_flag        INTEGER NOT NULL DEFAULT 0 CHECK (kev_flag IN (0,1))," ++
      "    epss_score      REAL    CHECK (epss_score IS NULL OR (epss_score >= 0.0 AND " ++
      "epss_score <= 1.0))," ++
      "    detected_at     TEXT    NOT NULL" ++
      ");"),
    ascii "CREATE INDEX idx_scan_results_scan_id   ON scan_results (scan_id);",
    ascii "CREATE INDEX idx_scan_results_host_port ON scan_results (scan_id, host, port);",
    ascii "CREATE INDEX idx_scan_results_severity  ON scan_results (scan_id, severity DESC);",
    ascii ("CREATE INDEX idx_scan_results_cve_id    ON scan_results (cve_id) " ++
      "WHERE cve_id IS NOT NULL;")],
    -- sync_state (+ its 3 seed rows)
   [ascii ("CREATE TABLE sync_state (" ++
      "    feed                 TEXT    NOT NULL PRIMARY KEY CHECK (feed IN " ++
      "('nvd','kev','epss'))," ++
      "    last_sync_started      TEXT," ++
      "    last_sync_completed     TEXT," ++
      "    last_mod_watermark      TEXT," ++
      "    total_records          INTEGER NOT NULL DEFAULT 0," ++
      "    status                 TEXT    NOT NULL DEFAULT 'idle' CHECK (status IN " ++
      "('idle','running','success','error'))," ++
      "    last_error             TEXT" ++
      ") WITHOUT ROWID;"),
    ascii ("INSERT OR IGNORE INTO sync_state (feed, status, total_records) VALUES ('nvd', " ++
      "'idle', 0);"),
    ascii ("INSERT OR IGNORE INTO sync_state (feed, status, total_records) VALUES ('kev', " ++
      "'idle', 0);"),
    ascii ("INSERT OR IGNORE INTO sync_state (feed, status, total_records) VALUES ('epss', " ++
      "'idle', 0);")]]

/-- CYTADEL_DB_MIGRATION_2_STATEMENTS. -/
def migration2Statements : List (List Bytes) :=
  [[ascii ("ALTER TABLE scan_results ADD COLUMN match_status TEXT NOT NULL DEFAULT 'confirmed' " ++
      "CHECK (match_status IN ('confirmed','undetermined','not_affected'));")]]

/-- CYTADEL_DB_MIGRATION_3_STATEMENTS. -/
def migration3Statements : List (List Bytes) :=
  [[ascii "ALTER TABLE scans ADD COLUMN malformed_data_count INTEGER NOT NULL DEFAULT 0;"]]

/-- `cytadel_db_migration_t`. -/
structure Migration where
  version : ℤ
  description : Bytes
  statements : List (List Bytes)

/-- CYTADEL_DB_MIGRATIONS. -/
def migrations : List Migration :=
  [⟨1, ascii ("Initial frozen schema: cves, cve_cpe_matches, kev, epss, scans, " ++
      "scan_results, sync_state"), migration1Statements⟩,
    ⟨2, ascii ("Add scan_results.match_status (CPE-match caller verdict: " ++
      "confirmed/undetermined/not_affected)"), migration2Statements⟩,
    ⟨3, ascii ("Add scans.malformed_data_count (durable MALFORMED_ROW data-quality counter, " ++
      "M8 report slice 2)"), migration3Statements⟩]

/-! ## The file -/

/-- A row of `schema_migrations`. -/
structure MigrationRow where
  version : ℤ
  description : Bytes
  appliedAt : Bytes
  deriving DecidableEq

/-- A database file; there may be no table `schema_migrations` yet. -/
structure Database (σ : Type) where
  schema : σ
  schemaMigrations : Option (List MigrationRow)
  deriving DecidableEq

namespace Database

variable {σ : Type}

/-- A file with nothing in it. -/
def empty (blank : σ) : Database σ := ⟨blank, none⟩

def rows (d : Database σ) : List MigrationRow := d.schemaMigrations.getD []

/-- The INSERT into `schema_migrations`; `version` is its primary key. -/
def insertMigration (row : MigrationRow) (d : Database σ) : Option (Database σ) :=
  match d.schemaMigrations with
  | none => none
  | some rows =>
      if rows.any fun r => r.version == row.version then none
      else some { d with schemaMigrations := some (rows ++ [row]) }

end Database

/-- `COALESCE(MAX(version), 0)`. -/
def maxVersion (rows : List MigrationRow) : ℤ := (rows.map MigrationRow.version).max?.getD 0

/-! ## The runner -/

/-- The statuses of `cytadel_db_status_t` that the runner returns. -/
inductive DbStatus
  | ok
  | errMigration
  | errQuery
  deriving DecidableEq, Repr

/-- Calls on a connection to the file. -/
abbrev Script (σ : Type) := Prog Verb Bytes (Database σ)

section Runner

variable {σ : Type} (sqlite : Bytes → σ → Option σ)

/-- One statement of a batch. -/
def execStatement (sql : Bytes) : Script σ Bool := do
  let r ← Prog.exec .statement fun _ d =>
    (sqlite sql d.schema).map fun schema => { d with schema := schema }
  pure (r == .done)

/-- `cytadel_db_exec` of a batch, up to the first statement that fails. -/
def execBatch : List Bytes → Script σ Bool
  | [] => pure true
  | sql :: sqls => do
      if ← execStatement sqlite sql then execBatch sqls else pure false

/-- CYTADEL_DB_SCHEMA_MIGRATIONS_DDL. SQLite looks the table up as it compiles
the statement, and there is nothing to write when it is there. -/
def ensureSchemaMigrations : Script σ Bool := do
  match ← Prog.select .statement fun d => d.schemaMigrations.isSome with
  | none => pure false
  | some true => pure true
  | some false => do
      let r ← Prog.exec .statement fun _ d =>
        some { d with schemaMigrations := some d.rows }
      pure (r == .done)

/-- `cytadel_db_migrations_current_version`. The SELECT is prepared and stepped. -/
def currentVersion : Script σ (Except DbStatus ℤ) := do
  if ← ensureSchemaMigrations then
    if ← Prog.attempt .host then
      match ← Prog.select .statement fun d => d.schemaMigrations.map maxVersion with
      | some (some version) => pure (.ok version)
      | _ => pure (.error .errQuery)
    else pure (.error .errQuery)
  else pure (.error .errQuery)

/-- `cytadel_db_record_migration`: the timestamp, the INSERT, its three binds
and its step. -/
def recordMigration (m : Migration) : Script σ Bool := do
  match ← Prog.timestamp .host with
  | none => pure false
  | some appliedAt =>
      if ← Prog.attempt .host then
        if ← Prog.attemptAll .host 3 then
          let r ← Prog.exec .statement fun _ d =>
            d.insertMigration ⟨m.version, m.description, appliedAt⟩
          pure (r == .done)
        else pure false
      else pure false

/-- The loop over the statements of a migration. -/
def execBatches : List (List Bytes) → Script σ Bool
  | [] => pure true
  | batch :: batches => do
      if ← execBatch sqlite batch then execBatches batches else pure false

/-- The statements of a migration and then its record. -/
def migrationBody (m : Migration) : Script σ Bool := do
  if ← execBatches sqlite m.statements then recordMigration m else pure false

/-- The best-effort ROLLBACK, whether it succeeds or not. -/
def rolledBack : Script σ DbStatus := do
  let _ ← Prog.attempt .rollback
  pure .errMigration

/-- One migration in its transaction. -/
def runMigration (m : Migration) : Script σ DbStatus := do
  if ← Prog.attempt .begin then
    if ← migrationBody sqlite m then
      if ← Prog.attempt .commit then pure .ok else rolledBack
    else rolledBack
  else pure .errMigration

/-- The loop of `cytadel_db_migrations_run`. -/
def runMigrations (current : ℤ) : List Migration → Script σ DbStatus
  | [] => pure .ok
  | m :: ms =>
      if m.version ≤ current then runMigrations current ms
      else do
        match ← runMigration sqlite m with
        | .ok => runMigrations current ms
        | status => pure status

/-- `cytadel_db_migrations_run`. -/
def migrationsRun : Script σ DbStatus := do
  match ← currentVersion with
  | .error status => pure status
  | .ok current => runMigrations sqlite current migrations

end Runner

end Cytadel.Db
