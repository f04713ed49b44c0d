import Cytadel.Db.NvdIngest

/-!
# The KEV feed

`src/db/kev_ingest.c`. A KEV row points into `cves`, so before it is written a
placeholder row is put there for an id that has none. The EPSS feed does the
same; the two share the order of calls below.
-/

namespace Cytadel.Db

open Cytadel Lib

/-- `cytadel_kev_ingest_counts_t` and `cytadel_epss_ingest_counts_t`. -/
structure RecordCounts where
  ingested : ℕ
  skipped : ℕ
  deriving DecidableEq, Repr

namespace RecordCounts

def zero : RecordCounts := ⟨0, 0⟩
def ingest (c : RecordCounts) : RecordCounts := { c with ingested := c.ingested + 1 }
def skip (c : RecordCounts) : RecordCounts := { c with skipped := c.skipped + 1 }

end RecordCounts

/-- The second half of `process_one_kev` and `process_one_epss`: the
placeholder, then the row itself. -/
def writeWithPlaceholder (cveId : Bytes) (st : Stmt) (binds : ℕ)
    (upsert : Bytes → Tables → Option Tables) (c : RecordCounts) :
    Sql (RecordCounts × Bool) := do
  match ← Prog.timestamp .timestamp with
  | none => pure (c, true)
  | some nowTs =>
      if ← Prog.attemptAll (.bind .placeholder) 3 then
        match ← Prog.exec (.step .placeholder) (insertPlaceholder cveId nowTs) with
        | .constraint => pure (c.skip, false)
        | .error => pure (c, true)
        | .done =>
            if ← Prog.attemptAll (.bind st) binds then
              match ← Prog.exec (.step st) upsert with
              | .done => pure (c.ingest, false)
              | .constraint => pure (c.skip, false)
              | .error => pure (c, true)
            else pure (c.skip, false)
      else pure (c.skip, false)

/-- The `sync_state` update of a feed without a caller's cursor: the watermark
of a complete pull is the day of the update. -/
def recordSyncUpdate (feed : Feed) (fullPullComplete : Bool) (records : ℕ)
    (now : Bytes) (d : Tables) : Option Tables :=
  let update (st : SyncState) : SyncState :=
    if fullPullComplete then
      { st with
        lastModWatermark := some (now.take 10)
        lastSyncCompleted := some now
        totalRecords := st.totalRecords + records
        status := .success
        lastError := none }
    else
      { st with
        totalRecords := st.totalRecords + records
        status := .running
        lastError := none }
  some { d with
    syncState := Function.update d.syncState feed ((d.syncState feed).map update) }

/-! ## KEV -/

/-- The values that `process_one_kev` binds. -/
structure KevRecord where
  cveId : Bytes
  dateAdded : Bytes
  vendorProject : Bytes
  product : Bytes
  vulnerabilityName : Bytes
  requiredAction : Option Bytes
  dueDate : Option Bytes
  knownRansomware : ℤ
  notes : Option Bytes
  deriving DecidableEq

/-- The part of `process_one_kev` before the placeholder. -/
def readKev (elem : Json) : Option KevRecord := do
  let cveId ← readCveId (some elem) (ascii "cveID")
  let dateAdded ← jsonGetNonempty (some elem) (ascii "dateAdded")
  let vendorProject ← jsonGetNonempty (some elem) (ascii "vendorProject")
  let product ← jsonGetNonempty (some elem) (ascii "product")
  let vulnerabilityName ← jsonGetNonempty (some elem) (ascii "vulnerabilityName")
  let ransomware := jsonGetString (some elem) (ascii "knownRansomwareCampaignUse")
  pure
    { cveId := cveId
      dateAdded := clipInto (32 + 1) dateAdded
      vendorProject := clipInto (256 + 1) vendorProject
      product := clipInto (256 + 1) product
      vulnerabilityName := clipInto (512 + 1) vulnerabilityName
      requiredAction :=
        (jsonGetNonempty (some elem) (ascii "requiredAction")).map (clipInto (2048 + 1))
      dueDate := (jsonGetNonempty (some elem) (ascii "dueDate")).map (clipInto (32 + 1))
      knownRansomware := if ransomware == some (ascii "Known") then 1 else 0
      notes := (jsonGetNonempty (some elem) (ascii "notes")).map (clipInto (4096 + 1)) }

/-- The row that CYTADEL_KEV_UPSERT_SQL proposes. -/
def KevRecord.row (r : KevRecord) (now : Bytes) : KevRow where
  dateAdded := r.dateAdded
  vendorProject := r.vendorProject
  product := r.product
  vulnerabilityName := r.vulnerabilityName
  requiredAction := r.requiredAction
  dueDate := r.dueDate
  knownRansomware := r.knownRansomware
  notes := r.notes
  syncedAt := now

/-- The DO UPDATE clause of CYTADEL_KEV_UPSERT_SQL: vendor, product and name
stay as they were first written. -/
def KevRow.onConflict (old excluded : KevRow) : KevRow :=
  { excluded with
    vendorProject := old.vendorProject
    product := old.product
    vulnerabilityName := old.vulnerabilityName }

/-- CYTADEL_KEV_UPSERT_SQL. -/
def kevUpsert (r : KevRecord) (now : Bytes) (d : Tables) : Option Tables :=
  if !(r.row now).check then none
  else
    match d.kev r.cveId with
    | some old =>
        some { d with kev := Function.update d.kev r.cveId (some (old.onConflict (r.row now))) }
    | none =>
        if (d.cves r.cveId).isNone then none
        else some { d with kev := Function.update d.kev r.cveId (some (r.row now)) }

/-- One element of the array: `process_one_kev`, for an object. -/
def processOneKev (elem : Json) (c : RecordCounts) : Sql (RecordCounts × Bool) :=
  if !elem.isObject then pure (c.skip, false)
  else
    match readKev elem with
    | none => pure (c.skip, false)
    | some r => writeWithPlaceholder r.cveId .kevUpsert 9 (kevUpsert r) c

def kevFeed (fullPullComplete : Bool) : FeedSpec RecordCounts where
  maxBytes := 64 * 1024 * 1024
  arrayKey := ascii "vulnerabilities"
  maxRecords := 100000
  stmts := [.placeholder, .kevUpsert, .syncState]
  processOne := processOneKev
  zero := .zero
  skip := .skip
  seen c := c.ingested + c.skipped
  syncBinds := 1
  syncUpdate := recordSyncUpdate .kev fullPullComplete

/-- `cytadel_kev_ingest`. -/
def kevIngest {ρ : Type} (w : World) (bytes : Bytes) (fullPullComplete : Bool)
    (s : Session Tables ρ) : IngestResult RecordCounts ρ :=
  (kevFeed fullPullComplete).ingest w bytes s

end Cytadel.Db
