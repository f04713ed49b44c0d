import Cytadel.Db.CveId
import Cytadel.Db.Ingest

/-!
# The NVD feed

`src/db/nvd_ingest.c`. What a record says is read off its JSON first, as a
pure function: `readCve` and `readCpeMatch` answer `none` exactly where the
source skips before it binds anything. The rest is the statements.
-/

namespace Cytadel.Db

open Cytadel Lib

/-! ## Reading a record -/

/-- `cytadel_nvd_ingest_counts_t`. -/
structure NvdCounts where
  cveIngested : ℕ
  cveSkipped : ℕ
  cpeIngested : ℕ
  cpeSkipped : ℕ
  deriving DecidableEq, Repr

namespace NvdCounts

def zero : NvdCounts := ⟨0, 0, 0, 0⟩
def ingestCve (c : NvdCounts) : NvdCounts := { c with cveIngested := c.cveIngested + 1 }
def skipCve (c : NvdCounts) : NvdCounts := { c with cveSkipped := c.cveSkipped + 1 }
def ingestCpe (c : NvdCounts) : NvdCounts := { c with cpeIngested := c.cpeIngested + 1 }
def skipCpe (c : NvdCounts) : NvdCounts := { c with cpeSkipped := c.cpeSkipped + 1 }

end NvdCounts

/-- `normalize_nvd_timestamp`: at most 48 bytes, not empty, and a closing `Z`. -/
def normalizeNvdTimestamp (raw : Bytes) : Option Bytes :=
  let t := raw.take 48
  match t.getLast? with
  | none => none
  | some c => some (if c == 0x5A || c == 0x7A then t else t ++ ascii "Z")

/-- The scan of `extract_description`: the first English value, else the first
value at all, among so many entries. -/
def descriptionGo : ℕ → List Json → Option Bytes → Option Bytes
  | 0, _, first => first
  | _ + 1, [], first => first
  | n + 1, item :: rest, first =>
      match jsonGetString (some item) (ascii "value") with
      | none => descriptionGo n rest first
      | some value =>
          if jsonGetString (some item) (ascii "lang") == some (ascii "en") then some value
          else descriptionGo n rest (first.or (some value))

/-- `extract_description`. -/
def extractDescription (cve : Option Json) : Bytes :=
  match jsonGetArray cve (ascii "descriptions") with
  | none => []
  | some items => clipInto (4096 + 1) ((descriptionGo 256 items none).getD [])

/-- `cytadel_nvd_cvss_t`; the `has_` flags are the options. -/
structure NvdCvss where
  vector : Option Bytes
  baseScore : Option ℚ
  severity : Option Bytes
  deriving DecidableEq

/-- What `extract_first_cvss` returns: was anything found? -/
def NvdCvss.found (c : NvdCvss) : Bool :=
  c.vector.isSome || c.baseScore.isSome || c.severity.isSome

/-- `extract_first_cvss`, from the first element of the named metric. -/
def extractFirstCvss (metrics : Option Json) (metricKey : Bytes) : NvdCvss :=
  match jsonGetArray metrics metricKey with
  | some (first :: _) =>
      let data := jsonGetItem (some first) (ascii "cvssData")
      { vector := (jsonGetNonempty data (ascii "vectorString")).map (clipInto (256 + 1))
        baseScore := (jsonGetNumber data (ascii "baseScore")).bind (Number.within 10)
        severity := (jsonGetNonempty data (ascii "baseSeverity")).map (clipInto 16) }
  | _ => ⟨none, none, none⟩

def severityFromV3Score (score : ℚ) : ℤ :=
  if score ≤ 0 then 0 else if score < 4 then 1 else if score < 7 then 2
  else if score < 9 then 3 else 4

/-- Version 2 of the score has no critical tier. -/
def severityFromV2Score (score : ℚ) : ℤ :=
  if score ≤ 0 then 0 else if score < 4 then 1 else if score < 7 then 2 else 3

/-- The values that `process_one_cve` binds. -/
structure CveRecord where
  cveId : Bytes
  published : Bytes
  lastModified : Bytes
  description : Bytes
  v3 : NvdCvss
  v2 : NvdCvss
  severity : ℤ
  deriving DecidableEq

/-- The id of a record, where it is one. -/
def readCveId (obj : Option Json) (key : Bytes) : Option Bytes :=
  match jsonGetNonempty obj key with
  | none => none
  | some id => if id.length > 64 || !isValidCveId id then none else some (clipInto (64 + 1) id)

/-- The severity of a record: by its version 3 score, else by its version 2
score, else none. -/
def recordSeverity (v3 v2 : NvdCvss) : ℤ :=
  match v3.baseScore, v2.baseScore with
  | some q, _ => severityFromV3Score q
  | none, some q => severityFromV2Score q
  | none, none => 0

/-- The part of `process_one_cve` before its first bind. -/
def readCve (elem : Json) : Option CveRecord := do
  let cve := jsonGetItem (some elem) (ascii "cve")
  let cveId ← readCveId cve (ascii "id")
  let published ← (jsonGetString cve (ascii "published")).bind normalizeNvdTimestamp
  let lastModified ← (jsonGetString cve (ascii "lastModified")).bind normalizeNvdTimestamp
  let metrics := jsonGetItem cve (ascii "metrics")
  let v31 := extractFirstCvss metrics (ascii "cvssMetricV31")
  let v3 := if v31.found then v31 else extractFirstCvss metrics (ascii "cvssMetricV30")
  let v2 := extractFirstCvss metrics (ascii "cvssMetricV2")
  pure
    { cveId := cveId
      published := published
      lastModified := lastModified
      description := extractDescription cve
      v3 := v3
      v2 := v2
      severity := recordSeverity v3 v2 }

/-- `cpe23_field`: a field between colons. -/
def cpe23Field (s : Bytes) (i : ℕ) : Option Bytes := (s.splitOn 0x3A)[i]?

/-- The values that `process_one_cpe_match` binds, without the CVE id. -/
structure CpeRecord where
  cpe23Uri : Bytes
  part : Bytes
  vendor : Bytes
  product : Bytes
  version : Bytes
  versionStartIncluding : Bytes
  versionStartExcluding : Bytes
  versionEndIncluding : Bytes
  versionEndExcluding : Bytes
  vulnerable : ℤ
  deriving DecidableEq

/-- A version bound of a `cpeMatch` entry; empty when there is none. -/
def readBound (m : Json) (key : Bytes) : Bytes :=
  match jsonGetString (some m) key with
  | none => []
  | some v => clipInto (128 + 1) v

/-- The part of `process_one_cpe_match` before its first bind. -/
def readCpeMatch (m : Json) : Option CpeRecord := do
  let criteria ← jsonGetNonempty (some m) (ascii "criteria")
  let uri := clipInto (1024 + 1) criteria
  let part ← cpe23Field uri 2
  let vendor ← cpe23Field uri 3
  let product ← cpe23Field uri 4
  let version ← cpe23Field uri 5
  if !([ascii "a", ascii "o", ascii "h"].contains part) then none
  else if vendor.isEmpty || product.isEmpty then none
  else
    let version := clipIntoN (128 + 1) version
    let vsi := readBound m (ascii "versionStartIncluding")
    let vse := readBound m (ascii "versionStartExcluding")
    let vei := readBound m (ascii "versionEndIncluding")
    let vee := readBound m (ascii "versionEndExcluding")
    -- a range row without a bound says nothing
    if version == ascii "*" && (vsi.isEmpty && vse.isEmpty && vei.isEmpty && vee.isEmpty) then
      none
    else
      pure
        { cpe23Uri := uri
          part := part
          vendor := clipLowerIntoN (256 + 1) vendor
          product := clipLowerIntoN (256 + 1) product
          version := version
          versionStartIncluding := vsi
          versionStartExcluding := vse
          versionEndIncluding := vei
          versionEndExcluding := vee
          vulnerable :=
            if (jsonGetBool (some m) (ascii "vulnerable")).getD true then 1 else 0 }

/-! ## The statements -/

/-- The row that CYTADEL_NVD_CVE_UPSERT_SQL proposes. -/
def CveRecord.row (r : CveRecord) (now : Bytes) : CveRow where
  published := r.published
  lastModified := r.lastModified
  description := r.description
  cvssV3Vector := r.v3.vector
  cvssV3BaseScore := r.v3.baseScore
  cvssV3Severity := r.v3.severity.filter (v3Severities.contains ·)
  cvssV2Vector := r.v2.vector
  cvssV2BaseScore := r.v2.baseScore
  cvssV2Severity := r.v2.severity.filter (v2Severities.contains ·)
  severity := r.severity
  source := ascii "nvd"
  ingestedAt := now

/-- The DO UPDATE clause of CYTADEL_NVD_CVE_UPSERT_SQL: it names every column
but the key and `published`. -/
def CveRow.onConflict (old excluded : CveRow) : CveRow :=
  { excluded with published := old.published }

/-- CYTADEL_NVD_CVE_UPSERT_SQL. -/
def cveUpsert (r : CveRecord) (now : Bytes) (d : Tables) : Option Tables :=
  if !(r.row now).check then none
  else
    let row :=
      match d.cves r.cveId with
      | none => r.row now
      | some old => old.onConflict (r.row now)
    some { d with cves := Function.update d.cves r.cveId (some row) }

/-- The row that CYTADEL_NVD_CPE_UPSERT_SQL proposes. -/
def CpeRecord.row (r : CpeRecord) (cveId : Bytes) (id : ℕ) : CpeRow where
  id := id
  cveId := cveId
  cpe23Uri := r.cpe23Uri
  part := r.part
  vendor := r.vendor
  product := r.product
  version := r.version
  versionStartIncluding := r.versionStartIncluding
  versionStartExcluding := r.versionStartExcluding
  versionEndIncluding := r.versionEndIncluding
  versionEndExcluding := r.versionEndExcluding
  vulnerable := r.vulnerable

/-- CYTADEL_NVD_CPE_UPSERT_SQL: a row whose key is there already is left
alone. -/
def cpeInsert (cveId : Bytes) (r : CpeRecord) (_now : Bytes) (d : Tables) : Option Tables :=
  let row := r.row cveId (nextRowId (d.cveCpeMatches.map (·.id)))
  if !row.check then none
  else if d.cveCpeMatches.any fun old => old.key == row.key then some d
  else if (d.cves cveId).isNone then none
  else some { d with cveCpeMatches := d.cveCpeMatches ++ [row] }

/-- CYTADEL_NVD_SYNC_STATE_COMPLETE_SQL and CYTADEL_NVD_SYNC_STATE_PARTIAL_SQL:
only a complete window moves the watermark. -/
def nvdSyncUpdate (lastmodEndDate : Bytes) (windowComplete : Bool) (records : ℕ)
    (now : Bytes) (d : Tables) : Option Tables :=
  let update (st : SyncState) : SyncState :=
    if windowComplete then
      { st with
        lastModWatermark := some lastmodEndDate
        lastSyncCompleted := some now
        totalRecords := st.totalRecords + records
        status := .success
        lastError := none }
    else
      { st with
        totalRecords := st.totalRecords + records
        status := .running
        lastError := none }
  some { d with
    syncState := Function.update d.syncState .nvd ((d.syncState .nvd).map update) }

/-! ## One record and one page -/

/-- `process_one_cpe_match`. -/
def processOneCpeMatch (cveId : Bytes) (m : Json) (c : NvdCounts) : Sql (NvdCounts × Bool) :=
  match readCpeMatch m with
  | none => pure (c.skipCpe, false)
  | some r => do
      if ← Prog.attemptAll (.bind .cpeInsert) 11 then
        match ← Prog.exec (.step .cpeInsert) (cpeInsert cveId r) with
        | .done => pure (c.ingestCpe, false)
        | .constraint => pure (c.skipCpe, false)
        | .error => pure (c, true)
      else pure (c.skipCpe, false)

/-- The loop of `process_cpe_node`. The budget counts the entries looked at;
without it they are skipped unseen. -/
def processCpeMatches (cveId : Bytes) :
    List Json → ℕ × NvdCounts → Sql ((ℕ × NvdCounts) × Bool)
  | [], st => pure (st, false)
  | _ :: ms, (0, c) => processCpeMatches cveId ms (0, c.skipCpe)
  | m :: ms, (budget + 1, c) =>
      if !m.isObject then processCpeMatches cveId ms (budget, c.skipCpe)
      else do
        let r ← processOneCpeMatch cveId m c
        if r.2 then pure ((budget, r.1), true) else processCpeMatches cveId ms (budget, r.1)

/-- `process_cpe_node`. -/
def processCpeNode (cveId : Bytes) (node : Json) (st : ℕ × NvdCounts) :
    Sql ((ℕ × NvdCounts) × Bool) :=
  match jsonGetArray (some node) (ascii "cpeMatch") with
  | none => pure (st, false)
  | some entries => processCpeMatches cveId entries st

/-- The nodes of one configuration. -/
def processNodes (cveId : Bytes) :
    List Json → ℕ × NvdCounts → Sql ((ℕ × NvdCounts) × Bool)
  | [], st => pure (st, false)
  | node :: nodes, st =>
      if !node.isObject then processNodes cveId nodes st
      else do
        let r ← processCpeNode cveId node st
        if r.2 then pure r else processNodes cveId nodes r.1

/-- The configurations of one record. -/
def processConfigurations (cveId : Bytes) :
    List Json → ℕ × NvdCounts → Sql ((ℕ × NvdCounts) × Bool)
  | [], st => pure (st, false)
  | config :: configs, st =>
      match jsonGetArray (some config) (ascii "nodes") with
      | none => processConfigurations cveId configs st
      | some nodes => do
          let r ← processNodes cveId nodes st
          if r.2 then pure r else processConfigurations cveId configs r.1

/-- CYTADEL_NVD_MAX_CPE_PER_CVE. -/
def nvdMaxCpePerCve : ℕ := 4096

/-- `process_one_cve`. -/
def processOneCve (elem : Json) (c : NvdCounts) : Sql (NvdCounts × Bool) :=
  match readCve elem with
  | none => pure (c.skipCve, false)
  | some r => do
      if ← Prog.attemptAll (.bind .cveUpsert) 11 then
        match ← Prog.exec (.step .cveUpsert) (cveUpsert r) with
        | .constraint => pure (c.skipCve, false)
        | .error => pure (c, true)
        | .done =>
            let cve := jsonGetItem (some elem) (ascii "cve")
            match jsonGetArray cve (ascii "configurations") with
            | none => pure (c.ingestCve, false)
            | some configs =>
                let out ← processConfigurations r.cveId configs (nvdMaxCpePerCve, c.ingestCve)
                pure (out.1.2, out.2)
      else pure (c.skipCve, false)

def nvdFeed (lastmodEndDate : Bytes) (windowComplete : Bool) : FeedSpec NvdCounts where
  maxBytes := 64 * 1024 * 1024
  arrayKey := ascii "vulnerabilities"
  maxRecords := 20000
  stmts := [.cveUpsert, .cpeInsert, .syncState]
  processOne := processOneCve
  zero := .zero
  skip := .skipCve
  seen c := c.cveIngested + c.cveSkipped
  syncBinds := if windowComplete then 2 else 1
  syncUpdate := nvdSyncUpdate lastmodEndDate windowComplete

/-- `cytadel_nvd_ingest_page`. -/
def nvdIngestPage {ρ : Type} (w : World) (bytes lastmodEndDate : Bytes)
    (windowComplete : Bool) (s : Session Tables ρ) : IngestResult NvdCounts ρ :=
  if lastmodEndDate.isEmpty then ⟨.errInvalidArg, .zero, s⟩
  else (nvdFeed lastmodEndDate windowComplete).ingest w bytes s

end Cytadel.Db
