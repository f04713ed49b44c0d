import Cytadel.Db.KevIngest

/-!
# The EPSS feed

`src/db/epss_ingest.c`. Scores and percentiles are strings in the feed; a
string counts only if `strtod` reads all of it as a probability.
-/

namespace Cytadel.Db

open Cytadel Lib

/-- `parse_probability_string`. -/
def parseProbabilityString (w : World) (s : Bytes) : Option ℚ :=
  if s.isEmpty || s.length > 31 then none
  else
    let v := w.strtod s
    if v.partly || v.erange then none else v.value.within 1

/-- The values that `process_one_epss` binds. -/
structure EpssRecord where
  cveId : Bytes
  epssScore : ℚ
  percentile : ℚ
  scoreDate : Bytes
  deriving DecidableEq

/-- The part of `process_one_epss` before the placeholder. -/
def readEpss (w : World) (elem : Json) : Option EpssRecord := do
  let cveId ← readCveId (some elem) (ascii "cve")
  let epssScore ←
    (jsonGetString (some elem) (ascii "epss")).bind (parseProbabilityString w)
  let percentile ←
    (jsonGetString (some elem) (ascii "percentile")).bind (parseProbabilityString w)
  -- the field is called `date`; `score_date` is the fallback
  let date ← (jsonGetNonempty (some elem) (ascii "date")).or
    (jsonGetNonempty (some elem) (ascii "score_date"))
  pure
    { cveId := cveId
      epssScore := epssScore
      percentile := percentile
      scoreDate := clipInto (32 + 1) date }

/-- The row that CYTADEL_EPSS_UPSERT_SQL proposes; on a conflict it replaces
every column. -/
def EpssRecord.row (r : EpssRecord) (now : Bytes) : EpssRow where
  epssScore := r.epssScore
  percentile := r.percentile
  scoreDate := r.scoreDate
  syncedAt := now

/-- CYTADEL_EPSS_UPSERT_SQL. -/
def epssUpsert (r : EpssRecord) (now : Bytes) (d : Tables) : Option Tables :=
  if !(r.row now).check then none
  else if (d.epss r.cveId).isNone && (d.cves r.cveId).isNone then none
  else some { d with epss := Function.update d.epss r.cveId (some (r.row now)) }

/-- One element of the array: `process_one_epss`, for an object. -/
def processOneEpss (w : World) (elem : Json) (c : RecordCounts) :
    Sql (RecordCounts × Bool) :=
  if !elem.isObject then pure (c.skip, false)
  else
    match readEpss w elem with
    | none => pure (c.skip, false)
    | some r => writeWithPlaceholder r.cveId .epssUpsert 4 (epssUpsert r) c

def epssFeed (w : World) (fullPullComplete : Bool) : FeedSpec RecordCounts where
  maxBytes := 128 * 1024 * 1024
  arrayKey := ascii "data"
  maxRecords := 500000
  stmts := [.placeholder, .epssUpsert, .syncState]
  processOne := processOneEpss w
  zero := .zero
  skip := .skip
  seen c := c.ingested + c.skipped
  syncBinds := 1
  syncUpdate := recordSyncUpdate .epss fullPullComplete

/-- `cytadel_epss_ingest`. -/
def epssIngest {ρ : Type} (w : World) (bytes : Bytes) (fullPullComplete : Bool)
    (s : Session Tables ρ) : IngestResult RecordCounts ρ :=
  (epssFeed w fullPullComplete).ingest w bytes s

end Cytadel.Db
