import Mathlib.Data.Rat.Floor
import Cytadel.Db.NvdIngest

/-!
# Paging one window of the NVD feed

`src/db/nvd_sync.c`, over `cytadel_nvd_fetch_page`. The transport is the
network's answer to a request, or nothing: its retries and its reasons are not
visible here. The log of the session gets a note of every page that is handed
to the ingest, which the source does not keep; between the notes stand the
commits, so the log is the history of the database.
-/

namespace Cytadel.Db

open Cytadel Lib

/-- What the window driver reads of `cytadel_nvd_fetch_config_t`. -/
structure FetchConfig where
  resultsPerPage : ℤ
  deriving DecidableEq, Repr

/-- The query of the request URL. -/
structure FetchRequest where
  resultsPerPage : ℤ
  startIndex : ℕ
  lastMod : Option (Bytes × Bytes)
  deriving DecidableEq, Repr

/-- A world with a network: the body that a request gets, unless it fails. -/
structure NetWorld extends World where
  fetch : ℕ → FetchRequest → Option Bytes

/-- A page that is handed to the ingest. -/
structure PageNote where
  startDate : Option Bytes
  endDate : Bytes
  startIndex : ℕ
  perPage : ℕ
  totalResults : ℕ
  body : Bytes
  deriving DecidableEq, Repr

abbrev NvdSession := Session Tables PageNote

/-- `cytadel_nvd_fetch_page`. The dates are sent together or not at all, and
the page size goes out as it is configured. -/
def nvdFetchPage (w : NetWorld) (cfg : FetchConfig) (startIndex : ℕ)
    (lastModStartDate lastModEndDate : Option Bytes) (s : NvdSession) :
    Option Bytes × NvdSession :=
  let start := lastModStartDate.filter fun d => !d.isEmpty
  let stop := lastModEndDate.filter fun d => !d.isEmpty
  if start.isSome != stop.isSome then (none, s)
  else
    (w.fetch s.calls ⟨cfg.resultsPerPage, startIndex, start.bind fun a => stop.map fun b => (a, b)⟩,
      s.tick)

/-- CYTADEL_NVD_SYNC_MAX_TOTAL_RESULTS. -/
def nvdSyncMaxTotalResults : ℚ := 100000000

/-- The total of a parsed page. The range is checked before the cast. -/
def totalResults (root : Option Json) : Option ℕ :=
  match jsonGetNumber root (ascii "totalResults") with
  | none => none
  | some v => (v.within nvdSyncMaxTotalResults).map fun q => q.floor.toNat

/-- `parse_total_results`. -/
def parseTotalResults (w : World) (body : Bytes) (s : NvdSession) : Option ℕ × NvdSession :=
  let root := parseJson w body s
  (totalResults root.1, root.2)

/-- `cytadel_nvd_sync_status_t`. -/
inductive NvdSyncStatus
  | ok
  | errInvalidArg
  | errFetch
  | errIngest
  | errProtocol
  deriving DecidableEq, Repr

/-- `cytadel_nvd_sync_counts_t`. -/
structure NvdSyncCounts where
  pagesFetched : ℕ
  cveIngested : ℕ
  cveSkipped : ℕ
  deriving DecidableEq, Repr

def NvdSyncCounts.zero : NvdSyncCounts := ⟨0, 0, 0⟩

def NvdSyncCounts.addPage (c : NvdSyncCounts) (p : NvdCounts) : NvdSyncCounts where
  pagesFetched := c.pagesFetched + 1
  cveIngested := c.cveIngested + p.cveIngested
  cveSkipped := c.cveSkipped + p.cveSkipped

structure NvdSyncResult where
  status : NvdSyncStatus
  counts : NvdSyncCounts
  session : NvdSession

/-- The step of `startIndex`: the configured size, between 1 and
CYTADEL_NVD_FETCH_MAX_RESULTS_PER_PAGE. -/
def FetchConfig.perPage (cfg : FetchConfig) : ℕ :=
  if cfg.resultsPerPage < 1 then 1
  else if cfg.resultsPerPage > 2000 then 2000
  else cfg.resultsPerPage.toNat

/-- Nothing is left beyond the results that the page covers. -/
def isLastPage (startIndex perPage total : ℕ) : Bool :=
  total == 0 || decide (startIndex + perPage ≥ total)

/-- The page loop, with the pages that the cap still allows. -/
def nvdSyncPages (w : NetWorld) (cfg : FetchConfig) (startDate : Option Bytes) (endDate : Bytes) :
    ℕ → ℕ → NvdSyncCounts → NvdSession → NvdSyncResult
  | 0, _, c, s => ⟨.errProtocol, c, s⟩
  | pages + 1, startIndex, c, s =>
      if startIndex > 2147483647 then ⟨.errProtocol, c, s⟩
      else
        -- a bulk load sends neither date
        let fetched := nvdFetchPage w cfg startIndex startDate (startDate.map fun _ => endDate) s
        match fetched.1 with
        | none => ⟨.errFetch, c, fetched.2⟩
        | some body =>
            let parsed := parseTotalResults w.toWorld body fetched.2
            match parsed.1 with
            | none => ⟨.errProtocol, c, parsed.2⟩
            | some total =>
                let isLast := isLastPage startIndex cfg.perPage total
                let page := nvdIngestPage w.toWorld body endDate isLast
                  (parsed.2.note ⟨startDate, endDate, startIndex, cfg.perPage, total, body⟩)
                if page.status ≠ .ok then ⟨.errIngest, c, page.session⟩
                else
                  let c := c.addPage page.counts
                  if isLast then ⟨.ok, c, page.session⟩
                  else
                    nvdSyncPages w cfg startDate endDate pages (startIndex + cfg.perPage) c
                      page.session

/-- `cytadel_nvd_sync_window`. -/
def nvdSyncWindow (w : NetWorld) (cfg : FetchConfig) (startDate : Option Bytes)
    (endDate : Bytes) (maxPages : ℤ) (s : NvdSession) : NvdSyncResult :=
  if endDate.isEmpty then ⟨.errInvalidArg, .zero, s⟩
  else
    let effectiveMaxPages := if maxPages > 0 then maxPages.toNat else 100000
    nvdSyncPages w cfg startDate endDate effectiveMaxPages 0 .zero s

end Cytadel.Db
