import Mathlib.Data.Rat.Floor
import Cytadel.Db.EpssIngest

/-!
# Paging the EPSS feed

`src/db/epss_sync.c`, over `cytadel_nvd_fetch_get`: the pages are asked for by
URL, and the offset moves by the records that came back. The transport is the
network's answer to a URL, or nothing. The handles and the counters that the
caller passes are there. The notes in the log (a request, its answer, a page
handed to the ingest) are not kept by the source.
-/

namespace Cytadel.Db

open Cytadel Lib

/-- A world with a network that is asked by URL. -/
structure UrlWorld extends World where
  fetch : ℕ → Bytes → Option Bytes

inductive EpssNote
  | request (offset : ℕ)
  | reply (offset : ℕ) (body : Bytes)
  | page (body : Bytes) (fullPullComplete : Bool)
  deriving DecidableEq, Repr

abbrev EpssSession := Session Tables EpssNote

/-- CYTADEL_EPSS_DEFAULT_URL. -/
def epssDefaultUrl : Bytes := ascii "https://api.first.org/" ++ ascii "data/v1/epss"

/-- CYTADEL_EPSS_SYNC_MAX_PAGES. -/
def epssSyncMaxPages : ℕ := 200000

/-- CYTADEL_EPSS_SYNC_MAX_TOTAL. -/
def epssSyncMaxTotal : ℚ := 100000000

/-- `cytadel_epss_sync_status_t`. -/
inductive EpssSyncStatus
  | ok
  | errInvalidArg
  | errFetch
  | errIngest
  | errProtocol
  deriving DecidableEq, Repr

/-- `cytadel_epss_sync_counts_t`. -/
structure EpssSyncCounts where
  pagesFetched : ℕ
  epssIngested : ℕ
  epssSkipped : ℕ
  deriving DecidableEq, Repr

def EpssSyncCounts.zero : EpssSyncCounts := ⟨0, 0, 0⟩

def EpssSyncCounts.addPage (c : EpssSyncCounts) (p : RecordCounts) : EpssSyncCounts where
  pagesFetched := c.pagesFetched + 1
  epssIngested := c.epssIngested + p.ingested
  epssSkipped := c.epssSkipped + p.skipped

structure EpssSyncResult where
  status : EpssSyncStatus
  counts : EpssSyncCounts
  session : EpssSession

/-- The total of a parsed page and the number of its records. -/
def envelope (root : Option Json) : Option (ℕ × ℕ) :=
  match jsonGetNumber root (ascii "total"), jsonGetArray root (ascii "data") with
  | some v, some data => (v.within epssSyncMaxTotal).map fun q => (q.floor.toNat, data.length)
  | _, _ => none

/-- `parse_envelope`. -/
def parseEnvelope (w : World) (body : Bytes) (s : EpssSession) : Option (ℕ × ℕ) × EpssSession :=
  let root := parseJson w body s
  (envelope root.1, root.2)

/-- The text that `build_page_url` prints. -/
def pageUrl (baseUrl : Bytes) (limit offset : ℕ) : Bytes :=
  baseUrl ++ ascii "?limit=" ++ decimal limit ++ ascii "&offset=" ++ decimal offset

/-- `build_page_url`, with a buffer of CYTADEL_EPSS_SYNC_URL_BUF_LEN bytes. -/
def buildPageUrl (baseUrl : Bytes) (limit offset : ℕ) : Option Bytes :=
  let url := pageUrl baseUrl limit offset
  if url.length < 1024 then some url else none

/-- The page loop, with the pages that the cap still allows. -/
def epssSyncPages (w : UrlWorld) (baseUrl : Bytes) (limit : ℕ) :
    ℕ → ℕ → EpssSyncCounts → EpssSession → EpssSyncResult
  | 0, _, c, s => ⟨.errProtocol, c, s⟩
  | pages + 1, offset, c, s =>
      match buildPageUrl baseUrl limit offset with
      | none => ⟨.errProtocol, c, s⟩
      | some url =>
          let asked := (s.note (.request offset)).tick
          match w.fetch s.calls url with
          | none => ⟨.errFetch, c, asked⟩
          | some body =>
              let parsed := parseEnvelope w.toWorld body (asked.note (.reply offset body))
              match parsed.1 with
              | none => ⟨.errProtocol, c, parsed.2⟩
              | some (total, dataCount) =>
                  let isLast := decide (offset + dataCount ≥ total)
                  -- an empty page before the total is a truncated pull
                  if dataCount == 0 && !isLast then ⟨.errProtocol, c, parsed.2⟩
                  else
                    let page := epssIngest w.toWorld body isLast
                      (parsed.2.note (.page body isLast))
                    if page.status ≠ .ok then ⟨.errIngest, c, page.session⟩
                    else
                      let c := c.addPage page.counts
                      if isLast then ⟨.ok, c, page.session⟩
                      else
                        epssSyncPages w baseUrl limit pages (offset + dataCount) c page.session

/-- The URL that is paged: an absent or empty one is the default. -/
def epssBaseUrl (epssUrl : Option Bytes) : Bytes :=
  match epssUrl with
  | some url => if url.isEmpty then epssDefaultUrl else url
  | none => epssDefaultUrl

/-- The records asked for with each request. -/
def epssLimit (pageSize : ℤ) : ℕ := if pageSize > 0 then pageSize.toNat else 2000

/-- `cytadel_epss_sync`. -/
def epssSync (w : UrlWorld) (epssUrl : Option Bytes) (pageSize : ℤ) (s : EpssSession) :
    EpssSyncResult :=
  epssSyncPages w (epssBaseUrl epssUrl) (epssLimit pageSize) epssSyncMaxPages 0 .zero s

end Cytadel.Db
