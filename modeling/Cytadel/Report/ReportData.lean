import Mathlib.Data.List.Sort
import Mathlib.Data.Rat.Floor
import Cytadel.Db.Schema
import Cytadel.Report.Escape

/-!
# What the two reports share

`report_html.c` and `report_json.c` read the database with the same six
queries, one after the other and in no transaction, so that each of them may
see another committed state: `snapshot` says which. A renderer is the list of
the calls it makes, in order. A call that writes to the buffer is left out once
one has failed, as `ok = ok && ..` does, and `check` is where the source looks
at the flag.
-/

namespace Cytadel.Report

open Cytadel Cytadel.Db

inductive ReportQuery
  | scanRow
  | severityCounts
  | kevCount
  | undeterminedCount
  | notAffectedCount
  | findings
  deriving DecidableEq, Repr

inductive ReportDbCall
  | prepare (q : ReportQuery)
  | bind (q : ReportQuery)
  | step (q : ReportQuery) (n : ℕ)
  deriving DecidableEq, Repr

/-- `cytadel_report_status_t`. -/
inductive ReportStatus
  | ok
  | errInvalidArg
  | errNotFound
  | errDb
  | errOom
  deriving DecidableEq, Repr

structure ReportWorld where
  /-- Is this request for memory refused? -/
  alloc : ℕ → Bool
  fault : ReportDbCall → Bool
  /-- The committed state that a query sees. -/
  snapshot : ReportQuery → Tables

/-! ## The calls of a renderer -/

inductive ReportOp
  | db (c : ReportDbCall)
  | lit (text : Bytes)
  | json (text : Bytes)
  | body (text : Bytes)
  | attr (text : Bytes)
  /-- `append_nvd_href_attr`. -/
  | href (cveId : Bytes)
  | malloc
  /-- A helper that fails by itself. -/
  | refuse
  | check
  | stop (status : ReportStatus)
  deriving DecidableEq

def nvdDetailUrl : Bytes := ascii "https://nvd.nist.gov/" ++ ascii "vuln/detail/"

/-- The link of a CVE, before it is escaped for its attribute. -/
def nvdHref (cveId : Bytes) : Bytes := nvdDetailUrl ++ (escapeUrl cveId).flatten

/-- The pieces that a call appends. -/
def ReportOp.pieces : ReportOp → List Bytes
  | .lit text => [text]
  | .json text => escapeJson text
  | .body text => escapeHtmlBody text
  | .attr text => escapeHtmlAttr text
  | .href cveId => escapeHtmlAttr (nvdHref cveId)
  | _ => []

/-- `append_nvd_href_attr` builds the link in a buffer of its own. -/
def appendHref (alloc : ℕ → Bool) (cveId : Bytes) (b : ReportBuf) : Bool × ReportBuf :=
  let started := bufAppend alloc nvdDetailUrl (.empty b.allocs)
  if !started.1 then (false, { b with allocs := started.2.allocs })
  else
    let copied := if urlTakesMemory cveId then takeMemory alloc started.2 else (true, started.2)
    if !copied.1 then (false, { b with allocs := copied.2.allocs })
    else
      let built := appendAll alloc (escapeUrl cveId) copied.2
      if !built.1 then (false, { b with allocs := built.2.allocs })
      else appendAll alloc (escapeHtmlAttr built.2.data) { b with allocs := built.2.allocs }

/-- A call that writes to the buffer or takes memory. -/
def ReportOp.append (alloc : ℕ → Bool) (op : ReportOp) (b : ReportBuf) : Bool × ReportBuf :=
  match op with
  | .href cveId => appendHref alloc cveId b
  | .malloc => takeMemory alloc b
  | .refuse => (false, b)
  | op => appendAll alloc op.pieces b

/-- The calls in order, with the flag. -/
def runOps (w : ReportWorld) : List ReportOp → Bool → ReportBuf → ReportStatus × ReportBuf
  | [], _, b => (.ok, b)
  | op :: ops, ok, b =>
      match op with
      | .db c => if w.fault c then (.errDb, b) else runOps w ops ok b
      | .check => if ok then runOps w ops ok b else (.errOom, b)
      | .stop status => (status, b)
      | op =>
          if ok then
            let r := op.append w.alloc b
            runOps w ops r.1 r.2
          else runOps w ops false b

/-! ## Numbers -/

/-- `append_int_lit`. -/
def intLit (v : ℤ) : ReportOp :=
  let text := decimalInt v
  if text.length ≥ 32 then .refuse else .lit text

/-- To the nearest whole number, and from the middle to the even one. -/
def roundHalfEven (x : ℚ) : ℕ :=
  let f := x.floor.toNat
  let part := x - f
  if part < 1 / 2 then f else if part > 1 / 2 then f + 1 else if f % 2 = 0 then f else f + 1

/-- The last four digits. -/
def fourDigits (n : ℕ) : Bytes :=
  [n / 1000, n / 100, n / 10, n].map fun d => UInt8.ofNat (0x30 + d % 10)

/-- `%.4f`. -/
def fixed4 (q : ℚ) : Bytes :=
  let n := roundHalfEven (|q| * 10000)
  (if q < 0 then [0x2D] else []) ++ decimal (n / 10000) ++ [0x2E] ++ fourDigits n

/-- `append_double_lit` and `append_epss_lit`. -/
def doubleLit (v : ℚ) : ReportOp :=
  let text := fixed4 v
  if text.length ≥ 32 then .refuse else .lit text

/-! ## The values of the enumerations -/

def authorizationMethodText : AuthorizationMethod → Bytes
  | .interactive => ascii "interactive"
  | .flag => ascii "flag"

def scanStatusText : ScanStatus → Bytes
  | .running => ascii "running"
  | .completed => ascii "completed"
  | .aborted => ascii "aborted"
  | .failed => ascii "failed"

def matchStatusText : MatchStatus → Bytes
  | .confirmed => ascii "confirmed"
  | .undetermined => ascii "undetermined"
  | .notAffected => ascii "not_affected"

/-! ## The queries -/

/-- The rows of a scan. -/
def resultsOf (scanId : ℤ) (d : Tables) : List ScanResultRow :=
  d.scanResults.filter fun r => r.scanId = scanId

/-- `ORDER BY host, port, severity DESC`. -/
def findingLe (a b : ScanResultRow) : Prop :=
  a.host ≤ b.host ∧ (a.host = b.host → a.port ≤ b.port ∧
    (a.port = b.port → b.severity ≤ a.severity))

instance : DecidableRel findingLe := fun _ _ => inferInstanceAs (Decidable (_ ∧ (_ → _ ∧ (_ → _))))

/-- The findings of a scan; rows that the order does not tell apart stay as
they were inserted. -/
def findingsQuery (scanId : ℤ) (d : Tables) : List ScanResultRow :=
  (resultsOf scanId d).insertionSort findingLe

/-- `SELECT severity, COUNT(*) .. WHERE match_status = 'confirmed' GROUP BY
severity`. -/
def severityQuery (scanId : ℤ) (d : Tables) : List (ℤ × ℕ) :=
  let confirmed := (resultsOf scanId d).filter fun r => r.matchStatus = .confirmed
  (confirmed.map (·.severity)).dedup.map fun s => (s, confirmed.countP fun r => r.severity = s)

/-- `SELECT COUNT(*) .. WHERE match_status = 'confirmed' AND kev_flag = 1`. -/
def kevQuery (scanId : ℤ) (d : Tables) : ℕ :=
  (resultsOf scanId d).countP fun r => r.matchStatus = .confirmed ∧ r.kevFlag = 1

/-- `SELECT COUNT(*) .. WHERE match_status = ?`. -/
def statusQuery (status : MatchStatus) (scanId : ℤ) (d : Tables) : ℕ :=
  (resultsOf scanId d).countP fun r => r.matchStatus = status

/-- `report_counts_t` and `json_report_counts_t`. -/
structure ReportCounts where
  severityCounts : ℕ → ℕ
  kevCount : ℕ
  undeterminedCount : ℕ
  notAffectedCount : ℕ

/-- `confirmed_count`. -/
def ReportCounts.confirmedCount (c : ReportCounts) : ℕ :=
  ((List.range 5).map c.severityCounts).sum

/-- The loop over the groups: a severity outside of the array is left out. -/
def takeSeverities (groups : List (ℤ × ℕ)) : ℕ → ℕ :=
  groups.foldl (fun counts g =>
    if 0 ≤ g.1 ∧ g.1 ≤ 4 then Function.update counts g.1.toNat g.2 else counts) fun _ => 0

/-- What `load_counts` and `load_report_counts` find. -/
def loadedCounts (w : ReportWorld) (scanId : ℤ) : ReportCounts where
  severityCounts := takeSeverities (severityQuery scanId (w.snapshot .severityCounts))
  kevCount := kevQuery scanId (w.snapshot .kevCount)
  undeterminedCount := statusQuery .undetermined scanId (w.snapshot .undeterminedCount)
  notAffectedCount := statusQuery .notAffected scanId (w.snapshot .notAffectedCount)

/-- Preparing and binding a query. -/
def openQuery (q : ReportQuery) : List ReportOp := [.db (.prepare q), .db (.bind q)]

/-- `count_where`. -/
def countWhere (q : ReportQuery) : List ReportOp := openQuery q ++ [.db (.step q 0)]

/-- The calls of `load_counts` and `load_report_counts`: the groups are stepped
through to the end. -/
def loadCounts (w : ReportWorld) (scanId : ℤ) : List ReportOp :=
  openQuery .severityCounts ++
    (List.range ((severityQuery scanId (w.snapshot .severityCounts)).length + 1)).map
      (fun n => .db (.step .severityCounts n)) ++
    countWhere .kevCount ++ countWhere .undeterminedCount ++ countWhere .notAffectedCount

end Cytadel.Report
