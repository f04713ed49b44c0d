import Cytadel.Report.ReportData

/-!
# The JSON report

`src/report/report_json.c`: one object with the scan, the summary and the
findings. Every field is a key and a value, with a comma behind it if another
field follows.
-/

namespace Cytadel.Report

open Cytadel Cytadel.Db

/-- `append_json_key`. -/
def jsonKey (key : Bytes) : List ReportOp := [.lit [0x22], .lit key, .lit (ascii "\":")]

/-- The comma behind a field that is not the last. -/
def jsonComma (comma : Bool) : List ReportOp := if comma then [.lit [0x2C]] else []

/-- `append_json_int_field`. -/
def jsonIntField (key : Bytes) (value : ℤ) (comma : Bool) : List ReportOp :=
  jsonKey key ++ [intLit value] ++ jsonComma comma

/-- `append_json_bool_field`. -/
def jsonBoolField (key : Bytes) (value : Bool) (comma : Bool) : List ReportOp :=
  jsonKey key ++ [.lit (if value then ascii "true" else ascii "false")] ++ jsonComma comma

/-- `append_json_string_col`. -/
def jsonStringCol (key : Bytes) (col : Option Bytes) (comma : Bool) : List ReportOp :=
  jsonKey key ++
    (match col with
      | none => [.lit (ascii "null")]
      | some text => [.lit [0x22], .json text, .lit [0x22]]) ++
    jsonComma comma

/-- `append_json_double_or_null_col`. -/
def jsonDoubleOrNullCol (key : Bytes) (col : Option ℚ) (comma : Bool) : List ReportOp :=
  jsonKey key ++
    (match col with
      | none => [.lit (ascii "null")]
      | some v => [doubleLit v]) ++
    jsonComma comma

/-- The fields of `render_scan_object`. -/
def scanFields (scanId : ℤ) (row : ScanRow) : List ReportOp :=
  jsonIntField (ascii "scan_id") scanId true ++
  jsonStringCol (ascii "started_at") (some row.startedAt) true ++
  jsonStringCol (ascii "finished_at") row.finishedAt true ++
  jsonStringCol (ascii "target_spec") (some row.targetSpec) true ++
  jsonStringCol (ascii "authorized_by") (some row.authorizedBy) true ++
  jsonStringCol (ascii "authorization_confirmed_at") (some row.authorizationConfirmedAt) true ++
  jsonStringCol (ascii "authorization_method")
    (some (authorizationMethodText row.authorizationMethod)) true ++
  jsonStringCol (ascii "status") (some (scanStatusText row.status)) true ++
  jsonIntField (ascii "malformed_data_count") row.malformedDataCount false

/-- `render_scan_object`. -/
def renderScanObject (w : ReportWorld) (scanId : ℤ) : List ReportOp :=
  openQuery .scanRow ++ [ReportOp.db (.step .scanRow 0)] ++
    match (w.snapshot .scanRow).scans scanId with
    | none => [.stop .errNotFound]
    | some row =>
        [ReportOp.lit (ascii "\"scan\":\x7b")] ++ scanFields scanId row ++
          [ReportOp.lit [0x7D], .check]

/-- `render_summary_object`. -/
def renderSummaryObject (counts : ReportCounts) : List ReportOp :=
  [ReportOp.lit (ascii "\"summary\":\x7b\"severity_counts\":\x7b")] ++
  (List.range 5).flatMap (fun s => jsonIntField (decimal s) (counts.severityCounts s) (s < 4)) ++
  [ReportOp.lit (ascii "\x7d,")] ++
  jsonIntField (ascii "kev_count") counts.kevCount true ++
  jsonIntField (ascii "undetermined_count") counts.undeterminedCount true ++
  jsonIntField (ascii "not_affected_count") counts.notAffectedCount true ++
  jsonIntField (ascii "confirmed_count") counts.confirmedCount false ++
  [.lit [0x7D]]

/-- The fields of one finding. -/
def findingFields (r : ScanResultRow) : List ReportOp :=
  jsonStringCol (ascii "host") (some r.host) true ++
  jsonIntField (ascii "port") r.port true ++
  jsonStringCol (ascii "service") r.service true ++
  jsonStringCol (ascii "plugin_id") (some r.pluginId) true ++
  jsonStringCol (ascii "cve_id") r.cveId true ++
  jsonIntField (ascii "severity") r.severity true ++
  jsonStringCol (ascii "evidence") (some r.evidence) true ++
  jsonStringCol (ascii "remediation") r.remediation true ++
  jsonBoolField (ascii "kev_flag") (decide (r.kevFlag ≠ 0)) true ++
  jsonDoubleOrNullCol (ascii "epss_score") r.epssScore true ++
  jsonStringCol (ascii "detected_at") (some r.detectedAt) true ++
  jsonStringCol (ascii "match_status") (some (matchStatusText r.matchStatus)) false

/-- The loop of `render_findings_array`, from the row of this number on. The
step that finds no row ends it. -/
def renderFindingRows : ℕ → List ScanResultRow → List ReportOp
  | n, [] => [.db (.step .findings n)]
  | n, r :: rs =>
      [ReportOp.db (.step .findings n)] ++ (if n = 0 then [] else [ReportOp.lit [0x2C]]) ++
        [ReportOp.lit [0x7B]] ++ findingFields r ++ [ReportOp.lit [0x7D], .check] ++
        renderFindingRows (n + 1) rs

/-- `render_findings_array`. -/
def renderFindingsArray (w : ReportWorld) (scanId : ℤ) : List ReportOp :=
  openQuery .findings ++ [ReportOp.lit (ascii "\"findings\":[")] ++
    renderFindingRows 0 (findingsQuery scanId (w.snapshot .findings)) ++
    [ReportOp.check, .lit [0x5D], .check]

/-- The calls of `cytadel_report_json`. -/
def reportJsonOps (w : ReportWorld) (scanId : ℤ) : List ReportOp :=
  [ReportOp.lit [0x7B], .check] ++ renderScanObject w scanId ++ [ReportOp.lit [0x2C], .check] ++
    loadCounts w scanId ++ renderSummaryObject (loadedCounts w scanId) ++
    [ReportOp.check, .lit [0x2C], .check] ++ renderFindingsArray w scanId ++
    [ReportOp.lit [0x7D], .check]

/-- `cytadel_report_json`; the handles are there. -/
def reportJson (w : ReportWorld) (scanId : ℤ) (out : ReportBuf) : ReportStatus × ReportBuf :=
  if scanId ≤ 0 then (.errInvalidArg, out) else runOps w (reportJsonOps w scanId) true out

end Cytadel.Report
