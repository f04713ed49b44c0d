import Cytadel.Report.ReportData

/-!
# The HTML report

`src/report/report_html.c`: the cover, the summary, and a section for every
host with a card for each finding. The rows come sorted by host, and those of
one host are gathered before any of them is rendered, for the section says
first whether the host is clean. Every column is copied when it is read, and
every copy takes memory.
-/

namespace Cytadel.Report

open Cytadel Cytadel.Db

/-- A fixed text. -/
def lit (s : String) : ReportOp := .lit (ascii s)

/-- A column that is there and has content. -/
def present (col : Option Bytes) : Option Bytes := col.filter fun text => !text.isEmpty

/-- `severity_label`. -/
def severityLabel (severity : ℤ) : Bytes :=
  if severity = 0 then ascii "Info"
  else if severity = 1 then ascii "Low"
  else if severity = 2 then ascii "Medium"
  else if severity = 3 then ascii "High"
  else if severity = 4 then ascii "Critical"
  else ascii "Unknown"

/-! ## Cards -/

/-- The heading of a confirmed finding. -/
def cveLink (cveId : Option Bytes) : List ReportOp :=
  match present cveId with
  | some cve =>
      [lit "<a href=\"", .href cve, lit "\" title=\"", .attr cve, lit "\">", .body cve, lit "</a>"]
  | none => [lit "Configuration finding (no CVE)"]

/-- `render_confirmed_card`. -/
def renderConfirmedCard (r : ScanResultRow) : List ReportOp :=
  [lit "<div class=\"finding sev-", intLit r.severity, lit "\" title=\"", .attr r.evidence,
    lit "\" data-plugin-id=\"", .attr r.pluginId, lit "\">\n<h5>"] ++
  cveLink r.cveId ++
  [lit " <span class=\"badge sev-badge\">", .lit (severityLabel r.severity), lit "</span>"] ++
  (if r.kevFlag ≠ 0 then [lit " <span class=\"badge kev-badge\">KEV</span>"] else []) ++
  [lit "</h5>\n<p class=\"evidence\">Evidence: ", .body r.evidence, lit "</p>\n"] ++
  (match present r.remediation with
    | some text => [lit "<p class=\"remediation\">Remediation: ", .body text, lit "</p>\n"]
    | none => []) ++
  (match r.epssScore with
    | some score => [lit "<p class=\"epss\">EPSS: ", doubleLit score, lit "</p>\n"]
    | none => []) ++
  [lit "<p class=\"detected-at\">Detected: ", .body r.detectedAt,
    lit "</p>\n<p class=\"plugin\">Detected by: ", .body r.pluginId, lit "</p>\n</div>\n"]

/-- The service of a port, in brackets. -/
def serviceNote (service : Option Bytes) : List ReportOp :=
  match present service with
  | some text => [lit " (", .body text, lit ")"]
  | none => []

/-- `render_undetermined_card`. -/
def renderUndeterminedCard (r : ScanResultRow) : List ReportOp :=
  [lit "<div class=\"finding undetermined-finding\" title=\"", .attr r.evidence, lit "\">\n<h5>"] ++
  (match present r.cveId with
    | some cve => [.body cve]
    | none => [lit "Unknown CVE"]) ++
  [.lit (ascii " <span class=\"badge undetermined-badge\">Could not determine -- manual review " ++
      ascii "needed</span></h5>\n<p class=\"port-line\">Port: "), intLit r.port] ++
  serviceNote r.service ++
  [lit "</p>\n<p class=\"evidence\">Evidence: ", .body r.evidence,
    lit "</p>\n<p class=\"detected-at\">Detected: ", .body r.detectedAt, lit "</p>\n</div>\n"]

/-! ## A host -/

/-- The heading of a port block. -/
def portHeading (r : ScanResultRow) : List ReportOp :=
  [lit "<div class=\"port-block\">\n<h4>"] ++
  (if r.port = 0 then [lit "Host-level finding"] else [lit "Port ", intLit r.port]) ++
  serviceNote r.service ++ [lit "</h4>\n"]

/-- The loop over the confirmed findings: the port whose block is open. -/
def renderPortRows : Option ℤ → List ScanResultRow → List ReportOp
  | none, [] => []
  | some _, [] => [lit "</div>\n"]
  | none, r :: rs => portHeading r ++ renderConfirmedCard r ++ renderPortRows (some r.port) rs
  | some port, r :: rs =>
      (if r.port ≠ port then [lit "</div>\n"] ++ portHeading r else []) ++
        renderConfirmedCard r ++ renderPortRows (some r.port) rs

/-- `render_host_section`. -/
def renderHostSection (host : Bytes) (rows : List ScanResultRow) : List ReportOp :=
  let confirmed := rows.filter fun r => r.matchStatus = .confirmed
  let undetermined := rows.filter fun r => r.matchStatus = .undetermined
  let notAffected := rows.filter fun r => r.matchStatus = .notAffected
  [lit "<section class=\"host-block\" data-host=\"", .attr host, lit "\">\n<h3>Host: ", .body host,
    lit "</h3>\n"] ++
  (if confirmed = [] ∧ undetermined = [] then
    [lit "<p class=\"host-clean\">No vulnerabilities found.</p>\n"]
  else
    (if confirmed = [] then
      [lit "<p class=\"host-undetermined-only\">No confirmed vulnerabilities; ",
        intLit undetermined.length, lit " check(s) undetermined -- manual review needed.</p>\n"]
    else renderPortRows none confirmed) ++
    (if undetermined = [] then []
    else
      [.lit (ascii "<div class=\"undetermined-block\">\n<h4>Undetermined -- Manual Review " ++
          ascii "Needed</h4>\n")] ++
        undetermined.flatMap renderUndeterminedCard ++ [lit "</div>\n"])) ++
  (if notAffected = [] then []
  else
    [lit "<p class=\"not-affected-count\">", intLit notAffected.length,
      lit " check(s) ruled not affected (audit trail).</p>\n"]) ++
  [lit "</section>\n"]

/-! ## The findings -/

/-- The size of `finding_row_t`. -/
def findingRowSize : ℕ := 152

/-- `rows_grow`: the calls it makes, and the capacity. -/
def rowsGrow (need cap : ℕ) : List ReportOp × ℕ :=
  if need ≤ cap then ([], cap)
  else
    let newCap := growCap need 64 (if cap = 0 then 8 else cap)
    if newCap > sizeMax / findingRowSize then ([.refuse], cap) else ([.malloc], newCap)

/-- A column is copied by `dup_column`. -/
def dupColumns (n : ℕ) : List ReportOp := List.replicate n .malloc

/-- The group with one more row. -/
def addToGroup (cur : Option (Bytes × List ScanResultRow)) (r : ScanResultRow) :
    Bytes × List ScanResultRow :=
  match cur with
  | some (host, rows) => if r.host = host then (host, rows ++ [r]) else (r.host, [r])
  | none => (r.host, [r])

/-- The section of a group that ends before this row. -/
def closeGroup (cur : Option (Bytes × List ScanResultRow)) (r : ScanResultRow) : List ReportOp :=
  match cur with
  | some (host, rows) => if r.host = host then [] else renderHostSection host rows ++ [.check]
  | none => []

/-- The loop of `render_findings`, from the row of this number on, with the
group that is open and the capacity of its array. -/
def renderFindingGroups : ℕ → Option (Bytes × List ScanResultRow) → ℕ → List ScanResultRow →
    List ReportOp
  | n, none, _, [] =>
      [.db (.step .findings n),
        .lit (ascii "<p class=\"no-findings\">No scan_results recorded for " ++
          ascii "this scan.</p>\n"), .check]
  | n, some (host, rows), _, [] =>
      [ReportOp.db (.step .findings n)] ++ renderHostSection host rows ++ [ReportOp.check]
  | n, cur, cap, r :: rs =>
      let group := addToGroup cur r
      let grown := rowsGrow group.2.length cap
      [ReportOp.db (.step .findings n)] ++ dupColumns 1 ++ [ReportOp.check] ++ closeGroup cur r ++
        dupColumns 6 ++ [ReportOp.check] ++ grown.1 ++ [ReportOp.check] ++
        renderFindingGroups (n + 1) (some group) grown.2 rs

/-- `render_findings`. -/
def renderFindings (w : ReportWorld) (scanId : ℤ) : List ReportOp :=
  openQuery .findings ++
    renderFindingGroups 0 none 0 (findingsQuery scanId (w.snapshot .findings))

/-! ## The cover and the summary -/

/-- `append_meta_row`. -/
def metaRow (label : String) (value : Bytes) : List ReportOp :=
  [lit "<tr><th>", lit label, lit "</th><td>", .body value, lit "</td></tr>\n"]

/-- The bytes of a data URI that is put into the page. -/
def isDataUriByte (c : UInt8) : Bool :=
  isAlphaAscii c || isDigitByte c || (ascii ":/;,+=").contains c

/-- CYTADEL_LOGO_DATA_URI_CHUNKS, a generated header. -/
structure Logo where
  chunks : List Bytes
  dataUri : ∀ chunk ∈ chunks, chunk.all isDataUriByte = true

/-- `render_cover`. -/
def renderCover (logo : Logo) (scanId : ℤ) (row : ScanRow) : List ReportOp :=
  [.lit (ascii "<section class=\"cover\">\n<div class=\"brand\">\n" ++
    ascii "<img class=\"logo\" width=\"120\" height=\"120\" alt=\"Cytadel\" src=\"")] ++
  logo.chunks.map .lit ++
  [.lit (ascii "\">\n<div class=\"wordmark\">CYTADEL</div>\n" ++
    ascii "</div>\n<h1>SCAN REPORT #"), intLit scanId, lit "</h1>\n<table class=\"meta\">\n"] ++
  metaRow "Target" row.targetSpec ++
  metaRow "Status" (scanStatusText row.status) ++
  metaRow "Started" row.startedAt ++
  metaRow "Finished" ((present row.finishedAt).getD (ascii "In progress")) ++
  metaRow "Authorized By" row.authorizedBy ++
  metaRow "Authorization Confirmed At" row.authorizationConfirmedAt ++
  metaRow "Authorization Method" (authorizationMethodText row.authorizationMethod) ++
  [lit "</table>\n</section>\n"]

/-- `sev_classes`. -/
def sevClass : ℕ → Bytes
  | 0 => ascii "sev-count-info"
  | 1 => ascii "sev-count-low"
  | 2 => ascii "sev-count-medium"
  | 3 => ascii "sev-count-high"
  | _ => ascii "sev-count-critical"

/-- `render_summary`. -/
def renderSummary (row : ScanRow) (counts : ReportCounts) : List ReportOp :=
  [lit "<section class=\"summary\">\n<h2>Summary</h2>\n"] ++
  (if row.malformedDataCount > 0 then
    [lit "<div class=\"data-quality-banner\">", intLit row.malformedDataCount,
      lit " record(s) had malformed data -- results may be incomplete.</div>\n"]
  else []) ++
  [lit "<ul class=\"severity-counts\">\n"] ++
  [4, 3, 2, 1, 0].flatMap (fun s : ℕ => [lit "<li class=\"", .lit (sevClass s), lit "\">",
    .lit (severityLabel s), lit ": ", intLit (counts.severityCounts s), lit "</li>\n"]) ++
  [lit "</ul>\n", lit "<p class=\"kev-count\">Known Exploited Vulnerabilities (KEV): ",
    intLit counts.kevCount, lit "</p>\n",
    .lit (ascii "<p class=\"undetermined-count-line\">Undetermined (manual review " ++
      ascii "needed): "), intLit counts.undeterminedCount, lit "</p>\n",
    .lit (ascii "<p class=\"not-affected-count\">Not affected (ruled out, audit " ++
      ascii "trail): "), intLit counts.notAffectedCount, lit "</p>\n</section>\n"]

/-! ## The head -/

def cssCommon : List String :=
  [":root \x7b\n",
    "  /* BRAND: Cytadel palette. --cytadel-primary/accent are derived from the\n",
    "     brand logo (assets/brand/cytadelredllogo.jpg -- red on black); swap in\n",
    "     official cytadel.eu hex here if it differs. */\n",
    "  --cytadel-primary: #0b0e14;\n",
    "  --cytadel-accent: #fb0202;\n",
    "  --cytadel-bg: #f5f7fa;\n",
    "  --cytadel-surface: #ffffff;\n",
    "  --cytadel-text: #1a1a1a;\n",
    "  --cytadel-muted: #5a6472;\n",
    "  --sev-critical: #b3001b;\n",
    "  --sev-high: #d9534f;\n",
    "  --sev-medium: #e0a100;\n",
    "  --sev-low: #4a90d9;\n",
    "  --sev-info: #7a7a7a;\n",
    "  --undetermined-color: #6a3fb5;\n",
    "  --warning-color: #c47f00;\n",
    "  /* END BRAND */\n",
    "\x7d\n",
    "* \x7b box-sizing: border-box; \x7d\n",
    "body \x7b font-family: 'Segoe UI', Arial, sans-serif; background: ",
    "var(--cytadel-bg); ",
    "color: var(--cytadel-text); margin: 0; padding: 0; \x7d\n",
    ".cover \x7b background: var(--cytadel-primary); color: #fff; padding: 4rem ",
    "2rem; text-align: center; \x7d\n",
    ".cover .brand \x7b display: flex; flex-direction: column; align-items: ",
    "center; gap: 0.75rem; \x7d\n",
    ".cover .logo \x7b width: 120px; height: 120px; border-radius: 50%; display: ",
    "block; ",
    "box-shadow: 0 0 0 2px var(--cytadel-accent); \x7d\n",
    ".cover .wordmark \x7b font-size: 2.5rem; font-weight: 700; letter-spacing: ",
    "0.35em; ",
    "padding-left: 0.35em; color: var(--cytadel-accent); \x7d\n",
    ".cover h1 \x7b font-size: 1.5rem; letter-spacing: 0.2em; margin-top: 1rem; ",
    "\x7d\n",
    "table.meta \x7b margin: 2rem auto; border-collapse: collapse; color: #fff; ",
    "\x7d\n",
    "table.meta th \x7b text-align: right; padding: 0.25rem 1rem; color: ",
    "var(--cytadel-accent); ",
    "font-weight: 600; \x7d\n",
    "table.meta td \x7b text-align: left; padding: 0.25rem 1rem; \x7d\n"]

def cssSections : List String :=
  ["section.summary, section.findings \x7b max-width: 960px; margin: 2rem auto; ",
    "background: var(--cytadel-surface); padding: 1.5rem 2rem; border-radius: 8px; ",
    "\x7d\n",
    ".data-quality-banner \x7b background: var(--warning-color); color: #fff; ",
    "padding: 0.75rem 1rem; ",
    "border-radius: 4px; margin-bottom: 1rem; font-weight: 600; \x7d\n",
    "ul.severity-counts \x7b list-style: none; display: flex; gap: 1rem; padding: ",
    "0; flex-wrap: wrap; \x7d\n",
    "ul.severity-counts li \x7b padding: 0.5rem 1rem; border-radius: 4px; color: ",
    "#fff; font-weight: 600; \x7d\n",
    ".sev-count-critical \x7b background: var(--sev-critical); \x7d\n",
    ".sev-count-high \x7b background: var(--sev-high); \x7d\n",
    ".sev-count-medium \x7b background: var(--sev-medium); \x7d\n",
    ".sev-count-low \x7b background: var(--sev-low); \x7d\n",
    ".sev-count-info \x7b background: var(--sev-info); \x7d\n",
    ".undetermined-count-line \x7b color: var(--undetermined-color); font-weight: ",
    "600; \x7d\n",
    ".host-block \x7b border-top: 2px solid var(--cytadel-primary); padding-top: ",
    "1rem; margin-top: 1.5rem; \x7d\n",
    ".host-clean \x7b color: #2a7a2a; font-weight: 600; \x7d\n",
    ".host-undetermined-only \x7b color: var(--undetermined-color); font-weight: ",
    "600; \x7d\n",
    ".port-block \x7b margin: 1rem 0; padding-left: 1rem; border-left: 3px solid ",
    "var(--cytadel-accent); \x7d\n"]

def cssFindings : List String :=
  [".finding \x7b border: 1px solid #ddd; border-radius: 6px; padding: 0.75rem ",
    "1rem; margin: 0.5rem 0; \x7d\n",
    ".finding.sev-4 \x7b border-left: 6px solid var(--sev-critical); \x7d\n",
    ".finding.sev-3 \x7b border-left: 6px solid var(--sev-high); \x7d\n",
    ".finding.sev-2 \x7b border-left: 6px solid var(--sev-medium); \x7d\n",
    ".finding.sev-1 \x7b border-left: 6px solid var(--sev-low); \x7d\n",
    ".finding.sev-0 \x7b border-left: 6px solid var(--sev-info); \x7d\n",
    ".finding.undetermined-finding \x7b border-left: 6px solid ",
    "var(--undetermined-color); background: #f8f5ff; \x7d\n",
    ".badge \x7b display: inline-block; padding: 0.1rem 0.5rem; border-radius: ",
    "3px; font-size: 0.8rem; ",
    "color: #fff; margin-left: 0.4rem; \x7d\n",
    ".sev-badge \x7b background: var(--cytadel-muted); \x7d\n",
    ".kev-badge \x7b background: var(--sev-critical); \x7d\n",
    ".undetermined-badge \x7b background: var(--undetermined-color); \x7d\n",
    ".not-affected-count \x7b color: var(--cytadel-muted); font-style: italic; ",
    "\x7d\n",
    "@media print \x7b\n",
    "  body \x7b background: #fff; \x7d\n",
    "  .cover \x7b page-break-after: always; background: #fff; color: ",
    "var(--cytadel-primary); ",
    "border-bottom: 4px solid var(--cytadel-primary); \x7d\n",
    "  table.meta th, table.meta td \x7b color: var(--cytadel-primary); \x7d\n",
    "  .finding, .host-block \x7b page-break-inside: avoid; \x7d\n",
    "  section.summary, section.findings \x7b box-shadow: none; \x7d\n",
    "\x7d\n"]

/-- CYTADEL_REPORT_CSS_CHUNKS. -/
def cssChunks : List Bytes :=
  [cssCommon.flatMap ascii, cssSections.flatMap ascii, cssFindings.flatMap ascii]

/-- `render_document_head`. -/
def renderDocumentHead (scanId : ℤ) : List ReportOp :=
  [.lit (ascii "<!DOCTYPE html>\n<html lang=\"en\">\n<head>\n<meta charset=\"utf-8\">\n" ++
    ascii "<meta name=\"viewport\" content=\"width=device-width, initial-scale=1\">\n" ++
    ascii "<title>Cytadel Scan Report #"), intLit scanId, lit "</title>\n<style>\n"] ++
  cssChunks.map .lit ++ [lit "</style>\n</head>\n<body>\n"]

/-- The calls of `load_scan_meta` and of what is rendered from the row. -/
def reportHtmlOps (logo : Logo) (w : ReportWorld) (scanId : ℤ) : List ReportOp :=
  openQuery .scanRow ++ [ReportOp.db (.step .scanRow 0)] ++
    match (w.snapshot .scanRow).scans scanId with
    | none => [.stop .errNotFound]
    | some row =>
        dupColumns 7 ++ [ReportOp.check] ++ loadCounts w scanId ++
          renderDocumentHead scanId ++ renderCover logo scanId row ++
          renderSummary row (loadedCounts w scanId) ++ [ReportOp.check] ++
          [lit "<section class=\"findings\">\n<h2>Findings</h2>\n", .check] ++
          renderFindings w scanId ++ [lit "</section>\n</body>\n</html>\n", .check]

/-- `cytadel_report_html`; the handles are there. -/
def reportHtml (logo : Logo) (w : ReportWorld) (scanId : ℤ) (out : ReportBuf) :
    ReportStatus × ReportBuf :=
  if scanId ≤ 0 then (.errInvalidArg, out) else runOps w (reportHtmlOps logo w scanId) true out

end Cytadel.Report
