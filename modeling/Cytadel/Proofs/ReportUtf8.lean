import Cytadel.Lib.JsonUtf8
import Cytadel.Proofs.FindingsKept
import Cytadel.Proofs.JsonReport

/-!
# When the JSON report is UTF-8

Nothing between a plugin and the report looks at the encoding of a text: a
report is UTF-8 just when every text column that it shows is. Of the columns
that the persist phase writes, the service, the plugin id, a CVE id that passed
the grammar and the time are ASCII; the host, the evidence, the remediation and
the CVE ids of the matcher are whatever came in.
-/

namespace Cytadel.Report

open Cytadel Cytadel.Db Cytadel.Cli Cytadel.Kb Cytadel.Plugin Lib Lib.Json

/-! ## The texts of a report -/

/-- The text columns of a scan that a report shows. -/
def textsOfScan (row : ScanRow) : List Bytes :=
  [row.startedAt] ++ row.finishedAt.toList ++
    [row.targetSpec, row.authorizedBy, row.authorizationConfirmedAt]

/-- The text columns of a result that a report shows. -/
def textsOfResult (r : ScanResultRow) : List Bytes :=
  [r.host] ++ r.service.toList ++ [r.pluginId] ++ r.cveId.toList ++ [r.evidence] ++
    r.remediation.toList ++ [r.detectedAt]

def isAscii (s : Bytes) : Bool := s.all fun c => c.toNat ≤ 0x7F

theorem utf8_of_isAscii {s : Bytes} (h : isAscii s = true) : Utf8 s :=
  Utf8.of_all h

/-- A key, or a name of an enumeration. -/
theorem utf8_name_iff {s : Bytes} (h : isAscii s = true) : Utf8 s ↔ True :=
  iff_true_intro (utf8_of_isAscii h)

theorem texts_intValue (v : ℤ) : (intValue v).texts = [] := rfl

theorem texts_textValue (col : Option Bytes) : (textValue col).texts = col.toList := by
  cases col <;> rfl

theorem texts_doubleValue (col : Option ℚ) : (doubleValue col).texts = [] := by
  cases col <;> rfl

theorem isAscii_authorizationMethodText (m : AuthorizationMethod) :
    isAscii (authorizationMethodText m) = true := by
  cases m <;> decide

theorem isAscii_scanStatusText (st : ScanStatus) : isAscii (scanStatusText st) = true := by
  cases st <;> decide

theorem isAscii_matchStatusText (st : MatchStatus) : isAscii (matchStatusText st) = true := by
  cases st <;> decide

theorem scanValue_utf8 (scanId : ℤ) (row : ScanRow) :
    AllUtf8 (scanValue scanId row).texts ↔ AllUtf8 (textsOfScan row) := by
  have hmethod := utf8_of_isAscii (isAscii_authorizationMethodText row.authorizationMethod)
  have hstatus := utf8_of_isAscii (isAscii_scanStatusText row.status)
  simp (disch := decide) only [scanValue, Value.texts, membersTexts, texts_intValue,
    texts_textValue, allUtf8_cons, allUtf8_append, allUtf8_nil, utf8_name_iff, Option.toList,
    hmethod, hstatus, textsOfScan, true_and, and_true, and_assoc]

theorem summaryValue_utf8 (c : ReportCounts) : AllUtf8 (summaryValue c).texts := by
  have hrange : List.range 5 = [0, 1, 2, 3, 4] := rfl
  simp (disch := decide) only [summaryValue, Value.texts, membersTexts, texts_intValue, hrange,
    List.map_cons, List.map_nil, allUtf8_cons, allUtf8_append, allUtf8_nil, utf8_name_iff,
    and_self]

theorem findingValue_utf8 (r : ScanResultRow) :
    AllUtf8 (findingValue r).texts ↔ AllUtf8 (textsOfResult r) := by
  have hstatus := utf8_of_isAscii (isAscii_matchStatusText r.matchStatus)
  simp (disch := decide) only [findingValue, Value.texts, membersTexts, texts_intValue,
    texts_textValue, texts_doubleValue, allUtf8_cons, allUtf8_append, allUtf8_nil, utf8_name_iff,
    Option.toList, hstatus, textsOfResult, true_and, and_true, and_assoc]

theorem reportValue_utf8 (scanId : ℤ) (row : ScanRow) (c : ReportCounts)
    (rows : List ScanResultRow) :
    AllUtf8 (reportValue scanId row c rows).texts ↔
      AllUtf8 (textsOfScan row) ∧ ∀ r ∈ rows, AllUtf8 (textsOfResult r) := by
  have hrows : AllUtf8 (itemsTexts (rows.map findingValue)) ↔
      ∀ r ∈ rows, AllUtf8 (textsOfResult r) := by
    induction rows with
    | nil => simp [itemsTexts]
    | cons r rs ih =>
        rw [List.map_cons, itemsTexts, allUtf8_append, findingValue_utf8, ih,
          List.forall_mem_cons]
  have hsummary := summaryValue_utf8 c
  simp (disch := decide) only [reportValue, Value.texts, membersTexts, allUtf8_cons,
    allUtf8_append, allUtf8_nil, utf8_name_iff, true_and, and_true, scanValue_utf8, hrows]
  rw [and_iff_right hsummary]

/-- The text that a report appends is UTF-8 just when the columns it shows are. -/
theorem reportJson_utf8 {alloc : ℕ → Bool} {fault : ReportDbCall → Bool} {d : Tables}
    {scanId : ℤ} {row : ScanRow} {out out' : ReportBuf} {text : Bytes}
    (hrow : d.scans scanId = some row)
    (h : reportJson ⟨alloc, fault, fun _ => d⟩ scanId out = (.ok, out'))
    (htext : out'.data = out.data ++ text) :
    Utf8 text ↔
      AllUtf8 (textsOfScan row) ∧ ∀ r ∈ resultsOf scanId d, AllUtf8 (textsOfResult r) := by
  obtain ⟨row', hrow', hdata⟩ := reportJson_ok h
  obtain rfl : row' = row := Option.some.inj (hrow'.symm.trans hrow)
  rw [htext, List.append_cancel_left_eq] at hdata
  rw [hdata, utf8_print_iff _ (reportValue_ok _ _ _ _), reportValue_utf8]
  have hperm := (findingsQuery_sorted scanId d).1
  simp only [hperm.mem_iff]

/-! ## The columns that are written -/

theorem isAscii_lookupService (kb : Option Kb) (port : UInt16) :
    AllUtf8 (lookupService kb port).toList := by
  intro t ht
  have htokens : ∀ token ∈ svcTokens, isAscii token = true := by decide
  have hfound : lookupService kb port = some t := by simpa using ht
  rw [lookupService.eq_def] at hfound
  split at hfound
  · cases hfound
  · split at hfound
    · cases hfound
    · exact utf8_of_isAscii (htokens t (List.mem_of_find?_eq_some hfound))

theorem utf8_of_isValidCveId {id : Bytes} (h : isValidCveId id = true) : Utf8 id := by
  have hdigits : ∀ s : Bytes, s.all isDigitByte = true → ∀ c ∈ s, c.toNat ≤ 0x7F := by
    intro s hs c hc
    have hall : ∀ c : UInt8, isDigitByte c = true → c.toNat ≤ 0x7F := forall_byte (by decide)
    exact hall c (List.all_eq_true.mp hs c hc)
  simp only [isValidCveId] at h
  split at h
  · cases h
  split at h
  · cases h
  next hhead =>
  split at h
  · cases h
  next hyear =>
  split at h
  · cases h
  next hdash =>
  split at h
  · cases h
  next hnumber =>
  have hid : id = id.take 4 ++ ((id.drop 4).take 4 ++ ((id.drop 8).take 1 ++ id.drop 9)) := by
    have h₁ : (id.drop 8).take 1 ++ id.drop 9 = id.drop 8 := by
      rw [show id.drop 9 = (id.drop 8).drop 1 by rw [List.drop_drop], List.take_append_drop]
    have h₂ : (id.drop 4).take 4 ++ id.drop 8 = id.drop 4 := by
      rw [show id.drop 8 = (id.drop 4).drop 4 by rw [List.drop_drop], List.take_append_drop]
    rw [h₁, h₂, List.take_append_drop]
  have hhead' : id.take 4 = ascii "CVE-" := by simpa using hhead
  have hdash' : (id.drop 8).take 1 = ascii "-" := by simpa using hdash
  rw [hid, hhead', hdash']
  refine (Utf8.of_all (by decide)).append ((Utf8.of_ascii (hdigits _ (by simpa using hyear))).append
    ((Utf8.of_all (by decide)).append (Utf8.of_ascii (hdigits _ (by simpa using hnumber)))))

section

variable {env : Env Call Bytes} {scanId : ℤ} (hclock : ∀ n, Utf8 (env.clock n))
include hclock

/-- A finding puts three texts into its row that may be anything. -/
theorem finding_texts {f : Finding} {row : ScanResultRow} (h : f.WrittenAs env scanId row)
    (hservice : AllUtf8 f.service.toList) (hplugin : Utf8 f.pluginId) :
    AllUtf8 (textsOfResult row) ↔
      Utf8 f.host ∧ Utf8 f.evidence ∧ AllUtf8 f.remediation.toList := by
  obtain ⟨id, kev, epss, n, rfl⟩ := h
  have hcve : AllUtf8 f.effectiveCveId.toList := by
    intro t ht
    rw [Finding.effectiveCveId, Option.mem_toList, Option.filter_eq_some_iff] at ht
    exact utf8_of_isValidCveId ht.2
  simp only [textsOfResult, Finding.resultRow, allUtf8_append, allUtf8_cons, allUtf8_nil, hservice,
    hplugin, hcve, hclock n, and_true, and_assoc]

/-- A detection puts three as well: the host, the evidence and the CVE id. -/
theorem detection_texts {r : HostResult} {kb : Kb} {port : UInt16} {resolved : ResolvedService}
    {row : ScanResultRow} {cveId : Bytes}
    (h : (r.detection kb port resolved).WrittenAs env scanId row) (hid : row.cveId = some cveId) :
    AllUtf8 (textsOfResult row) ↔
      Utf8 r.host ∧ Utf8 (r.detection kb port resolved).evidence ∧ Utf8 cveId := by
  obtain ⟨g, status, d, id, n, rfl⟩ := h
  obtain rfl : g.cveId = cveId := Option.some.inj hid
  have hservice := isAscii_lookupService (some kb) port
  have hplugin : Utf8 (ascii "cpe_version_match") := utf8_of_isAscii (by decide)
  simp only [textsOfResult, Group.row, Detection.resultRow, HostResult.detection, allUtf8_append,
    allUtf8_cons, allUtf8_nil, hservice, hplugin, hclock n, and_true, Option.toList_some,
    Option.toList_none, and_assoc]
  exact and_congr_right fun _ => and_comm

end

/-! ## The reports of a host -/

/-- The evidence of a report, as the C string it is copied to. -/
def evidenceText (t : LuaTable) : Bytes :=
  match t (ascii "evidence") with
  | .string s => cstr s
  | _ => []

/-- The finding of this report is persisted: it has a port that is one, and its
first CVE is not an empty string. -/
def Persists (toInteger : ToInteger) (rep : PluginHeader × LuaTable) : Prop :=
  (∃ p, toInteger (rep.2 (ascii "port")) = some p ∧ 0 ≤ p ∧ p ≤ 65535) ∧ Kept rep

/-- The texts of the report and of its host are UTF-8. -/
def ReportTexts (host : Bytes) (rep : PluginHeader × LuaTable) : Prop :=
  Utf8 host ∧ Utf8 (evidenceText rep.2) ∧ AllUtf8 (solutionText rep.1 rep.2).toList

section

variable {toInteger : ToInteger} {env : Env Call Bytes} {scanId : ℤ} {r : HostResult}

/-- The rows of the findings, against the reports that they come from. -/
theorem reports_texts (hclock : ∀ n, Utf8 (env.clock n)) (hscan : 0 < scanId) (hhost : r.host ≠ [])
    {reports : List (PluginHeader × LuaTable)} {findings : List PluginFinding}
    (hrep : List.Forall₂ (fun rep f => reportVuln toInteger rep.1 rep.2 = .ok f) reports findings)
    {rows : List ScanResultRow}
    (hrows : List.Forall₂ (Finding.WrittenAs env scanId) (findings.filterMap (r.takes scanId))
      rows) :
    (∀ row ∈ rows, AllUtf8 (textsOfResult row)) ↔
      ∀ rep ∈ reports, Persists toInteger rep → ReportTexts r.host rep := by
  induction hrep generalizing rows with
  | nil =>
      cases hrows
      simp
  | @cons rep f reports findings hok hrest ih =>
      have hreports := reportVuln_reports hok
      have htakes := takes_reports (r := r) hscan hhost rep hreports
      have hpersists : Persists toInteger rep ↔ 0 ≤ f.port ∧ f.port ≤ 65535 ∧ Kept rep := by
        rw [Persists, hreports.port]
        simp [and_assoc]
      by_cases hin : 0 ≤ f.port ∧ f.port ≤ 65535 ∧ Kept rep
      · obtain ⟨row, hrow, hrhost, -, -, hrplugin, -, hrev, hrsol, hrservice⟩ :=
          persistRow_reports (r := r) hreports ⟨hin.1, hin.2.1⟩
        obtain ⟨s, hs, hev⟩ := hreports.evidence
        have hevidence : row.evidence = evidenceText rep.2 := by
          rw [evidenceText, hs]
          exact Option.some.inj (hrev.symm.trans hev)
        rw [if_pos hin, hrow] at htakes
        rw [List.filterMap_cons_some htakes] at hrows
        cases hrows with
        | @cons _ out _ outs hout hrows =>
            have htexts := finding_texts hclock hout
              (by rw [hrservice]; exact isAscii_lookupService _ _)
              (by rw [hrplugin]; exact utf8_number (isNumber_decimalInt _))
            rw [List.forall_mem_cons, List.forall_mem_cons, ih hrows, htexts, hrhost, hevidence,
              hrsol]
            refine and_congr_left fun _ => ?_
            exact ⟨fun h _ => h, fun h => h (hpersists.mpr hin)⟩
      · rw [if_neg hin] at htakes
        rw [List.filterMap_cons_none htakes] at hrows
        rw [ih hrows, List.forall_mem_cons]
        exact (and_iff_right fun h => absurd (hpersists.mp h) hin).symm

theorem findings_scanId {fs : List Finding} {rows : List ScanResultRow}
    (h : List.Forall₂ (Finding.WrittenAs env scanId) fs rows) :
    ∀ row ∈ rows, row.scanId = scanId := by
  induction h with
  | nil => simp
  | cons hone _ ih =>
      obtain ⟨id, kev, epss, n, rfl⟩ := hone
      exact List.forall_mem_cons.mpr ⟨rfl, ih⟩

/-- The rows of the matcher, against what it matches. -/
theorem matches_texts (hclock : ∀ n, Utf8 (env.clock n)) {ports : List (UInt16 × PortState)}
    {cpes : List CpeRow} {rows : List ScanResultRow}
    (hrows : MatcherRows env scanId r ports cpes rows) :
    (∀ row ∈ rows, AllUtf8 (textsOfResult row)) ↔
      ∀ det cveId, r.Matches scanId ports cpes det cveId →
        Utf8 r.host ∧ Utf8 det.evidence ∧ Utf8 cveId := by
  constructor
  · intro h det cveId hmatch
    obtain ⟨row, hrow, hwritten, hid⟩ := hrows.2 det cveId hmatch
    obtain ⟨p, -, -, kb, resolved, -, -, rfl, -⟩ := hmatch
    exact (detection_texts hclock hwritten hid).mp (h row hrow)
  · intro h row hrow
    obtain ⟨det, cveId, hmatch, hwritten, hid⟩ := hrows.1 row hrow
    have htexts := h det cveId hmatch
    obtain ⟨p, -, -, kb, resolved, -, -, rfl, -⟩ := hmatch
    exact (detection_texts hclock hwritten hid).mpr htexts

end

/-- After the findings of a host were persisted and nothing failed, the JSON
report of the scan is UTF-8 just when all of these are: the texts of the scan
and of the results it had, the host, the evidence and the remediation of every
finding that is persisted, and the evidence and the CVE id of every match. -/
theorem reportJson_utf8_iff {ρ : Type} {toInteger : ToInteger} {env : Env Call Bytes} {scanId : ℤ}
    {r : HostResult} {reports : List (PluginHeader × LuaTable)} {s : Session Tables ρ}
    {row : ScanRow} {alloc : ℕ → Bool} {fault : ReportDbCall → Bool} {out out' : ReportBuf}
    {text : Bytes} (hf : ∀ n k, env.fault n k = false) (hclock : ∀ n, Utf8 (env.clock n))
    (hs : s.txn = none) (hd : s.committed.Conforms) (hscan : s.committed.scans scanId = some row)
    (hup : r.state = .up) (hhost : r.host ≠ [])
    (hrep : List.Forall₂ (fun rep f => reportVuln toInteger rep.1 rep.2 = .ok f) reports r.findings)
    (hjson : reportJson ⟨alloc, fault, fun _ => (persistHost env scanId r s).session.committed⟩
      scanId out = (.ok, out'))
    (htext : out'.data = out.data ++ text) :
    Utf8 text ↔
      AllUtf8 (textsOfScan row) ∧
      (∀ res ∈ resultsOf scanId s.committed, AllUtf8 (textsOfResult res)) ∧
      (∀ rep ∈ reports, Persists toInteger rep → ReportTexts r.host rep) ∧
      ∀ det cveId, r.Matches scanId r.ports s.committed.cveCpeMatches det cveId →
        Utf8 r.host ∧ Utf8 det.evidence ∧ Utf8 cveId := by
  have hsome : (s.committed.scans scanId).isSome := by rw [hscan]; rfl
  have hpos := hd.scans scanId hsome
  obtain ⟨rows, rest, -, -, -, hframe, hres, hrows, hrest⟩ :=
    persistHost_rows (r := r) hf hs (hd.ready hsome) hpos hup hhost
  obtain ⟨n, hrow⟩ := hframe.scan row hscan
  have hnew : ∀ res ∈ rows ++ rest, res.scanId = scanId := by
    intro res hmem
    rcases List.mem_append.mp hmem with hmem | hmem
    · exact findings_scanId hrows res hmem
    · obtain ⟨det, cveId, -, ⟨g, status, d, id, n, rfl⟩, -⟩ := hrest.1 res hmem
      rfl
  have hresults : resultsOf scanId (persistHost env scanId r s).session.committed =
      resultsOf scanId s.committed ++ (rows ++ rest) := by
    rw [resultsOf, hres, List.append_assoc, List.filter_append, resultsOf,
      List.filter_eq_self.mpr fun res hmem => decide_eq_true (hnew res hmem)]
  rw [reportJson_utf8 hrow hjson htext, hresults, List.forall_mem_append, List.forall_mem_append,
    reports_texts hclock hpos hhost hrep hrows, matches_texts hclock hrest]
  rfl

/-! ## A banner that is not UTF-8 -/

/-- A table with the required fields and this evidence. -/
def bannerTable (evidence : Bytes) : LuaTable := fun field =>
  if field = ascii "severity" then .number 2
  else if field = ascii "title" then .string (ascii "banner")
  else if field = ascii "evidence" then .string evidence
  else if field = ascii "port" then .number 21
  else .nil

/-- Its finding. -/
def bannerPluginFinding (evidence : Bytes) : PluginFinding where
  severity := 2
  title := some (ascii "banner")
  description := none
  evidence := some evidence
  port := 21
  solution := none
  cve := []
  cpe := none
  cvssVector := none
  scriptId := 7
  scriptName := none

def bannerHost (evidence : Bytes) : HostResult :=
  ⟨ascii "10.0.0.5", .up, [], none, [bannerPluginFinding evidence]⟩

/-- The database once the finding is persisted. -/
def bannerTables (evidence : Bytes) : Tables :=
  (persistHost quietEnv 1 (bannerHost evidence)
    (oneScan.connect : Session Tables Unit)).session.committed

/-- With an ASCII banner the report is UTF-8. -/
theorem reportJson_utf8_ascii_banner :
    ∃ out', reportJson ⟨fun _ => false, fun _ => false, fun _ => bannerTables (ascii "220 ftp")⟩ 1
        (.empty 0) = (.ok, out') ∧ Utf8 out'.data := by
  have hclock : ∀ n, Utf8 (quietEnv.clock n) := fun _ =>
    utf8_of_isAscii (s := ascii "2024-06-01T00:00:00.000Z") (by decide)
  obtain ⟨out', hrun⟩ := reportJson_quiet (w := ⟨fun _ => false, fun _ => false,
    fun _ => bannerTables (ascii "220 ftp")⟩) (fun _ => rfl) (fun _ => rfl) 1
    (by decide) (by decide +kernel) (by decide +kernel)
  have hrep : List.Forall₂ (fun rep f => reportVuln plainInteger rep.1 rep.2 = .ok f)
      [(reportHeader, bannerTable (ascii "220 ftp"))] (bannerHost (ascii "220 ftp")).findings :=
    .cons rfl .nil
  refine ⟨out', hrun, (reportJson_utf8_iff (fun _ _ => rfl) hclock rfl oneScan_conforms rfl rfl
    (by decide) hrep hrun rfl).mpr ⟨?_, ?_, ?_, ?_⟩⟩
  · intro t ht
    have hall : ∀ t ∈ textsOfScan ⟨ascii "2024-06-01", none, ascii "10.0.0.5", ascii "ops",
        ascii "2024-06-01", .flag, .running, none, 0⟩, isAscii t = true := by decide
    exact utf8_of_isAscii (hall t ht)
  · intro res hres
    cases hres
  · intro rep hrep _
    rw [List.mem_singleton.mp hrep]
    have hsolution : solutionText reportHeader (bannerTable (ascii "220 ftp")) = none := rfl
    refine ⟨utf8_of_isAscii (by decide), utf8_of_isAscii (by decide), ?_⟩
    rw [hsolution]
    exact allUtf8_nil
  · rintro det cveId ⟨p, hp, -⟩
    cases hp

theorem not_utf8_ff : ¬ Utf8 [0xFF] := by
  intro h
  rcases h.cases_seq with h | ⟨q, r, hq, -, heq⟩
  · cases h
  · cases hq <;> simp at heq
    all_goals
      obtain ⟨rfl, -⟩ := heq
      simp_all

/-- A banner of the byte FF is accepted, persisted and reported, and the report
is not UTF-8. -/
theorem reportJson_not_utf8 :
    reportVuln plainInteger reportHeader (bannerTable [0xFF]) = .ok (bannerPluginFinding [0xFF]) ∧
    (persistHost quietEnv 1 (bannerHost [0xFF]) (oneScan.connect : Session Tables Unit)).status =
      .ok ∧
    ∃ out', reportJson ⟨fun _ => false, fun _ => false, fun _ => bannerTables [0xFF]⟩ 1
        (.empty 0) = (.ok, out') ∧ ¬ Utf8 out'.data := by
  refine ⟨rfl, rfl, ?_⟩
  obtain ⟨out', hrun⟩ := reportJson_quiet (w := ⟨fun _ => false, fun _ => false,
    fun _ => bannerTables [0xFF]⟩) (fun _ => rfl) (fun _ => rfl) 1 (by decide) (by decide +kernel)
    (by decide +kernel)
  refine ⟨out', hrun, fun h => ?_⟩
  obtain ⟨row, hrow⟩ : ∃ row, (bannerTables [0xFF]).scans 1 = some row := ⟨_, rfl⟩
  have hresults := ((reportJson_utf8 hrow hrun rfl).mp h).2
  have hmem : ∃ res ∈ resultsOf 1 (bannerTables [0xFF]), [0xFF] ∈ textsOfResult res := by
    decide +kernel
  obtain ⟨res, hres, htext⟩ := hmem
  exact not_utf8_ff (hresults res hres _ htext)

end Cytadel.Report
