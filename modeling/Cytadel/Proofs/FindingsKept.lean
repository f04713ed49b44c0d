import Mathlib.Data.List.Forall2
import Cytadel.Cli.ScanWiring
import Cytadel.Proofs.CveKeys
import Cytadel.Proofs.QuietPersist

/-!
# Which findings are kept

A finding that `report_vuln` accepted passes every check on its way to the
database but one: a first CVE string that is empty, or empty up to its first
NUL, is an argument error of `cytadel_scan_persist_finding`, and the loop over
the findings absorbs that without a count. The others become a row each. The
row has the CVE id of the report unless the string is an id with a NUL behind
it: no such string is an id, but the copy of it is, and the row gets that one.
-/

namespace Cytadel.Cli

open Cytadel Cytadel.Kb Cytadel.Db Cytadel.Plugin Lib

variable {toInteger : ToInteger}

/-! ## What an accepted table says -/

/-- The first string of `cve`. -/
def firstCve (t : LuaTable) : Option Bytes :=
  match t (ascii "cve") with
  | .table (.string s :: _) => some s
  | _ => none

/-- The remediation that a report gives: its own, or that of its plugin. -/
def solutionText (header : PluginHeader) (t : LuaTable) : Option Bytes :=
  match t (ascii "solution") with
  | .string s => some (cstr s)
  | _ => header.solution

theorem checkInteger_ok {t : LuaTable} {field : Bytes} {i : ℤ}
    (h : checkInteger toInteger t field = .ok i) : toInteger (t field) = some i := by
  rw [checkInteger] at h
  split at h
  · cases h
  · next hi =>
      cases h
      exact hi

theorem checkSeverity_ok {i : ℤ} {u : Unit} (h : checkSeverity i = .ok u) : 0 ≤ i ∧ i ≤ 4 := by
  rw [checkSeverity] at h
  split at h
  · cases h
  · omega

theorem checkRequiredString_ok {t : LuaTable} {field s : Bytes}
    (h : checkRequiredString t field = .ok s) : t field = .string s := by
  rw [checkRequiredString] at h
  split at h
  · next s' hs' =>
      split at h
      · cases h
      · cases h
        exact hs'
  · cases h

theorem checkOptionalString_ok {header : PluginHeader} {t : LuaTable} {solution : Option Bytes}
    (h : checkOptionalString t (ascii "solution") = .ok solution) :
    (solution.map cstr).or header.solution = solutionText header t := by
  rw [checkOptionalString] at h
  rw [solutionText]
  cases hs : t (ascii "solution") with
  | nil =>
      rw [hs] at h
      cases h
      rfl
  | string s =>
      rw [hs] at h
      cases h
      rfl
  | _ =>
      rw [hs] at h
      cases h

theorem checkStringArray_ok {t : LuaTable} {cve : List Bytes}
    (h : checkStringArray t (ascii "cve") = .ok cve) :
    (cve.map cstr).head? = (firstCve t).map cstr := by
  rw [checkStringArray] at h
  rw [firstCve]
  cases hc : t (ascii "cve") with
  | table items =>
      rw [hc] at h
      cases items with
      | nil =>
          cases h
          rfl
      | cons v items =>
          cases v with
          | string s =>
              simp only [checkItems] at h
              split at h
              · cases h
                rfl
              · cases h
          | _ => cases h
  | nil =>
      rw [hc] at h
      cases h
      rfl
  | _ =>
      rw [hc] at h
      cases h

/-- What the persist phase reads of a finding, and where it comes from. -/
structure Reports (toInteger : ToInteger) (header : PluginHeader) (t : LuaTable)
    (f : PluginFinding) : Prop where
  severity : toInteger (t (ascii "severity")) = some f.severity
  severity_range : 0 ≤ f.severity ∧ f.severity ≤ 4
  port : toInteger (t (ascii "port")) = some f.port
  evidence : ∃ s, t (ascii "evidence") = .string s ∧ f.evidence = some (cstr s)
  solution : f.solution = solutionText header t
  cve : f.cve.head? = (firstCve t).map cstr

theorem reportVuln_reports {header : PluginHeader} {t : LuaTable} {f : PluginFinding}
    (h : reportVuln toInteger header t = .ok f) : Reports toInteger header t f := by
  rw [reportVuln] at h
  obtain ⟨_, -, h⟩ := bind_eq_ok_iff.mp h
  obtain ⟨severity, hsev, h⟩ := bind_eq_ok_iff.mp h
  obtain ⟨_, hrange, h⟩ := bind_eq_ok_iff.mp h
  obtain ⟨title, -, h⟩ := bind_eq_ok_iff.mp h
  obtain ⟨evidence, hev, h⟩ := bind_eq_ok_iff.mp h
  obtain ⟨port, hport, h⟩ := bind_eq_ok_iff.mp h
  obtain ⟨description, -, h⟩ := bind_eq_ok_iff.mp h
  obtain ⟨solution, hsol, h⟩ := bind_eq_ok_iff.mp h
  obtain ⟨cve, hcve, h⟩ := bind_eq_ok_iff.mp h
  obtain ⟨cpe, -, h⟩ := bind_eq_ok_iff.mp h
  obtain ⟨cvssVector, -, h⟩ := bind_eq_ok_iff.mp h
  cases h
  exact
    { severity := checkInteger_ok hsev
      severity_range := checkSeverity_ok hrange
      port := checkInteger_ok hport
      evidence := ⟨evidence, checkRequiredString_ok hev, rfl⟩
      solution := checkOptionalString_ok hsol
      cve := checkStringArray_ok hcve }

/-! ## One finding -/

/-- The row that a reported finding has to become: its CVE id is that of the
report, and a first string that is no id gives it none. -/
structure ReportRow (toInteger : ToInteger) (scanId : ℤ) (host : Bytes) (t : LuaTable)
    (row : ScanResultRow) : Prop where
  scan : row.scanId = scanId
  host : row.host = host
  status : row.matchStatus = .confirmed
  port : toInteger (t (ascii "port")) = some row.port
  severity : toInteger (t (ascii "severity")) = some row.severity
  evidence : ∃ s, t (ascii "evidence") = .string s ∧ row.evidence = cstr s
  cve : ∀ id, row.cveId = some id ↔ firstCve t = some id ∧ IsCveId id

theorem decimalInt_length (i : Int64) : (decimalInt i.toInt).length < 32 := by
  have hlo := i.le_toInt
  have hhi := i.toInt_lt
  have hdigits : ∀ n, n < 10 ^ 20 → (decimal n).length ≤ 20 := by
    intro n hn
    rw [decimal, List.length_map]
    exact (Nat.length_toDigits_le_iff (by decide) (by decide)).mpr hn
  cases hi : i.toInt with
  | ofNat n =>
      have hn : (n : ℤ) < 2 ^ 63 := by
        rw [hi] at hhi
        exact hhi
      have := hdigits n (by omega)
      rw [decimalInt]
      omega
  | negSucc n =>
      rw [hi] at hlo
      have := hdigits (n + 1) (by omega)
      rw [decimalInt, List.length_cons]
      omega

theorem decimalInt_ne_nil (i : ℤ) : decimalInt i ≠ [] := by
  cases i with
  | ofNat n =>
      rw [decimalInt, decimal, Ne, List.map_eq_nil_iff]
      exact List.ne_nil_of_length_pos Nat.length_toDigits_pos
  | negSucc n => simp [decimalInt]

section

variable {r : HostResult} {header : PluginHeader} {t : LuaTable} {f : PluginFinding}

/-- A reported finding passes the checks of the loop. -/
theorem persistRow_reports (h : Reports toInteger header t f)
    (hport : 0 ≤ f.port ∧ f.port ≤ 65535) :
    ∃ row, r.persistRow f = some row ∧ row.host = r.host ∧ row.port = f.port ∧
      row.severity = f.severity ∧ row.pluginId = decimalInt f.scriptId.toInt ∧
      row.cveId = (firstCve t).map cstr ∧ f.evidence = some row.evidence ∧
      row.remediation = solutionText header t ∧
      row.service = lookupService r.kb (UInt16.ofNat f.port.toNat) := by
  obtain ⟨s, -, hev⟩ := h.evidence
  have hsev := h.severity_range
  have hcast : ((UInt16.ofNat f.port.toNat).toNat : ℤ) = f.port := by
    rw [UInt16.toNat_ofNat']
    omega
  have hlen := decimalInt_length f.scriptId
  unfold HostResult.persistRow
  rw [if_neg (by omega), if_neg (by omega), hev]
  simp only
  rw [if_neg (by omega)]
  exact ⟨_, rfl, rfl, hcast, rfl, rfl, h.cve, rfl, h.solution, rfl⟩

/-- The only check of the persister it may fail is that of the CVE id. -/
theorem badArgs_iff {row : Finding} {scanId : ℤ} (hscan : 0 < scanId) (hhost : row.host ≠ [])
    (hport : 0 ≤ row.port ∧ row.port ≤ 65535) (hsev : 0 ≤ row.severity ∧ row.severity ≤ 4)
    (hplugin : row.pluginId ≠ []) : row.badArgs scanId = (row.cveId == some []) := by
  have h₁ : decide (scanId ≤ 0) = false := decide_eq_false (by omega)
  have h₂ : decide (row.port < 0 ∨ row.port > 65535) = false := decide_eq_false (by omega)
  have h₃ : decide (row.severity < 0 ∨ row.severity > 4) = false := decide_eq_false (by omega)
  have h₄ : row.host.isEmpty = false := by simpa using hhost
  have h₅ : row.pluginId.isEmpty = false := by simpa using hplugin
  rw [Finding.badArgs, h₁, h₂, h₃, h₄, h₅]
  rfl

/-- The first CVE string is no id with a NUL and more behind it. -/
def WholeCve (t : LuaTable) : Prop :=
  ∀ id rest, IsCveId id → firstCve t ≠ some (id ++ 0 :: rest)

/-- What a row takes for its CVE is what the report names, unless the string
was cut behind an id. -/
theorem effectiveCve_iff {t : LuaTable} :
    (∀ id, ((firstCve t).map cstr).filter isValidCveId = some id ↔
      firstCve t = some id ∧ IsCveId id) ↔ WholeCve t := by
  cases hfirst : firstCve t with
  | none => simp [WholeCve, hfirst]
  | some s =>
      simp only [Option.map_some, Option.filter_eq_some_iff, Option.some.injEq, isValidCveId_iff]
      constructor
      · intro h id rest hid heq
        rw [hfirst, Option.some.injEq] at heq
        subst heq
        have hcut : cstr (id ++ 0 :: rest) = id := cstr_append_nul hid.no_nul
        have hwhole := ((h id).mp ⟨hcut, hid⟩).1
        simp at hwhole
      · intro h id
        refine and_congr_left fun hid => ⟨fun hcut => ?_, fun heq => ?_⟩
        · by_contra hne
          obtain ⟨rest, hrest⟩ := eq_cstr_append (s := s) (hcut.trans_ne (Ne.symm hne))
          rw [hcut] at hrest
          exact h id rest hid (hfirst.trans (congrArg some hrest))
        · rw [heq]
          exact cstr_eq_self_iff.mpr hid.no_nul

/-- The written row of a finding is the one its table asks for, unless its CVE
was cut. -/
theorem reportRow_of_written {row : Finding} {scanId : ℤ} {out : ScanResultRow}
    (h : Reports toInteger header t f) (hhost : row.host = r.host) (hport : row.port = f.port)
    (hsev : row.severity = f.severity) (hcve : row.cveId = (firstCve t).map cstr)
    (hev : f.evidence = some row.evidence) {env : Env Call Bytes}
    (hout : row.WrittenAs env scanId out) :
    ReportRow toInteger scanId r.host t out ↔ WholeCve t := by
  obtain ⟨id, kev, epss, n, rfl⟩ := hout
  obtain ⟨s, hs, hev'⟩ := h.evidence
  have heffective : row.effectiveCveId = ((firstCve t).map cstr).filter isValidCveId := by
    rw [Finding.effectiveCveId, hcve]
  rw [← effectiveCve_iff, ← heffective]
  refine ⟨fun hrow => hrow.cve, fun hwhole => ?_⟩
  exact
    { scan := rfl
      host := hhost
      status := rfl
      port := by
        show _ = some row.port
        rw [hport]
        exact h.port
      severity := by
        show _ = some row.severity
        rw [hsev]
        exact h.severity
      evidence := by
        refine ⟨s, hs, ?_⟩
        rw [hev] at hev'
        exact Option.some.inj hev'
      cve := hwhole }

end

/-! ## The loops -/

/-- The report is one whose finding is kept: its first CVE string is not empty
up to its first NUL. -/
def Kept (rep : PluginHeader × LuaTable) : Prop := (firstCve rep.2).map cstr ≠ some []

instance : DecidablePred Kept := fun rep =>
  inferInstanceAs (Decidable ((firstCve rep.2).map cstr ≠ some []))

section

variable {ρ : Type} {env : Env Call Bytes} {scanId : ℤ} {r : HostResult}

/-- The row that the loop hands to the persister, if neither refuses it. -/
def HostResult.takes (r : HostResult) (scanId : ℤ) (f : PluginFinding) : Option Finding :=
  (r.persistRow f).filter fun row => !row.badArgs scanId

/-- The loop over the findings, when nothing fails: every finding that is taken
becomes one row, in order, and no other finding is counted. -/
theorem findingLoop_rows (hf : ∀ n k, env.fault n k = false) (findings : List PluginFinding)
    (c : HostCounts) {s : Session Tables ρ} (hs : s.txn = none) (hd : Ready scanId s.committed) :
    ∃ s' rows, findingLoop env scanId r findings c s =
        ⟨.ok, { c with findingsPersisted := c.findingsPersisted + rows.length }, s'⟩ ∧
      s'.txn = none ∧ Ready scanId s'.committed ∧ Frame scanId s.committed s'.committed ∧
      s'.committed.scanResults = s.committed.scanResults ++ rows ∧
      List.Forall₂ (Finding.WrittenAs env scanId) (findings.filterMap (r.takes scanId)) rows := by
  induction findings generalizing c s with
  | nil => exact ⟨s, [], rfl, hs, hd, .of_eq rfl rfl, by simp, .nil⟩
  | cons f findings ih =>
      -- a finding that is refused leaves no trace
      have hskip : r.takes scanId f = none →
          findingLoop env scanId r (f :: findings) c s = findingLoop env scanId r findings c s := by
        intro hnone
        rw [findingLoop]
        cases hrow : r.persistRow f with
        | none => rfl
        | some row =>
            have hbad : row.badArgs scanId = true := by
              simpa [HostResult.takes, hrow, Option.filter] using hnone
            have hrefused : scanPersistFinding env scanId row s = (.errInvalidArg, s) := by
              rw [scanPersistFinding, if_pos hbad]
            simp only [hrefused]
      cases htakes : r.takes scanId f with
      | none =>
          rw [hskip htakes, List.filterMap_cons_none htakes]
          exact ih c hs hd
      | some row =>
          obtain ⟨hrow, hargs⟩ : r.persistRow f = some row ∧ row.badArgs scanId = false := by
            simpa [HostResult.takes, Option.filter_eq_some_iff] using htakes
          obtain ⟨s₁, out, hpersist, hs₁, hd₁, hframe₁, hres₁, hout⟩ :=
            scanPersistFinding_quiet hf hs hd hargs
          obtain ⟨s₂, rows, hloop, hs₂, hd₂, hframe₂, hres₂, hrows⟩ :=
            ih { c with findingsPersisted := c.findingsPersisted + 1 } hs₁ hd₁
          refine ⟨s₂, out :: rows, ?_, hs₂, hd₂, hframe₁.trans hframe₂, ?_, ?_⟩
          · rw [findingLoop, hrow]
            simp only [hpersist, hloop, List.length_cons]
            rw [Nat.add_right_comm, Nat.add_assoc]
          · rw [hres₂, hres₁, List.append_assoc]
            rfl
          · rw [List.filterMap_cons_some htakes]
            exact .cons hout hrows

/-- The finding of a report is taken if its port is one and it is kept. -/
theorem takes_reports (hscan : 0 < scanId) (hhost : r.host ≠ []) (rep : PluginHeader × LuaTable)
    {f : PluginFinding} (h : Reports toInteger rep.1 rep.2 f) :
    r.takes scanId f = if 0 ≤ f.port ∧ f.port ≤ 65535 ∧ Kept rep then r.persistRow f else none := by
  by_cases hport : 0 ≤ f.port ∧ f.port ≤ 65535
  · obtain ⟨row, hrow, hrhost, hrport, hrsev, hrplugin, hrcve, -⟩ :=
      persistRow_reports (r := r) h hport
    have hbad : row.badArgs scanId = ((firstCve rep.2).map cstr == some []) := by
      rw [← hrcve]
      refine badArgs_iff hscan ?_ ?_ ?_ ?_
      · rw [hrhost]
        exact hhost
      · rw [hrport]
        exact hport
      · rw [hrsev]
        exact h.severity_range
      · rw [hrplugin]
        exact decimalInt_ne_nil _
    rw [HostResult.takes, hrow]
    by_cases hkept : Kept rep
    · have hargs : row.badArgs scanId = false := by
        rw [hbad, beq_eq_false_iff_ne]
        exact hkept
      rw [if_pos ⟨hport.1, hport.2, hkept⟩]
      simp [Option.filter, hargs]
    · have hargs : row.badArgs scanId = true := by
        rw [hbad, beq_iff_eq]
        exact not_not.mp hkept
      rw [if_neg fun h => hkept h.2.2]
      simp [Option.filter, hargs]
  · rw [if_neg fun h => hport ⟨h.1, h.2.1⟩, HostResult.takes, HostResult.persistRow,
      if_pos (by omega)]
    rfl

/-- The reports that are kept, beside the rows that are handed on for them. -/
theorem kept_takes (env : Env Call Bytes) (hscan : 0 < scanId) (hhost : r.host ≠ [])
    {reports : List (PluginHeader × LuaTable)} {findings : List PluginFinding}
    (hrep : List.Forall₂ (fun rep f => reportVuln toInteger rep.1 rep.2 = .ok f) reports findings)
    (hport : ∀ f ∈ findings, 0 ≤ f.port ∧ f.port ≤ 65535) :
    List.Forall₂ (fun rep row => ∀ out, Finding.WrittenAs env scanId row out →
        (ReportRow toInteger scanId r.host rep.2 out ↔ WholeCve rep.2))
      (reports.filter (Kept ·)) (findings.filterMap (r.takes scanId)) := by
  induction hrep with
  | nil => exact .nil
  | @cons rep f reports findings hok hrest ih =>
      have hrest' := ih fun f hf => hport f (List.mem_cons_of_mem _ hf)
      have hreports := reportVuln_reports hok
      have hfport := hport f List.mem_cons_self
      have htakes := takes_reports (r := r) hscan hhost rep hreports
      by_cases hkept : Kept rep
      · obtain ⟨row, hrow, hrhost, hrport, hrsev, -, hrcve, hrev, -⟩ :=
          persistRow_reports (r := r) hreports hfport
        rw [if_pos ⟨hfport.1, hfport.2, hkept⟩, hrow] at htakes
        rw [List.filter_cons_of_pos (by simpa using hkept), List.filterMap_cons_some htakes]
        exact .cons (fun out hout =>
          reportRow_of_written hreports hrhost hrport hrsev hrcve hrev hout) hrest'
      · rw [if_neg fun h => hkept h.2.2] at htakes
        rw [List.filter_cons_of_neg (by simpa using hkept), List.filterMap_cons_none htakes]
        exact hrest'

/-- A CVE that the version matcher has a verdict on, for an open port of the
host: the detection that is persisted, and the id. -/
def HostResult.Matches (r : HostResult) (scanId : ℤ) (ports : List (UInt16 × PortState))
    (cpes : List CpeRow) (det : Detection) (cveId : Bytes) : Prop :=
  ∃ p ∈ ports, p.2 = .isOpen ∧ ∃ kb resolved, r.kb = some kb ∧
    resolvePort kb p.1 = some resolved ∧ det = r.detection kb p.1 resolved ∧
    det.Takes scanId resolved.vendor resolved.product ∧
    ∃ row ∈ cpes, isCandidate (resolved.vendor.map toLowerAscii)
      (resolved.product.map toLowerAscii) row = true ∧ row.Says det cveId

/-- The rows are those of the version matcher. -/
def MatcherRows (env : Env Call Bytes) (scanId : ℤ) (r : HostResult)
    (ports : List (UInt16 × PortState)) (cpes : List CpeRow) (rows : List ScanResultRow) : Prop :=
  (∀ row ∈ rows, ∃ det cveId, r.Matches scanId ports cpes det cveId ∧
    det.WrittenAs env scanId row ∧ row.cveId = some cveId) ∧
  ∀ det cveId, r.Matches scanId ports cpes det cveId →
    ∃ row ∈ rows, det.WrittenAs env scanId row ∧ row.cveId = some cveId

section

variable {p : UInt16 × PortState} {ports : List (UInt16 × PortState)} {cpes : List CpeRow}
  {rows rows' : List ScanResultRow}

/-- A port without a verdict adds nothing. -/
theorem MatcherRows.skip (hp : ∀ det cveId, ¬ r.Matches scanId [p] cpes det cveId)
    (h : MatcherRows env scanId r ports cpes rows) :
    MatcherRows env scanId r (p :: ports) cpes rows := by
  refine ⟨fun row hrow => ?_, fun det cveId hmatch => ?_⟩
  · obtain ⟨det, cveId, ⟨p', hp', hopen⟩, hrest⟩ := h.1 row hrow
    exact ⟨det, cveId, ⟨p', List.mem_cons_of_mem _ hp', hopen⟩, hrest⟩
  · obtain ⟨p', hp', hopen⟩ := hmatch
    rcases List.mem_cons.mp hp' with rfl | hp'
    · exact absurd ⟨p', List.mem_singleton_self _, hopen⟩ (hp det cveId)
    · exact h.2 det cveId ⟨p', hp', hopen⟩

theorem MatcherRows.append (h : MatcherRows env scanId r [p] cpes rows)
    (h' : MatcherRows env scanId r ports cpes rows') :
    MatcherRows env scanId r (p :: ports) cpes (rows ++ rows') := by
  refine ⟨fun row hrow => ?_, fun det cveId hmatch => ?_⟩
  · rcases List.mem_append.mp hrow with hrow | hrow
    · obtain ⟨det, cveId, ⟨p', hp', hopen⟩, hrest⟩ := h.1 row hrow
      refine ⟨det, cveId, ⟨p', ?_, hopen⟩, hrest⟩
      rw [List.mem_singleton.mp hp']
      exact List.mem_cons_self
    · obtain ⟨det, cveId, ⟨p', hp', hopen⟩, hrest⟩ := h'.1 row hrow
      exact ⟨det, cveId, ⟨p', List.mem_cons_of_mem _ hp', hopen⟩, hrest⟩
  · obtain ⟨p', hp', hopen⟩ := hmatch
    rcases List.mem_cons.mp hp' with rfl | hp'
    · obtain ⟨row, hrow, hrest⟩ := h.2 det cveId ⟨p', List.mem_singleton_self _, hopen⟩
      exact ⟨row, List.mem_append_left _ hrow, hrest⟩
    · obtain ⟨row, hrow, hrest⟩ := h'.2 det cveId ⟨p', hp', hopen⟩
      exact ⟨row, List.mem_append_right _ hrow, hrest⟩

end

/-- What the loop over these ports leaves when nothing fails: the rows of the
version matcher, and the counts of the findings as they were. -/
structure PortsQuiet (env : Env Call Bytes) (scanId : ℤ) (r : HostResult)
    (ports : List (UInt16 × PortState)) (c : HostCounts) (s : Session Tables ρ)
    (out : HostPersist ρ) (rows : List ScanResultRow) : Prop where
  status : out.status = .ok
  persisted : out.counts.findingsPersisted = c.findingsPersisted
  skipped : out.counts.findingsSkipped = c.findingsSkipped
  frame : Frame scanId s.committed out.session.committed
  results : out.session.committed.scanResults = s.committed.scanResults ++ rows
  matcher : MatcherRows env scanId r ports s.committed.cveCpeMatches rows

section

variable {p : UInt16 × PortState} {ports : List (UInt16 × PortState)} {c c' : HostCounts}
  {s s₁ : Session Tables ρ} {out : HostPersist ρ} {rows rows' : List ScanResultRow}

/-- A port that nothing is looked up for. -/
theorem PortsQuiet.skip (h : PortsQuiet env scanId r ports c' s out rows)
    (hp : ∀ det cveId, ¬ r.Matches scanId [p] s.committed.cveCpeMatches det cveId)
    (hpers : c'.findingsPersisted = c.findingsPersisted)
    (hskip : c'.findingsSkipped = c.findingsSkipped) :
    PortsQuiet env scanId r (p :: ports) c s out rows where
  status := h.status
  persisted := h.persisted.trans hpers
  skipped := h.skipped.trans hskip
  frame := h.frame
  results := h.results
  matcher := h.matcher.skip hp

/-- The rows of a port, and then those of the others. -/
theorem PortsQuiet.detect (h : PortsQuiet env scanId r ports c' s₁ out rows')
    (hthis : MatcherRows env scanId r [p] s.committed.cveCpeMatches rows)
    (hframe : Frame scanId s.committed s₁.committed)
    (hres : s₁.committed.scanResults = s.committed.scanResults ++ rows)
    (hpers : c'.findingsPersisted = c.findingsPersisted)
    (hskip : c'.findingsSkipped = c.findingsSkipped) :
    PortsQuiet env scanId r (p :: ports) c s out (rows ++ rows') where
  status := h.status
  persisted := h.persisted.trans hpers
  skipped := h.skipped.trans hskip
  frame := hframe.trans h.frame
  results := by rw [h.results, hres, List.append_assoc]
  matcher := by
    have hrest := h.matcher
    rw [hframe.cpe] at hrest
    exact hthis.append hrest

/-- The rows of a detection are those of the port it is made for. -/
theorem matcherRows_singleton {kb : Kb} {resolved : ResolvedService} {cpes : List CpeRow}
    (hopen : p.2 = .isOpen) (hkb : r.kb = some kb) (hres : resolvePort kb p.1 = some resolved)
    (hrows : ∀ row ∈ rows, (r.detection kb p.1 resolved).WrittenAs env scanId row)
    (hcves : ∀ cveId, (∃ row ∈ rows, row.cveId = some cveId) ↔
      (r.detection kb p.1 resolved).Takes scanId resolved.vendor resolved.product ∧
        ∃ row ∈ cpes, isCandidate (resolved.vendor.map toLowerAscii)
          (resolved.product.map toLowerAscii) row = true ∧
            row.Says (r.detection kb p.1 resolved) cveId) :
    MatcherRows env scanId r [p] cpes rows := by
  refine ⟨fun row hrow => ?_, ?_⟩
  · obtain ⟨g, status, d, id, n, heq⟩ := hrows row hrow
    have hid : row.cveId = some g.cveId := by rw [heq]; rfl
    obtain ⟨htakes, hcand⟩ := (hcves g.cveId).mp ⟨row, hrow, hid⟩
    exact ⟨_, g.cveId, ⟨p, List.mem_singleton_self _, hopen, kb, resolved, hkb, hres, rfl,
      htakes, hcand⟩, hrows row hrow, hid⟩
  · rintro det cveId ⟨p', hp', -, kb', resolved', hkb', hres', hdet, htakes, hcand⟩
    rw [hkb] at hkb'
    obtain rfl := Option.some.inj hkb'
    obtain rfl := List.mem_singleton.mp hp'
    rw [hres] at hres'
    obtain rfl := Option.some.inj hres'
    subst hdet
    obtain ⟨row, hrow, hid⟩ := (hcves cveId).mpr ⟨htakes, hcand⟩
    exact ⟨row, hrow, hrows row hrow, hid⟩

end

/-- The loop over the ports adds the rows of the version matcher. -/
theorem portLoop_quiet (hf : ∀ n k, env.fault n k = false) (ports : List (UInt16 × PortState))
    (c : HostCounts) {s : Session Tables ρ} (hs : s.txn = none) (hd : Ready scanId s.committed) :
    ∃ rows, PortsQuiet env scanId r ports c s (portLoop env scanId r ports c s) rows := by
  induction ports generalizing c s with
  | nil =>
      refine ⟨[], rfl, rfl, rfl, .of_eq rfl rfl, by simp [portLoop], by simp, ?_⟩
      rintro det cveId ⟨p, hp, -⟩
      cases hp
  | cons p ports ih =>
      rw [portLoop]
      split
      · next hclosed =>
          obtain ⟨rows, hrest⟩ := ih c hs hd
          refine ⟨rows, hrest.skip ?_ rfl rfl⟩
          rintro det cveId ⟨p', hp', hopen, -⟩
          rw [List.mem_singleton.mp hp'] at hopen
          exact hclosed hopen
      · next hopen =>
          cases hkb : r.kb with
          | none =>
              obtain ⟨rows, hrest⟩ := ih { c with
                unresolvableServices := c.unresolvableServices + 1 } hs hd
              simp only
              refine ⟨rows, hrest.skip ?_ rfl rfl⟩
              rintro det cveId ⟨p', hp', -, kb, resolved, hkb', -⟩
              rw [hkb] at hkb'
              cases hkb'
          | some kb =>
              simp only
              cases hres : resolvePort kb p.1 with
              | none =>
                  obtain ⟨rows, hrest⟩ := ih { c with
                    unresolvableServices := c.unresolvableServices + 1 } hs hd
                  refine ⟨rows, hrest.skip ?_ rfl rfl⟩
                  rintro det cveId ⟨p', hp', -, kb', resolved, hkb', hres', -⟩
                  rw [hkb] at hkb'
                  obtain rfl := Option.some.inj hkb'
                  rw [List.mem_singleton.mp hp', hres] at hres'
                  cases hres'
              | some resolved =>
                  simp only
                  obtain ⟨rows, hst, hs₁, hd₁, hframe, hres₁, hrows, hcves⟩ :=
                    scanDetectAndPersist_quiet hf hs hd resolved.vendor resolved.product
                      (r.detection kb p.1 resolved)
                  have hthis := matcherRows_singleton (not_not.mp hopen) hkb hres hrows hcves
                  generalize scanDetectAndPersist env scanId resolved.vendor resolved.product
                    (r.detection kb p.1 resolved) s = out at hst hs₁ hd₁ hframe hres₁
                  have hthen : ∀ c', c'.findingsPersisted = c.findingsPersisted →
                      c'.findingsSkipped = c.findingsSkipped →
                      ∃ rows, PortsQuiet env scanId r (p :: ports) c s
                        (portLoop env scanId r ports c' out.session) rows := by
                    intro c' hpers hskip
                    obtain ⟨rows', hrest⟩ := ih c' hs₁ hd₁
                    exact ⟨rows ++ rows', hrest.detect hthis hframe hres₁ hpers hskip⟩
                  cases hstatus : out.status with
                  | errDb => exact absurd hstatus hst
                  | ok => exact hthen _ rfl rfl
                  | errRowSkipped => exact hthen _ rfl rfl
                  | errInvalidArg => exact hthen _ rfl rfl

/-- The persist phase of a host, when nothing fails: the rows of its findings
and then those of the version matcher. -/
theorem persistHost_rows (hf : ∀ n k, env.fault n k = false) {s : Session Tables ρ}
    (hs : s.txn = none) (hd : Ready scanId s.committed) (hpos : 0 < scanId) (hup : r.state = .up)
    (hhost : r.host ≠ []) :
    ∃ rows rest, (persistHost env scanId r s).status = .ok ∧
      (persistHost env scanId r s).counts.findingsPersisted = rows.length ∧
      (persistHost env scanId r s).counts.findingsSkipped = 0 ∧
      Frame scanId s.committed (persistHost env scanId r s).session.committed ∧
      (persistHost env scanId r s).session.committed.scanResults =
        s.committed.scanResults ++ rows ++ rest ∧
      List.Forall₂ (Finding.WrittenAs env scanId) (r.findings.filterMap (r.takes scanId)) rows ∧
      MatcherRows env scanId r r.ports s.committed.cveCpeMatches rest := by
  obtain ⟨s₁, rows, hloop, hs₁, hd₁, hframe₁, hres₁, hrows⟩ :=
    findingLoop_rows (r := r) hf r.findings .zero hs hd
  obtain ⟨rest, hst, hpers, hskip, hframe₂, hres₂, hrest⟩ := portLoop_quiet (r := r) hf r.ports
    { HostCounts.zero with findingsPersisted :=
      HostCounts.zero.findingsPersisted + rows.length } hs₁ hd₁
  have hrun : persistHost env scanId r s = portLoop env scanId r r.ports
      { HostCounts.zero with findingsPersisted :=
        HostCounts.zero.findingsPersisted + rows.length } s₁ := by
    rw [persistHost, if_neg (by omega), if_neg (by simp [hup, hhost])]
    simp only [hloop, if_true]
  rw [hframe₁.cpe] at hrest
  rw [hrun]
  refine ⟨rows, rest, hst, ?_, hskip, hframe₁.trans hframe₂, by rw [hres₂, hres₁], hrows, hrest⟩
  rw [hpers]
  exact Nat.zero_add _

end

/-! ## Nothing is lost -/

/-- No finding is lost: the call answers OK, counts every finding once, and
wrote one row for each that it counts as persisted, before the rows of the
version matcher. -/
structure NothingLost {ρ : Type} (toInteger : ToInteger) (scanId : ℤ) (r : HostResult)
    (reports : List (PluginHeader × LuaTable)) (s : Session Tables ρ) (out : HostPersist ρ) :
    Prop where
  ok : out.status = .ok
  counted : out.counts.findingsPersisted + out.counts.findingsSkipped = reports.length
  rows : ∃ (persisted : List (PluginHeader × LuaTable)) (rows rest : List ScanResultRow),
    persisted.Sublist reports ∧ persisted.length = out.counts.findingsPersisted ∧
    out.session.committed.scanResults = s.committed.scanResults ++ rows ++ rest ∧
    List.Forall₂ (fun rep row => ReportRow toInteger scanId r.host rep.2 row) persisted rows ∧
    ∀ row ∈ rest, row.pluginId = ascii "cpe_version_match"

/-- The first CVE string, if there is one, is neither empty nor begins with a
NUL, and it is no id with a NUL behind it. -/
def CveSurvives (t : LuaTable) : Prop :=
  ∀ s, firstCve t = some s →
    s ≠ [] ∧ s.head? ≠ some 0 ∧ ∀ id rest, IsCveId id → s ≠ id ++ 0 :: rest

theorem cstr_eq_nil_iff {s : Bytes} : cstr s = [] ↔ s = [] ∨ s.head? = some 0 := by
  cases s with
  | nil => simp [cstr]
  | cons c s => by_cases hc : c = 0 <;> simp [cstr, hc]

theorem cveSurvives_iff (rep : PluginHeader × LuaTable) :
    CveSurvives rep.2 ↔ Kept rep ∧ WholeCve rep.2 := by
  rw [CveSurvives, Kept, WholeCve]
  cases firstCve rep.2 with
  | none => simp
  | some s =>
      simp only [Option.some.injEq, forall_eq', Option.map_some, ne_eq, cstr_eq_nil_iff, not_or,
        and_assoc]

/-- A property of the pairs that only asks something of the first. -/
theorem forall₂_iff_of_left {α β : Type} {P : α → β → Prop} {Q : α → Prop} {as : List α}
    {bs : List β} (h : List.Forall₂ (fun a b => P a b ↔ Q a) as bs) :
    List.Forall₂ P as bs ↔ ∀ a ∈ as, Q a := by
  induction h with
  | nil => simp
  | cons hone _ ih => rw [List.forall₂_cons, List.forall_mem_cons, hone, ih]

/-- When nothing fails, no finding is lost exactly if none has a first CVE
string that is empty up to its first NUL or an id with a NUL behind it. -/
theorem persistHost_nothing_lost_iff {ρ : Type} {env : Env Call Bytes} {scanId : ℤ}
    {r : HostResult} {reports : List (PluginHeader × LuaTable)} {s : Session Tables ρ}
    (hf : ∀ n k, env.fault n k = false) (hs : s.txn = none) (hd : s.committed.Conforms)
    (hscan : (s.committed.scans scanId).isSome) (hup : r.state = .up) (hhost : r.host ≠ [])
    (hrep : List.Forall₂ (fun rep f => reportVuln toInteger rep.1 rep.2 = .ok f) reports
      r.findings)
    (hport : ∀ f ∈ r.findings, 0 ≤ f.port ∧ f.port ≤ 65535) :
    NothingLost toInteger scanId r reports s (persistHost env scanId r s) ↔
      ∀ rep ∈ reports, CveSurvives rep.2 := by
  have hpos := hd.scans scanId hscan
  obtain ⟨rows, rest, hst, hpers, hskip, -, hres, hrows, hrest⟩ :=
    persistHost_rows (r := r) hf hs (hd.ready hscan) hpos hup hhost
  have hkept := kept_takes env hpos hhost hrep hport
  have hlen : rows.length = (reports.filter (Kept ·)).length :=
    hrows.length_eq.symm.trans hkept.length_eq.symm
  -- each report that is kept stands beside its row
  have hreported : List.Forall₂ (fun rep row =>
      ReportRow toInteger scanId r.host rep.2 row ↔ WholeCve rep.2)
      (reports.filter (Kept ·)) rows := by
    generalize r.findings.filterMap (r.takes scanId) = taken at hrows hkept
    generalize reports.filter (Kept ·) = kept at hkept
    clear hlen hpers hres
    induction hkept generalizing rows with
    | nil =>
        cases hrows
        exact .nil
    | cons hone _ ih =>
        cases hrows with
        | cons hout hrows => exact .cons (hone _ hout) (ih _ hrows)
  rw [hlen] at hpers
  generalize persistHost env scanId r s = out at hst hpers hskip hres
  simp only [cveSurvives_iff]
  constructor
  · intro h
    have hcount := h.counted
    rw [hpers, hskip, Nat.add_zero, List.length_filter_eq_length_iff] at hcount
    have hall : reports.filter (Kept ·) = reports := List.filter_eq_self.mpr hcount
    rw [hall] at hpers hreported
    obtain ⟨persisted, rows', rest', hsub, hplen, hres', hrows', -⟩ := h.rows
    obtain rfl := hsub.eq_of_length (hplen.trans hpers)
    -- the rows of the claim are the first behind those that were there
    have hsame : rows' = rows := by
      rw [hres', List.append_assoc, List.append_assoc, List.append_cancel_left_eq] at hres
      exact (List.append_inj hres (hrows'.length_eq.symm.trans hreported.length_eq)).1
    rw [hsame, forall₂_iff_of_left hreported] at hrows'
    exact fun rep hmem => ⟨of_decide_eq_true (hcount rep hmem), hrows' rep hmem⟩
  · intro hall
    have hfilter : reports.filter (Kept ·) = reports :=
      List.filter_eq_self.mpr fun rep hmem => decide_eq_true (hall rep hmem).1
    rw [hfilter] at hpers hreported
    refine ⟨hst, by rw [hpers, hskip, Nat.add_zero], reports, rows, rest, List.Sublist.refl _,
      hpers.symm, hres, ?_, fun row hrow => ?_⟩
    · exact (forall₂_iff_of_left hreported).mpr fun rep hmem => (hall rep hmem).2
    · obtain ⟨det, cveId, ⟨p, -, -, kb, resolved, -, -, rfl, -⟩, ⟨g, status, d, id, n, rfl⟩, -⟩ :=
        hrest.1 row hrow
      rfl

/-! ## A finding that is lost -/

/-- Lua integers, and nothing else, convert. -/
def plainInteger : ToInteger
  | .number n => some n
  | _ => none

/-- A table with the required fields and the given CVE strings. -/
def reportTable (cve : List Bytes) : LuaTable := fun field =>
  if field = ascii "severity" then .number 3
  else if field = ascii "title" then .string (ascii "weak cipher")
  else if field = ascii "evidence" then .string (ascii "RC4")
  else if field = ascii "port" then .number 443
  else if field = ascii "cve" then .table (cve.map .string)
  else .nil

def reportHeader : PluginHeader := ⟨7, none, none, none⟩

/-- The finding of such a table. -/
def tableFinding (cve : List Bytes) : PluginFinding where
  severity := 3
  title := some (ascii "weak cipher")
  description := none
  evidence := some (ascii "RC4")
  port := 443
  solution := none
  cve := cve.map cstr
  cpe := none
  cvssVector := none
  scriptId := 7
  scriptName := none

/-- A host with one finding. -/
def findingHost (cve : List Bytes) : HostResult :=
  ⟨ascii "10.0.0.5", .up, [], none, [tableFinding cve]⟩

/-- A database with one scan that runs. -/
def oneScan : Tables :=
  { Tables.seeded with
    scans := fun id =>
      if id = 1 then some ⟨ascii "2024-06-01", none, ascii "10.0.0.5", ascii "ops",
        ascii "2024-06-01", .flag, .running, none, 0⟩
      else none }

theorem oneScan_conforms : oneScan.Conforms := by
  refine Tables.conforms_of_scans (fun id h => ?_) fun r h => by cases h
  split at h
  · next hid => omega
  · cases h

theorem reportTable_accepted (cve : Bytes) :
    reportVuln plainInteger reportHeader (reportTable [cve]) = .ok (tableFinding [cve]) := rfl

/-- With a well-formed CVE the finding is kept. -/
theorem persistHost_keeps_finding :
    NothingLost plainInteger 1 (findingHost [ascii "CVE-2013-2566"])
      [(reportHeader, reportTable [ascii "CVE-2013-2566"])] (oneScan.connect : Session Tables Unit)
      (persistHost quietEnv 1 (findingHost [ascii "CVE-2013-2566"]) oneScan.connect) := by
  refine (persistHost_nothing_lost_iff (fun _ _ => rfl) rfl oneScan_conforms rfl rfl (by decide)
    ?_ ?_).mpr ?_
  · exact List.Forall₂.cons (reportTable_accepted _) List.Forall₂.nil
  · intro f hf
    rw [List.mem_singleton.mp hf]
    decide
  · intro rep hrep s hs
    rw [List.mem_singleton.mp hrep] at hs
    obtain rfl : s = ascii "CVE-2013-2566" := Option.some.inj (hs.symm.trans rfl)
    refine ⟨by decide, by decide, fun id rest _ heq => ?_⟩
    have hno : 0 ∉ ascii "CVE-2013-2566" := by decide
    exact hno (heq ▸ List.mem_append_right _ List.mem_cons_self)

/-- With an empty string for its CVE it is accepted and then lost: the call
answers OK and counts nothing. -/
theorem persistHost_loses_empty_cve :
    reportVuln plainInteger reportHeader (reportTable [[]]) = .ok (tableFinding [[]]) ∧
    (persistHost quietEnv 1 (findingHost [[]]) (oneScan.connect : Session Tables Unit)).status =
      .ok ∧
    ¬ NothingLost plainInteger 1 (findingHost [[]]) [(reportHeader, reportTable [[]])]
      (oneScan.connect : Session Tables Unit)
      (persistHost quietEnv 1 (findingHost [[]]) oneScan.connect) := by
  refine ⟨reportTable_accepted [], rfl, fun h => ?_⟩
  have hcounted : 0 + 0 = 1 := h.counted
  cases hcounted

end Cytadel.Cli
