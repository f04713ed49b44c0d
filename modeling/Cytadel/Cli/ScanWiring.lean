import Cytadel.Db.ScanPersist
import Cytadel.Kb.Kb
import Cytadel.Plugin.ApiReport

/-!
# From a scanned host to the database

`src/cli/scan_wiring.c`. The resolver takes the CPE of a port apart; the
persist phase writes the findings of a host and then looks the services of its
open ports up among the CVEs.
-/

namespace Cytadel.Cli

open Cytadel Cytadel.Kb Cytadel.Db Cytadel.Plugin Lib

/-! ## The resolver -/

/-- CYTADEL_SCAN_WIRING_CPE_FIELD_COUNT. -/
def cpeFieldCount : ℕ := 13

/-- `cytadel_scan_wiring_split_cpe`; more fields than that are refused. -/
def splitCpe (text : Bytes) : Option (List Bytes) :=
  let fields := text.splitOn 0x3A
  if fields.length > cpeFieldCount then none else some fields

/-- `cytadel_scan_resolved_service_t`. -/
structure ResolvedService where
  vendor : Bytes
  product : Bytes
  version : Bytes
  deriving DecidableEq, Repr

/-- `cytadel_scan_wiring_resolve_port`. -/
def resolvePort (kb : Kb) (port : UInt16) : Option ResolvedService :=
  let key := ascii "CPE/" ++ decimal port.toNat
  if key.length ≥ 32 then none
  else
    match kb.get (some key) with
    | .found (.str value) =>
        match splitCpe ((cstr value).take kbValueMaxLen) with
        | some (cpe :: ver :: _part :: vendor :: product :: version :: _rest) =>
            if !(cpe == ascii "cpe") || !(ver == ascii "2.3") then none
            else if vendor.length = 0 ∨ vendor.length > 256 ∨ product.length = 0 ∨
                product.length > 256 ∨ version.length = 0 then none
            else some ⟨vendor, product, version⟩
        | _ => none
    | _ => none

/-! ## Lookups in the knowledge base -/

/-- CYTADEL_SCAN_WIRING_SVC_TOKENS. -/
def svcTokens : List Bytes :=
  [ascii "www", ascii "https", ascii "ssh", ascii "ftp", ascii "smb", ascii "rdp",
    ascii "telnet", ascii "smtp", ascii "pop3", ascii "imap", ascii "dns", ascii "snmp",
    ascii "mysql", ascii "postgresql", ascii "redis"]

/-- Is there a fact, of any type, under this key? -/
def hasFact (kb : Kb) (key : Bytes) : Bool :=
  match kb.get (some key) with
  | .found _ => true
  | _ => false

/-- `cytadel_scan_wiring_lookup_service`. Every key fits its buffer. -/
def lookupService (kb : Option Kb) (port : UInt16) : Option Bytes :=
  match kb with
  | none => none
  | some kb =>
      if port = 0 then none
      else svcTokens.find? fun token =>
        hasFact kb (ascii "Services/" ++ token ++ ascii "/" ++ decimal port.toNat)

/-- `cytadel_scan_wiring_lookup_evidence`. -/
def lookupEvidence (kb : Option Kb) (port : UInt16) (fallback : Bytes) : Bytes :=
  match kb with
  | none => fallback
  | some kb =>
      let p := decimal port.toNat
      (((kb.getStr (some (ascii "Banner/" ++ p))).or
        (kb.getStr (some (ascii "HTTP/" ++ p ++ ascii "/server")))).or
        (kb.getStr (some (ascii "FTP/" ++ p ++ ascii "/banner")))).getD fallback

/-! ## The persist phase -/

/-- `cytadel_port_state_t`. -/
inductive PortState
  | closed
  | isOpen
  | filtered
  deriving DecidableEq, Repr

/-- `cytadel_host_state_t`. -/
inductive HostState
  | down
  | up
  deriving DecidableEq, Repr

/-- The fields of `cytadel_host_result_t` that are persisted. -/
structure HostResult where
  host : Bytes
  state : HostState
  ports : List (UInt16 × PortState)
  kb : Option Kb
  findings : List PluginFinding

/-- `cytadel_scan_wiring_host_counts_t`. -/
structure HostCounts where
  findingsPersisted : ℕ
  findingsSkipped : ℕ
  detectionsAttempted : ℕ
  unresolvableServices : ℕ
  rowsInserted : ℕ
  malformedEvents : ℕ
  deriving DecidableEq, Repr

def HostCounts.zero : HostCounts := ⟨0, 0, 0, 0, 0, 0⟩

/-- `persist_row`, unless one of the checks before it skips the finding. -/
def HostResult.persistRow (r : HostResult) (f : PluginFinding) : Option Finding :=
  if f.port < 0 ∨ f.port > 65535 then none
  else if f.severity < 0 ∨ f.severity > 4 then none
  else
    match f.evidence with
    | none => none
    | some evidence =>
        let port : UInt16 := UInt16.ofNat f.port.toNat
        let pluginId := decimalInt f.scriptId.toInt
        if pluginId.length ≥ 32 then none
        else some
          { host := r.host
            port := port.toNat
            service := lookupService r.kb port
            pluginId := pluginId
            evidence := evidence
            remediation := f.solution
            cveId := f.cve.head?
            severity := f.severity }

structure HostPersist (ρ : Type) where
  status : PersistStatus
  counts : HostCounts
  session : Session Tables ρ

section

variable {ρ : Type} (env : Env Call Bytes) (scanId : ℤ)

/-- The loop over the findings. An argument error is absorbed. -/
def findingLoop (r : HostResult) :
    List PluginFinding → HostCounts → Session Tables ρ → HostPersist ρ
  | [], c, s => ⟨.ok, c, s⟩
  | f :: findings, c, s =>
      match r.persistRow f with
      | none => findingLoop r findings c s
      | some row =>
          match scanPersistFinding env scanId row s with
          | (.errDb, s) => ⟨.errDb, c, s⟩
          | (.ok, s) =>
              findingLoop r findings { c with findingsPersisted := c.findingsPersisted + 1 } s
          | (.errRowSkipped, s) =>
              findingLoop r findings { c with findingsSkipped := c.findingsSkipped + 1 } s
          | (.errInvalidArg, s) => findingLoop r findings c s

/-- `det`, for a port that resolved. -/
def HostResult.detection (r : HostResult) (kb : Kb) (port : UInt16) (resolved : ResolvedService) :
    Detection :=
  let cpeStr := kb.getStr (some (ascii "CPE/" ++ decimal port.toNat))
  { host := r.host
    port := port.toNat
    service := lookupService (some kb) port
    pluginId := ascii "cpe_version_match"
    evidence := lookupEvidence (some kb) port
      (cpeStr.getD (ascii "(no additional evidence captured)"))
    remediation := none
    detectedVersion := resolved.version }

/-- The loop over the ports. -/
def portLoop (r : HostResult) :
    List (UInt16 × PortState) → HostCounts → Session Tables ρ → HostPersist ρ
  | [], c, s => ⟨.ok, c, s⟩
  | p :: ports, c, s =>
      if p.2 ≠ .isOpen then portLoop r ports c s
      else
        match r.kb with
        | none =>
            portLoop r ports { c with unresolvableServices := c.unresolvableServices + 1 } s
        | some kb =>
            match resolvePort kb p.1 with
            | none =>
                portLoop r ports { c with unresolvableServices := c.unresolvableServices + 1 } s
            | some resolved =>
                let d := scanDetectAndPersist env scanId resolved.vendor resolved.product
                  (r.detection kb p.1 resolved) s
                match d.status with
                | .errDb => ⟨.errDb, c, d.session⟩
                | .ok =>
                    portLoop r ports
                      { c with
                        detectionsAttempted := c.detectionsAttempted + 1
                        rowsInserted := c.rowsInserted + d.counts.rowsInserted
                        malformedEvents := c.malformedEvents + d.counts.malformedEvents }
                      d.session
                | _ => portLoop r ports c d.session

/-- `cytadel_scan_wiring_persist_host`. -/
def persistHost (r : HostResult) (s : Session Tables ρ) : HostPersist ρ :=
  if scanId ≤ 0 then ⟨.errInvalidArg, .zero, s⟩
  else if r.state ≠ .up ∨ r.host = [] then ⟨.errInvalidArg, .zero, s⟩
  else
    let found := findingLoop env scanId r r.findings .zero s
    if found.status = .ok then portLoop env scanId r r.ports found.counts found.session
    else found

end

end Cytadel.Cli
