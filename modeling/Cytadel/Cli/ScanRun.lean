import Cytadel.Cli.ScanGate
import Cytadel.Cli.ScanWiring
import Cytadel.Core.WorkerPool
import Cytadel.Net.PortRange

/-!
# A scan from the gate to its end

`main` of `src/cli/main.c` behind the authorization gate: the ports, the
plugins, the worker pool, and then, host by host, the persist phase. From the
gate on the scan has a row in the database, and every way out of `main` sets
its end. What the pool brings back is an answer from outside.
-/

namespace Cytadel.Cli

open Cytadel Cytadel.Core Cytadel.Db Cytadel.Net Lib

/-- What `main` reads of `cytadel_cli_args_t` behind the gate as well. -/
structure ScanArgs extends CliArgs where
  portSpec : Option Bytes
  pluginsDir : Option Bytes
  deriving DecidableEq, Repr

structure ScanWorld extends GateWorld where
  /-- Is memory of so many bytes for the ports denied? -/
  portMalloc : ℕ → Bool
  /-- `cytadel_plugin_registry_load`: were the plugins loaded? -/
  registryLoad : Bytes → Bool
  /-- `calloc` of the result slots. -/
  resultsCalloc : Bool
  /-- `cytadel_worker_pool_run`: its return code and the slots. -/
  workerPool : List Target → PortList → ℤ × List (WorkerResult HostResult)

/-- CYTADEL_DEFAULT_PORT_SPEC. -/
def defaultPortSpec : Bytes := ascii "1-1024"

/-! ## The persist phase -/

/-- The counters of `main`. -/
structure ScanTotals where
  hostsUp : ℕ
  hostsDown : ℕ
  hostsErrored : ℕ
  openPorts : ℕ
  findings : ℕ
  persisted : HostCounts
  dbOk : Bool
  deriving DecidableEq, Repr

def ScanTotals.zero : ScanTotals := ⟨0, 0, 0, 0, 0, .zero, true⟩

def HostCounts.add (a b : HostCounts) : HostCounts where
  findingsPersisted := a.findingsPersisted + b.findingsPersisted
  findingsSkipped := a.findingsSkipped + b.findingsSkipped
  detectionsAttempted := a.detectionsAttempted + b.detectionsAttempted
  unresolvableServices := a.unresolvableServices + b.unresolvableServices
  rowsInserted := a.rowsInserted + b.rowsInserted
  malformedEvents := a.malformedEvents + b.malformedEvents

/-- What a host that is up adds to the counters before it is persisted. -/
def ScanTotals.addUp (t : ScanTotals) (r : HostResult) : ScanTotals :=
  { t with
    hostsUp := t.hostsUp + 1
    openPorts := t.openPorts + r.ports.countP fun p => p.2 = .isOpen
    findings := t.findings + r.findings.length }

/-- One slot of the pool. A slot that no thread came to is as `calloc` left it,
without a host. -/
def persistSlot {ρ : Type} (env : Env Call Bytes) (scanId : ℤ)
    (slot : WorkerResult HostResult) (t : ScanTotals) (s : Session Tables ρ) :
    ScanTotals × Session Tables ρ :=
  if slot.scanRc ≠ 0 then ({ t with hostsErrored := t.hostsErrored + 1 }, s)
  else if slot.result.host.isEmpty then ({ t with hostsErrored := t.hostsErrored + 1 }, s)
  else if slot.result.state ≠ .up then ({ t with hostsDown := t.hostsDown + 1 }, s)
  else
    let t := t.addUp slot.result
    if !t.dbOk then (t, s)
    else
      let p := persistHost env scanId slot.result s
      -- the first database error is the last host that is persisted
      if p.status = .errDb then ({ t with dbOk := false }, p.session)
      else ({ t with persisted := t.persisted.add p.counts }, p.session)

/-- The loop over the slots. -/
def persistSlots {ρ : Type} (env : Env Call Bytes) (scanId : ℤ) :
    List (WorkerResult HostResult) → ScanTotals → Session Tables ρ →
    ScanTotals × Session Tables ρ
  | [], t, s => (t, s)
  | slot :: slots, t, s =>
      let r := persistSlot env scanId slot t s
      persistSlots env scanId slots r.1 r.2

/-! ## The ways out -/

/-- How `main` ended behind the gate: the exit code, what the pool returned if
it ran, and the connection as it was closed. -/
structure ScanEnd where
  success : Bool
  scanId : ℤ
  pool : Option (ℤ × List (WorkerResult HostResult))
  totals : ScanTotals
  session : Session Tables Unit

/-- `cytadel_scan_abort_and_close`. -/
def scanAbortAndClose (env : Env Call Bytes) (scanId : ℤ) (s : Session Tables Unit) : ScanEnd where
  success := false
  scanId := scanId
  pool := none
  totals := .zero
  session := (scanFinalize env scanId .failed s).2.reopen

/-- The plugins: a directory that was asked for has to load, the default one
need not. -/
def pluginsLoaded (w : ScanWorld) (pluginsDir : Option Bytes) : Bool :=
  match pluginsDir with
  | some dir => w.registryLoad dir
  | none => true

/-- From the slots to the end of `main`. -/
def finishScan (env : Env Call Bytes) (scanId : ℤ) (pool : ℤ × List (WorkerResult HostResult))
    (s : Session Tables Unit) : ScanEnd :=
  let r := persistSlots env scanId pool.2 .zero s
  let ok := decide (pool.1 = 0) && r.1.dbOk
  let status : FinalizeStatus := if ok then .completed else .failed
  { success := ok
    scanId := scanId
    pool := some pool
    totals := r.1
    session := (scanFinalize env scanId status r.2).2.reopen }

/-- `main` from the expanded targets on. -/
def runScan (w : ScanWorld) (args : ScanArgs) (scanId : ℤ) (targets : List Target)
    (s : Session Tables Unit) : ScanEnd :=
  let parsed := portRangeParse w.portMalloc 256 (some (args.portSpec.getD defaultPortSpec))
    (some ⟨[]⟩)
  match parsed.status, parsed.outList with
  | .ok (), some ports =>
      if !pluginsLoaded w args.pluginsDir then scanAbortAndClose w.env scanId s
      else if !w.resultsCalloc then scanAbortAndClose w.env scanId s
      else finishScan w.env scanId (w.workerPool targets ports) s
  | _, _ => scanAbortAndClose w.env scanId s

/-- `main` behind the gate. -/
def expandAndScan (w : ScanWorld) (args : ScanArgs) (scanId : ℤ) (s : Session Tables Unit) :
    ScanEnd :=
  match targetListParse w.net 256 args.targetSpec args.targetsFile with
  | .error _ => scanAbortAndClose w.env scanId s
  | .ok targets => runScan w args scanId targets s

inductive ScanExit
  /-- The scan has no row: nothing was scanned. -/
  | refused (start : ScanStart)
  | ended (e : ScanEnd)

/-- `main` of a live scan. -/
def scanMain (w : ScanWorld) (args : ScanArgs) : ScanExit :=
  match passGate w.toGateWorld args.toCliArgs with
  | .error start => .refused start
  | .ok (s, scanId) => .ended (expandAndScan w args scanId s)

end Cytadel.Cli
