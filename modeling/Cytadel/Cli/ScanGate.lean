import Cytadel.Db.ScanPersist
import Cytadel.Net.TargetList

/-!
# The authorization gate

The path of `src/cli/main.c` from the parsed arguments to the first target:
the decision of `src/cli/auth_gate.c`, the mandatory database of
`src/cli/scan_wiring.c` with the `scans` row of `src/db/scan_persist.c`, and
only then the expansion of the targets. Opening and migrating a database are
answers from outside, and so is the key that SQLite gives a new row.
-/

namespace Cytadel.Cli

open Cytadel Cytadel.Db Cytadel.Net Lib

/-- What this path reads of `cytadel_cli_args_t`. -/
structure CliArgs where
  targetSpec : Option Bytes
  targetsFile : Option Bytes
  hasIAmAuthorized : Bool
  authorizedBy : Option Bytes
  deriving DecidableEq, Repr

/-- What the process takes from outside. -/
structure GateWorld where
  env : Env Call Bytes
  net : NetEnv
  isStdinTty : Bool
  /-- `cytadel_auth_gate_default_prompt`: did the operator type yes? -/
  prompt : Bool
  /-- `cytadel_auth_default_operator`. -/
  defaultOperator : Bytes
  /-- CYTADEL_DB_PATH. -/
  dbPath : Option Bytes
  /-- `cytadel_db_open`: the tables of the file. -/
  dbOpen : Bytes → Option Tables
  /-- `cytadel_db_migrate`: the tables after it. -/
  dbMigrate : Tables → Option Tables
  /-- `sqlite3_last_insert_rowid` after an insert into `scans`. -/
  newScanId : Tables → ℤ

/-! ## The description of the targets -/

/-- The size of `target_desc` in `main`. -/
def targetDescSize : ℕ := 512

def specLabel : Bytes := ascii " + --targets-file "
def fileLabel : Bytes := ascii "--targets-file "

/-- The text that `cytadel_describe_targets` prints. -/
def describeText (args : CliArgs) : Bytes :=
  match args.targetSpec, args.targetsFile with
  | some spec, some file => spec ++ specLabel ++ file
  | some spec, none => spec
  | none, some file => fileLabel ++ file
  | none, none => ascii "(none)"

/-- `cytadel_describe_targets`: what `snprintf` leaves of the text. -/
def describeTargets (args : CliArgs) (bufLen : ℕ) : Bytes := (describeText args).take (bufLen - 1)

/-! ## The decision -/

/-- `cytadel_auth_decision_t`. -/
inductive AuthDecision
  | authorized (method : AuthorizationMethod)
  | refused (reason : Bytes)
  deriving DecidableEq, Repr

/-- `cytadel_auth_gate_decide`; without a prompt function the last argument is
`none`. -/
def authGateDecide (isFlagPresent isStdinTty : Bool) (prompt : Option Bool) : AuthDecision :=
  if isFlagPresent then .authorized .flag
  else if isStdinTty then
    match prompt with
    | none => .refused (ascii "internal error: no interactive prompt function was provided")
    | some true => .authorized .interactive
    | some false =>
        .refused (ascii "operator declined interactive authorization confirmation")
  else
    .refused (ascii "stdin is not a TTY and --i-am-authorized was not provided; " ++
      ascii "refusing to assume authorization")

/-! ## The mandatory database -/

/-- `cytadel_scan_gate_status_t`, without its OK. -/
inductive ScanGateError
  | errInvalidArg
  | errOpen
  | errMigrate
  | errScanCreate
  deriving DecidableEq, Repr

/-- `cytadel_scan_wiring_open_gate`: the connection and the key of the scan. -/
def openGate (w : GateWorld) (dbPath targetSpec authorizedBy : Bytes)
    (method : AuthorizationMethod) : Except ScanGateError (Session Tables Unit × ℤ) :=
  if dbPath.isEmpty || targetSpec.isEmpty || authorizedBy.isEmpty then .error .errInvalidArg
  else
    match w.dbOpen dbPath with
    | none => .error .errOpen
    | some d =>
        match w.dbMigrate d with
        | none => .error .errMigrate
        | some d =>
            let scanId := w.newScanId d
            let created := (scanCreate scanId targetSpec authorizedBy method).run w.env d.connect
            if created.1 then .ok (created.2, scanId) else .error .errScanCreate

/-! ## From the arguments to the targets -/

inductive ScanStart
  | refused (reason : Bytes)
  | noDatabase
  | gateFailed (e : ScanGateError)
  | expansionFailed (scanId : ℤ) (e : TargetListError) (msg : Bytes)
  | started (scanId : ℤ) (targets : List Target) (s : Session Tables Unit)

/-- `main` of a live scan, up to the row of the scan: the connection and its
key. -/
def passGate (w : GateWorld) (args : CliArgs) : Except ScanStart (Session Tables Unit × ℤ) :=
  let targetDesc := describeTargets args targetDescSize
  match authGateDecide args.hasIAmAuthorized w.isStdinTty (some w.prompt) with
  | .refused reason => .error (.refused reason)
  | .authorized method =>
      let operatorName := args.authorizedBy.getD w.defaultOperator
      match w.dbPath with
      | none => .error .noDatabase
      | some dbPath =>
          if dbPath.isEmpty then .error .noDatabase
          else
            match openGate w dbPath targetDesc operatorName method with
            | .error e => .error (.gateFailed e)
            | .ok opened => .ok opened

/-- `main` of a live scan, up to the targets. -/
def startScan (w : GateWorld) (args : CliArgs) : ScanStart :=
  match passGate w args with
  | .error start => start
  | .ok (s, scanId) =>
      match targetListParse w.net 256 args.targetSpec args.targetsFile with
      | .error (e, msg) => .expansionFailed scanId e msg
      | .ok targets => .started scanId targets s

end Cytadel.Cli
