import Cytadel.Cli.ScanRun
import Cytadel.Lib.Options
import Cytadel.Log.Log

/-!
# The command line of a scan

`src/cli/cli_args.c`: a loop over the words, with `strcmp` from the first option
to the last. The messages are what it prints on stderr.
-/

namespace Cytadel.Cli

open Cytadel Cytadel.Core Cytadel.Log Cytadel.Net Lib.Options

/-! ## Numbers -/

/-- What `strtol(s, &end, 10)` finds, where `long` and `long long` have 64 bits:
the value, the text at `end`, is that the text itself, and ERANGE. -/
structure Strtol where
  value : ℤ
  rest : Bytes
  isAtStart : Bool
  isOutOfRange : Bool
  deriving DecidableEq, Repr

def longMax : ℤ := 9223372036854775807
def longMin : ℤ := -9223372036854775808

/-- A sign in front of the digits. -/
def takeSign : Bytes → Bool × Bytes
  | [] => (false, [])
  | c :: s => if c = 0x2D then (true, s) else if c = 0x2B then (false, s) else (false, c :: s)

/-- The value, or the end of the range that it is behind. -/
def inLong (v : ℤ) (rest : Bytes) : Strtol :=
  if v > longMax then ⟨longMax, rest, false, true⟩
  else if v < longMin then ⟨longMin, rest, false, true⟩
  else ⟨v, rest, false, false⟩

def strtol (s : Bytes) : Strtol :=
  let signed := takeSign (s.dropWhile isSpace)
  let digits := signed.2.takeWhile isDigitByte
  let rest := signed.2.dropWhile isDigitByte
  if digits.isEmpty then ⟨0, s, true, false⟩
  else
    inLong (if signed.1 then -digitsValue digits else digitsValue digits) rest

/-- The check behind every "positive int" option. -/
def positiveLong (val : Bytes) (maxValue : ℤ) : Option ℤ :=
  let r := strtol val
  if r.isAtStart || !r.rest.isEmpty || r.isOutOfRange || decide (r.value ≤ 0) ||
    decide (r.value > maxValue) then none else some r.value

def intMax : ℤ := 2147483647

/-- `cytadel_cli_parse_positive_int`. -/
def cliParsePositiveInt (flagName val : Bytes) (maxValue : ℤ) (unit : Bytes) : Except Bytes ℤ :=
  match positiveLong val maxValue with
  | some v => .ok v
  | none =>
      .error (ascii "cytadel-scan: error: invalid " ++ flagName ++ ascii " '" ++ val ++
        ascii "' (expected a positive integer number of " ++ unit ++ ascii ", max " ++
        decimalInt maxValue ++ ascii ")\n")

/-- `cytadel_cli_parse_timeout_ms`. -/
def cliParseTimeoutMs (flagName val : Bytes) : Except Bytes ℤ :=
  cliParsePositiveInt flagName val intMax (ascii "milliseconds")

/-! ## The options -/

/-- `cytadel_cli_args_t`; what stands for `NULL` is not there. -/
structure ScanOptions extends ScanArgs where
  logLevel : LogLevel
  hasLogLevel : Bool
  logFile : Option Bytes
  skipDiscovery : Bool
  connectTimeoutMs : ℤ
  hasConnectTimeoutMs : Bool
  discoveryTimeoutMs : ℤ
  hasDiscoveryTimeoutMs : Bool
  maxWorkers : ℤ
  hasMaxWorkers : Bool
  noBanner : Bool
  deriving DecidableEq, Repr

/-- What `cytadel_cli_parse_args` starts from. -/
def ScanOptions.initial : ScanOptions where
  targetSpec := none
  targetsFile := none
  hasIAmAuthorized := false
  authorizedBy := none
  portSpec := none
  pluginsDir := none
  logLevel := .info
  hasLogLevel := false
  logFile := none
  skipDiscovery := false
  connectTimeoutMs := 3000
  hasConnectTimeoutMs := false
  discoveryTimeoutMs := 1000
  hasDiscoveryTimeoutMs := false
  maxWorkers := 64
  hasMaxWorkers := false
  noBanner := false

/-- The ends of `cytadel_cli_parse_args` that are not OK. -/
inductive CliStop
  | help
  | version
  | error (message : Bytes)
  deriving DecidableEq, Repr

/-- `cytadel_cli_arg_value` without a value. -/
def cliNeedsArgument (flagName : Bytes) : CliStop :=
  .error (ascii "cytadel-scan: error: " ++ flagName ++ ascii " requires an argument\n")

/-- A number behind an option. -/
def withNumber (parsed : Except Bytes ℤ) (f : ℤ → ScanOptions) : Except CliStop ScanOptions :=
  match parsed with
  | .ok v => .ok (f v)
  | .error message => .error (.error message)

def takeLogLevel (val : Bytes) (a : ScanOptions) : Except CliStop ScanOptions :=
  match logLevelFromString val with
  | some lvl => .ok { a with logLevel := lvl, hasLogLevel := true }
  | none =>
      .error (.error (ascii "cytadel-scan: error: invalid --log-level '" ++ val ++
        ascii "' (expected debug, info, warn, or error)\n"))

/-- A positional argument; `have_positional` says that there is a target spec. -/
def takeTarget (arg : Bytes) (a : ScanOptions) : Except CliStop ScanOptions :=
  match a.targetSpec with
  | some given =>
      .error (.error (ascii "cytadel-scan: error: unexpected extra argument '" ++ arg ++
        ascii "' (target spec was already given as '" ++ given ++ ascii "')\n"))
  | none => .ok { a with targetSpec := some arg }

/-- A word in the loop of `cytadel_cli_parse_args`. -/
def cliReading (arg : Bytes) : Reading Bytes ScanOptions CliStop :=
  if arg = ascii "--help" then .stop .help
  else if arg = ascii "--version" then .stop .version
  else if arg = ascii "--i-am-authorized" then
    .alone fun a => .ok { a with hasIAmAuthorized := true }
  else if arg = ascii "--authorized-by" then
    .valued (cliNeedsArgument arg) fun val a => .ok { a with authorizedBy := some val }
  else if arg = ascii "--log-level" then
    .valued (cliNeedsArgument arg) takeLogLevel
  else if arg = ascii "--log-file" then
    .valued (cliNeedsArgument arg) fun val a => .ok { a with logFile := some val }
  else if arg = ascii "--targets-file" then
    .valued (cliNeedsArgument arg) fun val a => .ok { a with targetsFile := some val }
  else if arg = ascii "--ports" then
    .valued (cliNeedsArgument arg) fun val a => .ok { a with portSpec := some val }
  else if arg = ascii "--skip-discovery" then .alone fun a => .ok { a with skipDiscovery := true }
  else if arg = ascii "--connect-timeout-ms" then
    .valued (cliNeedsArgument arg) fun val a =>
      withNumber (cliParseTimeoutMs arg val) fun ms =>
        { a with connectTimeoutMs := ms, hasConnectTimeoutMs := true }
  else if arg = ascii "--discovery-timeout-ms" then
    .valued (cliNeedsArgument arg) fun val a =>
      withNumber (cliParseTimeoutMs arg val) fun ms =>
        { a with discoveryTimeoutMs := ms, hasDiscoveryTimeoutMs := true }
  else if arg = ascii "--no-banner" then .alone fun a => .ok { a with noBanner := true }
  else if arg = ascii "--plugins-dir" then
    .valued (cliNeedsArgument arg) fun val a => .ok { a with pluginsDir := some val }
  else if arg = ascii "--max-workers" then
    .valued (cliNeedsArgument arg) fun val a =>
      withNumber (cliParsePositiveInt arg val hardCapWorkers (ascii "worker thread(s)"))
        fun workers => { a with maxWorkers := workers, hasMaxWorkers := true }
  else if arg.head? = some 0x2D then
    .alone fun _ =>
      .error (.error (ascii "cytadel-scan: error: unknown option '" ++ arg ++ ascii "'\n"))
  else .alone (takeTarget arg)

/-- `cytadel_cli_parse_args` of the words behind the program's name. -/
def cliParseArgs (args : List Bytes) : Except CliStop ScanOptions :=
  match parse cliReading args .initial with
  | .error stop => .error stop
  | .ok a =>
      if a.targetSpec.isNone && a.targetsFile.isNone then
        .error (.error (ascii "cytadel-scan: error: missing target specification " ++
          ascii "(give <target-spec> and/or --targets-file)\n"))
      else .ok a

end Cytadel.Cli
