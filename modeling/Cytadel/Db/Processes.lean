import Cytadel.Db.EpssIngest
import Cytadel.Db.NvdIngest
import Cytadel.Db.ScanPersist

/-!
# What a process does with the database

Syncs, scans and the commands that make them up come down to these calls of
`src/db`, each with all that it takes from outside. Whatever else a process
does stands between two of them.
-/

namespace Cytadel.Db

open Cytadel Lib

inductive DbCall
  | nvdPage (w : World) (bytes lastmodEndDate : Bytes) (windowComplete : Bool)
  | kev (w : World) (bytes : Bytes) (fullPullComplete : Bool)
  | epss (w : World) (bytes : Bytes) (fullPullComplete : Bool)
  | create (env : Env Call Bytes) (scanId : ℤ) (targetSpec authorizedBy : Bytes)
      (method : AuthorizationMethod)
  | finding (env : Env Call Bytes) (scanId : ℤ) (f : Finding)
  | detection (env : Env Call Bytes) (scanId : ℤ) (vendor product : Bytes) (det : Detection)
  | finalize (env : Env Call Bytes) (scanId : ℤ) (status : FinalizeStatus)

/-- The call on a connection. The key of a new scan is one that SQLite gives:
positive, and not in use. -/
def DbCall.run {ρ : Type} (s : Session Tables ρ) : DbCall → Session Tables ρ
  | .nvdPage w bytes lastmodEndDate windowComplete =>
      (nvdIngestPage w bytes lastmodEndDate windowComplete s).session
  | .kev w bytes fullPullComplete => (kevIngest w bytes fullPullComplete s).session
  | .epss w bytes fullPullComplete => (epssIngest w bytes fullPullComplete s).session
  | .create env scanId targetSpec authorizedBy method =>
      if 0 < scanId ∧ (s.view.scans scanId).isNone then
        ((scanCreate scanId targetSpec authorizedBy method).run env s).2
      else s
  | .finding env scanId f => (scanPersistFinding env scanId f s).2
  | .detection env scanId vendor product det =>
      (scanDetectAndPersist env scanId vendor product det s).session
  | .finalize env scanId status => (scanFinalize env scanId status s).2

/-- One call after the other. -/
def runCalls {ρ : Type} (calls : List DbCall) (s : Session Tables ρ) : Session Tables ρ :=
  calls.foldl (fun s c => c.run s) s

end Cytadel.Db
