import Cytadel.Db.Instant
import Cytadel.Db.NvdSync

/-!
# Catching up with the NVD feed

`src/db/nvd_catchup.c`: from the stored watermark, or from the beginning of
the CVE program, window after window up to the present.
-/

namespace Cytadel.Db

open Cytadel Lib

/-- `cytadel_nvd_catchup_status_t`. -/
inductive NvdCatchupStatus
  | ok
  | errInvalidArg
  | errDb
  | errMalformedWatermark
  | errSync
  | errTooManyWindows
  deriving DecidableEq, Repr

/-- `cytadel_nvd_catchup_counts_t`. -/
structure NvdCatchupCounts where
  windowsCompleted : ℕ
  pagesFetched : ℕ
  cveIngested : ℕ
  cveSkipped : ℕ
  deriving DecidableEq, Repr

def NvdCatchupCounts.zero : NvdCatchupCounts := ⟨0, 0, 0, 0⟩

def NvdCatchupCounts.addWindow (c : NvdCatchupCounts) (w : NvdSyncCounts) : NvdCatchupCounts where
  windowsCompleted := c.windowsCompleted + 1
  pagesFetched := c.pagesFetched + w.pagesFetched
  cveIngested := c.cveIngested + w.cveIngested
  cveSkipped := c.cveSkipped + w.cveSkipped

structure NvdCatchupResult where
  status : NvdCatchupStatus
  counts : NvdCatchupCounts
  session : NvdSession

/-- CYTADEL_NVD_CATCHUP_WINDOW_DAYS. -/
def windowDays : ℤ := 120

/-- CYTADEL_NVD_CATCHUP_BULK_WINDOW_DAYS. -/
def bulkWindowDays : ℤ := 30

/-- CYTADEL_NVD_EPOCH_START. -/
def epochStart : Bytes := ascii "1999-01-01T00:00:00.000Z"

/-- CYTADEL_NVD_CATCHUP_MAX_WINDOWS. -/
def maxWindows : ℕ := 1000

/-- The watermark of a row, as `read_watermark` hands it out: clipped to its
buffer, and absent when it is NULL or empty. -/
def presentWatermark (column : Option Bytes) : Option Bytes :=
  (column.map (clipInto (40 + 1))).filter fun b => !b.isEmpty

/-- `read_watermark`. Outside the option is the status: a failing call, or a
missing row, is CYTADEL_NVD_CATCHUP_ERR_DB. -/
def readWatermark : Sql (Option (Option Bytes)) := do
  if ← Prog.attempt (.prepare .watermark) then
    if ← Prog.attempt (.bind .watermark) then
      match ← Prog.select (.step .watermark) fun d => d.syncState .nvd with
      | some (some st) => pure (some (presentWatermark st.lastModWatermark))
      | _ => pure none
    else pure none
  else pure none

/-- Where the cursor starts, and how long a window is. -/
def startingCursor : Option Bytes → Option (Instant × ℤ)
  | some watermark => (parseInstant watermark).map fun i => (i, windowDays)
  | none => (parseInstant epochStart).map fun i => (i, bulkWindowDays)

/-- The window loop, with the windows that the cap still allows. -/
def catchupWindows (w : NetWorld) (cfg : FetchConfig) (now : Instant) (days : ℤ) :
    ℕ → Instant → NvdCatchupCounts → NvdSession → NvdCatchupResult
  | 0, cursor, out, s => if cursor.before now then ⟨.errTooManyWindows, out, s⟩ else ⟨.ok, out, s⟩
  | windows + 1, cursor, out, s =>
      if !cursor.before now then ⟨.ok, out, s⟩
      else
        match formatInstant cursor with
        | none => ⟨.errMalformedWatermark, out, s⟩
        | some startBuf =>
            let candidateEnd := cursor.addDays days
            let windowEnd := if candidateEnd.before now then candidateEnd else now
            match formatInstant windowEnd with
            | none => ⟨.errMalformedWatermark, out, s⟩
            | some endBuf =>
                let window := nvdSyncWindow w cfg (some startBuf) endBuf 0 s
                if window.status ≠ .ok then ⟨.errSync, out, window.session⟩
                else
                  catchupWindows w cfg now days windows windowEnd (out.addWindow window.counts)
                    window.session

/-- `cytadel_nvd_catchup`; an empty `nowIso8601` does not parse. -/
def nvdCatchup (w : NetWorld) (cfg : FetchConfig) (nowIso8601 : Bytes) (s : NvdSession) :
    NvdCatchupResult :=
  match parseInstant nowIso8601 with
  | none => ⟨.errInvalidArg, .zero, s⟩
  | some now =>
      let rd := readWatermark.run w.env s
      match rd.1 with
      | none => ⟨.errDb, .zero, rd.2⟩
      | some watermark =>
          match startingCursor watermark with
          | none => ⟨.errMalformedWatermark, .zero, rd.2⟩
          | some (cursor, days) => catchupWindows w cfg now days maxWindows cursor .zero rd.2

end Cytadel.Db
