import Cytadel.Proofs.PageTables

/-!
# What a new revision does to the ranges of a CVE

`cve_cpe_matches` only grows. A page adds the entries of its records whose key
the table does not have, and no statement of the feed deletes or updates a
row, so what an earlier revision said stays beside what the page says. The
example at the end is a range that NVD narrowed.
-/

namespace Cytadel.Db

open Cytadel Lib

variable {ρ : Type}

/-- The rows of one CVE. -/
def cpeRowsOf (d : Tables) (cveId : Bytes) : List CpeRow :=
  d.cveCpeMatches.filter fun r => r.cveId = cveId

/-- The entries of one CVE that a page has to offer, from all its records of
that CVE. -/
def acceptedOf (elems : List Json) (cveId : Bytes) : List CpeRecord :=
  rowsAt cveId (pageItems elems)

theorem mem_rowsAt {κ β : Type} [DecidableEq κ] {k : κ} {items : List (κ × β)} {b : β} :
    b ∈ rowsAt k items ↔ (k, b) ∈ items := by
  simp only [rowsAt, List.mem_filterMap]
  constructor
  · rintro ⟨⟨k', b'⟩, hmem, h⟩
    split at h
    · next hk =>
        cases hk
        cases h
        exact hmem
    · cases h
  · intro hmem
    exact ⟨(k, b), hmem, by simp⟩

/-- For every database and every page that answers OK: the rows of a CVE are
those it had, in front, and behind them rows of entries that the page brings
for it, under different keys that it did not have; and when no bind of a record
failed, every entry that the page brings is there under its key. -/
theorem nvdIngestPage_cpe_rows (w : World) (bytes endDate : Bytes) (complete : Bool)
    (s : Session Tables ρ) (h : (nvdIngestPage w bytes endDate complete s).status = .ok)
    (cveId : Bytes) :
    let before := cpeRowsOf s.committed cveId
    let after := cpeRowsOf (nvdIngestPage w bytes endDate complete s).session.committed cveId
    let accepted := acceptedOf (pageElems w bytes) cveId
    ∃ added, after = before ++ added ∧
      (∀ row ∈ added, ∃ q ∈ accepted, row.content = q.row cveId 0) ∧
      (added.map CpeRow.key).Nodup ∧
      (before.map CpeRow.key).Disjoint (added.map CpeRow.key) ∧
      (NoRecordBindFault w.env →
        ∀ q ∈ accepted, (q.row cveId 0).key ∈ after.map CpeRow.key) := by
  intro before after accepted
  obtain ⟨ups, adds, now, records, -, -, -, hsync, hcov⟩ := nvdIngestPage_ok h
  obtain ⟨-, hcpes, -⟩ := nvdSyncUpdate_tables hsync
  obtain ⟨added, hadded, hrows, hnodup, hnew⟩ :=
    foldl_addNew_appends CpeItem.key_build adds s.committed.cveCpeMatches
  have htable : (nvdIngestPage w bytes endDate complete s).session.committed.cveCpeMatches =
      s.committed.cveCpeMatches ++ added := hcpes.trans hadded
  have hof : ((added.filter fun r => r.cveId = cveId).map CpeRow.key).Sublist
      (added.map CpeRow.key) := List.filter_sublist.map _
  refine ⟨added.filter fun r => r.cveId = cveId, ?_, fun row hrow => ?_, ?_, ?_,
    fun hno q hq => ?_⟩
  · simp only [after, before, cpeRowsOf, htable, List.filter_append]
  · obtain ⟨hrow, hid⟩ := List.mem_filter.mp hrow
    obtain ⟨⟨k, q⟩, hq, tab, rfl⟩ := hrows row hrow
    obtain rfl : k = cveId := of_decide_eq_true hid
    exact ⟨q, mem_rowsAt.mpr (hcov.items.subset hq), rfl⟩
  · exact hof.nodup hnodup
  · intro k hbefore hafter
    have hold := (List.filter_sublist.map CpeRow.key).subset hbefore
    exact hnew hold (hof.subset hafter)
  · have hadds : (cveId, q) ∈ adds := by
      rw [hcov.items_eq hno]
      exact mem_rowsAt.mp hq
    have hkey := keyOf_mem_foldl_addNew CpeItem.key_build hadds s.committed.cveCpeMatches
    rw [hadded, ← htable] at hkey
    obtain ⟨row, hrow, hrowKey⟩ := List.mem_map.mp hkey
    have hid : row.cveId = cveId := congrArg CpeKey.cveId hrowKey
    exact List.mem_map.mpr ⟨row, List.mem_filter.mpr ⟨hrow, by simpa using hid⟩, hrowKey⟩

/-! ## A narrowed range -/

/-- A page with one revision of a record: every version below `bound`. -/
def revisionText (bound : String) : Bytes :=
  ["\x7b\"vulnerabilities\":", "[\x7b\"cve\":\x7b", "\"id\":\"CVE-2024-0001\",",
    "\"published\":", "\"2024-01-01T00:00:00.000\",", "\"lastModified\":",
    "\"2024-01-02T00:00:00.000\",", "\"configurations\":", "[\x7b\"nodes\":[\x7b",
    "\"cpeMatch\":[\x7b", "\"criteria\":", "\"cpe:2.3:a:acme:httpd",
    ":*:*:*:*:*:*:*:*\",", "\"versionEndExcluding\":", "\"", bound,
    "\"\x7d]\x7d]\x7d]\x7d\x7d]\x7d"].flatMap ascii

/-- The same page as `cJSON` reads it. -/
def revision (bound : String) : Json :=
  let str (s : String) : Json := .string (ascii s)
  let entry : Json := .object [
    (ascii "criteria", str "cpe:2.3:a:acme:httpd:*:*:*:*:*:*:*:*"),
    (ascii "versionEndExcluding", str bound)]
  let node : Json := .object [(ascii "cpeMatch", .array [entry])]
  let config : Json := .object [(ascii "nodes", .array [node])]
  let cve : Json := .object [
    (ascii "id", str "CVE-2024-0001"),
    (ascii "published", str "2024-01-01T00:00:00.000"),
    (ascii "lastModified", str "2024-01-02T00:00:00.000"),
    (ascii "configurations", .array [config])]
  .object [(ascii "vulnerabilities", .array [.object [(ascii "cve", cve)]])]

def revisionWorld : World :=
  .reading [(revisionText "2.0", revision "2.0"), (revisionText "1.5", revision "1.5")]

/-- The database after the wider revision. -/
def afterWider : IngestResult NvdCounts Unit :=
  nvdIngestPage revisionWorld (revisionText "2.0") (ascii "2024-02-01T00:00:00.000Z") true
    Tables.seeded.connect

/-- The database after the narrower revision, on top of it. -/
def afterNarrower : IngestResult NvdCounts Unit :=
  nvdIngestPage revisionWorld (revisionText "1.5") (ascii "2024-03-01T00:00:00.000Z") true
    afterWider.session

set_option maxRecDepth 20000 in
/-- Behind the row of the wider revision stands one new row, with another
key. -/
theorem nvdIngestPage_cpe_rows_narrowed :
    afterNarrower.status = .ok ∧
    ∃ added, cpeRowsOf afterNarrower.session.committed (ascii "CVE-2024-0001") =
        cpeRowsOf afterWider.session.committed (ascii "CVE-2024-0001") ++ added ∧
      added.map CpeRow.versionEndExcluding = [ascii "1.5"] ∧
      ((cpeRowsOf afterWider.session.committed (ascii "CVE-2024-0001")).map
        CpeRow.key).Disjoint (added.map CpeRow.key) := by
  have hok : afterNarrower.status = .ok := by decide
  have hrows : ((cpeRowsOf afterNarrower.session.committed (ascii "CVE-2024-0001")).map
      CpeRow.versionEndExcluding) =
        (cpeRowsOf afterWider.session.committed (ascii "CVE-2024-0001")).map
          CpeRow.versionEndExcluding ++ [ascii "1.5"] := by decide
  unfold afterNarrower at hok hrows ⊢
  obtain ⟨added, heq, -, -, hnew, -⟩ := nvdIngestPage_cpe_rows _ _ _ _ _ hok
    (ascii "CVE-2024-0001")
  refine ⟨hok, added, heq, ?_, hnew⟩
  rwa [heq, List.map_append, List.append_cancel_left_eq] at hrows

set_option maxRecDepth 20000 in
/-- The range below 2.0 that was withdrawn is still a row of the CVE, though
the page's only record of it has no such entry. -/
theorem nvdIngestPage_keeps_withdrawn_range :
    afterNarrower.status = .ok ∧
    (acceptedOf (pageElems revisionWorld (revisionText "1.5")) (ascii "CVE-2024-0001")).map
      (·.versionEndExcluding) = [ascii "1.5"] ∧
    ¬ ∀ row ∈ cpeRowsOf afterNarrower.session.committed (ascii "CVE-2024-0001"),
      ∃ q ∈ acceptedOf (pageElems revisionWorld (revisionText "1.5")) (ascii "CVE-2024-0001"),
        row.content = q.row (ascii "CVE-2024-0001") 0 := by
  decide

end Cytadel.Db
