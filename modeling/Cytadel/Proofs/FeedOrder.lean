import Cytadel.Db.ScanPersist
import Cytadel.Lib.Writes
import Cytadel.Proofs.CpeRevision
import Cytadel.Proofs.RecordTables
import Cytadel.Proofs.ScanAtomicity

/-!
# A record that other writers saw first

The KEV feed, the EPSS feed and the plugin findings put a placeholder into
`cves` for an id that has no row, and never touch one that has. The NVD upsert
then meets the placeholder in its ON CONFLICT branch, which sets every column
but `published`. So the row comes out as if nothing had been there exactly
when the row that was there had the record's own time of publication.
-/

namespace Cytadel.Db

open Cytadel Lib

variable {C ρ : Type}

/-! ## What the other writers do to `cves` -/

/-- A placeholder came for an id without a row, and every row stayed. -/
def OnlyPlaceholders (d d' : Tables) : Prop :=
  ∀ id, d'.cves id = d.cves id ∨
    (d.cves id = none ∧ ∃ nowTs now, d'.cves id = some (placeholderRow nowTs now))

namespace OnlyPlaceholders

theorem of_cves_eq {d d' : Tables} (h : d'.cves = d.cves) : OnlyPlaceholders d d' :=
  fun id => Or.inl (congrFun h id)

theorem refl (d : Tables) : OnlyPlaceholders d d := of_cves_eq rfl

theorem trans (a b c : Tables) (hab : OnlyPlaceholders a b) (hbc : OnlyPlaceholders b c) :
    OnlyPlaceholders a c := by
  intro id
  rcases hab id with hab | ⟨hnone, hab⟩
  · rcases hbc id with hbc | ⟨hnone', hbc⟩
    · exact Or.inl (hbc.trans hab)
    · exact Or.inr ⟨hab ▸ hnone', hbc⟩
  · rcases hbc id with hbc | ⟨hnone', -⟩
    · exact Or.inr ⟨hnone, hbc ▸ hab⟩
    · obtain ⟨nowTs, now, hrow⟩ := hab
      rw [hrow] at hnone'
      cases hnone'

end OnlyPlaceholders

theorem insertPlaceholder_only (cveId nowTs : Bytes) (now : Bytes) (d d' : Tables)
    (h : insertPlaceholder cveId nowTs now d = some d') : OnlyPlaceholders d d' := by
  rw [insertPlaceholder_eq, Option.some.injEq] at h
  subst h
  intro id
  rw [withPlaceholder_cves]
  split
  · next hnew => exact Or.inr ⟨hnew.1, nowTs, now, rfl⟩
  · exact Or.inl rfl

theorem writeWithPlaceholder_writes {cveId : Bytes} {st : Stmt} {binds : ℕ}
    {upsert : Bytes → Tables → Option Tables}
    (hup : ∀ now d d', upsert now d = some d' → d'.cves = d.cves) (c : RecordCounts) :
    (writeWithPlaceholder cveId st binds upsert c).Writes OnlyPlaceholders := by
  refine Prog.Writes.bind (Prog.timestamp_writes _) fun o => ?_
  cases o with
  | none => trivial
  | some nowTs =>
      refine Prog.Writes.bind (Prog.attemptAll_writes _ _) fun ok => ?_
      cases ok with
      | false => trivial
      | true =>
          refine Prog.Writes.bind (Prog.exec_writes (insertPlaceholder_only cveId nowTs))
            fun step => ?_
          cases step with
          | constraint => trivial
          | error => trivial
          | done =>
              refine Prog.Writes.bind (Prog.attemptAll_writes _ _) fun ok => ?_
              cases ok with
              | false => trivial
              | true =>
                  refine Prog.Writes.bind (Prog.exec_writes fun now d d' h =>
                    .of_cves_eq (hup now d d' h)) fun step => ?_
                  cases step <;> trivial

theorem processOneKev_writes (e : Json) (c : RecordCounts) :
    (processOneKev e c).Writes OnlyPlaceholders := by
  rw [processOneKev]
  split
  · trivial
  · cases readKev e with
    | none => trivial
    | some r => exact writeWithPlaceholder_writes (fun _ _ _ h => by rw [kevUpsert_eq h]) c

theorem processOneEpss_writes (w : World) (e : Json) (c : RecordCounts) :
    (processOneEpss w e c).Writes OnlyPlaceholders := by
  rw [processOneEpss]
  split
  · trivial
  · cases readEpss w e with
    | none => trivial
    | some r => exact writeWithPlaceholder_writes (fun _ _ _ h => by rw [epssUpsert_eq h]) c

theorem FeedSpec.ingestRecords_writes {f : FeedSpec C} {R : Tables → Tables → Prop}
    (hf : ∀ e c, (f.processOne e c).Writes R) (elems : List Json) (n : ℕ) (c : C) :
    (f.ingestRecords elems n c).Writes R := by
  induction elems generalizing n c with
  | nil => trivial
  | cons e es ih =>
      cases n with
      | zero => trivial
      | succ n =>
          refine Prog.Writes.bind (hf e c) fun r => ?_
          split
          · trivial
          · exact ih n r.1

/-- An ingest whose records and sync update go along a relation goes along
it. -/
theorem FeedSpec.ingest_writes {f : FeedSpec C} {R : Tables → Tables → Prop}
    (hrefl : ∀ d, R d d) (htrans : ∀ a b c, R a b → R b c → R a c)
    (hf : ∀ e c, (f.processOne e c).Writes R)
    (hsync : ∀ n now d d', f.syncUpdate n now d = some d' → R d d') (w : World) (bytes : Bytes)
    (s : Session Tables ρ) : R s.committed (f.ingest w bytes s).session.committed := by
  obtain ⟨-, hun⟩ | ⟨-, elems, start, looped, synced, hrun⟩ := f.ingest_cases w bytes s
  · rw [hun.committed]
    exact hrefl _
  · have hview : start.2 = s.committed := by
      have hp := prepareStatements_view w.env f.stmts (s.calls + 2, s.committed)
      rwa [hrun.prepared] at hp
    have hloop := (ingestRecords_writes hf elems f.maxRecords f.zero).eval hrefl htrans w.env start
    rw [hrun.records, hview] at hloop
    obtain ⟨now, hs⟩ := updateSyncState_ok hrun.sync
    rw [hrun.session]
    exact htrans _ _ _ hloop (hsync _ now _ _ hs)

/-! ## Findings -/

theorem insertResult_cves {row : ScanResultRow} {now : Bytes} {d d' : Tables}
    (h : insertResult row now d = some d') : d'.cves = d.cves := by
  obtain ⟨-, -, id, -, -, rfl⟩ := insertResult_eq h
  rfl

/-! ## Interleavings -/

/-- The writers that may come before the NVD feed, each in its own world. -/
inductive Writer
  | kev (w : World) (bytes : Bytes) (fullPullComplete : Bool)
  | epss (w : World) (bytes : Bytes) (fullPullComplete : Bool)
  | finding (env : Env Call Bytes) (scanId : ℤ) (f : Finding)

def Writer.run (x : Writer) (s : Session Tables ρ) : Session Tables ρ :=
  match x with
  | .kev w bytes complete => (kevIngest w bytes complete s).session
  | .epss w bytes complete => (epssIngest w bytes complete s).session
  | .finding env scanId f => (scanPersistFinding env scanId f s).2

def runWriters (xs : List Writer) (s : Session Tables ρ) : Session Tables ρ :=
  xs.foldl (fun s x => x.run s) s

theorem Writer.run_only (x : Writer) (s : Session Tables ρ) :
    OnlyPlaceholders s.committed (x.run s).committed := by
  cases x with
  | kev w bytes complete =>
      exact FeedSpec.ingest_writes .refl .trans processOneKev_writes
        (fun _ _ _ _ h => .of_cves_eq (recordSyncUpdate_tables h).1) w bytes s
  | epss w bytes complete =>
      exact FeedSpec.ingest_writes .refl .trans (processOneEpss_writes w)
        (fun _ _ _ _ h => .of_cves_eq (recordSyncUpdate_tables h).1) w bytes s
  | finding env scanId f =>
      obtain ⟨-, hkept⟩ | ⟨-, -, values, n, x, hbody, hs⟩ :=
        scanPersistFinding_cases env scanId f s
      · rw [Writer.run, hkept.committed]
        exact .refl _
      · have hbodyWrites : (findingBody scanId f values).Writes OnlyPlaceholders :=
          findingBody_writes (fun _ _ _ _ _ h => .of_cves_eq (insertResult_cves h))
            insertPlaceholder_only values
        have hw := hbodyWrites.eval .refl .trans env (n, s.committed)
        rw [hbody] at hw
        rw [Writer.run, hs]
        exact hw

theorem runWriters_only (xs : List Writer) (s : Session Tables ρ) :
    OnlyPlaceholders s.committed (runWriters xs s).committed := by
  induction xs generalizing s with
  | nil => exact .refl _
  | cons x xs ih => exact .trans _ _ _ (x.run_only s) (ih (x.run s))

/-! ## The record on top -/

/-- The page brings the record, as its only one of that CVE, and no bind of
the upsert fails. -/
structure Brings (w : World) (bytes : Bytes) (r : CveRecord) : Prop where
  only : ∃ pre e post, pageElems w bytes = pre ++ e :: post ∧ readCve e = some r ∧
    ∀ e' ∈ pre ++ post, ∀ r', readCve e' = some r' → r'.cveId ≠ r.cveId
  bound : ∀ n, w.env.fault n (.bind .cveUpsert) = false

theorem rowsAt_pageUpserts_nil {elems : List Json} {id : Bytes}
    (h : ∀ e ∈ elems, ∀ r, readCve e = some r → r.cveId ≠ id) :
    rowsAt id (pageUpserts elems) = [] := by
  rw [rowsAt, List.filterMap_eq_nil_iff]
  intro i hi
  obtain ⟨e, he, hi⟩ := List.mem_flatMap.mp hi
  obtain ⟨r, hr, rfl⟩ := List.mem_map.mp hi
  exact if_neg (h e he r (Option.mem_toList.mp hr))

theorem Brings.rowsAt_eq {w : World} {bytes : Bytes} {r : CveRecord} (h : Brings w bytes r) :
    rowsAt r.cveId (pageUpserts (pageElems w bytes)) = [r.row []] := by
  obtain ⟨pre, e, post, helems, hr, hother⟩ := h.only
  have hpre := rowsAt_pageUpserts_nil fun e' he' => hother e' (List.mem_append_left _ he')
  have hpost := rowsAt_pageUpserts_nil fun e' he' => hother e' (List.mem_append_right _ he')
  have hone : rowsAt r.cveId (pageUpserts [e]) = [r.row []] := by
    simp [pageUpserts, recordUpserts, hr, rowsAt]
  rw [helems, List.append_cons, pageUpserts_append, pageUpserts_append, rowsAt_append,
    rowsAt_append, hpre, hone, hpost]
  rfl

/-- A row without its time of publication, and without that of its ingestion. -/
def CveRow.unpublished (row : CveRow) : CveRow := { row.undated with published := [] }

theorem CveRow.map_unpublished (o : Option CveRow) :
    o.map CveRow.unpublished =
      (o.map CveRow.undated).map fun row => { row with published := [] } := by
  rw [Option.map_map]
  rfl

/-- The row of the record after its page. -/
theorem Brings.row {w : World} {bytes endDate : Bytes} {complete : Bool} {r : CveRecord}
    {s : Session Tables ρ} (h : Brings w bytes r)
    (hok : (nvdIngestPage w bytes endDate complete s).status = .ok) :
    ((nvdIngestPage w bytes endDate complete s).session.committed.cves r.cveId).map
        CveRow.undated =
      some ((s.committed.cves r.cveId).elim (r.row []) fun old =>
        old.undated.onConflict (r.row [])) := by
  rw [nvdIngestPage_cves h.bound hok, h.rowsAt_eq]
  cases s.committed.cves r.cveId <;> rfl

/-- After any interleaving of the other writers, the row of a record is, up to
the time of ingestion, the one that an ingest into a database without a row of
that CVE leaves, if and only if the row that was there, when there was one, has
the record's time of publication. All other columns agree in any case, and what
the writers can have put there is a placeholder. -/
theorem nvdIngest_row_agrees_iff (xs : List Writer) (s₀ s' : Session Tables ρ) {w w' : World}
    {bytes bytes' endDate endDate' : Bytes} {complete complete' : Bool} {r : CveRecord}
    (hr : Brings w bytes r) (hr' : Brings w' bytes' r)
    (hok : (nvdIngestPage w bytes endDate complete (runWriters xs s₀)).status = .ok)
    (hok' : (nvdIngestPage w' bytes' endDate' complete' s').status = .ok)
    (hnone : s'.committed.cves r.cveId = none) :
    (((nvdIngestPage w bytes endDate complete
          (runWriters xs s₀)).session.committed.cves r.cveId).map CveRow.undated =
        ((nvdIngestPage w' bytes' endDate' complete' s').session.committed.cves r.cveId).map
          CveRow.undated ↔
      ∀ old, (runWriters xs s₀).committed.cves r.cveId = some old →
        old.published = r.published) ∧
    ((nvdIngestPage w bytes endDate complete
          (runWriters xs s₀)).session.committed.cves r.cveId).map CveRow.unpublished =
      ((nvdIngestPage w' bytes' endDate' complete' s').session.committed.cves r.cveId).map
        CveRow.unpublished ∧
    (s₀.committed.cves r.cveId = none → (runWriters xs s₀).committed.cves r.cveId = none ∨
      ∃ nowTs now, (runWriters xs s₀).committed.cves r.cveId =
        some (placeholderRow nowTs now)) := by
  refine ⟨?_, ?_, ?_⟩
  · rw [hr.row hok, hr'.row hok', hnone]
    cases hold : (runWriters xs s₀).committed.cves r.cveId with
    | none => simp
    | some old =>
        simp only [Option.elim_some, Option.elim_none, Option.some.injEq, forall_eq']
        constructor
        · intro h
          exact congrArg CveRow.published h
        · intro h
          change { r.row [] with published := old.published } = r.row []
          rw [h]
          rfl
  · rw [CveRow.map_unpublished, CveRow.map_unpublished, hr.row hok, hr'.row hok', hnone]
    cases (runWriters xs s₀).committed.cves r.cveId <;> rfl
  · intro hfirst
    rcases runWriters_only xs s₀ r.cveId with h | ⟨-, h⟩
    · exact Or.inl (h.trans hfirst)
    · exact Or.inr h

/-! ## A CVE that the KEV feed saw first -/

def kevText : Bytes :=
  ["\x7b\"vulnerabilities\":", "[\x7b", "\"cveID\":\"CVE-2024-0001\",",
    "\"dateAdded\":\"2024-06-01\",", "\"vendorProject\":\"acme\",", "\"product\":\"httpd\",",
    "\"vulnerabilityName\":", "\"overflow\"\x7d]\x7d"].flatMap ascii

def kevDocument : Json :=
  let str (s : String) : Json := .string (ascii s)
  .object [(ascii "vulnerabilities", .array [.object [
    (ascii "cveID", str "CVE-2024-0001"), (ascii "dateAdded", str "2024-06-01"),
    (ascii "vendorProject", str "acme"), (ascii "product", str "httpd"),
    (ascii "vulnerabilityName", str "overflow")]])]

/-- The KEV feed, with one entry. -/
def kevFirst : List Writer := [.kev (.reading [(kevText, kevDocument)]) kevText true]

/-- The record of the page in `revisionText`. -/
def revisionRecord : CveRecord where
  cveId := ascii "CVE-2024-0001"
  published := ascii "2024-01-01T00:00:00.000Z"
  lastModified := ascii "2024-01-02T00:00:00.000Z"
  description := []
  v3 := ⟨none, none, none⟩
  v2 := ⟨none, none, none⟩
  severity := 0

set_option maxRecDepth 20000 in
theorem revisionWorld_brings :
    Brings revisionWorld (revisionText "2.0") revisionRecord where
  only := by
    have hparse : revisionWorld.parse (revisionText "2.0") = some (revision "2.0") := by
      simp [revisionWorld, World.reading]
    obtain ⟨e, he, hr⟩ : ∃ e, (nvdFeed [] false).records (some (revision "2.0")) = some [e] ∧
        readCve e = some revisionRecord := ⟨_, rfl, by decide⟩
    refine ⟨[], e, [], ?_, hr, by simp⟩
    rw [pageElems, hparse, he]
    rfl
  bound _ := rfl

/-- The page on top of the KEV entry. -/
def afterKev : IngestResult NvdCounts Unit :=
  nvdIngestPage revisionWorld (revisionText "2.0") (ascii "2024-07-01T00:00:00.000Z") true
    (runWriters kevFirst Tables.seeded.connect)

set_option maxRecDepth 20000 in
theorem nvdIngest_row_agrees_iff_kev_first :
    afterKev.status = .ok ∧
    ((afterKev.session.committed.cves revisionRecord.cveId).map CveRow.undated =
        (afterWider.session.committed.cves revisionRecord.cveId).map CveRow.undated ↔
      ∀ old, (runWriters kevFirst
          (Tables.seeded.connect (ρ := Unit))).committed.cves revisionRecord.cveId = some old →
        old.published = revisionRecord.published) ∧
    (afterKev.session.committed.cves revisionRecord.cveId).map CveRow.unpublished =
      (afterWider.session.committed.cves revisionRecord.cveId).map CveRow.unpublished := by
  have hok : afterKev.status = .ok := by decide
  have hok' : afterWider.status = .ok := by decide
  unfold afterKev at hok ⊢
  unfold afterWider at hok' ⊢
  have hagrees := nvdIngest_row_agrees_iff kevFirst Tables.seeded.connect
    Tables.seeded.connect revisionWorld_brings revisionWorld_brings hok hok' rfl
  exact ⟨hok, hagrees.1, hagrees.2.1⟩

set_option maxRecDepth 20000 in
/-- The row keeps the time at which the KEV feed put its placeholder there as
its time of publication. -/
theorem nvdIngest_keeps_placeholder_published :
    afterKev.status = .ok ∧ afterWider.status = .ok ∧
    (afterKev.session.committed.cves (ascii "CVE-2024-0001")).map (·.published) =
      some (ascii "2024-06-01T00:00:00.000Z") ∧
    (afterWider.session.committed.cves (ascii "CVE-2024-0001")).map (·.published) =
      some (ascii "2024-01-01T00:00:00.000Z") ∧
    (afterKev.session.committed.cves (ascii "CVE-2024-0001")).map CveRow.undated ≠
      (afterWider.session.committed.cves (ascii "CVE-2024-0001")).map CveRow.undated := by
  decide

end Cytadel.Db
