import Cytadel.Lib.Upsert
import Cytadel.Proofs.NvdEffect

/-!
# What a page does to the tables

Inside one transaction the two tables of the NVD feed do not see each other: a
row of `cve_cpe_matches` is only ever inserted behind the upsert of its CVE,
so its foreign key is there. A page is therefore a list of upserts into `cves`
and a list of insertions into `cve_cpe_matches`. Both are sublists of what the
document says, and the whole of it when no bind failed; the times of ingestion
are the only thing the document does not say.
-/

namespace Cytadel.Db

open Cytadel Lib

variable {ρ : Type} {env : Env Call Bytes}

/-- A row without the time of its ingestion. -/
def CveRow.undated (r : CveRow) : CveRow := { r with ingestedAt := [] }

theorem CveRow.undated_onConflict (a b : CveRow) :
    (a.onConflict b).undated = a.undated.onConflict b.undated := rfl

/-- A later revision wins over a merged row as it wins over the first. -/
theorem CveRow.onConflict_onConflict (a b c : CveRow) :
    (a.onConflict b).onConflict c = a.onConflict c := rfl

theorem CveRow.onConflict_self (a : CveRow) : a.onConflict a = a := rfl

/-- A row of `cve_cpe_matches` without its id. -/
def CpeRow.content (r : CpeRow) : CpeRow := { r with id := 0 }

/-- An entry with the id of its CVE. -/
abbrev CpeItem := Bytes × CpeRecord

def CpeItem.build (tab : List CpeRow) (i : CpeItem) : CpeRow :=
  i.2.row i.1 (nextRowId (tab.map (·.id)))

def CpeItem.key (i : CpeItem) : CpeKey := (i.2.row i.1 0).key

theorem CpeItem.key_build (tab : List CpeRow) (i : CpeItem) :
    (CpeItem.build tab i).key = i.key := rfl

/-- The insertion into `cve_cpe_matches`. -/
abbrev addCpes (tab : List CpeRow) (items : List CpeItem) : List CpeRow :=
  items.foldl (addNew CpeRow.key CpeItem.build) tab

/-- The upserts into `cves`. -/
abbrev upsertCves (tab : Bytes → Option CveRow) (items : List (Bytes × CveRow)) :
    Bytes → Option CveRow :=
  items.foldl (upsert CveRow.onConflict) tab

/-- Upserts and insertions on the tables. -/
def Tables.apply (ups : List (Bytes × CveRow)) (adds : List CpeItem) (d : Tables) : Tables :=
  { d with
    cves := upsertCves d.cves ups
    cveCpeMatches := addCpes d.cveCpeMatches adds }

theorem Tables.apply_apply (ups ups' : List (Bytes × CveRow)) (adds adds' : List CpeItem)
    (d : Tables) :
    (d.apply ups adds).apply ups' adds' = d.apply (ups ++ ups') (adds ++ adds') := by
  simp only [Tables.apply, List.foldl_append]

theorem cveUpserted_eq (r : CveRecord) (now : Bytes) (d : Tables) :
    cveUpserted r now d = d.apply [(r.cveId, r.row now)] [] := by
  simp only [cveUpserted, Tables.apply, List.foldl_cons, List.foldl_nil, upsert]
  cases d.cves r.cveId <;> rfl

theorem insertCpes_eq {cveId : Bytes} {rs : List CpeRecord} {d : Tables}
    (hfk : (d.cves cveId).isSome = true)
    (hcheck : ∀ r ∈ rs, ∀ id, (r.row cveId id).check = true) :
    insertCpes cveId rs d = d.apply [] (rs.map fun r => (cveId, r)) := by
  induction rs generalizing d with
  | nil => rfl
  | cons r rs ih =>
      have hone : (cpeInsert cveId r [] d).getD d = d.apply [] [(cveId, r)] := by
        have hne : d.cves cveId ≠ none := Option.isSome_iff_ne_none.mp hfk
        simp only [cpeInsert, hcheck r List.mem_cons_self, Tables.apply, List.foldl_cons,
          List.foldl_nil, addNew, CpeItem.build, Bool.not_true, Bool.false_eq_true, if_false]
        split
        · next hmem => simp only [hmem, if_true, Option.getD_some]
        · next hnew => simp [hnew, hne]
      have hfk' : ((d.apply [] [(cveId, r)]).cves cveId).isSome = true := hfk
      rw [insertCpes_cons, hone, ih hfk' fun q hq => hcheck q (List.mem_cons_of_mem _ hq),
        Tables.apply_apply]
      rfl

/-! ## One record -/

/-- What a record says for `cves`. -/
def recordUpserts (elem : Json) : List (Bytes × CveRow) :=
  (readCve elem).toList.map fun r => (r.cveId, r.row [])

/-- What a record says for `cve_cpe_matches`. -/
def recordItems (elem : Json) : List CpeItem :=
  (readCve elem).toList.flatMap fun r => (cpeRecords elem).map fun q => (r.cveId, q)

/-- No bind of a record's own statements fails. -/
def NoRecordBindFault (env : Env Call Bytes) : Prop :=
  ∀ n, env.fault n (.bind .cveUpsert) = false ∧ env.fault n (.bind .cpeInsert) = false

/-- The writes say no more than the document, and as much when no bind failed. -/
structure Covers (env : Env Call Bytes) (ups ups₀ : List (Bytes × CveRow))
    (adds adds₀ : List CpeItem) : Prop where
  upserts : (ups.map fun i => (i.1, i.2.undated)).Sublist ups₀
  items : adds.Sublist adds₀
  upserts_eq : (∀ n, env.fault n (.bind .cveUpsert) = false) →
    ups.map (fun i => (i.1, i.2.undated)) = ups₀
  items_eq : NoRecordBindFault env → adds = adds₀

theorem Covers.append {ups ups₀ ups' ups₀' : List (Bytes × CveRow)}
    {adds adds₀ adds' adds₀' : List CpeItem} (h : Covers env ups ups₀ adds adds₀)
    (h' : Covers env ups' ups₀' adds' adds₀') :
    Covers env (ups ++ ups') (ups₀ ++ ups₀') (adds ++ adds') (adds₀ ++ adds₀') where
  upserts := by
    rw [List.map_append]
    exact h.upserts.append h'.upserts
  items := h.items.append h'.items
  upserts_eq hno := by rw [List.map_append, h.upserts_eq hno, h'.upserts_eq hno]
  items_eq hno := by rw [h.items_eq hno, h'.items_eq hno]

theorem acceptCpe_check {elem : Json} {q : CpeRecord} (h : q ∈ cpeRecords elem)
    (cveId : Bytes) (id : ℕ) : (q.row cveId id).check = true := by
  obtain ⟨m, -, hm⟩ := List.mem_filterMap.mp h
  rw [acceptCpe] at hm
  split at hm
  · exact readCpeMatch_check hm cveId id
  · cases hm

theorem processOneCve_apply {elem : Json} {c c' : NvdCounts} {x x' : ℕ × Tables}
    (h : (processOneCve elem c).eval env x = ((c', false), x')) :
    ∃ ups adds, x'.2 = x.2.apply ups adds ∧
      Covers env ups (recordUpserts elem) adds (recordItems elem) := by
  obtain ⟨htab, hall⟩ | ⟨r, now, rs, hr, hsub, htab, hall⟩ := processOneCve_tables h
  · refine ⟨[], [], htab, List.nil_sublist _, List.nil_sublist _, fun hno => ?_, fun hno => ?_⟩
    · simp [recordUpserts, hall hno]
    · simp [recordItems, hall fun n => (hno n).1]
  · have hups : recordUpserts elem = [(r.cveId, r.row [])] := by simp [recordUpserts, hr]
    have hitems : recordItems elem = (cpeRecords elem).map fun q => (r.cveId, q) := by
      simp [recordItems, hr]
    refine ⟨[(r.cveId, r.row now)], rs.map fun q => (r.cveId, q), ?_, ?_, ?_, ?_, ?_⟩
    · have hfk : ((cveUpserted r now x.2).cves r.cveId).isSome = true := by
        simp [cveUpserted]
      rw [htab, insertCpes_eq hfk fun q hq => acceptCpe_check (hsub.subset hq) _,
        cveUpserted_eq, Tables.apply_apply]
      rfl
    · rw [hups]
      exact List.Sublist.refl _
    · rw [hitems]
      exact hsub.map _
    · intro _
      rw [hups]
      rfl
    · intro hno
      rw [hitems, hall fun n => (hno n).2]

/-! ## One page -/

def pageUpserts (elems : List Json) : List (Bytes × CveRow) := elems.flatMap recordUpserts

def pageItems (elems : List Json) : List CpeItem := elems.flatMap recordItems

theorem pageUpserts_append (es es' : List Json) :
    pageUpserts (es ++ es') = pageUpserts es ++ pageUpserts es' := List.flatMap_append

theorem pageItems_append (es es' : List Json) :
    pageItems (es ++ es') = pageItems es ++ pageItems es' := List.flatMap_append

theorem steps_apply {elems : List Json} {st st' : NvdCounts × Tables}
    (h : Steps (fun e (st st' : NvdCounts × Tables) => ∃ ups adds, st'.2 = st.2.apply ups adds ∧
      Covers env ups (recordUpserts e) adds (recordItems e)) elems st st') :
    ∃ ups adds, st'.2 = st.2.apply ups adds ∧
      Covers env ups (pageUpserts elems) adds (pageItems elems) := by
  induction h with
  | nil =>
      exact ⟨[], [], rfl, List.nil_sublist _, List.nil_sublist _, fun _ => rfl, fun _ => rfl⟩
  | cons hone _ ih =>
      obtain ⟨ups, adds, htab, hcov⟩ := hone
      obtain ⟨ups', adds', htab', hcov'⟩ := ih
      refine ⟨ups ++ ups', adds ++ adds', ?_, hcov.append hcov'⟩
      rw [htab', htab, Tables.apply_apply]

/-- The records of a page that are looked at. -/
def pageElems (w : World) (bytes : Bytes) : List Json :=
  (((nvdFeed [] false).records (w.parse bytes)).getD []).take 20000

/-- A page that answered OK ran to its commit, from the durable tables. -/
theorem nvdIngestPage_run {w : World} {bytes endDate : Bytes} {complete : Bool}
    {s : Session Tables ρ} (h : (nvdIngestPage w bytes endDate complete s).status = .ok) :
    ∃ elems start looped synced,
      nvdIngestPage w bytes endDate complete s = (nvdFeed endDate complete).ingest w bytes s ∧
      (nvdFeed endDate complete).OkRun w bytes s elems start looped synced ∧
      start.2 = s.committed := by
  rw [nvdIngestPage] at h ⊢
  split at h
  · cases h
  · next hend =>
      rw [if_neg hend]
      obtain ⟨hst, -⟩ | ⟨-, elems, start, looped, synced, hrun⟩ :=
        (nvdFeed endDate complete).ingest_cases w bytes s
      · exact absurd h hst
      refine ⟨elems, start, looped, synced, rfl, hrun, ?_⟩
      have hp := prepareStatements_view w.env (nvdFeed endDate complete).stmts
        (s.calls + 2, s.committed)
      rwa [hrun.prepared] at hp

/-- A page that answered OK: one commit, of upserts and insertions that the
document covers and of the sync update. -/
theorem nvdIngestPage_ok {w : World} {bytes endDate : Bytes} {complete : Bool}
    {s : Session Tables ρ} (h : (nvdIngestPage w bytes endDate complete s).status = .ok) :
    ∃ ups adds now records, s.txn = none ∧
      (nvdIngestPage w bytes endDate complete s).session.txn = none ∧
      (nvdIngestPage w bytes endDate complete s).session.log = s.log ++ [.commit s.committed
        (nvdIngestPage w bytes endDate complete s).session.committed] ∧
      nvdSyncUpdate endDate complete records now (s.committed.apply ups adds) =
        some (nvdIngestPage w bytes endDate complete s).session.committed ∧
      Covers w.env ups (pageUpserts (pageElems w bytes)) adds
        (pageItems (pageElems w bytes)) := by
  obtain ⟨elems, start, looped, synced, heq, hrun, hview⟩ := nvdIngestPage_run h
  rw [heq]
  have hstep : ∀ e c x c' x', ((nvdFeed endDate complete).processOne e c).eval w.env x =
      ((c', false), x') → ∃ ups adds, x'.2 = x.2.apply ups adds ∧
        Covers w.env ups (recordUpserts e) adds (recordItems e) :=
    fun _ _ _ _ _ he => processOneCve_apply he
  obtain ⟨c, hsteps, -⟩ := FeedSpec.ingestRecords_steps
    (R := fun e st st' => ∃ ups adds, st'.2 = st.2.apply ups adds ∧
      Covers w.env ups (recordUpserts e) adds (recordItems e)) hstep hrun.records
  obtain ⟨ups, adds, htab, hcov⟩ := steps_apply hsteps
  obtain ⟨now, hsync⟩ := FeedSpec.updateSyncState_ok hrun.sync
  have helems : pageElems w bytes = elems.take 20000 := by
    have hparsed : (nvdFeed [] false).records (w.parse bytes) = some elems := hrun.parsed
    rw [pageElems, hparsed, Option.getD_some]
  rw [helems, hrun.session]
  refine ⟨ups, adds, now, (nvdFeed endDate complete).seen
    ((nvdFeed endDate complete).ingest w bytes s).counts, hrun.closed, rfl, rfl, ?_, hcov⟩
  rw [hview] at htab
  rw [← htab]
  exact hsync

/-- The sync update leaves the tables of the feed alone. -/
theorem nvdSyncUpdate_tables {endDate : Bytes} {complete : Bool} {records : ℕ} {now : Bytes}
    {d d' : Tables} (h : nvdSyncUpdate endDate complete records now d = some d') :
    d'.cves = d.cves ∧ d'.cveCpeMatches = d.cveCpeMatches ∧ d'.kev = d.kev ∧ d'.epss = d.epss := by
  simp only [nvdSyncUpdate, Option.some.injEq] at h
  subst h
  exact ⟨rfl, rfl, rfl, rfl⟩

/-- Up to the time of ingestion, a row of `cves` is the fold of what the
document says of it. -/
theorem upsertCves_undated (tab : Bytes → Option CveRow) (ups : List (Bytes × CveRow))
    (id : Bytes) :
    (upsertCves tab ups id).map CveRow.undated =
      (rowsAt id (ups.map fun i => (i.1, i.2.undated))).foldl (mergeOpt CveRow.onConflict)
        ((tab id).map CveRow.undated) := by
  rw [upsertCves, foldl_upsert_apply, foldl_mergeOpt_map CveRow.undated_onConflict, rowsAt_map]

/-! ## What the document alone decides -/

/-- The tables after some records, up to the times of ingestion. -/
structure AppliedRecords (elems : List Json) (d d' : Tables) : Prop where
  cves : ∀ id, (d'.cves id).map CveRow.undated =
    (rowsAt id (pageUpserts elems)).foldl (mergeOpt CveRow.onConflict)
      ((d.cves id).map CveRow.undated)
  cpes : d'.cveCpeMatches = addCpes d.cveCpeMatches (pageItems elems)

theorem AppliedRecords.refl (d : Tables) : AppliedRecords [] d d := ⟨fun _ => rfl, rfl⟩

theorem AppliedRecords.trans {es es' : List Json} {d d' d'' : Tables}
    (h : AppliedRecords es d d') (h' : AppliedRecords es' d' d'') :
    AppliedRecords (es ++ es') d d'' where
  cves id := by
    rw [h'.cves id, h.cves id, pageUpserts_append, rowsAt_append, List.foldl_append]
  cpes := by
    rw [h'.cpes, h.cpes, pageItems_append]
    exact List.foldl_append.symm

/-- A page that answered OK and lost no upsert to a failing bind. -/
theorem nvdIngestPage_cves {w : World} {bytes endDate : Bytes} {complete : Bool}
    {s : Session Tables ρ} (hno : ∀ n, w.env.fault n (.bind .cveUpsert) = false)
    (h : (nvdIngestPage w bytes endDate complete s).status = .ok) (id : Bytes) :
    ((nvdIngestPage w bytes endDate complete s).session.committed.cves id).map CveRow.undated =
      (rowsAt id (pageUpserts (pageElems w bytes))).foldl (mergeOpt CveRow.onConflict)
        ((s.committed.cves id).map CveRow.undated) := by
  obtain ⟨ups, adds, now, records, -, -, -, hsync, hcov⟩ := nvdIngestPage_ok h
  rw [(nvdSyncUpdate_tables hsync).1, ← hcov.upserts_eq hno]
  exact upsertCves_undated _ _ _

/-- A page that answered OK and lost no record to a failing bind. -/
theorem nvdIngestPage_applied {w : World} {bytes endDate : Bytes} {complete : Bool}
    {s : Session Tables ρ} (hno : NoRecordBindFault w.env)
    (h : (nvdIngestPage w bytes endDate complete s).status = .ok) :
    AppliedRecords (pageElems w bytes) s.committed
      (nvdIngestPage w bytes endDate complete s).session.committed := by
  refine ⟨nvdIngestPage_cves (fun n => (hno n).1) h, ?_⟩
  obtain ⟨ups, adds, now, records, -, -, -, hsync, hcov⟩ := nvdIngestPage_ok h
  rw [(nvdSyncUpdate_tables hsync).2.1, ← hcov.items_eq hno]
  rfl

end Cytadel.Db
