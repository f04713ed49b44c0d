import Cytadel.Db.Processes
import Cytadel.Lib.Connections
import Cytadel.Proofs.CveKeys
import Cytadel.Proofs.FeedOrder
import Cytadel.Proofs.ScanAtomicity

/-!
# What holds of the database whatever is done with it

Every statement of the program makes one of a few changes to the tables, and
what it checks before the change comes with it. A process is a connection that
makes calls, in any order with those of the others, and any of its calls may
fail; the file it leaves has come about by such changes, one after the other.
So what each change keeps is true of every file: references and checks, keys
and row ids, and that nothing recorded is lost or recorded otherwise later.
-/

namespace Cytadel.Db

open Cytadel Lib Relation

variable {ρ : Type}

/-! ## One change -/

/-- A scan is running as long as it has no end. -/
structure ScanRow.Consistent (row : ScanRow) : Prop where
  running_iff : row.status = .running ↔ row.finishedAt = none
  malformed : 0 ≤ row.malformedDataCount

/-- What the row of a scan says of the authorization, and from when. -/
def ScanRow.authorization (row : ScanRow) :
    Bytes × Bytes × Bytes × Bytes × AuthorizationMethod × Option Bytes :=
  (row.startedAt, row.targetSpec, row.authorizedBy, row.authorizationConfirmedAt,
    row.authorizationMethod, row.notes)

/-- A later state of the row of one scan. -/
structure ScanRow.Later (row row' : ScanRow) : Prop where
  authorization : row'.authorization = row.authorization
  malformed : row.malformedDataCount ≤ row'.malformedDataCount
  finished : row.finishedAt ≠ none → row'.finishedAt ≠ none
  consistent : row.Consistent → row'.Consistent

/-- What one statement does to the tables, with what it has checked. -/
inductive Tables.Change : Tables → Tables → Prop
  | idle (d : Tables) : Change d d
  | cve {d : Tables} {id : Bytes} {row : CveRow} (hid : IsCveId id) (hcheck : row.check = true)
      (hold : ∀ old, d.cves id = some old → row.published = old.published ∧
        (old.source = ascii "nvd" → row.source = ascii "nvd")) :
      Change d { d with cves := Function.update d.cves id (some row) }
  | cpe {d : Tables} {row : CpeRow} (hid : row.id = nextRowId (d.cveCpeMatches.map (·.id)))
      (hcheck : row.check = true) (hkey : ∀ old ∈ d.cveCpeMatches, old.key ≠ row.key)
      (hcve : (d.cves row.cveId).isSome = true) :
      Change d { d with cveCpeMatches := d.cveCpeMatches ++ [row] }
  | kev {d : Tables} {id : Bytes} {row : KevRow} (hcheck : row.check = true)
      (href : (d.kev id).isSome = true ∨ (d.cves id).isSome = true) :
      Change d { d with kev := Function.update d.kev id (some row) }
  | epss {d : Tables} {id : Bytes} {row : EpssRow} (hcheck : row.check = true)
      (href : (d.epss id).isSome = true ∨ (d.cves id).isSome = true) :
      Change d { d with epss := Function.update d.epss id (some row) }
  | sync {d : Tables} (feed : Feed) (f : SyncState → SyncState) :
      Change d { d with
        syncState := Function.update d.syncState feed ((d.syncState feed).map f) }
  | result {d : Tables} {row : ScanResultRow}
      (hid : row.id = nextRowId (d.scanResults.map (·.id))) (hcheck : row.check = true)
      (hscan : (d.scans row.scanId).isSome = true)
      (hcve : ∀ id, row.cveId = some id → (d.cves id).isSome = true) :
      Change d { d with scanResults := d.scanResults ++ [row] }
  | create {d : Tables} {id : ℤ} {row : ScanRow} (hid : 0 < id) (hfree : d.scans id = none)
      (hrow : row.Consistent) :
      Change d { d with scans := Function.update d.scans id (some row) }
  | scan {d : Tables} {id : ℤ} {row row' : ScanRow} (hrow : d.scans id = some row)
      (hlater : row.Later row') :
      Change d { d with scans := Function.update d.scans id (some row') }

/-! ## The statements -/

theorem insertPlaceholder_change {id nowTs now : Bytes} {d d' : Tables} (hid : IsCveId id)
    (h : insertPlaceholder id nowTs now d = some d') : d.Change d' := by
  rw [insertPlaceholder_eq, Option.some.injEq, withPlaceholder] at h
  subst h
  cases hrow : d.cves id with
  | some row => exact .idle d
  | none =>
      refine .cve hid rfl fun old hold => ?_
      rw [hrow] at hold
      cases hold

theorem cveUpsert_change {r : CveRecord} {now : Bytes} {d d' : Tables} (hid : IsCveId r.cveId)
    (h : cveUpsert r now d = some d') : d.Change d' := by
  rw [cveUpsert] at h
  split at h
  · cases h
  · next hcheck =>
      have hcheck : (r.row now).check = true := by simpa using hcheck
      obtain rfl := Option.some.inj h
      cases hold : d.cves r.cveId with
      | none =>
          refine .cve hid hcheck fun old hrow => ?_
          rw [hold] at hrow
          cases hrow
      | some old =>
          refine .cve hid hcheck fun row hrow => ?_
          rw [hold] at hrow
          cases hrow
          exact ⟨rfl, fun _ => rfl⟩

theorem cpeInsert_change {cveId now : Bytes} {r : CpeRecord} {d d' : Tables}
    (h : cpeInsert cveId r now d = some d') : d.Change d' := by
  simp only [cpeInsert] at h
  split at h
  · cases h
  · next hcheck =>
      split at h
      · cases h
        exact .idle d
      · next hkey =>
          split at h
          · cases h
          · next hcve =>
              cases h
              refine .cpe rfl (by simpa using hcheck) (fun old hold heq => hkey ?_) ?_
              · exact List.any_eq_true.mpr ⟨old, hold, beq_iff_eq.mpr heq⟩
              · have hcve : ¬ d.cves cveId = none := by simpa using hcve
                exact Option.isSome_iff_ne_none.mpr hcve

theorem kevUpsert_change {r : KevRecord} {now : Bytes} {d d' : Tables}
    (h : kevUpsert r now d = some d') : d.Change d' := by
  rw [kevUpsert] at h
  split at h
  · cases h
  · next hcheck =>
      have hcheck : (r.row now).check = true := by simpa using hcheck
      cases hold : d.kev r.cveId with
      | some old =>
          rw [hold] at h
          cases h
          exact .kev hcheck (.inl (by rw [hold]; rfl))
      | none =>
          rw [hold] at h
          simp only at h
          split at h
          · cases h
          · next hcve =>
              cases h
              exact .kev hcheck (.inr (by simpa [Option.isSome_iff_ne_none] using hcve))

theorem epssUpsert_change {r : EpssRecord} {now : Bytes} {d d' : Tables}
    (h : epssUpsert r now d = some d') : d.Change d' := by
  rw [epssUpsert] at h
  split at h
  · cases h
  · next hcheck =>
      split at h
      · cases h
      · next href =>
          cases h
          refine .epss (by simpa using hcheck) ?_
          rw [Bool.and_eq_true, Option.isNone_iff_eq_none, Option.isNone_iff_eq_none,
            not_and_or] at href
          exact href.imp Option.isSome_iff_ne_none.mpr Option.isSome_iff_ne_none.mpr

theorem insertResult_change {row : ScanResultRow} {now : Bytes} {d d' : Tables}
    (h : insertResult row now d = some d') : d.Change d' := by
  obtain ⟨hscan, hcve, id, hid, hcheck, rfl⟩ := insertResult_eq h
  exact .result hid hcheck hscan hcve

/-- An update of the row of a scan; without the row it changes nothing. -/
theorem scan_change {scanId : ℤ} {f : ScanRow → ScanRow} (hf : ∀ row : ScanRow, row.Later (f row))
    (d : Tables) :
    d.Change { d with scans := Function.update d.scans scanId ((d.scans scanId).map f) } := by
  cases hrow : d.scans scanId with
  | none =>
      have hsame : Function.update d.scans scanId none = d.scans := by
        rw [← hrow, Function.update_eq_self]
      rw [Option.map_none, hsame]
      exact .idle d
  | some row => exact .scan hrow (hf row)

theorem malformedCountUpdate_change {scanId : ℤ} {n : ℕ} {now : Bytes} {d d' : Tables}
    (h : malformedCountUpdate scanId n now d = some d') : d.Change d' := by
  obtain rfl := Option.some.inj h
  refine scan_change (fun row => ?_) d
  have hle : row.malformedDataCount ≤ row.malformedDataCount + n := by omega
  exact ⟨rfl, hle, id, fun hrow => ⟨hrow.running_iff, hrow.malformed.trans hle⟩⟩

theorem finalizeUpdate_change {scanId : ℤ} {status : FinalizeStatus} {now : Bytes} {d d' : Tables}
    (h : finalizeUpdate scanId status now d = some d') : d.Change d' := by
  obtain rfl := Option.some.inj h
  have hlater : ∀ row : ScanRow,
      row.Later { row with status := status.column, finishedAt := some now } := fun row =>
    { authorization := rfl
      malformed := le_refl _
      finished := fun _ => by simp
      consistent := fun hrow =>
        ⟨by cases status <;> simp [FinalizeStatus.column], hrow.malformed⟩ }
  exact scan_change hlater d

theorem nvdSyncUpdate_change {endDate : Bytes} {complete : Bool} {records : ℕ} {now : Bytes}
    {d d' : Tables} (h : nvdSyncUpdate endDate complete records now d = some d') :
    d.Change d' := by
  obtain rfl := Option.some.inj h
  exact .sync .nvd _

theorem recordSyncUpdate_change {feed : Feed} {complete : Bool} {records : ℕ} {now : Bytes}
    {d d' : Tables} (h : recordSyncUpdate feed complete records now d = some d') :
    d.Change d' := by
  obtain rfl := Option.some.inj h
  exact .sync feed _

/-! ## The calls -/

theorem readCve_isCveId {e : Json} {r : CveRecord} (h : readCve e = some r) :
    IsCveId r.cveId := by
  have hid : acceptedId .nvd (.reading []) e = some r.cveId := by rw [acceptedId, h]; rfl
  obtain ⟨s, -, -, hr⟩ := acceptedId_eq hid
  exact hr

theorem readKev_isCveId {e : Json} {r : KevRecord} (h : readKev e = some r) :
    IsCveId r.cveId := by
  simp only [readKev, Option.bind_eq_bind, Option.bind_eq_some_iff, Option.pure_def,
    Option.some.injEq] at h
  obtain ⟨id, hid, _, -, _, -, _, -, _, -, rfl⟩ := h
  obtain ⟨s, -, -, hr⟩ := readCveId_eq hid
  exact hr

theorem readEpss_isCveId {w : World} {e : Json} {r : EpssRecord} (h : readEpss w e = some r) :
    IsCveId r.cveId := by
  simp only [readEpss, Option.bind_eq_bind, Option.bind_eq_some_iff, Option.pure_def,
    Option.some.injEq] at h
  obtain ⟨id, hid, _, -, _, -, _, -, rfl⟩ := h
  obtain ⟨s, -, -, hr⟩ := readCveId_eq hid
  exact hr

theorem processCpeMatches_changes (cveId : Bytes) (ms : List Json) (st : ℕ × NvdCounts) :
    (processCpeMatches cveId ms st).Writes Tables.Change := by
  have hone : ∀ m c, (processOneCpeMatch cveId m c).Writes Tables.Change := by
    intro m c
    rw [processOneCpeMatch]
    cases readCpeMatch m with
    | none => trivial
    | some r =>
        refine Prog.Writes.bind (Prog.attemptAll_writes _ _) fun ok => ?_
        cases ok with
        | false => trivial
        | true =>
            refine Prog.Writes.bind (Prog.exec_writes fun _ _ _ => cpeInsert_change) fun step => ?_
            cases step <;> trivial
  induction ms generalizing st with
  | nil => trivial
  | cons m ms ih =>
      obtain ⟨budget, c⟩ := st
      cases budget with
      | zero => exact ih _
      | succ budget =>
          rw [processCpeMatches]
          split
          · exact ih _
          · refine Prog.Writes.bind (hone m c) fun r => ?_
            split
            · trivial
            · exact ih _

theorem processNodes_changes (cveId : Bytes) (nodes : List Json) (st : ℕ × NvdCounts) :
    (processNodes cveId nodes st).Writes Tables.Change := by
  induction nodes generalizing st with
  | nil => trivial
  | cons node nodes ih =>
      have hnode : (processCpeNode cveId node st).Writes Tables.Change := by
        rw [processCpeNode]
        cases jsonGetArray (some node) (ascii "cpeMatch") with
        | none => trivial
        | some entries => exact processCpeMatches_changes cveId entries st
      rw [processNodes]
      split
      · exact ih _
      · refine Prog.Writes.bind hnode fun r => ?_
        split
        · trivial
        · exact ih _

theorem processConfigurations_changes (cveId : Bytes) (configs : List Json)
    (st : ℕ × NvdCounts) : (processConfigurations cveId configs st).Writes Tables.Change := by
  induction configs generalizing st with
  | nil => trivial
  | cons config configs ih =>
      rw [processConfigurations]
      cases jsonGetArray (some config) (ascii "nodes") with
      | none => exact ih _
      | some nodes =>
          refine Prog.Writes.bind (processNodes_changes cveId nodes st) fun r => ?_
          split
          · trivial
          · exact ih _

theorem processOneCve_changes (e : Json) (c : NvdCounts) :
    (processOneCve e c).Writes Tables.Change := by
  rw [processOneCve]
  cases hr : readCve e with
  | none => trivial
  | some r =>
      refine Prog.Writes.bind (Prog.attemptAll_writes _ _) fun ok => ?_
      cases ok with
      | false => trivial
      | true =>
          refine Prog.Writes.bind
            (Prog.exec_writes fun _ _ _ => cveUpsert_change (readCve_isCveId hr)) fun step => ?_
          cases step with
          | constraint => trivial
          | error => trivial
          | done =>
              simp only
              cases jsonGetArray (jsonGetItem (some e) (ascii "cve")) (ascii "configurations") with
              | none => trivial
              | some configs =>
                  exact Prog.Writes.bind (processConfigurations_changes _ _ _) fun _ => trivial

theorem writeWithPlaceholder_changes {cveId : Bytes} {st : Stmt} {binds : ℕ}
    {upsert : Bytes → Tables → Option Tables} (hid : IsCveId cveId)
    (hup : ∀ now d d', upsert now d = some d' → d.Change d') (c : RecordCounts) :
    (writeWithPlaceholder cveId st binds upsert c).Writes Tables.Change := by
  refine Prog.Writes.bind (Prog.timestamp_writes _) fun o => ?_
  cases o with
  | none => trivial
  | some nowTs =>
      refine Prog.Writes.bind (Prog.attemptAll_writes _ _) fun ok => ?_
      cases ok with
      | false => trivial
      | true =>
          refine Prog.Writes.bind
            (Prog.exec_writes fun _ _ _ => insertPlaceholder_change hid) fun step => ?_
          cases step with
          | constraint => trivial
          | error => trivial
          | done =>
              refine Prog.Writes.bind (Prog.attemptAll_writes _ _) fun ok => ?_
              cases ok with
              | false => trivial
              | true =>
                  refine Prog.Writes.bind (Prog.exec_writes hup) fun step => ?_
                  cases step <;> trivial

theorem processOneKev_changes (e : Json) (c : RecordCounts) :
    (processOneKev e c).Writes Tables.Change := by
  rw [processOneKev]
  split
  · trivial
  · cases hr : readKev e with
    | none => trivial
    | some r =>
        exact writeWithPlaceholder_changes (readKev_isCveId hr)
          (fun _ _ _ => kevUpsert_change) c

theorem processOneEpss_changes (w : World) (e : Json) (c : RecordCounts) :
    (processOneEpss w e c).Writes Tables.Change := by
  rw [processOneEpss]
  split
  · trivial
  · cases hr : readEpss w e with
    | none => trivial
    | some r =>
        exact writeWithPlaceholder_changes (readEpss_isCveId hr)
          (fun _ _ _ => epssUpsert_change) c

section Calls

variable {R : Tables → Tables → Prop} {d : Tables} {s : Session Tables ρ}

/-- An ingest whose records and whose sync update go along a relation. -/
theorem FeedSpec.ingest_within {C : Type} {f : FeedSpec C} (h : s.Within R d)
    (hf : ∀ e c, (f.processOne e c).Writes R)
    (hsync : ∀ n now d d', f.syncUpdate n now d = some d' → R d d') (w : World)
    (bytes : Bytes) : (f.ingest w bytes s).session.Within R d := by
  have hsyncs : ∀ c, (f.updateSyncState c).Writes R := by
    intro c
    refine Prog.Writes.bind (Prog.attemptAll_writes _ _) fun ok => ?_
    cases ok with
    | false => trivial
    | true => exact Prog.Writes.bind (Prog.exec_writes (hsync _)) fun _ => trivial
  have hparsed : (parseJson w bytes s).2.Within R d := h.tick
  rw [FeedSpec.ingest]
  split
  · exact h
  · simp only
    split
    · exact hparsed
    · next elems _ =>
        have hbegun := hparsed.begin w.env .begin
        have hprepared := hbegun.run (prepareStatements_writes f.stmts) w.env
        have hlooped := hprepared.run (FeedSpec.ingestRecords_writes hf elems f.maxRecords f.zero)
          w.env
        have hsynced := hlooped.run (hsyncs
          ((f.ingestRecords elems f.maxRecords f.zero).run w.env
            ((prepareStatements f.stmts).run w.env
              ((parseJson w bytes s).2.begin w.env .begin).2).2).1.1) w.env
        split
        · exact hbegun
        · split
          · exact hprepared.rollback w.env .rollback
          · split
            · exact hlooped.rollback w.env .rollback
            · split
              · exact hsynced.rollback w.env .rollback
              · split
                · exact (hsynced.commit w.env .commit).rollback w.env .rollback
                · exact hsynced.commit w.env .commit

theorem nvdIngestPage_within (h : s.Within Tables.Change d) (w : World)
    (bytes endDate : Bytes) (complete : Bool) :
    (nvdIngestPage w bytes endDate complete s).session.Within Tables.Change d := by
  rw [nvdIngestPage]
  split
  · exact h
  · exact FeedSpec.ingest_within h processOneCve_changes (fun _ _ _ _ => nvdSyncUpdate_change) w
      bytes

theorem kevIngest_within (h : s.Within Tables.Change d) (w : World) (bytes : Bytes)
    (complete : Bool) : (kevIngest w bytes complete s).session.Within Tables.Change d :=
  FeedSpec.ingest_within h processOneKev_changes (fun _ _ _ _ => recordSyncUpdate_change) w bytes

theorem epssIngest_within (h : s.Within Tables.Change d) (w : World) (bytes : Bytes)
    (complete : Bool) : (epssIngest w bytes complete s).session.Within Tables.Change d :=
  FeedSpec.ingest_within h (processOneEpss_changes w) (fun _ _ _ _ => recordSyncUpdate_change) w
    bytes

/-- The CVE that a finding is stored with is one by the grammar. -/
theorem effectiveCveId_isCveId {f : Finding} {id : Bytes} (h : f.effectiveCveId = some id) :
    IsCveId id := by
  rw [Finding.effectiveCveId, Option.filter_eq_some_iff] at h
  exact isCveId_of_valid h.2

theorem findingBody_changes (scanId : ℤ) (f : Finding) (snapshot : ℤ × Option ℚ) :
    (findingBody scanId f snapshot).Writes Tables.Change := by
  have hplaced : (findingPlaceholder f.effectiveCveId).Writes Tables.Change := by
    cases hid : f.effectiveCveId with
    | none => trivial
    | some id =>
        refine Prog.Writes.bind (Prog.timestamp_writes _) fun o => ?_
        cases o with
        | none => trivial
        | some nowTs =>
            refine Prog.Writes.bind (Prog.attempt_writes _) fun ok => ?_
            split
            · trivial
            · refine Prog.Writes.bind (Prog.attemptAll_writes _ _) fun ok => ?_
              split
              · trivial
              · refine Prog.Writes.bind (Prog.exec_writes fun _ _ _ =>
                  insertPlaceholder_change (effectiveCveId_isCveId hid)) fun step => ?_
                cases step <;> trivial
  refine Prog.Writes.bind hplaced fun placed => ?_
  split
  · trivial
  · refine Prog.Writes.bind (Prog.attempt_writes _) fun ok => ?_
    split
    · trivial
    · refine Prog.Writes.bind (Prog.attemptAll_writes _ _) fun ok => ?_
      split
      · trivial
      · refine Prog.Writes.bind (Prog.exec_writes fun _ _ _ => insertResult_change) fun step => ?_
        cases step <;> trivial

theorem scanPersistFinding_within (h : s.Within R d) (env : Env Call Bytes) {scanId : ℤ}
    {f : Finding} (hwrites : ∀ values, (findingBody scanId f values).Writes R) :
    (scanPersistFinding env scanId f s).2.Within R d := by
  rw [scanPersistFinding]
  split
  · exact h
  · have hread := h.run (findingSnapshot_writes f.effectiveCveId) env
    simp only
    split
    · exact hread
    · next values _ =>
        have hbegun := hread.begin env .begin
        have hbody := hbegun.run (hwrites values) env
        split
        · exact hbegun
        · split
          · exact hbody.rollback env .rollback
          · split
            · exact (hbody.commit env .commit).rollback env .rollback
            · exact hbody.commit env .commit

theorem scanDetectAndPersist_within (h : s.Within R d) (env : Env Call Bytes) {scanId : ℤ}
    {det : Detection} (hwrites : ∀ vendor product, (detectBody scanId vendor product det).Writes R)
    (vendor product : Bytes) :
    (scanDetectAndPersist env scanId vendor product det s).session.Within R d := by
  rw [scanDetectAndPersist]
  split
  · exact h
  · split
    · next vendorLc productLc _ _ =>
        have hbegun := h.begin env .begin
        have hbody := hbegun.run (hwrites vendorLc productLc) env
        simp only
        split
        · exact hbegun
        · split
          · exact hbody.rollback env .rollback
          · split
            · exact (hbody.commit env .commit).rollback env .rollback
            · exact hbody.commit env .commit
    · exact h

theorem scanFinalize_within (h : s.Within R d) (env : Env Call Bytes) {scanId : ℤ}
    {status : FinalizeStatus}
    (hupdate : ∀ now d d', finalizeUpdate scanId status now d = some d' → R d d') :
    (scanFinalize env scanId status s).2.Within R d := by
  have hbody : (finalizeBody scanId status).Writes R := by
    refine Prog.Writes.bind (Prog.attempt_writes _) fun ok => ?_
    split
    · trivial
    · refine Prog.Writes.bind (Prog.attemptAll_writes _ _) fun ok => ?_
      split
      · trivial
      · refine ⟨fun f hf now d d' h => ?_, fun r => ?_⟩
        · cases hf
          exact hupdate now d d' h
        · cases r <;> trivial
  rw [scanFinalize]
  split
  · exact h
  · exact h.run hbody env

/-- The row of a new scan, under a key that is not in use when it is inserted. -/
theorem scanCreate_within (h : s.Within Tables.Change d) (env : Env Call Bytes) {scanId : ℤ}
    (targetSpec authorizedBy : Bytes) (method : AuthorizationMethod) (hid : 0 < scanId)
    (hfree : s.view.scans scanId = none) :
    ((scanCreate scanId targetSpec authorizedBy method).run env s).2.Within Tables.Change d := by
  rw [scanCreate, Prog.run_bind, Prog.run_attempt]
  cases env.fault s.calls (.prepare .scanInsert) with
  | true => exact h.tick
  | false =>
      obtain ⟨b, n, hbinds⟩ := Prog.run_attemptAll env (.bind .scanInsert) 3 s.tick
      simp only [Bool.not_false, if_true]
      rw [Prog.run_bind, hbinds]
      cases b with
      | false => exact h.of_eq rfl rfl
      | true =>
          have hcounted : Session.Within Tables.Change d { s.tick with calls := n } :=
            h.of_eq rfl rfl
          refine (hcounted.call env (.step .scanInsert)
            (w := some (insertScan scanId targetSpec authorizedBy method)) ?_).run ?_ env
          · intro f hf now new hnew
            cases hf
            obtain rfl := Option.some.inj hnew
            exact .create hid hfree ⟨by simp [newScanRow], le_refl _⟩
          · generalize (Session.call env (.step .scanInsert) _ _).1 = reply
            cases reply <;> trivial

theorem detectBody_changes (scanId : ℤ) (det : Detection) (vendor product : Bytes) :
    (detectBody scanId vendor product det).Writes Tables.Change :=
  detectBody_writes (fun _ _ _ _ _ => insertResult_change)
    (fun _ _ _ _ => malformedCountUpdate_change) vendor product det

theorem DbCall.run_within (h : s.Within Tables.Change d) (c : DbCall) :
    (c.run s).Within Tables.Change d := by
  cases c with
  | nvdPage w bytes endDate complete => exact nvdIngestPage_within h w bytes endDate complete
  | kev w bytes complete => exact kevIngest_within h w bytes complete
  | epss w bytes complete => exact epssIngest_within h w bytes complete
  | finding env scanId f => exact scanPersistFinding_within h env (findingBody_changes scanId f)
  | detection env scanId vendor product det =>
      exact scanDetectAndPersist_within h env (detectBody_changes scanId det) vendor product
  | finalize env scanId status =>
      exact scanFinalize_within h env fun _ _ _ => finalizeUpdate_change
  | create env scanId targetSpec authorizedBy method =>
      rw [DbCall.run]
      split
      · next hnew =>
          exact scanCreate_within h env targetSpec authorizedBy method hnew.1
            (Option.isNone_iff_eq_none.mp hnew.2)
      · exact h

end Calls

/-! ## The database is sound -/

theorem le_nextRowId {ids : List ℕ} {id : ℕ} (h : id ∈ ids) : id < nextRowId ids := by
  have hfold : ∀ (ids : List ℕ) (m : ℕ),
      m ≤ ids.foldl max m ∧ ∀ id ∈ ids, id ≤ ids.foldl max m := by
    intro ids
    induction ids with
    | nil => simp
    | cons i ids ih =>
        intro m
        obtain ⟨hstart, hall⟩ := ih (max m i)
        refine ⟨le_trans (le_max_left m i) hstart, fun id hid => ?_⟩
        rcases List.mem_cons.mp hid with rfl | hid
        · exact le_trans (le_max_right m id) hstart
        · exact hall id hid
  exact Nat.lt_succ_of_le ((hfold ids 0).2 id h)

/-- A row with the next id keeps the ids ascending. -/
theorem pairwise_nextRowId {ids : List ℕ} (h : ids.Pairwise (· < ·)) :
    (ids ++ [nextRowId ids]).Pairwise (· < ·) := by
  rw [List.pairwise_append]
  refine ⟨h, List.pairwise_singleton _ _, fun id hid new hnew => ?_⟩
  obtain rfl := List.mem_singleton.mp hnew
  exact le_nextRowId hid

/-- What is true of the database at any time. -/
structure Tables.Sound (d : Tables) : Prop where
  conforms : d.Conforms
  /-- Every key of `cves` is a CVE id. -/
  cveIds : ∀ id, (d.cves id).isSome = true → IsCveId id
  /-- The UNIQUE clause of `cve_cpe_matches`. -/
  cpeKeys : (d.cveCpeMatches.map CpeRow.key).Nodup
  cpeRowIds : (d.cveCpeMatches.map (·.id)).Pairwise (· < ·)
  resultRowIds : (d.scanResults.map (·.id)).Pairwise (· < ·)
  /-- The rows that the first migration seeds stay. -/
  feeds : ∀ feed, (d.syncState feed).isSome = true
  scans : ∀ id row, d.scans id = some row → row.Consistent

theorem seeded_sound : Tables.seeded.Sound where
  conforms := by constructor <;> simp [Tables.seeded]
  cveIds := by simp [Tables.seeded]
  cpeKeys := List.nodup_nil
  cpeRowIds := .nil
  resultRowIds := .nil
  feeds _ := rfl
  scans := by simp [Tables.seeded]

theorem isSome_update {α β : Type} [DecidableEq α] (f : α → Option β) (a : α) (b : β) {x : α}
    (h : (f x).isSome = true) : (Function.update f a (some b) x).isSome = true := by
  by_cases hx : x = a
  · subst hx
    simp
  · rw [Function.update_of_ne hx]
    exact h

/-- A row of the updated table is the new one or an old one. -/
theorem eq_of_update {α β : Type} [DecidableEq α] {f : α → Option β} {a x : α} {b y : β}
    (h : Function.update f a (some b) x = some y) : (x = a ∧ y = b) ∨ f x = some y := by
  by_cases hx : x = a
  · subst hx
    rw [Function.update_self] at h
    exact .inl ⟨rfl, (Option.some.inj h).symm⟩
  · rw [Function.update_of_ne hx] at h
    exact .inr h

theorem forall_mem_append_singleton {α : Type} {P : α → Prop} {l : List α} {a : α}
    (hl : ∀ x ∈ l, P x) (ha : P a) : ∀ x ∈ l ++ [a], P x := by
  intro x hx
  rcases List.mem_append.mp hx with hx | hx
  · exact hl x hx
  · exact List.mem_singleton.mp hx ▸ ha

theorem Tables.Change.conforms {d d' : Tables} (h : d.Change d') (hd : d.Conforms) :
    d'.Conforms := by
  cases h with
  | idle => exact hd
  | sync feed f => exact { hd with }
  | @cve id row hid hcheck hold =>
      -- a reference to `cves` finds its row as before
      have hsome : ∀ {x}, (d.cves x).isSome = true →
          (Function.update d.cves id (some row) x).isSome = true := isSome_update d.cves id row
      refine ⟨fun x r hr => ?_, fun r hr => ?_, fun x r hr => ?_, fun x r hr => ?_, hd.scans,
        fun r hr => ?_⟩
      · rcases eq_of_update hr with ⟨-, rfl⟩ | hr
        · exact hcheck
        · exact hd.cves x r hr
      · exact (hd.cpe r hr).imp_right hsome
      · exact (hd.kev x r hr).imp_right hsome
      · exact (hd.epss x r hr).imp_right hsome
      · obtain ⟨hcheck, hscan, hcve⟩ := hd.results r hr
        exact ⟨hcheck, hscan, fun x hx => hsome (hcve x hx)⟩
  | cpe hid hcheck hkey hcve =>
      exact { hd with cpe := forall_mem_append_singleton hd.cpe ⟨hcheck, hcve⟩ }
  | @kev id row hcheck href =>
      refine { hd with kev := fun x r hr => ?_ }
      rcases eq_of_update hr with ⟨rfl, rfl⟩ | hr
      · refine ⟨hcheck, href.elim (fun hkev => ?_) fun hcve => hcve⟩
        obtain ⟨old, hold⟩ := Option.isSome_iff_exists.mp hkev
        exact (hd.kev x old hold).2
      · exact hd.kev x r hr
  | @epss id row hcheck href =>
      refine { hd with epss := fun x r hr => ?_ }
      rcases eq_of_update hr with ⟨rfl, rfl⟩ | hr
      · refine ⟨hcheck, href.elim (fun hepss => ?_) fun hcve => hcve⟩
        obtain ⟨old, hold⟩ := Option.isSome_iff_exists.mp hepss
        exact (hd.epss x old hold).2
      · exact hd.epss x r hr
  | result hid hcheck hscan hcve =>
      exact { hd with
        results := forall_mem_append_singleton hd.results ⟨hcheck, hscan, hcve⟩ }
  | @create id row hid hfree hrow =>
      refine { hd with scans := fun x hx => ?_, results := fun r hr => ?_ }
      · obtain ⟨r, hr⟩ := Option.isSome_iff_exists.mp hx
        rcases eq_of_update hr with ⟨rfl, -⟩ | hr
        · exact hid
        · exact hd.scans x (by rw [hr]; rfl)
      · exact (hd.results r hr).imp_right (And.imp_left (isSome_update d.scans id row))
  | @scan id row row' hrow hlater =>
      refine { hd with scans := fun x hx => ?_, results := fun r hr => ?_ }
      · obtain ⟨r, hr⟩ := Option.isSome_iff_exists.mp hx
        rcases eq_of_update hr with ⟨rfl, -⟩ | hr
        · exact hd.scans x (by rw [hrow]; rfl)
        · exact hd.scans x (by rw [hr]; rfl)
      · exact (hd.results r hr).imp_right (And.imp_left (isSome_update d.scans id row'))

/-- Every change keeps the database sound. -/
theorem Tables.Change.sound {d d' : Tables} (h : d.Change d') (hd : d.Sound) : d'.Sound := by
  have hconforms := h.conforms hd.conforms
  cases h with
  | idle => exact hd
  | sync feed f =>
      refine { hd with conforms := hconforms, feeds := fun other => ?_ }
      obtain ⟨st, hst⟩ := Option.isSome_iff_exists.mp (hd.feeds feed)
      rw [hst, Option.map_some]
      exact isSome_update d.syncState feed (f st) (hd.feeds other)
  | cve hid hcheck hold =>
      refine { hd with conforms := hconforms, cveIds := fun x hx => ?_ }
      obtain ⟨r, hr⟩ := Option.isSome_iff_exists.mp hx
      rcases eq_of_update hr with ⟨rfl, -⟩ | hr
      · exact hid
      · exact hd.cveIds x (by rw [hr]; rfl)
  | cpe hid hcheck hkey hcve =>
      refine { hd with conforms := hconforms, cpeKeys := ?_, cpeRowIds := ?_ }
      · rw [List.map_append, List.map_singleton, List.nodup_append]
        refine ⟨hd.cpeKeys, List.nodup_singleton _, fun key hkeys new hnew heq => ?_⟩
        obtain ⟨old, hold, rfl⟩ := List.mem_map.mp hkeys
        exact hkey old hold (heq.trans (List.mem_singleton.mp hnew))
      · rw [List.map_append, List.map_singleton, hid]
        exact pairwise_nextRowId hd.cpeRowIds
  | kev hcheck href => exact { hd with conforms := hconforms }
  | epss hcheck href => exact { hd with conforms := hconforms }
  | result hid hcheck hscan hcve =>
      refine { hd with conforms := hconforms, resultRowIds := ?_ }
      rw [List.map_append, List.map_singleton, hid]
      exact pairwise_nextRowId hd.resultRowIds
  | create hid hfree hrow =>
      refine { hd with conforms := hconforms, scans := fun x r hr => ?_ }
      rcases eq_of_update hr with ⟨-, rfl⟩ | hr
      · exact hrow
      · exact hd.scans x r hr
  | @scan id row row' hrow hlater =>
      refine { hd with conforms := hconforms, scans := fun x r hr => ?_ }
      rcases eq_of_update hr with ⟨-, rfl⟩ | hr
      · exact hlater.consistent (hd.scans id row hrow)
      · exact hd.scans x r hr

/-! ## Nothing is lost -/

/-- What a later state of the database has of an earlier one. -/
structure Tables.Keeps (d d' : Tables) : Prop where
  /-- A row of `cves` stays; its first `published` stands, and a record of the
  NVD feed does not become a placeholder. -/
  cves : ∀ id row, d.cves id = some row → ∃ row', d'.cves id = some row' ∧
    row'.published = row.published ∧ (row.source = ascii "nvd" → row'.source = ascii "nvd")
  kev : ∀ id, (d.kev id).isSome = true → (d'.kev id).isSome = true
  epss : ∀ id, (d.epss id).isSome = true → (d'.epss id).isSome = true
  cpes : d.cveCpeMatches <+: d'.cveCpeMatches
  results : d.scanResults <+: d'.scanResults
  /-- The row of a scan stays, with what it says of the authorization. -/
  scans : ∀ id row, d.scans id = some row → ∃ row', d'.scans id = some row' ∧ row.Later row'

theorem ScanRow.Later.refl (row : ScanRow) : row.Later row where
  authorization := rfl
  malformed := le_refl _
  finished := id
  consistent := id

theorem ScanRow.Later.trans {a b c : ScanRow} (h : a.Later b) (h' : b.Later c) : a.Later c where
  authorization := h'.authorization.trans h.authorization
  malformed := h.malformed.trans h'.malformed
  finished hfinished := h'.finished (h.finished hfinished)
  consistent hrow := h'.consistent (h.consistent hrow)

theorem Tables.Keeps.refl (d : Tables) : d.Keeps d where
  cves _ row hrow := ⟨row, hrow, rfl, id⟩
  kev _ := id
  epss _ := id
  cpes := List.prefix_rfl
  results := List.prefix_rfl
  scans _ row hrow := ⟨row, hrow, .refl row⟩

theorem Tables.Keeps.trans {a b c : Tables} (h : a.Keeps b) (h' : b.Keeps c) : a.Keeps c where
  cves id row hrow := by
    obtain ⟨row', hrow', hpub, hsource⟩ := h.cves id row hrow
    obtain ⟨row'', hrow'', hpub', hsource'⟩ := h'.cves id row' hrow'
    exact ⟨row'', hrow'', hpub'.trans hpub, fun hnvd => hsource' (hsource hnvd)⟩
  kev id hid := h'.kev id (h.kev id hid)
  epss id hid := h'.epss id (h.epss id hid)
  cpes := h.cpes.trans h'.cpes
  results := h.results.trans h'.results
  scans id row hrow := by
    obtain ⟨row', hrow', hlater⟩ := h.scans id row hrow
    obtain ⟨row'', hrow'', hlater'⟩ := h'.scans id row' hrow'
    exact ⟨row'', hrow'', hlater.trans hlater'⟩

theorem Tables.Change.keeps {d d' : Tables} (h : d.Change d') : d.Keeps d' := by
  cases h with
  | idle => exact .refl d
  | sync feed f => exact { Tables.Keeps.refl d with }
  | @cve id row hid hcheck hold =>
      refine { Tables.Keeps.refl d with cves := fun x old hx => ?_ }
      by_cases heq : x = id
      · subst heq
        obtain ⟨hpub, hsource⟩ := hold old hx
        exact ⟨row, Function.update_self .., hpub, hsource⟩
      · exact ⟨old, by simp only [Function.update_of_ne heq, hx], rfl, fun hnvd => hnvd⟩
  | cpe hid hcheck hkey hcve =>
      exact { Tables.Keeps.refl d with cpes := List.prefix_append _ _ }
  | @kev id row hcheck href =>
      exact { Tables.Keeps.refl d with kev := fun _ => isSome_update d.kev id row }
  | @epss id row hcheck href =>
      exact { Tables.Keeps.refl d with epss := fun _ => isSome_update d.epss id row }
  | result hid hcheck hscan hcve =>
      exact { Tables.Keeps.refl d with results := List.prefix_append _ _ }
  | @create id row hid hfree hrow =>
      refine { Tables.Keeps.refl d with scans := fun x old hx => ?_ }
      have hne : x ≠ id := by
        intro heq
        rw [heq, hfree] at hx
        cases hx
      exact ⟨old, by simp only [Function.update_of_ne hne, hx], .refl old⟩
  | @scan id row row' hrow hlater =>
      refine { Tables.Keeps.refl d with scans := fun x old hx => ?_ }
      by_cases heq : x = id
      · subst heq
        rw [hrow] at hx
        cases hx
        exact ⟨row', Function.update_self .., hlater⟩
      · exact ⟨old, by simp only [Function.update_of_ne heq, hx], .refl old⟩

theorem Tables.Sound.reached {d d' : Tables} (hd : d.Sound)
    (h : ReflTransGen Tables.Change d d') : d'.Sound := by
  induction h with
  | refl => exact hd
  | tail _ hstep ih => exact hstep.sound ih

theorem Tables.Keeps.of_reached {d d' : Tables} (h : ReflTransGen Tables.Change d d') :
    d.Keeps d' := by
  induction h with
  | refl => exact .refl d
  | tail _ hstep ih => exact ih.trans hstep.keeps

/-! ## Any processes -/

/-- A process calls, or it ends. -/
inductive ProcessMove (ι : Type)
  | calls (i : ι) (c : DbCall)
  | closes (i : ι)

def ProcessMove.act {ι : Type} : ProcessMove ι → Store.Act ι Tables Unit
  | .calls i c => .does i fun s => c.run s
  | .closes i => .closes i

variable {ι : Type} [Fintype ι] [DecidableEq ι]

/-- The file and its connections after some moves of the processes. -/
def runProcesses (s : Store ι Tables) (moves : List (ProcessMove ι)) : Store ι Tables :=
  s.run (moves.map ProcessMove.act)

omit [Fintype ι] [DecidableEq ι] in
theorem ProcessMove.act_keeps (m : ProcessMove ι) : m.act.Keeps Tables.Change := by
  cases m with
  | calls i c => exact fun d s h => c.run_within h
  | closes i => trivial

theorem runProcesses_within {s : Store ι Tables} {d : Tables} (h : s.Within Tables.Change d)
    (moves : List (ProcessMove ι)) : (runProcesses s moves).Within Tables.Change d := by
  refine h.run fun a ha => ?_
  obtain ⟨m, -, rfl⟩ := List.mem_map.mp ha
  exact m.act_keeps

/-- Whatever the processes do from the first migration on, in whatever order and
with whatever failures, the file is sound. -/
theorem runProcesses_sound (moves : List (ProcessMove ι)) :
    (runProcesses (Store.fresh Tables.seeded) moves).committed.Sound :=
  seeded_sound.reached (runProcesses_within (Store.within_fresh Tables.seeded) moves).committed

/-- What the file says at some time it still says at any later one. -/
theorem runProcesses_keeps (moves later : List (ProcessMove ι)) :
    (runProcesses (Store.fresh Tables.seeded) moves).committed.Keeps
      (runProcesses (Store.fresh Tables.seeded) (moves ++ later)).committed := by
  have hwithin := runProcesses_within (Store.within_fresh Tables.seeded) moves
  have hself : (runProcesses (Store.fresh Tables.seeded) moves).Within Tables.Change
      (runProcesses (Store.fresh Tables.seeded) moves).committed := ⟨.refl, hwithin.copy⟩
  have hreach := (runProcesses_within hself later).committed
  have hsplit : runProcesses (Store.fresh Tables.seeded) (moves ++ later) =
      runProcesses (runProcesses (Store.fresh Tables.seeded) moves) later := by
    rw [runProcesses, runProcesses, runProcesses, List.map_append, Store.run, List.foldl_append]
    rfl
  rw [hsplit]
  exact .of_reached hreach

end Cytadel.Db
