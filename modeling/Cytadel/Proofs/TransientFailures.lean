import Cytadel.Proofs.CpeRevision
import Cytadel.Proofs.IngestCourse

/-!
# What a failing call can cost

An ingest that answers OK is meant to have lost nothing to a call that failed.
A failing bind of a record's own statement is not told from a malformed record:
the record is left out and the document is committed without it. The course of
the ingest says which records these are, and nothing is lost exactly when the
others make them good: for every id the same first and last row, for every key
the same first entry, and for every new id a placeholder.
-/

namespace Cytadel.Db

open Cytadel Lib

variable {C ρ α β Row : Type}

/-! ## The data of the tables -/

/-- The four tables of the feeds agree, up to the times of ingestion. -/
structure SameData (d d' : Tables) : Prop where
  cves : ∀ id, (d.cves id).map CveRow.unstamped = (d'.cves id).map CveRow.unstamped
  cpes : d.cveCpeMatches = d'.cveCpeMatches
  kev : ∀ id, (d.kev id).map KevRow.unstamped = (d'.kev id).map KevRow.unstamped
  epss : ∀ id, (d.epss id).map EpssRow.unstamped = (d'.epss id).map EpssRow.unstamped

/-- An ingest that answers OK leaves what it leaves when nothing fails. -/
def LosesNothing (ingest : World → IngestResult C ρ) (w : World) : Prop :=
  (ingest w).status = .ok →
    SameData (ingest w).session.committed (ingest w.faultless).session.committed

/-- Where the course of an ingest decides what it loses. -/
theorem losesNothing_iff_of {ingest : World → IngestResult C ρ} {w : World}
    {ends : Option (List β)} {good : List β → Prop}
    (hnone : ends = none → (ingest w).status ≠ .ok)
    (hsome : ∀ kept, ends = some kept → (ingest w).status = .ok ∧
      (SameData (ingest w).session.committed (ingest w.faultless).session.committed ↔
        good kept)) :
    LosesNothing ingest w ↔ ∀ kept, ends = some kept → good kept := by
  constructor
  · intro h kept hkept
    obtain ⟨hok, hiff⟩ := hsome kept hkept
    exact hiff.mp (h hok)
  · intro h hok
    cases hk : ends with
    | none => exact absurd hok (hnone hk)
    | some kept => exact (hsome kept hk).2.mpr (h kept hk)

/-! ## The rows of a CVE -/

def cveRowsOf (items : List CveItem) : List (Bytes × CveRow) :=
  items.map fun i => (i.1.cveId, i.1.row [])

def cpeItemsOf (items : List CveItem) : List CpeItem :=
  items.flatMap fun i => i.2.map fun q => (i.1.cveId, q)

/-- Two lists of rows for one place leave the same there, as far as the view
shows. -/
def SettleAlike (view : Row → Row) (merge : Row → Row → Row) (old : Option Row)
    (rows rows' : List Row) : Prop :=
  (settled merge old rows).map view = (settled merge old rows').map view

/-- Of all records of a page these were kept, and they say what the others
said: the last of them about an id, and the first where it had no row, and the
first entry of each key that the table did not have. -/
structure NvdMadeGood (d : Tables) (kept all : List CveItem) : Prop where
  cves : ∀ id, SettleAlike CveRow.unstamped CveRow.onConflict (d.cves id)
    (rowsAt id (cveRowsOf kept)) (rowsAt id (cveRowsOf all))
  cpes : firsts CpeItem.key (d.cveCpeMatches.map CpeRow.key) (cpeItemsOf kept) =
    firsts CpeItem.key (d.cveCpeMatches.map CpeRow.key) (cpeItemsOf all)

theorem CveRow.unstamped_undated (r : CveRow) : r.undated.unstamped = r.unstamped := by
  unfold CveRow.unstamped CveRow.undated
  split <;> rfl

/-- The writes of the kept records, as upserts and insertions. -/
theorem cveSteps_apply {kept : List CveItem} {d d' : Tables} (h : Steps CveWritten kept d d') :
    ∃ ups, d' = d.apply ups (cpeItemsOf kept) ∧
      ups.map (fun i => (i.1, i.2.undated)) = cveRowsOf kept := by
  induction h with
  | nil => exact ⟨[], rfl, rfl⟩
  | cons hone _ ih =>
      obtain ⟨now, rfl⟩ := hone
      obtain ⟨ups, rfl, hups⟩ := ih
      refine ⟨_ :: ups, Tables.apply_apply _ _ _ _ _, ?_⟩
      rw [List.map_cons, hups]
      rfl

/-- The tables of the feed after the kept records. -/
theorem cveSteps_tables {kept : List CveItem} {d d' : Tables} (h : Steps CveWritten kept d d') :
    (∀ id, (d'.cves id).map CveRow.unstamped =
      (settled CveRow.onConflict (d.cves id) (rowsAt id (cveRowsOf kept))).map
        CveRow.unstamped) ∧
    d'.cveCpeMatches = addCpes d.cveCpeMatches (cpeItemsOf kept) ∧
    d'.kev = d.kev ∧ d'.epss = d.epss := by
  obtain ⟨ups, rfl, hups⟩ := cveSteps_apply h
  refine ⟨fun id => ?_, rfl, rfl, rfl⟩
  have hview : ∀ o : Option CveRow,
      o.map CveRow.unstamped = (o.map CveRow.undated).map CveRow.unstamped := fun o => by
    rw [Option.map_map]
    exact Option.map_congr fun r _ => (CveRow.unstamped_undated r).symm
  have hrows : (rowsAt id (cveRowsOf kept)).map CveRow.undated = rowsAt id (cveRowsOf kept) := by
    rw [← rowsAt_map, cveRowsOf, List.map_map]
    rfl
  rw [hview, hview (settled _ _ _), settled_map CveRow.undated_onConflict, hrows, ← hups]
  exact congrArg _ (foldl_upsert_settled CveRow.onConflict_onConflict CveRow.onConflict_self
    CveRow.undated_onConflict ups d.cves id)

/-- The item that a row was built from. -/
def CpeRow.item (r : CpeRow) : CpeItem where
  fst := r.cveId
  snd :=
    { cpe23Uri := r.cpe23Uri
      part := r.part
      vendor := r.vendor
      product := r.product
      version := r.version
      versionStartIncluding := r.versionStartIncluding
      versionStartExcluding := r.versionStartExcluding
      versionEndIncluding := r.versionEndIncluding
      versionEndExcluding := r.versionEndExcluding
      vulnerable := r.vulnerable }

theorem CpeRow.item_build (tab : List CpeRow) (i : CpeItem) : (CpeItem.build tab i).item = i := rfl

theorem addCpes_eq_iff (tab : List CpeRow) (items items' : List CpeItem) :
    addCpes tab items = addCpes tab items' ↔
      firsts CpeItem.key (tab.map CpeRow.key) items =
        firsts CpeItem.key (tab.map CpeRow.key) items' := by
  have hpush : ∀ items, addCpes tab items =
      pushAll CpeItem.build tab (firsts CpeItem.key (tab.map CpeRow.key) items) := fun items =>
    foldl_addNew_firsts CpeItem.key_build fun _ => Iff.rfl
  rw [hpush, hpush]
  exact ⟨pushAll_inj CpeRow.item_build, fun h => by rw [h]⟩

/-- Two pages from the same tables left the same, if and only if the records
of one make good those of the other. -/
theorem sameData_cveSteps {kept all : List CveItem} {d d₁ d₂ : Tables}
    (h₁ : Steps CveWritten kept d d₁) (h₂ : Steps CveWritten all d d₂) :
    SameData d₁ d₂ ↔ NvdMadeGood d kept all := by
  obtain ⟨hcves₁, hcpes₁, hkev₁, hepss₁⟩ := cveSteps_tables h₁
  obtain ⟨hcves₂, hcpes₂, hkev₂, hepss₂⟩ := cveSteps_tables h₂
  constructor
  · intro h
    refine ⟨fun id => ?_, ?_⟩
    · rw [SettleAlike, ← hcves₁, ← hcves₂]
      exact h.cves id
    · rw [← addCpes_eq_iff, ← hcpes₁, ← hcpes₂]
      exact h.cpes
  · intro h
    refine ⟨fun id => ?_, ?_, fun id => by rw [hkev₁, hkev₂], fun id => by rw [hepss₁, hepss₂]⟩
    · rw [hcves₁, hcves₂]
      exact h.cves id
    · rw [hcpes₁, hcpes₂, addCpes_eq_iff]
      exact h.cpes

/-! ## The rows of the other feeds -/

namespace RecordTable

variable {T : RecordTable α Row}

/-- Of all records of a document these were kept, and they leave what the
others leave: a placeholder for the same new ids, and for each id the last row
and, where it had none, the first. -/
structure MadeGood (T : RecordTable α Row) (d : Tables) (kept : List (α × Bool))
    (all : List α) : Prop where
  placeholders : ∀ id, d.cves id = none →
    (id ∈ kept.map (fun i => T.idOf i.1) ↔ id ∈ all.map T.idOf)
  rows : ∀ id, SettleAlike T.unstamped T.merge (T.table d id)
    (rowsAt id (T.rowsOf (written kept))) (rowsAt id (T.rowsOf all))

/-- Two documents from the same tables left the same in `cves` and in the
table of the feed, if and only if the records of one make good those of the
other. -/
theorem steps_agree_iff {kept : List (α × Bool)} {all : List α} {d d₁ d₂ : Tables}
    (h₁ : Steps (RecordWritten T.idOf T.upsert) kept d d₁)
    (h₂ : Steps (RecordWritten T.idOf T.upsert) (all.map fun a => (a, true)) d d₂) :
    ((∀ id, (d₁.cves id).map CveRow.unstamped = (d₂.cves id).map CveRow.unstamped) ∧
      ∀ id, (T.table d₁ id).map T.unstamped = (T.table d₂ id).map T.unstamped) ↔
      T.MadeGood d kept all := by
  have hwritten : written (all.map fun a => (a, true)) = all := by
    simp [written, List.filter_map, Function.comp_def]
  have hids : (all.map fun a => (a, true)).map (fun i => T.idOf i.1) = all.map T.idOf := by
    rw [List.map_map]
    rfl
  have hcves : ∀ id, ((d₁.cves id).map CveRow.unstamped = (d₂.cves id).map CveRow.unstamped ↔
      (d.cves id = none → (id ∈ kept.map (fun i => T.idOf i.1) ↔ id ∈ all.map T.idOf))) := by
    intro id
    rw [steps_cves h₁, steps_cves h₂, hids]
    cases hold : d.cves id with
    | some row => simp
    | none =>
        by_cases hk : id ∈ kept.map (fun i => T.idOf i.1) <;>
          by_cases ha : id ∈ all.map T.idOf <;> simp [hk, ha]
  have hrows : ∀ id, ((T.table d₁ id).map T.unstamped = (T.table d₂ id).map T.unstamped ↔
      SettleAlike T.unstamped T.merge (T.table d id) (rowsAt id (T.rowsOf (written kept)))
        (rowsAt id (T.rowsOf all))) := by
    intro id
    rw [steps_rows h₁, steps_rows h₂, hwritten, SettleAlike]
  constructor
  · intro h
    exact ⟨fun id => (hcves id).mp (h.1 id), fun id => (hrows id).mp (h.2 id)⟩
  · intro h
    exact ⟨fun id => (hcves id).mpr (h.placeholders id), fun id => (hrows id).mpr (h.rows id)⟩

end RecordTable

theorem sameData_kevSteps {kept : List (KevRecord × Bool)} {all : List KevRecord}
    {d d₁ d₂ : Tables} (h₁ : Steps (RecordWritten KevRecord.cveId kevUpsert) kept d d₁)
    (h₂ : Steps (RecordWritten KevRecord.cveId kevUpsert) (all.map fun a => (a, true)) d d₂) :
    SameData d₁ d₂ ↔ kevTable.MadeGood d kept all := by
  have hrest : ∀ {kept d'}, Steps (RecordWritten KevRecord.cveId kevUpsert) kept d d' →
      (d'.cveCpeMatches, d'.epss) = (d.cveCpeMatches, d.epss) := fun h =>
    recordSteps_frame (fun d => (d.cveCpeMatches, d.epss))
      (fun a now d d' hup => by rw [kevUpsert_eq hup]) (fun _ _ => rfl) h
  obtain ⟨hcpes, hepss⟩ := Prod.mk.inj ((hrest h₁).trans (hrest h₂).symm)
  rw [← RecordTable.steps_agree_iff (T := kevTable) h₁ h₂]
  exact ⟨fun h => ⟨h.cves, h.kev⟩, fun h => ⟨h.1, hcpes, h.2, fun id => by rw [hepss]⟩⟩

theorem sameData_epssSteps {kept : List (EpssRecord × Bool)} {all : List EpssRecord}
    {d d₁ d₂ : Tables} (h₁ : Steps (RecordWritten EpssRecord.cveId epssUpsert) kept d d₁)
    (h₂ : Steps (RecordWritten EpssRecord.cveId epssUpsert) (all.map fun a => (a, true)) d d₂) :
    SameData d₁ d₂ ↔ epssTable.MadeGood d kept all := by
  have hrest : ∀ {kept d'}, Steps (RecordWritten EpssRecord.cveId epssUpsert) kept d d' →
      (d'.cveCpeMatches, d'.kev) = (d.cveCpeMatches, d.kev) := fun h =>
    recordSteps_frame (fun d => (d.cveCpeMatches, d.kev))
      (fun a now d d' hup => by rw [epssUpsert_eq hup]) (fun _ _ => rfl) h
  obtain ⟨hcpes, hkev⟩ := Prod.mk.inj ((hrest h₁).trans (hrest h₂).symm)
  rw [← RecordTable.steps_agree_iff (T := epssTable) h₁ h₂]
  exact ⟨fun h => ⟨h.cves, h.epss⟩, fun h => ⟨h.1, hcpes, fun id => by rw [hkev], h.2⟩⟩

/-! ## What an ingest loses -/

/-- The four tables are the same. -/
def SameTables (d d' : Tables) : Prop :=
  d'.cves = d.cves ∧ d'.cveCpeMatches = d.cveCpeMatches ∧ d'.kev = d.kev ∧ d'.epss = d.epss

theorem SameTables.symm {d d' : Tables} (h : SameTables d d') : SameTables d' d :=
  ⟨h.1.symm, h.2.1.symm, h.2.2.1.symm, h.2.2.2.symm⟩

theorem SameData.congr {d₁ d₂ d₁' d₂' : Tables} (h₁ : SameTables d₁ d₁')
    (h₂ : SameTables d₂ d₂') (h : SameData d₁ d₂) : SameData d₁' d₂' := by
  obtain ⟨hcves₁, hcpes₁, hkev₁, hepss₁⟩ := h₁
  obtain ⟨hcves₂, hcpes₂, hkev₂, hepss₂⟩ := h₂
  refine ⟨fun id => ?_, ?_, fun id => ?_, fun id => ?_⟩
  · rw [hcves₁, hcves₂]
    exact h.cves id
  · rw [hcpes₁, hcpes₂]
    exact h.cpes
  · rw [hkev₁, hkev₂]
    exact h.kev id
  · rw [hepss₁, hepss₂]
    exact h.epss id

theorem sameData_congr {d₁ d₂ d₁' d₂' : Tables} (h₁ : SameTables d₁ d₁')
    (h₂ : SameTables d₂ d₂') : SameData d₁' d₂' ↔ SameData d₁ d₂ :=
  ⟨.congr h₁.symm h₂.symm, .congr h₁ h₂⟩

/-- An ingest loses nothing if and only if what its course kept makes good all
that the document says. -/
theorem FeedSpec.losesNothing_iff {f : FeedSpec C} {w : World} {read : Json → Option α}
    {one one₀ : α → Course (Option β)} {g : α → β} {R : β → Tables → Tables → Prop}
    {good : List β → Prop} {bytes : Bytes} {s : Session Tables ρ}
    (hf : f.FollowsRecords w.env read one R)
    (hf₀ : f.FollowsRecords w.faultless.env read one₀ R)
    (hone : ∀ a n, ∃ n', one₀ a n = some (some (g a), n'))
    (hsync : ∀ n now d, (f.syncUpdate n now d).isSome = true)
    (htables : ∀ n now d d', f.syncUpdate n now d = some d' → SameTables d d')
    (hgood : ∀ kept d₁ d₂, Steps R kept s.committed d₁ →
      Steps R ((f.items w read bytes).map g) s.committed d₂ → (SameData d₁ d₂ ↔ good kept)) :
    LosesNothing (fun w => f.ingest w bytes s) w ↔
      ∀ kept, f.kept w read one bytes s = some kept → good kept := by
  have hrun := ingest_kept hf hsync bytes s
  refine losesNothing_iff_of (fun hnone => ?_) fun kept hkept => ?_
  · rwa [hnone] at hrun
  · rw [hkept] at hrun
    obtain ⟨hok, n, now, d₁, hsteps, hd₁⟩ := hrun
    obtain ⟨hlen, hclosed, hrec⟩ := of_kept hkept
    have hrun₀ := ingest_kept hf₀ hsync bytes s
    rw [kept_faultless hone hlen hclosed hrec] at hrun₀
    obtain ⟨-, n₀, now₀, d₂, hsteps₀, hd₂⟩ := hrun₀
    refine ⟨hok, ?_⟩
    rw [sameData_congr (htables _ _ _ _ hd₁) (htables _ _ _ _ hd₂)]
    exact hgood kept d₁ d₂ hsteps hsteps₀

/-- What a page keeps of its records, when it answers OK at all. -/
def nvdKept (w : World) (bytes endDate : Bytes) (complete : Bool) (s : Session Tables ρ) :
    Option (List CveItem) :=
  if endDate.isEmpty then none
  else (nvdFeed endDate complete).kept w readCveItem (cveCourse w.env.fault) bytes s

def kevKept (w : World) (bytes : Bytes) (complete : Bool) (s : Session Tables ρ) :
    Option (List (KevRecord × Bool)) :=
  (kevFeed complete).kept w kevItem (recordCourse w.env.fault .kevUpsert 9) bytes s

def epssKept (w : World) (bytes : Bytes) (complete : Bool) (s : Session Tables ρ) :
    Option (List (EpssRecord × Bool)) :=
  (epssFeed w complete).kept w (epssItem w) (recordCourse w.env.fault .epssUpsert 4) bytes s

theorem nvdIngestPage_losesNothing_iff (w : World) (bytes endDate : Bytes) (complete : Bool)
    (s : Session Tables ρ) :
    LosesNothing (fun w => nvdIngestPage w bytes endDate complete s) w ↔
      ∀ kept, nvdKept w bytes endDate complete s = some kept →
        NvdMadeGood s.committed kept ((nvdFeed endDate complete).items w readCveItem bytes) := by
  by_cases hend : endDate.isEmpty = true
  · simp only [LosesNothing, nvdIngestPage, nvdKept, if_pos hend]
    constructor
    · intro _ kept h
      cases h
    · intro _ h
      cases h
  · simp only [nvdIngestPage, nvdKept, if_neg hend]
    refine FeedSpec.losesNothing_iff (nvdFeed_follows _ _ _) (nvdFeed_follows _ _ _)
      cveCourse_faultless (fun _ _ _ => rfl) (fun _ _ _ _ h => nvdSyncUpdate_tables h)
      fun kept d₁ d₂ h₁ h₂ => ?_
    rw [List.map_id'] at h₂
    exact sameData_cveSteps h₁ h₂

theorem kevIngest_losesNothing_iff (w : World) (bytes : Bytes) (complete : Bool)
    (s : Session Tables ρ) :
    LosesNothing (fun w => kevIngest w bytes complete s) w ↔
      ∀ kept, kevKept w bytes complete s = some kept →
        kevTable.MadeGood s.committed kept ((kevFeed complete).items w kevItem bytes) :=
  FeedSpec.losesNothing_iff (kevFeed_follows _ _) (kevFeed_follows _ _)
    (recordCourse_faultless _ _) (fun _ _ _ => rfl) (fun _ _ _ _ h => recordSyncUpdate_tables h)
    fun _ _ _ => sameData_kevSteps

theorem epssIngest_losesNothing_iff (w : World) (bytes : Bytes) (complete : Bool)
    (s : Session Tables ρ) :
    LosesNothing (fun w => epssIngest w bytes complete s) w ↔
      ∀ kept, epssKept w bytes complete s = some kept →
        epssTable.MadeGood s.committed kept ((epssFeed w complete).items w (epssItem w) bytes) :=
  FeedSpec.losesNothing_iff (f := epssFeed w complete) (epssFeed_follows _ _ _)
    (epssFeed_follows _ _ _) (recordCourse_faultless _ _) (fun _ _ _ => rfl)
    (fun _ _ _ _ h => recordSyncUpdate_tables h) fun _ _ _ => sameData_epssSteps

/-- For every document, every database and every schedule of failures: the
ingest of a feed loses nothing to a failing call if and only if it does not
answer OK, or what its course kept makes good the rest of the document. -/
theorem ingest_losesNothing_iff (w : World) (bytes endDate : Bytes) (complete : Bool)
    (s : Session Tables ρ) :
    (LosesNothing (fun w => nvdIngestPage w bytes endDate complete s) w ↔
      ∀ kept, nvdKept w bytes endDate complete s = some kept →
        NvdMadeGood s.committed kept ((nvdFeed endDate complete).items w readCveItem bytes)) ∧
    (LosesNothing (fun w => kevIngest w bytes complete s) w ↔
      ∀ kept, kevKept w bytes complete s = some kept →
        kevTable.MadeGood s.committed kept ((kevFeed complete).items w kevItem bytes)) ∧
    (LosesNothing (fun w => epssIngest w bytes complete s) w ↔
      ∀ kept, epssKept w bytes complete s = some kept →
        epssTable.MadeGood s.committed kept ((epssFeed w complete).items w (epssItem w) bytes)) :=
  ⟨nvdIngestPage_losesNothing_iff w bytes endDate complete s,
    kevIngest_losesNothing_iff w bytes complete s, epssIngest_losesNothing_iff w bytes complete s⟩

/-! ## A page that loses its record -/

/-- The world in which one call fails, if it is of that kind. -/
def World.failingAt (w : World) (n : ℕ) (k : Call) : World :=
  { w with env := { w.env with fault := fun n' k' => n' == n && k' == k } }

/-- The page of one record, into an empty database. -/
def nvdIngestOne (w : World) : IngestResult NvdCounts Unit :=
  nvdIngestPage w (revisionText "2.0") (ascii "2024-07-01T00:00:00.000Z") true
    Tables.seeded.connect

/-- The first bind of the upsert fails, and no other call. -/
def oneBindFails : World :=
  (World.reading [(revisionText "2.0", revision "2.0")]).failingAt 5 (.bind .cveUpsert)

set_option maxRecDepth 20000 in
/-- One failing bind: the page answers OK, the watermark is past it, and the
record is not there. -/
theorem nvdIngest_moves_past_dropped_record :
    (nvdIngestOne oneBindFails).status = .ok ∧
    ((nvdIngestOne oneBindFails).session.committed.syncState .nvd).bind (·.lastModWatermark) =
      some (ascii "2024-07-01T00:00:00.000Z") ∧
    ¬ LosesNothing nvdIngestOne oneBindFails := by
  refine ⟨by decide, by decide, fun h => ?_⟩
  exact absurd ((h (by decide)).cves (ascii "CVE-2024-0001")) (by decide)

end Cytadel.Db
