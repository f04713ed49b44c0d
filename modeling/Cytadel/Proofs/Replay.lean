import Cytadel.Proofs.IngestCourse

/-!
# Replaying pages

A run that dies after some pages has not moved the watermark, so the next one
starts the window again and ingests these pages a second time. Without
failures a page is exactly the upserts and insertions of its document, so the
second time leaves no trace: that is `Lib.foldl_mergeOpt_replay` for `cves`,
where a later revision wins over a merged one, and `Lib.foldl_addNew_replay`
for `cve_cpe_matches`, which only takes keys it does not have.
-/

namespace Cytadel.Db

open Cytadel Lib

variable {ρ : Type}

/-- The arguments of one `cytadel_nvd_ingest_page`. -/
structure Page where
  bytes : Bytes
  lastmodEndDate : Bytes
  windowComplete : Bool

/-- The records of the page that are looked at: none when it is refused before
its transaction. -/
def Page.records (w : World) (p : Page) : List Json :=
  if p.lastmodEndDate.isEmpty || decide (p.bytes.length > 64 * 1024 * 1024) then []
  else pageElems w p.bytes

def ingestPages (w : World) (pages : List Page) (s : Session Tables ρ) : Session Tables ρ :=
  pages.foldl
    (fun s p => (nvdIngestPage w p.bytes p.lastmodEndDate p.windowComplete s).session) s

/-- The world with nothing failing and another clock. -/
def World.quiet (w : World) (clock : ℕ → Bytes) : World :=
  { w with env := ⟨fun _ _ => false, clock⟩ }

/-- What the NVD feed keeps, without the times of ingestion. -/
def SameCveData (d d' : Tables) : Prop :=
  (∀ id, (d.cves id).map CveRow.undated = (d'.cves id).map CveRow.undated) ∧
    d.cveCpeMatches = d'.cveCpeMatches

theorem ingest_quiet_txn {C : Type} (f : FeedSpec C) (w : World) (clock : ℕ → Bytes)
    (bytes : Bytes) {s : Session Tables ρ} (hs : s.txn = none) :
    (f.ingest (w.quiet clock) bytes s).session.txn = none := by
  obtain ⟨-, hun⟩ | ⟨-, _, _, _, _, hrun⟩ := f.ingest_cases (w.quiet clock) bytes s
  · obtain htxn | htxn | ⟨n, hn⟩ := hun.txn
    · rw [htxn, hs]
    · exact htxn
    · cases hn
  · rw [hrun.session]
    rfl

/-- One page, without failures. -/
theorem nvdIngestPage_quiet (w : World) (clock : ℕ → Bytes) (p : Page) {s : Session Tables ρ}
    (hs : s.txn = none) :
    let r := nvdIngestPage (w.quiet clock) p.bytes p.lastmodEndDate p.windowComplete s
    r.session.txn = none ∧ AppliedRecords (p.records w) s.committed r.session.committed := by
  intro r
  by_cases hend : p.lastmodEndDate.isEmpty = true
  · have hr : r = ⟨.errInvalidArg, .zero, s⟩ := by simp only [r, nvdIngestPage, if_pos hend]
    rw [hr, Page.records, hend]
    exact ⟨hs, .refl _⟩
  · have hr : r = (nvdFeed p.lastmodEndDate p.windowComplete).ingest (w.quiet clock) p.bytes s := by
      simp only [r, nvdIngestPage, if_neg hend]
    refine ⟨by rw [hr]; exact ingest_quiet_txn _ w clock _ hs, ?_⟩
    by_cases hst : r.status = .ok
    · have helems : p.records w = pageElems w p.bytes := by
        rw [hr] at hst
        obtain ⟨hne, -⟩ | ⟨-, _, _, _, _, hrun⟩ :=
          (nvdFeed p.lastmodEndDate p.windowComplete).ingest_cases (w.quiet clock) p.bytes s
        · exact absurd hst hne
        · have hfits : ¬ p.bytes.length > 64 * 1024 * 1024 := hrun.fits
          simp [Page.records, hend, hfits]
      rw [helems]
      exact nvdIngestPage_applied (w := w.quiet clock) (fun _ => ⟨rfl, rfl⟩) hst
    · -- a page that fails without a failing call could not be read
      have hnil : p.records w = [] := by
        rw [Page.records]
        split
        · rfl
        · next hread =>
            simp only [Bool.or_eq_true, decide_eq_true_eq, not_or] at hread
            cases hparsed : (nvdFeed [] false).records (w.parse p.bytes) with
            | none => simp [pageElems, hparsed]
            | some elems =>
                refine absurd ?_ hst
                rw [hr]
                have hrec : (nvdFeed [] false).records (w.parse p.bytes) ≠ none := by
                  rw [hparsed]
                  exact Option.some_ne_none elems
                exact FeedSpec.ingest_faultless_ok (w := w.quiet clock) (nvdFeed_follows _ _ _)
                  cveCourse_faultless (fun _ _ _ => rfl) hread.2 hs hrec
      obtain ⟨-, hun⟩ | ⟨hok, -⟩ :=
        (nvdFeed p.lastmodEndDate p.windowComplete).ingest_cases (w.quiet clock) p.bytes s
      · rw [hnil, hr, hun.committed]
        exact .refl _
      · rw [hr] at hst
        exact absurd hok hst

/-- A list of pages, without failures. -/
theorem ingestPages_quiet (w : World) (clock : ℕ → Bytes) (pages : List Page)
    {s : Session Tables ρ} (hs : s.txn = none) :
    (ingestPages (w.quiet clock) pages s).txn = none ∧
      AppliedRecords (pages.flatMap (Page.records w)) s.committed
        (ingestPages (w.quiet clock) pages s).committed := by
  induction pages generalizing s with
  | nil => exact ⟨hs, .refl _⟩
  | cons p pages ih =>
      obtain ⟨htxn, happ⟩ := nvdIngestPage_quiet w clock p hs
      obtain ⟨htxn', happ'⟩ := ih htxn
      rw [List.flatMap_cons]
      exact ⟨htxn', happ.trans happ'⟩

/-- Records applied in front of a list that starts with them. -/
theorem AppliedRecords.replay {es es' : List Json} {d d₁ d₂ d₃ : Tables}
    (hcrash : AppliedRecords es d d₁) (hagain : AppliedRecords (es ++ es') d₁ d₂)
    (honce : AppliedRecords (es ++ es') d d₃) : SameCveData d₂ d₃ := by
  constructor
  · intro id
    rw [hagain.cves, hcrash.cves, honce.cves, pageUpserts_append, rowsAt_append]
    exact foldl_mergeOpt_replay CveRow.onConflict_onConflict CveRow.onConflict_self _ _ _
  · rw [hagain.cpes, hcrash.cpes, honce.cpes, pageItems_append]
    exact foldl_addNew_replay CpeItem.key_build _ _ _

/-- Crash and replay: the first `k` pages, a new connection, and all the pages
again leave what all the pages leave at once, whatever the three clocks say. -/
theorem nvdIngest_replay (w : World) (clock₁ clock₂ clock₃ : ℕ → Bytes) (pages : List Page)
    (k : ℕ) (d : Tables) :
    let crashed := ingestPages (w.quiet clock₁) (pages.take k) (d.connect (ρ := ρ))
    let restarted := ingestPages (w.quiet clock₂) pages crashed.reopen
    let once := ingestPages (w.quiet clock₃) pages (d.connect (ρ := ρ))
    SameCveData restarted.committed once.committed := by
  intro crashed restarted once
  have hcrash := (ingestPages_quiet w clock₁ (pages.take k) (s := d.connect (ρ := ρ)) rfl).2
  have hagain := (ingestPages_quiet w clock₂ pages (s := crashed.reopen) rfl).2
  have honce := (ingestPages_quiet w clock₃ pages (s := d.connect (ρ := ρ)) rfl).2
  have hsplit : pages.flatMap (Page.records w) =
      (pages.take k).flatMap (Page.records w) ++ (pages.drop k).flatMap (Page.records w) := by
    rw [← List.flatMap_append, List.take_append_drop]
  rw [hsplit] at hagain honce
  exact hcrash.replay hagain honce

end Cytadel.Db
