import Cytadel.Proofs.RecordEffect

/-!
# A document is ingested as a whole or not at all

The three feeds are instances of one statement: whatever fails, an ingest that
does not answer OK has changed no durable table, and one that answers OK has
committed, in a single transaction, the effects of its records in order and
the update of `sync_state` behind them. A record that is skipped is one that
is not read, that meets a failing bind, or that a constraint refuses.
-/

namespace Cytadel.Db

open Cytadel Lib

variable {C ρ : Type}

/-- All or nothing, with `R` saying what one record does. -/
def FeedSpec.Atomic (f : FeedSpec C) (R : Json → C × Tables → C × Tables → Prop) (w : World)
    (bytes : Bytes) (s : Session Tables ρ) (r : IngestResult C ρ) : Prop :=
  (r.status ≠ .ok ∧ r.session.committed = s.committed ∧ r.session.log = s.log ∧
    (r.session.txn = s.txn ∨ r.session.txn = none ∨
      ∃ n, w.env.fault n .rollback = true)) ∨
  (r.status = .ok ∧ ∃ elems c d now, f.records (w.parse bytes) = some elems ∧
    Steps R (elems.take f.maxRecords) (f.zero, s.committed) (c, d) ∧
    r.counts = (elems.drop f.maxRecords).foldl (fun c _ => f.skip c) c ∧
    f.syncUpdate (f.seen r.counts) now d = some r.session.committed ∧
    r.session.txn = none ∧
    r.session.log = s.log ++ [.commit s.committed r.session.committed])

/-- A feed is atomic with whatever its records can do. -/
theorem FeedSpec.ingest_atomic {f : FeedSpec C} {w : World}
    {R : Json → C × Tables → C × Tables → Prop}
    (hstep : ∀ e c x c' x', (f.processOne e c).eval w.env x = ((c', false), x') →
      R e (c, x.2) (c', x'.2)) (bytes : Bytes) (s : Session Tables ρ) :
    f.Atomic R w bytes s (f.ingest w bytes s) := by
  obtain ⟨hst, hun⟩ | ⟨hst, elems, start, looped, synced, hrun⟩ := f.ingest_cases w bytes s
  · exact Or.inl ⟨hst, hun.committed, hun.log, hun.txn⟩
  · have hview : start.2 = s.committed := by
      have hp := prepareStatements_view w.env f.stmts (s.calls + 2, s.committed)
      rwa [hrun.prepared] at hp
    obtain ⟨c, hsteps, hcounts⟩ := ingestRecords_steps hstep hrun.records
    obtain ⟨now, hsync⟩ := updateSyncState_ok hrun.sync
    rw [hview] at hsteps
    refine Or.inr ⟨hst, elems, c, looped.2, now, hrun.parsed, hsteps, hcounts, ?_, ?_, ?_⟩ <;>
      rw [hrun.session]
    · exact hsync
    · rfl
    · rfl

theorem nvdIngestPage_atomic (w : World) (bytes : Bytes) (lastmodEndDate : Bytes)
    (windowComplete : Bool) (s : Session Tables ρ) :
    (nvdFeed lastmodEndDate windowComplete).Atomic (NvdEffect w.env) w bytes s
      (nvdIngestPage w bytes lastmodEndDate windowComplete s) := by
  rw [nvdIngestPage]
  split
  · exact Or.inl ⟨by simp, rfl, rfl, Or.inl rfl⟩
  · exact FeedSpec.ingest_atomic (fun _ _ _ _ _ h => processOneCve_effect h) bytes s

theorem kevIngest_atomic (w : World) (bytes : Bytes) (fullPullComplete : Bool)
    (s : Session Tables ρ) :
    (kevFeed fullPullComplete).Atomic (RecordEffect w.env kevReader .kevUpsert) w bytes s
      (kevIngest w bytes fullPullComplete s) := by
  refine FeedSpec.ingest_atomic (fun e c x c' x' h => ?_) bytes s
  rw [kevFeed_processOne] at h
  exact processRecord_effect kevReader_admitted h

theorem epssIngest_atomic (w : World) (bytes : Bytes) (fullPullComplete : Bool)
    (s : Session Tables ρ) :
    (epssFeed w fullPullComplete).Atomic (RecordEffect w.env (epssReader w) .epssUpsert) w bytes s
      (epssIngest w bytes fullPullComplete s) := by
  refine FeedSpec.ingest_atomic (fun e c x c' x' h => ?_) bytes s
  rw [epssFeed_processOne] at h
  exact processRecord_effect (epssReader_admitted w) h

/-- Page atomicity of the three ingests, for every document, database and
schedule of failures. -/
theorem ingest_all_or_nothing (w : World) (bytes : Bytes) (s : Session Tables ρ) :
    (∀ lastmodEndDate windowComplete,
      (nvdFeed lastmodEndDate windowComplete).Atomic (NvdEffect w.env) w bytes s
        (nvdIngestPage w bytes lastmodEndDate windowComplete s)) ∧
    (∀ fullPullComplete,
      (kevFeed fullPullComplete).Atomic (RecordEffect w.env kevReader .kevUpsert) w bytes s
        (kevIngest w bytes fullPullComplete s)) ∧
    (∀ fullPullComplete,
      (epssFeed w fullPullComplete).Atomic (RecordEffect w.env (epssReader w) .epssUpsert) w bytes s
        (epssIngest w bytes fullPullComplete s)) := by
  refine ⟨fun endDate complete => ?_, fun complete => ?_, fun complete => ?_⟩
  · exact nvdIngestPage_atomic w bytes endDate complete s
  · exact kevIngest_atomic w bytes complete s
  · exact epssIngest_atomic w bytes complete s

end Cytadel.Db
