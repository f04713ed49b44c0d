import Cytadel.Db.Ingest
import Cytadel.Lib.Steps

/-!
# What one ingest can do

Everything that is proved about the three feeds starts from the two facts of
this file. An ingest that does not answer OK has left the durable tables and
the log as they were, whatever failed and wherever. An ingest that answers OK
went through every one of its stages, and `OkRun` keeps what each of them
computed on the working copy; the last copy is what was committed, in one
transaction.
-/

namespace Cytadel.Db

open Cytadel Lib

variable {C ρ : Type}

theorem prepareStatements_view (env : Env Call Bytes) (sts : List Stmt) (s : ℕ × Tables) :
    ((prepareStatements sts).eval env s).2.2 = s.2 := by
  induction sts generalizing s with
  | nil => rfl
  | cons st rest ih =>
      rw [prepareStatements, Prog.eval_bind, Prog.eval_attempt]
      cases env.fault s.1 (.prepare st)
      · exact ih _
      · rfl

namespace FeedSpec

/-- The stages of an ingest that answered OK: `start` is the call count and
the copy after the statements were prepared, `looped` after the records,
`synced` after the sync update. -/
structure OkRun (f : FeedSpec C) (w : World) (bytes : Bytes) (s : Session Tables ρ)
    (elems : List Json) (start looped synced : ℕ × Tables) : Prop where
  fits : ¬ bytes.length > f.maxBytes
  noParseFault : w.env.fault s.calls .parse = false
  parsed : f.records (w.parse bytes) = some elems
  closed : s.txn = none
  noBeginFault : w.env.fault (s.calls + 1) .begin = false
  prepared : (prepareStatements f.stmts).eval w.env (s.calls + 2, s.committed) = (true, start)
  records : (f.ingestRecords elems f.maxRecords f.zero).eval w.env start =
    (((f.ingest w bytes s).counts, false), looped)
  sync : (f.updateSyncState (f.ingest w bytes s).counts).eval w.env looped = (true, synced)
  noCommitFault : w.env.fault synced.1 .commit = false
  session : (f.ingest w bytes s).session = s.durable (synced.1 + 1, synced.2)

/-- What an ingest that failed leaves: the durable tables and the log as they
were, and no open transaction, unless one was open before or the rollback
itself failed. -/
structure Untouched (w : World) (s s' : Session Tables ρ) : Prop where
  committed : s'.committed = s.committed
  log : s'.log = s.log
  txn : s'.txn = s.txn ∨ s'.txn = none ∨ ∃ n, w.env.fault n .rollback = true

end FeedSpec

/-- A rolled back transaction leaves no trace. -/
theorem untouched_rollback (w : World) (s : Session Tables ρ) (x : ℕ × Tables) :
    FeedSpec.Untouched w s ((s.inTxn x).rollback w.env .rollback) where
  committed := by rw [Session.rollback_committed, Session.inTxn_committed]
  log := by rw [Session.rollback_log, Session.inTxn_log]
  txn := by
    rw [Session.rollback]
    split
    · next hf => exact Or.inr (Or.inr ⟨_, hf⟩)
    · exact Or.inr (Or.inl rfl)

namespace FeedSpec

/-- A document that reaches its transaction: every stage is an evaluation on
the working copy, and every exit but the last rolls back. -/
theorem ingest_eq {f : FeedSpec C} {w : World} {bytes : Bytes} {s : Session Tables ρ}
    {elems : List Json} (hlen : ¬ bytes.length > f.maxBytes)
    (hparse : w.env.fault s.calls .parse = false)
    (hparsed : f.records (w.parse bytes) = some elems) (hclosed : s.txn = none)
    (hbegin : w.env.fault (s.calls + 1) .begin = false) :
    f.ingest w bytes s =
      let p := (prepareStatements f.stmts).eval w.env (s.calls + 2, s.committed)
      let l := (f.ingestRecords elems f.maxRecords f.zero).eval w.env p.2
      let t := (f.updateSyncState l.1.1).eval w.env l.2
      if !p.1 then ⟨.errDb, f.zero, (s.inTxn p.2).rollback w.env .rollback⟩
      else if l.1.2 then ⟨.errDb, l.1.1, (s.inTxn l.2).rollback w.env .rollback⟩
      else if !t.1 then ⟨.errDb, l.1.1, (s.inTxn t.2).rollback w.env .rollback⟩
      else if w.env.fault t.2.1 .commit then
        ⟨.errDb, l.1.1, (s.inTxn (t.2.1 + 1, t.2.2)).rollback w.env .rollback⟩
      else ⟨.ok, l.1.1, s.durable (t.2.1 + 1, t.2.2)⟩ := by
  have hrec : f.records (parseJson w bytes s).1 = some elems := by
    simpa [parseJson, hparse] using hparsed
  have hb : (parseJson w bytes s).2.begin w.env .begin =
      (true, s.inTxn (s.calls + 2, s.committed)) := by
    have hbegin' : w.env.fault s.tick.calls .begin = false := hbegin
    have hclosed' : s.tick.txn = none := hclosed
    simp only [parseJson, Session.begin, hbegin', hclosed', Option.isSome_none,
      Bool.or_self, Bool.false_eq_true, if_false]
    rfl
  rw [ingest, if_neg hlen]
  simp only [hrec, hb, Prog.run_inTxn, Session.commit_inTxn, Bool.not_true,
    Bool.false_eq_true, if_false]
  split
  · rfl
  · split
    · rfl
    · split
      · rfl
      · cases w.env.fault _ .commit <;> simp

/-- The two ways an ingest can end. -/
theorem ingest_cases (f : FeedSpec C) (w : World) (bytes : Bytes) (s : Session Tables ρ) :
    ((f.ingest w bytes s).status ≠ .ok ∧ Untouched w s (f.ingest w bytes s).session) ∨
    ((f.ingest w bytes s).status = .ok ∧
      ∃ elems start looped synced, f.OkRun w bytes s elems start looped synced) := by
  by_cases hlen : bytes.length > f.maxBytes
  · left
    rw [ingest, if_pos hlen]
    exact ⟨by simp, rfl, rfl, Or.inl rfl⟩
  cases hrec : f.records (parseJson w bytes s).1 with
  | none =>
      left
      rw [ingest, if_neg hlen]
      simp only [hrec]
      exact ⟨by simp, rfl, rfl, Or.inl rfl⟩
  | some elems =>
      have hparse : w.env.fault s.calls .parse = false := by
        cases hf : w.env.fault s.calls .parse with
        | false => rfl
        | true => simp [parseJson, hf, records] at hrec
      have hparsed : f.records (w.parse bytes) = some elems := by
        simpa [parseJson, hparse] using hrec
      obtain hbegin | ⟨hnobegin, hclosed, -⟩ :=
        Session.begin_cases w.env Call.begin (parseJson w bytes s).2
      · left
        rw [ingest, if_neg hlen]
        simp only [hrec, hbegin, Bool.not_false, if_true]
        exact ⟨by simp, rfl, rfl, Or.inl rfl⟩
      have hrun := ingest_eq hlen hparse hparsed hclosed hnobegin
      obtain ⟨⟨okp, start⟩, hp⟩ : ∃ r, (prepareStatements f.stmts).eval w.env
          (s.calls + 2, s.committed) = r := ⟨_, rfl⟩
      obtain ⟨⟨⟨c, fatal⟩, looped⟩, hl⟩ : ∃ r,
          (f.ingestRecords elems f.maxRecords f.zero).eval w.env start = r := ⟨_, rfl⟩
      obtain ⟨⟨oks, synced⟩, hs⟩ : ∃ r,
          (f.updateSyncState c).eval w.env looped = r := ⟨_, rfl⟩
      simp only [hp, hl, hs] at hrun
      cases okp with
      | false =>
          rw [hrun]
          exact Or.inl ⟨by simp, untouched_rollback w s _⟩
      | true =>
          cases fatal with
          | true =>
              rw [hrun]
              exact Or.inl ⟨by simp, untouched_rollback w s _⟩
          | false =>
              cases oks with
              | false =>
                  rw [hrun]
                  exact Or.inl ⟨by simp, untouched_rollback w s _⟩
              | true =>
                  cases hf : w.env.fault synced.1 .commit with
                  | true =>
                      rw [hrun, hf]
                      exact Or.inl ⟨by simp, untouched_rollback w s _⟩
                  | false =>
                      have hok : f.ingest w bytes s =
                          ⟨.ok, c, s.durable (synced.1 + 1, synced.2)⟩ := by
                        rw [hrun, hf]
                        rfl
                      refine Or.inr ⟨by rw [hok], elems, start, looped, synced, ?_⟩
                      exact
                        { fits := hlen
                          noParseFault := hparse
                          parsed := hparsed
                          closed := hclosed
                          noBeginFault := hnobegin
                          prepared := hp
                          records := by rw [hok]; exact hl
                          sync := by rw [hok]; exact hs
                          noCommitFault := hf
                          session := by rw [hok] }

/-! ## The record loop -/

/-- What one record can do to the counts and the copy, the loop does for each
record up to the cap; the rest are counted as skipped. -/
theorem ingestRecords_steps {f : FeedSpec C} {env : Env Call Bytes}
    {R : Json → C × Tables → C × Tables → Prop}
    (hstep : ∀ e c x c' x', (f.processOne e c).eval env x = ((c', false), x') →
      R e (c, x.2) (c', x'.2))
    {elems : List Json} {n : ℕ} {c c' : C} {x x' : ℕ × Tables}
    (h : (f.ingestRecords elems n c).eval env x = ((c', false), x')) :
    ∃ c₁, Steps R (elems.take n) (c, x.2) (c₁, x'.2) ∧
      c' = (elems.drop n).foldl (fun c _ => f.skip c) c₁ := by
  induction elems generalizing n c x with
  | nil =>
      simp only [ingestRecords, Prog.eval_pure, Prod.mk.injEq] at h
      obtain ⟨⟨rfl, -⟩, rfl⟩ := h
      exact ⟨c, by simpa using Steps.nil _, by simp⟩
  | cons e es ih =>
      cases n with
      | zero =>
          simp only [ingestRecords, Prog.eval_pure, Prod.mk.injEq] at h
          obtain ⟨⟨rfl, -⟩, rfl⟩ := h
          exact ⟨c, by simpa using Steps.nil _, by simp⟩
      | succ n =>
          rw [ingestRecords, Prog.eval_bind] at h
          obtain ⟨⟨⟨c₁, fatal⟩, x₁⟩, hone⟩ : ∃ r, (f.processOne e c).eval env x = r :=
            ⟨_, rfl⟩
          rw [hone] at h
          cases fatal with
          | true => simp [Prog.eval_pure] at h
          | false =>
              obtain ⟨c₂, hsteps, hc⟩ := ih h
              exact ⟨c₂, by simpa using Steps.cons (hstep e c x c₁ x₁ hone) hsteps,
                by simpa using hc⟩

/-! ## The sync update -/

theorem updateSyncState_ok {f : FeedSpec C} {env : Env Call Bytes} {c : C}
    {x x' : ℕ × Tables} (h : (f.updateSyncState c).eval env x = (true, x')) :
    ∃ now, f.syncUpdate (f.seen c) now x.2 = some x'.2 := by
  rw [updateSyncState, Prog.eval_bind] at h
  obtain ⟨-, hb⟩ | ⟨i, -, -, hb⟩ :=
    Prog.attemptAll_cases env (Call.bind .syncState) f.syncBinds x <;> rw [hb] at h
  · simp only [if_true, Prog.eval_bind] at h
    obtain ⟨-, hs⟩ | ⟨-, -, hs⟩ | ⟨-, d, hd, hs⟩ :=
      Prog.exec_cases env (Call.step .syncState) (f.syncUpdate (f.seen c))
        (x.1 + f.syncBinds, x.2) <;> rw [hs] at h
    · cases h
    · cases h
    · cases h
      exact ⟨_, hd⟩
  · cases h

end FeedSpec

end Cytadel.Db
