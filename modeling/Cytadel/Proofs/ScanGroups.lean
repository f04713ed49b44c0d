import Mathlib.Algebra.GroupWithZero.Nat
import Cytadel.Db.ScanPersist
import Cytadel.Lib.GroupRuns
import Cytadel.Lib.Steps

/-!
# What a detected service is written as

The loop of `cytadel_scan_detect_and_persist` is the single pass of
`Lib.groupRuns` with flags in place of the rows: the groups it flushes are the
runs of the stream, one after the other. On the sorted stream these are the
CVEs, and the flags of a group are the verdict of all its rows.
-/

namespace Cytadel.Db

open Cytadel Cytadel.Match Lib

variable {ρ : Type} {env : Env Call Bytes} {scanId : ℤ} {det : Detection}

theorem lookup_cases {α : Type} (env : Env Call Bytes) (st : Stmt) (f : Tables → α)
    (x : ℕ × Tables) :
    ∃ n, (lookup st f).eval env x = (none, n, x.2) ∨
      (lookup st f).eval env x = (some (f x.2), n, x.2) := by
  rw [lookup, Prog.eval_bind, Prog.eval_attempt]
  cases env.fault x.1 (.bind st) with
  | true => exact ⟨_, Or.inl rfl⟩
  | false =>
      simp only [Bool.not_false, if_true, Prog.eval_select]
      cases env.fault (x.1 + 1) (.step st) with
      | true => exact ⟨_, Or.inl rfl⟩
      | false => exact ⟨_, Or.inr rfl⟩

/-! ## Flushing a group -/

/-- The row of a group, from the tables as they stand, with the id and the
time it was given. -/
def Group.row (g : Group) (scanId : ℤ) (det : Detection) (status : MatchStatus) (d : Tables)
    (id : ℕ) (now : Bytes) : ScanResultRow :=
  { det.resultRow scanId g.cveId status (severityOf g.cveId d) (kevFlagOf g.cveId d)
      (epssScoreOf g.cveId d) with id := id, detectedAt := now }

/-- What a flush that did not fail has done. -/
inductive FlushEffect (scanId : ℤ) (det : Detection) (g : Group) :
    PersistCounts × Tables → PersistCounts × Tables → Prop
  | silent (c : PersistCounts) (d : Tables) :
      (finalizeVerdict g.flags).status = none →
      FlushEffect scanId det g (c, d)
        (⟨c.rowsInserted, c.malformedEvents + g.flags.malformedCount⟩, d)
  | written (c : PersistCounts) (d : Tables) (status : MatchStatus) (id : ℕ) (now : Bytes) :
      (finalizeVerdict g.flags).status = some status → d.cves g.cveId ≠ none →
      FlushEffect scanId det g (c, d)
        (⟨c.rowsInserted + 1, c.malformedEvents + g.flags.malformedCount⟩,
          { d with scanResults := d.scanResults ++ [g.row scanId det status d id now] })

theorem flushGroup_effect {g : Group} {c c' : PersistCounts} {x x' : ℕ × Tables}
    (h : (flushGroup scanId det g c).eval env x = ((c', false), x')) :
    FlushEffect scanId det g (c, x.2) (c', x'.2) := by
  simp only [flushGroup] at h
  cases hst : (finalizeVerdict g.flags).status with
  | none =>
      rw [hst] at h
      cases h
      exact .silent c x.2 hst
  | some status =>
      simp only [hst, Prog.eval_bind] at h
      obtain ⟨n₁, h₁ | h₁⟩ := lookup_cases env .severityLookup (severityOf g.cveId) x <;>
        rw [h₁] at h
      · cases h
      simp only [Prog.eval_bind] at h
      obtain ⟨n₂, h₂ | h₂⟩ := lookup_cases env .kevLookup (kevFlagOf g.cveId) (n₁, x.2) <;>
        rw [h₂] at h
      · cases h
      simp only [Prog.eval_bind] at h
      obtain ⟨n₃, h₃ | h₃⟩ := lookup_cases env .epssLookup (epssScoreOf g.cveId) (n₂, x.2) <;>
        rw [h₃] at h
      · cases h
      simp only [Prog.eval_bind] at h
      obtain ⟨-, hb⟩ | ⟨i, -, -, hb⟩ :=
        Prog.attemptAll_cases env (Call.bind .resultInsert) 12 (n₃, x.2) <;> rw [hb] at h
      · simp only [if_true, Prog.eval_bind] at h
        obtain ⟨-, he⟩ | ⟨-, -, he⟩ | ⟨-, d, hd, he⟩ :=
          Prog.exec_cases env (Call.step .resultInsert)
            (insertResult (det.resultRow scanId g.cveId status (severityOf g.cveId x.2)
              (kevFlagOf g.cveId x.2) (epssScoreOf g.cveId x.2))) (n₃ + 12, x.2) <;>
          rw [he] at h <;> cases h
        obtain ⟨-, hfk, id, -, -, rfl⟩ := insertResult_eq hd
        exact .written c x.2 status id _ hst (Option.isSome_iff_ne_none.mp (hfk g.cveId rfl))
      · cases h

/-! ## The loop flushes the runs -/

/-- A run of rows as the loop holds it. -/
def groupOf (det : Detection) (run : Bytes × List CpeRow) : Group where
  cveId := run.1
  flags := run.2.foldl
    (fun a r => accumulateOutcome a (cpeMatchEvaluate r.matchRow det.detectedVersion)) .zero

theorem groupOf_take (k : Bytes) (rows : List CpeRow) (row : CpeRow) :
    (groupOf det (k, rows)).take det row = groupOf det (k, rows ++ [row]) := by
  simp only [groupOf, Group.take, List.foldl_append, List.foldl_cons, List.foldl_nil]

/-- A turn of the loop that did not fail: the row was taken, and a step was made
to the next one. -/
theorem candidateLoop_cons {row : CpeRow} {rows : List CpeRow} {cur cur' : Option Group}
    {c c' : PersistCounts} {x x' : ℕ × Tables}
    (h : (candidateLoop scanId det (row :: rows) cur c).eval env x = ((cur', c', false), x')) :
    ∃ cur₁ c₁ y n, (takeCandidate scanId det row cur c).eval env x = ((cur₁, c₁, false), y) ∧
      (candidateLoop scanId det rows cur₁ c₁).eval env (n, y.2) = ((cur', c', false), x') := by
  rw [candidateLoop, Prog.eval_bind] at h
  obtain ⟨⟨⟨cur₁, c₁, failed⟩, y⟩, htake⟩ : ∃ r,
      (takeCandidate scanId det row cur c).eval env x = r := ⟨_, rfl⟩
  rw [htake] at h
  cases failed with
  | true => cases h
  | false =>
      simp only [Bool.false_eq_true, if_false, Prog.eval_bind, Prog.eval_attempt] at h
      cases hf : env.fault y.1 (.step .candidates) with
      | true =>
          rw [hf] at h
          cases h
      | false =>
          rw [hf] at h
          exact ⟨cur₁, c₁, y, _, htake, h⟩

theorem candidateLoop_runs {rows : List CpeRow} {o : Option (Bytes × List CpeRow)}
    {c c' : PersistCounts} {cur' : Option Group} {x x' : ℕ × Tables}
    (hids : ∀ row ∈ rows, row.badCveId = false)
    (h : (candidateLoop scanId det rows (o.map (groupOf det)) c).eval env x =
      ((cur', c', false), x')) :
    ∃ closed, ∃ o' : Option (Bytes × List CpeRow),
      groupRuns CpeRow.cveId o rows = closed ++ o'.toList ∧
      cur' = o'.map (groupOf det) ∧
      Steps (FlushEffect scanId det) (closed.map (groupOf det)) (c, x.2) (c', x'.2) := by
  induction rows generalizing o c x with
  | nil =>
      cases h
      refine ⟨[], o, ?_, rfl, .nil _⟩
      cases o <;> rfl
  | cons row rows ih =>
      have hids' : ∀ r ∈ rows, r.badCveId = false := fun r hr =>
        hids r (List.mem_cons_of_mem _ hr)
      have hgood := hids row List.mem_cons_self
      obtain ⟨cur₁, c₁, y, n, htaken, hn⟩ := candidateLoop_cons h
      cases o with
      | none =>
          have htake : (takeCandidate scanId det row none c).eval env x =
              ((some (groupOf det (row.cveId, [row])), c, false), x) := by
            simp only [takeCandidate, hgood, Bool.false_eq_true, if_false, Prog.eval_pure]
            rfl
          cases htake.symm.trans htaken
          exact ih (o := some (row.cveId, [row])) (x := (n, x.2)) hids' hn
      | some run =>
          obtain ⟨k, xs⟩ := run
          rw [groupRuns]
          by_cases hk : row.cveId = k
          · have htake : (takeCandidate scanId det row (some (groupOf det (k, xs))) c).eval env x =
                ((some (groupOf det (k, xs ++ [row])), c, false), x) := by
              simp only [takeCandidate, hgood, Bool.false_eq_true, if_false]
              rw [if_pos (show row.cveId = (groupOf det (k, xs)).cveId from hk), groupOf_take,
                Prog.eval_pure]
            cases htake.symm.trans htaken
            rw [if_pos hk]
            exact ih (o := some (k, xs ++ [row])) (x := (n, x.2)) hids' hn
          · obtain ⟨⟨⟨c₂, failed⟩, z⟩, hflush⟩ : ∃ r,
                (flushGroup scanId det (groupOf det (k, xs)) c).eval env x = r := ⟨_, rfl⟩
            have htake : (takeCandidate scanId det row (some (groupOf det (k, xs))) c).eval env x =
                if failed then ((some (groupOf det (k, xs)), c₂, true), z)
                else ((some (groupOf det (row.cveId, [row])), c₂, false), z) := by
              simp only [takeCandidate, hgood, Bool.false_eq_true, if_false]
              rw [if_neg (show ¬ row.cveId = (groupOf det (k, xs)).cveId from hk),
                Prog.eval_bind, hflush]
              cases failed <;> rfl
            cases failed with
            | true => cases htake.symm.trans htaken
            | false =>
                cases htake.symm.trans htaken
                obtain ⟨closed, o', hruns, hcur, hsteps⟩ :=
                  ih (o := some (row.cveId, [row])) (x := (n, y.2)) hids' hn
                rw [if_neg hk, hruns]
                exact ⟨(k, xs) :: closed, o', rfl, hcur,
                  .cons (flushGroup_effect hflush) hsteps⟩

/-! ## The loop flushes groups -/

/-- On any stream: what the loop has done are flushes, of whatever groups. -/
theorem candidateLoop_flushes {rows : List CpeRow} {cur cur' : Option Group}
    {c c' : PersistCounts} {x x' : ℕ × Tables}
    (h : (candidateLoop scanId det rows cur c).eval env x = ((cur', c', false), x')) :
    ∃ gs, Steps (FlushEffect scanId det) gs (c, x.2) (c', x'.2) := by
  induction rows generalizing cur c x with
  | nil =>
      cases h
      exact ⟨[], .nil _⟩
  | cons row rows ih =>
      obtain ⟨cur₁, c₁, y, n, htake, hn⟩ := candidateLoop_cons h
      obtain ⟨gs, hsteps⟩ := ih (x := (n, y.2)) hn
      -- the row itself flushes the group before it, or nothing
      have hrow : ∃ gs, Steps (FlushEffect scanId det) gs (c, x.2) (c₁, y.2) := by
        rw [takeCandidate] at htake
        split at htake
        · cases htake
          exact ⟨[], .nil _⟩
        · cases cur with
          | none =>
              cases htake
              exact ⟨[], .nil _⟩
          | some g =>
              simp only at htake
              split at htake
              · cases htake
                exact ⟨[], .nil _⟩
              · rw [Prog.eval_bind] at htake
                obtain ⟨⟨⟨c₂, failed⟩, z⟩, hflush⟩ : ∃ r,
                    (flushGroup scanId det g c).eval env x = r := ⟨_, rfl⟩
                rw [hflush] at htake
                cases failed with
                | true => cases htake
                | false =>
                    cases htake
                    exact ⟨[g], .cons (flushGroup_effect hflush) (.nil _)⟩
      obtain ⟨gs₁, hsteps₁⟩ := hrow
      exact ⟨gs₁ ++ gs, hsteps₁.append hsteps⟩

/-! ## The rows that were written -/

/-- The row says what the group came to. -/
def Group.WrittenAs (scanId : ℤ) (det : Detection) (d : Tables) (g : Group)
    (row : ScanResultRow) : Prop :=
  ∃ status id now, (finalizeVerdict g.flags).status = some status ∧ d.cves g.cveId ≠ none ∧
    row = g.row scanId det status d id now

/-- A group with a verdict. -/
def Group.decided (g : Group) : Bool := (finalizeVerdict g.flags).status.isSome

/-- The flushes of a run: one row for each group with a verdict, in order, and
nothing else but the counts. -/
theorem steps_flush {gs : List Group} {st st' : PersistCounts × Tables}
    (h : Steps (FlushEffect scanId det) gs st st') :
    ∃ new, st'.2 = { st.2 with scanResults := st.2.scanResults ++ new } ∧
      List.Forall₂ (Group.WrittenAs scanId det st.2) (gs.filter Group.decided) new ∧
      st'.1.rowsInserted = st.1.rowsInserted + new.length ∧
      st'.1.malformedEvents =
        st.1.malformedEvents + (gs.map fun g => g.flags.malformedCount).sum := by
  induction h with
  | nil st => exact ⟨[], by simp, .nil, rfl, rfl⟩
  | @cons g gs s t u hone _ ih =>
      obtain ⟨new, htab, hnew, hrows, hmal⟩ := ih
      cases hone with
      | silent c d hst =>
          have hdec : g.decided = false := by simp [Group.decided, hst]
          refine ⟨new, htab, by simpa [hdec] using hnew, hrows, ?_⟩
          rw [hmal, List.map_cons, List.sum_cons]
          exact Nat.add_assoc _ _ _
      | written c d status id now hst hfk =>
          have hdec : g.decided = true := by simp [Group.decided, hst]
          refine ⟨g.row scanId det status d id now :: new, ?_, ?_, ?_, ?_⟩
          · rw [htab]
            simp
          · rw [List.filter_cons_of_pos hdec]
            exact .cons ⟨status, id, now, hst, hfk, rfl⟩ hnew
          · rw [hrows, List.length_cons]
            simp only
            omega
          · rw [hmal, List.map_cons, List.sum_cons]
            exact Nat.add_assoc _ _ _

end Cytadel.Db
