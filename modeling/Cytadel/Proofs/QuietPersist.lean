import Cytadel.Lib.Faults
import Cytadel.Proofs.ScanAtomicity
import Cytadel.Proofs.ScanGroups

/-!
# Persisting when nothing fails

On a database that conforms to its schema, with a scan that exists, neither
persister meets a constraint: what a row takes from `cves`, `kev` and `epss`
has passed its own check there, and the row it refers to is there or is put
there. So without a failing call each of them ends in its commit, unless it
refuses its arguments.
-/

namespace Cytadel.Db

open Cytadel Cytadel.Match Lib

variable {ρ : Type} {env : Env Call Bytes} {scanId : ℤ}

/-! ## The calls -/

section Calls

variable (hf : ∀ n k, env.fault n k = false)
include hf

theorem attempt_quiet (k : Call) (x : ℕ × Tables) :
    (Prog.attempt k : Sql Bool).eval env x = (true, x.1 + 1, x.2) := by
  rw [Prog.eval_attempt, hf]
  rfl

theorem attemptAll_quiet (k : Call) (m : ℕ) (x : ℕ × Tables) :
    (Prog.attemptAll k m : Sql Bool).eval env x = (true, x.1 + m, x.2) := by
  rcases Prog.attemptAll_cases env k m x with ⟨-, h⟩ | ⟨i, -, hi, -⟩
  · exact h
  · rw [hf] at hi
    cases hi

theorem exec_quiet (k : Call) {f : Bytes → Tables → Option Tables} {x : ℕ × Tables} {d : Tables}
    (hd : f (env.clock x.1) x.2 = some d) :
    (Prog.exec k f : Sql Prog.Step).eval env x = (.done, x.1 + 1, d) := by
  rcases Prog.exec_cases env k f x with ⟨hi, -⟩ | ⟨-, hn, -⟩ | ⟨-, d', hd', h⟩
  · rw [hf] at hi
    cases hi
  · rw [hd] at hn
    cases hn
  · rw [hd] at hd'
    cases hd'
    exact h

theorem lookup_quiet {α : Type} (st : Stmt) (f : Tables → α) (x : ℕ × Tables) :
    (lookup st f).eval env x = (some (f x.2), x.1 + 2, x.2) := by
  rw [lookup, Prog.eval_bind, attempt_quiet hf]
  simp only [if_true, Prog.eval_select, hf, Bool.false_eq_true, if_false]

theorem lookupPrepared_quiet {α : Type} (st : Stmt) (f : Tables → α) (x : ℕ × Tables) :
    (lookupPrepared st f).eval env x = (some (f x.2), x.1 + 3, x.2) := by
  rw [lookupPrepared, Prog.eval_bind, attempt_quiet hf]
  simp only [if_true, lookup_quiet hf]

theorem prepareStatements_quiet (sts : List Stmt) (x : ℕ × Tables) :
    (prepareStatements sts).eval env x = (true, x.1 + sts.length, x.2) := by
  induction sts generalizing x with
  | nil => rfl
  | cons st sts ih =>
      rw [prepareStatements, Prog.eval_bind, attempt_quiet hf]
      simp only [if_true, ih, List.length_cons]
      rw [Nat.add_right_comm, Nat.add_assoc]

end Calls

/-! ## The tables -/

/-- What of the tables the persisters rely on. -/
structure Ready (scanId : ℤ) (d : Tables) : Prop where
  cves : ∀ id r, d.cves id = some r → r.check = true
  cpe : ∀ r ∈ d.cveCpeMatches, (d.cves r.cveId).isSome
  epss : ∀ id r, d.epss id = some r → r.check = true
  scan : (d.scans scanId).isSome

theorem Tables.Conforms.ready {d : Tables} (h : d.Conforms) (hscan : (d.scans scanId).isSome) :
    Ready scanId d :=
  ⟨h.cves, fun r hr => (h.cpe r hr).2, fun id r hr => (h.epss id r hr).1, hscan⟩

theorem Ready.withResults {d : Tables} (h : Ready scanId d) (rows : List ScanResultRow) :
    Ready scanId { d with scanResults := rows } := ⟨h.cves, h.cpe, h.epss, h.scan⟩

/-- Of the scan nothing changed but a count, and of the rows of the matcher
nothing. -/
structure Frame (scanId : ℤ) (d d' : Tables) : Prop where
  scan : ∀ row, d.scans scanId = some row →
    ∃ n, d'.scans scanId = some { row with malformedDataCount := n }
  cpe : d'.cveCpeMatches = d.cveCpeMatches

theorem Frame.of_eq {d d' : Tables} (hscans : d'.scans = d.scans)
    (hcpe : d'.cveCpeMatches = d.cveCpeMatches) : Frame scanId d d' :=
  ⟨fun row h => ⟨row.malformedDataCount, by rw [hscans, h]⟩, hcpe⟩

theorem Frame.trans {d d' d'' : Tables} (h : Frame scanId d d') (h' : Frame scanId d' d'') :
    Frame scanId d d'' := by
  refine ⟨fun row hrow => ?_, h'.cpe.trans h.cpe⟩
  obtain ⟨n, hn⟩ := h.scan row hrow
  obtain ⟨n', hn'⟩ := h'.scan { row with malformedDataCount := n } hn
  exact ⟨n', hn'⟩

theorem Ready.severityOf {d : Tables} (h : Ready scanId d) (id : Bytes) :
    0 ≤ severityOf id d ∧ severityOf id d ≤ 4 := by
  rw [Db.severityOf]
  cases hr : d.cves id with
  | none => exact ⟨le_refl 0, by decide⟩
  | some r =>
      have hcheck := h.cves id r hr
      simp only [CveRow.check, Bool.and_eq_true, decide_eq_true_eq] at hcheck
      exact hcheck.2

theorem kevFlagOf_check (id : Bytes) (d : Tables) : kevFlagOf id d = 0 ∨ kevFlagOf id d = 1 := by
  rw [kevFlagOf]
  split
  · exact Or.inr rfl
  · exact Or.inl rfl

theorem Ready.epssScoreOf {d : Tables} (h : Ready scanId d) (id : Bytes) :
    checkReal 1 (epssScoreOf id d) = true := by
  rw [Db.epssScoreOf]
  cases hr : d.epss id with
  | none => rfl
  | some r =>
      have hcheck := h.epss id r hr
      rw [EpssRow.check, Bool.and_eq_true] at hcheck
      exact hcheck.1

/-- A row whose columns pass their checks is taken. -/
theorem insertResult_some {row : ScanResultRow} (now : Bytes) {d : Tables}
    (hcheck : row.check = true) (hscan : (d.scans row.scanId).isSome)
    (hcve : ∀ id, row.cveId = some id → (d.cves id).isSome) :
    ∃ row', insertResult row now d = some { d with scanResults := d.scanResults ++ [row'] } ∧
      ∃ id, row' = { row with id := id, detectedAt := now } := by
  have hcheck' : ScanResultRow.check
      { row with id := nextRowId (d.scanResults.map (·.id)), detectedAt := now } = true := hcheck
  have hnone : (d.scans row.scanId).isNone = false := by simpa using hscan
  have hfk : (row.cveId.any fun id => (d.cves id).isNone) = false := by
    cases hid : row.cveId with
    | none => rfl
    | some id => simpa using hcve id hid
  refine ⟨_, ?_, nextRowId (d.scanResults.map (·.id)), rfl⟩
  simp only [insertResult, hcheck', hnone, hfk, Bool.not_true, Bool.false_eq_true, if_false]

/-! ## A finding -/

/-- The values that the snapshot takes. -/
def snapshotOf (cveId : Option Bytes) (d : Tables) : ℤ × Option ℚ :=
  match cveId with
  | none => (0, none)
  | some id => (kevFlagOf id d, epssScoreOf id d)

theorem findingSnapshot_quiet (hf : ∀ n k, env.fault n k = false) (cveId : Option Bytes)
    (x : ℕ × Tables) :
    ((findingSnapshot cveId).eval env x).1 = some (snapshotOf cveId x.2) := by
  cases cveId with
  | none => rfl
  | some id =>
      rw [findingSnapshot, Prog.eval_bind, lookupPrepared_quiet hf]
      simp only [Prog.eval_bind, lookupPrepared_quiet hf, snapshotOf]
      rfl

theorem placeholderRow_check (nowTs now : Bytes) : (placeholderRow nowTs now).check = true := rfl

/-- With a placeholder the row of a CVE is there, and the tables are as ready
as before. -/
theorem insertPlaceholder_ready {d : Tables} (h : Ready scanId d) (id nowTs now : Bytes) :
    ∃ d', insertPlaceholder id nowTs now d = some d' ∧ Ready scanId d' ∧ (d'.cves id).isSome ∧
      d'.scanResults = d.scanResults ∧ Frame scanId d d' := by
  rw [insertPlaceholder, placeholderRow_check]
  simp only [Bool.not_true, Bool.false_eq_true, if_false]
  cases hid : d.cves id with
  | some r => exact ⟨d, rfl, h, by rw [hid]; rfl, rfl, .of_eq rfl rfl⟩
  | none =>
      refine ⟨_, rfl, ⟨?_, ?_, h.epss, h.scan⟩, by simp, rfl, .of_eq rfl rfl⟩
      · intro id' r hr
        by_cases heq : id' = id
        · subst heq
          simp only [Function.update_self, Option.some.injEq] at hr
          rw [← hr]
          exact placeholderRow_check nowTs now
        · simp only [Function.update_of_ne heq] at hr
          exact h.cves id' r hr
      · intro r hr
        by_cases heq : r.cveId = id
        · simp [heq]
        · simp only [Function.update_of_ne heq]
          exact h.cpe r hr

theorem findingPlaceholder_quiet (hf : ∀ n k, env.fault n k = false) {n : ℕ} {d : Tables}
    (h : Ready scanId d) (cveId : Option Bytes) :
    ∃ n' d', (findingPlaceholder cveId).eval env (n, d) = (.ok, n', d') ∧ Ready scanId d' ∧
      (∀ id, cveId = some id → (d'.cves id).isSome) ∧ d'.scanResults = d.scanResults ∧
      Frame scanId d d' := by
  cases cveId with
  | none => exact ⟨n, d, rfl, h, by simp, rfl, .of_eq rfl rfl⟩
  | some id =>
      obtain ⟨d', hins, hready, hsome, hres, hframe⟩ :=
        insertPlaceholder_ready h id (env.clock n) (env.clock (n + 1 + 1 + 3))
      refine ⟨n + 1 + 1 + 3 + 1, d', ?_, hready, ?_, hres, hframe⟩
      · rw [findingPlaceholder, Prog.eval_bind, Prog.eval_timestamp, hf]
        simp only [Bool.false_eq_true, if_false, Prog.eval_bind, attempt_quiet hf, Bool.not_true,
          attemptAll_quiet hf, exec_quiet hf (.step .placeholder) (x := (n + 1 + 1 + 3, d)) hins]
        rfl
      · rintro id' ⟨rfl⟩
        exact hsome

/-- The row of a finding, with the id and the time it was given. -/
def Finding.WrittenAs (env : Env Call Bytes) (scanId : ℤ) (f : Finding) (row : ScanResultRow) :
    Prop :=
  ∃ id kev epss n, row = { f.resultRow scanId kev epss with id := id, detectedAt := env.clock n }

theorem findingBody_quiet (hf : ∀ n k, env.fault n k = false) {n : ℕ} {d : Tables}
    (h : Ready scanId d) {f : Finding} (hargs : f.badArgs scanId = false) (d₀ : Tables)
    (h₀ : Ready scanId d₀) :
    ∃ n' d' row, (findingBody scanId f (snapshotOf f.effectiveCveId d₀)).eval env (n, d) =
        (.ok, n', d') ∧ Ready scanId d' ∧ Frame scanId d d' ∧
      d'.scanResults = d.scanResults ++ [row] ∧ f.WrittenAs env scanId row := by
  obtain ⟨n₁, d₁, hplace, hready, hcve, hres, hframe⟩ :=
    findingPlaceholder_quiet hf (n := n) h f.effectiveCveId
  have hcheck : (f.resultRow scanId (snapshotOf f.effectiveCveId d₀).1
      (snapshotOf f.effectiveCveId d₀).2).check = true := by
    simp only [Finding.badArgs, Bool.or_eq_false_iff, decide_eq_false_iff_not] at hargs
    have hsnap : ((snapshotOf f.effectiveCveId d₀).1 = 0 ∨
        (snapshotOf f.effectiveCveId d₀).1 = 1) ∧
        checkReal 1 (snapshotOf f.effectiveCveId d₀).2 = true := by
      cases f.effectiveCveId with
      | none => exact ⟨Or.inl rfl, rfl⟩
      | some id => exact ⟨kevFlagOf_check id d₀, h₀.epssScoreOf id⟩
    simp only [ScanResultRow.check, Finding.resultRow, Bool.and_eq_true]
    exact ⟨⟨⟨decide_eq_true (by omega), decide_eq_true (by omega)⟩, decide_eq_true hsnap.1⟩,
      hsnap.2⟩
  obtain ⟨row, hins, id, hrow⟩ :=
    insertResult_some (env.clock (n₁ + 1 + 11)) hcheck hready.scan hcve
  refine ⟨n₁ + 1 + 11 + 1, { d₁ with scanResults := d₁.scanResults ++ [row] }, row, ?_,
    hready.withResults _, hframe.trans (.of_eq rfl rfl), congrArg (· ++ [row]) hres,
    id, _, _, _, hrow⟩
  rw [findingBody, Prog.eval_bind, hplace]
  simp only [bne_self_eq_false, Bool.false_eq_true, if_false, Prog.eval_bind, attempt_quiet hf,
    Bool.not_true, attemptAll_quiet hf,
    exec_quiet hf (.step .resultInsert) (x := (n₁ + 1 + 11, d₁)) hins]
  rfl

/-- A finding with good arguments is persisted. -/
theorem scanPersistFinding_quiet (hf : ∀ n k, env.fault n k = false) {s : Session Tables ρ}
    (hs : s.txn = none) (h : Ready scanId s.committed) {f : Finding}
    (hargs : f.badArgs scanId = false) :
    ∃ s' row, scanPersistFinding env scanId f s = (.ok, s') ∧ s'.txn = none ∧
      Ready scanId s'.committed ∧ Frame scanId s.committed s'.committed ∧
      s'.committed.scanResults = s.committed.scanResults ++ [row] ∧
      f.WrittenAs env scanId row := by
  have hview : s.view = s.committed := by rw [Session.view, hs]; rfl
  obtain ⟨n, hn⟩ := (findingSnapshot_writes f.effectiveCveId).run_eq env s
  rw [findingSnapshot_quiet hf, hview] at hn
  obtain ⟨n', d', row, hbody, hready, hframe, hres, hrow⟩ :=
    findingBody_quiet hf (n := n + 1) h hargs s.committed h
  refine ⟨s.durable (n' + 1, d'), row, ?_, rfl, hready, hframe, hres, hrow⟩
  have hbegin : ({ s with calls := n } : Session Tables ρ).begin env .begin =
      (true, s.inTxn (n + 1, s.committed)) := by
    simp [Session.begin, hf, hs, Session.inTxn, Session.tick]
  rw [scanPersistFinding, if_neg (by simp [hargs]), hn]
  simp only [hbegin, Bool.not_true, Bool.false_eq_true, if_false, Prog.run_inTxn, hbody,
    bne_self_eq_false, Session.commit_inTxn, hf]

/-! ## A detected service -/

/-- A row of the detection, from a group as it stood, at some time. -/
def Detection.WrittenAs (env : Env Call Bytes) (scanId : ℤ) (det : Detection)
    (row : ScanResultRow) : Prop :=
  ∃ (g : Group) (status : MatchStatus) (d : Tables) (id n : ℕ),
    row = g.row scanId det status d id (env.clock n)

/-- Rows of the detection on just these CVEs came to `scan_results`, and no
other table changed. -/
def Wrote (env : Env Call Bytes) (scanId : ℤ) (det : Detection) (cves : Bytes → Prop)
    (d d' : Tables) : Prop :=
  ∃ rows, d' = { d with scanResults := d.scanResults ++ rows } ∧
    (∀ row ∈ rows, det.WrittenAs env scanId row) ∧
    ∀ cveId, cves cveId ↔ ∃ row ∈ rows, row.cveId = some cveId

section Wrote

variable {det : Detection} {ids ids' : Bytes → Prop} {d d' d'' : Tables}

theorem Wrote.refl (d : Tables) : Wrote env scanId det (fun _ => False) d d :=
  ⟨[], by rw [List.append_nil], by simp, by simp⟩

theorem Wrote.trans (h : Wrote env scanId det ids d d') (h' : Wrote env scanId det ids' d' d'') :
    Wrote env scanId det (fun cveId => ids cveId ∨ ids' cveId) d d'' := by
  obtain ⟨rows, rfl, hrows, hcves⟩ := h
  obtain ⟨rows', rfl, hrows', hcves'⟩ := h'
  refine ⟨rows ++ rows', by simp, List.forall_mem_append.mpr ⟨hrows, hrows'⟩, fun cveId => ?_⟩
  simp only [hcves, hcves', List.mem_append, or_and_right, exists_or]

theorem Wrote.congr (h : Wrote env scanId det ids d d') (hiff : ∀ cveId, ids' cveId ↔ ids cveId) :
    Wrote env scanId det ids' d d' := by
  rwa [show ids' = ids from funext fun cveId => propext (hiff cveId)]

theorem Wrote.ready (h : Wrote env scanId det ids d d') (hd : Ready scanId d) :
    Ready scanId d' := by
  obtain ⟨rows, rfl, -⟩ := h
  exact hd.withResults _

theorem Wrote.cves (h : Wrote env scanId det ids d d') : d'.cves = d.cves := by
  obtain ⟨rows, rfl, -⟩ := h
  rfl

end Wrote

/-- The candidate has a say on its CVE: its id fits and it is not malformed. -/
def CpeRow.Says (det : Detection) (row : CpeRow) (cveId : Bytes) : Prop :=
  row.badCveId = false ∧ row.cveId = cveId ∧
    cpeMatchEvaluate row.matchRow det.detectedVersion ≠ .malformedRow

/-- The group that is open has a verdict on this CVE. -/
def OpenOn (cur : Option Group) (cveId : Bytes) : Prop :=
  ∃ g, cur = some g ∧ g.decided = true ∧ g.cveId = cveId

theorem decided_take (g : Group) (det : Detection) (row : CpeRow) :
    (g.take det row).decided = true ↔
      g.decided = true ∨ cpeMatchEvaluate row.matchRow det.detectedVersion ≠ .malformedRow := by
  rw [Group.decided, Group.decided, Group.take]
  obtain ⟨cveId, a, b, c, m⟩ := g
  cases cpeMatchEvaluate row.matchRow det.detectedVersion <;>
    cases a <;> cases b <;> cases c <;> simp [accumulateOutcome, finalizeVerdict]

theorem not_decided_zero (cveId : Bytes) : (⟨cveId, .zero⟩ : Group).decided = false := rfl

section Detection

variable {det : Detection} (hf : ∀ n k, env.fault n k = false)
  (hport : 0 ≤ det.port ∧ det.port ≤ 65535)
include hf hport

theorem flushGroup_quiet {g : Group} (c : PersistCounts) {x : ℕ × Tables}
    (h : Ready scanId x.2) (hg : (x.2.cves g.cveId).isSome) :
    ∃ c' x', (flushGroup scanId det g c).eval env x = ((c', false), x') ∧
      Wrote env scanId det (OpenOn (some g)) x.2 x'.2 := by
  rw [flushGroup]
  cases hst : (finalizeVerdict g.flags).status with
  | none => exact ⟨_, x, rfl, (Wrote.refl _).congr fun _ => by simp [OpenOn, Group.decided, hst]⟩
  | some status =>
      have hsev := h.severityOf g.cveId
      have hcheck : (det.resultRow scanId g.cveId status (severityOf g.cveId x.2)
          (kevFlagOf g.cveId x.2) (epssScoreOf g.cveId x.2)).check = true := by
        simp only [ScanResultRow.check, Detection.resultRow, Bool.and_eq_true]
        exact ⟨⟨⟨decide_eq_true hport, decide_eq_true hsev⟩,
          decide_eq_true (kevFlagOf_check g.cveId x.2)⟩, h.epssScoreOf g.cveId⟩
      obtain ⟨row, hins, id, hrow⟩ :=
        insertResult_some (env.clock (x.1 + 2 + 2 + 2 + 12)) hcheck h.scan (d := x.2) (by
          rintro id ⟨rfl⟩
          exact hg)
      refine ⟨⟨c.rowsInserted + 1, c.malformedEvents + (finalizeVerdict g.flags).malformedCount⟩,
        (x.1 + 2 + 2 + 2 + 12 + 1, { x.2 with scanResults := x.2.scanResults ++ [row] }),
        ?_, [row], rfl, ?_, ?_⟩
      · simp only [Prog.eval_bind, lookup_quiet hf, attemptAll_quiet hf, if_true,
          exec_quiet hf (.step .resultInsert) (x := (x.1 + 2 + 2 + 2 + 12, x.2)) hins]
        rfl
      · intro r hr
        rw [List.mem_singleton.mp hr, hrow]
        exact ⟨g, status, x.2, id, _, rfl⟩
      · intro cveId
        have hid : row.cveId = some g.cveId := by rw [hrow]; rfl
        simp [OpenOn, Group.decided, hst, hid]

/-- The group that is open names a CVE that is there. -/
def GroupKnown (d : Tables) (cur : Option Group) : Prop :=
  ∀ g, cur = some g → (d.cves g.cveId).isSome

omit hf hport in
theorem GroupKnown.take {d : Tables} (det : Detection) {row : CpeRow}
    (h : (d.cves row.cveId).isSome) :
    GroupKnown d (some ((⟨row.cveId, .zero⟩ : Group).take det row)) := by
  rintro g ⟨rfl⟩
  exact h

theorem takeCandidate_quiet {row : CpeRow} {cur : Option Group} (c : PersistCounts)
    {x : ℕ × Tables} (h : Ready scanId x.2) (hrow : (x.2.cves row.cveId).isSome)
    (hcur : GroupKnown x.2 cur) :
    ∃ cur' c' x' cves, (takeCandidate scanId det row cur c).eval env x = ((cur', c', false), x') ∧
      Wrote env scanId det cves x.2 x'.2 ∧ GroupKnown x.2 cur' ∧
      ∀ cveId, cves cveId ∨ OpenOn cur' cveId ↔ OpenOn cur cveId ∨ row.Says det cveId := by
  -- a group of its own says what the row says
  have hfresh : row.badCveId = false → ∀ cveId,
      OpenOn (some ((⟨row.cveId, .zero⟩ : Group).take det row)) cveId ↔ row.Says det cveId := by
    intro hgood cveId
    simp only [OpenOn, Option.some.injEq, exists_eq_left', decided_take, not_decided_zero,
      Bool.false_eq_true, false_or, CpeRow.Says, hgood, true_and]
    exact and_comm
  rw [takeCandidate]
  split
  · next hbad =>
      refine ⟨cur, c, x, _, rfl, .refl _, hcur, fun cveId => ?_⟩
      simp [CpeRow.Says, hbad]
  · next hgood =>
      rw [Bool.not_eq_true] at hgood
      cases cur with
      | none =>
          refine ⟨_, c, x, _, rfl, .refl _, .take det hrow, fun cveId => ?_⟩
          rw [hfresh hgood]
          simp [OpenOn]
      | some g =>
          simp only
          split
          · next hsame =>
              refine ⟨_, c, x, _, rfl, .refl _, ?_, fun cveId => ?_⟩
              · rintro g' ⟨rfl⟩
                exact hcur g rfl
              · have hid : (g.take det row).cveId = g.cveId := rfl
                simp only [false_or, OpenOn, Option.some.injEq, exists_eq_left', decided_take, hid,
                  CpeRow.Says, hgood, hsame, true_and]
                tauto
          · obtain ⟨c', x', heval, hwrote⟩ := flushGroup_quiet hf hport c h (hcur g rfl)
            refine ⟨_, c', x', _, ?_, hwrote, .take det hrow, fun cveId => ?_⟩
            · rw [Prog.eval_bind, heval]
              rfl
            · rw [hfresh hgood]

theorem candidateLoop_quiet (rows : List CpeRow) {cur : Option Group} (c : PersistCounts)
    {x : ℕ × Tables} (h : Ready scanId x.2) (hrows : ∀ row ∈ rows, (x.2.cves row.cveId).isSome)
    (hcur : GroupKnown x.2 cur) :
    ∃ cur' c' x' cves, (candidateLoop scanId det rows cur c).eval env x =
        ((cur', c', false), x') ∧
      Wrote env scanId det cves x.2 x'.2 ∧ GroupKnown x.2 cur' ∧
      ∀ cveId, cves cveId ∨ OpenOn cur' cveId ↔
        OpenOn cur cveId ∨ ∃ row ∈ rows, row.Says det cveId := by
  induction rows generalizing cur c x with
  | nil => exact ⟨cur, c, x, _, rfl, .refl _, hcur, by simp⟩
  | cons row rows ih =>
      obtain ⟨cur₁, c₁, x₁, ids₁, htake, hwrote₁, hcur₁, hids₁⟩ :=
        takeCandidate_quiet hf hport c h (hrows row List.mem_cons_self) hcur
      have hcves := hwrote₁.cves
      obtain ⟨cur₂, c₂, x₂, ids₂, hloop, hwrote₂, hcur₂, hids₂⟩ :=
        ih (x := (x₁.1 + 1, x₁.2)) c₁ (hwrote₁.ready h)
          (fun r hr => by
            rw [hcves]
            exact hrows r (List.mem_cons_of_mem _ hr))
          (fun g hg => by
            rw [hcves]
            exact hcur₁ g hg)
      refine ⟨cur₂, c₂, x₂, _, ?_, hwrote₁.trans hwrote₂, fun g hg => ?_, fun cveId => ?_⟩
      · rw [candidateLoop, Prog.eval_bind, htake]
        simp only [Bool.false_eq_true, if_false, Prog.eval_bind, attempt_quiet hf, if_true, hloop]
      · have hg' := hcur₂ g hg
        rwa [hcves] at hg'
      · rw [or_assoc, hids₂, ← or_assoc, hids₁, or_assoc, List.exists_mem_cons_iff]

theorem flushLast_quiet {cur : Option Group} (c : PersistCounts) {x : ℕ × Tables}
    (h : Ready scanId x.2) (hcur : GroupKnown x.2 cur) :
    ∃ c' x', (flushLast scanId det cur c).eval env x = ((c', false), x') ∧
      Wrote env scanId det (OpenOn cur) x.2 x'.2 := by
  cases cur with
  | none => exact ⟨c, x, rfl, (Wrote.refl _).congr fun _ => by simp [OpenOn]⟩
  | some g => exact flushGroup_quiet hf hport c h (hcur g rfl)

omit hport in
theorem updateMalformedDataCount_quiet (malformedEvents : ℕ) {x : ℕ × Tables}
    (h : Ready scanId x.2) :
    ∃ x', (updateMalformedDataCount scanId malformedEvents).eval env x = (true, x') ∧
      Ready scanId x'.2 ∧ x'.2.scanResults = x.2.scanResults ∧ Frame scanId x.2 x'.2 := by
  obtain ⟨d, hd⟩ : ∃ d, malformedCountUpdate scanId malformedEvents (env.clock (x.1 + 1 + 2)) x.2 =
      some d := ⟨_, rfl⟩
  refine ⟨(x.1 + 1 + 2 + 1, d), ?_, ?_⟩
  · rw [updateMalformedDataCount, Prog.eval_bind, attempt_quiet hf]
    simp only [if_true, Prog.eval_bind, attemptAll_quiet hf,
      exec_quiet hf (.step .malformedCount) (x := (x.1 + 1 + 2, x.2)) hd]
    rfl
  · rw [malformedCountUpdate, Option.some.injEq] at hd
    subst hd
    refine ⟨⟨h.cves, h.cpe, h.epss, ?_⟩, rfl, ⟨fun row hrow => ?_, rfl⟩⟩
    · simpa using h.scan
    · refine ⟨row.malformedDataCount + malformedEvents, ?_⟩
      simp [hrow]

/-- The transaction of a detected service runs to its end. -/
theorem detectBody_quiet (vendor product : Bytes) {x : ℕ × Tables} (h : Ready scanId x.2) :
    ∃ c x' rows, (detectBody scanId vendor product det).eval env x = ((c, true), x') ∧
      Ready scanId x'.2 ∧ Frame scanId x.2 x'.2 ∧ x'.2.scanResults = x.2.scanResults ++ rows ∧
      (∀ row ∈ rows, det.WrittenAs env scanId row) ∧
      ∀ cveId, (∃ row ∈ rows, row.cveId = some cveId) ↔
        ∃ row ∈ x.2.cveCpeMatches, isCandidate vendor product row = true ∧
          row.Says det cveId := by
  have hcand : ∀ row ∈ candidates vendor product x.2, (x.2.cves row.cveId).isSome := by
    intro row hrow
    rw [candidates, List.mem_insertionSort] at hrow
    exact h.cpe row (List.mem_filter.mp hrow).1
  have hnone : GroupKnown x.2 none := by
    intro g hg
    cases hg
  obtain ⟨cur, c₁, x₁, ids, hloop, hwrote₁, hcur, hids⟩ := candidateLoop_quiet hf hport
    (candidates vendor product x.2) .zero (x := (x.1 + groupStatements.length + 2 + 1, x.2))
    h hcand hnone
  have hready₁ := hwrote₁.ready h
  have hcur₁ : GroupKnown x₁.2 cur := by
    intro g hg
    rw [hwrote₁.cves]
    exact hcur g hg
  obtain ⟨c₂, x₂, hlast, hwrote₂⟩ := flushLast_quiet hf hport c₁ hready₁ hcur₁
  have hready₂ := hwrote₂.ready hready₁
  obtain ⟨rows, hd₂, hrows, hcves⟩ := hwrote₁.trans hwrote₂
  obtain ⟨x₃, hupdate, hready₃, hres₃, hframe₃⟩ :=
    updateMalformedDataCount_quiet hf c₂.malformedEvents hready₂
  have hframe₂ : Frame scanId x.2 x₂.2 := by
    rw [hd₂]
    exact .of_eq rfl rfl
  refine ⟨c₂, x₃, rows, ?_, hready₃, hframe₂.trans hframe₃, ?_, hrows, fun cveId => ?_⟩
  · rw [detectBody, Prog.eval_bind, prepareStatements_quiet hf]
    simp only [Bool.not_true, Bool.false_eq_true, if_false, Prog.eval_bind, attemptAll_quiet hf,
      Prog.eval_select, hf, hloop, hlast, hupdate]
    rfl
  · rw [hres₃, hd₂]
  · rw [← hcves]
    simp only [hids]
    simp [OpenOn, candidates, and_assoc]

end Detection

/-- The arguments that `cytadel_scan_detect_and_persist` does not refuse. -/
def Detection.Takes (det : Detection) (scanId : ℤ) (vendor product : Bytes) : Prop :=
  det.badArgs scanId = false ∧ (lowercaseCopy vendor).isSome ∧ (lowercaseCopy product).isSome

/-- A detected service is persisted, or its arguments are refused. -/
theorem scanDetectAndPersist_quiet (hf : ∀ n k, env.fault n k = false) {s : Session Tables ρ}
    (hs : s.txn = none) (h : Ready scanId s.committed) (vendor product : Bytes) (det : Detection) :
    ∃ rows, (scanDetectAndPersist env scanId vendor product det s).status ≠ .errDb ∧
      (scanDetectAndPersist env scanId vendor product det s).session.txn = none ∧
      Ready scanId (scanDetectAndPersist env scanId vendor product det s).session.committed ∧
      Frame scanId s.committed
        (scanDetectAndPersist env scanId vendor product det s).session.committed ∧
      (scanDetectAndPersist env scanId vendor product det s).session.committed.scanResults =
        s.committed.scanResults ++ rows ∧
      (∀ row ∈ rows, det.WrittenAs env scanId row) ∧
      ∀ cveId, (∃ row ∈ rows, row.cveId = some cveId) ↔ det.Takes scanId vendor product ∧
        ∃ row ∈ s.committed.cveCpeMatches,
          isCandidate (vendor.map toLowerAscii) (product.map toLowerAscii) row = true ∧
            row.Says det cveId := by
  have hrefused : ¬ det.Takes scanId vendor product →
      s.txn = none ∧ Ready scanId s.committed ∧ Frame scanId s.committed s.committed ∧
      s.committed.scanResults = s.committed.scanResults ++ [] ∧
      (∀ row ∈ ([] : List ScanResultRow), det.WrittenAs env scanId row) ∧
      ∀ cveId, (∃ row ∈ ([] : List ScanResultRow), row.cveId = some cveId) ↔
        det.Takes scanId vendor product ∧ ∃ row ∈ s.committed.cveCpeMatches,
          isCandidate (vendor.map toLowerAscii) (product.map toLowerAscii) row = true ∧
            row.Says det cveId := fun hnot =>
    ⟨hs, h, .of_eq rfl rfl, by simp, by simp, by simp [hnot]⟩
  rw [scanDetectAndPersist]
  by_cases hargs : det.badArgs scanId = true
  · rw [if_pos hargs]
    exact ⟨[], by simp, hrefused (by simp [Detection.Takes, hargs])⟩
  · rw [if_neg hargs]
    rw [Bool.not_eq_true] at hargs
    have hport : 0 ≤ det.port ∧ det.port ≤ 65535 := by
      simp only [Detection.badArgs, Bool.or_eq_false_iff, decide_eq_false_iff_not] at hargs
      omega
    cases hv : lowercaseCopy vendor with
    | none => exact ⟨[], by simp, hrefused (by simp [Detection.Takes, hv])⟩
    | some vendorLc =>
        cases hp : lowercaseCopy product with
        | none => exact ⟨[], by simp, hrefused (by simp [Detection.Takes, hp])⟩
        | some productLc =>
            have htakes : det.Takes scanId vendor product :=
              ⟨hargs, by rw [hv]; rfl, by rw [hp]; rfl⟩
            obtain ⟨c, x, rows, hbody, hready, hframe, hres, hrows, hcves⟩ :=
              detectBody_quiet hf hport vendorLc productLc (x := (s.calls + 1, s.committed)) h
            have hbegin : s.begin env .begin = (true, s.inTxn (s.calls + 1, s.committed)) := by
              simp [Session.begin, hf, hs, Session.inTxn, Session.tick]
            rw [lowercaseCopy_eq hv, lowercaseCopy_eq hp] at hcves
            refine ⟨rows, ?_⟩
            simp only [hbegin, Bool.not_true, Bool.false_eq_true, if_false, Prog.run_inTxn, hbody,
              Session.commit_inTxn, hf]
            exact ⟨by simp, rfl, hready, hframe, hres, hrows, fun cveId => by
              rw [hcves]
              simp [htakes]⟩

end Cytadel.Db
