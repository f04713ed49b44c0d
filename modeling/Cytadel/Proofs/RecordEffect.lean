import Cytadel.Db.EpssIngest
import Cytadel.Proofs.NvdEffect

/-!
# What one KEV or EPSS record can do

Both feeds read a record off an element, or skip it, and then write a
placeholder and the row itself. `RecordEffect` is the one relation for both: a
skipped record leaves the tables as they were, or with its own placeholder.
-/

namespace Cytadel.Db

open Cytadel Lib

variable {env : Env Call Bytes}

/-- How a feed reads an element: the id, and the statement that writes the
row. -/
abbrev Reader := Json → Option (Bytes × (Bytes → Tables → Option Tables))

def kevReader : Reader := fun e =>
  if e.isObject then (readKev e).map fun r => (r.cveId, kevUpsert r) else none

def epssReader (w : World) : Reader := fun e =>
  if e.isObject then (readEpss w e).map fun r => (r.cveId, epssUpsert r) else none

/-- One element, given how it is read. -/
def processRecord (read : Reader) (st : Stmt) (binds : ℕ) (e : Json) (c : RecordCounts) :
    Sql (RecordCounts × Bool) :=
  match read e with
  | none => pure (c.skip, false)
  | some p => writeWithPlaceholder p.1 st binds p.2 c

theorem kevFeed_processOne (complete : Bool) :
    (kevFeed complete).processOne = processRecord kevReader .kevUpsert 9 := by
  funext e c
  change processOneKev e c = _
  rw [processOneKev, processRecord, kevReader]
  cases e.isObject <;> cases readKev e <;> rfl

theorem epssFeed_processOne (w : World) (complete : Bool) :
    (epssFeed w complete).processOne = processRecord (epssReader w) .epssUpsert 4 := by
  funext e c
  change processOneEpss w e c = _
  rw [processOneEpss, processRecord, epssReader]
  cases e.isObject <;> cases readEpss w e <;> rfl

/-! ## The placeholder -/

/-- The tables with a placeholder for an id that has no row. -/
def withPlaceholder (cveId nowTs now : Bytes) (d : Tables) : Tables :=
  match d.cves cveId with
  | some _ => d
  | none => { d with cves := Function.update d.cves cveId (some (placeholderRow nowTs now)) }

theorem insertPlaceholder_eq (cveId nowTs now : Bytes) (d : Tables) :
    insertPlaceholder cveId nowTs now d = some (withPlaceholder cveId nowTs now d) := by
  have hcheck : (placeholderRow nowTs now).check = true := rfl
  rw [insertPlaceholder, hcheck, withPlaceholder]
  cases d.cves cveId <;> rfl

/-- The placeholder touches `cves` alone. -/
theorem withPlaceholder_frame (cveId nowTs now : Bytes) (d : Tables) :
    withPlaceholder cveId nowTs now d =
      { d with cves := (withPlaceholder cveId nowTs now d).cves } := by
  rw [withPlaceholder]
  cases d.cves cveId <;> rfl

theorem insertPlaceholder_frame {cveId nowTs now : Bytes} {d d' : Tables}
    (h : insertPlaceholder cveId nowTs now d = some d') : d' = { d with cves := d'.cves } := by
  rw [insertPlaceholder_eq, Option.some.injEq] at h
  rw [← h]
  exact withPlaceholder_frame cveId nowTs now d

/-- After the placeholder the id has a row. -/
theorem withPlaceholder_isSome (cveId nowTs now : Bytes) (d : Tables) :
    ((withPlaceholder cveId nowTs now d).cves cveId).isSome = true := by
  rw [withPlaceholder]
  cases h : d.cves cveId with
  | some row => simp [h]
  | none => simp

theorem readEpss_check {w : World} {e : Json} {r : EpssRecord} (h : readEpss w e = some r)
    (now : Bytes) : (r.row now).check = true := by
  simp only [readEpss, Option.bind_eq_bind, Option.bind_eq_some_iff, Option.pure_def,
    Option.some.injEq] at h
  obtain ⟨_, -, score, ⟨sraw, -, hs⟩, pct, ⟨praw, -, hp⟩, _, -, rfl⟩ := h
  have hbounds : ∀ {raw q}, parseProbabilityString w raw = some q → 0 ≤ q ∧ q ≤ 1 := by
    intro raw q hq
    rw [parseProbabilityString] at hq
    split at hq
    · cases hq
    · simp only at hq
      split at hq
      · cases hq
      · exact Number.within_bounds hq
  simp only [EpssRow.check, EpssRecord.row, checkReal, Option.all_some, Bool.and_eq_true,
    decide_eq_true_eq]
  exact ⟨hbounds hs, hbounds hp⟩

theorem readKev_check {e : Json} {r : KevRecord} (h : readKev e = some r) (now : Bytes) :
    (r.row now).check = true := by
  simp only [readKev, Option.bind_eq_bind, Option.bind_eq_some_iff, Option.pure_def,
    Option.some.injEq] at h
  obtain ⟨_, -, _, -, _, -, _, -, _, -, rfl⟩ := h
  simp only [KevRow.check, KevRecord.row]
  split <;> rfl

/-- Where the id has a row, the statement of a record that was read is never
refused. -/
def Reader.Admitted (read : Reader) : Prop :=
  ∀ e id up, read e = some (id, up) → ∀ now (d : Tables), (d.cves id).isSome = true →
    (up now d).isSome = true

theorem kevReader_admitted : kevReader.Admitted := by
  intro e id up h now d hrow
  rw [kevReader] at h
  split at h
  · cases hr : readKev e with
    | none => simp [hr] at h
    | some r =>
        simp only [hr, Option.map_some, Option.some.injEq, Prod.mk.injEq] at h
        obtain ⟨rfl, rfl⟩ := h
        rw [kevUpsert, readKev_check hr now]
        cases d.kev r.cveId <;> simp [Option.isSome_iff_ne_none.mp hrow]
  · cases h

theorem epssReader_admitted (w : World) : (epssReader w).Admitted := by
  intro e id up h now d hrow
  rw [epssReader] at h
  split at h
  · cases hr : readEpss w e with
    | none => simp [hr] at h
    | some r =>
        simp only [hr, Option.map_some, Option.some.injEq, Prod.mk.injEq] at h
        obtain ⟨rfl, rfl⟩ := h
        rw [epssUpsert, readEpss_check hr now]
        simp [Option.isSome_iff_ne_none.mp hrow]
  · cases h

/-! ## One record -/

/-- The ways one readable record can go: a bind of the placeholder fails, a
call fails for good, a bind of the row fails with the placeholder in place, or
the row is written. -/
theorem processRecord_cases (env : Env Call Bytes) {read : Reader} (had : read.Admitted)
    (st : Stmt) (binds : ℕ) {e : Json} {id : Bytes} {up : Bytes → Tables → Option Tables}
    (hr : read e = some (id, up)) (c : RecordCounts) (x : ℕ × Tables) :
    (∃ i, env.fault i (.bind .placeholder) = true ∧
      ∃ n, (processRecord read st binds e c).eval env x = ((c.skip, false), n, x.2)) ∨
    (∃ out, (processRecord read st binds e c).eval env x = ((c, true), out)) ∨
    (∃ nowTs now, (∃ i, env.fault i (.bind st) = true) ∧
      ∃ n, (processRecord read st binds e c).eval env x =
        ((c.skip, false), n, withPlaceholder id nowTs now x.2)) ∨
    (∃ nowTs now now' d, up now' (withPlaceholder id nowTs now x.2) = some d ∧
      ∃ n, (processRecord read st binds e c).eval env x = ((c.ingest, false), n, d)) := by
  rw [processRecord, hr]
  simp only [writeWithPlaceholder, Prog.eval_bind, Prog.eval_timestamp]
  cases hts : env.fault x.1 .timestamp with
  | true => exact Or.inr (Or.inl ⟨_, rfl⟩)
  | false =>
      simp only [Bool.false_eq_true, if_false, Prog.eval_bind]
      obtain ⟨-, hb⟩ | ⟨i, -, hf, hb⟩ :=
        Prog.attemptAll_cases env (Call.bind .placeholder) 3 (x.1 + 1, x.2)
      · rw [hb]
        simp only [if_true, Prog.eval_bind]
        obtain ⟨-, hs⟩ | ⟨-, hn, hs⟩ | ⟨-, d₁, hd₁, hs⟩ :=
          Prog.exec_cases env (Call.step .placeholder)
            (insertPlaceholder id (env.clock x.1)) (x.1 + 1 + 3, x.2)
        · rw [hs]
          exact Or.inr (Or.inl ⟨_, rfl⟩)
        · rw [insertPlaceholder_eq] at hn
          cases hn
        · rw [insertPlaceholder_eq, Option.some.injEq] at hd₁
          rw [hs]
          simp only [Prog.eval_bind]
          obtain ⟨-, hb'⟩ | ⟨i, -, hf, hb'⟩ :=
            Prog.attemptAll_cases env (Call.bind st) binds (x.1 + 1 + 3 + 1, d₁)
          · rw [hb']
            simp only [if_true, Prog.eval_bind]
            obtain ⟨-, hs'⟩ | ⟨-, hn, hs'⟩ | ⟨-, d, hd, hs'⟩ :=
              Prog.exec_cases env (Call.step st) up (x.1 + 1 + 3 + 1 + binds, d₁)
            · rw [hs']
              exact Or.inr (Or.inl ⟨_, rfl⟩)
            · have hsome := had e id up hr (env.clock (x.1 + 1 + 3 + 1 + binds)) d₁
                (by rw [← hd₁]; exact withPlaceholder_isSome _ _ _ _)
              simp only at hn
              rw [hn] at hsome
              cases hsome
            · rw [hs']
              refine Or.inr (Or.inr (Or.inr ⟨env.clock x.1, env.clock (x.1 + 1 + 3),
                env.clock (x.1 + 1 + 3 + 1 + binds), d, ?_, _, rfl⟩))
              exact hd₁ ▸ hd
          · rw [hb']
            refine Or.inr (Or.inr (Or.inl ⟨env.clock x.1, env.clock (x.1 + 1 + 3),
              ⟨_, hf⟩, x.1 + 1 + 3 + 1 + i + 1, ?_⟩))
            exact hd₁ ▸ rfl
      · rw [hb]
        exact Or.inl ⟨_, hf, _, rfl⟩

/-- What one record does to the counts and the tables. It is skipped, because it
is not read or a bind of its placeholder fails; or a bind of its own statement
fails, and only the placeholder is there; or it is written behind it. -/
inductive RecordEffect (env : Env Call Bytes) (read : Reader) (st : Stmt) (e : Json) :
    RecordCounts × Tables → RecordCounts × Tables → Prop
  | skipped (c : RecordCounts) (d : Tables)
      (why : read e = none ∨ ∃ n, env.fault n (.bind .placeholder) = true) :
      RecordEffect env read st e (c, d) (c.skip, d)
  | placed (c : RecordCounts) {d d₁ : Tables} {id nowTs now : Bytes}
      {up : Bytes → Tables → Option Tables} (hread : read e = some (id, up))
      (why : ∃ n, env.fault n (.bind st) = true)
      (hplace : insertPlaceholder id nowTs now d = some d₁) :
      RecordEffect env read st e (c, d) (c.skip, d₁)
  | ingested (c : RecordCounts) {d d₁ d' : Tables} {id nowTs now now' : Bytes}
      {up : Bytes → Tables → Option Tables} (hread : read e = some (id, up))
      (hplace : insertPlaceholder id nowTs now d = some d₁) (hup : up now' d₁ = some d') :
      RecordEffect env read st e (c, d) (c.ingest, d')

theorem processRecord_effect {read : Reader} (had : read.Admitted) {st : Stmt} {binds : ℕ}
    {e : Json} {c c' : RecordCounts} {x x' : ℕ × Tables}
    (h : (processRecord read st binds e c).eval env x = ((c', false), x')) :
    RecordEffect env read st e (c, x.2) (c', x'.2) := by
  cases hr : read e with
  | none =>
      rw [processRecord, hr, Prog.eval_pure] at h
      cases h
      exact .skipped _ _ (Or.inl hr)
  | some p =>
      obtain ⟨id, up⟩ := p
      obtain ⟨i, hf, n, he⟩ | ⟨out, he⟩ | ⟨ts, now, hf, n, he⟩ | ⟨ts, now, now', d, hd, n, he⟩ :=
        processRecord_cases env had st binds hr c x <;> rw [he] at h <;> cases h
      · exact .skipped _ _ (Or.inr ⟨i, hf⟩)
      · exact .placed c hr hf (insertPlaceholder_eq _ _ _ _)
      · exact .ingested c hr (insertPlaceholder_eq _ _ _ _) hd

end Cytadel.Db
