import Cytadel.Db.Migrations

/-!
# What a migrated file can be

The abstract migrator does one thing at a time: it makes the bookkeeping table,
or it applies the first migration that is not recorded and records it. Whatever
it has done since the file was empty, the schema is that of the first so many
migrations, and those are the ones recorded.

The code is a race of such migrators, for which `Lib.Race` has the rules. What
a connection reads is out of date as soon as it is read; the key of the record
is what stands between it and a second application. So a program that holds the
lock and was let record a migration has applied the first one that was missing.
-/

namespace Cytadel.Db

open Cytadel Lib Lib.Race Relation

section Prefix

variable {σ : Type} (sqlite : Bytes → σ → Option σ)

/-! ## The abstract migrator -/

def applyStatements (sqls : List Bytes) (schema : σ) : Option σ :=
  sqls.foldlM (fun schema sql => sqlite sql schema) schema

def Migration.apply (m : Migration) (schema : σ) : Option σ :=
  applyStatements sqlite m.statements.flatten schema

/-- Each migration of the list once, in order. -/
def applyMigrations (ms : List Migration) (schema : σ) : Option σ :=
  ms.foldlM (fun schema m => m.apply sqlite schema) schema

variable (ms : List Migration)

/-- One thing done. -/
inductive Advance : Database σ → Database σ → Prop
  | create (schema : σ) : Advance ⟨schema, none⟩ ⟨schema, some []⟩
  | migrate {schema schema' : σ} {rows : List MigrationRow} {m : Migration} {appliedAt : Bytes} :
      ms[rows.length]? = some m → m.apply sqlite schema = some schema' →
      Advance ⟨schema, some rows⟩ ⟨schema', some (rows ++ [⟨m.version, m.description, appliedAt⟩])⟩

/-- The schema is that of the first `k` migrations, and they are recorded. -/
structure AtPrefix (blank : σ) (k : ℕ) (d : Database σ) : Prop where
  le : k ≤ ms.length
  schema : applyMigrations sqlite (ms.take k) blank = some d.schema
  recorded : d.rows.map (fun r => (r.version, r.description)) =
    (ms.take k).map fun m => (m.version, m.description)

/-- From `d` to `d'` the migrations after the first `k` were applied and
recorded, and nothing else. -/
structure AppliedRest (k : ℕ) (d d' : Database σ) : Prop where
  schema : applyMigrations sqlite (ms.drop k) d.schema = some d'.schema
  recorded : ∃ new, d'.rows = d.rows ++ new ∧
    new.map (fun r => (r.version, r.description)) =
      (ms.drop k).map fun m => (m.version, m.description)

variable {sqlite ms} {blank : σ} {k : ℕ} {d d' : Database σ}

theorem AtPrefix.length_rows (h : AtPrefix sqlite ms blank k d) : d.rows.length = k := by
  have hlen := congrArg List.length h.recorded
  rw [List.length_map, List.length_map, List.length_take] at hlen
  rw [hlen]
  exact Nat.min_eq_left h.le

theorem AtPrefix.versions (h : AtPrefix sqlite ms blank k d) :
    d.rows.map MigrationRow.version = (ms.take k).map Migration.version := by
  have hfst := congrArg (List.map Prod.fst) h.recorded
  rw [List.map_map, List.map_map] at hfst
  exact hfst

theorem atPrefix_empty : AtPrefix sqlite ms blank 0 (Database.empty blank) where
  le := Nat.zero_le _
  schema := rfl
  recorded := rfl

/-- One step of the migrator. -/
theorem AtPrefix.advance (h : AtPrefix sqlite ms blank k d) (hd : Advance sqlite ms d d') :
    ∃ k', AtPrefix sqlite ms blank k' d' := by
  cases hd with
  | create schema => exact ⟨k, h.le, h.schema, h.recorded⟩
  | @migrate schema schema' rows m appliedAt hm happly =>
      have hk : rows.length = k := h.length_rows
      rw [hk] at hm
      have htake : ms.take (k + 1) = ms.take k ++ [m] := by
        rw [List.take_add_one, hm]
        rfl
      refine ⟨k + 1, (List.getElem?_eq_some_iff.mp hm).1, ?_, ?_⟩
      · have hschema := h.schema
        simp only [applyMigrations] at hschema ⊢
        rw [htake, List.foldlM_append, hschema]
        simpa using happly
      · have hrec : rows.map (fun r => (r.version, r.description)) = _ := h.recorded
        simp only [Database.rows, Option.getD_some, List.map_append, hrec, htake]
        rfl

/-- A run of the migrator. -/
theorem atPrefix_of_reached (hd : ReflTransGen (Advance sqlite ms) (Database.empty blank) d) :
    ∃ k, AtPrefix sqlite ms blank k d := by
  induction hd with
  | refl => exact ⟨0, atPrefix_empty⟩
  | tail _ hstep ih =>
      obtain ⟨k, hk⟩ := ih
      exact hk.advance hstep

/-- What is recorded stays recorded. -/
theorem rows_of_later (hd : ReflTransGen (Advance sqlite ms) d d') : d.rows <+: d'.rows := by
  induction hd with
  | refl => exact List.prefix_rfl
  | tail _ hstep ih =>
      refine ih.trans ?_
      cases hstep with
      | create schema => exact List.prefix_rfl
      | migrate _ _ => exact List.prefix_append _ _

/-- Once every migration is recorded there is nothing left to do. -/
theorem eq_of_later (hms : ms ≠ []) (h : AtPrefix sqlite ms blank ms.length d)
    (hd : ReflTransGen (Advance sqlite ms) d d') : d' = d := by
  obtain heq | ⟨c, hstep, -⟩ := ReflTransGen.cases_head hd
  · exact heq.symm
  · have hlen := h.length_rows
    cases hstep with
    | create schema => exact absurd (List.length_eq_zero_iff.mp hlen.symm) hms
    | @migrate _ _ rows _ _ hm _ =>
        have hrows : rows.length = ms.length := hlen
        rw [hrows, List.getElem?_eq_none (Nat.le_refl _)] at hm
        cases hm

theorem AtPrefix.rest (h : AtPrefix sqlite ms blank k d)
    (h' : AtPrefix sqlite ms blank ms.length d')
    (hd : ReflTransGen (Advance sqlite ms) d d') : AppliedRest sqlite ms k d d' where
  schema := by
    have hall := h'.schema
    have hk := h.schema
    simp only [applyMigrations] at hall hk ⊢
    rw [List.take_length, ← List.take_append_drop k ms, List.foldlM_append, hk] at hall
    exact hall
  recorded := by
    obtain ⟨new, hnew⟩ := rows_of_later hd
    refine ⟨new, hnew.symm, ?_⟩
    have hall := h'.recorded
    rw [← hnew, List.map_append, h.recorded, List.take_length] at hall
    rw [← List.take_append_drop k ms, List.map_append, List.take_append_drop] at hall
    exact List.append_cancel_left hall

end Prefix

/-! ## One client -/

section Client

variable {σ : Type} [DecidableEq σ] {sqlite : Bytes → σ → Option σ} {ms : List Migration}

/-- Inside a transaction, `done` is what was executed in it so far. -/
def Executed (sqlite : Bytes → σ → Option σ) (done : List Bytes) (seen : Database σ) :
    Handle (Database σ) → Prop
  | .deferred => done = []
  | .writing copy => applyStatements sqlite done seen.schema = some copy.schema ∧
      copy.schemaMigrations = seen.schemaMigrations
  | _ => False

variable {seen d : Database σ} {h : Handle (Database σ)} {done : List Bytes}

omit [DecidableEq σ] in
theorem Executed.ne_autocommit (hex : Executed sqlite done seen h) : h ≠ .autocommit := by
  rintro rfl
  exact hex

omit [DecidableEq σ] in
theorem Executed.fits (hex : Executed sqlite done seen h)
    (hfits : h.Fits (Advance sqlite ms) seen d) : Executed sqlite done d h := by
  cases h with
  | writing copy => exact hfits.base rfl ▸ hex
  | _ => exact hex

omit [DecidableEq σ] in
theorem Executed.view (hex : Executed sqlite done d h) :
    applyStatements sqlite done d.schema = some (h.view d).schema ∧
      (h.view d).schemaMigrations = d.schemaMigrations := by
  cases h with
  | deferred =>
      cases hex
      exact ⟨rfl, rfl⟩
  | writing copy => exact hex
  | autocommit => exact hex.elim
  | reading snapshot => exact hex.elim

theorem safe_execStatement (sql : Bytes) (hex : Executed sqlite done seen h) :
    Safe (Advance sqlite ms) (fun b d h' => b = true → Executed sqlite (done ++ [sql]) d h')
      (execStatement sqlite sql) seen h := by
  have hstep : Safe (Advance sqlite ms)
      (fun r d h' => r = .done → Executed sqlite (done ++ [sql]) d h')
      (Prog.exec .statement fun (_ : Bytes) d =>
        (sqlite sql d.schema).map fun schema => { d with schema := schema }) seen h := by
    refine safe_exec_inTxn hex.ne_autocommit (fun _ _ _ hr h => absurd h hr) ?_
    intro now d new hfits hnew _
    obtain ⟨happly, hrows⟩ := (hex.fits hfits).view
    obtain ⟨schema, hschema, rfl⟩ := Option.map_eq_some_iff.mp hnew
    refine ⟨?_, hrows⟩
    rw [applyStatements] at happly ⊢
    rw [List.foldlM_append, happly]
    simpa using hschema
  refine hstep.bind fun r d h' _ hr hb => hr ?_
  exact beq_iff_eq.mp hb

theorem safe_execBatch (batch : List Bytes) (hex : Executed sqlite done seen h) :
    Safe (Advance sqlite ms) (fun b d h' => b = true → Executed sqlite (done ++ batch) d h')
      (execBatch sqlite batch) seen h := by
  induction batch generalizing done seen h with
  | nil =>
      intro _
      rw [List.append_nil]
      exact hex
  | cons sql batch ih =>
      rw [execBatch]
      refine (safe_execStatement sql hex).bind fun b d h' _ hb => ?_
      cases b with
      | false => exact fun hfalse => absurd hfalse (by simp)
      | true =>
          rw [List.append_cons]
          exact ih (hb rfl)

theorem safe_execBatches (batches : List (List Bytes)) (hex : Executed sqlite done seen h) :
    Safe (Advance sqlite ms)
      (fun b d h' => b = true → Executed sqlite (done ++ batches.flatten) d h')
      (execBatches sqlite batches) seen h := by
  induction batches generalizing done seen h with
  | nil =>
      intro _
      rw [List.flatten_nil, List.append_nil]
      exact hex
  | cons batch batches ih =>
      rw [execBatches]
      refine (safe_execBatch batch hex).bind fun b d h' _ hb => ?_
      cases b with
      | false => exact fun hfalse => absurd hfalse (by simp)
      | true =>
          rw [List.flatten_cons, ← List.append_assoc]
          exact ih (hb rfl)

/-- The migrations are numbered from one, upwards. -/
structure Numbered (ms : List Migration) : Prop where
  positive : ∀ m ∈ ms, 0 < m.version
  ascending : ms.Pairwise fun m m' => m.version < m'.version

variable {blank : σ} {i : ℕ} {m : Migration}

omit [DecidableEq σ] in
/-- A migration that its record is accepted for is the first one missing. -/
theorem length_rows_of_insert
    (hd : ReflTransGen (Advance sqlite ms) (Database.empty blank) d) (hm : ms[i]? = some m)
    (hi : i ≤ d.rows.length) {rows : List MigrationRow} (hrows : d.schemaMigrations = some rows)
    (hnew : ¬ (rows.any fun r => r.version == m.version) = true) : rows.length = i := by
  obtain ⟨k, hk⟩ := atPrefix_of_reached hd
  have hdrows : d.rows = rows := by rw [Database.rows, hrows, Option.getD_some]
  have hlen := hk.length_rows
  have hversions := hk.versions
  rw [hdrows] at hi hlen hversions
  refine Nat.le_antisymm (Nat.not_lt.mp fun hlt => hnew ?_) hi
  have hmem : m.version ∈ (ms.take k).map Migration.version := by
    refine List.mem_map_of_mem (List.mem_of_getElem? (i := i) ?_)
    rw [List.getElem?_take_of_lt (hlen ▸ hlt)]
    exact hm
  rw [← hversions] at hmem
  obtain ⟨r, hr, heq⟩ := List.mem_map.mp hmem
  exact List.any_eq_true.mpr ⟨r, hr, beq_iff_eq.mpr heq⟩

omit [DecidableEq σ] in
/-- The record, on the data that a connection with the lock stands on. -/
theorem advance_of_insert {appliedAt : Bytes} {new : Database σ}
    (hd : ReflTransGen (Advance sqlite ms) (Database.empty blank) d) (hm : ms[i]? = some m)
    (hi : i ≤ d.rows.length) (hex : Executed sqlite m.statements.flatten d h)
    (hnew : (h.view d).insertMigration ⟨m.version, m.description, appliedAt⟩ = some new) :
    Advance sqlite ms d new ∧ i < new.rows.length := by
  obtain ⟨happly, hsame⟩ := hex.view
  rw [Database.insertMigration, hsame] at hnew
  cases hrows : d.schemaMigrations with
  | none =>
      rw [hrows] at hnew
      cases hnew
  | some rows =>
      rw [hrows] at hnew
      simp only at hnew
      split at hnew
      · cases hnew
      · next hfree =>
          obtain rfl := length_rows_of_insert hd hm hi hrows hfree
          obtain ⟨schema, schemaMigrations⟩ := d
          cases hrows
          cases hnew
          refine ⟨.migrate hm happly, ?_⟩
          rw [Database.rows, Option.getD_some, List.length_append]
          exact Nat.lt_succ_self _

/-- The record of a migration whose statements were all executed. -/
theorem safe_recordMigration (hd : ReflTransGen (Advance sqlite ms) (Database.empty blank) seen)
    (hm : ms[i]? = some m) (hi : i ≤ seen.rows.length)
    (hex : Executed sqlite m.statements.flatten seen h) :
    Safe (Advance sqlite ms) (fun b d h' => b = true → ∃ copy, h' = .writing copy ∧
        Advance sqlite ms d copy ∧ i < copy.rows.length)
      (recordMigration m) seen h := by
  rw [recordMigration]
  have htime : Safe (Advance sqlite ms)
      (fun now d h' => now ≠ none → h' = h ∧ Executed sqlite m.statements.flatten d h)
      (Prog.timestamp .host : Script σ (Option Bytes)) seen h :=
    safe_timestamp (fun _ _ h => absurd rfl h) fun _ d hfits _ => ⟨rfl, hex.fits hfits⟩
  refine htime.bind fun now d h' hlater hnow => ?_
  cases now with
  | none => exact fun hfalse => absurd hfalse (by simp)
  | some appliedAt =>
      obtain ⟨rfl, hex⟩ := hnow (by simp)
      have hprepare : Safe (Advance sqlite ms)
          (fun b d h'' => b = true → h'' = h' ∧ Executed sqlite m.statements.flatten d h')
          (Prog.attempt .host : Script σ Bool) d h' :=
        safe_attempt_host (fun _ _ h => absurd h (by simp)) fun d hfits _ => ⟨rfl, hex.fits hfits⟩
      refine hprepare.bind fun b d' h'' hlater' hb => ?_
      cases b with
      | false => exact fun hfalse => absurd hfalse (by simp)
      | true =>
          obtain ⟨rfl, hex⟩ := hb rfl
          have hbinds : Safe (Advance sqlite ms)
              (fun b d h' => b = true → h' = h'' ∧ Executed sqlite m.statements.flatten d h'')
              (Prog.attemptAll .host 3 : Script σ Bool) d' h'' :=
            safe_attemptAll_host (I := fun d => Executed sqlite m.statements.flatten d h'') 3
              (fun _ _ h => absurd h (by simp)) (fun _ _ hex hfits => hex.fits hfits)
              (fun d hex _ => ⟨rfl, hex⟩) hex
          refine hbinds.bind fun b d'' h' hlater'' hb => ?_
          cases b with
          | false => exact fun hfalse => absurd hfalse (by simp)
          | true =>
              obtain ⟨rfl, hex⟩ := hb rfl
              have hrows := (hlater.trans hlater').trans hlater''
              have hinsert : Safe (Advance sqlite ms)
                  (fun r d h'' => r = .done → ∃ copy, h'' = .writing copy ∧
                    Advance sqlite ms d copy ∧ i < copy.rows.length)
                  (Prog.exec .statement fun (_ : Bytes) d =>
                    d.insertMigration ⟨m.version, m.description, appliedAt⟩) d'' h' := by
                refine safe_exec_inTxn hex.ne_autocommit (fun _ _ _ hr h => absurd h hr) ?_
                intro _ e new hfits hnew _
                have he := hrows.trans hfits.later
                exact ⟨new, rfl, advance_of_insert (hd.trans he) hm
                  (hi.trans (rows_of_later he).length_le) (hex.fits hfits) hnew⟩
              exact hinsert.bind fun r _ _ _ hr hb => hr (beq_iff_eq.mp hb)

theorem safe_migrationBody (hd : ReflTransGen (Advance sqlite ms) (Database.empty blank) seen)
    (hm : ms[i]? = some m) (hi : i ≤ seen.rows.length) :
    Safe (Advance sqlite ms) (fun b d h' => b = true → ∃ copy, h' = .writing copy ∧
        Advance sqlite ms d copy ∧ i < copy.rows.length)
      (migrationBody sqlite m) seen .deferred := by
  rw [migrationBody]
  have hnone : Executed sqlite [] seen .deferred := rfl
  refine (safe_execBatches m.statements hnone).bind fun b d h' hlater hb => ?_
  cases b with
  | false => exact fun hfalse => absurd hfalse (by simp)
  | true =>
      exact safe_recordMigration (hd.trans hlater) hm (hi.trans (rows_of_later hlater).length_le)
        (hb rfl)

theorem safe_rolledBack {Q : DbStatus → Database σ → Handle (Database σ) → Prop}
    (hQ : ∀ d h', Q .errMigration d h') :
    Safe (Advance sqlite ms) Q (rolledBack : Script σ DbStatus) seen h := by
  rw [rolledBack]
  have hany : Safe (Advance sqlite ms) (fun _ _ _ => True)
      (Prog.attempt .rollback : Script σ Bool) seen h := safe_rollback fun _ _ _ => trivial
  exact hany.bind fun _ d h' _ _ => hQ d h'

/-- A migration that succeeds was committed, and outside any transaction. -/
theorem safe_runMigration (hd : ReflTransGen (Advance sqlite ms) (Database.empty blank) seen)
    (hm : ms[i]? = some m) (hi : h = .autocommit → i ≤ seen.rows.length) :
    Safe (Advance sqlite ms)
      (fun status d h' => status = .ok → h = .autocommit ∧ h' = .autocommit ∧ i < d.rows.length)
      (runMigration sqlite m) seen h := by
  rw [runMigration]
  have hbegin : Safe (Advance sqlite ms) (fun b _ h' => b = true → h = .autocommit ∧ h' = .deferred)
      (Prog.attempt .begin : Script σ Bool) seen h :=
    safe_begin (fun _ _ h => absurd h (by simp)) fun hauto _ _ _ => ⟨hauto, rfl⟩
  refine hbegin.bind fun b d h' hlater hb => ?_
  cases b with
  | false => exact fun hfalse => absurd hfalse (by simp)
  | true =>
      obtain ⟨rfl, rfl⟩ := hb rfl
      have hbody := safe_migrationBody (hd.trans hlater) hm
        ((hi rfl).trans (rows_of_later hlater).length_le)
      refine hbody.bind fun b d h' _ hb => ?_
      cases b with
      | false => exact safe_rolledBack fun _ _ hfalse => absurd hfalse (by simp)
      | true =>
          obtain ⟨copy, rfl, hadvance, hcount⟩ := hb rfl
          have hcommit : Safe (Advance sqlite ms)
              (fun b d h' => b = true → h' = .autocommit ∧ i < d.rows.length)
              (Prog.attempt .commit : Script σ Bool) d (.writing copy) :=
            safe_commit (fun _ _ h => absurd h (by simp)) hadvance fun _ => ⟨rfl, hcount⟩
          refine hcommit.bind fun b d h' _ hb => ?_
          cases b with
          | false => exact safe_rolledBack fun _ _ hfalse => absurd hfalse (by simp)
          | true => exact fun _ => ⟨rfl, hb rfl⟩

/-- Every migration up to version `v` is recorded. -/
def Knows (ms : List Migration) (v : ℤ) (d : Database σ) : Prop :=
  ∀ i m, ms[i]? = some m → m.version ≤ v → i < d.rows.length

omit [DecidableEq σ] in
theorem Knows.later {v : ℤ} (hv : Knows ms v seen)
    (hd : ReflTransGen (Advance sqlite ms) seen d) : Knows ms v d :=
  fun i m hm hle => (hv i m hm hle).trans_le (rows_of_later hd).length_le

/-- The loop from index `i` on. A connection in a transaction comes no further
than the first migration that it would have to run. -/
theorem safe_runMigrations {v : ℤ} (rest : List Migration) (hrest : ms.drop i = rest)
    (hd : ReflTransGen (Advance sqlite ms) (Database.empty blank) seen)
    (hauto : h = .autocommit → Knows ms v seen) (hi : Knows ms v seen → i ≤ seen.rows.length) :
    Safe (Advance sqlite ms)
      (fun status d _ => status = .ok → Knows ms v d → ms.length ≤ d.rows.length)
      (runMigrations sqlite v rest) seen h := by
  induction rest generalizing i seen h with
  | nil =>
      intro _ hv
      exact (List.drop_eq_nil_iff.mp hrest).trans (hi hv)
  | cons m rest ih =>
      have hm : ms[i]? = some m := by
        rw [← Nat.add_zero i, ← List.getElem?_drop, hrest, List.getElem?_cons_zero]
      have hrest' : ms.drop (i + 1) = rest := by
        rw [← List.tail_drop, hrest, List.tail_cons]
      rw [runMigrations]
      split
      · next hle => exact ih hrest' hd hauto fun hv => hv i m hm hle
      · have hmig := safe_runMigration hd hm fun h => hi (hauto h)
        refine hmig.bind fun status d h' hlater hstatus => ?_
        cases status with
        | ok =>
            obtain ⟨hh, -, hcount⟩ := hstatus rfl
            exact ih hrest' (hd.trans hlater) (fun _ => (hauto hh).later hlater) fun _ => hcount
        | errMigration => exact fun hfalse => absurd hfalse (by simp)
        | errQuery => exact fun hfalse => absurd hfalse (by simp)

/-! ## The current version -/

theorem maxVersion_mem {rows : List MigrationRow} (hpos : 0 < maxVersion rows) :
    maxVersion rows ∈ rows.map MigrationRow.version := by
  rw [maxVersion] at hpos ⊢
  cases hmax : (rows.map MigrationRow.version).max? with
  | none =>
      rw [hmax] at hpos
      exact absurd hpos (lt_irrefl _)
  | some v => exact List.max?_mem hmax

omit [DecidableEq σ] in
/-- The version of any part of the records is a version up to which all is
recorded. -/
theorem knows_maxVersion (hms : Numbered ms)
    (hd : ReflTransGen (Advance sqlite ms) (Database.empty blank) d) {rows : List MigrationRow}
    (hrows : rows <+: d.rows) : Knows ms (maxVersion rows) d := by
  intro i m hm hle
  obtain ⟨k, hk⟩ := atPrefix_of_reached hd
  rw [hk.length_rows]
  have hpos := (hms.positive m (List.mem_of_getElem? hm)).trans_le hle
  have hmem := (hrows.map MigrationRow.version).subset (maxVersion_mem hpos)
  rw [hk.versions] at hmem
  obtain ⟨m', hm', hv⟩ := List.mem_map.mp hmem
  obtain ⟨j, hj⟩ := List.getElem?_of_mem hm'
  rw [List.getElem?_take] at hj
  split at hj
  · next hjk =>
      refine lt_of_le_of_lt (Nat.not_lt.mp fun hji => ?_) hjk
      obtain ⟨hilen, rfl⟩ := List.getElem?_eq_some_iff.mp hm
      obtain ⟨hjlen, rfl⟩ := List.getElem?_eq_some_iff.mp hj
      have hlt := List.pairwise_iff_getElem.mp hms.ascending j i hjlen hilen hji
      rw [hv] at hlt
      exact absurd hle (not_le.mpr hlt)
  · cases hj

omit [DecidableEq σ] in
/-- What a connection sees of the records stays part of them. -/
theorem view_rows (hfits : h.Fits (Advance sqlite ms) seen d)
    (hview : (h.view seen).rows <+: seen.rows) : (h.view d).rows <+: d.rows := by
  cases h with
  | autocommit => exact List.prefix_rfl
  | deferred => exact List.prefix_rfl
  | reading snapshot => exact rows_of_later (hfits.snapshot snapshot rfl)
  | writing copy => exact hfits.base rfl ▸ hview

omit [DecidableEq σ] in
theorem view_read (hfits : h.Fits (Advance sqlite ms) seen d) (hh : h.isWriting = false) :
    ((h.read d).view d).rows <+: d.rows := by
  cases h with
  | reading snapshot => exact rows_of_later (hfits.snapshot snapshot rfl)
  | writing copy => cases hh
  | _ => exact List.prefix_rfl

/-- A connection that has written nothing of its own sees part of the records. -/
theorem safe_ensureSchemaMigrations :
    Safe (Advance sqlite ms)
      (fun b d h' => b = true → h.isWriting = false → (h'.view d).rows <+: d.rows)
      (ensureSchemaMigrations : Script σ Bool) seen h := by
  rw [ensureSchemaMigrations]
  have hlook : Safe (Advance sqlite ms)
      (fun there d h' => there ≠ none → h.isWriting = false → (h'.view d).rows <+: d.rows)
      (Prog.select .statement fun d => d.schemaMigrations.isSome : Script σ (Option Bool))
      seen h :=
    safe_select (fun _ _ h => absurd rfl h) fun d hfits _ => view_read hfits
  refine hlook.bind fun there d h' _ hthere => ?_
  cases there with
  | none => exact fun hfalse => absurd hfalse (by simp)
  | some there =>
      have hview := hthere (by simp)
      cases there with
      | true => exact fun _ => hview
      | false =>
          have hcreate : Safe (Advance sqlite ms)
              (fun r d h'' => r = .done → h.isWriting = false → (h''.view d).rows <+: d.rows)
              (Prog.exec .statement fun (_ : Bytes) d =>
                some { d with schemaMigrations := some d.rows }) d h' := by
            by_cases hh : h' = .autocommit
            · subst hh
              refine safe_exec_autocommit (fun _ _ _ hr h => absurd h hr) ?_
              intro _ e new _ hnew
              refine ⟨?_, fun _ _ => List.prefix_rfl⟩
              cases hnew
              obtain ⟨schema, schemaMigrations⟩ := e
              cases schemaMigrations with
              | none => exact .single (.create schema)
              | some rows => exact .refl
            · refine safe_exec_inTxn hh (fun _ _ _ hr h => absurd h hr) ?_
              intro _ e new hfits hnew _ hclean
              have hrows : (h'.view e).rows <+: e.rows := view_rows hfits (hview hclean)
              cases hnew
              exact hrows
          exact hcreate.bind fun r _ _ _ hr hb => hr (beq_iff_eq.mp hb)

/-- The version that is read is true of the file, unless the connection reads
what it wrote itself. -/
theorem safe_currentVersion (hms : Numbered ms)
    (hd : ReflTransGen (Advance sqlite ms) (Database.empty blank) seen) :
    Safe (Advance sqlite ms) (fun r d h' => r ≠ .error .ok ∧ ∀ v, r = .ok v →
        (h' = .autocommit → Knows ms v d) ∧ (h.isWriting = false → Knows ms v d))
      (currentVersion : Script σ (Except DbStatus ℤ)) seen h := by
  rw [currentVersion]
  refine safe_ensureSchemaMigrations.bind fun b d h' hlater hb => ?_
  cases b with
  | false => exact ⟨by simp, fun v hv => absurd hv (by simp)⟩
  | true =>
      have hview := hb rfl
      have hprepare : Safe (Advance sqlite ms)
          (fun b d h' => b = true → h.isWriting = false → (h'.view d).rows <+: d.rows)
          (Prog.attempt .host : Script σ Bool) d h' :=
        safe_attempt_host (fun _ _ h => absurd h (by simp))
          fun e hfits _ hclean => view_rows hfits (hview hclean)
      refine hprepare.bind fun b d' h'' hlater' hb => ?_
      cases b with
      | false => exact ⟨by simp, fun v hv => absurd hv (by simp)⟩
      | true =>
          have hview := hb rfl
          have hselect : Safe (Advance sqlite ms)
              (fun r d h' => ∀ v, r = some (some v) →
                (h' = .autocommit → Knows ms v d) ∧ (h.isWriting = false → Knows ms v d))
              (Prog.select .statement fun d => d.schemaMigrations.map maxVersion :
                Script σ (Option (Option ℤ))) d' h'' := by
            refine safe_select (fun _ _ _ h => absurd h (by simp)) fun e hfits v hv => ?_
            have he := ((hd.trans hlater).trans hlater').trans hfits.later
            obtain ⟨rows, hrows, rfl⟩ := Option.map_eq_some_iff.mp (Option.some.inj hv)
            have hseen : (h''.view e).rows = rows := by
              rw [Database.rows, hrows, Option.getD_some]
            rw [← hseen]
            refine ⟨fun hauto => knows_maxVersion hms he ?_, fun hclean =>
              knows_maxVersion hms he (view_rows hfits (hview hclean))⟩
            cases h'' with
            | autocommit => exact List.prefix_rfl
            | _ => cases hauto
          refine hselect.bind fun r e h' _ hr => ?_
          split
          · refine ⟨by simp, fun v hv => ?_⟩
            cases hv
            exact hr _ rfl
          · exact ⟨by simp, fun v hv => absurd hv (by simp)⟩

/-- One call: on success every migration is recorded in the file, unless the
connection was still in a transaction in which it has written. -/
theorem safe_migrationsRun (hms : Numbered migrations)
    (hd : ReflTransGen (Advance sqlite migrations) (Database.empty blank) seen) :
    Safe (Advance sqlite migrations)
      (fun status d _ => status = .ok → h.isWriting = false → migrations.length ≤ d.rows.length)
      (migrationsRun sqlite) seen h := by
  rw [migrationsRun]
  refine (safe_currentVersion hms hd).bind fun r d h' hlater hr => ?_
  cases r with
  | error status =>
      intro hok
      exact absurd (congrArg Except.error hok) hr.1
  | ok v =>
      obtain ⟨hauto, hclean⟩ := hr.2 v rfl
      have hrun := safe_runMigrations migrations List.drop_zero (hd.trans hlater) hauto
        fun _ => Nat.zero_le _
      refine hrun.later.mono fun status e _ hstatus hok hh => ?_
      exact hstatus.2 hok ((hclean hh).later hstatus.1)

end Client

/-! ## The race -/

theorem numbered_migrations : Numbered migrations where
  positive := by simp [migrations]
  ascending := by simp [migrations]

section Race

variable {σ : Type} [DecidableEq σ] (sqlite : Bytes → σ → Option σ) (blank : σ)
variable {ι : Type} [Fintype ι] [DecidableEq ι]

theorem safe_started (seen : Database σ) (h : Handle (Database σ))
    (hd : ReflTransGen (Advance sqlite migrations) (Database.empty blank) seen) :
    Safe (Advance sqlite migrations) (fun _ _ _ => True) (migrationsRun sqlite) seen h :=
  (safe_migrationsRun numbered_migrations hd).mono fun _ _ _ _ => trivial

/-- The file is one that the abstract migrator reaches. -/
theorem sound_run (moves : List (Move ι Bytes)) :
    (System.run (migrationsRun sqlite) (System.idle (Database.empty blank)) moves).Sound
        (Advance sqlite migrations) ∧
      ReflTransGen (Advance sqlite migrations) (Database.empty blank)
        (System.run (migrationsRun sqlite) (System.idle (Database.empty blank)) moves).committed :=
  (System.sound_idle (Database.empty blank)).run .refl (safe_started sqlite blank) moves

/-- What the runner promises of a file, as clients have left it. -/
structure MigrationsKept (s : System ι Bytes (Database σ) DbStatus) : Prop where
  /-- It is that of some first migrations, each applied once and recorded. -/
  reached : ∃ k, AtPrefix sqlite migrations blank k s.committed
  /-- A call that is alone and succeeds applies the rest. -/
  resumes : ∀ k i os, AtPrefix sqlite migrations blank k s.committed →
    (s.client i).task = none → (s.client i).handle.isWriting = false →
    ((s.run (migrationsRun sqlite) (System.alone i os)).client i).returned = some .ok →
    AppliedRest sqlite migrations k s.committed
      (s.run (migrationsRun sqlite) (System.alone i os)).committed
  /-- When all are recorded nothing changes any more. -/
  latest : AtPrefix sqlite migrations blank migrations.length s.committed →
    ∀ moves, (s.run (migrationsRun sqlite) moves).committed = s.committed

/-- After any moves of any clients, with any calls failing. -/
theorem migrationsRun_kept (moves : List (Move ι Bytes)) :
    MigrationsKept sqlite blank
      (System.run (migrationsRun sqlite) (System.idle (Database.empty blank)) moves) := by
  obtain ⟨hsound, hd⟩ := sound_run sqlite blank moves
  generalize System.run (migrationsRun sqlite) (System.idle (Database.empty blank)) moves = s
    at hsound hd
  constructor
  · exact atPrefix_of_reached hd
  · intro k i os hk htask hclean hok
    have hlater := (hsound.run hd (safe_started sqlite blank) (System.alone i os)).2
    obtain ⟨seen, hfits, -⟩ := hsound.client i
    have hcount := System.safe_alone htask hfits.self
      (safe_migrationsRun numbered_migrations hd) hok rfl hclean
    obtain ⟨k', hk'⟩ := atPrefix_of_reached (hd.trans hlater)
    rw [hk'.length_rows] at hcount
    obtain rfl := Nat.le_antisymm hk'.le hcount
    exact hk.rest hk' hlater
  · intro hall more
    exact eq_of_later (by simp [migrations]) hall (hsound.run hd (safe_started sqlite blank) more).2

end Race

/-! ## A connection that was left in its transaction -/

/-- An SQLite for which a schema is the statements that made it. -/
def statementLog (sql : Bytes) (schema : List Bytes) : Option (List Bytes) := some (schema ++ [sql])

/-- The last COMMIT of a first call failed, and its ROLLBACK too. -/
def leftPending : System (Fin 2) Bytes (Database (List Bytes)) DbStatus :=
  System.run (migrationsRun statementLog) (System.idle (Database.empty []))
    (System.alone 0 (List.replicate 49 (.success []) ++ [.failure, .failure]) ++ [.finish 0])

/-- The same connection tries again, and nothing fails. -/
def retriedPending : System (Fin 2) Bytes (Database (List Bytes)) DbStatus :=
  leftPending.run (migrationsRun statementLog) (System.alone 0 (List.replicate 3 (.success [])))

/-- It reads the version that it wrote itself, and has nothing to do. -/
theorem migrationsRun_pending :
    AtPrefix statementLog migrations [] 2 leftPending.committed ∧
      (leftPending.client 0).task = none ∧
      (retriedPending.client 0).returned = some .ok ∧
      ¬ AppliedRest statementLog migrations 2 leftPending.committed retriedPending.committed := by
  have hrun : (leftPending.client 0).task.isNone = true ∧
      (retriedPending.client 0).returned = some .ok ∧ leftPending.committed.rows.length = 2 ∧
      retriedPending.committed.rows.length = 2 := by
    decide +kernel
  obtain ⟨htask, hok, hleft, hretried⟩ := hrun
  refine ⟨?_, Option.isNone_iff_eq_none.mp htask, hok, fun hrest => ?_⟩
  · obtain ⟨k, hk⟩ : ∃ k, AtPrefix statementLog migrations [] k leftPending.committed :=
      atPrefix_of_reached (sound_run statementLog [] _).2
    obtain rfl : k = 2 := hk.length_rows.symm.trans hleft
    exact hk
  · obtain ⟨new, hnew, hrec⟩ := hrest.recorded
    have hlen := congrArg List.length hrec
    rw [hnew, List.length_append, hleft] at hretried
    simp [migrations] at hlen
    omega

end Cytadel.Db
