import Cytadel.Lib.Upsert
import Cytadel.Proofs.RecordEffect

/-!
# What a document of records does to the tables

The KEV and the EPSS feed write alike: a placeholder for an id without a row,
and behind it a row of their own table. `RecordTable` is what the two share.
What a list of writes leaves is read off the list: a placeholder for the new
ids, and at each id the last row, merged into what stood there or into the
first. The times of the writes are left out of account throughout.
-/

namespace Cytadel.Db

open Cytadel Lib

variable {α Row : Type}

/-! ## Rows without their times -/

/-- A row of `cves` without the times at which it was written: the publication
of a placeholder is one of them. -/
def CveRow.unstamped (r : CveRow) : CveRow :=
  if r.source = ascii "placeholder" then
    { r with published := [], lastModified := [], ingestedAt := [] }
  else { r with ingestedAt := [] }

def KevRow.unstamped (r : KevRow) : KevRow := { r with syncedAt := [] }

def EpssRow.unstamped (r : EpssRow) : EpssRow := { r with syncedAt := [] }

/-! ## The statements -/

theorem kevUpsert_eq {r : KevRecord} {now : Bytes} {d d' : Tables}
    (h : kevUpsert r now d = some d') :
    d' = { d with kev := upsert KevRow.onConflict d.kev (r.cveId, r.row now) } := by
  rw [kevUpsert] at h
  split at h
  · cases h
  · split at h
    · next old hold =>
        rw [Option.some.injEq] at h
        rw [← h, upsert, hold]
        rfl
    · next hold =>
        split at h
        · cases h
        · rw [Option.some.injEq] at h
          rw [← h, upsert, hold]
          rfl

theorem epssUpsert_eq {r : EpssRecord} {now : Bytes} {d d' : Tables}
    (h : epssUpsert r now d = some d') :
    d' = { d with epss := upsert (fun _ new => new) d.epss (r.cveId, r.row now) } := by
  rw [epssUpsert] at h
  split at h
  · cases h
  · split at h
    · cases h
    · rw [Option.some.injEq] at h
      rw [← h, upsert]
      cases d.epss r.cveId <;> rfl

theorem withPlaceholder_cves (id nowTs now : Bytes) (d : Tables) (key : Bytes) :
    (withPlaceholder id nowTs now d).cves key =
      if d.cves key = none ∧ key = id then some (placeholderRow nowTs now) else d.cves key := by
  rw [withPlaceholder]
  cases h : d.cves id with
  | some row =>
      rw [if_neg]
      rintro ⟨hnone, rfl⟩
      rw [h] at hnone
      cases hnone
  | none =>
      simp only
      by_cases hkey : key = id
      · rw [if_pos ⟨hkey ▸ h, hkey⟩, hkey, Function.update_self]
      · rw [if_neg fun hand => hkey hand.2, Function.update_of_ne hkey]

/-- A placeholder, and perhaps the row behind it, written at some times. -/
def RecordWritten (idOf : α → Bytes) (up : α → Bytes → Tables → Option Tables) (i : α × Bool)
    (d d' : Tables) : Prop :=
  ∃ nowTs now, if i.2 then ∃ now', up i.1 now' (withPlaceholder (idOf i.1) nowTs now d) = some d'
    else d' = withPlaceholder (idOf i.1) nowTs now d

theorem recordSyncUpdate_tables {feed : Feed} {complete : Bool} {records : ℕ} {now : Bytes}
    {d d' : Tables} (h : recordSyncUpdate feed complete records now d = some d') :
    d'.cves = d.cves ∧ d'.cveCpeMatches = d.cveCpeMatches ∧ d'.kev = d.kev ∧ d'.epss = d.epss := by
  simp only [recordSyncUpdate, Option.some.injEq] at h
  subst h
  exact ⟨rfl, rfl, rfl, rfl⟩

/-! ## Documents -/

/-- Where a feed keeps the rows of its records, and what its upsert does
there. -/
structure RecordTable (α Row : Type) where
  idOf : α → Bytes
  row : α → Bytes → Row
  merge : Row → Row → Row
  unstamped : Row → Row
  table : Tables → Bytes → Option Row
  upsert : α → Bytes → Tables → Option Tables
  table_withPlaceholder : ∀ id nowTs now d, table (withPlaceholder id nowTs now d) = table d
  table_upsert : ∀ a now d d', upsert a now d = some d' →
    table d' = Lib.upsert merge (table d) (idOf a, row a now)
  cves_upsert : ∀ a now d d', upsert a now d = some d' → d'.cves = d.cves
  merge_merge : ∀ a b c, merge (merge a b) c = merge a c
  merge_self : ∀ a, merge a a = a
  unstamped_merge : ∀ a b, unstamped (merge a b) = merge (unstamped a) (unstamped b)
  unstamped_row : ∀ a now, unstamped (row a now) = row a []

namespace RecordTable

variable (T : RecordTable α Row)

def rowsOf (records : List α) : List (Bytes × Row) :=
  records.map fun a => (T.idOf a, T.row a [])

/-- The records that did not stay at their placeholder. -/
def written (kept : List (α × Bool)) : List α := (kept.filter (·.2)).map (·.1)

variable {T : RecordTable α Row}

/-- Every placeholder looks like this, whenever it was written. -/
def blank : CveRow := (placeholderRow [] []).unstamped

/-- The writes of one record: its placeholder, and its row if it was kept. -/
theorem written_cves {i : α × Bool} {d d' : Tables}
    (h : RecordWritten T.idOf T.upsert i d d') (id : Bytes) :
    (d'.cves id).map CveRow.unstamped =
      if d.cves id = none ∧ id = T.idOf i.1 then some blank
      else (d.cves id).map CveRow.unstamped := by
  obtain ⟨nowTs, now, h⟩ := h
  have hcves : d'.cves = (withPlaceholder (T.idOf i.1) nowTs now d).cves := by
    split at h
    · obtain ⟨now', h⟩ := h
      exact T.cves_upsert _ _ _ _ h
    · rw [h]
  rw [hcves, withPlaceholder_cves]
  split <;> rfl

theorem written_table {i : α × Bool} {d d' : Tables}
    (h : RecordWritten T.idOf T.upsert i d d') :
    ∃ ups : List (Bytes × Row), T.table d' = ups.foldl (Lib.upsert T.merge) (T.table d) ∧
      ups.map (fun i => (i.1, T.unstamped i.2)) = T.rowsOf (written [i]) := by
  obtain ⟨nowTs, now, h⟩ := h
  obtain ⟨a, wrote⟩ := i
  cases wrote with
  | true =>
      obtain ⟨now', h⟩ := h
      refine ⟨[(T.idOf a, T.row a now')], ?_, ?_⟩
      · rw [T.table_upsert _ _ _ _ h, T.table_withPlaceholder]
        rfl
      · simp only [List.map_cons, List.map_nil, T.unstamped_row]
        rfl
  | false =>
      refine ⟨[], ?_, rfl⟩
      simp only [Bool.false_eq_true, if_false] at h
      rw [h, T.table_withPlaceholder]
      rfl

theorem steps_cves {kept : List (α × Bool)} {d d' : Tables}
    (h : Steps (RecordWritten T.idOf T.upsert) kept d d') (id : Bytes) :
    (d'.cves id).map CveRow.unstamped =
      if d.cves id = none ∧ id ∈ kept.map (fun i => T.idOf i.1) then some blank
      else (d.cves id).map CveRow.unstamped := by
  induction h with
  | nil => simp
  | @cons i rest d d₁ d' hone _ ih =>
      have hone := written_cves hone id
      cases hold : d.cves id with
      | some row =>
          rw [hold, if_neg (by simp)] at hone
          have hne : d₁.cves id ≠ none := by
            intro hnone
            rw [hnone] at hone
            cases hone
          rw [ih, if_neg fun hand => hne hand.1, hone, if_neg (by simp)]
      | none =>
          rw [hold] at hone
          by_cases hid : id = T.idOf i.1
          · rw [if_pos ⟨rfl, hid⟩] at hone
            have hne : d₁.cves id ≠ none := by
              intro hnone
              rw [hnone] at hone
              cases hone
            rw [ih, if_neg fun hand => hne hand.1, hone, if_pos ⟨rfl, by simp [hid]⟩]
          · rw [if_neg fun hand => hid hand.2] at hone
            have hnone : d₁.cves id = none := by simpa using hone
            rw [ih, hnone]
            refine if_congr (and_congr_right fun _ => ?_) rfl rfl
            rw [List.map_cons, List.mem_cons, or_iff_right hid]

theorem steps_table {kept : List (α × Bool)} {d d' : Tables}
    (h : Steps (RecordWritten T.idOf T.upsert) kept d d') :
    ∃ ups : List (Bytes × Row), T.table d' = ups.foldl (Lib.upsert T.merge) (T.table d) ∧
      ups.map (fun i => (i.1, T.unstamped i.2)) = T.rowsOf (written kept) := by
  induction h with
  | nil => exact ⟨[], rfl, rfl⟩
  | @cons i rest d d₁ d' hone _ ih =>
      obtain ⟨ups, htab, hups⟩ := written_table hone
      obtain ⟨ups', htab', hups'⟩ := ih
      refine ⟨ups ++ ups', by rw [htab', htab, List.foldl_append], ?_⟩
      rw [List.map_append, hups, hups', rowsOf, rowsOf, rowsOf, ← List.map_append, written,
        written, written, ← List.map_append, ← List.filter_append]
      rfl

theorem steps_rows {kept : List (α × Bool)} {d d' : Tables}
    (h : Steps (RecordWritten T.idOf T.upsert) kept d d') (id : Bytes) :
    (T.table d' id).map T.unstamped =
      (settled T.merge (T.table d id) (rowsAt id (T.rowsOf (written kept)))).map
        T.unstamped := by
  obtain ⟨ups, htab, hups⟩ := steps_table h
  have hrows : (rowsAt id (T.rowsOf (written kept))).map T.unstamped =
      rowsAt id (T.rowsOf (written kept)) := by
    rw [← rowsAt_map, rowsOf, List.map_map]
    simp only [Function.comp_def, T.unstamped_row]
  rw [htab, settled_map T.unstamped_merge, hrows, ← hups]
  exact foldl_upsert_settled T.merge_merge T.merge_self T.unstamped_merge ups (T.table d) id

end RecordTable

/-! ## The tables of the two feeds -/

def kevTable : RecordTable KevRecord KevRow where
  idOf := KevRecord.cveId
  row := KevRecord.row
  merge := KevRow.onConflict
  unstamped := KevRow.unstamped
  table := Tables.kev
  upsert := kevUpsert
  table_withPlaceholder id nowTs now d := by rw [withPlaceholder_frame]
  table_upsert a now d d' h := by rw [kevUpsert_eq h]
  cves_upsert a now d d' h := by rw [kevUpsert_eq h]
  merge_merge _ _ _ := rfl
  merge_self _ := rfl
  unstamped_merge _ _ := rfl
  unstamped_row _ _ := rfl

def epssTable : RecordTable EpssRecord EpssRow where
  idOf := EpssRecord.cveId
  row := EpssRecord.row
  merge := fun _ new => new
  unstamped := EpssRow.unstamped
  table := Tables.epss
  upsert := epssUpsert
  table_withPlaceholder id nowTs now d := by rw [withPlaceholder_frame]
  table_upsert a now d d' h := by rw [epssUpsert_eq h]
  cves_upsert a now d d' h := by rw [epssUpsert_eq h]
  merge_merge _ _ _ := rfl
  merge_self _ := rfl
  unstamped_merge _ _ := rfl
  unstamped_row _ _ := rfl

/-- The tables that the writes of a feed do not touch. -/
theorem recordSteps_frame {idOf : α → Bytes} {up : α → Bytes → Tables → Option Tables}
    {γ : Type} (view : Tables → γ) (hup : ∀ a now d d', up a now d = some d' → view d' = view d)
    (hplace : ∀ (d : Tables) cves, view { d with cves := cves } = view d)
    {kept : List (α × Bool)} {d d' : Tables} (h : Steps (RecordWritten idOf up) kept d d') :
    view d' = view d := by
  refine h.invariant (P := fun t => view t = view d) (fun i _ t t' hstep ht => ?_) rfl
  obtain ⟨nowTs, now, hstep⟩ := hstep
  split at hstep
  · obtain ⟨now', hstep⟩ := hstep
    rw [hup _ _ _ _ hstep, withPlaceholder_frame, hplace, ht]
  · rw [hstep, withPlaceholder_frame, hplace, ht]

end Cytadel.Db
