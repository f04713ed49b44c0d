import Cytadel.Cli.ScanGate

/-!
# What the authorization record says of the targets

The description of the targets goes through a buffer of 512 bytes on its way
into `scans.target_spec`, and the parser of the targets takes far longer
specs. The record is whole exactly when the description fits, and two scans of
different specs share their record exactly when the specs agree up to there.
-/

namespace Cytadel.Db

open Cytadel Lib

/-- A scan that was created has its row, durably, and nothing else is new. -/
theorem scanCreate_committed {ρ : Type} {env : Env Call Bytes} {scanId : ℤ}
    {targetSpec authorizedBy : Bytes} {method : AuthorizationMethod} {s : Session Tables ρ}
    (hs : s.txn = none)
    (h : ((scanCreate scanId targetSpec authorizedBy method).run env s).1 = true) :
    ∃ now, ((scanCreate scanId targetSpec authorizedBy method).run env s).2.committed =
      { s.committed with
        scans := Function.update s.committed.scans scanId
          (some (newScanRow targetSpec authorizedBy method now)) } := by
  rw [scanCreate, Prog.run_bind, Prog.run_attempt] at h ⊢
  cases hp : env.fault s.calls (.prepare .scanInsert) with
  | true =>
      simp only [hp, Bool.not_true, Bool.false_eq_true, if_false] at h
      cases h
  | false =>
      simp only [hp, Bool.not_false, if_true, Prog.run_bind] at h ⊢
      obtain ⟨b, n, hb⟩ := Prog.run_attemptAll env (.bind .scanInsert) 3 s.tick
      rw [hb] at h ⊢
      cases b with
      | false => cases h
      | true =>
          simp only [if_true, Prog.run_bind] at h ⊢
          have hdone := Prog.run_exec_done (s := { s.tick with calls := n }) hs (beq_iff_eq.mp h)
          rw [insertScan, Option.some.injEq] at hdone
          exact ⟨env.clock n, hdone.symm⟩

end Cytadel.Db

namespace Cytadel.Cli

open Cytadel Cytadel.Db Cytadel.Net Lib

/-- The database is opened, migrated, and has the row of the scan. -/
theorem openGate_ok_iff {w : GateWorld} {dbPath targetSpec authorizedBy : Bytes}
    {method : AuthorizationMethod} {s : Session Tables Unit} {scanId : ℤ} :
    openGate w dbPath targetSpec authorizedBy method = .ok (s, scanId) ↔
      dbPath ≠ [] ∧ targetSpec ≠ [] ∧ authorizedBy ≠ [] ∧
      ∃ d₀ d, w.dbOpen dbPath = some d₀ ∧ w.dbMigrate d₀ = some d ∧ scanId = w.newScanId d ∧
        (scanCreate scanId targetSpec authorizedBy method).run w.env d.connect = (true, s) := by
  constructor
  · intro h
    simp only [openGate] at h
    split at h
    · cases h
    · next hargs =>
        split at h
        · cases h
        · next d₀ hopen =>
            split at h
            · cases h
            · next d hmigrate =>
                split at h
                · next hcreated =>
                    simp only [Except.ok.injEq, Prod.mk.injEq] at h
                    obtain ⟨rfl, rfl⟩ := h
                    simp only [Bool.or_eq_true, not_or, List.isEmpty_iff] at hargs
                    exact ⟨hargs.1.1, hargs.1.2, hargs.2, d₀, d, hopen, hmigrate, rfl,
                      Prod.ext hcreated rfl⟩
                · cases h
  · intro h
    obtain ⟨hpath, htarget, hauthorized, d₀, d, hopen, hmigrate, rfl, hcreated⟩ := h
    have hargs : ¬ (dbPath.isEmpty || targetSpec.isEmpty || authorizedBy.isEmpty) = true := by
      simp only [Bool.or_eq_true, not_or, List.isEmpty_iff]
      exact ⟨⟨hpath, htarget⟩, hauthorized⟩
    simp only [openGate, if_neg hargs, hopen, hmigrate, hcreated, if_true]

/-- The way through the gate: an authorization, and a database under its path. -/
theorem passGate_ok_iff {w : GateWorld} {args : CliArgs} {s : Session Tables Unit} {scanId : ℤ} :
    passGate w args = .ok (s, scanId) ↔
      ∃ method dbPath,
        authGateDecide args.hasIAmAuthorized w.isStdinTty (some w.prompt) = .authorized method ∧
        w.dbPath = some dbPath ∧
        openGate w dbPath (describeTargets args targetDescSize)
          (args.authorizedBy.getD w.defaultOperator) method = .ok (s, scanId) := by
  constructor
  · intro h
    rw [passGate] at h
    simp only at h
    split at h
    · cases h
    · next method hmethod =>
        split at h
        · cases h
        · next dbPath hpath =>
            split at h
            · cases h
            · split at h
              · cases h
              · next opened hgate =>
                  cases h
                  exact ⟨method, dbPath, hmethod, hpath, hgate⟩
  · intro ⟨method, dbPath, hmethod, hpath, hgate⟩
    have hempty : ¬ dbPath.isEmpty = true := fun h =>
      (openGate_ok_iff.mp hgate).1 (List.isEmpty_iff.mp h)
    simp only [passGate, hmethod, hpath, if_neg hempty, hgate]

/-- A scan that has started was described, recorded and then expanded. -/
theorem startScan_started {w : GateWorld} {args : CliArgs} {scanId : ℤ} {targets : List Target}
    {s : Session Tables Unit} (h : startScan w args = .started scanId targets s) :
    (∃ row, s.committed.scans scanId = some row ∧
      row.targetSpec = describeTargets args targetDescSize) ∧
    targetListParse w.net 256 args.targetSpec args.targetsFile = .ok targets := by
  rw [startScan] at h
  split at h
  · next start hpass =>
      -- the gate itself starts nothing
      subst h
      simp only [passGate] at hpass
      repeat' split at hpass
      all_goals cases hpass
  · next s₁ id₁ hpass =>
      split at h
      · cases h
      · next targets₁ hparse =>
          simp only [ScanStart.started.injEq] at h
          obtain ⟨rfl, rfl, rfl⟩ := h
          refine ⟨?_, hparse⟩
          obtain ⟨method, dbPath, -, -, hgate⟩ := passGate_ok_iff.mp hpass
          obtain ⟨-, -, -, d₀, d, -, -, rfl, hcreated⟩ := openGate_ok_iff.mp hgate
          obtain ⟨now, hd⟩ := scanCreate_committed rfl (congrArg Prod.fst hcreated)
          rw [hcreated] at hd
          have hrow := congrArg (fun t : Tables => t.scans (w.newScanId d)) hd
          exact ⟨_, hrow.trans (Function.update_self ..), rfl⟩

/-! ## What the record covers -/

/-- Where the description puts the path of the targets file. -/
def filePlace (args : CliArgs) : ℕ :=
  match args.targetSpec with
  | some spec => spec.length + specLabel.length
  | none => fileLabel.length

/-- The whole spec and the whole path stand in the record, each in its place of
the description. -/
def Covers (args : CliArgs) (record : Bytes) : Prop :=
  (∀ spec, args.targetSpec = some spec → spec <+: record) ∧
  (∀ file, args.targetsFile = some file → file <+: record.drop (filePlace args))

/-- The description fits into its buffer; an empty path needs no room. -/
def Fits (args : CliArgs) : Prop :=
  (∀ spec, args.targetSpec = some spec → spec.length ≤ 511) ∧
  (∀ file, args.targetsFile = some file → file ≠ [] → filePlace args + file.length ≤ 511)

/-- A part of a cut text is whole if it ends before the cut. -/
theorem part_whole_iff (before part after : Bytes) (n : ℕ) :
    part <+: ((before ++ part ++ after).take n).drop before.length ↔
      part = [] ∨ before.length + part.length ≤ n := by
  rw [List.drop_take, List.append_assoc, List.drop_left]
  constructor
  · intro h
    have hle := h.length_le
    rw [List.length_take] at hle
    cases part with
    | nil => exact Or.inl rfl
    | cons b bs =>
        rw [List.length_cons] at hle
        refine Or.inr ?_
        rw [List.length_cons]
        omega
  · rintro (rfl | hle)
    · exact List.nil_prefix
    · rw [List.take_append, List.take_of_length_le (by omega)]
      exact List.prefix_append _ _

theorem covers_describeTargets_iff (args : CliArgs) :
    Covers args (describeTargets args targetDescSize) ↔ Fits args := by
  have hspec : ∀ spec, args.targetSpec = some spec →
      (spec <+: describeTargets args targetDescSize ↔ spec.length ≤ 511) := by
    intro spec h
    obtain ⟨after, hafter⟩ : ∃ after, describeText args = [] ++ spec ++ after := by
      rw [describeText, h]
      cases args.targetsFile with
      | none => exact ⟨[], by simp⟩
      | some file => exact ⟨specLabel ++ file, by simp⟩
    rw [describeTargets, hafter]
    have hwhole := part_whole_iff [] spec after (targetDescSize - 1)
    rw [List.length_nil, List.drop_zero, Nat.zero_add] at hwhole
    rw [hwhole]
    change spec = [] ∨ spec.length ≤ 511 ↔ spec.length ≤ 511
    refine or_iff_right_of_imp ?_
    rintro rfl
    exact Nat.zero_le _
  have hfile : ∀ file, args.targetsFile = some file →
      (file <+: (describeTargets args targetDescSize).drop (filePlace args) ↔
        (file ≠ [] → filePlace args + file.length ≤ 511)) := by
    intro file h
    obtain ⟨before, hbefore, hplace⟩ : ∃ before, describeText args = before ++ file ++ [] ∧
        before.length = filePlace args := by
      rw [describeText, h, filePlace]
      cases args.targetSpec with
      | none => exact ⟨fileLabel, by simp, rfl⟩
      | some spec => exact ⟨spec ++ specLabel, by simp, List.length_append⟩
    rw [describeTargets, hbefore, ← hplace, part_whole_iff]
    change file = [] ∨ before.length + file.length ≤ 511 ↔ _
    rw [or_iff_not_imp_left]
  constructor
  · rintro ⟨hs, hf⟩
    exact ⟨fun spec h => (hspec spec h).mp (hs spec h), fun file h => (hfile file h).mp (hf file h)⟩
  · rintro ⟨hs, hf⟩
    exact ⟨fun spec h => (hspec spec h).mpr (hs spec h),
      fun file h => (hfile file h).mpr (hf file h)⟩

/-- What the records of a spec without a targets file are. -/
theorem describeTargets_spec {args : CliArgs} {spec : Bytes} (hspec : args.targetSpec = some spec)
    (hfile : args.targetsFile = none) : describeTargets args targetDescSize = spec.take 511 := by
  rw [describeTargets, describeText, hspec, hfile]
  rfl

/-- The authorization record of every scan that starts, for all arguments and
whatever the outside answers. It covers the targets if and only if their
description fits; where there is only a spec, the record contains the spec,
at whatever place, if and only if the spec fits; and the records of two scans
of different specs differ if and only if the specs differ before the cut. -/
theorem startScan_record_iff {w : GateWorld} {args : CliArgs} {scanId : ℤ} {targets : List Target}
    {s : Session Tables Unit} (h : startScan w args = .started scanId targets s) :
    ∃ row, s.committed.scans scanId = some row ∧
      (Covers args row.targetSpec ↔ Fits args) ∧
      ∀ spec, args.targetSpec = some spec → args.targetsFile = none →
        (spec <:+: row.targetSpec ↔ spec.length ≤ 511) ∧
        ∀ w' args' scanId' targets' s' spec' row',
          startScan w' args' = .started scanId' targets' s' → args'.targetSpec = some spec' →
          args'.targetsFile = none → s'.committed.scans scanId' = some row' → spec ≠ spec' →
          (row.targetSpec ≠ row'.targetSpec ↔ spec.take 511 ≠ spec'.take 511) := by
  obtain ⟨⟨row, hrow, hrecord⟩, -⟩ := startScan_started h
  refine ⟨row, hrow, ?_, fun spec hspec hfile => ?_⟩
  · rw [hrecord]
    exact covers_describeTargets_iff args
  · rw [hrecord, describeTargets_spec hspec hfile]
    constructor
    · constructor
      · intro hin
        have hle := hin.length_le
        rw [List.length_take] at hle
        omega
      · intro hle
        rw [List.take_of_length_le hle]
    · intro w' args' scanId' targets' s' spec' row' h' hspec' hfile' hrow' _
      obtain ⟨⟨row₂, hrow₂, hrecord₂⟩, -⟩ := startScan_started h'
      rw [hrow₂] at hrow'
      obtain ⟨rfl⟩ := hrow'
      rw [hrecord₂, describeTargets_spec hspec' hfile']

/-! ## A spec of sixty-four addresses -/

/-- An operator who gave the flag, and a database that works. -/
def quietGate : GateWorld where
  env := quietEnv
  net := ⟨fun _ => false, fun _ => false, fun _ _ => .ok [], fun _ => .ok []⟩
  isStdinTty := false
  prompt := false
  defaultOperator := ascii "operator"
  dbPath := some (ascii "/tmp/vuln.db")
  dbOpen _ := some Tables.seeded
  dbMigrate d := some d
  newScanId _ := 1

def argsOf (spec : Bytes) : CliArgs := ⟨some spec, none, true, none⟩

/-- Sixty-three times one address, and then another. -/
def longSpec (last : String) : Bytes :=
  [0x2C].intercalate (List.replicate 63 (ascii "10.0.0.1") ++ [ascii last])

/-- The record and the targets of a scan that starts. -/
def startedWith : ScanStart → Option (Option Bytes × List Target)
  | .started scanId targets s => some ((s.committed.scans scanId).map (·.targetSpec), targets)
  | _ => none

theorem startedWith_eq_some (r : ScanStart) (record : Bytes) (targets : List Target)
    (h : startedWith r = some (some record, targets)) :
    ∃ scanId s row, r = .started scanId targets s ∧ s.committed.scans scanId = some row ∧
      row.targetSpec = record := by
  cases r with
  | started scanId targets' s =>
      simp only [startedWith, Option.some.injEq, Prod.mk.injEq, Option.map_eq_some_iff] at h
      obtain ⟨⟨row, hrow, hrecord⟩, rfl⟩ := h
      exact ⟨scanId, s, row, rfl, hrow, hrecord⟩
  | _ => cases h

/-- The record of a short spec is the spec. -/
theorem startScan_record_short :
    ∃ scanId targets s row, startScan quietGate (argsOf (ascii "10.0.0.1")) =
        .started scanId targets s ∧ s.committed.scans scanId = some row ∧
      Covers (argsOf (ascii "10.0.0.1")) row.targetSpec := by
  obtain ⟨scanId, s, row, h, -, -⟩ := startedWith_eq_some
    (startScan quietGate (argsOf (ascii "10.0.0.1"))) (ascii "10.0.0.1")
    [⟨ascii "10.0.0.1", ascii "10.0.0.1"⟩] (by decide +kernel)
  obtain ⟨row, hrow, hiff, -⟩ := startScan_record_iff h
  refine ⟨scanId, _, s, row, h, hrow, hiff.mpr ⟨?_, ?_⟩⟩
  · intro spec hspec
    obtain ⟨rfl⟩ := hspec
    decide
  · intro file hfile
    cases hfile

/-- Two specs of 575 bytes that name different hosts: both scans start, neither
record contains its spec, and the records are the same. -/
theorem startScan_record_cut :
    longSpec "10.0.0.2" ≠ longSpec "10.0.0.3" ∧
    ∃ scanId s row scanId' s' row',
      startScan quietGate (argsOf (longSpec "10.0.0.2")) = .started scanId
        [⟨ascii "10.0.0.1", ascii "10.0.0.1"⟩, ⟨ascii "10.0.0.2", ascii "10.0.0.2"⟩] s ∧
      s.committed.scans scanId = some row ∧
      startScan quietGate (argsOf (longSpec "10.0.0.3")) = .started scanId'
        [⟨ascii "10.0.0.1", ascii "10.0.0.1"⟩, ⟨ascii "10.0.0.3", ascii "10.0.0.3"⟩] s' ∧
      s'.committed.scans scanId' = some row' ∧
      ¬ longSpec "10.0.0.2" <:+: row.targetSpec ∧ row.targetSpec = row'.targetSpec := by
  refine ⟨by decide +kernel, ?_⟩
  obtain ⟨scanId, s, row, h, hrow, hrecord⟩ := startedWith_eq_some
    (startScan quietGate (argsOf (longSpec "10.0.0.2")))
    ((longSpec "10.0.0.2").take 511)
    [⟨ascii "10.0.0.1", ascii "10.0.0.1"⟩, ⟨ascii "10.0.0.2", ascii "10.0.0.2"⟩]
    (by decide +kernel)
  obtain ⟨scanId', s', row', h', hrow', hrecord'⟩ := startedWith_eq_some
    (startScan quietGate (argsOf (longSpec "10.0.0.3")))
    ((longSpec "10.0.0.2").take 511)
    [⟨ascii "10.0.0.1", ascii "10.0.0.1"⟩, ⟨ascii "10.0.0.3", ascii "10.0.0.3"⟩]
    (by decide +kernel)
  refine ⟨scanId, s, row, scanId', s', row', h, hrow, h', hrow', ?_, hrecord.trans hrecord'.symm⟩
  intro hin
  have hle := hin.length_le
  have hlen : (longSpec "10.0.0.2").length = 575 := by decide +kernel
  rw [hrecord, List.length_take, hlen] at hle
  omega

end Cytadel.Cli
