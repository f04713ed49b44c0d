import Mathlib.Data.List.Dedup
import Cytadel.Proofs.EscapeInverses
import Cytadel.Proofs.ReportRun
import Cytadel.Report.ReportJson

/-!
# The JSON report is the database

The value that a report stands for is put together from the rows, with no
regard to how it is printed; the calls of the renderer, laid end to end, are
the print of that value, so a decoder of JSON texts gives it back.
-/

namespace Cytadel.Report

open Cytadel Cytadel.Db Lib.Json

/-! ## The value of a report -/

def intValue (v : ℤ) : Value := .number (decimalInt v)

/-- A text column; NULL is null. -/
def textValue : Option Bytes → Value
  | none => .null
  | some text => .string text

def doubleValue : Option ℚ → Value
  | none => .null
  | some v => .number (fixed4 v)

def scanValue (scanId : ℤ) (row : ScanRow) : Value :=
  .object [
    (ascii "scan_id", intValue scanId),
    (ascii "started_at", textValue (some row.startedAt)),
    (ascii "finished_at", textValue row.finishedAt),
    (ascii "target_spec", textValue (some row.targetSpec)),
    (ascii "authorized_by", textValue (some row.authorizedBy)),
    (ascii "authorization_confirmed_at", textValue (some row.authorizationConfirmedAt)),
    (ascii "authorization_method",
      textValue (some (authorizationMethodText row.authorizationMethod))),
    (ascii "status", textValue (some (scanStatusText row.status))),
    (ascii "malformed_data_count", intValue row.malformedDataCount)]

def summaryValue (c : ReportCounts) : Value :=
  .object [
    (ascii "severity_counts", .object
      ((List.range 5).map fun s => (decimal s, intValue (c.severityCounts s)))),
    (ascii "kev_count", intValue c.kevCount),
    (ascii "undetermined_count", intValue c.undeterminedCount),
    (ascii "not_affected_count", intValue c.notAffectedCount),
    (ascii "confirmed_count", intValue c.confirmedCount)]

def findingValue (r : ScanResultRow) : Value :=
  .object [
    (ascii "host", textValue (some r.host)),
    (ascii "port", intValue r.port),
    (ascii "service", textValue r.service),
    (ascii "plugin_id", textValue (some r.pluginId)),
    (ascii "cve_id", textValue r.cveId),
    (ascii "severity", intValue r.severity),
    (ascii "evidence", textValue (some r.evidence)),
    (ascii "remediation", textValue r.remediation),
    (ascii "kev_flag", .bool (decide (r.kevFlag ≠ 0))),
    (ascii "epss_score", doubleValue r.epssScore),
    (ascii "detected_at", textValue (some r.detectedAt)),
    (ascii "match_status", textValue (some (matchStatusText r.matchStatus)))]

def reportValue (scanId : ℤ) (row : ScanRow) (c : ReportCounts) (rows : List ScanResultRow) :
    Value :=
  .object [
    (ascii "scan", scanValue scanId row),
    (ascii "summary", summaryValue c),
    (ascii "findings", .array (rows.map findingValue))]

/-! ## The calls print it -/

/-- The calls print a text, unless one of them fails by itself. -/
def Prints (ops : List ReportOp) (text : Bytes) : Prop := ReportOp.refuse ∈ ops ∨ opsText ops = text

namespace Prints

variable {ops ops' : List ReportOp} {text text' : Bytes}

theorem append (h : Prints ops text) (h' : Prints ops' text') :
    Prints (ops ++ ops') (text ++ text') := by
  obtain h | rfl := h
  · exact Or.inl (List.mem_append_left _ h)
  · obtain h' | rfl := h'
    · exact Or.inl (List.mem_append_right _ h')
    · exact Or.inr (opsText_append _ _)

theorem of_eq (h : opsText ops = text) : Prints ops text := Or.inr h

theorem eq (h : Prints ops text) (hrefuse : ReportOp.refuse ∉ ops) : opsText ops = text :=
  h.resolve_left hrefuse

end Prints

theorem lit_prints (t : Bytes) : Prints [.lit t] t := .of_eq (by simp [ReportOp.pieces])

theorem intLit_prints (v : ℤ) : Prints [intLit v] (print (intValue v)) := by
  rw [intValue, print, intLit]
  split
  · exact Or.inl (List.mem_singleton.mpr rfl)
  · exact Or.inr (by simp [ReportOp.pieces])

theorem doubleLit_prints (v : ℚ) : Prints [doubleLit v] (print (doubleValue (some v))) := by
  rw [doubleValue, print, doubleLit]
  split
  · exact Or.inl (List.mem_singleton.mpr rfl)
  · exact Or.inr (by simp [ReportOp.pieces])

/-- The keys of the report need no escape. -/
def PlainKey (key : Bytes) : Prop := key.flatMap escapeByte = key

instance (key : Bytes) : Decidable (PlainKey key) := inferInstanceAs (Decidable (_ = _))

theorem jsonKey_prints {key : Bytes} (h : PlainKey key) :
    Prints (jsonKey key) (printString key ++ [0x3A]) := by
  refine .of_eq ?_
  have hkey : key.flatMap escapeByte = key := h
  rw [printString, hkey]
  simp [jsonKey, ReportOp.pieces]
  rfl

theorem stringCol_prints (col : Option Bytes) :
    Prints (match col with
      | none => [.lit (ascii "null")]
      | some text => [.lit [0x22], .json text, .lit [0x22]]) (print (textValue col)) := by
  refine .of_eq ?_
  cases col with
  | none =>
      rw [textValue, print]
      rfl
  | some text =>
      rw [textValue, print, printString, ← escapeJson_flatten]
      simp [ReportOp.pieces]

theorem doubleCol_prints (col : Option ℚ) :
    Prints (match col with
      | none => [.lit (ascii "null")]
      | some v => [doubleLit v]) (print (doubleValue col)) := by
  cases col with
  | none =>
      refine .of_eq ?_
      rw [doubleValue, print]
      rfl
  | some v => exact doubleLit_prints v

theorem boolLit_prints (b : Bool) :
    Prints [.lit (if b then ascii "true" else ascii "false")] (print (.bool b)) := by
  refine .of_eq ?_
  cases b <;> rw [print] <;> rfl

section

variable {key : Bytes} {ops rest : List ReportOp} {v : Value} {m : Bytes × Value}
  {ms : List (Bytes × Value)}

/-- A field that another one follows. -/
theorem field_prints (hkey : PlainKey key) (hv : Prints ops (print v))
    (hrest : Prints rest (printMembers (m :: ms))) :
    Prints (jsonKey key ++ ops ++ jsonComma true ++ rest) (printMembers ((key, v) :: m :: ms)) := by
  have hcomma : Prints (jsonComma true) [0x2C] := .of_eq rfl
  rw [printMembers]
  exact (((jsonKey_prints hkey).append hv).append hcomma).append hrest

/-- The last field of an object. -/
theorem lastField_prints (hkey : PlainKey key) (hv : Prints ops (print v)) :
    Prints (jsonKey key ++ ops ++ jsonComma false) (printMembers [(key, v)]) := by
  rw [printMembers, show jsonComma false = [] from rfl, List.append_nil]
  exact (jsonKey_prints hkey).append hv

theorem intField_prints (hkey : PlainKey key) (value : ℤ)
    (hrest : Prints rest (printMembers (m :: ms))) :
    Prints (jsonIntField key value true ++ rest)
      (printMembers ((key, intValue value) :: m :: ms)) :=
  field_prints hkey (intLit_prints value) hrest

theorem lastIntField_prints (hkey : PlainKey key) (value : ℤ) :
    Prints (jsonIntField key value false) (printMembers [(key, intValue value)]) :=
  lastField_prints hkey (intLit_prints value)

theorem stringField_prints (hkey : PlainKey key) (col : Option Bytes)
    (hrest : Prints rest (printMembers (m :: ms))) :
    Prints (jsonStringCol key col true ++ rest)
      (printMembers ((key, textValue col) :: m :: ms)) :=
  field_prints hkey (stringCol_prints col) hrest

theorem lastStringField_prints (hkey : PlainKey key) (col : Option Bytes) :
    Prints (jsonStringCol key col false) (printMembers [(key, textValue col)]) :=
  lastField_prints hkey (stringCol_prints col)

end

theorem scanFields_prints (scanId : ℤ) (row : ScanRow) :
    Prints ([ReportOp.lit [0x7B]] ++ scanFields scanId row ++ [ReportOp.lit [0x7D]])
      (print (scanValue scanId row)) := by
  rw [scanValue, print]
  refine .append (.append (.of_eq rfl) ?_) (.of_eq rfl)
  simp only [scanFields, List.append_assoc]
  refine intField_prints (by decide) _ ?_
  refine stringField_prints (by decide) _ ?_
  refine stringField_prints (by decide) _ ?_
  refine stringField_prints (by decide) _ ?_
  refine stringField_prints (by decide) _ ?_
  refine stringField_prints (by decide) _ ?_
  refine stringField_prints (by decide) _ ?_
  refine stringField_prints (by decide) _ ?_
  exact lastIntField_prints (by decide) _

theorem summaryObject_prints (c : ReportCounts) :
    Prints (renderSummaryObject c) (printMembers [(ascii "summary", summaryValue c)]) := by
  -- the literal at the front opens two objects
  have htext : printMembers [(ascii "summary", summaryValue c)] =
      ascii "\"summary\":\x7b\"severity_counts\":\x7b" ++
        printMembers ((List.range 5).map fun s => (decimal s, intValue (c.severityCounts s))) ++
        ascii "\x7d," ++
        printMembers [(ascii "kev_count", intValue c.kevCount),
          (ascii "undetermined_count", intValue c.undeterminedCount),
          (ascii "not_affected_count", intValue c.notAffectedCount),
          (ascii "confirmed_count", intValue c.confirmedCount)] ++ [0x7D] := by
    have hopen : ascii "\"summary\":\x7b\"severity_counts\":\x7b" =
        printString (ascii "summary") ++ [0x3A] ++ ([0x7B] ++ (printString
          (ascii "severity_counts") ++ [0x3A] ++ [0x7B])) := by decide +kernel
    have hclose : ascii "\x7d," = [0x7D] ++ [0x2C] := by decide
    rw [printMembers, summaryValue, print, printMembers, print, hopen, hclose]
    simp only [List.append_assoc]
  have hseverities : Prints ((List.range 5).flatMap fun s =>
        jsonIntField (decimal s) (c.severityCounts s) (s < 4))
      (printMembers ((List.range 5).map fun s => (decimal s, intValue (c.severityCounts s)))) := by
    have hrange : List.range 5 = [0, 1, 2, 3, 4] := rfl
    rw [hrange]
    simp only [List.flatMap_cons, List.flatMap_nil, List.append_nil, List.map_cons, List.map_nil]
    refine intField_prints (by decide) _ ?_
    refine intField_prints (by decide) _ ?_
    refine intField_prints (by decide) _ ?_
    refine intField_prints (by decide) _ ?_
    exact lastIntField_prints (by decide) _
  have hcounts : Prints (jsonIntField (ascii "kev_count") c.kevCount true ++
        jsonIntField (ascii "undetermined_count") c.undeterminedCount true ++
        jsonIntField (ascii "not_affected_count") c.notAffectedCount true ++
        jsonIntField (ascii "confirmed_count") c.confirmedCount false)
      (printMembers [(ascii "kev_count", intValue c.kevCount),
        (ascii "undetermined_count", intValue c.undeterminedCount),
        (ascii "not_affected_count", intValue c.notAffectedCount),
        (ascii "confirmed_count", intValue c.confirmedCount)]) := by
    simp only [List.append_assoc]
    refine intField_prints (by decide) _ ?_
    refine intField_prints (by decide) _ ?_
    refine intField_prints (by decide) _ ?_
    exact lastIntField_prints (by decide) _
  rw [htext]
  have hopen := lit_prints (ascii "\"summary\":\x7b\"severity_counts\":\x7b")
  have hall := (((hopen.append hseverities).append (lit_prints (ascii "\x7d,"))).append
    hcounts).append (lit_prints [0x7D])
  simpa only [renderSummaryObject, List.append_assoc] using hall

theorem findingFields_prints (r : ScanResultRow) :
    Prints ([ReportOp.lit [0x7B]] ++ findingFields r ++ [ReportOp.lit [0x7D], .check])
      (print (findingValue r)) := by
  rw [findingValue, print]
  refine .append (.append (.of_eq rfl) ?_) (.of_eq rfl)
  simp only [findingFields, List.append_assoc]
  refine stringField_prints (by decide) _ ?_
  refine intField_prints (by decide) _ ?_
  refine stringField_prints (by decide) _ ?_
  refine stringField_prints (by decide) _ ?_
  refine stringField_prints (by decide) _ ?_
  refine intField_prints (by decide) _ ?_
  refine stringField_prints (by decide) _ ?_
  refine stringField_prints (by decide) _ ?_
  refine field_prints (by decide) (boolLit_prints _) ?_
  refine field_prints (by decide) (doubleCol_prints _) ?_
  refine stringField_prints (by decide) _ ?_
  exact lastStringField_prints (by decide) _

/-- The rows from a number on, with the comma that sets them off. -/
theorem renderFindingRows_prints (n : ℕ) (rows : List ScanResultRow) :
    Prints (renderFindingRows n rows)
      ((if n = 0 ∨ rows = [] then [] else [0x2C]) ++ printItems (rows.map findingValue)) := by
  induction rows generalizing n with
  | nil => exact .of_eq (by simp [renderFindingRows, printItems, ReportOp.pieces])
  | cons r rs ih =>
      have hstep : Prints [ReportOp.db (.step .findings n)] [] := .of_eq rfl
      have hcomma : Prints (if n = 0 then [] else [ReportOp.lit [0x2C]])
          (if n = 0 ∨ r :: rs = [] then [] else [0x2C]) := by
        refine .of_eq ?_
        by_cases hn : n = 0 <;> simp [hn, ReportOp.pieces]
      have htail : printItems ((r :: rs).map findingValue) =
          print (findingValue r) ++
            ((if n + 1 = 0 ∨ rs = [] then [] else [0x2C]) ++ printItems (rs.map findingValue)) := by
        cases rs with
        | nil => simp [printItems]
        | cons r' rs => simp [printItems]
      rw [htail]
      have hall := (hstep.append hcomma).append ((findingFields_prints r).append (ih (n + 1)))
      simpa only [renderFindingRows, List.nil_append, List.append_assoc] using hall

theorem scanObject_prints {w : ReportWorld} {scanId : ℤ} {row : ScanRow}
    (hrow : (w.snapshot .scanRow).scans scanId = some row) :
    Prints (renderScanObject w scanId) (printMembers [(ascii "scan", scanValue scanId row)]) := by
  have hquery : Prints (openQuery .scanRow ++ [.db (.step .scanRow 0)]) [] := .of_eq rfl
  have hkey : Prints [.lit (ascii "\"scan\":\x7b")]
      (printString (ascii "scan") ++ [0x3A] ++ [0x7B]) := .of_eq (by decide +kernel)
  have hclose : Prints [.lit [0x7D], .check] [0x7D] := .of_eq rfl
  obtain hrefuse | hfields := scanFields_prints scanId row
  · refine Or.inl ?_
    rw [renderScanObject, hrow]
    have hmem : ReportOp.refuse ∈ scanFields scanId row := by simpa using hrefuse
    simp [hmem]
  · rw [printMembers, ← hfields]
    have hscan : Prints (scanFields scanId row) (opsText (scanFields scanId row)) := .of_eq rfl
    have hall := hquery.append ((hkey.append hscan).append hclose)
    rw [renderScanObject, hrow]
    simpa [opsText_append, ReportOp.pieces] using hall

theorem loadCounts_prints (w : ReportWorld) (scanId : ℤ) : Prints (loadCounts w scanId) [] := by
  refine .of_eq ?_
  simp [loadCounts, countWhere, openQuery, opsText, ReportOp.pieces]

theorem findingsArray_prints (w : ReportWorld) (scanId : ℤ) :
    Prints (renderFindingsArray w scanId) (printMembers [(ascii "findings",
      .array ((findingsQuery scanId (w.snapshot .findings)).map findingValue))]) := by
  have hquery : Prints (openQuery .findings) [] := .of_eq rfl
  have hkey : Prints [.lit (ascii "\"findings\":[")]
      (printString (ascii "findings") ++ [0x3A] ++ [0x5B]) := .of_eq (by decide +kernel)
  have hrows := renderFindingRows_prints 0 (findingsQuery scanId (w.snapshot .findings))
  rw [if_pos (Or.inl rfl), List.nil_append] at hrows
  have hclose : Prints [.check, .lit [0x5D], .check] [0x5D] := .of_eq rfl
  have hall := ((hquery.append hkey).append hrows).append hclose
  rw [printMembers, print]
  simpa only [renderFindingsArray, List.nil_append, List.append_assoc] using hall

/-- The report of a scan that has its row prints its value. -/
theorem reportJsonOps_prints {w : ReportWorld} {scanId : ℤ} {row : ScanRow}
    (hrow : (w.snapshot .scanRow).scans scanId = some row) :
    Prints (reportJsonOps w scanId) (print (reportValue scanId row (loadedCounts w scanId)
      (findingsQuery scanId (w.snapshot .findings)))) := by
  have hopen : Prints [.lit [0x7B], .check] [0x7B] := .of_eq rfl
  have hcomma : Prints [.lit [0x2C], .check] [0x2C] := .of_eq rfl
  have hcomma' : Prints [.check, .lit [0x2C], .check] [0x2C] := .of_eq rfl
  have hclose : Prints [.lit [0x7D], .check] [0x7D] := .of_eq rfl
  have hall := ((((((hopen.append (scanObject_prints hrow)).append hcomma).append
    (loadCounts_prints w scanId)).append (summaryObject_prints (loadedCounts w scanId))).append
    hcomma').append (findingsArray_prints w scanId)).append hclose
  have htext : print (reportValue scanId row (loadedCounts w scanId)
      (findingsQuery scanId (w.snapshot .findings))) =
      [0x7B] ++ printMembers [(ascii "scan", scanValue scanId row)] ++ [0x2C] ++ [] ++
        printMembers [(ascii "summary", summaryValue (loadedCounts w scanId))] ++ [0x2C] ++
        printMembers [(ascii "findings",
          .array ((findingsQuery scanId (w.snapshot .findings)).map findingValue))] ++ [0x7D] := by
    rw [reportValue, print]
    simp only [printMembers, List.append_assoc, List.nil_append]
  rw [htext]
  simpa only [reportJsonOps, List.append_assoc] using hall

/-! ## Its numbers are numbers -/

/-- A reader of numbers behind the digits of a number, from the start or behind
a sign. -/
theorem numSteps_decimal {st : NumState} (hst : st = .start ∨ st = .minus) (n : ℕ) :
    (decimal n).foldlM numStep st = some (if n = 0 then .zero else .int) := by
  have hfirst : ∀ d < 10, numStep st (UInt8.ofNat (Nat.digitChar d).toNat) =
      some (if d = 0 then .zero else .int) := by
    obtain rfl | rfl := hst <;> decide
  have hnext : ∀ d < 10, numStep .int (UInt8.ofNat (Nat.digitChar d).toNat) = some .int := by
    decide
  induction n using Nat.strong_induction_on with
  | _ n ih =>
      rw [decimal, Nat.toDigits_eq_if (by decide)]
      split
      · next hlt =>
          simp only [List.map_cons, List.map_nil, List.foldlM_cons, List.foldlM_nil]
          rw [hfirst n hlt]
          rfl
      · next hge =>
          have hq := ih (n / 10) (by omega)
          rw [decimal, if_neg (by omega)] at hq
          rw [List.map_append, List.foldlM_append, hq, if_neg (by omega)]
          simp only [Option.bind_eq_bind, Option.bind_some, List.map_cons, List.map_nil,
            List.foldlM_cons, List.foldlM_nil]
          rw [hnext (n % 10) (Nat.mod_lt _ (by decide))]
          rfl

theorem isNumber_decimalInt (v : ℤ) : isNumber (decimalInt v) = true := by
  rw [isNumber]
  cases v with
  | ofNat n =>
      rw [decimalInt, numSteps_decimal (Or.inl rfl)]
      split <;> rfl
  | negSucc n =>
      have hminus : numStep .start 0x2D = some .minus := rfl
      rw [decimalInt, List.foldlM_cons, hminus]
      simp only [Option.bind_eq_bind, Option.bind_some]
      rw [numSteps_decimal (Or.inr rfl)]
      split <;> rfl

theorem isNumber_fixed4 (q : ℚ) : isNumber (fixed4 q) = true := by
  have hdigits : ∀ d, numStep .point (UInt8.ofNat (0x30 + d % 10)) = some .frac ∧
      numStep .frac (UInt8.ofNat (0x30 + d % 10)) = some .frac := by
    intro d
    have hall : ∀ d < 10, numStep .point (UInt8.ofNat (0x30 + d)) = some .frac ∧
        numStep .frac (UInt8.ofNat (0x30 + d)) = some .frac := by decide
    exact hall (d % 10) (Nat.mod_lt _ (by decide))
  have htail : ∀ n, ([0x2E] ++ fourDigits n).foldlM numStep .zero = some .frac ∧
      ([0x2E] ++ fourDigits n).foldlM numStep .int = some .frac := by
    intro n
    simp only [fourDigits, List.map_cons, List.map_nil, List.cons_append, List.nil_append,
      List.foldlM_cons, List.foldlM_nil]
    have hpoint : numStep .zero 0x2E = some .point ∧ numStep .int 0x2E = some .point := by decide
    simp only [hpoint.1, hpoint.2, Option.bind_eq_bind, Option.bind_some, (hdigits _).1,
      (hdigits _).2]
    exact ⟨rfl, rfl⟩
  have hnumber : ∀ st, (st = .start ∨ st = .minus) → ∀ n m,
      (decimal n ++ ([0x2E] ++ fourDigits m)).foldlM numStep st = some .frac := by
    intro st hst n m
    rw [List.foldlM_append, numSteps_decimal hst]
    simp only [Option.bind_eq_bind, Option.bind_some]
    split
    · exact (htail m).1
    · exact (htail m).2
  rw [isNumber, fixed4]
  simp only [List.append_assoc]
  split
  · rw [List.foldlM_append]
    change (((decimal _ ++ _).foldlM numStep .minus).map _).getD false = true
    rw [hnumber .minus (Or.inr rfl)]
    rfl
  · rw [List.nil_append, hnumber .start (Or.inl rfl)]
    rfl

theorem intValue_ok (v : ℤ) : (intValue v).ok = true := by
  rw [intValue, Value.ok]
  exact isNumber_decimalInt v

theorem textValue_ok (col : Option Bytes) : (textValue col).ok = true := by
  cases col <;> rfl

theorem doubleValue_ok (col : Option ℚ) : (doubleValue col).ok = true := by
  cases col with
  | none => rfl
  | some v =>
      rw [doubleValue, Value.ok]
      exact isNumber_fixed4 v

theorem scanValue_ok (scanId : ℤ) (row : ScanRow) : (scanValue scanId row).ok = true := by
  simp [scanValue, Value.ok, membersOk, intValue_ok, textValue_ok]

theorem summaryValue_ok (c : ReportCounts) : (summaryValue c).ok = true := by
  simp [summaryValue, Value.ok, membersOk, intValue_ok, List.range_succ]

theorem findingValue_ok (r : ScanResultRow) : (findingValue r).ok = true := by
  simp [findingValue, Value.ok, membersOk, intValue_ok, textValue_ok, doubleValue_ok]

theorem reportValue_ok (scanId : ℤ) (row : ScanRow) (c : ReportCounts)
    (rows : List ScanResultRow) : (reportValue scanId row c rows).ok = true := by
  have hitems : itemsOk (rows.map findingValue) = true := by
    induction rows with
    | nil => rfl
    | cons r rs ih => rw [List.map_cons, itemsOk, findingValue_ok, ih]; rfl
  simp [reportValue, Value.ok, membersOk, scanValue_ok, summaryValue_ok, hitems]

/-! ## The queries -/

theorem resultsOf_severity {scanId : ℤ} {d : Tables} (hd : d.Conforms) :
    ∀ r ∈ resultsOf scanId d, 0 ≤ r.severity ∧ r.severity ≤ 4 := by
  intro r hr
  have hcheck := (hd.results r (List.mem_of_mem_filter hr)).1
  simp only [ScanResultRow.check, Bool.and_eq_true, decide_eq_true_eq] at hcheck
  exact hcheck.1.1.2

theorem findingLe_total (a b : ScanResultRow) : findingLe a b ∨ findingLe b a := by
  by_cases hhost : a.host = b.host
  · by_cases hport : a.port = b.port
    · rcases le_total b.severity a.severity with hsev | hsev
      · exact Or.inl ⟨Std.le_of_eq hhost, fun _ => ⟨hport.le, fun _ => hsev⟩⟩
      · exact Or.inr ⟨Std.le_of_eq hhost.symm, fun _ => ⟨hport.ge, fun _ => hsev⟩⟩
    · rcases le_total a.port b.port with hle | hle
      · exact Or.inl ⟨Std.le_of_eq hhost, fun _ => ⟨hle, fun h => absurd h hport⟩⟩
      · exact Or.inr ⟨Std.le_of_eq hhost.symm, fun _ => ⟨hle, fun h => absurd h.symm hport⟩⟩
  · rcases Std.le_total (a := a.host) (b := b.host) with hle | hle
    · exact Or.inl ⟨hle, fun h => absurd h hhost⟩
    · exact Or.inr ⟨hle, fun h => absurd h.symm hhost⟩

theorem findingLe_trans {a b c : ScanResultRow} (hab : findingLe a b) (hbc : findingLe b c) :
    findingLe a c := by
  refine ⟨Std.le_trans hab.1 hbc.1, fun hac => ?_⟩
  have hba : b.host = a.host := Std.le_antisymm (by rw [hac]; exact hbc.1) hab.1
  obtain ⟨hp, hs⟩ := hab.2 hba.symm
  obtain ⟨hp', hs'⟩ := hbc.2 (hba.trans hac)
  refine ⟨hp.trans hp', fun hport => ?_⟩
  have hport' : a.port = b.port := le_antisymm hp (hport ▸ hp')
  exact (hs' (hport'.symm.trans hport)).trans (hs hport')

instance : Std.Total findingLe := ⟨findingLe_total⟩

instance : IsTrans ScanResultRow findingLe := ⟨fun _ _ _ => findingLe_trans⟩

/-- The findings are the rows of the scan, in the order that is asked for. -/
theorem findingsQuery_sorted (scanId : ℤ) (d : Tables) :
    (findingsQuery scanId d).Perm (resultsOf scanId d) ∧
      (findingsQuery scanId d).Pairwise findingLe :=
  ⟨List.perm_insertionSort _ _, List.pairwise_insertionSort _ _⟩

/-- The counts of a scan. -/
def countsOf (scanId : ℤ) (d : Tables) : ReportCounts where
  severityCounts k := (resultsOf scanId d).countP fun r =>
    r.matchStatus = .confirmed ∧ r.severity = (k : ℤ)
  kevCount := (resultsOf scanId d).countP fun r => r.matchStatus = .confirmed ∧ r.kevFlag = 1
  undeterminedCount := (resultsOf scanId d).countP fun r => r.matchStatus = .undetermined
  notAffectedCount := (resultsOf scanId d).countP fun r => r.matchStatus = .notAffected

/-- The array after the loop over some groups. -/
theorem takeSeverities_map (keys : List ℤ) (f : ℤ → ℕ) (k : ℕ) :
    takeSeverities (keys.map fun s => (s, f s)) k = if (k : ℤ) ∈ keys ∧ k ≤ 4 then f k else 0 := by
  have hfold : ∀ (keys : List ℤ) (counts : ℕ → ℕ),
      (keys.map fun s => (s, f s)).foldl (fun counts g =>
        if 0 ≤ g.1 ∧ g.1 ≤ 4 then Function.update counts g.1.toNat g.2 else counts) counts k =
        if (k : ℤ) ∈ keys ∧ k ≤ 4 then f k else counts k := by
    intro keys
    induction keys with
    | nil => simp
    | cons s keys ih =>
        intro counts
        rw [List.map_cons, List.foldl_cons, ih]
        by_cases hlater : (k : ℤ) ∈ keys ∧ k ≤ 4
        · rw [if_pos hlater, if_pos ⟨List.mem_cons_of_mem _ hlater.1, hlater.2⟩]
        · rw [if_neg hlater]
          by_cases hs : 0 ≤ s ∧ s ≤ 4
          · rw [if_pos hs]
            by_cases hk : s.toNat = k
            · have hsk : (k : ℤ) = s := by omega
              subst hsk
              rw [if_pos ⟨List.mem_cons_self, by omega⟩]
              simp
            · rw [Function.update_of_ne (Ne.symm hk), if_neg]
              rintro ⟨hmem, hle⟩
              obtain heq | hmem := List.mem_cons.mp hmem
              · omega
              · exact hlater ⟨hmem, hle⟩
          · rw [if_neg hs, if_neg]
            rintro ⟨hmem, hle⟩
            obtain heq | hmem := List.mem_cons.mp hmem
            · omega
            · exact hlater ⟨hmem, hle⟩
  exact hfold keys _

theorem severityCount_eq (scanId : ℤ) (d : Tables) (k : ℕ) :
    takeSeverities (severityQuery scanId d) k = (resultsOf scanId d).countP fun r =>
      r.matchStatus = .confirmed ∧ r.severity = (k : ℤ) ∧ k ≤ 4 := by
  rw [severityQuery, takeSeverities_map, List.countP_filter]
  split
  · next h =>
      refine List.countP_congr fun r _ => ?_
      simp [h.2, and_comm]
  · next h =>
      symm
      rw [List.countP_eq_zero]
      intro r hr
      simp only [decide_eq_true_eq, not_and]
      intro hconf hsev hk
      refine h ⟨?_, hk⟩
      rw [List.mem_dedup, List.mem_map]
      exact ⟨r, List.mem_filter.mpr ⟨hr, by simpa using hconf⟩, hsev⟩

theorem takeSeverities_eq {scanId : ℤ} {d : Tables} (hd : d.Conforms) :
    takeSeverities (severityQuery scanId d) = (countsOf scanId d).severityCounts := by
  funext k
  rw [severityCount_eq, countsOf]
  refine List.countP_congr fun r hr => ?_
  have hsev := resultsOf_severity hd r hr
  simp only [decide_eq_true_eq]
  exact ⟨fun h => ⟨h.1, h.2.1⟩, fun h => ⟨h.1, h.2, by omega⟩⟩

theorem loadedCounts_eq {alloc : ℕ → Bool} {fault : ReportDbCall → Bool} {d : Tables}
    (hd : d.Conforms) (scanId : ℤ) :
    loadedCounts ⟨alloc, fault, fun _ => d⟩ scanId = countsOf scanId d := by
  rw [loadedCounts, takeSeverities_eq hd]
  rfl

/-- Every confirmed row is in one of the five counts. -/
theorem confirmedCount_eq {scanId : ℤ} {d : Tables} (hd : d.Conforms) :
    (countsOf scanId d).confirmedCount =
      (resultsOf scanId d).countP fun r => r.matchStatus = .confirmed := by
  have hrows : ∀ rows : List ScanResultRow, (∀ r ∈ rows, 0 ≤ r.severity ∧ r.severity ≤ 4) →
      ((List.range 5).map fun k => rows.countP fun r =>
        decide (r.matchStatus = .confirmed ∧ r.severity = (k : ℤ))).sum =
      rows.countP fun r => decide (r.matchStatus = .confirmed) := by
    intro rows
    induction rows with
    | nil => simp
    | cons r rs ih =>
        intro hall
        have hrest := ih fun r' hr' => hall r' (List.mem_cons_of_mem _ hr')
        have hsev := hall r List.mem_cons_self
        have hrange : List.range 5 = [0, 1, 2, 3, 4] := rfl
        rw [hrange] at hrest ⊢
        change (_ + (_ + (_ + (_ + (_ + 0))))) = _ at hrest
        change (_ + (_ + (_ + (_ + (_ + 0))))) = _
        simp only [List.countP_cons, decide_eq_true_eq]
        by_cases hc : r.matchStatus = .confirmed
        · have hcases : r.severity = 0 ∨ r.severity = 1 ∨ r.severity = 2 ∨ r.severity = 3 ∨
              r.severity = 4 := by omega
          rw [← hrest]
          obtain h | h | h | h | h := hcases <;>
            simp only [hc, h, true_and, if_true] <;> norm_num <;> omega
        · simp only [hc, false_and, if_false]
          omega
  exact hrows _ (resultsOf_severity hd)

/-! ## The report -/

theorem stop_ne_intLit (st : ReportStatus) (v : ℤ) : ReportOp.stop st ≠ intLit v := by
  rw [intLit]
  split <;> simp

theorem stop_ne_doubleLit (st : ReportStatus) (v : ℚ) : ReportOp.stop st ≠ doubleLit v := by
  rw [doubleLit]
  split <;> simp

section

variable (st : ReportStatus) (key : Bytes) (comma : Bool)

theorem stop_not_mem_jsonComma : ReportOp.stop st ∉ jsonComma comma := by
  cases comma <;> simp [jsonComma]

theorem stop_not_mem_intField (v : ℤ) : ReportOp.stop st ∉ jsonIntField key v comma := by
  simp [jsonIntField, jsonKey, stop_ne_intLit, stop_not_mem_jsonComma]

theorem stop_not_mem_boolField (v : Bool) : ReportOp.stop st ∉ jsonBoolField key v comma := by
  simp [jsonBoolField, jsonKey, stop_not_mem_jsonComma]

theorem stop_not_mem_stringCol (col : Option Bytes) :
    ReportOp.stop st ∉ jsonStringCol key col comma := by
  cases col <;> simp [jsonStringCol, jsonKey, stop_not_mem_jsonComma]

theorem stop_not_mem_doubleCol (col : Option ℚ) :
    ReportOp.stop st ∉ jsonDoubleOrNullCol key col comma := by
  cases col <;> simp [jsonDoubleOrNullCol, jsonKey, stop_ne_doubleLit, stop_not_mem_jsonComma]

end

theorem stop_not_mem_findingRows (st : ReportStatus) (n : ℕ) (rows : List ScanResultRow) :
    ReportOp.stop st ∉ renderFindingRows n rows := by
  induction rows generalizing n with
  | nil => simp [renderFindingRows]
  | cons r rs ih =>
      have hcomma : ReportOp.stop st ∉ (if n = 0 then [] else [ReportOp.lit [0x2C]]) := by
        split <;> simp
      simp [renderFindingRows, hcomma, ih, findingFields, stop_not_mem_intField,
        stop_not_mem_boolField, stop_not_mem_stringCol, stop_not_mem_doubleCol]

theorem stop_not_mem_summary (st : ReportStatus) (c : ReportCounts) :
    ReportOp.stop st ∉ renderSummaryObject c := by
  simp [renderSummaryObject, stop_not_mem_intField]

theorem stop_not_mem_loadCounts (st : ReportStatus) (w : ReportWorld) (scanId : ℤ) :
    ReportOp.stop st ∉ loadCounts w scanId := by
  simp [loadCounts, countWhere, openQuery]

/-- The only end that a renderer makes by itself is the one without a row. -/
theorem stop_mem_scanObject {st : ReportStatus} {w : ReportWorld} {scanId : ℤ} :
    ReportOp.stop st ∈ renderScanObject w scanId ↔
      st = .errNotFound ∧ (w.snapshot .scanRow).scans scanId = none := by
  rw [renderScanObject]
  cases (w.snapshot .scanRow).scans scanId with
  | none => simp [openQuery]
  | some row =>
      simp [openQuery, scanFields, stop_not_mem_intField, stop_not_mem_stringCol]

/-- The calls before the last look at the flag. -/
def reportJsonBody (w : ReportWorld) (scanId : ℤ) : List ReportOp :=
  [ReportOp.lit [0x7B], .check] ++ renderScanObject w scanId ++ [ReportOp.lit [0x2C], .check] ++
    loadCounts w scanId ++ renderSummaryObject (loadedCounts w scanId) ++
    [ReportOp.check, .lit [0x2C], .check] ++ renderFindingsArray w scanId ++ [ReportOp.lit [0x7D]]

theorem reportJsonOps_eq (w : ReportWorld) (scanId : ℤ) :
    reportJsonOps w scanId = reportJsonBody w scanId ++ [.check] := by
  simp [reportJsonOps, reportJsonBody]

theorem stop_mem_reportJsonBody {st : ReportStatus} {w : ReportWorld} {scanId : ℤ} :
    ReportOp.stop st ∈ reportJsonBody w scanId ↔
      st = .errNotFound ∧ (w.snapshot .scanRow).scans scanId = none := by
  simp [reportJsonBody, stop_mem_scanObject, stop_not_mem_loadCounts, stop_not_mem_summary,
    renderFindingsArray, openQuery, stop_not_mem_findingRows]

/-- A report that answers OK has found the row of its scan, and has appended the
print of its value. -/
theorem reportJson_ok {w : ReportWorld} {scanId : ℤ} {out out' : ReportBuf}
    (h : reportJson w scanId out = (.ok, out')) :
    ∃ row, (w.snapshot .scanRow).scans scanId = some row ∧
      out'.data = out.data ++ print (reportValue scanId row (loadedCounts w scanId)
        (findingsQuery scanId (w.snapshot .findings))) := by
  rw [reportJson] at h
  split at h
  · cases h
  · rw [reportJsonOps_eq] at h
    have hend : ReportOp.stop .ok ∉ reportJsonBody w scanId := by simp [stop_mem_reportJsonBody]
    obtain ⟨-, hdata, hstop, hrefuse⟩ := runOps_ok hend h
    obtain hnone | ⟨row, hrow⟩ : (w.snapshot .scanRow).scans scanId = none ∨
        ∃ row, (w.snapshot .scanRow).scans scanId = some row := by
      cases (w.snapshot .scanRow).scans scanId <;> simp
    · exact absurd (stop_mem_reportJsonBody.mpr ⟨rfl, hnone⟩) (hstop _)
    · refine ⟨row, hrow, ?_⟩
      have htext := (reportJsonOps_prints hrow).eq (by simpa [reportJsonOps_eq] using hrefuse)
      rw [reportJsonOps_eq, opsText_append] at htext
      rw [hdata, ← htext]
      simp [ReportOp.pieces]

/-- In a database that conforms to its schema, the text of a report that answers
OK decodes to the scan, its counts and its findings. -/
theorem reportJson_decodes {alloc : ℕ → Bool} {fault : ReportDbCall → Bool} {d : Tables}
    {scanId : ℤ} {out out' : ReportBuf} (hd : d.Conforms)
    (h : reportJson ⟨alloc, fault, fun _ => d⟩ scanId out = (.ok, out')) :
    ∃ row text, d.scans scanId = some row ∧ out'.data = out.data ++ text ∧
      decode text = some (reportValue scanId row (countsOf scanId d) (findingsQuery scanId d)) ∧
      (findingsQuery scanId d).Perm (resultsOf scanId d) ∧
      (findingsQuery scanId d).Pairwise findingLe ∧
      (countsOf scanId d).confirmedCount =
        ((List.range 5).map (countsOf scanId d).severityCounts).sum ∧
      (countsOf scanId d).confirmedCount =
        (resultsOf scanId d).countP fun r => r.matchStatus = .confirmed := by
  obtain ⟨row, hrow, hdata⟩ := reportJson_ok h
  rw [loadedCounts_eq hd] at hdata
  obtain ⟨hperm, hsorted⟩ := findingsQuery_sorted scanId d
  exact ⟨row, _, hrow, hdata, decode_print (reportValue_ok _ _ _ _), hperm, hsorted, rfl,
    confirmedCount_eq hd⟩

/-- With memory and a database, a report whose calls all can go through answers
OK. -/
theorem reportJson_quiet {w : ReportWorld} (halloc : ∀ n, w.alloc n = false)
    (hfault : ∀ c, w.fault c = false) (scanId : ℤ) (hpos : 0 < scanId)
    (hops : (reportJsonOps w scanId).all ReportOp.smooth = true)
    (hsize : (opsText (reportJsonOps w scanId)).length < sizeMax) :
    ∃ out', reportJson w scanId (.empty 0) = (.ok, out') := by
  rw [reportJson, if_neg (by omega)]
  refine runOps_quiet halloc hfault (List.all_eq_true.mp hops) ?_
  rw [ReportBuf.empty, List.length_nil, Nat.zero_add]
  exact hsize

/-- A banner with a quote, a NUL and a byte that is not ASCII. -/
def bannerFinding : ScanResultRow :=
  ⟨1, 1, ascii "10.0.0.9", 22, some (ascii "ssh"), ascii "31", none, .confirmed, 3,
    [0x22, 0x00, 0xFF], none, 1, some (1 / 8), ascii "2024-06-02"⟩

def openPortFinding : ScanResultRow :=
  ⟨2, 1, ascii "10.0.0.5", 80, none, ascii "32", none, .undetermined, 0, [], some [], 0, none,
    ascii "2024-06-02"⟩

def reportedScan : ScanRow :=
  ⟨ascii "2024-06-01", none, ascii "10.0.0.0/28", ascii "ops", ascii "2024-06-01", .flag, .running,
    none, 2⟩

/-- A scan with two findings. -/
def reportedTables : Tables :=
  { Tables.seeded with
    scans := fun id => if id = 1 then some reportedScan else none
    scanResults := [bannerFinding, openPortFinding] }

theorem reportedTables_conforms : reportedTables.Conforms := by
  refine Tables.conforms_of_scans (fun id h => ?_) fun r h => ?_
  · split at h
    · next hid => omega
    · cases h
  · obtain rfl | rfl : r = bannerFinding ∨ r = openPortFinding := by simpa using h
    · exact ⟨by decide +kernel, rfl, rfl⟩
    · exact ⟨by decide +kernel, rfl, rfl⟩

theorem reportJson_decodes_two_findings :
    ∃ out', reportJson ⟨fun _ => false, fun _ => false, fun _ => reportedTables⟩ 1 (.empty 0) =
        (.ok, out') ∧
      decode out'.data = some (reportValue 1 reportedScan (countsOf 1 reportedTables)
        [openPortFinding, bannerFinding]) := by
  have hrows : findingsQuery 1 reportedTables = [openPortFinding, bannerFinding] := by
    decide +kernel
  obtain ⟨out', hrun⟩ := reportJson_quiet (w := ⟨fun _ => false, fun _ => false,
    fun _ => reportedTables⟩) (fun _ => rfl) (fun _ => rfl) 1 (by decide)
    (by decide +kernel) (by decide +kernel)
  obtain ⟨row, text, hrow, hdata, hdecode, -⟩ := reportJson_decodes reportedTables_conforms hrun
  obtain rfl : reportedScan = row := by simpa [reportedTables] using hrow
  refine ⟨out', hrun, ?_⟩
  rw [hdata, ← hrows]
  exact hdecode

end Cytadel.Report
