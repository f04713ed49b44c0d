import Cytadel.Lib.HtmlTokens
import Cytadel.Proofs.JsonReport
import Cytadel.Report.ReportHtml

/-!
# The structure of the HTML report does not depend on stored text

Two reports are rendered side by side. Where they put the same fixed text they
move a reader of HTML in the same way, and where they put a stored text the
reader stands in the text of the body or in a value in double quotes, and the
escaped text leaves it there. So as long as the two take the same branches, a
reader stands in the same place in both and has seen the same tags.
-/

namespace Cytadel.Report

open Cytadel Cytadel.Db Lib.Html

/-! ## Fixed texts -/

/-- The byte of a character of a fixed text. -/
def asciiByte (c : Char) : UInt8 := UInt8.ofNat c.toNat

/-- A fixed text by its characters, which saves a decoder of strings the work. -/
theorem ascii_ofList {s : String} {l : List Char} (hs : s = .ofList l) :
    ascii s = l.map asciiByte := by
  rw [hs, ascii, String.toList_ofList]
  rfl

theorem ascii_all {s : String} {l : List Char} {p : UInt8 → Bool} (hs : s = .ofList l)
    (h : (l.all fun c => p (asciiByte c)) = true) : (ascii s).all p = true := by
  rw [ascii_ofList hs, List.all_map]
  exact h

/-! ## Calls side by side -/

/-- Both lists of calls move a reader from one mode to the other, with the same
tokens. -/
def Alike (m : Mode) (ops ops' : List ReportOp) (m' : Mode) : Prop :=
  ∃ ks, read m (opsText ops) = (m', ks) ∧ read m (opsText ops') = (m', ks)

namespace Alike

variable {m m₁ m₂ : Mode} {ops ops' more more' : List ReportOp} {op op' : ReportOp}

theorem nil : Alike m [] [] m := ⟨[], rfl, rfl⟩

theorem append (h : Alike m ops ops' m₁) (h' : Alike m₁ more more' m₂) :
    Alike m (ops ++ more) (ops' ++ more') m₂ := by
  obtain ⟨ks, h₁, h₂⟩ := h
  obtain ⟨ks', h₁', h₂'⟩ := h'
  refine ⟨ks ++ ks', ?_, ?_⟩
  · rw [opsText_append, read_append, h₁, h₁']
  · rw [opsText_append, read_append, h₂, h₂']

/-- Two parts that each begin and end in the text of the body. -/
theorem block (h : Alike .text ops ops' .text) (h' : Alike .text more more' .text) :
    Alike .text (ops ++ more) (ops' ++ more') .text := append h h'

theorem cons (h : Alike m [op] [op'] m₁) (h' : Alike m₁ more more' m₂) :
    Alike m (op :: more) (op' :: more') m₂ := append h h'

/-- The same calls on both sides. -/
theorem same (h : (read m (opsText ops)).1 = m₁) : Alike m ops ops m₁ :=
  ⟨(read m (opsText ops)).2, by rw [← h], by rw [← h]⟩

theorem litBytes (s : Bytes) (m₁ : Mode) (h : (read m s).1 = m₁) :
    Alike m [.lit s] [.lit s] m₁ := by
  refine same ?_
  have htext : opsText [.lit s] = s := by simp [ReportOp.pieces]
  rw [htext]
  exact h

/-- A fixed text, by its characters. -/
theorem lit (s : String) (m₁ : Mode) {l : List Char} (hs : s = .ofList l)
    (h : (read m (l.map asciiByte)).1 = m₁) : Alike m [Report.lit s] [Report.lit s] m₁ :=
  litBytes _ _ (by rwa [ascii_ofList hs])

/-- A fixed text in two parts. -/
theorem litTwo (s t : String) (m₁ : Mode) {l k : List Char} (hs : s = .ofList l)
    (ht : t = .ofList k) (h : (read m ((l ++ k).map asciiByte)).1 = m₁) :
    Alike m [.lit (ascii s ++ ascii t)] [.lit (ascii s ++ ascii t)] m₁ :=
  litBytes _ _ (by rwa [ascii_ofList hs, ascii_ofList ht, ← List.map_append])

/-- Calls that the reader does not notice. -/
theorem silent (h : Silent m (opsText ops)) (h' : Silent m (opsText ops')) :
    Alike m ops ops' m := ⟨[], h, h'⟩

/-- Calls that write nothing. -/
theorem quiet (h : opsText ops = []) (h' : opsText ops' = []) : Alike m ops ops' m :=
  .silent (by rw [h]; rfl) (by rw [h']; rfl)

/-- A part for each of some items, side by side. -/
theorem flatMap {α : Type} {R : α → α → Prop} {f g : α → List ReportOp} {as bs : List α}
    (h : List.Forall₂ R as bs) (hone : ∀ a b, R a b → Alike .text (f a) (g b) .text) :
    Alike .text (as.flatMap f) (bs.flatMap g) .text := by
  induction h with
  | nil => exact .nil
  | cons hab _ ih =>
      rw [List.flatMap_cons, List.flatMap_cons]
      exact .block (hone _ _ hab) ih

end Alike

/-! ## Stored text -/

theorem escapeHtmlBody_no_lt (s : Bytes) : 0x3C ∉ (escapeHtmlBody s).flatten := by
  rw [escapeHtmlBody, ← List.flatMap_def]
  exact (flatMap_no_bracket false s).1

theorem escapeHtmlAttr_no_quote (s : Bytes) : 0x22 ∉ (escapeHtmlAttr s).flatten := by
  rw [escapeHtmlAttr, ← List.flatMap_def]
  exact (flatMap_no_quote s).1

/-- A text in the body. -/
theorem Alike.body (s s' : Bytes) : Alike .text [.body s] [.body s'] .text := by
  refine .silent ?_ ?_
  · simpa [ReportOp.pieces] using silent_text (escapeHtmlBody_no_lt s)
  · simpa [ReportOp.pieces] using silent_text (escapeHtmlBody_no_lt s')

section

variable {t : Tag} {n : Bytes}

/-- A text in a value. -/
theorem Alike.attr (s s' : Bytes) :
    Alike (.quoted t n) [.attr s] [.attr s'] (.quoted t n) := by
  refine .silent ?_ ?_
  · simpa [ReportOp.pieces] using silent_quoted (escapeHtmlAttr_no_quote s)
  · simpa [ReportOp.pieces] using silent_quoted (escapeHtmlAttr_no_quote s')

/-- A link in a value. -/
theorem Alike.href (s s' : Bytes) :
    Alike (.quoted t n) [.href s] [.href s'] (.quoted t n) := by
  refine .silent ?_ ?_
  · simpa [ReportOp.pieces] using silent_quoted (escapeHtmlAttr_no_quote (nvdHref s))
  · simpa [ReportOp.pieces] using silent_quoted (escapeHtmlAttr_no_quote (nvdHref s'))

end

/-! ## Numbers -/

/-- A number has neither a quote nor the start of a tag. -/
theorem number_plain {s : Bytes} (h : Lib.Json.isNumber s = true) : 0x3C ∉ s ∧ 0x22 ∉ s := by
  have hbytes := Lib.Json.isNumber_bytes h
  constructor
  · intro hm
    have := hbytes _ hm
    revert this
    decide
  · intro hm
    have := hbytes _ hm
    revert this
    decide

theorem intLit_plain (v : ℤ) : 0x3C ∉ opsText [intLit v] ∧ 0x22 ∉ opsText [intLit v] := by
  rw [intLit]
  split
  · exact ⟨by simp [ReportOp.pieces], by simp [ReportOp.pieces]⟩
  · simpa [ReportOp.pieces] using number_plain (isNumber_decimalInt v)

theorem doubleLit_plain (v : ℚ) : 0x3C ∉ opsText [doubleLit v] := by
  rw [doubleLit]
  split
  · simp [ReportOp.pieces]
  · simpa [ReportOp.pieces] using (number_plain (isNumber_fixed4 v)).1

theorem Alike.intText (v : ℤ) : Alike .text [intLit v] [intLit v] .text :=
  .silent (silent_text (intLit_plain v).1) (silent_text (intLit_plain v).1)

theorem Alike.intQuoted {t : Tag} {n : Bytes} (v : ℤ) :
    Alike (.quoted t n) [intLit v] [intLit v] (.quoted t n) :=
  .silent (silent_quoted (intLit_plain v).2) (silent_quoted (intLit_plain v).2)

theorem Alike.intRaw {elem : Bytes} (v : ℤ) :
    Alike (.raw elem) [intLit v] [intLit v] (.raw elem) :=
  .same (read_raw (intLit_plain v).1)

theorem Alike.doubleText (v : ℚ) : Alike .text [doubleLit v] [doubleLit v] .text :=
  .silent (silent_text (doubleLit_plain v)) (silent_text (doubleLit_plain v))

/-! ## What the two databases share -/

/-- The column is NULL or empty. -/
def Blank (col : Option Bytes) : Prop := present col = none

/-- The rows agree on the port, the severity, the KEV flag, the EPSS score, the
match status, and on which columns are NULL or empty. The columns that are
never NULL are rendered in the same way whether they are empty or not. -/
structure RowAlike (r r' : ScanResultRow) : Prop where
  port : r.port = r'.port
  severity : r.severity = r'.severity
  kevFlag : r.kevFlag = r'.kevFlag
  epssScore : r.epssScore = r'.epssScore
  matchStatus : r.matchStatus = r'.matchStatus
  service : Blank r.service ↔ Blank r'.service
  cveId : Blank r.cveId ↔ Blank r'.cveId
  remediation : Blank r.remediation ↔ Blank r'.remediation

/-- The same neighbours have equal hosts. -/
def HostsAlike : List ScanResultRow → List ScanResultRow → Prop
  | r :: s :: rs, r' :: s' :: rs' =>
      (s.host = r.host ↔ s'.host = r'.host) ∧ HostsAlike (s :: rs) (s' :: rs')
  | _, _ => True

/-- Two columns that are blank together, case by case. -/
theorem present_cases {a b : Option Bytes} (h : Blank a ↔ Blank b) :
    (present a = none ∧ present b = none) ∨ ∃ s t, present a = some s ∧ present b = some t := by
  rw [Blank, Blank] at h
  cases ha : present a with
  | none => exact Or.inl ⟨rfl, h.mp ha⟩
  | some s =>
      cases hb : present b with
      | none =>
          rw [h.mpr hb] at ha
          cases ha
      | some t => exact Or.inr ⟨s, t, rfl, rfl⟩

/-! ## Cards -/

/-- In the value of an attribute; all values of the tag are in double quotes. -/
def inQuotes (elem : String) (before : List String) (attr : String) : Mode :=
  .quoted ⟨false, name elem, before.map fun n => ⟨name n, .quoted⟩⟩ (name attr)

theorem cveLink_alike {a b : Option Bytes} (h : Blank a ↔ Blank b) :
    Alike .text (cveLink a) (cveLink b) .text := by
  rw [cveLink, cveLink]
  obtain ⟨ha, hb⟩ | ⟨s, t, ha, hb⟩ := present_cases h
  · rw [ha, hb]
    exact .lit _ _ rfl (by decide)
  · rw [ha, hb]
    refine .cons (.lit _ (inQuotes "a" [] "href") rfl (by decide)) ?_
    refine .cons (.href s t) ?_
    refine .cons (.lit _ (inQuotes "a" ["href"] "title") rfl (by decide)) ?_
    refine .cons (.attr s t) ?_
    refine .cons (.lit _ .text rfl (by decide)) ?_
    refine .cons (.body s t) ?_
    exact .lit _ _ rfl (by decide)

theorem serviceNote_alike {a b : Option Bytes} (h : Blank a ↔ Blank b) :
    Alike .text (serviceNote a) (serviceNote b) .text := by
  rw [serviceNote, serviceNote]
  obtain ⟨ha, hb⟩ | ⟨s, t, ha, hb⟩ := present_cases h
  · rw [ha, hb]
    exact .nil
  · rw [ha, hb]
    refine .cons (.lit _ .text rfl (by decide)) ?_
    refine .cons (.body s t) ?_
    exact .lit _ _ rfl (by decide)

theorem severityLabel_alike (severity : ℤ) :
    Alike .text [.lit (severityLabel severity)] [.lit (severityLabel severity)] .text := by
  refine .litBytes _ _ ?_
  rw [severityLabel]
  split_ifs <;> decide

theorem confirmedCard_alike {r r' : ScanResultRow} (h : RowAlike r r') :
    Alike .text (renderConfirmedCard r) (renderConfirmedCard r') .text := by
  simp only [renderConfirmedCard, List.append_assoc]
  rw [← h.severity, ← h.kevFlag, ← h.epssScore]
  refine .block ?_ (.block (cveLink_alike h.cveId) (.block ?_ (.block ?_ (.block ?_
    (.block ?_ (.block ?_ ?_))))))
  · refine .cons (.lit _ (inQuotes "div" [] "class") rfl (by decide)) ?_
    refine .cons (.intQuoted _) ?_
    refine .cons (.lit _ (inQuotes "div" ["class"] "title") rfl (by decide)) ?_
    refine .cons (.attr _ _) ?_
    refine .cons (.lit _ (inQuotes "div" ["class", "title"] "data-plugin-id") rfl (by decide)) ?_
    refine .cons (.attr _ _) ?_
    exact .lit _ _ rfl (by decide)
  · refine .cons (.lit _ .text rfl (by decide)) ?_
    refine .cons (severityLabel_alike _) ?_
    exact .lit _ _ rfl (by decide)
  · split
    · exact .lit _ _ rfl (by decide)
    · exact .nil
  · refine .cons (.lit _ .text rfl (by decide)) ?_
    refine .cons (.body _ _) ?_
    exact .lit _ _ rfl (by decide)
  · obtain ⟨ha, hb⟩ | ⟨s, t, ha, hb⟩ := present_cases h.remediation
    · rw [ha, hb]
      exact .nil
    · rw [ha, hb]
      refine .cons (.lit _ .text rfl (by decide)) ?_
      refine .cons (.body _ _) ?_
      exact .lit _ _ rfl (by decide)
  · cases r.epssScore with
    | none => exact .nil
    | some score =>
        refine .cons (.lit _ .text rfl (by decide)) ?_
        refine .cons (.doubleText score) ?_
        exact .lit _ _ rfl (by decide)
  · refine .cons (.lit _ .text rfl (by decide)) ?_
    refine .cons (.body _ _) ?_
    refine .cons (.lit _ .text rfl (by decide)) ?_
    refine .cons (.body _ _) ?_
    exact .lit _ _ rfl (by decide)

set_option maxRecDepth 4000 in
theorem undeterminedCard_alike {r r' : ScanResultRow} (h : RowAlike r r') :
    Alike .text (renderUndeterminedCard r) (renderUndeterminedCard r') .text := by
  simp only [renderUndeterminedCard, List.append_assoc]
  rw [← h.port]
  refine .block ?_ (.block ?_ (.block ?_ (.block (serviceNote_alike h.service) ?_)))
  · refine .cons (.lit _ (inQuotes "div" ["class"] "title") rfl (by decide)) ?_
    refine .cons (.attr _ _) ?_
    exact .lit _ _ rfl (by decide)
  · obtain ⟨ha, hb⟩ | ⟨s, t, ha, hb⟩ := present_cases h.cveId
    · rw [ha, hb]
      exact .lit _ _ rfl (by decide)
    · rw [ha, hb]
      exact .body _ _
  · refine .cons (.litTwo _ _ .text rfl rfl (by decide)) ?_
    exact .intText _
  · refine .cons (.lit _ .text rfl (by decide)) ?_
    refine .cons (.body _ _) ?_
    refine .cons (.lit _ .text rfl (by decide)) ?_
    refine .cons (.body _ _) ?_
    exact .lit _ _ rfl (by decide)

/-! ## A host -/

theorem portHeading_alike {r r' : ScanResultRow} (h : RowAlike r r') :
    Alike .text (portHeading r) (portHeading r') .text := by
  simp only [portHeading, List.append_assoc]
  rw [← h.port]
  refine .block ?_ (.block ?_ (.block (serviceNote_alike h.service) ?_))
  · exact .lit _ _ rfl (by decide)
  · split
    · exact .lit _ _ rfl (by decide)
    · exact .cons (.lit _ .text rfl (by decide)) (.intText _)
  · exact .lit _ _ rfl (by decide)

theorem portRows_alike {rows rows' : List ScanResultRow} (h : List.Forall₂ RowAlike rows rows')
    (open? : Option ℤ) :
    Alike .text (renderPortRows open? rows) (renderPortRows open? rows') .text := by
  induction h generalizing open? with
  | nil =>
      cases open? with
      | none => exact .nil
      | some port => exact .lit _ _ rfl (by decide)
  | cons hrow _ ih =>
      cases open? with
      | none =>
          rw [renderPortRows, renderPortRows, ← hrow.port]
          exact .block (.block (portHeading_alike hrow) (confirmedCard_alike hrow)) (ih _)
      | some port =>
          rw [renderPortRows, renderPortRows, ← hrow.port]
          refine .block (.block ?_ (confirmedCard_alike hrow)) (ih _)
          split
          · exact .block (.lit _ _ rfl (by decide)) (portHeading_alike hrow)
          · exact .nil

/-- The rows of one status. -/
theorem filter_alike {rows rows' : List ScanResultRow} (h : List.Forall₂ RowAlike rows rows')
    (status : MatchStatus) :
    List.Forall₂ RowAlike (rows.filter fun r => r.matchStatus = status)
      (rows'.filter fun r => r.matchStatus = status) := by
  induction h with
  | nil => exact .nil
  | @cons r r' _ _ hrow _ ih =>
      rw [List.filter_cons, List.filter_cons, hrow.matchStatus]
      split
      · exact .cons hrow ih
      · exact ih

theorem nil_alike {rows rows' : List ScanResultRow} (h : List.Forall₂ RowAlike rows rows') :
    rows = [] ↔ rows' = [] := by
  cases h <;> simp

set_option maxRecDepth 4000 in
theorem hostSection_alike (host host' : Bytes) {rows rows' : List ScanResultRow}
    (h : List.Forall₂ RowAlike rows rows') :
    Alike .text (renderHostSection host rows) (renderHostSection host' rows') .text := by
  have hconf := filter_alike h .confirmed
  have hund := filter_alike h .undetermined
  have hnot := filter_alike h .notAffected
  simp only [renderHostSection, List.append_assoc]
  generalize rows.filter (fun r => r.matchStatus = .confirmed) = conf at hconf ⊢
  generalize rows'.filter (fun r => r.matchStatus = .confirmed) = conf' at hconf ⊢
  generalize rows.filter (fun r => r.matchStatus = .undetermined) = und at hund ⊢
  generalize rows'.filter (fun r => r.matchStatus = .undetermined) = und' at hund ⊢
  generalize rows.filter (fun r => r.matchStatus = .notAffected) = not at hnot ⊢
  generalize rows'.filter (fun r => r.matchStatus = .notAffected) = not' at hnot ⊢
  simp only [nil_alike hconf, nil_alike hund, nil_alike hnot, hund.length_eq, hnot.length_eq]
  refine .block ?_ (.block ?_ (.block ?_ (.lit _ _ rfl (by decide))))
  · refine .cons (.lit _ (inQuotes "section" ["class"] "data-host") rfl (by decide)) ?_
    refine .cons (.attr _ _) ?_
    refine .cons (.lit _ .text rfl (by decide)) ?_
    refine .cons (.body _ _) ?_
    exact .lit _ _ rfl (by decide)
  · split
    · exact .lit _ _ rfl (by decide)
    · refine .block ?_ ?_
      · split
        · refine .cons (.lit _ .text rfl (by decide)) ?_
          refine .cons (.intText _) ?_
          exact .lit _ _ rfl (by decide)
        · exact portRows_alike hconf none
      · split
        · exact .nil
        · refine .block ?_ (.block ?_ (.lit _ _ rfl (by decide)))
          · exact .litTwo _ _ _ rfl rfl (by decide)
          · exact .flatMap hund fun r r' hrow => undeterminedCard_alike hrow
  · split
    · exact .nil
    · refine .cons (.lit _ .text rfl (by decide)) ?_
      refine .cons (.intText _) ?_
      exact .lit _ _ rfl (by decide)

/-! ## The findings -/

theorem opsText_dupColumns (n : ℕ) : opsText (dupColumns n) = [] := by
  simp [dupColumns, opsText, List.flatMap_replicate, ReportOp.pieces]

theorem opsText_rowsGrow (need cap : ℕ) : opsText (rowsGrow need cap).1 = [] := by
  rw [rowsGrow]
  split
  · rfl
  · generalize growCap need 64 (if cap = 0 then 8 else cap) = newCap
    simp only
    split <;> rfl

/-- A row that joins a group writes nothing but what closes the group before. -/
theorem addedRow_alike (n len cap : ℕ) {close close' rest rest' : List ReportOp}
    (hclose : Alike .text close close' .text) (hrest : Alike .text rest rest' .text) :
    Alike .text
      ([ReportOp.db (.step .findings n)] ++ dupColumns 1 ++ [ReportOp.check] ++ close ++
        dupColumns 6 ++ [ReportOp.check] ++ (rowsGrow len cap).1 ++ [ReportOp.check] ++ rest)
      ([ReportOp.db (.step .findings n)] ++ dupColumns 1 ++ [ReportOp.check] ++ close' ++
        dupColumns 6 ++ [ReportOp.check] ++ (rowsGrow len cap).1 ++ [ReportOp.check] ++ rest')
      .text := by
  refine .block (.block (.block (.block (.block (.block (.block (.block ?_ ?_) ?_) hclose)
    ?_) ?_) ?_) ?_) hrest
  · exact .quiet rfl rfl
  · exact .quiet (opsText_dupColumns _) (opsText_dupColumns _)
  · exact .quiet rfl rfl
  · exact .quiet (opsText_dupColumns _) (opsText_dupColumns _)
  · exact .quiet rfl rfl
  · exact .quiet (opsText_rowsGrow _ _) (opsText_rowsGrow _ _)
  · exact .quiet rfl rfl

/-- The loop, with a group of each side open. Its host is that of the row
before. -/
theorem findingGroups_alike {rows rows' : List ScanResultRow}
    (h : List.Forall₂ RowAlike rows rows') (n cap : ℕ) {prev prev' : ScanResultRow}
    {group group' : List ScanResultRow} (hgroup : List.Forall₂ RowAlike group group')
    (hhosts : HostsAlike (prev :: rows) (prev' :: rows')) :
    Alike .text (renderFindingGroups n (some (prev.host, group)) cap rows)
      (renderFindingGroups n (some (prev'.host, group')) cap rows') .text := by
  induction h generalizing n cap prev prev' group group' with
  | nil =>
      rw [renderFindingGroups, renderFindingGroups]
      exact .block (.block (.quiet rfl rfl) (hostSection_alike _ _ hgroup)) (.quiet rfl rfl)
  | @cons r r' rows rows' hrow _ ih =>
      obtain ⟨hsame, hrest⟩ := hhosts
      rw [renderFindingGroups, renderFindingGroups]
      have hgroups : ∃ g g', List.Forall₂ RowAlike g g' ∧
          addToGroup (some (prev.host, group)) r = (r.host, g) ∧
          addToGroup (some (prev'.host, group')) r' = (r'.host, g') := by
        rw [addToGroup, addToGroup]
        by_cases heq : r.host = prev.host
        · have heq' := hsame.mp heq
          refine ⟨group ++ [r], group' ++ [r'], ?_, ?_, ?_⟩
          · exact List.rel_append hgroup (.cons hrow .nil)
          · simp [heq]
          · simp [heq']
        · have heq' : r'.host ≠ prev'.host := fun h => heq (hsame.mpr h)
          exact ⟨[r], [r'], .cons hrow .nil, by simp [heq], by simp [heq']⟩
      obtain ⟨g, g', hg, hadd, hadd'⟩ := hgroups
      have hclose : Alike .text (closeGroup (some (prev.host, group)) r)
          (closeGroup (some (prev'.host, group')) r') .text := by
        rw [closeGroup, closeGroup]
        by_cases heq : r.host = prev.host
        · rw [if_pos heq, if_pos (hsame.mp heq)]
          exact .nil
        · rw [if_neg heq, if_neg fun h => heq (hsame.mpr h)]
          exact .block (hostSection_alike _ _ hgroup) (.quiet rfl rfl)
      rw [hadd, hadd']
      simp only [hg.length_eq]
      exact addedRow_alike _ _ _ hclose (ih _ _ hg hrest)

/-- From the first row on. -/
theorem findings_alike {rows rows' : List ScanResultRow} (h : List.Forall₂ RowAlike rows rows')
    (hhosts : HostsAlike rows rows') :
    Alike .text (renderFindingGroups 0 none 0 rows) (renderFindingGroups 0 none 0 rows') .text := by
  cases h with
  | nil =>
      rw [renderFindingGroups]
      refine .cons (.quiet rfl rfl) (.cons ?_ (.quiet rfl rfl))
      exact .litTwo _ _ _ rfl rfl (by decide)
  | @cons r r' rows rows' hrow hrest =>
      rw [renderFindingGroups, renderFindingGroups]
      simp only [addToGroup, closeGroup, List.length_singleton]
      exact addedRow_alike _ _ _ .nil (findingGroups_alike hrest _ _ (.cons hrow .nil) hhosts)

/-! ## The parts that are not about findings -/

theorem no_lt_of_lines {ss : List String}
    (h : ∀ s ∈ ss, ((ascii s).all fun c => c != 0x3C) = true) : 0x3C ∉ ss.flatMap ascii := by
  intro hm
  obtain ⟨s, hs, hc⟩ := List.mem_flatMap.mp hm
  simpa using List.all_eq_true.mp (h s hs) _ hc

theorem cssCommon_no_lt : 0x3C ∉ cssCommon.flatMap ascii := by
  refine no_lt_of_lines ?_
  unfold cssCommon
  repeat' refine List.forall_mem_cons.mpr ⟨ascii_all rfl (by decide), ?_⟩
  exact List.forall_mem_nil _

theorem cssSections_no_lt : 0x3C ∉ cssSections.flatMap ascii := by
  refine no_lt_of_lines ?_
  unfold cssSections
  repeat' refine List.forall_mem_cons.mpr ⟨ascii_all rfl (by decide), ?_⟩
  exact List.forall_mem_nil _

theorem cssFindings_no_lt : 0x3C ∉ cssFindings.flatMap ascii := by
  refine no_lt_of_lines ?_
  unfold cssFindings
  repeat' refine List.forall_mem_cons.mpr ⟨ascii_all rfl (by decide), ?_⟩
  exact List.forall_mem_nil _

set_option maxRecDepth 4000 in
theorem documentHead_alike (scanId : ℤ) :
    Alike .text (renderDocumentHead scanId) (renderDocumentHead scanId) .text := by
  have hcss : 0x3C ∉ opsText (cssChunks.map .lit) := by
    simp only [cssChunks, List.map_cons, List.map_nil, opsText_cons, opsText_nil, ReportOp.pieces,
      List.flatten_cons, List.flatten_nil, List.append_nil, List.mem_append, not_or]
    exact ⟨cssCommon_no_lt, cssSections_no_lt, cssFindings_no_lt⟩
  simp only [renderDocumentHead, List.append_assoc]
  refine .append (.cons (.litBytes _ (.raw (name "title")) (by decide)) (.cons (.intRaw _)
    (.lit _ (.raw (name "style")) rfl (by decide)))) ?_
  exact .append (.same (read_raw hcss)) (.lit _ _ rfl (by decide))

theorem metaRow_alike (label : String) {l : List Char} (hl : label = .ofList l)
    (h : (read .text (l.map asciiByte)).1 = .text) (value value' : Bytes) :
    Alike .text (metaRow label value) (metaRow label value') .text := by
  refine .cons (.lit _ .text rfl (by decide)) ?_
  refine .cons (.lit label .text hl h) ?_
  refine .cons (.lit _ .text rfl (by decide)) ?_
  refine .cons (.body _ _) ?_
  exact .lit _ _ rfl (by decide)

theorem logo_silent (logo : Logo) {t : Tag} {n : Bytes} :
    Silent (.quoted t n) (opsText (logo.chunks.map .lit)) := by
  have hbyte : ∀ c, isDataUriByte c = true → c ≠ 0x22 := by
    rintro c hc rfl
    revert hc
    decide
  refine silent_quoted fun hm => ?_
  simp only [opsText, List.flatMap_map, List.mem_flatMap, ReportOp.pieces, List.flatten_cons,
    List.flatten_nil, List.append_nil] at hm
  obtain ⟨chunk, hchunk, hc⟩ := hm
  exact hbyte _ (List.all_eq_true.mp (logo.dataUri chunk hchunk) _ hc) rfl

set_option maxRecDepth 4000 in
theorem cover_alike (logo : Logo) (scanId : ℤ) (row row' : ScanRow) :
    Alike .text (renderCover logo scanId row) (renderCover logo scanId row') .text := by
  simp only [renderCover, List.append_assoc]
  refine .append (.litTwo _ _ (inQuotes "img" ["class", "width", "height", "alt"] "src")
    rfl rfl (by decide)) (.append (.silent (logo_silent logo) (logo_silent logo)) ?_)
  refine .append (.cons (.litTwo _ _ .text rfl rfl (by decide)) (.cons (.intText _)
    (.lit _ .text rfl (by decide)))) ?_
  refine .block (metaRow_alike _ rfl (by decide) _ _) ?_
  refine .block (metaRow_alike _ rfl (by decide) _ _) ?_
  refine .block (metaRow_alike _ rfl (by decide) _ _) ?_
  refine .block (metaRow_alike _ rfl (by decide) _ _) ?_
  refine .block (metaRow_alike _ rfl (by decide) _ _) ?_
  refine .block (metaRow_alike _ rfl (by decide) _ _) ?_
  refine .block (metaRow_alike _ rfl (by decide) _ _) ?_
  exact .lit _ _ rfl (by decide)

set_option maxRecDepth 4000 in
theorem summary_alike {row row' : ScanRow} (h : row.malformedDataCount = row'.malformedDataCount)
    (counts : ReportCounts) :
    Alike .text (renderSummary row counts) (renderSummary row' counts) .text := by
  have hclass : ∀ s, Alike (inQuotes "li" [] "class") [.lit (sevClass s)] [.lit (sevClass s)]
      (inQuotes "li" [] "class") := by
    intro s
    refine .litBytes _ _ ?_
    rw [sevClass.eq_def]
    split <;> decide
  simp only [renderSummary, List.append_assoc]
  rw [← h]
  refine .block (.lit _ _ rfl (by decide)) (.block ?_ (.block (.lit _ _ rfl (by decide))
    (.block ?_ ?_)))
  · split
    · refine .cons (.lit _ .text rfl (by decide)) ?_
      refine .cons (.intText _) ?_
      exact .lit _ _ rfl (by decide)
    · exact .nil
  · refine .flatMap (List.forall₂_eq_eq_eq.symm ▸ rfl) ?_
    rintro s _ rfl
    refine .cons (.lit _ (inQuotes "li" [] "class") rfl (by decide)) ?_
    refine .cons (hclass s) ?_
    refine .cons (.lit _ .text rfl (by decide)) ?_
    refine .cons (severityLabel_alike _) ?_
    refine .cons (.lit _ .text rfl (by decide)) ?_
    refine .cons (.intText _) ?_
    exact .lit _ _ rfl (by decide)
  · refine .cons (.lit _ .text rfl (by decide)) ?_
    refine .cons (.lit _ .text rfl (by decide)) ?_
    refine .cons (.intText _) ?_
    refine .cons (.lit _ .text rfl (by decide)) ?_
    refine .cons (.litTwo _ _ .text rfl rfl (by decide)) ?_
    refine .cons (.intText _) ?_
    refine .cons (.lit _ .text rfl (by decide)) ?_
    refine .cons (.litTwo _ _ .text rfl rfl (by decide)) ?_
    refine .cons (.intText _) ?_
    exact .lit _ _ rfl (by decide)

/-! ## The counts -/

/-- A count over rows that agree. -/
theorem countP_alike {rows rows' : List ScanResultRow} (h : List.Forall₂ RowAlike rows rows')
    {p : ScanResultRow → Bool} (hp : ∀ r r', RowAlike r r' → p r = p r') :
    rows.countP p = rows'.countP p := by
  induction h with
  | nil => rfl
  | cons hrow _ ih => rw [List.countP_cons, List.countP_cons, ih, hp _ _ hrow]

/-- The counts of a scan do not look at the order of its rows. -/
theorem countP_findings (scanId : ℤ) (d : Tables) (p : ScanResultRow → Bool) :
    (resultsOf scanId d).countP p = (findingsQuery scanId d).countP p :=
  ((findingsQuery_sorted scanId d).1.countP_eq p).symm

theorem loadedCounts_alike (alloc alloc' : ℕ → Bool) (fault fault' : ReportDbCall → Bool)
    {d d' : Tables} {scanId : ℤ}
    (h : List.Forall₂ RowAlike (findingsQuery scanId d) (findingsQuery scanId d')) :
    loadedCounts ⟨alloc, fault, fun _ => d⟩ scanId =
      loadedCounts ⟨alloc', fault', fun _ => d'⟩ scanId := by
  have hcount : ∀ p : ScanResultRow → Bool, (∀ r r', RowAlike r r' → p r = p r') →
      (resultsOf scanId d).countP p = (resultsOf scanId d').countP p := by
    intro p hp
    rw [countP_findings, countP_findings]
    exact countP_alike h hp
  have hseverity : takeSeverities (severityQuery scanId d) =
      takeSeverities (severityQuery scanId d') := by
    funext k
    have hmem : ∀ d : Tables, ((k : ℤ) ∈ (((resultsOf scanId d).filter fun r =>
        r.matchStatus = .confirmed).map (·.severity)).dedup) ↔
        0 < (resultsOf scanId d).countP fun r =>
          r.matchStatus = .confirmed ∧ r.severity = (k : ℤ) := by
      intro d
      rw [List.mem_dedup, List.countP_pos_iff]
      simp [and_assoc]
    simp only [severityQuery, takeSeverities_map, hmem, List.countP_filter]
    rw [hcount (fun r => decide (r.matchStatus = .confirmed ∧ r.severity = (k : ℤ)))
        (fun r r' hr => by rw [hr.matchStatus, hr.severity]),
      hcount (fun r => decide (r.severity = (k : ℤ)) && decide (r.matchStatus = .confirmed))
        (fun r r' hr => by rw [hr.matchStatus, hr.severity])]
  rw [loadedCounts, loadedCounts, hseverity, kevQuery, kevQuery, statusQuery, statusQuery,
    statusQuery, statusQuery,
    hcount (fun r => decide (r.matchStatus = .confirmed ∧ r.kevFlag = 1))
      (fun r r' hr => by rw [hr.matchStatus, hr.kevFlag]),
    hcount (fun r => decide (r.matchStatus = .undetermined))
      (fun r r' hr => by rw [hr.matchStatus]),
    hcount (fun r => decide (r.matchStatus = .notAffected))
      (fun r r' hr => by rw [hr.matchStatus])]

/-! ## The report -/

section

variable (st : ReportStatus)

theorem stop_ne_lit (s : String) : ReportOp.stop st ≠ lit s := by
  simp [lit]

theorem stop_not_mem_confirmedCard (r : ScanResultRow) :
    ReportOp.stop st ∉ renderConfirmedCard r := by
  rw [renderConfirmedCard, cveLink]
  cases present r.cveId <;> cases present r.remediation <;> cases r.epssScore <;>
    by_cases hkev : r.kevFlag = 0 <;>
    simp [hkev, stop_ne_lit, stop_ne_intLit, stop_ne_doubleLit]

theorem stop_not_mem_serviceNote (service : Option Bytes) :
    ReportOp.stop st ∉ serviceNote service := by
  rw [serviceNote]
  cases present service <;> simp [stop_ne_lit]

theorem stop_not_mem_undeterminedCard (r : ScanResultRow) :
    ReportOp.stop st ∉ renderUndeterminedCard r := by
  rw [renderUndeterminedCard]
  cases present r.cveId <;> simp [stop_ne_lit, stop_ne_intLit, stop_not_mem_serviceNote]

theorem stop_not_mem_portHeading (r : ScanResultRow) : ReportOp.stop st ∉ portHeading r := by
  rw [portHeading]
  split <;> simp [stop_ne_lit, stop_ne_intLit, stop_not_mem_serviceNote]

theorem stop_not_mem_portRows (open? : Option ℤ) (rows : List ScanResultRow) :
    ReportOp.stop st ∉ renderPortRows open? rows := by
  induction rows generalizing open? with
  | nil => cases open? <;> simp [renderPortRows, stop_ne_lit]
  | cons r rs ih =>
      cases open? with
      | none => simp [renderPortRows, ih, stop_not_mem_portHeading, stop_not_mem_confirmedCard]
      | some port =>
          rw [renderPortRows]
          split <;>
            simp [ih, stop_ne_lit, stop_not_mem_portHeading, stop_not_mem_confirmedCard]

theorem stop_not_mem_hostSection (host : Bytes) (rows : List ScanResultRow) :
    ReportOp.stop st ∉ renderHostSection host rows := by
  rw [renderHostSection]
  split_ifs <;> simp [stop_ne_lit, stop_ne_intLit, stop_not_mem_portRows,
    stop_not_mem_undeterminedCard]

theorem stop_not_mem_findingGroups (n : ℕ) (cur : Option (Bytes × List ScanResultRow)) (cap : ℕ)
    (rows : List ScanResultRow) : ReportOp.stop st ∉ renderFindingGroups n cur cap rows := by
  induction rows generalizing n cur cap with
  | nil =>
      cases cur with
      | none => simp [renderFindingGroups]
      | some group => simp [renderFindingGroups, stop_not_mem_hostSection]
  | cons r rs ih =>
      have hgrow : ∀ need, ReportOp.stop st ∉ (rowsGrow need cap).1 := by
        intro need
        rw [rowsGrow]
        split
        · simp
        · generalize growCap need 64 (if cap = 0 then 8 else cap) = newCap
          simp only
          split <;> simp
      have hclose : ReportOp.stop st ∉ closeGroup cur r := by
        cases cur with
        | none => simp [closeGroup]
        | some group =>
            rw [closeGroup]
            split <;> simp [stop_not_mem_hostSection]
      simp [renderFindingGroups, ih, hgrow, hclose, dupColumns]

end

/-- The calls before the last look at the flag. -/
def reportHtmlBody (logo : Logo) (w : ReportWorld) (scanId : ℤ) (row : ScanRow) :
    List ReportOp :=
  openQuery .scanRow ++ [ReportOp.db (.step .scanRow 0)] ++ dupColumns 7 ++ [ReportOp.check] ++
    loadCounts w scanId ++ renderDocumentHead scanId ++ renderCover logo scanId row ++
    renderSummary row (loadedCounts w scanId) ++ [ReportOp.check] ++
    [lit "<section class=\"findings\">\n<h2>Findings</h2>\n", .check] ++
    renderFindings w scanId ++ [lit "</section>\n</body>\n</html>\n"]

theorem stop_not_mem_reportHtmlBody (st : ReportStatus) (logo : Logo) (w : ReportWorld)
    (scanId : ℤ) (row : ScanRow) : ReportOp.stop st ∉ reportHtmlBody logo w scanId row := by
  have hsummary : ReportOp.stop st ∉ renderSummary row (loadedCounts w scanId) := by
    rw [renderSummary]
    split <;> simp [stop_ne_lit, stop_ne_intLit]
  simp [reportHtmlBody, openQuery, dupColumns, stop_not_mem_loadCounts, renderDocumentHead,
    renderCover, metaRow, renderFindings, hsummary, stop_ne_lit, stop_ne_intLit,
    stop_not_mem_findingGroups]

/-- A report that answers OK has appended the text of its calls, and none of
them refused. -/
theorem reportHtml_ok {logo : Logo} {w : ReportWorld} {scanId : ℤ} {row : ScanRow}
    {out out' : ReportBuf} (hrow : (w.snapshot .scanRow).scans scanId = some row)
    (h : reportHtml logo w scanId out = (.ok, out')) :
    out'.data = out.data ++ opsText (reportHtmlBody logo w scanId row) ∧
      ReportOp.refuse ∉ reportHtmlBody logo w scanId row := by
  rw [reportHtml] at h
  split at h
  · cases h
  · have hops : reportHtmlOps logo w scanId = reportHtmlBody logo w scanId row ++ [.check] := by
      simp [reportHtmlOps, hrow, reportHtmlBody]
    rw [hops] at h
    obtain ⟨-, hdata, -, hrefuse⟩ := runOps_ok (stop_not_mem_reportHtmlBody _ _ _ _ _) h
    exact ⟨hdata, hrefuse⟩

theorem opsText_loadCounts (w : ReportWorld) (scanId : ℤ) : opsText (loadCounts w scanId) = [] := by
  simp [loadCounts, countWhere, openQuery, opsText, ReportOp.pieces]

theorem reportHtmlBody_alike (logo : Logo) (alloc alloc' : ℕ → Bool)
    (fault fault' : ReportDbCall → Bool) {d d' : Tables} {scanId : ℤ} {row row' : ScanRow}
    (hscan : row.malformedDataCount = row'.malformedDataCount)
    (hrows : List.Forall₂ RowAlike (findingsQuery scanId d) (findingsQuery scanId d'))
    (hhosts : HostsAlike (findingsQuery scanId d) (findingsQuery scanId d')) :
    Alike .text (reportHtmlBody logo ⟨alloc, fault, fun _ => d⟩ scanId row)
      (reportHtmlBody logo ⟨alloc', fault', fun _ => d'⟩ scanId row') .text := by
  have hopen : Alike .text (openQuery .findings) (openQuery .findings) .text := .quiet rfl rfl
  have hfindings := hopen.block (findings_alike hrows hhosts)
  have hcounts := loadedCounts_alike alloc alloc' fault fault' hrows
  rw [reportHtmlBody, reportHtmlBody, hcounts]
  refine .block (.block (.block (.block (.block (.block (.block (.block (.block (.block (.block
    ?_ ?_) ?_) ?_) ?_) ?_) ?_) ?_) ?_) ?_) hfindings) ?_
  · exact .quiet rfl rfl
  · exact .quiet rfl rfl
  · exact .quiet (opsText_dupColumns _) (opsText_dupColumns _)
  · exact .quiet rfl rfl
  · exact .quiet (opsText_loadCounts _ _) (opsText_loadCounts _ _)
  · exact documentHead_alike scanId
  · exact cover_alike logo scanId row row'
  · exact summary_alike hscan _
  · exact .quiet rfl rfl
  · exact .cons (.lit _ .text rfl (by decide)) (.quiet rfl rfl)
  · exact .lit _ _ rfl (by decide)

/-! ## A report that is written -/

/-- The calls write texts of this length at most. -/
def Fits (ops : List ReportOp) : Prop := ∀ op ∈ ops, op.pieces.flatten.length ≤ 8192

namespace Fits

variable {ops more : List ReportOp} {op : ReportOp}

theorem nil : Fits [] := List.forall_mem_nil _

theorem append (h : Fits ops) (h' : Fits more) : Fits (ops ++ more) :=
  List.forall_mem_append.mpr ⟨h, h'⟩

theorem one (h : op.pieces.flatten.length ≤ 8192) : Fits [op] := List.forall_mem_singleton.mpr h

theorem cons (h : Fits [op]) (h' : Fits more) : Fits (op :: more) := append h h'

theorem lit (s : String) {l : List Char} (hs : s = .ofList l) (h : l.length ≤ 8192) :
    Fits [Report.lit s] := by
  refine one ?_
  simpa [Report.lit, ReportOp.pieces, ascii_ofList hs] using h

theorem litTwo (s t : String) {l k : List Char} (hs : s = .ofList l) (ht : t = .ofList k)
    (h : l.length + k.length ≤ 8192) : Fits [.lit (ascii s ++ ascii t)] := by
  refine one ?_
  simpa [ReportOp.pieces, ascii_ofList hs, ascii_ofList ht] using h

theorem quiet (h : opsText ops = []) : Fits ops := by
  intro op hop
  rw [opsText, List.flatMap_eq_nil_iff] at h
  rw [h op hop]
  decide

theorem number {text : Bytes} : Fits [if text.length ≥ 32 then .refuse else .lit text] := by
  refine one ?_
  split
  · decide
  · next h =>
      simp only [ReportOp.pieces, List.flatten_cons, List.flatten_nil, List.append_nil]
      omega

theorem intLit (v : ℤ) : Fits [Report.intLit v] := number

theorem opsText_length_le (h : Fits ops) : (opsText ops).length ≤ 8192 * ops.length := by
  induction ops with
  | nil => rfl
  | cons op ops ih =>
      obtain ⟨hop, hops⟩ := List.forall_mem_cons.mp h
      have hrest := ih hops
      rw [opsText_cons, List.length_append, List.length_cons]
      omega

end Fits

theorem lines_length {ss : List String} {n : ℕ} (h : ∀ s ∈ ss, (ascii s).length ≤ n) :
    (ss.flatMap ascii).length ≤ n * ss.length := by
  induction ss with
  | nil => rfl
  | cons s ss ih =>
      obtain ⟨hs, hss⟩ := List.forall_mem_cons.mp h
      have hrest := ih hss
      rw [List.flatMap_cons, List.length_append, List.length_cons, Nat.mul_succ]
      omega

theorem ascii_length_le {s : String} {l : List Char} {n : ℕ} (hs : s = .ofList l)
    (h : l.length ≤ n) : (ascii s).length ≤ n := by
  rwa [ascii_ofList hs, List.length_map]

theorem cssLine_length :
    ∀ s ∈ cssCommon ++ (cssSections ++ cssFindings), (ascii s).length ≤ 128 := by
  refine List.forall_mem_append.mpr ⟨?_, List.forall_mem_append.mpr ⟨?_, ?_⟩⟩
  · unfold cssCommon
    repeat' refine List.forall_mem_cons.mpr ⟨ascii_length_le rfl (by decide), ?_⟩
    exact List.forall_mem_nil _
  · unfold cssSections
    repeat' refine List.forall_mem_cons.mpr ⟨ascii_length_le rfl (by decide), ?_⟩
    exact List.forall_mem_nil _
  · unfold cssFindings
    repeat' refine List.forall_mem_cons.mpr ⟨ascii_length_le rfl (by decide), ?_⟩
    exact List.forall_mem_nil _

theorem documentHead_fits (scanId : ℤ) : Fits (renderDocumentHead scanId) := by
  have hline := cssLine_length
  refine .append (.append (.cons (.one ?_) (.cons (.intLit _) (.lit _ rfl (by decide)))) ?_)
    (.lit _ rfl (by decide))
  · simp only [ReportOp.pieces, List.flatten_cons, List.flatten_nil, List.append_nil,
      List.length_append]
    have h₁ : (ascii
        "<!DOCTYPE html>\n<html lang=\"en\">\n<head>\n<meta charset=\"utf-8\">\n").length ≤ 128 :=
      ascii_length_le rfl (by decide)
    have h₂ : (ascii
        "<meta name=\"viewport\" content=\"width=device-width, initial-scale=1\">\n").length ≤
          128 := ascii_length_le rfl (by decide)
    have h₃ : (ascii "<title>Cytadel Scan Report #").length ≤ 128 :=
      ascii_length_le rfl (by decide)
    omega
  · rw [List.forall_mem_append, List.forall_mem_append] at hline
    obtain ⟨h₁, h₂, h₃⟩ := hline
    refine .cons (.one ?_) (.cons (.one ?_) (.one ?_))
    all_goals simp only [ReportOp.pieces, List.flatten_cons, List.flatten_nil, List.append_nil]
    · exact (lines_length h₁).trans (by decide)
    · exact (lines_length h₂).trans (by decide)
    · exact (lines_length h₃).trans (by decide)

theorem metaRow_fits (label : String) {l : List Char} (hl : label = .ofList l)
    (hlen : l.length ≤ 8192) {value : Bytes} (hvalue : Fits [.body value]) :
    Fits (metaRow label value) :=
  .cons (.lit _ rfl (by decide)) (.cons (.lit _ hl hlen) (.cons (.lit _ rfl (by decide))
    (.cons hvalue (.lit _ rfl (by decide)))))

/-- The logo as it begins. -/
def logoStart : Logo := ⟨[ascii "data:image/jpeg;base64,/9j/"], by decide⟩

theorem cover_fits : Fits (renderCover logoStart 1 reportedScan) := by
  have hlogo : Fits (logoStart.chunks.map .lit) := .one (by decide)
  have hvalue : ∀ value : Bytes, (escapeHtmlBody value).flatten.length ≤ 8192 →
      Fits [.body value] := fun value h => .one h
  refine .append (.append (.append (.append (.append (.append (.append (.append (.append
    (.append ?_ ?_) ?_) ?_) ?_) ?_) ?_) ?_) ?_) ?_) ?_
  · exact .litTwo _ _ rfl rfl (by decide)
  · exact hlogo
  · exact .cons (.litTwo _ _ rfl rfl (by decide)) (.cons (.intLit _) (.lit _ rfl (by decide)))
  · exact metaRow_fits _ rfl (by decide) (hvalue _ (by decide))
  · exact metaRow_fits _ rfl (by decide) (hvalue _ (by decide))
  · exact metaRow_fits _ rfl (by decide) (hvalue _ (by decide))
  · exact metaRow_fits _ rfl (by decide) (hvalue _ (by decide))
  · exact metaRow_fits _ rfl (by decide) (hvalue _ (by decide))
  · exact metaRow_fits _ rfl (by decide) (hvalue _ (by decide))
  · exact metaRow_fits _ rfl (by decide) (hvalue _ (by decide))
  · exact .lit _ rfl (by decide)

theorem severityLabel_fits (severity : ℤ) : Fits [.lit (severityLabel severity)] := by
  unfold severityLabel
  repeat' split
  all_goals exact .lit _ rfl (by decide)

theorem sevClass_fits (s : ℕ) : Fits [.lit (sevClass s)] := by
  unfold sevClass
  split
  all_goals exact .lit _ rfl (by decide)

theorem Fits.flatMap {α : Type} {f : α → List ReportOp} {as : List α} (h : ∀ a ∈ as, Fits (f a)) :
    Fits (as.flatMap f) := by
  intro op hop
  obtain ⟨a, ha, hop⟩ := List.mem_flatMap.mp hop
  exact h a ha op hop

theorem summary_fits (row : ScanRow) (counts : ReportCounts) : Fits (renderSummary row counts) := by
  refine .append (.append (.append (.append ?_ ?_) ?_) (.flatMap ?_)) ?_
  · exact .lit _ rfl (by decide)
  · split
    · exact .cons (.lit _ rfl (by decide)) (.cons (.intLit _) (.lit _ rfl (by decide)))
    · exact .nil
  · exact .lit _ rfl (by decide)
  · intro s _
    refine .cons (.lit _ rfl (by decide)) (.cons (sevClass_fits s) ?_)
    refine .cons (.lit _ rfl (by decide)) (.cons (severityLabel_fits s) ?_)
    exact .cons (.lit _ rfl (by decide)) (.cons (.intLit _) (.lit _ rfl (by decide)))
  · refine .cons (.lit _ rfl (by decide)) (.cons (.lit _ rfl (by decide)) (.cons (.intLit _) ?_))
    refine .cons (.lit _ rfl (by decide)) (.cons (.litTwo _ _ rfl rfl (by decide)) ?_)
    refine .cons (.intLit _) (.cons (.lit _ rfl (by decide)) ?_)
    exact .cons (.litTwo _ _ rfl rfl (by decide)) (.cons (.intLit _) (.lit _ rfl (by decide)))

/-- A finding with this evidence. -/
def evidenceFinding (evidence : Bytes) : ScanResultRow :=
  ⟨1, 1, ascii "10.0.0.9", 22, none, ascii "31", none, .confirmed, 3, evidence, none, 0, none,
    ascii "2024-06-02"⟩

def evidenceTables (evidence : Bytes) : Tables :=
  { Tables.seeded with
    scans := fun id => if id = 1 then some reportedScan else none
    scanResults := [evidenceFinding evidence] }

theorem evidenceCard_fits {evidence : Bytes} (hbody : Fits [.body evidence])
    (hattr : Fits [.attr evidence]) : Fits (renderConfirmedCard (evidenceFinding evidence)) := by
  have hplugin : Fits [.attr (ascii "31")] := .one (by decide)
  have hby : Fits [.body (ascii "31")] := .one (by decide)
  have hat : Fits [.body (ascii "2024-06-02")] := .one (by decide)
  refine .append (.append (.append (.append (.append (.append (.append ?_ ?_) ?_) ?_) ?_) ?_) ?_) ?_
  · refine .cons (.lit _ rfl (by decide)) (.cons (.intLit _) (.cons (.lit _ rfl (by decide)) ?_))
    refine .cons hattr (.cons (.lit _ rfl (by decide)) ?_)
    exact .cons hplugin (.lit _ rfl (by decide))
  · exact .lit _ rfl (by decide)
  · exact .cons (.lit _ rfl (by decide)) (.cons (severityLabel_fits _) (.lit _ rfl (by decide)))
  · exact .nil
  · exact .cons (.lit _ rfl (by decide)) (.cons hbody (.lit _ rfl (by decide)))
  · exact .nil
  · exact .nil
  · refine .cons (.lit _ rfl (by decide)) (.cons hat ?_)
    exact .cons (.lit _ rfl (by decide)) (.cons hby (.lit _ rfl (by decide)))

theorem evidenceHost_fits {evidence : Bytes} (hbody : Fits [.body evidence])
    (hattr : Fits [.attr evidence]) :
    Fits (renderHostSection (ascii "10.0.0.9") [evidenceFinding evidence]) := by
  refine .append (.append (.append ?_ ?_) ?_) ?_
  · refine .cons (.lit _ rfl (by decide)) (.cons (.one (by decide)) ?_)
    refine .cons (.lit _ rfl (by decide)) (.cons (.one (by decide)) ?_)
    exact .lit _ rfl (by decide)
  · have hheading : Fits (portHeading (evidenceFinding evidence)) :=
      .append (.append (.append (.lit _ rfl (by decide)) (.cons (.lit _ rfl (by decide))
        (.intLit _))) .nil) (.lit _ rfl (by decide))
    exact .append (.append (.append hheading (evidenceCard_fits hbody hattr))
      (.lit _ rfl (by decide))) .nil
  · exact .nil
  · exact .lit _ rfl (by decide)

theorem evidenceFindings_fits {evidence : Bytes} (hbody : Fits [.body evidence])
    (hattr : Fits [.attr evidence]) :
    Fits (renderFindingGroups 0 none 0 [evidenceFinding evidence]) := by
  have hhost := evidenceHost_fits hbody hattr
  rw [renderFindingGroups]
  refine .append (.quiet rfl) ?_
  exact .append (.append (.quiet rfl) hhost) (.quiet rfl)

theorem evidenceOps_fits {evidence : Bytes} (hbody : Fits [.body evidence])
    (hattr : Fits [.attr evidence]) {w : ReportWorld}
    (hw : w.snapshot = fun _ => evidenceTables evidence) : Fits (reportHtmlOps logoStart w 1) := by
  have hscan : (evidenceTables evidence).scans 1 = some reportedScan := rfl
  have hrows : findingsQuery 1 (evidenceTables evidence) = [evidenceFinding evidence] := rfl
  rw [reportHtmlOps, hw, hscan]
  refine .append (.quiet rfl) (.append (.append (.append (.append (.append (.append (.append
    (.append ?_ ?_) ?_) ?_) ?_) ?_) ?_) ?_) ?_)
  · exact .quiet rfl
  · exact .quiet (opsText_loadCounts w 1)
  · exact documentHead_fits 1
  · exact cover_fits
  · exact summary_fits _ _
  · exact .quiet rfl
  · exact .cons (.lit _ rfl (by decide)) (.quiet rfl)
  · rw [renderFindings, hw, hrows]
    exact .append (.quiet rfl) (evidenceFindings_fits hbody hattr)
  · exact .cons (.lit _ rfl (by decide)) (.quiet rfl)

theorem reportHtml_evidence (evidence : Bytes) (hbody : Fits [.body evidence])
    (hattr : Fits [.attr evidence])
    (hops : (reportHtmlOps logoStart ⟨fun _ => false, fun _ => false,
      fun _ => evidenceTables evidence⟩ 1).all ReportOp.smooth = true)
    (hlength : (reportHtmlOps logoStart ⟨fun _ => false, fun _ => false,
      fun _ => evidenceTables evidence⟩ 1).length ≤ 1000) :
    ∃ out, reportHtml logoStart ⟨fun _ => false, fun _ => false,
      fun _ => evidenceTables evidence⟩ 1 (.empty 0) = (.ok, out) := by
  have hsize := (evidenceOps_fits hbody hattr (w := ⟨fun _ => false, fun _ => false,
    fun _ => evidenceTables evidence⟩) rfl).opsText_length_le
  rw [reportHtml, if_neg (by decide)]
  refine runOps_quiet (fun _ => rfl) (fun _ => rfl) (List.all_eq_true.mp hops) ?_
  rw [ReportBuf.empty, List.length_nil, Nat.zero_add, sizeMax]
  omega

/-- Two databases in which the rows of a scan, in the order of the query, agree
on everything but the content of their texts have HTML reports of the same
skeleton. -/
theorem reportHtml_skeleton {logo : Logo} {alloc alloc' : ℕ → Bool}
    {fault fault' : ReportDbCall → Bool} {d d' : Tables} {scanId : ℤ} {row row' : ScanRow}
    {out out' out₁ out₁' : ReportBuf} {text text' : Bytes}
    (hrow : d.scans scanId = some row) (hrow' : d'.scans scanId = some row')
    (hscan : row.malformedDataCount = row'.malformedDataCount)
    (hrows : List.Forall₂ RowAlike (findingsQuery scanId d) (findingsQuery scanId d'))
    (hhosts : HostsAlike (findingsQuery scanId d) (findingsQuery scanId d'))
    (h : reportHtml logo ⟨alloc, fault, fun _ => d⟩ scanId out = (.ok, out₁))
    (htext : out₁.data = out.data ++ text)
    (h' : reportHtml logo ⟨alloc', fault', fun _ => d'⟩ scanId out' = (.ok, out₁'))
    (htext' : out₁'.data = out'.data ++ text') :
    skeleton text = skeleton text' := by
  obtain ⟨ks, hks, hks'⟩ := reportHtmlBody_alike logo alloc alloc' fault fault' hscan hrows hhosts
  have hdata := (reportHtml_ok hrow h).1
  have hdata' := (reportHtml_ok hrow' h').1
  rw [htext, List.append_cancel_left_eq] at hdata
  rw [htext', List.append_cancel_left_eq] at hdata'
  rw [hdata, hdata', skeleton, skeleton, hks, hks']

theorem reportHtml_skeleton_script :
    ∃ out out' : ReportBuf,
      reportHtml logoStart ⟨fun _ => false, fun _ => false,
        fun _ => evidenceTables (ascii "\"><script>alert(1)</script>")⟩ 1 (.empty 0) = (.ok, out) ∧
      reportHtml logoStart ⟨fun _ => false, fun _ => false,
        fun _ => evidenceTables (ascii "OpenSSH 9.0")⟩ 1 (.empty 0) = (.ok, out') ∧
      skeleton out.data = skeleton out'.data := by
  obtain ⟨out, hrun⟩ := reportHtml_evidence
    (ascii "\"><script>alert(1)</script>") (.one (by decide))
    (.one (by decide)) (by decide +kernel) (by decide +kernel)
  obtain ⟨out', hrun'⟩ := reportHtml_evidence
    (ascii "OpenSSH 9.0") (.one (by decide))
    (.one (by decide)) (by decide +kernel) (by decide +kernel)
  have hscan : ∀ evidence, (evidenceTables evidence).scans 1 = some reportedScan := fun _ => rfl
  refine ⟨out, out', hrun, hrun', ?_⟩
  refine reportHtml_skeleton (hscan _) (hscan _) rfl ?_ ?_ hrun rfl hrun' rfl
  · exact .cons ⟨rfl, rfl, rfl, rfl, rfl, Iff.rfl, Iff.rfl, Iff.rfl⟩ .nil
  · trivial

end Cytadel.Report
