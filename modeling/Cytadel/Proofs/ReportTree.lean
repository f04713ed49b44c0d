import Cytadel.Lib.HtmlTree
import Cytadel.Proofs.HtmlSkeleton

/-!
# The tree of the HTML report

What each part of the report writes, as the nodes that a reader of HTML makes
of it. A part begins and ends in text and closes the elements it opens, so the
nodes of the parts side by side are those of the report. Stored texts and
numbers are text or a value, whatever is in them.
-/

namespace Cytadel.Report

open Cytadel Cytadel.Db Lib.Html

/-! ## Marks of calls -/

/-- The calls move a reader from one mode to another, with these marks. -/
def Tells (m : Mode) (ops : List ReportOp) (m' : Mode) (ms : List Mark) : Prop :=
  marks m (opsText ops) = (m', ms)

/-- The start tag of an element whose values are all in double quotes. -/
def startMark (elem : String) (attrs : List String) : Mark :=
  .token (.tag ⟨false, name elem, attrs.map fun n => ⟨name n, .quoted⟩⟩ false)

def bodyText (s : Bytes) : Bytes := (escapeHtmlBody s).flatten

def attrText (s : Bytes) : Bytes := (escapeHtmlAttr s).flatten

/-- What `append_int_lit` writes. -/
def intText (v : ℤ) : Bytes := opsText [intLit v]

/-- What `append_double_lit` writes. -/
def doubleText (v : ℚ) : Bytes := opsText [doubleLit v]

namespace Tells

variable {m m₁ m₂ : Mode} {ops more : List ReportOp} {op : ReportOp} {ms ms' : List Mark}

theorem nil : Tells m [] m [] := rfl

theorem append (h : Tells m ops m₁ ms) (h' : Tells m₁ more m₂ ms') :
    Tells m (ops ++ more) m₂ (ms ++ ms') := by
  rw [Tells] at h h'
  rw [Tells, opsText_append, marks_append, h, h']

theorem cons (h : Tells m [op] m₁ ms) (h' : Tells m₁ more m₂ ms') :
    Tells m (op :: more) m₂ (ms ++ ms') := append h h'

/-- The marks, written in another way. -/
theorem of_eq (h : Tells m ops m₁ ms) (heq : ms = ms') : Tells m ops m₁ ms' := heq ▸ h

theorem litBytes (s : Bytes) (m₁ : Mode) (ms : List Mark) (h : marks m s = (m₁, ms)) :
    Tells m [.lit s] m₁ ms := by
  simpa [Tells, ReportOp.pieces] using h

/-- A fixed text, by its characters. -/
theorem lit (s : String) (m₁ : Mode) (ms : List Mark) {l : List Char} (hs : s = .ofList l)
    (h : marks m (l.map asciiByte) = (m₁, ms)) : Tells m [Report.lit s] m₁ ms :=
  litBytes _ _ _ (by rwa [ascii_ofList hs])

/-- A fixed text in two parts. -/
theorem litTwo (s t : String) (m₁ : Mode) (ms : List Mark) {l k : List Char} (hs : s = .ofList l)
    (ht : t = .ofList k) (h : marks m ((l ++ k).map asciiByte) = (m₁, ms)) :
    Tells m [.lit (ascii s ++ ascii t)] m₁ ms :=
  litBytes _ _ _ (by rwa [ascii_ofList hs, ascii_ofList ht, ← List.map_append])

theorem body (s : Bytes) : Tells .text [.body s] .text (textMarks (bodyText s)) := by
  have htext : opsText [.body s] = bodyText s := by simp [ReportOp.pieces, bodyText]
  rw [Tells, htext]
  exact marks_text (escapeHtmlBody_no_lt s)

theorem int (v : ℤ) : Tells .text [intLit v] .text (textMarks (intText v)) :=
  marks_text (intLit_plain v).1

theorem double (v : ℚ) : Tells .text [doubleLit v] .text (textMarks (doubleText v)) :=
  marks_text (doubleLit_plain v)

theorem intRaw {elem : Bytes} (v : ℤ) :
    Tells (.raw elem) [intLit v] (.raw elem) ((intText v).map fun c => .token (.raw c)) :=
  marks_raw (intLit_plain v).1

section

variable {t : Tag} {n : Bytes}

theorem intQuoted (v : ℤ) :
    Tells (.quoted t n) [intLit v] (.quoted t n) ((intText v).map .value) :=
  marks_quoted (intLit_plain v).2

theorem attr (s : Bytes) :
    Tells (.quoted t n) [.attr s] (.quoted t n) ((attrText s).map .value) := by
  have htext : opsText [.attr s] = attrText s := by simp [ReportOp.pieces, attrText]
  rw [Tells, htext]
  exact marks_quoted (escapeHtmlAttr_no_quote s)

theorem href (s : Bytes) :
    Tells (.quoted t n) [.href s] (.quoted t n) ((attrText (nvdHref s)).map .value) := by
  have htext : opsText [.href s] = attrText (nvdHref s) := by simp [ReportOp.pieces, attrText]
  rw [Tells, htext]
  exact marks_quoted (escapeHtmlAttr_no_quote (nvdHref s))

end

end Tells

/-! ## Nodes -/

def texts (s : Bytes) : List Node := s.map .text

def opening (elem : String) (attrs : List (String × Bytes)) : Opening :=
  ⟨name elem, attrs.map fun a => ⟨name a.1, .quoted⟩, attrs.map Prod.snd⟩

def element (elem : String) (attrs : List (String × Bytes)) (kids : List Node)
    (h : isVoid (name elem) = false := by decide) : Node :=
  .elem (opening elem attrs) h kids

def voidElement (elem : String) (attrs : List (String × Bytes))
    (h : isVoid (name elem) = true := by decide) : Node :=
  .void (opening elem attrs) h

/-- An element that has a class and nothing else. -/
def classed (elem cls : String) (kids : List Node)
    (h : isVoid (name elem) = false := by decide) : Node :=
  element elem [("class", ascii cls)] kids h

/-- The calls write these nodes. -/
def Writes (ops : List ReportOp) (ns : List Node) : Prop := Tells .text ops .text (nodeMarks ns)

namespace Writes

variable {ops more : List ReportOp} {ns ms : List Node}

theorem nil : Writes [] [] := Tells.nil

theorem append (h : Writes ops ns) (h' : Writes more ms) : Writes (ops ++ more) (ns ++ ms) := by
  rw [Writes, nodeMarks_append]
  exact Tells.append h h'

theorem flatMap {α : Type} {f : α → List ReportOp} {g : α → List Node} {as : List α}
    (h : ∀ a ∈ as, Writes (f a) (g a)) : Writes (as.flatMap f) (as.flatMap g) := by
  induction as with
  | nil => exact .nil
  | cons a as ih =>
      rw [List.flatMap_cons, List.flatMap_cons]
      exact .append (h a List.mem_cons_self) (ih fun b hb => h b (List.mem_cons_of_mem _ hb))

end Writes

@[simp] theorem nodeMarks_texts (s : Bytes) : nodeMarks (texts s) = textMarks s :=
  nodeMarks_map (fun _ => rfl) s

@[simp] theorem opening_marks (elem : String) (attrs : List (String × Bytes)) :
    (opening elem attrs).marks =
      attrs.flatMap (fun a => valueMarks a.2) ++ [startMark elem (attrs.map Prod.fst)] := by
  rw [Opening.marks, startMark, List.map_map]
  show (attrs.map Prod.snd).flatMap valueMarks ++ _ = _
  rw [List.flatMap_map]
  rfl

@[simp] theorem nodeMarks_element (elem : String) (attrs : List (String × Bytes)) (kids : List Node)
    (h : isVoid (name elem) = false) (more : List Node) :
    nodeMarks (element elem attrs kids h :: more) =
      (opening elem attrs).marks ++
        (nodeMarks kids ++ (endMark (name elem) :: nodeMarks more)) := by
  show (opening elem attrs).marks ++ nodeMarks kids ++ [endMark (name elem)] ++ nodeMarks more = _
  rw [List.append_assoc, List.append_assoc]
  rfl

@[simp] theorem nodeMarks_void (elem : String) (attrs : List (String × Bytes))
    (h : isVoid (name elem) = true) (more : List Node) :
    nodeMarks (voidElement elem attrs h :: more) = (opening elem attrs).marks ++ nodeMarks more :=
  rfl

@[simp] theorem nodeMarks_nil : nodeMarks [] = [] := rfl

/-! ## Cards -/

/-- The heading of a confirmed finding. -/
def cveNodes (cveId : Option Bytes) : List Node :=
  match present cveId with
  | some cve =>
      [element "a" [("href", attrText (nvdHref cve)), ("title", attrText cve)]
        (texts (bodyText cve))]
  | none => texts (ascii "Configuration finding (no CVE)")

theorem cveLink_writes (cveId : Option Bytes) : Writes (cveLink cveId) (cveNodes cveId) := by
  rw [cveLink, cveNodes]
  cases present cveId with
  | none =>
      rw [Writes, nodeMarks_texts]
      exact .lit _ _ _ rfl rfl
  | some cve =>
      refine Tells.of_eq (.cons (.lit _ (inQuotes "a" [] "href") [] rfl rfl) (.cons (.href _)
        (.cons (.lit _ (inQuotes "a" ["href"] "title") [.endValue] rfl rfl) (.cons (.attr _)
        (.cons (.lit _ .text [.endValue, startMark "a" ["href", "title"]] rfl rfl)
        (.cons (.body _) (.lit _ _ [endMark (name "a")] rfl rfl))))))) ?_
      simp [valueMarks]

theorem severityLabel_writes (severity : ℤ) :
    Writes [.lit (severityLabel severity)] (texts (severityLabel severity)) := by
  rw [Writes, nodeMarks_texts]
  refine .litBytes _ _ _ (marks_text ?_)
  rw [severityLabel]
  split_ifs <;> decide

/-- A word in brackets behind a heading. -/
def serviceNodes (service : Option Bytes) : List Node :=
  match present service with
  | some text => texts (ascii " (") ++ texts (bodyText text) ++ texts (ascii ")")
  | none => []

theorem serviceNote_writes (service : Option Bytes) :
    Writes (serviceNote service) (serviceNodes service) := by
  rw [serviceNote, serviceNodes]
  cases present service with
  | none => exact .nil
  | some text =>
      refine Tells.of_eq (.cons (.lit _ .text (textMarks (ascii " (")) rfl rfl)
        (.cons (.body _) (.lit _ _ (textMarks (ascii ")")) rfl rfl))) ?_
      simp [nodeMarks_append]

def kevNodes (r : ScanResultRow) : List Node :=
  if r.kevFlag ≠ 0 then
    texts (ascii " ") ++ [classed "span" "badge kev-badge" (texts (ascii "KEV"))]
  else []

def remediationNodes (r : ScanResultRow) : List Node :=
  match present r.remediation with
  | some text =>
      [classed "p" "remediation" (texts (ascii "Remediation: ") ++ texts (bodyText text))] ++
        texts (ascii "\n")
  | none => []

def epssNodes (r : ScanResultRow) : List Node :=
  match r.epssScore with
  | some score =>
      [classed "p" "epss" (texts (ascii "EPSS: ") ++ texts (doubleText score))] ++
        texts (ascii "\n")
  | none => []

def evidenceLine (r : ScanResultRow) : Node :=
  classed "p" "evidence" (texts (ascii "Evidence: ") ++ texts (bodyText r.evidence))

def detectedLine (r : ScanResultRow) : Node :=
  classed "p" "detected-at" (texts (ascii "Detected: ") ++ texts (bodyText r.detectedAt))

/-- What is in the heading of a confirmed finding. -/
def confirmedHeading (r : ScanResultRow) : List Node :=
  cveNodes r.cveId ++ texts (ascii " ") ++
    [classed "span" "badge sev-badge" (texts (severityLabel r.severity))] ++ kevNodes r

/-- What is under the heading. -/
def confirmedLines (r : ScanResultRow) : List Node :=
  texts (ascii "\n") ++ [evidenceLine r] ++ texts (ascii "\n") ++ remediationNodes r ++
    epssNodes r ++ [detectedLine r] ++ texts (ascii "\n") ++
    [classed "p" "plugin" (texts (ascii "Detected by: ") ++ texts (bodyText r.pluginId))] ++
    texts (ascii "\n")

def confirmedAttrs (r : ScanResultRow) : List (String × Bytes) :=
  [("class", ascii "finding sev-" ++ intText r.severity), ("title", attrText r.evidence),
    ("data-plugin-id", attrText r.pluginId)]

def confirmedCard (r : ScanResultRow) : Node :=
  element "div" (confirmedAttrs r)
    (texts (ascii "\n") ++ [element "h5" [] (confirmedHeading r)] ++ confirmedLines r)

theorem kev_writes (r : ScanResultRow) :
    Writes (if r.kevFlag ≠ 0 then [lit " <span class=\"badge kev-badge\">KEV</span>"] else [])
      (kevNodes r) := by
  rw [kevNodes]
  split
  · refine Tells.of_eq (.lit _ _ (textMarks (ascii " ") ++
      (opening "span" [("class", ascii "badge kev-badge")]).marks ++ textMarks (ascii "KEV") ++
      [endMark (name "span")]) rfl rfl) ?_
    simp [classed, nodeMarks_append]
  · exact .nil

theorem remediation_writes (r : ScanResultRow) :
    Writes (match present r.remediation with
      | some text => [lit "<p class=\"remediation\">Remediation: ", .body text, lit "</p>\n"]
      | none => []) (remediationNodes r) := by
  rw [remediationNodes]
  cases present r.remediation with
  | none => exact .nil
  | some text =>
      refine Tells.of_eq (.cons
        (.lit _ .text ((opening "p" [("class", ascii "remediation")]).marks ++
          textMarks (ascii "Remediation: ")) rfl rfl) (.cons (.body _) (.lit _ _
        (endMark (name "p") :: textMarks (ascii "\n")) rfl rfl))) ?_
      simp [classed, nodeMarks_append]

theorem epss_writes (r : ScanResultRow) :
    Writes (match r.epssScore with
      | some score => [lit "<p class=\"epss\">EPSS: ", doubleLit score, lit "</p>\n"]
      | none => []) (epssNodes r) := by
  rw [epssNodes]
  cases r.epssScore with
  | none => exact .nil
  | some score =>
      refine Tells.of_eq (.cons (.lit _ .text ((opening "p" [("class", ascii "epss")]).marks ++
        textMarks (ascii "EPSS: ")) rfl rfl) (.cons (.double _) (.lit _ _
        (endMark (name "p") :: textMarks (ascii "\n")) rfl rfl))) ?_
      simp [classed, nodeMarks_append]

theorem confirmedCard_writes (r : ScanResultRow) :
    Writes (renderConfirmedCard r) ([confirmedCard r] ++ texts (ascii "\n")) := by
  simp only [renderConfirmedCard, List.append_assoc]
  refine Tells.of_eq
    (.append (.cons
        (.lit _ (inQuotes "div" [] "class") ((ascii "finding sev-").map .value) rfl rfl) <|
      .cons (.intQuoted _) <|
      .cons (.lit _ (inQuotes "div" ["class"] "title") [.endValue] rfl rfl) <|
      .cons (.attr _) <|
      .cons (.lit _ (inQuotes "div" ["class", "title"] "data-plugin-id") [.endValue] rfl rfl) <|
      .cons (.attr _) <|
      .lit _ .text ([.endValue, startMark "div" ["class", "title", "data-plugin-id"]] ++
        textMarks (ascii "\n") ++ [startMark "h5" []]) rfl rfl) <|
    .append (cveLink_writes _) <|
    .append (.cons (.lit _ .text (textMarks (ascii " ") ++
        (opening "span" [("class", ascii "badge sev-badge")]).marks) rfl rfl) <|
      .cons (severityLabel_writes _) <|
      .lit _ .text [endMark (name "span")] rfl rfl) <|
    .append (kev_writes r) <|
    .append (.cons (.lit _ .text (endMark (name "h5") :: textMarks (ascii "\n") ++
        (opening "p" [("class", ascii "evidence")]).marks ++
        textMarks (ascii "Evidence: ")) rfl rfl) <|
      .cons (.body _) <|
      .lit _ .text (endMark (name "p") :: textMarks (ascii "\n")) rfl rfl) <|
    .append (remediation_writes r) <|
    .append (epss_writes r) <|
    .cons (.lit _ .text ((opening "p" [("class", ascii "detected-at")]).marks ++
      textMarks (ascii "Detected: ")) rfl rfl) <|
    .cons (.body _) <|
    .cons (.lit _ .text (endMark (name "p") :: textMarks (ascii "\n") ++
      (opening "p" [("class", ascii "plugin")]).marks ++
      textMarks (ascii "Detected by: ")) rfl rfl) <|
    .cons (.body _) <|
    .lit _ .text (endMark (name "p") :: textMarks (ascii "\n") ++ [endMark (name "div")] ++
      textMarks (ascii "\n")) rfl rfl) ?_
  simp [confirmedCard, confirmedAttrs, confirmedHeading, confirmedLines, evidenceLine,
    detectedLine, classed, nodeMarks_append, valueMarks]

def cveNameNodes (cveId : Option Bytes) : List Node :=
  match present cveId with
  | some cve => texts (bodyText cve)
  | none => texts (ascii "Unknown CVE")

/-- What is in the heading of a finding that could not be determined. -/
def undeterminedHeading (r : ScanResultRow) : List Node :=
  cveNameNodes r.cveId ++ texts (ascii " ") ++ [classed "span" "badge undetermined-badge"
    (texts (ascii "Could not determine -- manual review ") ++ texts (ascii "needed"))]

def undeterminedLines (r : ScanResultRow) : List Node :=
  texts (ascii "\n") ++ [classed "p" "port-line"
      (texts (ascii "Port: ") ++ texts (intText r.port) ++ serviceNodes r.service)] ++
    texts (ascii "\n") ++ [evidenceLine r] ++ texts (ascii "\n") ++ [detectedLine r] ++
    texts (ascii "\n")

def undeterminedAttrs (r : ScanResultRow) : List (String × Bytes) :=
  [("class", ascii "finding undetermined-finding"), ("title", attrText r.evidence)]

def undeterminedCard (r : ScanResultRow) : Node :=
  element "div" (undeterminedAttrs r)
    (texts (ascii "\n") ++ [element "h5" [] (undeterminedHeading r)] ++ undeterminedLines r)

theorem cveName_writes (cveId : Option Bytes) :
    Writes (match present cveId with
      | some cve => [.body cve]
      | none => [lit "Unknown CVE"]) (cveNameNodes cveId) := by
  rw [cveNameNodes]
  cases present cveId with
  | none =>
      rw [Writes, nodeMarks_texts]
      exact .lit _ _ _ rfl rfl
  | some cve =>
      rw [Writes, nodeMarks_texts]
      exact .body _

theorem undeterminedCard_writes (r : ScanResultRow) :
    Writes (renderUndeterminedCard r) ([undeterminedCard r] ++ texts (ascii "\n")) := by
  simp only [renderUndeterminedCard, List.append_assoc]
  refine Tells.of_eq
    (.append (.cons (.lit _ (inQuotes "div" ["class"] "title")
        (valueMarks (ascii "finding undetermined-finding")) rfl rfl) <|
      .cons (.attr _) <|
      .lit _ .text ([.endValue, startMark "div" ["class", "title"]] ++ textMarks (ascii "\n") ++
        [startMark "h5" []]) rfl rfl) <|
    .append (cveName_writes _) <|
    .append (.cons (.litTwo _ _ .text (textMarks (ascii " ") ++
        (opening "span" [("class", ascii "badge undetermined-badge")]).marks ++
        textMarks (ascii "Could not determine -- manual review ") ++ textMarks (ascii "needed") ++
        [endMark (name "span"), endMark (name "h5")] ++ textMarks (ascii "\n") ++
        (opening "p" [("class", ascii "port-line")]).marks ++ textMarks (ascii "Port: ")) rfl rfl
        (by decide +kernel)) <|
      .int _) <|
    .append (serviceNote_writes _) <|
    .cons (.lit _ .text (endMark (name "p") :: textMarks (ascii "\n") ++
      (opening "p" [("class", ascii "evidence")]).marks ++
      textMarks (ascii "Evidence: ")) rfl rfl) <|
    .cons (.body _) <|
    .cons (.lit _ .text (endMark (name "p") :: textMarks (ascii "\n") ++
      (opening "p" [("class", ascii "detected-at")]).marks ++
      textMarks (ascii "Detected: ")) rfl rfl) <|
    .cons (.body _) <|
    .lit _ .text (endMark (name "p") :: textMarks (ascii "\n") ++ [endMark (name "div")] ++
      textMarks (ascii "\n")) rfl rfl) ?_
  simp [undeterminedCard, undeterminedAttrs, undeterminedHeading, undeterminedLines, evidenceLine,
    detectedLine, classed, nodeMarks_append, valueMarks]

/-! ## A host -/

/-- What is in the heading of a port. -/
def portNodes (r : ScanResultRow) : List Node :=
  (if r.port = 0 then texts (ascii "Host-level finding")
    else texts (ascii "Port ") ++ texts (intText r.port)) ++ serviceNodes r.service

theorem portName_writes (r : ScanResultRow) :
    Writes (if r.port = 0 then [lit "Host-level finding"] else [lit "Port ", intLit r.port])
      (if r.port = 0 then texts (ascii "Host-level finding")
        else texts (ascii "Port ") ++ texts (intText r.port)) := by
  split
  · rw [Writes, nodeMarks_texts]
    exact .lit _ _ _ rfl rfl
  · refine Tells.of_eq (.cons (.lit _ .text (textMarks (ascii "Port ")) rfl rfl) (.int _)) ?_
    simp [nodeMarks_append]

/-- The block of a port with these confirmed findings. -/
def portBlock (first : ScanResultRow) (rows : List ScanResultRow) : Node :=
  classed "div" "port-block" (texts (ascii "\n") ++ [element "h4" [] (portNodes first)] ++
    texts (ascii "\n") ++ rows.flatMap fun r => [confirmedCard r] ++ texts (ascii "\n"))

theorem portBlock_writes (first : ScanResultRow) (rows : List ScanResultRow) :
    Writes (portHeading first ++ rows.flatMap renderConfirmedCard ++ [lit "</div>\n"])
      ([portBlock first rows] ++ texts (ascii "\n")) := by
  have hcards : Writes (rows.flatMap renderConfirmedCard)
      (rows.flatMap fun r => [confirmedCard r] ++ texts (ascii "\n")) :=
    .flatMap fun r _ => confirmedCard_writes r
  simp only [portHeading, List.append_assoc]
  refine Tells.of_eq
    (.append (.lit _ .text ((opening "div" [("class", ascii "port-block")]).marks ++
      textMarks (ascii "\n") ++ [startMark "h4" []]) rfl rfl) <|
    .append (portName_writes first) <|
    .append (serviceNote_writes _) <|
    .append (.lit _ .text (endMark (name "h4") :: textMarks (ascii "\n")) rfl rfl) <|
    .append hcards <|
    .lit _ .text (endMark (name "div") :: textMarks (ascii "\n")) rfl rfl) ?_
  simp [portBlock, portNodes, classed, nodeMarks_append]

/-- The block of what could not be determined. -/
def undeterminedNodes (rows : List ScanResultRow) : List Node :=
  if rows = [] then []
  else
    [classed "div" "undetermined-block" (texts (ascii "\n") ++
      [element "h4" [] (texts (ascii "Undetermined -- Manual Review ") ++
        texts (ascii "Needed"))] ++ texts (ascii "\n") ++
      rows.flatMap fun r => [undeterminedCard r] ++ texts (ascii "\n"))] ++ texts (ascii "\n")

theorem undeterminedBlock_writes (rows : List ScanResultRow) :
    Writes (if rows = [] then []
      else
        [.lit (ascii "<div class=\"undetermined-block\">\n<h4>Undetermined -- Manual Review " ++
            ascii "Needed</h4>\n")] ++
          rows.flatMap renderUndeterminedCard ++ [lit "</div>\n"]) (undeterminedNodes rows) := by
  have hcards : Writes (rows.flatMap renderUndeterminedCard)
      (rows.flatMap fun r => [undeterminedCard r] ++ texts (ascii "\n")) :=
    .flatMap fun r _ => undeterminedCard_writes r
  rw [undeterminedNodes]
  split
  · exact .nil
  · simp only [List.append_assoc]
    refine Tells.of_eq
      (.append (.litTwo _ _ .text ((opening "div" [("class", ascii "undetermined-block")]).marks ++
        textMarks (ascii "\n") ++ [startMark "h4" []] ++
        textMarks (ascii "Undetermined -- Manual Review ") ++ textMarks (ascii "Needed") ++
        [endMark (name "h4")] ++ textMarks (ascii "\n")) rfl rfl (by decide +kernel)) <|
      .append hcards <|
      .lit _ .text (endMark (name "div") :: textMarks (ascii "\n")) rfl rfl) ?_
    simp [classed, nodeMarks_append]

/-- The line that counts what was ruled out. -/
def countLine (n : ℕ) : Node :=
  classed "p" "not-affected-count" (texts (intText n) ++
    texts (ascii " check(s) ruled not affected (audit trail)."))

def notAffectedNodes (n : ℕ) : List Node :=
  if n = 0 then [] else [countLine n] ++ texts (ascii "\n")

theorem notAffected_writes (rows : List ScanResultRow) :
    Writes (if rows = [] then []
      else
        [lit "<p class=\"not-affected-count\">", intLit rows.length,
          lit " check(s) ruled not affected (audit trail).</p>\n"])
      (notAffectedNodes rows.length) := by
  rw [notAffectedNodes]
  simp only [List.length_eq_zero_iff]
  split
  · exact .nil
  · refine Tells.of_eq
      (.cons (.lit _ .text ((opening "p" [("class", ascii "not-affected-count")]).marks) rfl rfl) <|
      .cons (.int _) <|
      .lit _ .text (textMarks (ascii " check(s) ruled not affected (audit trail).") ++
        [endMark (name "p")] ++ textMarks (ascii "\n")) rfl (by decide +kernel)) ?_
    simp [countLine, classed, nodeMarks_append]

def cleanLine : Node :=
  classed "p" "host-clean" (texts (ascii "No vulnerabilities found."))

/-- The line of a host that has undetermined findings alone. -/
def undeterminedOnlyLine (n : ℕ) : Node :=
  classed "p" "host-undetermined-only" (texts (ascii "No confirmed vulnerabilities; ") ++
    texts (intText n) ++ texts (ascii " check(s) undetermined -- manual review needed."))

theorem cleanLine_writes :
    Writes [lit "<p class=\"host-clean\">No vulnerabilities found.</p>\n"]
      ([cleanLine] ++ texts (ascii "\n")) := by
  refine Tells.of_eq (.lit _ .text ((opening "p" [("class", ascii "host-clean")]).marks ++
    textMarks (ascii "No vulnerabilities found.") ++ [endMark (name "p")] ++
    textMarks (ascii "\n")) rfl (by decide +kernel)) ?_
  simp [cleanLine, classed]

theorem undeterminedOnly_writes (n : ℕ) :
    Writes [lit "<p class=\"host-undetermined-only\">No confirmed vulnerabilities; ", intLit n,
      lit " check(s) undetermined -- manual review needed.</p>\n"]
      ([undeterminedOnlyLine n] ++ texts (ascii "\n")) := by
  refine Tells.of_eq
    (.cons (.lit _ .text ((opening "p" [("class", ascii "host-undetermined-only")]).marks ++
      textMarks (ascii "No confirmed vulnerabilities; ")) rfl (by decide +kernel)) <|
    .cons (.int _) <|
    .lit _ .text (textMarks (ascii " check(s) undetermined -- manual review needed.") ++
      [endMark (name "p")] ++ textMarks (ascii "\n")) rfl (by decide +kernel)) ?_
  simp [undeterminedOnlyLine, classed, nodeMarks_append]

/-! ## What is not about findings -/

def raws (s : Bytes) : List Node := s.map .raw

@[simp] theorem nodeMarks_raws (s : Bytes) :
    nodeMarks (raws s) = s.map fun c => .token (.raw c) := nodeMarks_map (fun _ => rfl) s

def headNode (scanId : ℤ) : Node :=
  element "head" []
    (texts (ascii "\n") ++ [voidElement "meta" [("charset", ascii "utf-8")]] ++
      texts (ascii "\n") ++ [voidElement "meta" [("name", ascii "viewport"),
        ("content", ascii "width=device-width, initial-scale=1")]] ++ texts (ascii "\n") ++
      [element "title" [] (raws (ascii "Cytadel Scan Report #") ++ raws (intText scanId))] ++
      texts (ascii "\n") ++ [element "style" [] (raws (ascii "\n") ++ raws cssChunks.flatten)] ++
      texts (ascii "\n"))

/-- The declaration in front of the document. -/
def doctypeNodes : List Node := (ascii "!DOCTYPE html>").map .markup ++ texts (ascii "\n")

/-- The marks up to the start of the body. -/
def headMarks (scanId : ℤ) : List Mark :=
  nodeMarks doctypeNodes ++ (opening "html" [("lang", ascii "en")]).marks ++
    textMarks (ascii "\n") ++ nodeMarks [headNode scanId] ++ textMarks (ascii "\n") ++
    (opening "body" []).marks ++ textMarks (ascii "\n")

theorem nodeMarks_doctype : nodeMarks doctypeNodes =
    (ascii "!DOCTYPE html>").map (fun c => .token (.markup c)) ++ textMarks (ascii "\n") := by
  rw [doctypeNodes, nodeMarks_append, nodeMarks_texts, nodeMarks_map fun _ => rfl]

theorem css_tells :
    Tells (.raw (name "style")) (cssChunks.map .lit) (.raw (name "style"))
      (cssChunks.flatten.map fun c => .token (.raw c)) := by
  have htext : opsText (cssChunks.map .lit) = cssChunks.flatten := by
    simp [cssChunks, ReportOp.pieces]
  rw [Tells, htext]
  refine marks_raw ?_
  simp only [cssChunks, List.flatten_cons, List.flatten_nil, List.append_nil, List.mem_append,
    not_or]
  exact ⟨cssCommon_no_lt, cssSections_no_lt, cssFindings_no_lt⟩

theorem documentHead_tells (scanId : ℤ) :
    Tells .text (renderDocumentHead scanId) .text (headMarks scanId) := by
  simp only [renderDocumentHead, List.append_assoc]
  refine Tells.of_eq
    (.append (.cons (.litBytes _ (.raw (name "title"))
        ((ascii "!DOCTYPE html>").map (fun c => .token (.markup c)) ++ textMarks (ascii "\n") ++
          (opening "html" [("lang", ascii "en")]).marks ++ textMarks (ascii "\n") ++
          [startMark "head" []] ++ textMarks (ascii "\n") ++
          (opening "meta" [("charset", ascii "utf-8")]).marks ++ textMarks (ascii "\n") ++
          (opening "meta" [("name", ascii "viewport"),
            ("content", ascii "width=device-width, initial-scale=1")]).marks ++
          textMarks (ascii "\n") ++ [startMark "title" []] ++
          (ascii "Cytadel Scan Report #").map fun c => .token (.raw c))
        (by decide +kernel)) <|
      .cons (.intRaw _) <|
      .lit _ (.raw (name "style")) (endMark (name "title") :: textMarks (ascii "\n") ++
        startMark "style" [] :: (ascii "\n").map fun c => .token (.raw c)) rfl rfl) <|
    .append css_tells <|
    .lit _ .text (endMark (name "style") :: textMarks (ascii "\n") ++ [endMark (name "head")] ++
      textMarks (ascii "\n") ++ [startMark "body" []] ++ textMarks (ascii "\n")) rfl rfl) ?_
  simp [headMarks, headNode, nodeMarks_doctype, nodeMarks_append]

/-- A row of the table of the cover. -/
def metaNodes (label : String) (value : Bytes) : List Node :=
  [element "tr" [] [element "th" [] (texts (ascii label)),
    element "td" [] (texts (bodyText value))]] ++ texts (ascii "\n")

theorem metaRow_writes (label : String) (hlabel : 0x3C ∉ ascii label) (value : Bytes) :
    Writes (metaRow label value) (metaNodes label value) := by
  refine Tells.of_eq
    (.cons (.lit _ .text [startMark "tr" [], startMark "th" []] rfl rfl) <|
    .cons (.litBytes _ .text (textMarks (ascii label)) (marks_text hlabel)) <|
    .cons (.lit _ .text [endMark (name "th"), startMark "td" []] rfl rfl) <|
    .cons (.body _) <|
    .lit _ .text ([endMark (name "td"), endMark (name "tr")] ++ textMarks (ascii "\n")) rfl rfl) ?_
  simp [metaNodes]

def logoNode (logo : Logo) : Node :=
  voidElement "img" [("class", ascii "logo"), ("width", ascii "120"), ("height", ascii "120"),
    ("alt", ascii "Cytadel"), ("src", logo.chunks.flatten)]

def coverRows (row : ScanRow) : List Node :=
  metaNodes "Target" row.targetSpec ++ metaNodes "Status" (scanStatusText row.status) ++
    metaNodes "Started" row.startedAt ++
    metaNodes "Finished" ((present row.finishedAt).getD (ascii "In progress")) ++
    metaNodes "Authorized By" row.authorizedBy ++
    metaNodes "Authorization Confirmed At" row.authorizationConfirmedAt ++
    metaNodes "Authorization Method" (authorizationMethodText row.authorizationMethod)

def coverNode (logo : Logo) (scanId : ℤ) (row : ScanRow) : Node :=
  classed "section" "cover" (texts (ascii "\n") ++
    [classed "div" "brand" (texts (ascii "\n") ++ [logoNode logo] ++ texts (ascii "\n") ++
      [classed "div" "wordmark" (texts (ascii "CYTADEL"))] ++ texts (ascii "\n"))] ++
    texts (ascii "\n") ++
    [element "h1" [] (texts (ascii "SCAN REPORT #") ++ texts (intText scanId))] ++
    texts (ascii "\n") ++ [classed "table" "meta" (texts (ascii "\n") ++ coverRows row)] ++
    texts (ascii "\n"))

theorem logo_tells (logo : Logo) {t : Tag} {n : Bytes} :
    Tells (.quoted t n) (logo.chunks.map .lit) (.quoted t n) (logo.chunks.flatten.map .value) := by
  have htext : opsText (logo.chunks.map .lit) = logo.chunks.flatten := by
    simp [opsText, List.flatMap_map, ReportOp.pieces, List.flatMap_id']
  rw [Tells, htext]
  refine marks_quoted fun hm => ?_
  obtain ⟨chunk, hchunk, hc⟩ := List.mem_flatten.mp hm
  have hbyte := List.all_eq_true.mp (logo.dataUri chunk hchunk) _ hc
  revert hbyte
  decide

theorem cover_writes (logo : Logo) (scanId : ℤ) (row : ScanRow) :
    Writes (renderCover logo scanId row) ([coverNode logo scanId row] ++ texts (ascii "\n")) := by
  simp only [renderCover, List.append_assoc]
  refine Tells.of_eq
    (.append (.litTwo _ _ (inQuotes "img" ["class", "width", "height", "alt"] "src")
      ((opening "section" [("class", ascii "cover")]).marks ++ textMarks (ascii "\n") ++
        (opening "div" [("class", ascii "brand")]).marks ++ textMarks (ascii "\n") ++
        valueMarks (ascii "logo") ++ valueMarks (ascii "120") ++ valueMarks (ascii "120") ++
        valueMarks (ascii "Cytadel")) rfl rfl (by decide +kernel)) <|
    .append (logo_tells logo) <|
    .append (.cons (.litTwo _ _ .text
        ([.endValue, startMark "img" ["class", "width", "height", "alt", "src"]] ++
          textMarks (ascii "\n") ++ (opening "div" [("class", ascii "wordmark")]).marks ++
          textMarks (ascii "CYTADEL") ++ [endMark (name "div")] ++ textMarks (ascii "\n") ++
          [endMark (name "div")] ++ textMarks (ascii "\n") ++ [startMark "h1" []] ++
          textMarks (ascii "SCAN REPORT #")) rfl rfl (by decide +kernel)) <|
      .cons (.int _) <|
      .lit _ .text (endMark (name "h1") :: textMarks (ascii "\n") ++
        (opening "table" [("class", ascii "meta")]).marks ++ textMarks (ascii "\n")) rfl rfl) <|
    .append (metaRow_writes _ (by decide) _) <| .append (metaRow_writes _ (by decide) _) <|
    .append (metaRow_writes _ (by decide) _) <| .append (metaRow_writes _ (by decide) _) <|
    .append (metaRow_writes _ (by decide) _) <| .append (metaRow_writes _ (by decide) _) <|
    .append (metaRow_writes _ (by decide) _) <|
    .lit _ .text (endMark (name "table") :: textMarks (ascii "\n") ++ [endMark (name "section")] ++
      textMarks (ascii "\n")) rfl rfl) ?_
  simp [coverNode, logoNode, coverRows, classed, nodeMarks_append, valueMarks]

/-- The line of a severity. -/
def severityNodes (counts : ReportCounts) (s : ℕ) : List Node :=
  [element "li" [("class", sevClass s)] (texts (severityLabel s) ++ texts (ascii ": ") ++
    texts (intText (counts.severityCounts s)))] ++ texts (ascii "\n")

/-- The banner of a scan that met malformed data. -/
def bannerNodes (row : ScanRow) : List Node :=
  if row.malformedDataCount > 0 then
    [classed "div" "data-quality-banner" (texts (intText row.malformedDataCount) ++
      texts (ascii " record(s) had malformed data -- results may be incomplete."))] ++
      texts (ascii "\n")
  else []

def summaryNode (row : ScanRow) (counts : ReportCounts) : Node :=
  classed "section" "summary" (texts (ascii "\n") ++
    [element "h2" [] (texts (ascii "Summary"))] ++ texts (ascii "\n") ++ bannerNodes row ++
    [classed "ul" "severity-counts" (texts (ascii "\n") ++
      [4, 3, 2, 1, 0].flatMap (severityNodes counts))] ++ texts (ascii "\n") ++
    [classed "p" "kev-count" (texts (ascii "Known Exploited Vulnerabilities (KEV): ") ++
      texts (intText counts.kevCount))] ++ texts (ascii "\n") ++
    [classed "p" "undetermined-count-line" (texts (ascii "Undetermined (manual review ") ++
      texts (ascii "needed): ") ++ texts (intText counts.undeterminedCount))] ++
    texts (ascii "\n") ++
    [classed "p" "not-affected-count" (texts (ascii "Not affected (ruled out, audit ") ++
      texts (ascii "trail): ") ++ texts (intText counts.notAffectedCount))] ++
    texts (ascii "\n"))

theorem sevClass_no_quote (s : ℕ) : 0x22 ∉ sevClass s := by
  rw [sevClass.eq_def]
  split <;> decide

theorem severity_writes (counts : ReportCounts) (s : ℕ) :
    Writes [lit "<li class=\"", .lit (sevClass s), lit "\">", .lit (severityLabel s), lit ": ",
      intLit (counts.severityCounts s), lit "</li>\n"] (severityNodes counts s) := by
  refine Tells.of_eq
    (.cons (.lit _ (inQuotes "li" [] "class") [] rfl rfl) <|
    .cons (.litBytes _ _ _ (marks_quoted (sevClass_no_quote s))) <|
    .cons (.lit _ .text [.endValue, startMark "li" ["class"]] rfl rfl) <|
    .cons (severityLabel_writes s) <|
    .cons (.lit _ .text (textMarks (ascii ": ")) rfl rfl) <|
    .cons (.int _) <|
    .lit _ .text (endMark (name "li") :: textMarks (ascii "\n")) rfl rfl) ?_
  simp [severityNodes, nodeMarks_append, valueMarks]

theorem banner_writes (row : ScanRow) :
    Writes (if row.malformedDataCount > 0 then
      [lit "<div class=\"data-quality-banner\">", intLit row.malformedDataCount,
        lit " record(s) had malformed data -- results may be incomplete.</div>\n"]
      else []) (bannerNodes row) := by
  rw [bannerNodes]
  split
  · refine Tells.of_eq
      (.cons
        (.lit _ .text (opening "div" [("class", ascii "data-quality-banner")]).marks rfl rfl) <|
      .cons (.int _) <|
      .lit _ .text (textMarks
        (ascii " record(s) had malformed data -- results may be incomplete.") ++
        [endMark (name "div")] ++ textMarks (ascii "\n")) rfl (by decide +kernel)) ?_
    simp [classed, nodeMarks_append]
  · exact .nil

theorem summary_writes (row : ScanRow) (counts : ReportCounts) :
    Writes (renderSummary row counts) ([summaryNode row counts] ++ texts (ascii "\n")) := by
  have hlines : Writes ([4, 3, 2, 1, 0].flatMap fun s : ℕ => [lit "<li class=\"",
      .lit (sevClass s), lit "\">", .lit (severityLabel s), lit ": ",
      intLit (counts.severityCounts s), lit "</li>\n"])
      ([4, 3, 2, 1, 0].flatMap (severityNodes counts)) :=
    .flatMap fun s _ => severity_writes counts s
  simp only [renderSummary, List.append_assoc]
  refine Tells.of_eq
    (.append (.lit _ .text ((opening "section" [("class", ascii "summary")]).marks ++
      textMarks (ascii "\n") ++ [startMark "h2" []] ++ textMarks (ascii "Summary") ++
      [endMark (name "h2")] ++ textMarks (ascii "\n")) rfl rfl) <|
    .append (banner_writes row) <|
    .append (.lit _ .text ((opening "ul" [("class", ascii "severity-counts")]).marks ++
      textMarks (ascii "\n")) rfl rfl) <|
    .append hlines <|
    .cons (.lit _ .text (endMark (name "ul") :: textMarks (ascii "\n")) rfl rfl) <|
    .cons (.lit _ .text ((opening "p" [("class", ascii "kev-count")]).marks ++
      textMarks (ascii "Known Exploited Vulnerabilities (KEV): ")) rfl (by decide +kernel)) <|
    .cons (.int _) <|
    .cons (.lit _ .text (endMark (name "p") :: textMarks (ascii "\n")) rfl rfl) <|
    .cons (.litTwo _ _ .text ((opening "p" [("class", ascii "undetermined-count-line")]).marks ++
      textMarks (ascii "Undetermined (manual review ") ++ textMarks (ascii "needed): ")) rfl rfl
      (by decide +kernel)) <|
    .cons (.int _) <|
    .cons (.lit _ .text (endMark (name "p") :: textMarks (ascii "\n")) rfl rfl) <|
    .cons (.litTwo _ _ .text ((opening "p" [("class", ascii "not-affected-count")]).marks ++
      textMarks (ascii "Not affected (ruled out, audit ") ++ textMarks (ascii "trail): ")) rfl rfl
      (by decide +kernel)) <|
    .cons (.int _) <|
    .lit _ .text (endMark (name "p") :: textMarks (ascii "\n") ++ [endMark (name "section")] ++
      textMarks (ascii "\n")) rfl rfl) ?_
  simp [summaryNode, classed, nodeMarks_append]

end Cytadel.Report
