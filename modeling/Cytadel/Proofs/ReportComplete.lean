import Cytadel.Proofs.HostSections

/-!
# Every finding is in the HTML report

What a reader finds who searches the tree of the report by names and classes,
and knows nothing of how it was written: a section for each host, in it a card
for each finding, and a block for each port with the cards of that port.
-/

namespace Cytadel.Report

open Cytadel Cytadel.Db Lib Lib.Html

/-! ## What a reader looks for -/

inductive Sought
  | hostSection
  | portBlock
  | card
  | heading
  | countLine
  | cleanLine
  deriving DecidableEq

namespace Sought

instance {p : Sought → Prop} [DecidablePred p] : Decidable (∀ k, p k) :=
  decidable_of_iff (p hostSection ∧ p portBlock ∧ p card ∧ p heading ∧ p countLine ∧ p cleanLine)
    ⟨fun h k => by cases k <;> simp only [h], fun h => ⟨h _, h _, h _, h _, h _, h _⟩⟩

def elem : Sought → String
  | hostSection => "section"
  | portBlock => "div"
  | card => "div"
  | heading => "h5"
  | countLine => "p"
  | cleanLine => "p"

def cls : Sought → Option String
  | hostSection => some "host-block"
  | portBlock => some "port-block"
  | card => some "finding"
  | heading => none
  | countLine => some "not-affected-count"
  | cleanLine => some "host-clean"

/-- A start tag of what is looked for. -/
def opens (k : Sought) (o : Opening) : Bool := o.isA (name k.elem) (k.cls.map name)

def is (k : Sought) (n : Node) : Bool := n.opening?.any k.opens

end Sought

section

variable (refs : References)

/-- A value as a reader shows it. -/
def shown (n : Node) (attr : String) : Option Bytes :=
  (n.attr (name attr)).map (refs.decode none)

def cardClass (r : ScanResultRow) : Bytes :=
  if r.matchStatus = .confirmed then ascii "finding sev-" ++ decimalInt r.severity
  else ascii "finding undetermined-finding"

def cardHeading (r : ScanResultRow) : Bytes :=
  if r.matchStatus = .confirmed then
    (present r.cveId).getD (ascii "Configuration finding (no CVE)") ++ ascii " " ++
      severityLabel r.severity ++ if r.kevFlag ≠ 0 then ascii " KEV" else []
  else
    (present r.cveId).getD (ascii "Unknown CVE") ++ ascii " " ++
      (ascii "Could not determine -- manual review " ++ ascii "needed")

/-- The element is the card of this row. -/
structure IsCard (r : ScanResultRow) (n : Node) : Prop where
  cls : n.attr (name "class") = some (cardClass r)
  title : shown refs n "title" = some r.evidence
  heading : (n.find Sought.heading.is).map (fun h => refs.decode none h.content) = [cardHeading r]

/-- The element is the section of this host. -/
structure IsSection (rows : List ScanResultRow) (host : Bytes) (s : Node) : Prop where
  named : shown refs s "data-host" = some host
  /-- One card for each row, and none for what was ruled out. -/
  cards : List.Forall₂ (IsCard refs)
    (rowsOf rows host .confirmed ++ rowsOf rows host .undetermined) (s.find Sought.card.is)
  /-- One block for each port, with the cards of that port. -/
  blocks : ∃ ports : List ℤ, ports.Nodup ∧
    (∀ port, port ∈ ports ↔ ∃ r ∈ rowsOf rows host .confirmed, r.port = port) ∧
    List.Forall₂ (fun port b => List.Forall₂ (IsCard refs)
      ((rowsOf rows host .confirmed).filter fun r => r.port = port) (b.find Sought.card.is))
      ports (s.find Sought.portBlock.is)
  notAffected : (s.find Sought.countLine.is).map Node.content =
    if rowsOf rows host .notAffected = [] then []
    else [decimalInt (rowsOf rows host .notAffected).length ++
      ascii " check(s) ruled not affected (audit trail)."]
  clean : (s.find Sought.cleanLine.is).map Node.content =
    if rowsOf rows host .confirmed = [] ∧ rowsOf rows host .undetermined = [] then
      [ascii "No vulnerabilities found."]
    else []

/-- One section for each host, and every card is in one of them. -/
structure Complete (rows : List ScanResultRow) (nodes : List Node) : Prop where
  sections : ∃ hosts : List Bytes, hosts.Nodup ∧
    (∀ host, host ∈ hosts ↔ ∃ r ∈ rows, r.host = host) ∧
    List.Forall₂ (IsSection refs rows) hosts (findAll Sought.hostSection.is nodes)
  cards : findAll Sought.card.is nodes =
    (findAll Sought.hostSection.is nodes).flatMap (Node.find Sought.card.is)

end

/-! ## Nodes that no search finds -/

/-- No search finds anything in the nodes. -/
def Bare (ns : List Node) : Prop := ∀ k : Sought, findAll k.is ns = []

theorem find_element (k : Sought) (tag : String) (attrs : List (String × Bytes))
    (kids : List Node) (h : isVoid (name tag) = false) :
    (element tag attrs kids h).find k.is =
      (if k.opens (opening tag attrs) then [element tag attrs kids h] else []) ++
        findAll k.is kids := rfl

theorem find_classed (k : Sought) (tag cls : String) (kids : List Node)
    (h : isVoid (name tag) = false) :
    (classed tag cls kids h).find k.is =
      (if k.opens (opening tag [("class", ascii cls)]) then [classed tag cls kids h] else []) ++
        findAll k.is kids := rfl

theorem findAll_texts (k : Sought) (s : Bytes) : findAll k.is (texts s) = [] :=
  findAll_map (fun _ => rfl) s

theorem findAll_singleton (k : Sought) (n : Node) : findAll k.is [n] = n.find k.is := by
  rw [findAll, findAll, List.append_nil]

/-- An element of a name that is not looked for. -/
theorem not_opens {tag : String} (h : ∀ k : Sought, name tag ≠ name k.elem) (k : Sought)
    (attrs : List (String × Bytes)) : k.opens (opening tag attrs) = false := by
  rw [Sought.opens, Opening.isA, Bool.and_eq_false_iff]
  exact Or.inl (decide_eq_false (h k))

namespace Bare

variable {ns ms kids : List Node} {tag : String}

theorem nil : Bare [] := fun _ => rfl

theorem append (h : Bare ns) (h' : Bare ms) : Bare (ns ++ ms) := by
  intro k
  rw [findAll_append, h k, h' k, List.append_nil]

theorem cons {n : Node} (h : Bare [n]) (h' : Bare ms) : Bare (n :: ms) := append h h'

theorem texts (s : Bytes) : Bare (Report.texts s) := fun k => findAll_texts k s

theorem raws (s : Bytes) : Bare (Report.raws s) := fun _ => findAll_map (fun _ => rfl) s

theorem flatMap {α : Type} {f : α → List Node} {as : List α} (h : ∀ a ∈ as, Bare (f a)) :
    Bare (as.flatMap f) := by
  intro k
  rw [findAll_flatMap, List.flatMap_eq_nil_iff]
  exact fun a ha => h a ha k

theorem element {attrs : List (String × Bytes)} {hv : isVoid (name tag) = false}
    (h : ∀ k : Sought, k.opens (opening tag attrs) = false) (hkids : Bare kids) :
    Bare [Report.element tag attrs kids hv] := by
  intro k
  rw [findAll_singleton, find_element, h k, hkids k]
  rfl

theorem named {attrs : List (String × Bytes)} {hv : isVoid (name tag) = false}
    (h : ∀ k : Sought, name tag ≠ name k.elem) (hkids : Bare kids) :
    Bare [Report.element tag attrs kids hv] :=
  .element (fun k => not_opens h k attrs) hkids

theorem void {attrs : List (String × Bytes)} {hv : isVoid (name tag) = true}
    (h : ∀ k : Sought, name tag ≠ name k.elem) : Bare [voidElement tag attrs hv] := by
  intro k
  rw [findAll_singleton]
  show (if k.opens (opening tag attrs) then _ else _) = _
  rw [not_opens h k attrs]
  rfl

end Bare

theorem cveNodes_bare (cveId : Option Bytes) : Bare (cveNodes cveId) := by
  rw [cveNodes]
  split
  · exact .named (by decide) (.texts _)
  · exact .texts _

theorem serviceNodes_bare (service : Option Bytes) : Bare (serviceNodes service) := by
  rw [serviceNodes]
  split
  · exact .append (.append (.texts _) (.texts _)) (.texts _)
  · exact .nil

theorem confirmedHeading_bare (r : ScanResultRow) : Bare (confirmedHeading r) := by
  refine .append (.append (.append (cveNodes_bare _) (.texts _)) ?_) ?_
  · exact .named (by decide) (.texts _)
  · rw [kevNodes]
    split
    · exact .append (.texts _) (.named (by decide) (.texts _))
    · exact .nil

theorem undeterminedHeading_bare (r : ScanResultRow) : Bare (undeterminedHeading r) := by
  refine .append (.append ?_ (.texts _)) (.named (by decide) (.append (.texts _) (.texts _)))
  rw [cveNameNodes]
  split <;> exact .texts _

/-- A line of text. -/
theorem line_bare {cls : String} (h : ∀ k : Sought, k.opens (opening "p" [("class", ascii cls)]) =
    false) {kids : List Node} (hkids : Bare kids) : Bare [classed "p" cls kids] := .element h hkids

theorem evidenceLine_bare (r : ScanResultRow) : Bare [evidenceLine r] :=
  line_bare (by decide) (.append (.texts _) (.texts _))

theorem detectedLine_bare (r : ScanResultRow) : Bare [detectedLine r] :=
  line_bare (by decide) (.append (.texts _) (.texts _))

theorem confirmedLines_bare (r : ScanResultRow) : Bare (confirmedLines r) := by
  refine .append (.append (.append (.append (.append (.append (.append (.append (.texts _)
    (evidenceLine_bare r)) (.texts _)) ?_) ?_) (detectedLine_bare r)) (.texts _)) ?_) (.texts _)
  · rw [remediationNodes]
    split
    · exact .append (line_bare (by decide) (.append (.texts _) (.texts _))) (.texts _)
    · exact .nil
  · rw [epssNodes]
    split
    · exact .append (line_bare (by decide) (.append (.texts _) (.texts _))) (.texts _)
    · exact .nil
  · exact line_bare (by decide) (.append (.texts _) (.texts _))

theorem undeterminedLines_bare (r : ScanResultRow) : Bare (undeterminedLines r) := by
  refine .append (.append (.append (.append (.append (.append (.texts _) ?_) (.texts _))
    (evidenceLine_bare r)) (.texts _)) (detectedLine_bare r)) (.texts _)
  exact line_bare (by decide) (.append (.append (.texts _) (.texts _)) (serviceNodes_bare _))

/-! ## Cards -/

theorem opening_attr_head (tag n : String) (v : Bytes) (attrs : List (String × Bytes)) :
    (opening tag ((n, v) :: attrs)).attr (name n) = some v := by
  simp [opening, Opening.attr, attrValue]

theorem opening_attr_tail {m n : String} (h : name m ≠ name n) (tag : String) (v : Bytes)
    (attrs : List (String × Bytes)) :
    (opening tag ((m, v) :: attrs)).attr (name n) = (opening tag attrs).attr (name n) := by
  simp [opening, Opening.attr, attrValue, h]

theorem intText_no_blank (v : ℤ) : ∀ c ∈ intText v, isBlank c = false := by
  intro c hc
  rw [intText, intLit] at hc
  split at hc
  · cases hc
  · have hall : ∀ c : UInt8, Lib.Json.isNumByte c = true → isBlank c = false :=
      forall_byte (by decide)
    exact hall c (Lib.Json.isNumber_bytes (isNumber_decimalInt v) c
      (by simpa [ReportOp.pieces] using hc))

/-- The class of a confirmed card has two words. -/
theorem confirmed_words (v : ℤ) :
    words (ascii "finding sev-" ++ intText v) = [name "finding", name "sev-" ++ intText v] := by
  have hsplit : ascii "finding sev-" ++ intText v =
      name "finding" ++ 0x20 :: (name "sev-" ++ intText v) := rfl
  have hfinding : ∀ c ∈ name "finding", isBlank c = false := forall_mem_of_all (by decide)
  have hsev : ∀ c ∈ name "sev-", isBlank c = false := forall_mem_of_all (by decide)
  rw [hsplit, words_cons (by decide) hfinding rfl, words_single (by simp [name]) ?_]
  intro c hc
  obtain hc | hc := List.mem_append.mp hc
  · exact hsev c hc
  · exact intText_no_blank v c hc

/-- A `div`, by the words of its class. -/
theorem div_opens {v : Bytes} {ws : List Bytes} (hwords : words v = ws)
    (attrs : List (String × Bytes)) (k : Sought) :
    k.opens (opening "div" (("class", v) :: attrs)) =
      (k = .card && ws.contains (name "finding") ||
        k = .portBlock && ws.contains (name "port-block")) := by
  have hdiv : ∀ k : Sought,
      decide (name "div" = name k.elem) = decide (k = .card ∨ k = .portBlock) := by
    decide
  subst hwords
  rw [Sought.opens, Opening.isA]
  show (decide (name "div" = name k.elem) && _) = _
  rw [hdiv]
  cases k <;> simp [Sought.cls, opening_attr_head]

theorem confirmed_opens (r : ScanResultRow) (k : Sought) :
    k.opens (opening "div" (confirmedAttrs r)) = decide (k = .card) := by
  have hne : name "port-block" ≠ name "finding" := by decide
  have hne' : name "port-block" ≠ name "sev-" ++ intText r.severity := fun h => by
    cases (List.cons.inj h).1
  rw [confirmedAttrs, div_opens (confirmed_words r.severity)]
  simp [hne, hne']

theorem undetermined_opens (r : ScanResultRow) (k : Sought) :
    k.opens (opening "div" (undeterminedAttrs r)) = decide (k = .card) := by
  have hwords : words (ascii "finding undetermined-finding") =
      [name "finding", name "undetermined-finding"] := by decide
  have hne : name "port-block" ≠ name "finding" := by decide
  have hne' : name "port-block" ≠ name "undetermined-finding" := by decide
  rw [undeterminedAttrs, div_opens hwords]
  simp [hne, hne']

/-- A card is found, and in it its heading. -/
structure FoundAsCard (n heading : Node) : Prop where
  find : ∀ k : Sought,
    n.find k.is = (if k = .card then [n] else []) ++ if k = .heading then [heading] else []

theorem card_found {attrs : List (String × Bytes)} {heading lines : List Node}
    (hopens : ∀ k : Sought, k.opens (opening "div" attrs) = decide (k = .card))
    (hheading : Bare heading) (hlines : Bare lines) :
    FoundAsCard
      (element "div" attrs (texts (ascii "\n") ++ [element "h5" [] heading] ++ lines))
      (element "h5" [] heading) := by
  have hh5 : ∀ k : Sought, k.opens (opening "h5" []) = decide (k = .heading) := by decide
  constructor
  intro k
  rw [find_element, findAll_append, findAll_append, findAll_texts, findAll_singleton, find_element,
    hheading k, hlines k]
  simp [hopens, hh5]

theorem confirmedCard_found (r : ScanResultRow) :
    FoundAsCard (confirmedCard r) (element "h5" [] (confirmedHeading r)) :=
  card_found (confirmed_opens r) (confirmedHeading_bare r) (confirmedLines_bare r)

theorem undeterminedCard_found (r : ScanResultRow) :
    FoundAsCard (undeterminedCard r) (element "h5" [] (undeterminedHeading r)) :=
  card_found (undetermined_opens r) (undeterminedHeading_bare r) (undeterminedLines_bare r)

/-! ## Blocks and sections -/

/-- Cards side by side, each closed by a line break. -/
theorem findAll_cards (k : Sought) (f : ScanResultRow → Node) (rows : List ScanResultRow) :
    findAll k.is (rows.flatMap fun r => [f r] ++ texts (ascii "\n")) =
      rows.flatMap fun r => (f r).find k.is := by
  rw [findAll_flatMap]
  refine List.flatMap_congr fun r _ => ?_
  rw [findAll_append, findAll_texts, findAll_singleton, List.append_nil]

theorem portNodes_bare (r : ScanResultRow) : Bare (portNodes r) := by
  refine .append ?_ (serviceNodes_bare _)
  split
  · exact .texts _
  · exact .append (.texts _) (.texts _)

theorem PortBlock.find (b : PortBlock) (k : Sought) :
    b.node.find k.is = (if k = .portBlock then [b.node] else []) ++
      b.rows.flatMap fun r => (confirmedCard r).find k.is := by
  have hopens : ∀ k : Sought,
      k.opens (opening "div" [("class", ascii "port-block")]) = decide (k = .portBlock) := by decide
  have hheading : Bare [element "h4" [] (portNodes b.first)] :=
    .named (by decide) (portNodes_bare _)
  rw [PortBlock.node, portBlock, find_classed, findAll_append, findAll_append,
    findAll_append, findAll_texts, hheading k, findAll_cards]
  simp [hopens]

theorem undeterminedNodes_find (rows : List ScanResultRow) (k : Sought) :
    findAll k.is (undeterminedNodes rows) =
      rows.flatMap fun r => (undeterminedCard r).find k.is := by
  have hopens : ∀ k : Sought,
      k.opens (opening "div" [("class", ascii "undetermined-block")]) = false := by decide
  have hheading : Bare [element "h4" [] (texts (ascii "Undetermined -- Manual Review ") ++
      texts (ascii "Needed"))] := .named (by decide) (.append (.texts _) (.texts _))
  rw [undeterminedNodes]
  split
  · next hrows =>
      rw [hrows]
      rfl
  · rw [findAll_append, findAll_singleton, find_classed, findAll_append, findAll_append,
      findAll_append, findAll_texts, hheading k, findAll_cards]
    simp [hopens]

theorem countLine_find (n : ℕ) (k : Sought) :
    (countLine n).find k.is = if k = .countLine then [countLine n] else [] := by
  have hopens : ∀ k : Sought, k.opens (opening "p" [("class", ascii "not-affected-count")]) =
      decide (k = .countLine) := by decide
  rw [countLine, find_classed, findAll_append, findAll_texts, findAll_texts]
  simp [hopens]

theorem cleanLine_find (k : Sought) :
    cleanLine.find k.is = if k = .cleanLine then [cleanLine] else [] := by
  have hopens : ∀ k : Sought, k.opens (opening "p" [("class", ascii "host-clean")]) =
      decide (k = .cleanLine) := by decide
  rw [cleanLine, find_classed, findAll_texts]
  simp [hopens]

theorem undeterminedOnlyLine_bare (n : ℕ) : Bare [undeterminedOnlyLine n] :=
  line_bare (by decide) (.append (.append (.texts _) (.texts _)) (.texts _))

/-- What is found in a section. -/
theorem HostSection.find (s : HostSection) (k : Sought) :
    s.node.find k.is = (if k = .hostSection then [s.node] else []) ++
      (if s.blocks = [] ∧ s.undetermined = [] ∧ k = .cleanLine then [cleanLine] else []) ++
      (s.blocks.flatMap fun b => b.node.find k.is) ++
      (s.undetermined.flatMap fun r => (undeterminedCard r).find k.is) ++
      (if s.notAffected ≠ [] ∧ k = .countLine then [countLine s.notAffected.length] else []) := by
  have hopens : ∀ k : Sought, k.opens (opening "section" [("class", ascii "host-block"),
      ("data-host", attrText s.host)]) = decide (k = .hostSection) := by
    intro k
    cases k <;> rfl
  have hheading : Bare [element "h3" [] (texts (ascii "Host: ") ++ texts (bodyText s.host))] :=
    .named (by decide) (.append (.texts _) (.texts _))
  have hconf : findAll k.is s.confirmedNodes =
      (if s.blocks = [] ∧ s.undetermined = [] ∧ k = .cleanLine then [cleanLine] else []) ++
        s.blocks.flatMap fun b => b.node.find k.is := by
    rw [confirmedNodes]
    by_cases hblocks : s.blocks = []
    · rw [if_pos hblocks]
      by_cases hund : s.undetermined = []
      · rw [if_pos hund, findAll_append, findAll_singleton, cleanLine_find, findAll_texts]
        simp [hblocks, hund]
      · rw [if_neg hund, findAll_append, undeterminedOnlyLine_bare, findAll_texts]
        simp [hblocks, hund]
    · rw [if_neg hblocks, findAll_flatMap]
      simp only [hblocks, false_and, if_false, List.nil_append]
      refine List.flatMap_congr fun b _ => ?_
      rw [findAll_append, findAll_texts, findAll_singleton, List.append_nil]
  have hcount : findAll k.is (notAffectedNodes s.notAffected.length) =
      if s.notAffected ≠ [] ∧ k = .countLine then [countLine s.notAffected.length] else [] := by
    rw [notAffectedNodes]
    by_cases hno : s.notAffected = []
    · simp [hno, findAll]
    · rw [if_neg (by simpa using hno), findAll_append, findAll_singleton, countLine_find,
        findAll_texts]
      simp [hno]
  rw [HostSection.node, find_element, findAll_append, findAll_append, findAll_append,
    findAll_append, findAll_append, findAll_texts, hheading k, hconf, undeterminedNodes_find,
    hcount, ← HostSection.node]
  simp [hopens]

/-! ## The document -/

theorem metaNodes_bare (label : String) (value : Bytes) : Bare (metaNodes label value) := by
  refine .append (.named (by decide) ?_) (.texts _)
  exact .cons (.named (by decide) (.texts _)) (.named (by decide) (.texts _))

theorem headNode_bare (scanId : ℤ) : Bare [headNode scanId] := by
  refine .named (by decide) (.append (.append (.append (.append (.append (.append (.append
    (.append (.texts _) (.void (by decide))) (.texts _)) (.void (by decide))) (.texts _)) ?_)
    (.texts _)) ?_) (.texts _))
  · exact .named (by decide) (.append (.raws _) (.raws _))
  · exact .named (by decide) (.append (.raws _) (.raws _))

theorem coverNode_bare (logo : Logo) (scanId : ℤ) (row : ScanRow) :
    Bare [coverNode logo scanId row] := by
  refine .element (by decide) (.append (.append (.append (.append (.append (.append (.texts _) ?_)
    (.texts _)) ?_) (.texts _)) ?_) (.texts _))
  · refine .element (by decide) (.append (.append (.append (.append (.texts _) (.void (by decide)))
      (.texts _)) ?_) (.texts _))
    exact .element (by decide) (.texts _)
  · exact .named (by decide) (.append (.texts _) (.texts _))
  · refine .named (by decide) (.append (.texts _) ?_)
    refine .append (.append (.append (.append (.append (.append ?_ ?_) ?_) ?_) ?_) ?_) ?_
    all_goals exact metaNodes_bare _ _

theorem summaryNode_find (row : ScanRow) (counts : ReportCounts) {k : Sought}
    (hk : k ≠ .countLine) : findAll k.is [summaryNode row counts] = [] := by
  have hopens : ∀ k : Sought, k.opens (opening "section" [("class", ascii "summary")]) = false := by
    decide
  have hcount : ∀ k : Sought, k.opens (opening "p" [("class", ascii "not-affected-count")]) =
      decide (k = .countLine) := by decide
  have hheading : Bare [element "h2" [] (texts (ascii "Summary"))] :=
    .named (by decide) (.texts _)
  have hbanner : Bare (bannerNodes row) := by
    rw [bannerNodes]
    split
    · exact .append (.element (by decide) (.append (.texts _) (.texts _))) (.texts _)
    · exact .nil
  have hlist : Bare [classed "ul" "severity-counts" (texts (ascii "\n") ++
      [4, 3, 2, 1, 0].flatMap (severityNodes counts))] := by
    refine .named (by decide) (.append (.texts _) (.flatMap fun s _ => ?_))
    exact .append (.named (by decide) (.append (.append (.texts _) (.texts _)) (.texts _)))
      (.texts _)
  have hkev : Bare [classed "p" "kev-count" (texts
      (ascii "Known Exploited Vulnerabilities (KEV): ") ++ texts (intText counts.kevCount))] :=
    line_bare (by decide) (.append (.texts _) (.texts _))
  have hund : Bare [classed "p" "undetermined-count-line" (texts
      (ascii "Undetermined (manual review ") ++ texts (ascii "needed): ") ++
      texts (intText counts.undeterminedCount))] :=
    line_bare (by decide) (.append (.append (.texts _) (.texts _)) (.texts _))
  rw [findAll_singleton, summaryNode, find_classed]
  simp only [findAll_append, findAll_texts, hheading k, hbanner k, hlist k, hkev k, hund k,
    findAll_singleton, find_classed]
  simp [hopens, hcount, hk]

theorem html_paired : isVoid (name "html") = false := by decide

theorem body_paired : isVoid (name "body") = false := by decide

theorem h2_paired : isVoid (name "h2") = false := by decide

/-- The nodes of the report. -/
def documentNodes (logo : Logo) (scanId : ℤ) (row : ScanRow) (counts : ReportCounts)
    (sections : List HostSection) : List Node :=
  doctypeNodes ++ [element "html" [("lang", ascii "en")] (texts (ascii "\n") ++
    [headNode scanId] ++ texts (ascii "\n") ++ [element "body" [] (texts (ascii "\n") ++
      [coverNode logo scanId row] ++ texts (ascii "\n") ++ [summaryNode row counts] ++
      texts (ascii "\n") ++ [classed "section" "findings" (texts (ascii "\n") ++
        [element "h2" [] (texts (ascii "Findings")) h2_paired] ++ texts (ascii "\n") ++
        findingsNodes sections) section_paired] ++ texts (ascii "\n")) body_paired] ++
    texts (ascii "\n")) html_paired] ++ texts (ascii "\n")

theorem findingsNodes_find (sections : List HostSection) (k : Sought) :
    findAll k.is (findingsNodes sections) = sections.flatMap fun s => s.node.find k.is := by
  rw [findingsNodes]
  split
  · next hnil =>
      have hline : Bare [classed "p" "no-findings" (texts (ascii "No scan_results recorded for ") ++
          texts (ascii "this scan."))] := line_bare (by decide) (.append (.texts _) (.texts _))
      rw [findAll_append, hline k, findAll_texts, hnil]
      rfl
  · rw [findAll_flatMap]
    refine List.flatMap_congr fun s _ => ?_
    rw [findAll_append, findAll_singleton, findAll_texts, List.append_nil]

/-- Behind the summary, everything that is found is in a section of a host. -/
theorem documentNodes_find (logo : Logo) (scanId : ℤ) (row : ScanRow) (counts : ReportCounts)
    (sections : List HostSection) {k : Sought} (hk : k ≠ .countLine) :
    findAll k.is (documentNodes logo scanId row counts sections) =
      sections.flatMap fun s => s.node.find k.is := by
  have hdoctype : Bare doctypeNodes :=
    .append (fun _ => findAll_map (fun _ => rfl) _) (.texts _)
  have hhtml : ∀ k : Sought, k.opens (opening "html" [("lang", ascii "en")]) = false := by decide
  have hbody : ∀ k : Sought, k.opens (opening "body" []) = false := by decide
  have hsection : ∀ k : Sought, k.opens (opening "section" [("class", ascii "findings")]) =
      false := by decide
  have hheading : Bare [element "h2" [] (texts (ascii "Findings"))] :=
    .named (by decide) (.texts _)
  rw [documentNodes, findAll_append, findAll_append, hdoctype k, findAll_singleton, find_element]
  simp only [findAll_append, findAll_texts, headNode_bare scanId k]
  rw [findAll_singleton, find_element]
  simp only [findAll_append, findAll_texts, coverNode_bare logo scanId row k,
    summaryNode_find row counts hk]
  rw [findAll_singleton, find_classed]
  simp only [findAll_append, findAll_texts, hheading k, findingsNodes_find]
  simp [hhtml, hbody, hsection]

/-! ## What a card shows -/

section

variable (refs : References)

theorem contents_texts (s : Bytes) : contents (texts s) = s := contents_map (fun _ => rfl) s

theorem contents_element (tag : String) (attrs : List (String × Bytes)) (kids : List Node)
    (h : isVoid (name tag) = false) : contents [element tag attrs kids h] = contents kids := by
  rw [contents, contents, List.append_nil]
  rfl

theorem decode_body (s rest : Bytes) :
    refs.decode none (bodyText s ++ rest) = s ++ refs.decode none rest := by
  rw [bodyText, escapeHtmlBody_flatten]
  exact decode_escaped refs false s rest

theorem decode_attr (s : Bytes) : refs.decode none (attrText s) = s := by
  rw [attrText, escapeHtmlAttr_flatten]
  simpa [References.decode] using decode_escaped refs true s []

theorem decode_cve (cveId : Option Bytes) {other : Bytes} (hother : 0x26 ∉ other)
    (rest : Bytes) :
    refs.decode none ((match present cveId with
      | some cve => bodyText cve
      | none => other) ++ rest) = (present cveId).getD other ++ refs.decode none rest := by
  cases present cveId with
  | none => exact refs.decode_plain hother rest
  | some cve => exact decode_body refs cve rest

theorem severityLabel_no_amp (severity : ℤ) : 0x26 ∉ severityLabel severity := by
  rw [severityLabel]
  split_ifs <;> decide

theorem confirmedHeading_shown (r : ScanResultRow) (h : r.matchStatus = .confirmed) :
    refs.decode none (contents (confirmedHeading r)) = cardHeading r := by
  have hcve : contents (cveNodes r.cveId) = match present r.cveId with
      | some cve => bodyText cve
      | none => ascii "Configuration finding (no CVE)" := by
    rw [cveNodes]
    cases present r.cveId with
    | none => exact contents_texts _
    | some cve => exact (contents_element _ _ _ _).trans (contents_texts _)
  have hkev : contents (kevNodes r) = if r.kevFlag ≠ 0 then ascii " KEV" else [] := by
    rw [kevNodes]
    split
    · rw [contents_append, contents_texts, classed, contents_element, contents_texts]
      rfl
    · rfl
  have hend : refs.decode none (if r.kevFlag ≠ 0 then ascii " KEV" else []) =
      if r.kevFlag ≠ 0 then ascii " KEV" else [] := by
    split
    · have hplain : 0x26 ∉ ascii " KEV" := by decide
      simpa [References.decode] using refs.decode_plain hplain []
    · rfl
  rw [confirmedHeading, contents_append, contents_append, contents_append, hcve, hkev,
    contents_texts, classed, contents_element, contents_texts, List.append_assoc,
    List.append_assoc, decode_cve refs _ (by decide), refs.decode_plain (by decide),
    refs.decode_plain (severityLabel_no_amp _), hend, cardHeading, if_pos h]
  simp only [List.append_assoc]

theorem undeterminedHeading_shown (r : ScanResultRow) (h : r.matchStatus ≠ .confirmed) :
    refs.decode none (contents (undeterminedHeading r)) = cardHeading r := by
  have hcve : contents (cveNameNodes r.cveId) = match present r.cveId with
      | some cve => bodyText cve
      | none => ascii "Unknown CVE" := by
    rw [cveNameNodes]
    cases present r.cveId with
    | none => exact contents_texts _
    | some cve => exact contents_texts _
  have hplain : 0x26 ∉ ascii "Could not determine -- manual review " ++ ascii "needed" := by
    decide
  have hend := refs.decode_plain hplain []
  rw [List.append_nil, References.decode, List.append_nil] at hend
  rw [undeterminedHeading, contents_append, contents_append, hcve, contents_texts, classed,
    contents_element, contents_append, contents_texts, contents_texts, List.append_assoc,
    decode_cve refs _ (by decide), refs.decode_plain (by decide), hend, cardHeading, if_neg h]
  simp only [List.append_assoc]

/-- A number that `append_int_lit` has room for. -/
theorem intText_eq {v : ℤ} (h : intLit v ≠ .refuse) : intText v = decimalInt v := by
  rw [intLit] at h
  rw [intText, intLit]
  split at h
  · exact absurd rfl h
  · next hlt =>
      rw [if_neg hlt]
      simp [ReportOp.pieces]

theorem element_attr (tag : String) (attrs : List (String × Bytes)) (kids : List Node)
    (h : isVoid (name tag) = false) (n : Bytes) :
    (element tag attrs kids h).attr n = (opening tag attrs).attr n := rfl

theorem confirmedCard_isCard {r : ScanResultRow} (h : r.matchStatus = .confirmed)
    (hsev : intLit r.severity ≠ .refuse) : IsCard refs r (confirmedCard r) where
  cls := by
    rw [confirmedCard, element_attr, confirmedAttrs, opening_attr_head, cardClass, if_pos h,
      intText_eq hsev]
  title := by
    rw [shown, confirmedCard, element_attr, confirmedAttrs, opening_attr_tail (by decide),
      opening_attr_head, Option.map_some, decode_attr]
  heading := by
    rw [(confirmedCard_found r).find]
    simpa [element, Node.content] using confirmedHeading_shown refs r h

theorem undeterminedCard_isCard {r : ScanResultRow} (h : r.matchStatus ≠ .confirmed) :
    IsCard refs r (undeterminedCard r) where
  cls := by
    rw [undeterminedCard, element_attr, undeterminedAttrs, opening_attr_head, cardClass, if_neg h]
  title := by
    rw [shown, undeterminedCard, element_attr, undeterminedAttrs, opening_attr_tail (by decide),
      opening_attr_head, Option.map_some, decode_attr]
  heading := by
    rw [(undeterminedCard_found r).find]
    simpa [element, Node.content] using undeterminedHeading_shown refs r h

end

/-! ## The section of a host -/

section

variable {rows : List ScanResultRow} {sections : List HostSection} {s : HostSection}

theorem PortBlock.find_cards (b : PortBlock) :
    b.node.find Sought.card.is = b.rows.map confirmedCard := by
  rw [b.find, List.map_eq_flatMap]
  simp only [(confirmedCard_found _).find]
  rfl

theorem HostSection.find_cards (s : HostSection) :
    s.node.find Sought.card.is =
      (s.blocks.flatMap PortBlock.rows).map confirmedCard ++
        s.undetermined.map undeterminedCard := by
  have hund : (s.undetermined.flatMap fun r => (undeterminedCard r).find Sought.card.is) =
      s.undetermined.map undeterminedCard := by
    rw [List.map_eq_flatMap]
    simp only [(undeterminedCard_found _).find]
    rfl
  rw [s.find, hund, List.map_flatMap]
  simp [PortBlock.find_cards]

theorem HostSection.find_blocks (s : HostSection) :
    s.node.find Sought.portBlock.is = s.blocks.map PortBlock.node := by
  have hblock : ∀ b : PortBlock, b.node.find Sought.portBlock.is = [b.node] := by
    intro b
    rw [b.find]
    simp [(confirmedCard_found _).find]
  rw [s.find, List.map_eq_flatMap]
  simp [hblock, (undeterminedCard_found _).find]

theorem HostSection.find_count (s : HostSection) :
    s.node.find Sought.countLine.is =
      if s.notAffected = [] then [] else [countLine s.notAffected.length] := by
  have hnone : ∀ rs : List ScanResultRow, (rs.flatMap fun _ => ([] : List Node)) = [] := by simp
  rw [s.find]
  by_cases hno : s.notAffected = [] <;>
    simp [hno, hnone, PortBlock.find, (confirmedCard_found _).find,
      (undeterminedCard_found _).find]

theorem HostSection.find_clean (s : HostSection) :
    s.node.find Sought.cleanLine.is =
      if s.blocks = [] ∧ s.undetermined = [] then [cleanLine] else [] := by
  rw [s.find]
  simp [PortBlock.find, (confirmedCard_found _).find, (undeterminedCard_found _).find]

theorem HostSection.find_section (s : HostSection) :
    s.node.find Sought.hostSection.is = [s.node] := by
  rw [s.find]
  simp [PortBlock.find, (confirmedCard_found _).find, (undeterminedCard_found _).find]

/-- The severity of a card is written by a call of its section. -/
theorem severity_mem {r : ScanResultRow} (hr : r ∈ s.blocks.flatMap PortBlock.rows) :
    intLit r.severity ∈ s.ops := by
  obtain ⟨b, hb, hrb⟩ := List.mem_flatMap.mp hr
  have hcard : intLit r.severity ∈ renderConfirmedCard r := by simp [renderConfirmedCard]
  have hblock : intLit r.severity ∈ b.ops := by
    rw [PortBlock.ops, List.mem_append, List.mem_append]
    exact Or.inl (Or.inr (List.mem_flatMap.mpr ⟨r, hrb, hcard⟩))
  have hblocks : s.blocks ≠ [] := List.ne_nil_of_mem hb
  rw [HostSection.ops, HostSection.body, if_neg hblocks]
  simp only [List.mem_append]
  exact Or.inl (Or.inr (Or.inl (Or.inl (List.mem_flatMap.mpr ⟨b, hb, hblock⟩))))

theorem count_mem (hno : s.notAffected ≠ []) : intLit s.notAffected.length ∈ s.ops := by
  rw [HostSection.ops, HostSection.body, if_neg hno]
  simp

theorem countLine_content {n : ℕ} (h : intLit n ≠ .refuse) :
    (countLine n).content =
      decimalInt n ++ ascii " check(s) ruled not affected (audit trail)." := by
  show contents (_ ++ _) = _
  rw [contents_append, contents_texts, contents_texts, intText_eq h]

theorem cleanLine_content : cleanLine.content = ascii "No vulnerabilities found." :=
  contents_texts _

variable (refs : References)

/-- The cards of rows that are confirmed. -/
theorem confirmedCards {rs : List ScanResultRow} (h : ∀ r ∈ rs, r.matchStatus = .confirmed)
    (hsev : ∀ r ∈ rs, intLit r.severity ≠ .refuse) :
    List.Forall₂ (IsCard refs) rs (rs.map confirmedCard) := by
  rw [List.forall₂_map_right_iff, List.forall₂_same]
  exact fun r hr => confirmedCard_isCard refs (h r hr) (hsev r hr)

theorem rowsOf_status {host : Bytes} {status : MatchStatus} {r : ScanResultRow}
    (hr : r ∈ rowsOf rows host status) : r.matchStatus = status := by
  rw [rowsOf, List.mem_filter] at hr
  simpa using (of_decide_eq_true hr.2).2

/-- The section of a host is found to be complete. -/
theorem isSection_of_grouped (hg : Grouped rows sections) (hs : s ∈ sections)
    (hplain : ReportOp.refuse ∉ s.ops) : IsSection refs rows s.host s.node := by
  have hconf := hg.confirmed s hs
  have hsev : ∀ r ∈ rowsOf rows s.host .confirmed, intLit r.severity ≠ .refuse := by
    intro r hr heq
    rw [← hconf] at hr
    exact hplain (heq ▸ severity_mem hr)
  constructor
  case named =>
    rw [shown, HostSection.node, element_attr, opening_attr_tail (by decide), opening_attr_head,
      Option.map_some, decode_attr]
  case cards =>
    rw [s.find_cards, hconf, ← hg.undetermined s hs]
    refine List.rel_append ?_ ?_
    · exact confirmedCards refs (fun r hr => rowsOf_status hr) hsev
    · rw [List.forall₂_map_right_iff, List.forall₂_same]
      intro r hr
      rw [hg.undetermined s hs] at hr
      exact undeterminedCard_isCard refs (by rw [rowsOf_status hr]; decide)
  case blocks =>
    have hports := hg.ports s hs
    refine ⟨(s.blocks.map PortBlock.group).map (·.1), hports.nodup, hports.mem, ?_⟩
    rw [s.find_blocks, List.map_map, List.forall₂_map_left_iff, List.forall₂_map_right_iff,
      List.forall₂_same]
    intro b hb
    have hrows : b.rows = (rowsOf rows s.host .confirmed).filter fun r => r.port = b.first.port :=
      hports.run b.group (List.mem_map_of_mem hb)
    show List.Forall₂ _ ((rowsOf rows s.host .confirmed).filter fun r => r.port = b.first.port) _
    rw [b.find_cards, ← hrows]
    refine confirmedCards refs (fun r hr => ?_) fun r hr => ?_
    · rw [hrows] at hr
      exact rowsOf_status (List.mem_of_mem_filter hr)
    · rw [hrows] at hr
      exact hsev r (List.mem_of_mem_filter hr)
  case notAffected =>
    rw [s.find_count, ← hg.notAffected s hs]
    split
    · rfl
    · next hno =>
        have hcount : intLit s.notAffected.length ≠ .refuse := by
          intro heq
          exact hplain (heq ▸ count_mem hno)
        rw [List.map_cons, List.map_nil, countLine_content hcount]
  case clean =>
    have hnil := blocks_nil hconf
    rw [s.find_clean, ← hg.undetermined s hs]
    simp only [hnil]
    split
    · rw [List.map_cons, List.map_nil, cleanLine_content]
    · rfl

end

/-! ## The report -/

/-- A report that answers OK is of a scan that is there. -/
theorem reportHtml_row {logo : Logo} {w : ReportWorld} {scanId : ℤ} {out out' : ReportBuf}
    (h : reportHtml logo w scanId out = (.ok, out')) :
    ∃ row, (w.snapshot .scanRow).scans scanId = some row := by
  rw [reportHtml] at h
  split at h
  · cases h
  · cases hrow : (w.snapshot .scanRow).scans scanId with
    | some row => exact ⟨row, rfl⟩
    | none =>
        have hops : reportHtmlOps logo w scanId =
            [.db (.prepare .scanRow), .db (.bind .scanRow), .db (.step .scanRow 0),
              .stop .errNotFound] := by
          simp [reportHtmlOps, openQuery, hrow]
        rw [hops] at h
        simp only [runOps] at h
        split_ifs at h <;> cases h

/-- The text of the report, by the nodes of its document. -/
theorem documentNodes_tells (logo : Logo) (scanId : ℤ) (row : ScanRow) (counts : ReportCounts)
    {sections : List HostSection} {findings : List ReportOp}
    (h : opsText findings = opsText (findingsOps sections)) :
    Tells .text (renderDocumentHead scanId ++ renderCover logo scanId row ++
      renderSummary row counts ++ [lit "<section class=\"findings\">\n<h2>Findings</h2>\n"] ++
      findings ++ [lit "</section>\n</body>\n</html>\n"]) .text
      (nodeMarks (documentNodes logo scanId row counts sections)) := by
  have hfindings : Writes findings (findingsNodes sections) := by
    have hwrites := findings_writes sections
    rwa [Writes, Tells, ← h] at hwrites
  have hcover := cover_writes logo scanId row
  have hsummary := summary_writes row counts
  rw [Writes, nodeMarks_append, nodeMarks_texts] at hcover hsummary
  simp only [List.append_assoc]
  refine Tells.of_eq
    (.append (documentHead_tells scanId) <|
    .append hcover <|
    .append hsummary <|
    .append (.lit _ .text ((opening "section" [("class", ascii "findings")]).marks ++
      textMarks (ascii "\n") ++ [startMark "h2" []] ++ textMarks (ascii "Findings") ++
      [endMark (name "h2")] ++ textMarks (ascii "\n")) rfl rfl) <|
    .append hfindings <|
    .lit _ .text ([endMark (name "section")] ++ textMarks (ascii "\n") ++
      [endMark (name "body")] ++ textMarks (ascii "\n") ++ [endMark (name "html")] ++
      textMarks (ascii "\n")) rfl rfl) ?_
  simp only [documentNodes, headMarks, classed, nodeMarks_append, nodeMarks_element,
    nodeMarks_texts, nodeMarks_nil]
  simp

/-- The report of a scan that answers OK is a document in which every element
is closed where it was opened, and a reader of its tree finds all the findings
of the scan, each once. -/
theorem reportHtml_complete {logo : Logo} {w : ReportWorld} {scanId : ℤ} {out out' : ReportBuf}
    (h : reportHtml logo w scanId out = (.ok, out')) :
    ∃ (text : Bytes) (nodes : List Node), out'.data = out.data ++ text ∧
      tree text = some nodes ∧
      (findingsQuery scanId (w.snapshot .findings)).Perm
        (resultsOf scanId (w.snapshot .findings)) ∧
      (findingsQuery scanId (w.snapshot .findings)).Pairwise findingLe ∧
      ∀ refs : References, Complete refs (findingsQuery scanId (w.snapshot .findings)) nodes := by
  obtain ⟨row, hrow⟩ := reportHtml_row h
  obtain ⟨hperm, hsorted⟩ := findingsQuery_sorted scanId (w.snapshot .findings)
  obtain ⟨sections, hgrouped, htext, hcalls⟩ := findings_grouped hsorted
  obtain ⟨hdata, hrefuse⟩ := reportHtml_ok hrow h
  have hopen : ∀ q, opsText (openQuery q) = [] := fun _ => rfl
  have hbody : opsText (reportHtmlBody logo w scanId row) =
      opsText (renderDocumentHead scanId ++ renderCover logo scanId row ++
        renderSummary row (loadedCounts w scanId) ++
        [lit "<section class=\"findings\">\n<h2>Findings</h2>\n"] ++
        renderFindingGroups 0 none 0 (findingsQuery scanId (w.snapshot .findings)) ++
        [lit "</section>\n</body>\n</html>\n"]) := by
    rw [reportHtmlBody, renderFindings]
    simp only [opsText_append, opsText_cons, opsText_nil, ReportOp.pieces, List.flatten_nil, hopen,
      opsText_dupColumns, opsText_loadCounts, lit, List.flatten_cons, List.append_nil,
      List.nil_append, List.append_assoc]
  have htree : tree (opsText (reportHtmlBody logo w scanId row)) =
      some (documentNodes logo scanId row (loadedCounts w scanId) sections) := by
    rw [hbody]
    exact tree_of_marks (documentNodes_tells logo scanId row (loadedCounts w scanId) htext)
  have hplain : ∀ s ∈ sections, ReportOp.refuse ∉ s.ops := by
    intro s hs hm
    have hmem := hcalls s hs hm
    refine hrefuse ?_
    rw [reportHtmlBody, renderFindings]
    simp only [List.mem_append]
    exact Or.inl (Or.inr (Or.inr hmem))
  refine ⟨_, _, hdata, htree, hperm, hsorted, fun refs => ⟨⟨sections.map HostSection.host,
    hgrouped.hostsNodup, hgrouped.hosts, ?_⟩, ?_⟩⟩
  · rw [documentNodes_find _ _ _ _ _ (by decide)]
    simp only [HostSection.find_section, ← List.map_eq_flatMap]
    rw [List.forall₂_map_left_iff, List.forall₂_map_right_iff, List.forall₂_same]
    exact fun s hs => isSection_of_grouped refs hgrouped hs (hplain s hs)
  · rw [documentNodes_find _ _ _ _ _ (by decide), documentNodes_find _ _ _ _ _ (by decide)]
    simp only [HostSection.find_section, ← List.map_eq_flatMap, List.flatMap_map]

theorem reportHtml_complete_written :
    ∃ (out : ReportBuf) (text : Bytes) (nodes : List Node), out.data = [] ++ text ∧
      tree text = some nodes ∧
      (findingsQuery 1 (evidenceTables (ascii "OpenSSH 9.0"))).Perm
        (resultsOf 1 (evidenceTables (ascii "OpenSSH 9.0"))) ∧
      (findingsQuery 1 (evidenceTables (ascii "OpenSSH 9.0"))).Pairwise findingLe ∧
      ∀ refs : References,
        Complete refs (findingsQuery 1 (evidenceTables (ascii "OpenSSH 9.0"))) nodes := by
  obtain ⟨out, hrun⟩ := reportHtml_evidence (ascii "OpenSSH 9.0") (.one (by decide))
    (.one (by decide)) (by decide +kernel) (by decide +kernel)
  exact ⟨out, reportHtml_complete hrun⟩

end Cytadel.Report
