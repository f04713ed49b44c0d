import Mathlib.Data.Set.List
import Cytadel.Lib.GroupRuns
import Cytadel.Proofs.ReportTree

/-!
# The sections of the hosts

The two loops of the report open and close their blocks by looking at the row
before. On the rows in the order of the query what they write is a tree: a
section for each host, in it a block for each port with a confirmed finding and
one for what could not be determined, and a card for each of these rows. The
rows that are ruled out are counted.
-/

namespace Cytadel.Report

open Cytadel Cytadel.Db Lib Lib.Html

/-! ## The tree -/

/-- The confirmed findings of one port. -/
structure PortBlock where
  first : ScanResultRow
  more : List ScanResultRow
  onPort : ∀ r ∈ more, r.port = first.port

def PortBlock.rows (b : PortBlock) : List ScanResultRow := b.first :: b.more

def PortBlock.ops (b : PortBlock) : List ReportOp :=
  portHeading b.first ++ b.rows.flatMap renderConfirmedCard ++ [lit "</div>\n"]

def PortBlock.node (b : PortBlock) : Node := portBlock b.first b.rows

structure HostSection where
  host : Bytes
  blocks : List PortBlock
  undetermined : List ScanResultRow
  notAffected : List ScanResultRow

/-- The calls between the heading of a section and its end. -/
def HostSection.body (s : HostSection) : List ReportOp :=
  (if s.blocks = [] then
    if s.undetermined = [] then [lit "<p class=\"host-clean\">No vulnerabilities found.</p>\n"]
    else
      [lit "<p class=\"host-undetermined-only\">No confirmed vulnerabilities; ",
        intLit s.undetermined.length, lit " check(s) undetermined -- manual review needed.</p>\n"]
  else s.blocks.flatMap PortBlock.ops) ++
  (if s.undetermined = [] then []
  else
    [.lit (ascii "<div class=\"undetermined-block\">\n<h4>Undetermined -- Manual Review " ++
        ascii "Needed</h4>\n")] ++
      s.undetermined.flatMap renderUndeterminedCard ++ [lit "</div>\n"]) ++
  (if s.notAffected = [] then []
  else
    [lit "<p class=\"not-affected-count\">", intLit s.notAffected.length,
      lit " check(s) ruled not affected (audit trail).</p>\n"])

def HostSection.ops (s : HostSection) : List ReportOp :=
  [lit "<section class=\"host-block\" data-host=\"", .attr s.host, lit "\">\n<h3>Host: ",
    .body s.host, lit "</h3>\n"] ++ s.body ++ [lit "</section>\n"]

/-- What is said of a host first: its blocks, or why there are none. -/
def HostSection.confirmedNodes (s : HostSection) : List Node :=
  if s.blocks = [] then
    if s.undetermined = [] then [cleanLine] ++ texts (ascii "\n")
    else [undeterminedOnlyLine s.undetermined.length] ++ texts (ascii "\n")
  else s.blocks.flatMap fun b => [b.node] ++ texts (ascii "\n")

theorem section_paired : isVoid (name "section") = false := by decide

theorem h3_paired : isVoid (name "h3") = false := by decide

theorem p_paired : isVoid (name "p") = false := by decide

def HostSection.node (s : HostSection) : Node :=
  element "section" [("class", ascii "host-block"), ("data-host", attrText s.host)]
    (texts (ascii "\n") ++
      [element "h3" [] (texts (ascii "Host: ") ++ texts (bodyText s.host)) h3_paired] ++
      texts (ascii "\n") ++ s.confirmedNodes ++ undeterminedNodes s.undetermined ++
      notAffectedNodes s.notAffected.length) section_paired

theorem HostSection.body_writes (s : HostSection) :
    Writes s.body (s.confirmedNodes ++ undeterminedNodes s.undetermined ++
      notAffectedNodes s.notAffected.length) := by
  refine .append (.append ?_ (undeterminedBlock_writes _)) (notAffected_writes _)
  rw [confirmedNodes]
  split_ifs
  · exact cleanLine_writes
  · exact undeterminedOnly_writes _
  · exact .flatMap fun b _ => portBlock_writes b.first b.rows

theorem HostSection.writes (s : HostSection) :
    Writes s.ops ([s.node] ++ texts (ascii "\n")) := by
  have hbody := s.body_writes
  rw [Writes, nodeMarks_append, nodeMarks_append] at hbody
  simp only [HostSection.ops, List.append_assoc]
  refine Tells.of_eq
    (.append (.cons (.lit _ (inQuotes "section" ["class"] "data-host")
        (valueMarks (ascii "host-block")) rfl rfl) <|
      .cons (.attr _) <|
      .cons (.lit _ .text ([.endValue, startMark "section" ["class", "data-host"]] ++
        textMarks (ascii "\n") ++ [startMark "h3" []] ++ textMarks (ascii "Host: ")) rfl rfl) <|
      .cons (.body _) <|
      .lit _ .text (endMark (name "h3") :: textMarks (ascii "\n")) rfl rfl) <|
    .append hbody <|
    .lit _ .text (endMark (name "section") :: textMarks (ascii "\n")) rfl rfl) ?_
  simp [HostSection.node, nodeMarks_append, valueMarks]

/-- The calls under the heading of the findings. -/
def findingsOps (sections : List HostSection) : List ReportOp :=
  if sections = [] then
    [.lit (ascii "<p class=\"no-findings\">No scan_results recorded for " ++
      ascii "this scan.</p>\n")]
  else sections.flatMap HostSection.ops

def findingsNodes (sections : List HostSection) : List Node :=
  if sections = [] then
    [classed "p" "no-findings" (texts (ascii "No scan_results recorded for ") ++
      texts (ascii "this scan.")) p_paired] ++ texts (ascii "\n")
  else sections.flatMap fun s => [s.node] ++ texts (ascii "\n")

theorem findings_writes (sections : List HostSection) :
    Writes (findingsOps sections) (findingsNodes sections) := by
  rw [findingsOps, findingsNodes]
  split
  · refine Tells.of_eq (.litTwo _ _ .text ((opening "p" [("class", ascii "no-findings")]).marks ++
      textMarks (ascii "No scan_results recorded for ") ++ textMarks (ascii "this scan.") ++
      [endMark (name "p")] ++ textMarks (ascii "\n")) rfl rfl (by decide +kernel)) ?_
    simp [classed, nodeMarks_append]
  · exact .flatMap fun s _ => s.writes

/-- The rows of a host with one status. -/
def rowsOf (rows : List ScanResultRow) (host : Bytes) (status : MatchStatus) :
    List ScanResultRow :=
  rows.filter fun r => r.host = host ∧ r.matchStatus = status

/-- The port of a block, with its rows. -/
def PortBlock.group (b : PortBlock) : ℤ × List ScanResultRow := (b.first.port, b.rows)

/-- The sections are those of all the hosts, and each has all of its rows. -/
structure Grouped (rows : List ScanResultRow) (sections : List HostSection) : Prop where
  hostsNodup : (sections.map HostSection.host).Nodup
  hosts : ∀ host, host ∈ sections.map HostSection.host ↔ ∃ r ∈ rows, r.host = host
  confirmed : ∀ s ∈ sections,
    s.blocks.flatMap PortBlock.rows = rowsOf rows s.host .confirmed
  ports : ∀ s ∈ sections, IsGrouping ScanResultRow.port (rowsOf rows s.host .confirmed)
    (s.blocks.map PortBlock.group)
  undetermined : ∀ s ∈ sections, s.undetermined = rowsOf rows s.host .undetermined
  notAffected : ∀ s ∈ sections, s.notAffected = rowsOf rows s.host .notAffected

/-! ## The blocks of a host -/

/-- A group of rows as the loop over the ports writes it. -/
def portBlockOps (rows : List ScanResultRow) : List ReportOp :=
  (rows.take 1).flatMap portHeading ++ rows.flatMap renderConfirmedCard ++ [lit "</div>\n"]

theorem portRows_open (port : ℤ) (seen rows : List ScanResultRow) (hseen : seen ≠ []) :
    (seen.take 1).flatMap portHeading ++ seen.flatMap renderConfirmedCard ++
        renderPortRows (some port) rows =
      (groupRuns ScanResultRow.port (some (port, seen)) rows).flatMap
        fun g => portBlockOps g.2 := by
  induction rows generalizing port seen with
  | nil => simp [renderPortRows, groupRuns, portBlockOps]
  | cons r rows ih =>
      rw [renderPortRows, groupRuns]
      by_cases hport : r.port = port
      · have htake : (seen ++ [r]).take 1 = seen.take 1 := by
          obtain ⟨r₀, seen, rfl⟩ := List.exists_cons_of_ne_nil hseen
          rfl
        have hrest := ih port (seen ++ [r]) (by simp)
        rw [htake, List.flatMap_append, List.flatMap_singleton] at hrest
        rw [if_neg (by simpa using hport), if_pos hport, ← hrest, hport]
        simp only [List.nil_append, List.append_assoc]
      · have hrest := ih r.port [r] (by simp)
        rw [if_pos hport, if_neg hport, List.flatMap_cons, ← hrest, portBlockOps]
        simp only [List.take_succ_cons, List.take_zero, List.flatMap_singleton, List.append_assoc]

/-- The loop over the ports writes a block for each of its groups. -/
theorem portRows_groups (rows : List ScanResultRow) :
    renderPortRows none rows =
      (groupRuns ScanResultRow.port none rows).flatMap fun g => portBlockOps g.2 := by
  cases rows with
  | nil => rfl
  | cons r rows =>
      rw [renderPortRows, groupRuns, ← portRows_open r.port [r] rows (by simp)]
      simp only [List.take_succ_cons, List.take_zero, List.flatMap_singleton]

/-- A grouping by port, as blocks. -/
theorem blocks_of_grouping {rows : List ScanResultRow} {gs : List (ℤ × List ScanResultRow)}
    (h : IsGrouping ScanResultRow.port rows gs) :
    ∃ blocks : List PortBlock, blocks.map PortBlock.group = gs := by
  have hall : ∀ g ∈ gs, ∃ b : PortBlock, b.group = g := by
    rintro ⟨port, run⟩ hg
    have hrun : run = rows.filter fun r => r.port = port := h.run _ hg
    have hport : ∀ r ∈ run, r.port = port := by
      intro r hr
      rw [hrun] at hr
      simpa using (List.mem_filter.mp hr).2
    cases run with
    | nil =>
        obtain ⟨r, hr, hrp⟩ := (h.mem port).mp (List.mem_map_of_mem hg)
        have hmem : r ∈ rows.filter fun r => r.port = port := List.mem_filter.mpr ⟨hr, by simpa⟩
        rw [← hrun] at hmem
        cases hmem
    | cons r run =>
        have hfirst := hport r List.mem_cons_self
        refine ⟨⟨r, run, fun r' hr' => ?_⟩, ?_⟩
        · rw [hfirst]
          exact hport r' (List.mem_cons_of_mem _ hr')
        · show (r.port, r :: run) = (port, r :: run)
          rw [hfirst]
  show gs ∈ Set.range (List.map PortBlock.group)
  rw [Set.range_list_map]
  exact hall

/-- On rows in the order of their ports the loop writes one block for each. -/
theorem portRows_blocks {rows : List ScanResultRow}
    (hs : rows.Pairwise fun a b => a.port ≤ b.port) :
    ∃ blocks : List PortBlock, renderPortRows none rows = blocks.flatMap PortBlock.ops ∧
      blocks.flatMap PortBlock.rows = rows ∧
      IsGrouping ScanResultRow.port rows (blocks.map PortBlock.group) := by
  have hgroups := groupRuns_isGrouping hs
  obtain ⟨blocks, hblocks⟩ := blocks_of_grouping hgroups
  refine ⟨blocks, ?_, ?_, ?_⟩
  · rw [portRows_groups, ← hblocks, List.flatMap_map]
    refine List.flatMap_congr fun b _ => ?_
    simp [portBlockOps, PortBlock.ops, PortBlock.rows, PortBlock.group]
  · have hflat := groupRuns_flatMap ScanResultRow.port none rows
    rw [← hblocks, List.flatMap_map] at hflat
    exact hflat
  · rw [hblocks]
    exact hgroups

/-! ## A host -/

theorem blocks_nil {blocks : List PortBlock} {rows : List ScanResultRow}
    (h : blocks.flatMap PortBlock.rows = rows) : blocks = [] ↔ rows = [] := by
  subst h
  cases blocks with
  | nil => simp
  | cons b blocks => simp [PortBlock.rows]

theorem hostSection_tree (host : Bytes) {rows : List ScanResultRow}
    (hs : rows.Pairwise fun a b => a.port ≤ b.port) :
    ∃ blocks : List PortBlock,
      renderHostSection host rows = HostSection.ops ⟨host, blocks,
        rows.filter fun r => r.matchStatus = .undetermined,
        rows.filter fun r => r.matchStatus = .notAffected⟩ ∧
      blocks.flatMap PortBlock.rows = rows.filter (fun r => r.matchStatus = .confirmed) ∧
      IsGrouping ScanResultRow.port (rows.filter fun r => r.matchStatus = .confirmed)
        (blocks.map PortBlock.group) := by
  have hconf : (rows.filter fun r => r.matchStatus = .confirmed).Pairwise
      fun a b => a.port ≤ b.port := hs.filter _
  obtain ⟨blocks, hops, hrows, hports⟩ := portRows_blocks hconf
  refine ⟨blocks, ?_, hrows, hports⟩
  have hnil := blocks_nil hrows
  rw [renderHostSection, HostSection.ops, HostSection.body]
  simp only [hops]
  generalize rows.filter (fun r => r.matchStatus = .confirmed) = conf at hnil
  generalize rows.filter (fun r => r.matchStatus = .undetermined) = und
  generalize rows.filter (fun r => r.matchStatus = .notAffected) = no
  by_cases hblocks : blocks = []
  · have hc := hnil.mp hblocks
    by_cases hund : und = []
    · simp only [hblocks, hc, hund, and_self, if_true, List.append_nil, List.append_assoc]
    · simp only [hblocks, hc, hund, and_false, if_true, if_false, List.append_assoc]
  · have hc : conf ≠ [] := fun h => hblocks (hnil.mpr h)
    simp only [hblocks, hc, false_and, if_false, List.append_assoc]

/-! ## The findings -/

/-- The text of the groups that are closed from this row on. -/
theorem findingGroups_open (n cap : ℕ) (group : Bytes × List ScanResultRow)
    (rows : List ScanResultRow) :
    opsText (renderFindingGroups n (some group) cap rows) =
      (groupRuns ScanResultRow.host (some group) rows).flatMap fun g =>
        opsText (renderHostSection g.1 g.2) := by
  induction rows generalizing n cap group with
  | nil => simp [renderFindingGroups, groupRuns, opsText_append, ReportOp.pieces]
  | cons r rows ih =>
      obtain ⟨host, seen⟩ := group
      rw [renderFindingGroups]
      simp only [opsText_append, opsText_dupColumns, opsText_rowsGrow, opsText_cons, opsText_nil,
        ReportOp.pieces, List.flatten_nil, List.nil_append, List.append_nil, ih]
      rw [groupRuns, closeGroup, addToGroup]
      by_cases hhost : r.host = host
      · rw [if_pos hhost, if_pos hhost, if_pos hhost, opsText_nil, List.nil_append]
      · rw [if_neg hhost, if_neg hhost, if_neg hhost, List.flatMap_cons, opsText_append]
        simp [ReportOp.pieces]

theorem findingGroups_text (rows : List ScanResultRow) (hne : rows ≠ []) :
    opsText (renderFindingGroups 0 none 0 rows) =
      (groupRuns ScanResultRow.host none rows).flatMap fun g =>
        opsText (renderHostSection g.1 g.2) := by
  obtain ⟨r, rows, rfl⟩ := List.exists_cons_of_ne_nil hne
  rw [renderFindingGroups]
  simp only [opsText_append, opsText_dupColumns, opsText_rowsGrow, opsText_cons, opsText_nil,
    ReportOp.pieces, List.flatten_nil, List.nil_append, List.append_nil, findingGroups_open]
  rw [groupRuns, closeGroup, addToGroup, opsText_nil, List.nil_append]

theorem filter_filter_status (rows : List ScanResultRow) (host : Bytes) (status : MatchStatus) :
    (rows.filter fun r => r.host = host).filter (fun r => r.matchStatus = status) =
      rowsOf rows host status := by
  rw [List.filter_filter]
  refine List.filter_congr fun r _ => ?_
  simp only [Bool.decide_and, Bool.and_comm]

/-- The section of a host, from its rows among all. -/
theorem section_of_host {rows : List ScanResultRow} (hs : rows.Pairwise findingLe) (host : Bytes) :
    ∃ s : HostSection, s.host = host ∧
      s.ops = renderHostSection host (rows.filter fun r => r.host = host) ∧
      s.blocks.flatMap PortBlock.rows = rowsOf rows host .confirmed ∧
      IsGrouping ScanResultRow.port (rowsOf rows host .confirmed)
        (s.blocks.map PortBlock.group) ∧
      s.undetermined = rowsOf rows host .undetermined ∧
      s.notAffected = rowsOf rows host .notAffected := by
  have hports : (rows.filter fun r => r.host = host).Pairwise fun a b => a.port ≤ b.port := by
    refine (hs.filter _).imp_of_mem ?_
    intro a b ha hb hle
    have hhosts : a.host = b.host := by
      simp only [List.mem_filter, decide_eq_true_eq] at ha hb
      rw [ha.2, hb.2]
    exact (hle.2 hhosts).1
  obtain ⟨blocks, hops, hrows, hgroups⟩ := hostSection_tree host hports
  rw [filter_filter_status] at hrows hgroups
  exact ⟨_, rfl, hops.symm, hrows, hgroups, filter_filter_status _ _ _,
    filter_filter_status _ _ _⟩

/-- The sections are among the calls of the loop. -/
theorem findingGroups_mem (n cap : ℕ) (group : Bytes × List ScanResultRow)
    (rows : List ScanResultRow) {g : Bytes × List ScanResultRow}
    (hg : g ∈ groupRuns ScanResultRow.host (some group) rows) :
    renderHostSection g.1 g.2 ⊆ renderFindingGroups n (some group) cap rows := by
  induction rows generalizing n cap group with
  | nil =>
      obtain rfl := List.mem_singleton.mp hg
      rw [renderFindingGroups]
      intro op hop
      exact List.mem_append_left _ (List.mem_append_right _ hop)
  | cons r rows ih =>
      obtain ⟨host, seen⟩ := group
      have hrest : ∀ (pre : List ReportOp) (g' : Bytes × List ScanResultRow) (cap' : ℕ),
          g ∈ groupRuns ScanResultRow.host (some g') rows →
          renderHostSection g.1 g.2 ⊆
            pre ++ renderFindingGroups (n + 1) (some g') cap' rows :=
        fun pre g' cap' h _ hop => List.mem_append_right pre (ih (n + 1) cap' g' h hop)
      rw [groupRuns] at hg
      rw [renderFindingGroups]
      by_cases hhost : r.host = host
      · rw [if_pos hhost] at hg
        refine hrest _ _ _ ?_
        rw [addToGroup, if_pos hhost]
        exact hg
      · rw [if_neg hhost, List.mem_cons] at hg
        obtain rfl | hg := hg
        · intro op hop
          rw [closeGroup, if_neg hhost]
          simp [hop]
        · refine hrest _ _ _ ?_
          rw [addToGroup, if_neg hhost]
          exact hg

/-- On rows in the order of the query the loop writes the sections of their
hosts, and makes all of their calls. -/
theorem findings_grouped {rows : List ScanResultRow} (hs : rows.Pairwise findingLe) :
    ∃ sections : List HostSection, Grouped rows sections ∧
      opsText (renderFindingGroups 0 none 0 rows) = opsText (findingsOps sections) ∧
      ∀ s ∈ sections, s.ops ⊆ renderFindingGroups 0 none 0 rows := by
  have hsorted : rows.Pairwise fun a b => a.host ≤ b.host := hs.imp fun h => h.1
  have hgroups := groupRuns_isGrouping hsorted
  choose sec hhost hops hconf hports hund hno using section_of_host hs
  generalize hgs : groupRuns ScanResultRow.host none rows = gs at hgroups
  have hhosts : (gs.map fun g => sec g.1).map HostSection.host = gs.map (·.1) := by
    rw [List.map_map]
    exact List.map_congr_left fun g _ => hhost g.1
  have hof : ∀ s ∈ gs.map fun g => sec g.1, ∃ host, s = sec host := by
    intro s hs
    obtain ⟨g, -, rfl⟩ := List.mem_map.mp hs
    exact ⟨g.1, rfl⟩
  refine ⟨gs.map fun g => sec g.1, ⟨?_, ?_, ?_, ?_, ?_, ?_⟩, ?_, ?_⟩
  · rw [hhosts]
    exact hgroups.nodup
  · rw [hhosts]
    exact hgroups.mem
  · intro s hs
    obtain ⟨host, rfl⟩ := hof s hs
    rw [hhost]
    exact hconf host
  · intro s hs
    obtain ⟨host, rfl⟩ := hof s hs
    rw [hhost]
    exact hports host
  · intro s hs
    obtain ⟨host, rfl⟩ := hof s hs
    rw [hhost]
    exact hund host
  · intro s hs
    obtain ⟨host, rfl⟩ := hof s hs
    rw [hhost]
    exact hno host
  · cases rows with
    | nil =>
        subst hgs
        simp [renderFindingGroups, groupRuns, findingsOps, ReportOp.pieces]
    | cons r rows =>
        have hne : gs ≠ [] := by
          rintro rfl
          have hmem := (hgroups.mem r.host).mpr ⟨r, List.mem_cons_self, rfl⟩
          cases hmem
        rw [findingGroups_text _ (List.cons_ne_nil _ _), hgs, findingsOps,
          if_neg (by simpa using hne), List.flatMap_map, opsText, List.flatMap_assoc]
        refine List.flatMap_congr fun g hg => ?_
        rw [← opsText, hops, hgroups.run g hg]
  · intro s hs
    obtain ⟨g, hg, rfl⟩ := List.mem_map.mp hs
    rw [hops, ← hgroups.run g hg]
    cases rows with
    | nil =>
        subst hgs
        cases hg
    | cons r rows =>
        rw [← hgs, groupRuns] at hg
        rw [renderFindingGroups]
        intro op hop
        exact List.mem_append_right _ (findingGroups_mem 1 _ _ rows hg hop)

end Cytadel.Report
