import Cytadel.Match.CpeMatchRaw

/-!
# NULL fields in the evaluator

The comparator looks for a NULL pointer before it reads; the test for a bound
that is only sentinels does not. So the evaluator reads through a NULL pointer
exactly when it comes to such a bound, and never otherwise, and a match always
rests on texts that are there.
-/

namespace Cytadel.Match

open Cytadel

/-- NULL with a length that says otherwise. -/
def TextField.Dangling (s : TextField) : Prop := s.isNull = true ∧ 0 < s.len

/-- The text of a field that is not dangling. -/
def TextField.text : TextField → Bytes
  | null _ => []
  | buf text => text

/-- The row by its bytes. -/
def CpeMatchRowRaw.toRow (row : CpeMatchRowRaw) : CpeMatchRow :=
  ⟨row.version.text, row.versionStartIncluding.text, row.versionStartExcluding.text,
    row.versionEndIncluding.text, row.versionEndExcluding.text, row.vulnerable⟩

/-! ## One field -/

theorem TextField.readAll_of_not_dangling {s : TextField} (h : ¬ s.Dangling) :
    s.readAll = some s.text := by
  cases s with
  | buf text => rfl
  | null len =>
      cases len with
      | zero => rfl
      | succ len => exact absurd ⟨rfl, Nat.succ_pos len⟩ h

theorem TextField.len_text {s : TextField} (h : ¬ s.Dangling) : s.text.length = s.len := by
  cases s with
  | buf text => rfl
  | null len =>
      show 0 = len
      exact Nat.eq_zero_of_not_pos (fun hpos => h ⟨rfl, hpos⟩) |>.symm

theorem TextField.isEmpty_text {s : TextField} (h : ¬ s.Dangling) :
    s.text.isEmpty = (s.len == 0) := by
  rw [← len_text h]
  cases s.text <;> rfl

theorem versionCompareRaw_eq (a b : TextField) :
    (¬ a.Dangling ∧ ¬ b.Dangling → versionCompareRaw a b = some (versionCompare a.text b.text)) ∧
      (a.Dangling ∨ b.Dangling → versionCompareRaw a b = some .undecidable) := by
  have hguard : ((a.isNull && a.len > 0) || (b.isNull && b.len > 0)) = true ↔
      a.Dangling ∨ b.Dangling := by
    simp only [TextField.Dangling, Bool.or_eq_true, Bool.and_eq_true, decide_eq_true_iff]
  constructor
  · intro ⟨ha, hb⟩
    rw [versionCompareRaw, if_neg fun h => (hguard.mp h).elim ha hb,
      TextField.readAll_of_not_dangling ha, TextField.readAll_of_not_dangling hb]
    rfl
  · intro h
    rw [versionCompareRaw, if_pos (hguard.mpr h)]

/-- The comparator is safe on its own. -/
theorem versionCompareRaw_isSome (a b : TextField) : (versionCompareRaw a b).isSome = true := by
  by_cases h : a.Dangling ∨ b.Dangling
  · rw [(versionCompareRaw_eq a b).2 h]
    rfl
  · rw [(versionCompareRaw_eq a b).1 (not_or.mp h)]
    rfl

theorem cpeIsStarRaw_eq (s : TextField) : cpeIsStarRaw s = some (cpeIsStar s.text) := by
  cases s with
  | null len => rfl
  | buf text =>
      match text with
      | [] => rfl
      | [c] =>
          show some (c == 0x2A) = some ([c] == [0x2A])
          rw [List.cons_beq_cons, List.beq_nil_eq]
          simp
      | c :: d :: cs =>
          simp [cpeIsStarRaw, cpeIsStar, TextField.isNull, TextField.len, TextField.text]

theorem sentinelLoop_buf (pre post : Bytes) :
    sentinelLoop (.buf (pre ++ post)) post.length pre.length =
      some (post.all fun c => c == 0x2A || c == 0x2D) := by
  induction post generalizing pre with
  | nil => rfl
  | cons c cs ih =>
      have hread : TextField.read (.buf (pre ++ c :: cs)) pre.length = some c := by
        show (pre ++ c :: cs)[pre.length]? = some c
        simp
      rw [List.length_cons, sentinelLoop, hread, List.all_cons]
      simp only
      have hrest := ih (pre ++ [c])
      rw [List.append_assoc, List.singleton_append, List.length_append, List.length_singleton]
        at hrest
      rw [hrest]
      by_cases hc : (c == 0x2A || c == 0x2D) = true
      · rw [hc, Bool.true_and, if_neg]
        simp only [Bool.and_eq_true, bne_iff_ne, not_and_or, not_not]
        simpa using hc
      · rw [Bool.not_eq_true _ |>.mp hc, Bool.false_and, if_pos]
        simpa using hc

/-- The test reads the first byte of anything with a length. -/
theorem cpeBoundIsSentinelOnlyRaw_eq (s : TextField) :
    (s.Dangling → cpeBoundIsSentinelOnlyRaw s = none) ∧
      (¬ s.Dangling → cpeBoundIsSentinelOnlyRaw s = some (cpeBoundIsSentinelOnly s.text)) := by
  cases s with
  | null len =>
      constructor
      · intro h
        obtain ⟨len, rfl⟩ := Nat.exists_eq_succ_of_ne_zero (Nat.ne_of_gt h.2)
        rfl
      · intro h
        obtain rfl : len = 0 := Nat.eq_zero_of_not_pos fun hpos => h ⟨rfl, hpos⟩
        rfl
  | buf text =>
      refine ⟨fun h => (nomatch h.1), fun _ => ?_⟩
      cases text with
      | nil => rfl
      | cons c cs => exact sentinelLoop_buf [] (c :: cs)

/-! ## The bounds -/

/-- Before every dangling bound stands one that is only sentinels, at which the
loop is left. -/
def Guarded (bounds : List (TextField × BoundKind)) : Prop :=
  ∀ before bound after, bounds = before ++ bound :: after → bound.1.Dangling →
    ∃ b ∈ before, cpeBoundIsSentinelOnly b.1.text = true

theorem guarded_cons (b : TextField × BoundKind) (rest : List (TextField × BoundKind)) :
    Guarded (b :: rest) ↔
      ¬ b.1.Dangling ∧ (cpeBoundIsSentinelOnly b.1.text = true ∨ Guarded rest) := by
  constructor
  · intro h
    refine ⟨fun hb => ?_, ?_⟩
    · obtain ⟨_, hmem, _⟩ := h [] b rest rfl hb
      cases hmem
    · by_cases hb : cpeBoundIsSentinelOnly b.1.text = true
      · exact .inl hb
      · refine .inr fun before bound after hsplit hbound => ?_
        obtain ⟨c, hc, hsentinel⟩ := h (b :: before) bound after (by rw [hsplit]; rfl) hbound
        rcases List.mem_cons.mp hc with rfl | hc
        · exact absurd hsentinel hb
        · exact ⟨c, hc, hsentinel⟩
  · intro ⟨hb, hrest⟩ before bound after hsplit hbound
    cases before with
    | nil =>
        obtain ⟨rfl, _⟩ := List.cons.inj hsplit
        exact absurd hbound hb
    | cons c before =>
        obtain ⟨rfl, htail⟩ := List.cons.inj hsplit
        rcases hrest with hsentinel | hrest
        · exact ⟨b, List.mem_cons_self, hsentinel⟩
        · obtain ⟨c, hc, hsentinel⟩ := hrest before bound after htail hbound
          exact ⟨c, List.mem_cons_of_mem _ hc, hsentinel⟩

theorem TextField.not_dangling_of_len {s : TextField} (h : s.len = 0) : ¬ s.Dangling :=
  fun hs => absurd hs.2 (by omega)

/-- One turn of the loop, on a bound that is not dangling. -/
theorem scanBoundsRaw_cons (detected : TextField) {bound : TextField} (kind : BoundKind)
    (rest : List (TextField × BoundKind)) (acc : BoundScan) (hbound : ¬ bound.Dangling)
    (hlen : bound.len ≠ 0) (hsentinel : cpeBoundIsSentinelOnly bound.text = false) :
    ∃ cmp acc', versionCompareRaw detected bound = some cmp ∧
      scanBoundsRaw detected ((bound, kind) :: rest) acc = scanBoundsRaw detected rest acc' ∧
      acc' = ⟨true, acc.anyFail || decide (cpeBoundVerdict kind cmp = .fail),
        acc.anyUndecidable || decide (cpeBoundVerdict kind cmp = .undecidable)⟩ := by
  obtain ⟨cmp, hcmp⟩ := Option.isSome_iff_exists.mp (versionCompareRaw_isSome detected bound)
  refine ⟨cmp, _, hcmp, ?_, rfl⟩
  rw [scanBoundsRaw, if_neg (by simpa using hlen), (cpeBoundIsSentinelOnlyRaw_eq bound).2 hbound,
    hsentinel]
  simp only [hcmp]
  cases cpeBoundVerdict kind cmp <;> simp

/-- The loop reads through a NULL pointer exactly at a bound that nothing
guards. -/
theorem scanBoundsRaw_isSome_iff (detected : TextField) (bounds : List (TextField × BoundKind))
    (acc : BoundScan) : (scanBoundsRaw detected bounds acc).isSome = true ↔ Guarded bounds := by
  induction bounds generalizing acc with
  | nil =>
      refine iff_of_true rfl fun before bound after hsplit => ?_
      simp at hsplit
  | cons b rest ih =>
      obtain ⟨bound, kind⟩ := b
      rw [guarded_cons]
      by_cases hlen : bound.len = 0
      · have hempty : cpeBoundIsSentinelOnly bound.text = false := by
          rw [cpeBoundIsSentinelOnly, List.isEmpty_iff.mpr]
          · rfl
          · rw [← List.length_eq_zero_iff,
              TextField.len_text (TextField.not_dangling_of_len hlen), hlen]
        rw [scanBoundsRaw, if_pos (beq_iff_eq.mpr hlen), ih, hempty]
        simp [TextField.not_dangling_of_len hlen]
      · by_cases hbound : bound.Dangling
        · rw [scanBoundsRaw, if_neg (by simpa using hlen),
            (cpeBoundIsSentinelOnlyRaw_eq bound).1 hbound]
          exact iff_of_false (by simp) fun h => h.1 hbound
        · cases hsentinel : cpeBoundIsSentinelOnly bound.text with
          | true =>
              rw [scanBoundsRaw, if_neg (by simpa using hlen),
                (cpeBoundIsSentinelOnlyRaw_eq bound).2 hbound, hsentinel]
              exact iff_of_true rfl ⟨hbound, .inl rfl⟩
          | false =>
              obtain ⟨_, acc', _, hstep, _⟩ := scanBoundsRaw_cons detected kind rest acc
                hbound hlen hsentinel
              rw [hstep, ih acc']
              simp [hbound]

/-! ## What a match rests on -/

theorem versionCompare_nil (b : Bytes) : versionCompare [] b = .undecidable := by
  rw [versionCompare]
  split
  · rfl
  · rfl

/-- A comparison that decides something is one of two texts that are there. -/
theorem versionCompareRaw_decided {a b : TextField} {cmp : Vercmp}
    (h : versionCompareRaw a b = some cmp) (hcmp : cmp ≠ .undecidable) (hb : b.len ≠ 0) :
    ∃ s t, a = .buf s ∧ b = .buf t ∧ versionCompare s t = cmp := by
  have hnone : ¬ (a.Dangling ∨ b.Dangling) := by
    intro hor
    rw [(versionCompareRaw_eq a b).2 hor, Option.some.injEq] at h
    exact hcmp h.symm
  have hadang := (not_or.mp hnone).1
  have hbdang := (not_or.mp hnone).2
  rw [(versionCompareRaw_eq a b).1 ⟨hadang, hbdang⟩, Option.some.injEq] at h
  cases b with
  | null len => exact absurd ⟨rfl, Nat.pos_of_ne_zero hb⟩ hbdang
  | buf t =>
      cases a with
      | null len =>
          rw [TextField.text, versionCompare_nil] at h
          exact absurd h.symm hcmp
      | buf s => exact ⟨s, t, rfl, rfl, h⟩

/-- A bound with a text that the detected version meets. -/
def BoundMet (detected : TextField) (bound : TextField × BoundKind) : Prop :=
  ∃ d b, detected = .buf d ∧ bound.1 = .buf b ∧
    cpeBoundVerdict bound.2 (versionCompare d b) = .pass

theorem scanBoundsRaw_met {detected : TextField} {bounds : List (TextField × BoundKind)}
    {acc done : BoundScan} (h : scanBoundsRaw detected bounds acc = some (some done))
    (hfail : done.anyFail = false) (hundecidable : done.anyUndecidable = false) :
    acc.anyFail = false ∧ acc.anyUndecidable = false ∧
      (∀ bound ∈ bounds, bound.1.len ≠ 0 → BoundMet detected bound) ∧
        (done.anySet = true → acc.anySet = true ∨ ∃ bound ∈ bounds, bound.1.len ≠ 0) := by
  induction bounds generalizing acc with
  | nil =>
      rw [scanBoundsRaw] at h
      cases h
      exact ⟨hfail, hundecidable, fun _ h => (nomatch h), .inl⟩
  | cons b rest ih =>
      obtain ⟨bound, kind⟩ := b
      by_cases hlen : bound.len = 0
      · rw [scanBoundsRaw, if_pos (beq_iff_eq.mpr hlen)] at h
        obtain ⟨hf, hu, hmet, hset⟩ := ih h
        refine ⟨hf, hu, ?_, fun hdone => (hset hdone).imp_right ?_⟩
        · intro c hc hne
          rcases List.mem_cons.mp hc with rfl | hc
          · exact absurd hlen hne
          · exact hmet c hc hne
        · intro ⟨c, hc, hne⟩
          exact ⟨c, List.mem_cons_of_mem _ hc, hne⟩
      · by_cases hbound : bound.Dangling
        · rw [scanBoundsRaw, if_neg (by simpa using hlen),
            (cpeBoundIsSentinelOnlyRaw_eq bound).1 hbound] at h
          cases h
        · cases hsentinel : cpeBoundIsSentinelOnly bound.text with
          | true =>
              rw [scanBoundsRaw, if_neg (by simpa using hlen),
                (cpeBoundIsSentinelOnlyRaw_eq bound).2 hbound, hsentinel] at h
              cases h
          | false =>
              obtain ⟨cmp, acc', hcmp, hstep, rfl⟩ := scanBoundsRaw_cons detected kind rest acc
                hbound hlen hsentinel
              rw [hstep] at h
              obtain ⟨hf, hu, hmet, -⟩ := ih h
              simp only [Bool.or_eq_false_iff, decide_eq_false_iff_not] at hf hu
              have hpass : cpeBoundVerdict kind cmp = .pass := by
                cases hv : cpeBoundVerdict kind cmp with
                | pass => rfl
                | fail => exact absurd hv hf.2
                | undecidable => exact absurd hv hu.2
              have hdecided : cmp ≠ .undecidable := by
                rintro rfl
                cases hpass
              obtain ⟨s, t, hs, ht, rfl⟩ := versionCompareRaw_decided hcmp hdecided hlen
              refine ⟨hf.1, hu.1, ?_, fun _ => .inr ⟨_, List.mem_cons_self, hlen⟩⟩
              intro c hc hne
              rcases List.mem_cons.mp hc with rfl | hc
              · exact ⟨s, t, hs, ht, hpass⟩
              · exact hmet c hc hne

/-! ## The evaluator -/

/-- The match comes from texts that are there: the pinned version, or every
bound that is set, with one at least. -/
def MatchedOnText (row : CpeMatchRowRaw) (detected : TextField) : Prop :=
  (∃ d v, detected = .buf d ∧ row.version = .buf v ∧ versionCompare d v = .equal) ∨
    ((∃ bound ∈ row.bounds, bound.1.len ≠ 0) ∧
      ∀ bound ∈ row.bounds, bound.1.len ≠ 0 → BoundMet detected bound)

/-- The evaluator answers, and a match is not on account of a NULL field. -/
def NullSafe (row : Option CpeMatchRowRaw) (detected : TextField) : Prop :=
  ∃ answer, cpeMatchEvaluateRaw row detected = some answer ∧
    (answer = .matched → ∃ r, row = some r ∧ MatchedOnText r detected)

/-- The row is judged by its bounds: its version is `*` or empty. -/
def CpeMatchRowRaw.IsRange (row : CpeMatchRowRaw) : Prop :=
  row.version = .buf [0x2A] ∨ row.version.len = 0

theorem CpeMatchRowRaw.isRange_iff (row : CpeMatchRowRaw) :
    (cpeIsStar row.version.text || row.version.len == 0) = true ↔ row.IsRange := by
  rw [IsRange, Bool.or_eq_true, beq_iff_eq, cpeIsStar, beq_iff_eq]
  refine or_congr_left ?_
  cases row.version with
  | null len => simp [TextField.text]
  | buf text => simp [TextField.text]

theorem cpeEvaluateRangeRowRaw_spec (row : CpeMatchRowRaw) (detected : TextField) :
    ((cpeEvaluateRangeRowRaw row detected).isSome = true ↔ Guarded row.bounds) ∧
      (cpeEvaluateRangeRowRaw row detected = some .matched → MatchedOnText row detected) := by
  have hguard := scanBoundsRaw_isSome_iff detected row.bounds ⟨false, false, false⟩
  rw [cpeEvaluateRangeRowRaw]
  cases hscan : scanBoundsRaw detected row.bounds ⟨false, false, false⟩ with
  | none =>
      rw [hscan] at hguard
      exact ⟨hguard, fun h => (nomatch h)⟩
  | some left =>
      rw [hscan] at hguard
      cases left with
      | none => exact ⟨iff_of_true rfl (hguard.mp rfl), fun h => (nomatch h)⟩
      | some done =>
          refine ⟨iff_of_true ?_ (hguard.mp rfl), fun h => ?_⟩
          · simp only
            split
            · rfl
            · split
              · rfl
              · split <;> rfl
          · simp only at h
            split at h
            · cases h
            · next hset =>
                split at h
                · cases h
                · next hfail =>
                    split at h
                    · cases h
                    · next hundecidable =>
                        obtain ⟨-, -, hmet, hsome⟩ := scanBoundsRaw_met hscan
                          (Bool.not_eq_true _ |>.mp hfail) (Bool.not_eq_true _ |>.mp hundecidable)
                        have hany : done.anySet = true := by simpa using hset
                        exact .inr ⟨(hsome hany).resolve_left (by decide), hmet⟩

theorem cpeMatchEvaluateRaw_range {row : CpeMatchRowRaw} (detected : TextField)
    (hvulnerable : row.vulnerable ≠ 0) (hrange : row.IsRange) :
    cpeMatchEvaluateRaw (some row) detected = cpeEvaluateRangeRowRaw row detected := by
  rw [cpeMatchEvaluateRaw, if_neg (by simpa using hvulnerable), cpeIsStarRaw_eq]
  exact if_pos ((row.isRange_iff).mpr hrange)

/-- A pinned version matches an equal one only. -/
theorem cpeMatchEvaluateRaw_pinned {row : CpeMatchRowRaw} {detected : TextField} {cmp : Vercmp}
    (hvulnerable : row.vulnerable ≠ 0) (hrange : ¬ row.IsRange)
    (hcmp : versionCompareRaw detected row.version = some cmp) :
    ∃ answer, cpeMatchEvaluateRaw (some row) detected = some answer ∧
      (answer = .matched → cmp = .equal) := by
  have hpinned : ¬ (cpeIsStar row.version.text || row.version.len == 0) = true := fun h =>
    hrange ((row.isRange_iff).mp h)
  rw [cpeMatchEvaluateRaw, if_neg (by simpa using hvulnerable), cpeIsStarRaw_eq,
    Option.bind_eq_bind, Option.bind_some, if_neg hpinned, hcmp, Option.bind_eq_bind,
    Option.bind_some]
  cases cmp with
  | equal => exact ⟨.matched, rfl, fun _ => rfl⟩
  | undecidable => exact ⟨.undecidable, rfl, fun h => by cases h⟩
  | less => exact ⟨.noMatch, rfl, fun h => by cases h⟩
  | greater => exact ⟨.noMatch, rfl, fun h => by cases h⟩

/-- An unguarded NULL bound of a vulnerable range row is the one thing that the
evaluator does not survive. -/
theorem cpeMatchEvaluateRaw_nullSafe_iff (row : Option CpeMatchRowRaw) (detected : TextField) :
    NullSafe row detected ↔
      ∀ r, row = some r → r.vulnerable ≠ 0 → r.IsRange → Guarded r.bounds := by
  cases row with
  | none => exact iff_of_true ⟨_, rfl, fun h => (nomatch h)⟩ fun _ h => (nomatch h)
  | some row =>
      by_cases hvulnerable : row.vulnerable = 0
      · refine iff_of_true ⟨.noMatch, ?_, fun h => (nomatch h)⟩ ?_
        · rw [cpeMatchEvaluateRaw, if_pos (beq_iff_eq.mpr hvulnerable)]
        · rintro _ ⟨⟩ hne
          exact absurd hvulnerable hne
      by_cases hrange : row.IsRange
      · have heval := cpeMatchEvaluateRaw_range detected hvulnerable hrange
        obtain ⟨hsome, hmatched⟩ := cpeEvaluateRangeRowRaw_spec row detected
        constructor
        · rintro ⟨answer, hanswer, -⟩ _ ⟨⟩ - -
          rw [heval] at hanswer
          exact hsome.mp (by rw [hanswer]; rfl)
        · intro hguarded
          obtain ⟨answer, hanswer⟩ :=
            Option.isSome_iff_exists.mp (hsome.mpr (hguarded row rfl hvulnerable hrange))
          refine ⟨answer, heval.trans hanswer, ?_⟩
          rintro rfl
          exact ⟨row, rfl, hmatched hanswer⟩
      · obtain ⟨cmp, hcmp⟩ := Option.isSome_iff_exists.mp
          (versionCompareRaw_isSome detected row.version)
        have hlen : row.version.len ≠ 0 := fun h => hrange (.inr h)
        refine iff_of_true ?_ fun r hr _ hisRange => ?_
        · obtain ⟨answer, heval, hequal⟩ := cpeMatchEvaluateRaw_pinned hvulnerable hrange hcmp
          refine ⟨answer, heval, fun hmatched => ?_⟩
          obtain rfl := hequal hmatched
          obtain ⟨d, v, hd, hv, heq⟩ := versionCompareRaw_decided hcmp (by decide) hlen
          exact ⟨row, rfl, .inl ⟨d, v, hd, hv, heq⟩⟩
        · cases hr
          exact absurd hisRange hrange

/-- A lower bound that is NULL with a length of one. -/
def nullBoundRow : CpeMatchRowRaw :=
  ⟨.buf [0x2A], .null 1, .null 0, .null 0, .null 0, 1⟩

theorem cpeMatchEvaluateRaw_nullBound :
    ¬ ∀ row detected, NullSafe row detected := by
  intro h
  obtain ⟨answer, hanswer, -⟩ := h (some nullBoundRow) (.buf (ascii "1.0"))
  have hnone : cpeMatchEvaluateRaw (some nullBoundRow) (.buf (ascii "1.0")) = none := by decide
  rw [hnone] at hanswer
  cases hanswer

/-! ## Rows as callers build them -/

/-- A NULL pointer goes with length zero in every field. -/
structure CpeMatchRowRaw.Whole (row : CpeMatchRowRaw) : Prop where
  version : ¬ row.version.Dangling
  bounds : ∀ bound ∈ row.bounds, ¬ bound.1.Dangling

theorem scanBoundsRaw_eq {detected : TextField} (hdetected : ¬ detected.Dangling)
    {bounds : List (TextField × BoundKind)} (hbounds : ∀ bound ∈ bounds, ¬ bound.1.Dangling)
    (acc : BoundScan) :
    scanBoundsRaw detected bounds acc =
      some (scanBounds detected.text (bounds.map fun bound => (bound.1.text, bound.2)) acc) := by
  induction bounds generalizing acc with
  | nil => rfl
  | cons b rest ih =>
      obtain ⟨bound, kind⟩ := b
      have hbound : ¬ bound.Dangling := hbounds _ List.mem_cons_self
      have hrest := ih fun c hc => hbounds c (List.mem_cons_of_mem _ hc)
      rw [List.map_cons, scanBoundsRaw, scanBounds, (cpeBoundIsSentinelOnlyRaw_eq bound).2 hbound,
        (versionCompareRaw_eq detected bound).1 ⟨hdetected, hbound⟩,
        TextField.isEmpty_text hbound]
      split
      · exact hrest acc
      · cases cpeBoundIsSentinelOnly bound.text with
        | true => rfl
        | false =>
            simp only [Bool.false_eq_true, if_false]
            cases cpeBoundVerdict kind (versionCompare detected.text bound.text) with
            | pass => exact hrest _
            | fail => exact hrest _
            | undecidable => exact hrest _

/-- On such rows the evaluator is the one on byte strings. -/
theorem cpeMatchEvaluateRaw_eq {row : CpeMatchRowRaw} {detected : TextField} (hrow : row.Whole)
    (hdetected : ¬ detected.Dangling) :
    cpeMatchEvaluateRaw (some row) detected =
      some (cpeMatchEvaluate row.toRow detected.text) := by
  rw [cpeMatchEvaluateRaw, cpeMatchEvaluate, cpeIsStarRaw_eq,
    (versionCompareRaw_eq detected row.version).1 ⟨hdetected, hrow.version⟩]
  have hrange : row.toRow.isRange = (cpeIsStar row.version.text || row.version.len == 0) := by
    rw [← TextField.isEmpty_text hrow.version]
    rfl
  show (if row.vulnerable == 0 then _ else _) = some (if row.vulnerable == 0 then _ else _)
  split
  · rfl
  rw [hrange]
  simp only [Option.bind_eq_bind, Option.bind_some]
  split
  · have hbounds : row.bounds.map (fun bound => (bound.1.text, bound.2)) = row.toRow.bounds := rfl
    rw [cpeEvaluateRangeRowRaw, scanBoundsRaw_eq hdetected hrow.bounds, cpeEvaluateRangeRow,
      hbounds]
    cases scanBounds detected.text row.toRow.bounds ⟨false, false, false⟩ with
    | none => rfl
    | some acc =>
        simp only
        split
        · rfl
        · split
          · rfl
          · split <;> rfl
  · have htext : row.toRow.version = row.version.text := rfl
    rw [htext]
    cases versionCompare detected.text row.version.text <;> rfl

end Cytadel.Match
