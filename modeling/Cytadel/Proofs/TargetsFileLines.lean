import Cytadel.Lib.AllBytes
import Cytadel.Net.TargetsFile

/-!
# What is read of a targets file

The file is its pieces between newlines, the last of which has none behind it.
The loop reads the pieces one by one, and a successful read gives their
entries. Two things go by without an error: a read error, which looks like the
end of the file, and a NUL in the last piece, which ends the C string early.
-/

namespace Cytadel.Net

open Cytadel

/-- A line cut at its first `#`, with the whitespace at both ends taken off. -/
def lineText (line : Bytes) : Bytes := trimSpaces (line.takeWhile fun c => c != 0x23)

/-- What a file with these lines asks for: their texts, without the blank ones. -/
def entriesOf (lines : List Bytes) : List Bytes := (lines.map lineText).filter fun t => !t.isEmpty

/-! ## One line -/

theorem trimSpaces_append {u v : Bytes} (hv : ∀ c ∈ v, isSpace c = true) :
    trimSpaces (u ++ v) = trimSpaces u := by
  have hback : ∀ w : Bytes, (v.reverse ++ w).dropWhile isSpace = w.dropWhile isSpace := by
    intro w
    rw [List.dropWhile_append, List.dropWhile_eq_nil_iff.mpr]
    · rfl
    · exact fun c hc => hv c (List.mem_reverse.mp hc)
  rw [trimSpaces, trimSpaces, List.dropWhile_append]
  split
  · next hblank =>
      rw [List.isEmpty_iff.mp hblank, List.dropWhile_eq_nil_iff.mpr hv]
  · rw [List.reverse_append, hback]

/-- The line ends that are taken off first are whitespace anyway. -/
theorem trimLine_eq (line : Bytes) : trimLine line = lineText line := by
  have hends : ∀ c : UInt8, (c == 0x0A || c == 0x0D) = true → isSpace c = true ∧ c ≠ 0x23 := by
    intro c hc
    rcases Bool.or_eq_true _ _ |>.mp hc with hc | hc
    · rw [beq_iff_eq.mp hc]
      decide
    · rw [beq_iff_eq.mp hc]
      decide
  have hsplit : ∃ body ends, line = body ++ ends ∧ (∀ c ∈ ends, isSpace c = true ∧ c ≠ 0x23) ∧
      trimLine line = lineText body := by
    refine ⟨(line.reverse.dropWhile fun c => c == 0x0A || c == 0x0D).reverse,
      (line.reverse.takeWhile fun c => c == 0x0A || c == 0x0D).reverse, ?_, ?_, rfl⟩
    · rw [← List.reverse_append, List.takeWhile_append_dropWhile, List.reverse_reverse]
    · intro c hc
      have hmem := List.mem_takeWhile_imp (List.mem_reverse.mp hc)
      exact hends c hmem
  obtain ⟨body, ends, hline, hspaces, htrim⟩ := hsplit
  have hwhole : (ends.takeWhile fun c => c != 0x23) = ends :=
    List.takeWhile_eq_self_iff.mpr fun c hc => bne_iff_ne.mpr (hspaces c hc).2
  rw [htrim, hline, lineText, lineText, List.takeWhile_append]
  split
  · next hbody =>
      have hself : (body.takeWhile fun c => c != 0x23) = body :=
        (List.takeWhile_prefix _).eq_of_length hbody
      rw [hself, hwhole, trimSpaces_append fun c hc => (hspaces c hc).1]
  · rfl

/-- The newline behind a line is not of its text. -/
theorem lineText_newline (line : Bytes) : lineText (line ++ [0x0A]) = lineText line := by
  rw [lineText, lineText, List.takeWhile_append]
  split
  · next hline =>
      have hself : (line.takeWhile fun c => c != 0x23) = line :=
        (List.takeWhile_prefix _).eq_of_length hline
      have hblank := Lib.forall_mem_of_all (p := fun c => isSpace c = true)
        (s := [0x0A].takeWhile fun c => c != 0x23) (by decide)
      rw [hself, trimSpaces_append hblank]
  · rfl

theorem mem_of_mem_cstr {c : UInt8} {s : Bytes} (h : c ∈ cstr s) : c ∈ s :=
  (List.takeWhile_prefix _).subset h

/-- What stands behind the first NUL is not of the C string. -/
theorem cstr_append_of_mem {s t : Bytes} (h : 0 ∈ s) : cstr (s ++ t) = cstr s := by
  rw [cstr, List.takeWhile_append, if_neg]
  · rfl
  · intro hlen
    have hself : cstr s = s := (List.takeWhile_prefix _).eq_of_length hlen
    exact cstr_eq_self_iff.mp hself h

theorem mem_dropWhile_isSpace {c : UInt8} {s : Bytes} (hc : isSpace c = false) :
    c ∈ s.dropWhile isSpace ↔ c ∈ s := by
  refine ⟨fun h => (List.dropWhile_suffix _).subset h, fun h => ?_⟩
  rw [← List.takeWhile_append_dropWhile (p := isSpace) (l := s), List.mem_append] at h
  rcases h with h | h
  · have hspace := List.mem_takeWhile_imp h
    rw [hc] at hspace
    cases hspace
  · exact h

theorem zero_mem_lineText {line : Bytes} :
    0 ∈ lineText line ↔ 0 ∈ line.takeWhile fun c => c != 0x23 := by
  rw [lineText, trimSpaces, List.mem_reverse, mem_dropWhile_isSpace (by decide), List.mem_reverse,
    mem_dropWhile_isSpace (by decide)]

theorem takeWhile_cstr (line : Bytes) :
    ((cstr line).takeWhile fun c => c != 0x23) = cstr (line.takeWhile fun c => c != 0x23) := by
  rw [cstr, cstr, List.takeWhile_takeWhile, List.takeWhile_takeWhile]
  congr 1
  funext c
  exact decide_eq_decide.mpr and_comm

/-- A NUL counts where it stands before the comment. -/
theorem entriesOf_cstr_iff {line : Bytes} :
    entriesOf [cstr line] = entriesOf [line] ↔ 0 ∉ line.takeWhile fun c => c != 0x23 := by
  constructor
  · intro h hnul
    have hin : 0 ∈ lineText line := zero_mem_lineText.mpr hnul
    have hnonblank : (lineText line).isEmpty = false :=
      List.isEmpty_eq_false_iff.mpr (List.ne_nil_of_mem hin)
    have hmem : lineText line ∈ entriesOf [cstr line] := by
      rw [h]
      exact List.mem_filter.mpr ⟨List.mem_singleton_self _, by rw [hnonblank]; rfl⟩
    have hsame := List.mem_singleton.mp (List.mem_of_mem_filter hmem)
    rw [hsame, zero_mem_lineText, takeWhile_cstr] at hin
    exact zero_not_mem_cstr _ hin
  · intro hnul
    have htext : lineText (cstr line) = lineText line := by
      rw [lineText, takeWhile_cstr, cstr_eq_self_iff.mpr hnul, lineText]
    rw [entriesOf, entriesOf, List.map_singleton, List.map_singleton, htext]

/-! ## One call of `fgets` -/

theorem fgetsChunk_terminated {room : ℕ} {line : Bytes} (rest : Bytes) (hline : 0x0A ∉ line)
    (hroom : line.length < room) : fgetsChunk room (line ++ 0x0A :: rest) = line ++ [0x0A] := by
  induction line generalizing room with
  | nil =>
      obtain ⟨room, rfl⟩ := Nat.exists_eq_succ_of_ne_zero (Nat.ne_of_gt hroom)
      rfl
  | cons c cs ih =>
      obtain ⟨room, rfl⟩ := Nat.exists_eq_succ_of_ne_zero (Nat.ne_of_gt (Nat.zero_lt_of_lt hroom))
      rw [List.mem_cons, not_or] at hline
      rw [List.cons_append, fgetsChunk, if_neg (by simpa using Ne.symm hline.1),
        ih hline.2 (Nat.lt_of_succ_lt_succ hroom)]
      rfl

/-- Without a newline in reach the call fills its buffer or runs into the end
of the file. -/
theorem fgetsChunk_take {room : ℕ} {stream : Bytes} (h : 0x0A ∉ stream.take room) :
    fgetsChunk room stream = stream.take room := by
  induction room generalizing stream with
  | zero => rfl
  | succ room ih =>
      cases stream with
      | nil => rfl
      | cons c cs =>
          rw [List.take_succ_cons, List.mem_cons, not_or] at h
          rw [fgetsChunk, if_neg (by simpa using Ne.symm h.1), ih h.2, List.take_succ_cons]

/-! ## The loop, line by line -/

/-- The lines read so far with one more entry, and the memory that it took. -/
def FileLines.push (st : FileLines) (text : Bytes) : FileLines :=
  if st.lines.length == st.capacity then
    ⟨st.lines ++ [text], if st.capacity = 0 then 16 else st.capacity * 2, st.calls + 2⟩
  else ⟨st.lines ++ [text], st.capacity, st.calls + 1⟩

/-- The lines after a call of `fgets` whose line has this text. -/
def FileLines.after (st : FileLines) (text : Bytes) : FileLines :=
  if text.isEmpty then { st with calls := st.calls + 1 }
  else { st with calls := st.calls + 1 }.push text

/-- There is room and memory for the text of a line. -/
def Stored (env : NetEnv) (st : FileLines) (text : Bytes) : Prop :=
  text ≠ [] → st.lines.length < targetsFileMaxLines ∧ env.alloc (st.calls + 1) = false ∧
    (st.lines.length = st.capacity → env.alloc (st.calls + 2) = false)

/-- The C string of a chunk shows where its line ends, or the call ran into the
end of the file. -/
def EndSeen (chunk : Bytes) : Prop :=
  (cstr chunk).getLast? = some 0x0A ∨
    (chunk.length < targetsFileLineMax ∧ chunk.getLast? ≠ some 0x0A)

section

variable {env : NetEnv} {path : Bytes} {fuel : ℕ} {stream chunk : Bytes} {st : FileLines}

theorem readLines_readError (h : env.readError st.calls = true) :
    readLines env path (fuel + 1) stream st = .ok st := by
  rw [readLines, if_pos (by rw [h]; rfl)]

theorem readLines_nil : readLines env path fuel [] st = .ok st := by
  cases fuel with
  | zero => rfl
  | succ fuel =>
      rw [readLines, if_pos]
      show (env.readError st.calls || true) = true
      exact Bool.or_true _

/-- A call that reads something, without an error. -/
theorem readLines_chunk (hchunk : fgetsChunk targetsFileLineMax stream = chunk)
    (hne : chunk ≠ []) (hread : env.readError st.calls = false) :
    (¬ EndSeen chunk → ∃ e, readLines env path (fuel + 1) stream st = .error e) ∧
      (EndSeen chunk → ¬ Stored env st (lineText (cstr chunk)) →
        ∃ e, readLines env path (fuel + 1) stream st = .error e) ∧
      (EndSeen chunk → Stored env st (lineText (cstr chunk)) →
        readLines env path (fuel + 1) stream st =
          readLines env path fuel (stream.drop chunk.length)
            (st.after (lineText (cstr chunk)))) := by
  subst hchunk
  have hempty : (fgetsChunk targetsFileLineMax stream).isEmpty = false := by
    rw [Bool.eq_false_iff, Ne, List.isEmpty_iff]
    exact hne
  have hend : ((cstr (fgetsChunk targetsFileLineMax stream)).getLast? != some 0x0A &&
      !(decide ((fgetsChunk targetsFileLineMax stream).length < targetsFileLineMax) &&
        (fgetsChunk targetsFileLineMax stream).getLast? != some 0x0A)) = true ↔
      ¬ EndSeen (fgetsChunk targetsFileLineMax stream) := by
    simp only [EndSeen, Bool.and_eq_true, bne_iff_ne, Bool.not_eq_true', Bool.and_eq_false_iff,
      decide_eq_false_iff_not, bne_eq_false_iff_eq, not_or, not_and_or, not_not]
  simp only [readLines, hread, hempty, Bool.or_false, Bool.false_eq_true, if_false, trimLine_eq]
  generalize lineText (cstr (fgetsChunk targetsFileLineMax stream)) = text
  refine ⟨fun h => ⟨_, if_pos (hend.mpr h)⟩, fun h hstored => ?_, fun h hstored => ?_⟩
  · rw [if_neg fun hlong => hend.mp hlong h]
    by_cases htext : text = []
    · exact absurd (fun hne => absurd htext hne) hstored
    rw [if_neg fun hblank => htext (List.isEmpty_iff.mp hblank)]
    rw [Stored, not_forall] at hstored
    obtain ⟨-, hstored⟩ := hstored
    split
    · exact ⟨_, rfl⟩
    next hroom =>
    by_cases hfull : st.lines.length = st.capacity
    · simp only [beq_iff_eq.mpr hfull, Bool.true_and, if_true]
      by_cases hgrow : env.alloc (st.calls + 1) = true
      · exact ⟨_, if_pos hgrow⟩
      · have hcopy : env.alloc (st.calls + 1 + 1) = true := by
          by_contra hcopy
          exact hstored ⟨Nat.not_le.mp hroom, Bool.eq_false_iff.mpr hgrow,
            fun _ => Bool.eq_false_iff.mpr hcopy⟩
        rw [if_neg hgrow, if_pos hcopy]
        exact ⟨_, rfl⟩
    · simp only [beq_eq_false_iff_ne.mpr hfull, Bool.false_and, Bool.false_eq_true, if_false]
      refine ⟨_, if_pos (Bool.of_not_eq_false fun hcopy => ?_)⟩
      exact hstored ⟨Nat.not_le.mp hroom, hcopy, fun h => absurd h hfull⟩
  · rw [if_neg fun hlong => hend.mp hlong h, FileLines.after]
    split
    · rfl
    next htext =>
    obtain ⟨hroom, hfirst, hsecond⟩ := hstored fun hnil => htext (List.isEmpty_iff.mpr hnil)
    rw [if_neg (Nat.not_le.mpr hroom), hfirst, FileLines.push, Bool.and_false]
    by_cases hfull : st.lines.length = st.capacity
    · simp only [beq_iff_eq.mpr hfull, if_true, Bool.false_eq_true, if_false]
      rw [if_neg (by rw [hsecond hfull]; exact Bool.false_ne_true)]
    · simp only [beq_eq_false_iff_ne.mpr hfull, Bool.false_eq_true, if_false]
      rw [if_neg (by rw [hfirst]; exact Bool.false_ne_true)]

/-- A piece that is too long for the buffer. -/
theorem not_endSeen_long {line tail : Bytes} (hfree : 0x0A ∉ line)
    (hlong : targetsFileLineMax ≤ line.length) :
    ¬ EndSeen (fgetsChunk targetsFileLineMax (line ++ tail)) := by
  have htake : (line ++ tail).take targetsFileLineMax = line.take targetsFileLineMax :=
    List.take_append_of_le_length hlong
  have hnone : 0x0A ∉ line.take targetsFileLineMax := fun h => hfree (List.mem_of_mem_take h)
  rw [fgetsChunk_take (by rw [htake]; exact hnone), htake]
  intro h
  cases h with
  | inl hend => exact hnone (mem_of_mem_cstr (List.mem_of_getLast? hend))
  | inr hshort =>
      have hlen := hshort.1
      rw [List.length_take, Nat.min_eq_left hlong] at hlen
      exact Nat.lt_irrefl _ hlen

/-- A piece with a newline behind it and a NUL within. -/
theorem not_endSeen_nul {line rest : Bytes} (hfree : 0x0A ∉ line) (hnul : 0 ∈ line)
    (hshort : line.length < targetsFileLineMax) :
    ¬ EndSeen (fgetsChunk targetsFileLineMax (line ++ 0x0A :: rest)) := by
  rw [fgetsChunk_terminated rest hfree hshort]
  have hcut : cstr (line ++ [0x0A]) = cstr line := cstr_append_of_mem hnul
  intro h
  cases h with
  | inl hend =>
      rw [hcut] at hend
      exact hfree (mem_of_mem_cstr (List.mem_of_getLast? hend))
  | inr hopen => exact hopen.2 List.getLast?_concat

theorem readLines_long {line tail : Bytes} (hfree : 0x0A ∉ line)
    (hlong : targetsFileLineMax ≤ line.length) (hread : env.readError st.calls = false) :
    ∃ e, readLines env path (fuel + 1) (line ++ tail) st = .error e := by
  refine (readLines_chunk rfl ?_ hread).1 (not_endSeen_long hfree hlong)
  cases line with
  | nil => exact absurd hlong (by decide)
  | cons c cs =>
      rw [List.cons_append, targetsFileLineMax, fgetsChunk]
      split <;> exact List.cons_ne_nil _ _

theorem readLines_nul {line rest : Bytes} (hfree : 0x0A ∉ line) (hnul : 0 ∈ line)
    (hshort : line.length < targetsFileLineMax) (hread : env.readError st.calls = false) :
    ∃ e, readLines env path (fuel + 1) (line ++ 0x0A :: rest) st = .error e := by
  refine (readLines_chunk rfl ?_ hread).1 (not_endSeen_nul hfree hnul hshort)
  rw [fgetsChunk_terminated rest hfree hshort]
  exact List.concat_ne_nil _ _

/-- A piece with a newline behind it that is read as it stands. -/
theorem readLines_line {line rest : Bytes} (hfree : 0x0A ∉ line) (hnul : 0 ∉ line)
    (hshort : line.length < targetsFileLineMax) (hread : env.readError st.calls = false) :
    (¬ Stored env st (lineText line) →
        ∃ e, readLines env path (fuel + 1) (line ++ 0x0A :: rest) st = .error e) ∧
      (Stored env st (lineText line) →
        readLines env path (fuel + 1) (line ++ 0x0A :: rest) st =
          readLines env path fuel rest (st.after (lineText line))) := by
  have hcstr : cstr (line ++ [0x0A]) = line ++ [0x0A] := by
    refine cstr_eq_self_iff.mpr fun h => ?_
    rcases List.mem_append.mp h with h | h
    · exact hnul h
    · exact absurd h (by decide)
  have hseen : EndSeen (line ++ [0x0A]) := .inl (by rw [hcstr]; exact List.getLast?_concat)
  have hchunk := @readLines_chunk env path fuel _ _ st (fgetsChunk_terminated rest hfree hshort)
    (List.concat_ne_nil _ _) hread
  have hdrop : (line ++ 0x0A :: rest).drop (line ++ [0x0A]).length = rest := by
    rw [List.append_cons line 0x0A rest, List.drop_left' rfl]
  rw [hcstr, lineText_newline, hdrop] at hchunk
  exact ⟨hchunk.2.1 hseen, hchunk.2.2 hseen⟩

/-- A last piece that fits the buffer, up to its first NUL. -/
theorem readLines_last {line : Bytes} (hfree : 0x0A ∉ line) (hne : line ≠ [])
    (hshort : line.length < targetsFileLineMax) (hread : env.readError st.calls = false) :
    (¬ Stored env st (lineText (cstr line)) →
        ∃ e, readLines env path (fuel + 1) line st = .error e) ∧
      (Stored env st (lineText (cstr line)) →
        readLines env path (fuel + 1) line st = .ok (st.after (lineText (cstr line)))) := by
  have htake : line.take targetsFileLineMax = line := List.take_of_length_le (Nat.le_of_lt hshort)
  have hchunk : fgetsChunk targetsFileLineMax line = line := by
    rw [fgetsChunk_take (by rw [htake]; exact hfree), htake]
  have hseen : EndSeen line :=
    .inr ⟨hshort, fun h => hfree (List.mem_of_getLast? h)⟩
  have hturn := @readLines_chunk env path fuel _ _ st hchunk hne hread
  refine ⟨hturn.2.1 hseen, fun hstored => ?_⟩
  rw [hturn.2.2 hseen hstored, List.drop_length, readLines_nil]

/-! ## What goes by without an error -/

/-- This line is read in full, and its text is kept. -/
structure LineRead (env : NetEnv) (st : FileLines) (line : Bytes) : Prop where
  noError : env.readError st.calls = false
  short : line.length < targetsFileLineMax
  noNul : 0 ∉ line
  stored : Stored env st (lineText line)

/-- These lines are read in full, one after the other. -/
def ReadThrough (env : NetEnv) : FileLines → List Bytes → Prop
  | _, [] => True
  | st, line :: rest => LineRead env st line ∧ ReadThrough env (st.after (lineText line)) rest

/-- The next call takes the rest of the file for less than it is: it meets a
read error before an entry or a line that is too long, or it reads a last line
that has a NUL before its comment. -/
def LostAt (env : NetEnv) (st : FileLines) (rest : List Bytes) : Prop :=
  (env.readError st.calls = true ∧
      (entriesOf rest ≠ [] ∨ ∃ line ∈ rest, targetsFileLineMax - 1 < line.length)) ∨
    ∃ line, rest = [line] ∧ env.readError st.calls = false ∧
      line.length < targetsFileLineMax ∧ (0 ∈ line.takeWhile fun c => c != 0x23) ∧
      Stored env st (lineText (cstr line))

/-- Behind lines that are read in full something is lost. -/
def LostUnseen (env : NetEnv) (st : FileLines) (lines : List Bytes) : Prop :=
  ∃ front rest, lines = front ++ rest ∧ ReadThrough env st front ∧
    LostAt env (front.foldl (fun st line => st.after (lineText line)) st) rest

/-- The reading gives all entries, or an error; an error where a line is too
long or the entries are too many. -/
structure ReadsAll {ε : Type} (start : List Bytes) (lines : List Bytes)
    (result : Except ε FileLines) : Prop where
  entries : ∀ st, result = .ok st → st.lines = start ++ entriesOf lines
  tooLong : (∃ line ∈ lines, targetsFileLineMax - 1 < line.length) → ∃ e, result = .error e
  tooMany : targetsFileMaxLines < start.length + (entriesOf lines).length →
    ∃ e, result = .error e

theorem entriesOf_cons (line : Bytes) (rest : List Bytes) :
    entriesOf (line :: rest) = entriesOf [line] ++ entriesOf rest := by
  rw [entriesOf, List.map_cons, ← List.singleton_append, List.filter_append]
  rfl

theorem FileLines.after_lines (st : FileLines) (line : Bytes) :
    (st.after (lineText line)).lines = st.lines ++ entriesOf [line] := by
  rw [FileLines.after, entriesOf, List.map_singleton, List.filter_singleton]
  split
  · next hblank =>
      rw [hblank]
      exact (List.append_nil _).symm
  · next htext =>
      rw [Bool.eq_false_iff.mpr htext, FileLines.push]
      split <;> rfl

theorem Stored.after_le {line : Bytes} (h : Stored env st (lineText line))
    (hle : st.lines.length ≤ targetsFileMaxLines) :
    (st.after (lineText line)).lines.length ≤ targetsFileMaxLines := by
  rw [FileLines.after_lines, List.length_append, entriesOf, List.map_singleton,
    List.filter_singleton]
  cases htext : (lineText line).isEmpty with
  | true => exact hle
  | false => exact (h (List.isEmpty_eq_false_iff.mp htext)).1

theorem lostUnseen_cons {line : Bytes} {rest : List Bytes} :
    LostUnseen env st (line :: rest) ↔
      LostAt env st (line :: rest) ∨
        (LineRead env st line ∧ LostUnseen env (st.after (lineText line)) rest) := by
  constructor
  · intro h
    obtain ⟨front, tail, hlines, hread, hlost⟩ := h
    cases front with
    | nil =>
        rw [List.nil_append] at hlines
        rw [hlines]
        exact .inl hlost
    | cons first front =>
        obtain ⟨rfl, rfl⟩ := List.cons.inj hlines
        exact .inr ⟨hread.1, front, tail, rfl, hread.2, hlost⟩
  · intro h
    cases h with
    | inl hlost => exact ⟨[], line :: rest, rfl, trivial, hlost⟩
    | inr h =>
        obtain ⟨hline, front, tail, rfl, hread, hlost⟩ := h
        exact ⟨line :: front, tail, rfl, ⟨hline, hread⟩, hlost⟩

theorem not_lostUnseen_nil : ¬ LostUnseen env st [] := by
  intro h
  obtain ⟨front, rest, hlines, -, hlost⟩ := h
  obtain ⟨rfl, rfl⟩ := List.append_eq_nil_iff.mp hlines.symm
  rcases hlost with ⟨-, hentries | ⟨line, hline, -⟩⟩ | ⟨line, hline, -⟩
  · exact hentries rfl
  · cases hline
  · cases hline

theorem readsAll_of_error {start lines : List Bytes}
    {result : Except (TargetsFileError × Bytes) FileLines} (h : ∃ e, result = .error e) :
    ReadsAll start lines result := by
  refine ⟨fun st hok => ?_, fun _ => h, fun _ => h⟩
  obtain ⟨e, he⟩ := h
  rw [he] at hok
  cases hok

/-- What a line that is read in full leaves to be read. -/
theorem readsAll_cons {line : Bytes} {rest : List Bytes}
    {result : Except (TargetsFileError × Bytes) FileLines}
    (hshort : line.length < targetsFileLineMax) :
    ReadsAll st.lines (line :: rest) result ↔
      ReadsAll (st.after (lineText line)).lines rest result := by
  have hall : st.lines ++ entriesOf (line :: rest) =
      (st.after (lineText line)).lines ++ entriesOf rest := by
    rw [entriesOf_cons, FileLines.after_lines, List.append_assoc]
  have hcount : st.lines.length + (entriesOf (line :: rest)).length =
      (st.after (lineText line)).lines.length + (entriesOf rest).length := by
    rw [← List.length_append, hall, List.length_append]
  have hlong : (∃ l ∈ line :: rest, targetsFileLineMax - 1 < l.length) ↔
      ∃ l ∈ rest, targetsFileLineMax - 1 < l.length := by
    rw [List.exists_mem_cons_iff, or_iff_right]
    omega
  constructor
  · intro h
    exact ⟨hall ▸ h.entries, fun hl => h.tooLong (hlong.mpr hl), hcount ▸ h.tooMany⟩
  · intro h
    exact ⟨hall.symm ▸ h.entries, fun hl => h.tooLong (hlong.mp hl), hcount.symm ▸ h.tooMany⟩

/-- A result that stops here is right when nothing is left to be read. -/
theorem readsAll_ok_iff {start : List Bytes} {lines : List Bytes} {done : FileLines} :
    ReadsAll (ε := TargetsFileError × Bytes) start lines (.ok done) ↔
      done.lines = start ++ entriesOf lines ∧
        (¬ ∃ line ∈ lines, targetsFileLineMax - 1 < line.length) ∧
        start.length + (entriesOf lines).length ≤ targetsFileMaxLines := by
  constructor
  · intro h
    refine ⟨h.entries done rfl, fun hlong => ?_, Nat.not_lt.mp fun hmany => ?_⟩
    · obtain ⟨e, he⟩ := h.tooLong hlong
      cases he
    · obtain ⟨e, he⟩ := h.tooMany hmany
      cases he
  · intro h
    obtain ⟨hentries, hshort, hfew⟩ := h
    refine ⟨fun st hst => ?_, fun hlong => absurd hlong hshort,
      fun hmany => absurd hfew (Nat.not_le.mpr hmany)⟩
    injection hst with hst
    rw [← hst, hentries]

/-- The call that meets a read error. -/
theorem readLines_readError_iff {lines : List Bytes} (hread : env.readError st.calls = true)
    (hle : st.lines.length ≤ targetsFileMaxLines) :
    ReadsAll st.lines lines (readLines env path (fuel + 1) stream st) ↔
      ¬ LostUnseen env st lines := by
  rw [readLines_readError hread, readsAll_ok_iff]
  have hlost : LostUnseen env st lines ↔
      entriesOf lines ≠ [] ∨ ∃ line ∈ lines, targetsFileLineMax - 1 < line.length := by
    constructor
    · intro h
      obtain ⟨front, rest, rfl, hthrough, hlost⟩ := h
      cases front with
      | nil =>
          rcases hlost with h | ⟨-, -, hnone, -⟩
          · exact h.2
          · rw [List.foldl_nil, hread] at hnone
            cases hnone
      | cons line front =>
          have hnone := hthrough.1.noError
          rw [hread] at hnone
          cases hnone
    · intro h
      exact ⟨[], lines, rfl, trivial, .inl ⟨hread, h⟩⟩
  rw [hlost, not_or, not_not]
  constructor
  · intro h
    exact ⟨List.self_eq_append_right.mp h.1, h.2.1⟩
  · intro h
    rw [h.1, List.append_nil]
    exact ⟨rfl, h.2, hle⟩

/-- The last piece, which has no newline behind it. -/
theorem readLines_last_iff {line : Bytes} (hfree : 0x0A ∉ line)
    (hread : env.readError st.calls = false) (hle : st.lines.length ≤ targetsFileMaxLines) :
    ReadsAll st.lines [line] (readLines env path (fuel + 1) line st) ↔
      ¬ LostUnseen env st [line] := by
  have hlost : LostUnseen env st [line] ↔ line.length < targetsFileLineMax ∧
      (0 ∈ line.takeWhile fun c => c != 0x23) ∧ Stored env st (lineText (cstr line)) := by
    rw [lostUnseen_cons, or_iff_left fun h => not_lostUnseen_nil h.2]
    constructor
    · intro h
      rcases h with ⟨herror, -⟩ | ⟨last, hlast, -, hlost⟩
      · rw [hread] at herror
        cases herror
      · obtain ⟨rfl, -⟩ := List.cons.inj hlast
        exact hlost
    · intro h
      exact .inr ⟨line, rfl, hread, h⟩
  rw [hlost]
  by_cases hshort : line.length < targetsFileLineMax
  · by_cases hne : line = []
    · subst hne
      rw [readLines_nil, readsAll_ok_iff]
      refine ⟨fun _ h => absurd h.2.1 List.not_mem_nil,
        fun _ => ⟨(List.append_nil _).symm, ?_, hle⟩⟩
      intro hlong
      obtain ⟨l, hl, hlong⟩ := hlong
      rw [List.mem_singleton.mp hl] at hlong
      exact Nat.not_lt_zero _ hlong
    obtain ⟨herror, hok⟩ := @readLines_last env path fuel st line hfree hne hshort hread
    by_cases hstored : Stored env st (lineText (cstr line))
    · rw [hok hstored, readsAll_ok_iff, FileLines.after_lines, List.append_cancel_left_eq,
        entriesOf_cstr_iff]
      refine ⟨fun h hnul => h.1 hnul.2.1, fun h => ?_⟩
      have hnul : 0 ∉ line.takeWhile fun c => c != 0x23 := fun hin => h ⟨hshort, hin, hstored⟩
      refine ⟨hnul, fun hlong => ?_, ?_⟩
      · obtain ⟨l, hl, hlong⟩ := hlong
        rw [List.mem_singleton.mp hl] at hlong
        omega
      · rw [← entriesOf_cstr_iff.mpr hnul, ← List.length_append, ← FileLines.after_lines]
        exact hstored.after_le hle
    · exact iff_of_true (readsAll_of_error (herror hstored)) fun h => hstored h.2.2
  · have herror := @readLines_long env path fuel st line [] hfree (Nat.not_lt.mp hshort) hread
    rw [List.append_nil] at herror
    exact iff_of_true (readsAll_of_error herror) fun h => hshort h.1

/-- The loop reads all of the stream, or fails, unless something is lost. -/
theorem readLines_all_iff (hfuel : stream.length < fuel)
    (hle : st.lines.length ≤ targetsFileMaxLines) :
    ReadsAll st.lines (stream.splitOn 0x0A) (readLines env path fuel stream st) ↔
      ¬ LostUnseen env st (stream.splitOn 0x0A) := by
  induction fuel generalizing stream st with
  | zero => exact absurd hfuel (Nat.not_lt_zero _)
  | succ fuel ih =>
      cases hread : env.readError st.calls with
      | true => exact readLines_readError_iff hread hle
      | false =>
      by_cases hnewline : 0x0A ∈ stream
      · obtain ⟨line, rest, rfl, hfree⟩ := List.eq_append_cons_of_mem hnewline
        rw [List.splitOn_append_cons_self_of_not_mem hfree, lostUnseen_cons, or_iff_right]
        · by_cases hgood : line.length < targetsFileLineMax ∧ 0 ∉ line
          · obtain ⟨herror, hnext⟩ := @readLines_line env path fuel st line rest hfree hgood.2
              hgood.1 hread
            by_cases hstored : Stored env st (lineText line)
            · have hline : LineRead env st line := ⟨hread, hgood.1, hgood.2, hstored⟩
              rw [hnext hstored, readsAll_cons hgood.1, and_iff_right hline]
              refine ih ?_ (hstored.after_le hle)
              rw [List.length_append, List.length_cons] at hfuel
              omega
            · exact iff_of_true (readsAll_of_error (herror hstored)) fun h => hstored h.1.stored
          · refine iff_of_true (readsAll_of_error ?_) fun h => hgood ⟨h.1.short, h.1.noNul⟩
            by_cases hshort : line.length < targetsFileLineMax
            · refine readLines_nul hfree ?_ hshort hread
              by_contra hnul
              exact hgood ⟨hshort, hnul⟩
            · exact readLines_long hfree (Nat.not_lt.mp hshort) hread
        -- nothing is lost at this call: it meets no read error, and there are lines behind
        · intro h
          rcases h with ⟨herror, -⟩ | ⟨last, hlast, -⟩
          · rw [hread] at herror
            cases herror
          · exact List.splitOn_ne_nil _ _ (List.cons.inj hlast).2
      · rw [List.splitOn_eq_singleton hnewline]
        exact readLines_last_iff hnewline hread hle

end

/-- A file of two lines, the second call of `fgets` for which meets a read error. -/
def halfReadFile : NetEnv :=
  { alloc := fun _ => false
    readError := fun k => k == 3
    getaddrinfo := fun _ _ => .ok []
    openFile := fun _ => .ok (ascii "10.0.0.1\n10.0.0.2\n") }

/-- The targets are those of the whole file, or there is an error, unless a read
error or a NUL in the last line takes something away unseen. -/
theorem targetsFileRead_all_iff {env : NetEnv} {errLen calls : ℕ} {path content : Bytes}
    (hpath : path ≠ []) (hfile : env.openFile path = .ok content) :
    ReadsAll [] (content.splitOn 0x0A) (targetsFileRead env errLen path calls) ↔
      ¬ LostUnseen env ⟨[], 0, calls⟩ (content.splitOn 0x0A) := by
  rw [targetsFileRead, if_neg fun h => hpath (List.isEmpty_iff.mp h), hfile]
  have hloop := @readLines_all_iff env path _ content ⟨[], 0, calls⟩
    (Nat.lt_succ_self content.length) (Nat.zero_le _)
  rw [← hloop]
  simp only
  generalize readLines env path (content.length + 1) content ⟨[], 0, calls⟩ = result
  cases result with
  | ok st => exact readsAll_ok_iff.trans readsAll_ok_iff.symm
  | error e =>
      exact iff_of_true (readsAll_of_error ⟨_, rfl⟩) (readsAll_of_error ⟨e, rfl⟩)

theorem targetsFileRead_all_iff_cut :
    ReadsAll [] ((ascii "10.0.0.1\n10.0.0.2\n").splitOn 0x0A)
        (targetsFileRead halfReadFile 256 (ascii "t") 0) ↔
      ¬ LostUnseen halfReadFile ⟨[], 0, 0⟩ ((ascii "10.0.0.1\n10.0.0.2\n").splitOn 0x0A) :=
  targetsFileRead_all_iff (by decide) rfl

/-- A file of one line, without a newline and with a NUL in it. -/
def nulFile : NetEnv :=
  { alloc := fun _ => false
    readError := fun _ => false
    getaddrinfo := fun _ _ => .ok []
    openFile := fun _ => .ok (ascii "10.0.0.1" ++ [0] ++ ascii ".example.com") }

/-- In both cases the target is `10.0.0.1`, and nothing is said of the rest. -/
theorem targetsFileRead_lost :
    (targetsFileRead halfReadFile 256 (ascii "t") 0 = .ok ⟨[ascii "10.0.0.1"], 16, 3⟩ ∧
      ¬ ReadsAll [] ((ascii "10.0.0.1\n10.0.0.2\n").splitOn 0x0A)
        (targetsFileRead halfReadFile 256 (ascii "t") 0)) ∧
    targetsFileRead nulFile 256 (ascii "t") 0 = .ok ⟨[ascii "10.0.0.1"], 16, 3⟩ ∧
      ¬ ReadsAll [] ((ascii "10.0.0.1" ++ [0] ++ ascii ".example.com").splitOn 0x0A)
        (targetsFileRead nulFile 256 (ascii "t") 0) := by
  have hhalf : targetsFileRead halfReadFile 256 (ascii "t") 0 =
      .ok ⟨[ascii "10.0.0.1"], 16, 3⟩ := rfl
  have hnul : targetsFileRead nulFile 256 (ascii "t") 0 =
      .ok ⟨[ascii "10.0.0.1"], 16, 3⟩ := rfl
  refine ⟨⟨hhalf, fun h => ?_⟩, hnul, fun h => ?_⟩
  · exact absurd (h.entries _ hhalf) (by decide)
  · exact absurd (h.entries _ hnul) (by decide)

end Cytadel.Net
