import Mathlib.Data.List.Forall2
import Cytadel.Lib.AllBytes
import Cytadel.Net.HttpProbe
import Cytadel.Plugin.ApiHttp

/-!
# The two readers of an HTTP response

The reference cuts the buffer at its newlines. The first line has the status,
the lines up to the first empty one are the headers, and what stands behind
that one is the body. Both parsers read this, and neither reads past the end.
-/

namespace Cytadel.Net

open Cytadel Lib Plugin

/-- A line without the carriage return at its end. -/
def stripCr (line : Bytes) : Bytes :=
  if line.getLast? = some 0x0D then line.dropLast else line

/-- The number that the first three bytes tell, -1 if they are not digits. -/
def threeDigits : Bytes → ℤ
  | d0 :: d1 :: d2 :: _ =>
      if isDigitByte d0 && isDigitByte d1 && isDigitByte d2 then
        ((d0.toNat - 0x30) * 100 + (d1.toNat - 0x30) * 10 + (d2.toNat - 0x30) : ℕ)
      else -1
  | _ => -1

/-- The status that a first line tells, behind its first space. -/
def lineStatus (line : Bytes) : ℤ :=
  if line.take 5 = ascii "HTTP/" then threeDigits (line.dropWhile fun c => c != 0x20).tail
  else -1

/-- The name and the value of a line, if it holds a `:`. -/
def headerOf (line : Bytes) : Option (Bytes × Bytes) :=
  match line.dropWhile fun c => c != 0x3A with
  | [] => none
  | _ :: value => some (line.takeWhile (fun c => c != 0x3A), value.dropWhile isSpaceOrTab)

/-- The headers among some lines: those up to the first empty one. -/
def headersOf (lines : List Bytes) : List (Bytes × Bytes) :=
  ((lines.map stripCr).takeWhile fun line => !line.isEmpty).filterMap headerOf

/-- What stands behind the first empty line. -/
def bodyOf (lines : List Bytes) : Bytes :=
  [0x0A].intercalate ((lines.dropWhile fun line => !(stripCr line).isEmpty).tail)

/-- The reference: status, headers and body of a response. -/
structure HttpResponse where
  status : ℤ
  headers : List (Bytes × Bytes)
  body : Bytes

def httpResponse (buf : Bytes) : HttpResponse :=
  let lines := buf.splitOn 0x0A
  { status := lineStatus (lines.headD [])
    headers := headersOf lines.tail
    body := bodyOf lines.tail }

/-- The first index at which a tag stands, whatever the case of its letters. -/
def tagIndex (tag : Bytes) : Bytes → Option ℕ
  | [] => none
  | c :: cs =>
      if ((c :: cs).take tag.length).map toLowerAscii = tag then some 0
      else (tagIndex tag cs).map (· + 1)

/-- What stands between the first `<title>` and the next `</title>`. -/
def titleOf (body : Bytes) : Bytes :=
  match tagIndex (ascii "<title>") body with
  | none => []
  | some i =>
      match tagIndex (ascii "</title>") (body.drop (i + 7)) with
      | none => []
      | some j => ((body.drop (i + 7)).take j).take (probeTextMax - 1)

/-- Is the name `Server`, whatever the case of its letters? -/
def isServer (header : Bytes × Bytes) : Bool := header.1.map toLowerAscii == ascii "server"

/-- The value of the last `Server` header, as far as the buffer holds it. -/
def serverOf (headers : List (Bytes × Bytes)) : Bytes :=
  match (headers.filter isServer).getLast? with
  | none => []
  | some header => header.2.take (probeTextMax - 1)

/-! ## Cutting at newlines -/

/-- The first line and what stands behind it. -/
theorem eq_line_append (s : Bytes) : ∃ line tail, s = line ++ tail ∧ 0x0A ∉ line ∧
    (tail = [] ∧ s.splitOn 0x0A = [line] ∨
      ∃ rest, tail = 0x0A :: rest ∧ s.splitOn 0x0A = line :: rest.splitOn 0x0A) := by
  by_cases h : 0x0A ∈ s
  · obtain ⟨line, rest, rfl, hline⟩ := List.eq_append_cons_of_mem h
    exact ⟨line, 0x0A :: rest, rfl, hline,
      .inr ⟨rest, rfl, List.splitOn_append_cons_self_of_not_mem hline rest⟩⟩
  · exact ⟨s, [], (List.append_nil s).symm, h, .inl ⟨rfl, List.splitOn_eq_singleton h⟩⟩

/-! ## The status line -/

theorem threeDigits_short {t : Bytes} (h : t.length < 3) : threeDigits t = -1 := by
  match t with
  | [] => rfl
  | [d0] => rfl
  | [d0, d1] => rfl
  | d0 :: d1 :: d2 :: rest =>
      simp only [List.length_cons] at h
      omega

theorem statusDigits_eq (pre tail : Bytes) :
    statusDigits (pre ++ tail) pre.length = some (threeDigits tail) := by
  have hread : ∀ k, (pre ++ tail)[pre.length + k]? = tail[k]? := by
    intro k
    rw [List.getElem?_append_right (Nat.le_add_right _ _), Nat.add_sub_cancel_left]
  rw [statusDigits, List.length_append]
  split
  · next h =>
      have h0 := hread 0
      rw [Nat.add_zero] at h0
      rw [h0, hread 1, hread 2]
      match tail with
      | [] => exact absurd h (by simp)
      | [d0] => exact absurd h (by simp)
      | [d0, d1] => exact absurd h (by simp)
      | d0 :: d1 :: d2 :: rest =>
          show (if (isDigitByte d0 && isDigitByte d1 && isDigitByte d2) = true then _ else _) = _
          rw [threeDigits]
          split <;> rfl
  · next h => rw [threeDigits_short (by omega)]

/-- A newline among the three bytes spoils the number, so they may be taken from
the whole buffer. -/
theorem threeDigits_line (t : Bytes) :
    threeDigits (t.takeWhile fun c => c != 0x0A) = threeDigits t := by
  have hnl : isDigitByte 0x0A = false := by decide
  match t with
  | [] => rfl
  | [d0] => exact threeDigits_short ((List.takeWhile_prefix _).length_le.trans_lt (by simp))
  | [d0, d1] => exact threeDigits_short ((List.takeWhile_prefix _).length_le.trans_lt (by simp))
  | d0 :: d1 :: d2 :: rest =>
      by_cases h0 : d0 = 0x0A
      · simp [h0, threeDigits, hnl]
      by_cases h1 : d1 = 0x0A
      · simp [h0, h1, threeDigits, hnl]
      by_cases h2 : d2 = 0x0A
      · simp [h0, h1, h2, threeDigits, hnl]
      · simp [h0, h1, h2, threeDigits]

theorem splitOn_headD (s : Bytes) : (s.splitOn 0x0A).headD [] = s.takeWhile fun c => c != 0x0A := by
  obtain ⟨line, tail, rfl, hline, ⟨rfl, hsplit⟩ | ⟨rest, rfl, hsplit⟩⟩ := eq_line_append s
  · rw [hsplit, List.append_nil, List.takeWhile_eq_self_iff.mpr]
    · rfl
    · intro c hc
      exact bne_iff_ne.mpr fun h => hline (h ▸ hc)
  · rw [hsplit, List.takeWhile_append_of_pos]
    · exact (List.append_nil line).symm
    · intro c hc
      exact bne_iff_ne.mpr fun h => hline (h ▸ hc)

/-- The scan for the first space, and what it finds behind `HTTP/`. -/
theorem statusLine_http {run tail : Bytes} (hrun : ∀ c ∈ run, c ≠ 0x20 ∧ c ≠ 0x0A)
    (htail : ∀ c ∈ tail.head?, c = 0x20 ∨ c = 0x0A) :
    statusLine (ascii "HTTP/" ++ (run ++ tail)) =
      some (if tail.head? = some 0x20 then threeDigits tail.tail else -1) := by
  have hscan : ∀ c ∈ run, (c != 0x20 && c != 0x0A) = true := by
    intro c hc
    rw [Bool.and_eq_true, bne_iff_ne, bne_iff_ne]
    exact hrun c hc
  have hmagic : readSlice (ascii "HTTP/" ++ (run ++ tail)) 0 5 = some (ascii "HTTP/") :=
    readSlice_here [] (ascii "HTTP/") (run ++ tail)
  have hfive : (ascii "HTTP/").length = 5 := rfl
  have hlen : (ascii "HTTP/" ++ (run ++ tail)).length = 5 + run.length + tail.length := by
    rw [List.length_append, List.length_append, hfive, Nat.add_assoc]
  rw [statusLine, if_pos (by omega), hmagic, Option.bind_eq_bind, Option.bind_some,
    if_neg (by decide)]
  cases tail with
  | nil =>
      have hall := @scanWhile_all _ (ascii "HTTP/") run [] _ hscan
      rw [hfive] at hall
      rw [hlen, List.length_nil, Nat.add_zero, Nat.add_sub_cancel_left, hall, Option.bind_eq_bind,
        Option.bind_some, if_neg (Nat.lt_irrefl _)]
      rfl
  | cons c t =>
      have hc := htail c rfl
      have hstop : (c != 0x20 && c != 0x0A) = false := by
        rcases hc with rfl | rfl <;> rfl
      have hfind := @scanWhile_stop _ (ascii "HTTP/") run t _ c
        ((ascii "HTTP/" ++ (run ++ c :: t)).length - 5) hscan hstop
        (by rw [hlen, List.length_cons]; omega)
      have hsplit : ascii "HTTP/" ++ (run ++ c :: t) = (ascii "HTTP/" ++ run) ++ c :: t :=
        (List.append_assoc _ _ _).symm
      have hhere := getElem?_here (ascii "HTTP/" ++ run) t c
      rw [← hsplit, List.length_append, hfive] at hhere
      rw [hfive] at hfind
      rw [hfind, Option.bind_eq_bind, Option.bind_some,
        if_pos (by rw [hlen, List.length_cons]; exact Nat.lt_add_of_pos_right (Nat.succ_pos _)),
        hhere, Option.bind_eq_bind, Option.bind_some]
      rcases hc with rfl | rfl
      · have hdigits := statusDigits_eq (ascii "HTTP/" ++ run ++ [0x20]) t
        rw [List.length_append, List.length_append, hfive, List.append_assoc, List.append_assoc]
          at hdigits
        exact hdigits
      · rfl

theorem statusLine_eq (buf : Bytes) :
    statusLine buf = some (lineStatus ((buf.splitOn 0x0A).headD [])) := by
  rw [splitOn_headD, lineStatus]
  have hmagic : (buf.takeWhile fun c => c != 0x0A).take 5 = ascii "HTTP/" ↔
      ∃ rest, buf = ascii "HTTP/" ++ rest := by
    constructor
    · intro h
      have hprefix : ascii "HTTP/" <+: buf := by
        rw [← h]
        exact (List.take_prefix _ _).trans (List.takeWhile_prefix _)
      obtain ⟨rest, hrest⟩ := hprefix
      exact ⟨rest, hrest.symm⟩
    · intro h
      obtain ⟨rest, rfl⟩ := h
      rw [List.takeWhile_append_of_pos (Lib.forall_mem_of_all (by decide))]
      exact List.take_left' rfl
  by_cases h : ∃ rest, buf = ascii "HTTP/" ++ rest
  · rw [if_pos (hmagic.mpr h)]
    obtain ⟨rest, rfl⟩ := h
    obtain ⟨run, tail, rfl, hrun, htail⟩ : ∃ run tail, rest = run ++ tail ∧
        (∀ c ∈ run, c ≠ 0x20 ∧ c ≠ 0x0A) ∧ ∀ c ∈ tail.head?, c = 0x20 ∨ c = 0x0A := by
      refine ⟨rest.takeWhile fun c => c != 0x20 && c != 0x0A,
        rest.dropWhile fun c => c != 0x20 && c != 0x0A,
        List.takeWhile_append_dropWhile.symm, fun c hc => ?_, fun c hc => ?_⟩
      · have hq := List.mem_takeWhile_imp hc
        rw [Bool.and_eq_true, bne_iff_ne, bne_iff_ne] at hq
        exact hq
      · have hq := List.head?_dropWhile_not (fun c => c != 0x20 && c != 0x0A) rest
        rw [Option.mem_def.mp hc] at hq
        simpa [or_iff_not_imp_left] using hq
    have hhttp : ∀ c ∈ ascii "HTTP/", c ≠ 0x20 ∧ c ≠ 0x0A :=
      Lib.forall_mem_of_all (by decide)
    have hfree : ∀ c ∈ ascii "HTTP/" ++ run, c ≠ 0x20 ∧ c ≠ 0x0A := by
      intro c hc
      rcases List.mem_append.mp hc with hc | hc
      · exact hhttp c hc
      · exact hrun c hc
    rw [statusLine_http hrun htail, ← List.append_assoc,
      List.takeWhile_append_of_pos fun c hc => bne_iff_ne.mpr (hfree c hc).2,
      List.dropWhile_append_of_pos fun c hc => bne_iff_ne.mpr (hfree c hc).1]
    cases tail with
    | nil => rfl
    | cons c t =>
        rcases htail c rfl with rfl | rfl
        · exact congrArg some (threeDigits_line t).symm
        · rfl
  · rw [if_neg fun hline => h (hmagic.mp hline), statusLine]
    split
    · next hlen =>
        rw [readSlice, if_pos (by omega), List.drop_zero]
        refine if_pos (bne_iff_ne.mpr fun htake => h ⟨buf.drop 5, ?_⟩)
        rw [← htake, List.take_append_drop]
    · rfl

/-! ## One header line -/

/-- The end of the line, and where the next one starts. -/
theorem lineEnd_eq {pre line tail : Bytes} (hline : 0x0A ∉ line)
    (htail : tail = [] ∨ ∃ rest, tail = 0x0A :: rest) :
    scanWhile (pre ++ (line ++ tail)) (fun c => c != 0x0A)
      ((pre ++ (line ++ tail)).length - pre.length) pre.length =
        some (pre.length + line.length) := by
  have hrun : ∀ c ∈ line, (c != 0x0A) = true := fun c hc => bne_iff_ne.mpr fun h => hline (h ▸ hc)
  rw [List.length_append, Nat.add_sub_cancel_left, List.length_append]
  rcases htail with rfl | ⟨rest, rfl⟩
  · exact scanWhile_all hrun
  · exact scanWhile_stop hrun rfl (by rw [List.length_cons]; omega)

theorem statusLineEnd_eq {line tail : Bytes} (hline : 0x0A ∉ line)
    (htail : tail = [] ∨ ∃ rest, tail = 0x0A :: rest) :
    statusLineEnd (line ++ tail) = some (line.length + min tail.length 1) := by
  have hend := @lineEnd_eq [] line tail hline htail
  rw [List.nil_append, List.length_nil, Nat.sub_zero, Nat.zero_add] at hend
  rw [statusLineEnd, hend, Option.bind_eq_bind, Option.bind_some, List.length_append]
  rcases htail with rfl | ⟨rest, rfl⟩
  · exact congrArg some (if_neg (Nat.lt_irrefl _))
  · rw [List.length_cons, if_pos (by omega), Nat.min_eq_right (Nat.succ_pos _)]

theorem contentEnd_eq (pre line tail : Bytes) :
    contentEnd (pre ++ (line ++ tail)) pre.length (pre.length + line.length) =
      some (pre.length + (stripCr line).length) := by
  rcases List.eq_nil_or_concat' line with rfl | ⟨body, c, rfl⟩
  · exact if_neg (Nat.lt_irrefl _)
  · have hread : (pre ++ (body ++ [c] ++ tail))[pre.length + body.length]? = some c := by
      have hhere := getElem?_here (pre ++ body) tail c
      rw [List.length_append] at hhere
      rw [← hhere]
      simp only [List.append_assoc, List.singleton_append]
    rw [contentEnd, stripCr, List.getLast?_concat, List.dropLast_concat, List.length_append,
      List.length_singleton, if_pos (by omega), ← Nat.add_assoc, Nat.add_sub_cancel, hread,
      Option.bind_eq_bind, Option.bind_some]
    by_cases hc : c = 0x0D
    · rw [if_pos (beq_iff_eq.mpr hc), if_pos (congrArg some hc)]
    · rw [if_neg fun h => hc (beq_iff_eq.mp h), if_neg fun h => hc (Option.some.inj h),
        List.length_append]
      rfl

/-- What is left of a line is a part of it that a newline is not of either. -/
theorem stripCr_append (line : Bytes) : ∃ cr, line = stripCr line ++ cr := by
  rw [stripCr]
  split
  · next h => exact ⟨[0x0D], (List.dropLast_append_getLast? 0x0D h).symm⟩
  · exact ⟨[], (List.append_nil line).symm⟩

theorem valueStart_eq (pre name value tail : Bytes) :
    valueStart (pre ++ (name ++ 0x3A :: value ++ tail)) (pre.length + name.length)
        (pre.length + (name ++ 0x3A :: value).length) =
      some (pre.length + (name.length + 1) +
        (value.takeWhile isSpaceOrTab).length) := by
  have hbuf : pre ++ (name ++ 0x3A :: value ++ tail) =
      (pre ++ (name ++ [0x3A])) ++ (value ++ tail) := by
    simp only [List.append_assoc, List.cons_append, List.nil_append]
  have hpre : (pre ++ (name ++ [0x3A])).length = pre.length + (name.length + 1) := by
    rw [List.length_append, List.length_append, List.length_singleton]
  have hrange : pre.length + (name ++ 0x3A :: value).length - (pre.length + name.length + 1) =
      value.length := by
    rw [List.length_append, List.length_cons]
    omega
  rw [valueStart, hrange, hbuf, Nat.add_assoc, ← hpre]
  have hblank : ∀ c ∈ value.takeWhile isSpaceOrTab, isSpaceOrTab c = true :=
    fun c hc => List.mem_takeWhile_imp hc
  have hsplit := List.takeWhile_append_dropWhile (p := isSpaceOrTab) (l := value)
  cases h : value.dropWhile isSpaceOrTab with
  | nil =>
      rw [h, List.append_nil] at hsplit
      rw [hsplit] at hblank ⊢
      exact scanWhile_all hblank
  | cons c text =>
      have hc := List.head?_dropWhile_not isSpaceOrTab value
      rw [h] at hc hsplit
      have hlen := congrArg List.length hsplit
      rw [List.length_append, List.length_cons] at hlen
      have hwhole : value ++ tail =
          (value.takeWhile isSpaceOrTab) ++ c :: (text ++ tail) := by
        conv_lhs => rw [← hsplit]
        rw [List.append_assoc, List.cons_append]
      rw [hwhole]
      exact scanWhile_stop hblank hc (by omega)

/-! ## The loop over the header lines -/

section

variable {σ τ : Type} {buf pre rest : Bytes} {fuel : ℕ} {st : σ} {t : τ}
  {onHeader : σ → ℕ → ℕ → ℕ → Option σ} {R : σ → τ → Prop} {f : τ → Bytes → τ}

/-- What is collected over the lines up to the first empty one. -/
def collect (f : τ → Bytes → τ) (t : τ) (lines : List Bytes) : τ :=
  ((lines.map stripCr).takeWhile fun line => !line.isEmpty).foldl f t

/-- `onHeader` does what `f` does, on every line of the buffer that holds a `:`. -/
def Follows (buf : Bytes) (onHeader : σ → ℕ → ℕ → ℕ → Option σ) (R : σ → τ → Prop)
    (f : τ → Bytes → τ) : Prop :=
  ∀ ⦃pre name value tail : Bytes⦄ ⦃st : σ⦄ ⦃t : τ⦄,
    buf = pre ++ (name ++ 0x3A :: value ++ tail) → 0x3A ∉ name → R st t →
      ∃ st', onHeader st pre.length (pre.length + name.length)
          (pre.length + (name ++ 0x3A :: value).length) = some st' ∧
        R st' (f t (name ++ 0x3A :: value))

theorem collect_cons_empty {line : Bytes} {lines : List Bytes} (h : stripCr line = []) :
    collect f t (line :: lines) = t := by
  rw [collect, List.map_cons, h]
  rfl

theorem collect_cons {line : Bytes} {lines : List Bytes} (h : stripCr line ≠ []) :
    collect f t (line :: lines) = collect f (f t (stripCr line)) lines := by
  have hne : (!(stripCr line).isEmpty) = true := by
    rw [List.isEmpty_eq_false_iff.mpr h]
    rfl
  rw [collect, collect, List.map_cons, List.takeWhile_cons, if_pos hne, List.foldl_cons]

theorem bodyOf_cons_empty {line : Bytes} {lines : List Bytes} (h : stripCr line = []) :
    bodyOf (line :: lines) = [0x0A].intercalate lines := by
  rw [bodyOf, List.dropWhile_cons_of_neg (by rw [h]; decide)]
  rfl

theorem bodyOf_cons {line : Bytes} {lines : List Bytes} (h : stripCr line ≠ []) :
    bodyOf (line :: lines) = bodyOf lines := by
  have hne : (!(stripCr line).isEmpty) = true := by
    rw [List.isEmpty_eq_false_iff.mpr h]
    rfl
  rw [bodyOf, List.dropWhile_cons, if_pos hne, bodyOf]

/-- One line that is not empty. -/
theorem headerLine_step (hfollows : Follows buf onHeader R f)
    (hskip : ∀ t line, 0x3A ∉ line → f t line = t) {line tail : Bytes}
    (hbuf : buf = pre ++ (line ++ tail)) (hR : R st t) :
    ∃ st', (do
        let colon ← scanWhile buf (fun c => c != 0x3A) line.length pre.length
        if colon < pre.length + line.length then
          onHeader st pre.length colon (pre.length + line.length)
        else some st) = some st' ∧ R st' (f t line) := by
  by_cases hcolon : 0x3A ∈ line
  · obtain ⟨name, value, rfl, hname⟩ := List.eq_append_cons_of_mem hcolon
    have hrun : ∀ c ∈ name, (c != 0x3A) = true :=
      fun c hc => bne_iff_ne.mpr fun h => hname (h ▸ hc)
    have hscan := @scanWhile_stop _ pre name (value ++ tail) _ 0x3A
      (name ++ 0x3A :: value).length hrun rfl
      (by rw [List.length_append, List.length_cons]; omega)
    obtain ⟨st', hst', hR'⟩ := hfollows hbuf hname hR
    refine ⟨st', ?_, hR'⟩
    rw [← hst', hbuf, List.append_assoc, List.cons_append, hscan, Option.bind_eq_bind,
      Option.bind_some, if_pos]
    rw [List.length_append, List.length_cons]
    omega
  · have hrun : ∀ c ∈ line, (c != 0x3A) = true :=
      fun c hc => bne_iff_ne.mpr fun h => hcolon (h ▸ hc)
    rw [hskip t line hcolon, hbuf, scanWhile_all hrun, Option.bind_eq_bind, Option.bind_some,
      if_neg (Nat.lt_irrefl _)]
    exact ⟨st, rfl, hR⟩

/-- A turn of the loop: the line, and where it goes on. -/
theorem headerLoop_turn (hfollows : Follows buf onHeader R f)
    (hskip : ∀ t line, 0x3A ∉ line → f t line = t) {line tail : Bytes} (hline : 0x0A ∉ line)
    (htail : tail = [] ∨ ∃ rest, tail = 0x0A :: rest) (hne : line ++ tail ≠ [])
    (hbuf : buf = pre ++ (line ++ tail)) (hR : R st t) :
    (stripCr line = [] →
      headerLoop buf onHeader (fuel + 1) pre.length st =
        some (st, some (pre.length + line.length + min tail.length 1))) ∧
    (stripCr line ≠ [] → ∃ st', R st' (f t (stripCr line)) ∧
      headerLoop buf onHeader (fuel + 1) pre.length st =
        headerLoop buf onHeader fuel (pre.length + line.length + min tail.length 1) st') := by
  have hlen : buf.length = pre.length + line.length + tail.length := by
    rw [hbuf, List.length_append, List.length_append, Nat.add_assoc]
  have hmore : pre.length < buf.length := by
    have hpos := List.length_pos_iff.mpr hne
    rw [List.length_append] at hpos
    omega
  have hend := @lineEnd_eq pre line tail hline htail
  have hnext : (if pre.length + line.length < buf.length then pre.length + line.length + 1
      else pre.length + line.length) = pre.length + line.length + min tail.length 1 := by
    rw [hlen]
    rcases htail with rfl | ⟨rest, rfl⟩
    · exact if_neg (Nat.lt_irrefl _)
    · rw [List.length_cons, if_pos (by omega), Nat.min_eq_right (Nat.succ_pos _)]
  have hstop := contentEnd_eq pre line tail
  rw [← hbuf] at hend hstop
  rw [headerLoop, if_pos hmore, hend, Option.bind_eq_bind, Option.bind_some]
  simp only [hnext, hstop, Option.bind_eq_bind, Option.bind_some]
  constructor
  · intro hblank
    rw [hblank, List.length_nil, Nat.add_zero, if_pos (beq_self_eq_true _)]
  · intro htext
    have hpos := List.length_pos_iff.mpr htext
    obtain ⟨cr, hcr⟩ := stripCr_append line
    have hinner : buf = pre ++ (stripCr line ++ (cr ++ tail)) := by
      rw [← List.append_assoc (stripCr line), ← hcr]
      exact hbuf
    obtain ⟨st', hst', hR'⟩ := headerLine_step hfollows hskip hinner hR
    refine ⟨st', hR', ?_⟩
    rw [if_neg (by rw [beq_iff_eq]; omega), Nat.add_sub_cancel_left]
    obtain ⟨colon, hscan, hst'⟩ := Option.bind_eq_some_iff.mp hst'
    rw [hscan, Option.bind_some]
    split at hst'
    · next hcolon => rw [if_pos hcolon, hst', Option.bind_some]
    · next hcolon =>
        injection hst' with hst'
        rw [if_neg hcolon, hst']

/-- The loop collects what the lines before the first empty one hold, and stops
where the body starts. -/
theorem headerLoop_eq (hfollows : Follows buf onHeader R f)
    (hskip : ∀ t line, 0x3A ∉ line → f t line = t) (hfuel : rest.length ≤ fuel)
    (hbuf : buf = pre ++ rest) (hR : R st t) :
    ∃ st' blank before, headerLoop buf onHeader fuel pre.length st = some (st', blank) ∧
      R st' (collect f t (rest.splitOn 0x0A)) ∧ blank.getD buf.length = before.length ∧
      buf = before ++ bodyOf (rest.splitOn 0x0A) := by
  induction fuel generalizing pre rest st t with
  | zero =>
      obtain rfl := List.length_eq_zero_iff.mp (Nat.le_zero.mp hfuel)
      exact ⟨st, none, buf, rfl, hR, rfl, (List.append_nil buf).symm⟩
  | succ fuel ih =>
      by_cases hrest : rest = []
      · subst hrest
        rw [headerLoop, if_neg (by rw [hbuf, List.append_nil]; exact Nat.lt_irrefl _)]
        exact ⟨st, none, buf, rfl, hR, rfl, (List.append_nil buf).symm⟩
      obtain ⟨line, tail, rfl, hline, hsplit⟩ := eq_line_append rest
      rw [List.length_append] at hfuel
      have htail : tail = [] ∨ ∃ rest, tail = 0x0A :: rest := by
        rcases hsplit with ⟨h, -⟩ | ⟨rest, h, -⟩
        · exact .inl h
        · exact .inr ⟨rest, h⟩
      obtain ⟨hblank, htext⟩ := @headerLoop_turn _ _ buf pre fuel st t onHeader R f hfollows hskip
        line tail hline htail hrest hbuf hR
      by_cases hempty : stripCr line = []
      · refine ⟨st, _, pre ++ line ++ tail.take 1, hblank hempty, ?_, ?_, ?_⟩
        · rcases hsplit with ⟨-, h⟩ | ⟨rest, -, h⟩
          · rw [h, collect_cons_empty hempty]
            exact hR
          · rw [h, collect_cons_empty hempty]
            exact hR
        · rw [Option.getD_some, List.length_append, List.length_append, List.length_take,
            Nat.min_comm]
        · rcases hsplit with ⟨rfl, h⟩ | ⟨rest, rfl, h⟩
          · rw [h, bodyOf_cons_empty hempty, hbuf, List.take_nil]
            simp only [List.intercalate_nil, List.append_nil]
          · rw [h, bodyOf_cons_empty hempty, List.intercalate_splitOn, hbuf]
            simp only [List.take_succ_cons, List.take_zero, List.append_assoc,
              List.singleton_append]
      · obtain ⟨st', hR', hnext⟩ := htext hempty
        rw [hnext]
        rcases hsplit with ⟨rfl, h⟩ | ⟨rest, rfl, h⟩
        · rw [h, collect_cons hempty, bodyOf_cons hempty]
          have hdone := @ih (pre ++ line) [] st' _ (Nat.zero_le _)
            (by rw [hbuf, List.append_nil, List.append_nil]) hR'
          rw [List.length_append] at hdone
          exact hdone
        · rw [h, collect_cons hempty, bodyOf_cons hempty]
          rw [List.length_cons] at hfuel ⊢
          have hon := @ih (pre ++ line ++ [0x0A]) rest st' _ (by omega)
            (by rw [hbuf]; simp only [List.append_assoc, List.singleton_append]) hR'
          rw [List.length_append, List.length_append, List.length_singleton] at hon
          rw [Nat.min_eq_right (Nat.succ_pos _)]
          exact hon

end

/-! ## What the two parsers keep of a header -/

/-- The two spans of a pair lie in the buffer, and have these texts. -/
structure Shows (buf : Bytes) (pair : HttpHeaderPair) (header : Bytes × Bytes) : Prop where
  name : readSlice buf pair.nameStart pair.nameLen = some header.1
  value : readSlice buf pair.valueStart pair.valueLen = some header.2

/-- A header goes into the list while there is room. -/
def addHeader (cap : ℕ) (headers : List (Bytes × Bytes)) (line : Bytes) : List (Bytes × Bytes) :=
  match headerOf line with
  | some header => if headers.length < cap then headers ++ [header] else headers
  | none => headers

/-- The value of a `Server` header replaces the one before. -/
def setServer (server line : Bytes) : Bytes :=
  match headerOf line with
  | some header =>
      if isServer header then header.2.take (probeTextMax - 1) else server
  | none => server

theorem headerOf_eq_none {line : Bytes} (h : 0x3A ∉ line) : headerOf line = none := by
  have hnone : (line.dropWhile fun c => c != 0x3A) = [] :=
    List.dropWhile_eq_nil_iff.mpr fun c hc => bne_iff_ne.mpr fun hcolon => h (hcolon ▸ hc)
  rw [headerOf, hnone]

theorem headerOf_eq_some {name : Bytes} (value : Bytes) (h : 0x3A ∉ name) :
    headerOf (name ++ 0x3A :: value) = some (name, value.dropWhile isSpaceOrTab) := by
  have hname : ∀ c ∈ name, (c != 0x3A) = true :=
    fun c hc => bne_iff_ne.mpr fun hcolon => h (hcolon ▸ hc)
  rw [headerOf, List.dropWhile_append_of_pos hname, List.takeWhile_append_of_pos hname,
    List.dropWhile_cons_of_neg (by decide), List.takeWhile_cons_of_neg (by decide),
    List.append_nil]

section

variable {buf pre name value tail : Bytes}

/-- The name and the value stand where the indices say. -/
theorem header_spans (hbuf : buf = pre ++ (name ++ 0x3A :: value ++ tail)) :
    ∃ start, valueStart buf (pre.length + name.length)
        (pre.length + (name ++ 0x3A :: value).length) = some start ∧
      pre.length + (name ++ 0x3A :: value).length - start =
        (value.dropWhile isSpaceOrTab).length ∧
      readSlice buf pre.length name.length = some name ∧
      ∀ n ≤ (value.dropWhile isSpaceOrTab).length,
        readSlice buf start n = some ((value.dropWhile isSpaceOrTab).take n) := by
  have hsplit := List.takeWhile_append_dropWhile (p := isSpaceOrTab) (l := value)
  have hlen := congrArg List.length hsplit
  rw [List.length_append] at hlen
  refine ⟨_, by rw [hbuf]; exact valueStart_eq pre name value tail, ?_, ?_, ?_⟩
  · rw [List.length_append, List.length_cons]
    omega
  · rw [hbuf, List.append_assoc name]
    exact readSlice_here pre name _
  · intro n hn
    have hparts : buf = (pre ++ (name ++ 0x3A :: value.takeWhile isSpaceOrTab)) ++
        (value.dropWhile isSpaceOrTab ++ tail) := by
      rw [hbuf]
      conv_lhs => rw [← hsplit]
      simp only [List.append_assoc, List.cons_append]
    have hstart : pre.length + (name.length + 1) + (value.takeWhile isSpaceOrTab).length =
        (pre ++ (name ++ 0x3A :: value.takeWhile isSpaceOrTab)).length := by
      rw [List.length_append, List.length_append, List.length_cons]
      omega
    rw [hstart, hparts]
    exact readSlice_take _ _ _ hn

end

theorem onPair_follows (buf : Bytes) (cap : ℕ) :
    Follows buf (onPair buf cap) (List.Forall₂ (Shows buf)) (addHeader cap) := by
  intro pre name value tail pairs headers hbuf hname hshows
  obtain ⟨start, hstart, hlen, hnameAt, hvalueAt⟩ := header_spans hbuf
  rw [addHeader, headerOf_eq_some value hname, onPair, hshows.length_eq]
  simp only
  split
  · rw [hstart, Option.bind_eq_bind, Option.bind_some]
    refine ⟨_, rfl, List.rel_append hshows (List.Forall₂.cons ⟨?_, ?_⟩ List.Forall₂.nil)⟩
    · rw [Nat.add_sub_cancel_left]
      exact hnameAt
    · rw [hlen, hvalueAt _ (Nat.le_refl _), List.take_length]
  · exact ⟨pairs, rfl, hshows⟩

/-- The length that is copied, and what a copy of that length is. -/
theorem take_copyLen (n : ℕ) (text : Bytes) :
    (if text.length < n then text.length else n) ≤ text.length ∧
      text.take (if text.length < n then text.length else n) = text.take n := by
  split
  · next h =>
      exact ⟨Nat.le_refl _, by rw [List.take_length, List.take_of_length_le (Nat.le_of_lt h)]⟩
  · next h => exact ⟨Nat.not_lt.mp h, rfl⟩

theorem onServer_follows (buf : Bytes) : Follows buf (onServer buf) Eq setServer := by
  intro pre name value tail server server' hbuf hname hserver
  obtain ⟨start, hstart, hlen, hnameAt, hvalueAt⟩ := header_spans hbuf
  obtain ⟨hle, hcopy⟩ := take_copyLen (probeTextMax - 1) (value.dropWhile isSpaceOrTab)
  have hisServer : isServerName buf pre.length name.length =
      some (isServer (name, value.dropWhile isSpaceOrTab)) := by
    rw [isServerName, isServer]
    split
    · next h =>
        have hsix : (ascii "server").length = name.length := (beq_iff_eq.mp h).symm
        rw [tagAt, hsix, hnameAt]
        rfl
    · next h =>
        refine congrArg some (beq_eq_false_iff_ne.mpr fun hlower => h (beq_iff_eq.mpr ?_)).symm
        rw [← List.length_map toLowerAscii, hlower]
        rfl
  rw [setServer, headerOf_eq_some value hname, onServer, hstart, Option.bind_eq_bind,
    Option.bind_some, Nat.add_sub_cancel_left, hlen, hisServer, Option.bind_eq_bind,
    Option.bind_some, hvalueAt _ hle, hcopy]
  simp only
  split
  · exact ⟨_, rfl, rfl⟩
  · exact ⟨_, rfl, hserver⟩

/-! ## What is kept of all headers -/

theorem foldl_addHeader (cap : ℕ) (lines : List Bytes) (headers : List (Bytes × Bytes)) :
    lines.foldl (addHeader cap) headers =
      headers ++ (lines.filterMap headerOf).take (cap - headers.length) := by
  induction lines generalizing headers with
  | nil => simp
  | cons line lines ih =>
      rw [List.foldl_cons, ih, addHeader]
      cases h : headerOf line with
      | none => rw [List.filterMap_cons_none h]
      | some header =>
          rw [List.filterMap_cons_some h]
          simp only
          split
          · next hroom =>
              obtain ⟨n, hn⟩ := Nat.exists_eq_succ_of_ne_zero (Nat.sub_ne_zero_of_lt hroom)
              have hless : cap - (headers ++ [header]).length = n := by
                rw [List.length_append, List.length_singleton]
                omega
              rw [hless, hn, List.take_succ_cons, List.append_assoc, List.singleton_append]
          · next hfull =>
              rw [Nat.sub_eq_zero_of_le (Nat.not_lt.mp hfull), List.take_zero, List.take_zero]

theorem foldl_setServer (lines : List Bytes) (server : Bytes) :
    lines.foldl setServer server =
      match ((lines.filterMap headerOf).filter isServer).getLast? with
      | none => server
      | some header => header.2.take (probeTextMax - 1) := by
  induction lines generalizing server with
  | nil => rfl
  | cons line lines ih =>
      rw [List.foldl_cons, ih, setServer]
      cases h : headerOf line with
      | none => rw [List.filterMap_cons_none h]
      | some header =>
          rw [List.filterMap_cons_some h, List.filter_cons]
          simp only
          by_cases hserver : isServer header = true
          · rw [if_pos hserver, if_pos hserver, List.getLast?_cons]
            cases ((lines.filterMap headerOf).filter isServer).getLast? with
            | none => rfl
            | some last => rfl
          · rw [if_neg hserver, if_neg hserver]

/-! ## The title -/

theorem tagIndex_eq_none {tag rest : Bytes} (h : rest.length < tag.length) :
    tagIndex tag rest = none := by
  induction rest with
  | nil => rfl
  | cons c cs ih =>
      rw [tagIndex, if_neg, ih (Nat.lt_of_succ_lt h)]
      · rfl
      · intro hsame
        have hlen := congrArg List.length hsame
        rw [List.length_map, List.length_take] at hlen
        omega

theorem tagLoop_eq {tag : Bytes} (htag : tag ≠ []) {pre rest : Bytes} {n : ℕ}
    (hn : rest.length < n) :
    tagLoop (pre ++ rest) tag n pre.length =
      some ((tagIndex tag rest).map fun i => pre.length + i) := by
  induction n generalizing pre rest with
  | zero => exact absurd hn (Nat.not_lt_zero _)
  | succ n ih =>
      rw [tagLoop, List.length_append]
      by_cases hroom : pre.length + tag.length ≤ pre.length + rest.length
      · have hle : tag.length ≤ rest.length := Nat.le_of_add_le_add_left hroom
        have hread : tagAt (pre ++ rest) pre.length tag =
            some ((rest.take tag.length).map toLowerAscii == tag) := by
          have htake := readSlice_take pre rest [] hle
          rw [List.append_nil] at htake
          rw [tagAt, htake]
          rfl
        rw [if_pos hroom, hread, Option.bind_eq_bind, Option.bind_some]
        cases rest with
        | nil =>
            exact absurd (List.length_eq_zero_iff.mp (Nat.le_zero.mp hle)) htag
        | cons c cs =>
            rw [tagIndex]
            by_cases hsame : ((c :: cs).take tag.length).map toLowerAscii = tag
            · rw [if_pos hsame]
              exact if_pos (beq_iff_eq.mpr hsame)
            · have hnext := @ih (pre ++ [c]) cs (Nat.lt_of_succ_lt_succ hn)
              rw [List.append_assoc, List.singleton_append, List.length_append,
                List.length_singleton] at hnext
              rw [if_neg hsame, Option.map_map]
              refine (if_neg fun h => hsame (beq_iff_eq.mp h)).trans (hnext.trans ?_)
              congr 2
              funext i
              show pre.length + 1 + i = pre.length + (i + 1)
              omega
      · rw [if_neg hroom, tagIndex_eq_none (by omega)]
        rfl

theorem tagIndex_le {tag rest : Bytes} {i : ℕ} (h : tagIndex tag rest = some i) :
    i + tag.length ≤ rest.length := by
  induction rest generalizing i with
  | nil => cases h
  | cons c cs ih =>
      rw [tagIndex] at h
      split at h
      · next hsame =>
          injection h with h
          have hlen := congrArg List.length hsame
          rw [List.length_map, List.length_take] at hlen
          omega
      · obtain ⟨j, hj, rfl⟩ := Option.map_eq_some_iff.mp h
        have hle := ih hj
        rw [List.length_cons]
        omega

theorem titleSearch_eq (body : Bytes) : titleSearch body = some (titleOf body) := by
  have hopen := @tagLoop_eq (ascii "<title>") (by decide) [] body (body.length + 1)
    (Nat.lt_succ_self _)
  rw [List.nil_append, List.length_nil] at hopen
  rw [titleSearch, titleOf, hopen, Option.bind_eq_bind, Option.bind_some]
  cases hi : tagIndex (ascii "<title>") body with
  | none => rfl
  | some i =>
      have hle : i + 7 ≤ body.length := tagIndex_le hi
      have hsplit : body.take (i + 7) ++ body.drop (i + 7) = body := List.take_append_drop _ _
      have hlen : (body.take (i + 7)).length = i + 7 := by
        rw [List.length_take, Nat.min_eq_left hle]
      have hclose := @tagLoop_eq (ascii "</title>") (by decide) (body.take (i + 7))
        (body.drop (i + 7)) (body.length + 1) (by rw [List.length_drop]; omega)
      rw [hsplit, hlen] at hclose
      simp only [Option.map_some, Nat.zero_add, hclose, Option.bind_some]
      cases hj : tagIndex (ascii "</title>") (body.drop (i + 7)) with
      | none => rfl
      | some j =>
          have hjle := tagIndex_le hj
          have htitle : ((body.drop (i + 7)).take j).length = j := by
            rw [List.length_take, Nat.min_eq_left (by omega)]
          obtain ⟨hcopyLe, hcopy⟩ := take_copyLen (probeTextMax - 1) ((body.drop (i + 7)).take j)
          rw [htitle] at hcopyLe hcopy
          have hread := readSlice_take (body.take (i + 7)) ((body.drop (i + 7)).take j)
            ((body.drop (i + 7)).drop j) (hcopyLe.trans_eq htitle.symm)
          rw [List.take_append_drop, hsplit, hlen, hcopy] at hread
          simp only [Option.map_some, Nat.add_sub_cancel_left]
          exact hread

/-! ## Both parsers -/

theorem statusLineEnd_splitOn (buf : Bytes) :
    ∃ pre rest, buf = pre ++ rest ∧ statusLineEnd buf = some pre.length ∧
      ((buf.splitOn 0x0A).tail = [] ∧ rest = [] ∨ (buf.splitOn 0x0A).tail = rest.splitOn 0x0A) := by
  obtain ⟨line, tail, rfl, hline, ⟨rfl, hsplit⟩ | ⟨rest, rfl, hsplit⟩⟩ := eq_line_append buf
  · refine ⟨line, [], rfl, ?_, .inl ⟨by rw [hsplit]; rfl, rfl⟩⟩
    exact statusLineEnd_eq hline (.inl rfl)
  · refine ⟨line ++ [0x0A], rest, by rw [List.append_assoc]; rfl, ?_, .inr (by rw [hsplit]; rfl)⟩
    rw [statusLineEnd_eq hline (.inr ⟨rest, rfl⟩), List.length_append, List.length_cons,
      Nat.min_eq_right (Nat.succ_pos _)]
    rfl

/-- The loop over the header lines, from where the status line ends. -/
theorem headers_eq {σ τ : Type} {buf : Bytes} {st : σ} {t : τ}
    {onHeader : σ → ℕ → ℕ → ℕ → Option σ} {R : σ → τ → Prop} {f : τ → Bytes → τ}
    (hfollows : Follows buf onHeader R f) (hskip : ∀ t line, 0x3A ∉ line → f t line = t)
    (hR : R st t) :
    ∃ pos st' blank before, statusLineEnd buf = some pos ∧
      headerLoop buf onHeader buf.length pos st = some (st', blank) ∧
      R st' (collect f t (buf.splitOn 0x0A).tail) ∧ blank.getD buf.length = before.length ∧
      buf = before ++ bodyOf (buf.splitOn 0x0A).tail := by
  obtain ⟨pre, rest, hbuf, hpos, hlines⟩ := statusLineEnd_splitOn buf
  have hfuel : rest.length ≤ buf.length := by
    rw [hbuf, List.length_append]
    exact Nat.le_add_left _ _
  obtain ⟨st', blank, before, hloop, hR', hblank, hbody⟩ :=
    headerLoop_eq hfollows hskip hfuel hbuf hR
  refine ⟨_, st', blank, before, hpos, hloop, ?_⟩
  rcases hlines with ⟨htail, rfl⟩ | htail
  · rw [htail]
    exact ⟨hR', hblank, hbody⟩
  · rw [htail]
    exact ⟨hR', hblank, hbody⟩

/-- The parser of the plugin API reads the reference's response, with the
headers as far as there is room for them. -/
theorem httpParse_eq (buf : Bytes) (cap : ℕ) :
    ∃ parsed, httpParse buf cap = some parsed ∧ parsed.status = (httpResponse buf).status ∧
      List.Forall₂ (Shows buf) parsed.pairs ((httpResponse buf).headers.take cap) ∧
      parsed.bodyStart ≤ buf.length ∧ buf.drop parsed.bodyStart = (httpResponse buf).body := by
  have hskip : ∀ headers line, 0x3A ∉ line → addHeader cap headers line = headers := by
    intro headers line hline
    rw [addHeader, headerOf_eq_none hline]
  obtain ⟨pos, pairs, blank, before, hpos, hloop, hpairs, hblank, hbody⟩ :=
    headers_eq (onPair_follows buf cap) hskip List.Forall₂.nil
  rw [collect, foldl_addHeader, List.nil_append, List.length_nil, Nat.sub_zero] at hpairs
  rw [httpParse, statusLine_eq, hpos]
  simp only [Option.bind_eq_bind, Option.bind_some, hloop]
  refine ⟨_, rfl, rfl, hpairs, ?_, ?_⟩
  · rw [hblank, hbody, List.length_append]
    exact Nat.le_add_right _ _
  · rw [hblank]
    conv_lhs => rw [hbody]
    exact List.drop_left

/-- The parser of the probe reads the same response. -/
theorem httpParseResponse_eq (buf : Bytes) :
    httpParseResponse buf = some ⟨(httpResponse buf).status, serverOf (httpResponse buf).headers,
      titleOf (httpResponse buf).body⟩ := by
  have hskip : ∀ server line, 0x3A ∉ line → setServer server line = server := by
    intro server line hline
    rw [setServer, headerOf_eq_none hline]
  obtain ⟨pos, server, blank, before, hpos, hloop, hserver, hblank, hbody⟩ :=
    headers_eq (onServer_follows buf) hskip (@rfl _ [])
  rw [collect, foldl_setServer] at hserver
  by_cases hempty : buf = []
  · subst hempty
    decide
  have htitle : (if before.length ≥ buf.length then some ⟨(httpResponse buf).status, server, []⟩
      else do
        let title ← titleSearch (buf.drop before.length)
        some ⟨(httpResponse buf).status, server, title⟩) =
      some (⟨(httpResponse buf).status, server, titleOf (httpResponse buf).body⟩ :
        HttpProbeResult) := by
    have hlen := congrArg List.length hbody
    rw [List.length_append] at hlen
    have hdrop : buf.drop before.length = (httpResponse buf).body := by
      conv_lhs => rw [hbody]
      exact List.drop_left
    split
    · next hend =>
        have hnil : (httpResponse buf).body = [] := by
          rw [← hdrop]
          exact List.drop_eq_nil_iff.mpr hend
        rw [hnil]
        rfl
    · rw [titleSearch_eq, hdrop]
      rfl
  rw [httpParseResponse, if_neg fun h => hempty (List.length_eq_zero_iff.mp h), statusLine_eq, hpos]
  simp only [Option.bind_eq_bind, Option.bind_some, hloop, hblank]
  refine htitle.trans ?_
  rw [hserver]
  rfl

/-- Both parsers read the reference's response, and with it each other's. -/
theorem httpParsers_refine (buf : Bytes) (cap : ℕ) :
    ∃ parsed probed, httpParse buf cap = some parsed ∧ httpParseResponse buf = some probed ∧
      (parsed.status = (httpResponse buf).status ∧
        List.Forall₂ (Shows buf) parsed.pairs ((httpResponse buf).headers.take cap) ∧
        parsed.bodyStart = buf.length - (httpResponse buf).body.length ∧
        buf.drop parsed.bodyStart = (httpResponse buf).body) ∧
      probed.status = parsed.status ∧ probed.title = titleOf (buf.drop parsed.bodyStart) ∧
      ((httpResponse buf).headers.length ≤ cap →
        ∃ headers, List.Forall₂ (Shows buf) parsed.pairs headers ∧
          probed.server = serverOf headers) := by
  obtain ⟨parsed, hparsed, hstatus, hpairs, hle, hbody⟩ := httpParse_eq buf cap
  refine ⟨parsed, _, hparsed, httpParseResponse_eq buf, ⟨hstatus, hpairs, ?_, hbody⟩,
    hstatus.symm, by rw [hbody], fun hcap => ⟨(httpResponse buf).headers, ?_, rfl⟩⟩
  · have hlen := congrArg List.length hbody
    rw [List.length_drop] at hlen
    omega
  · rw [List.take_of_length_le hcap] at hpairs
    exact hpairs

end Cytadel.Net
