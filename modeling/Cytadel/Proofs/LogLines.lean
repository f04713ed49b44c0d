import Cytadel.Lib.AllBytes
import Cytadel.Log.Log

/-!
# One call, one line

Untrusted text reaches the log by `%s`. A line has its newline at its end and no
control byte before it, and the lock keeps the pieces of two lines apart: so
what a reader splits off at the newlines are the calls, each thread's in its
order, whatever the threads do and whatever their texts hold.
-/

namespace Cytadel.Log

open Cytadel Lib Lib.Monitor

/-! ## The text of a line -/

/-- Nothing in it breaks a line. -/
def Plain (s : Bytes) : Prop := ∀ c ∈ s, isControl c = false

theorem Plain.append {s t : Bytes} (hs : Plain s) (ht : Plain t) : Plain (s ++ t) := by
  intro c hc
  obtain hc | hc := List.mem_append.mp hc
  · exact hs c hc
  · exact ht c hc

theorem Plain.newline {s : Bytes} (h : Plain s) : 0x0A ∉ s := by
  intro hmem
  have hcontrol := h 0x0A hmem
  cases hcontrol

theorem decimal_plain (n : ℕ) : Plain (decimal n) := by
  have hdigit : ∀ d < 10, isControl (UInt8.ofNat (Nat.digitChar d).toNat) = false := by decide
  intro c hc
  rw [decimal, List.mem_map] at hc
  obtain ⟨x, hx, rfl⟩ := hc
  have hchar : ∃ d < 10, x = Nat.digitChar d := by
    induction n using Nat.strong_induction_on with
    | _ n ih =>
        rw [Nat.toDigits_eq_if (by decide)] at hx
        split at hx
        · next hlt => exact ⟨n, hlt, List.mem_singleton.mp hx⟩
        · next hge =>
            obtain hx | hx := List.mem_append.mp hx
            · exact ih (n / 10) (by omega) hx
            · exact ⟨n % 10, Nat.mod_lt _ (by decide), List.mem_singleton.mp hx⟩
  obtain ⟨d, hd, rfl⟩ := hchar
  exact hdigit d hd

theorem zeroPadded_plain (w : ℕ) (v : ℤ) : Plain (zeroPadded w v) := by
  have hzeros : ∀ k, Plain (List.replicate k 0x30) := by
    intro k c hc
    obtain rfl := List.eq_of_mem_replicate hc
    rfl
  have hminus : Plain [0x2D] := forall_mem_of_all (by decide)
  rw [zeroPadded]
  split
  · exact hminus.append ((hzeros _).append (decimal_plain _))
  · exact (hzeros _).append (decimal_plain _)

theorem timestamp_plain {now : Option TmUtc} {bufLen : ℕ} {text : Bytes}
    (h : logFormatTimestampUtc now bufLen = some text) : Plain text := by
  unfold logFormatTimestampUtc at h
  split at h
  · cases h
  · cases now with
    | none => cases h
    | some tm =>
        simp only at h
        split at h
        · cases h
        · obtain rfl := Option.some.inj h
          have hpad := zeroPadded_plain
          exact ((((((((((((((hpad 4 _).append (forall_mem_of_all (by decide))).append
            (hpad 2 _)).append (forall_mem_of_all (by decide))).append (hpad 2 _)).append
            (forall_mem_of_all (by decide))).append (hpad 2 _)).append
            (forall_mem_of_all (by decide))).append (hpad 2 _)).append
            (forall_mem_of_all (by decide))).append (hpad 2 _)).append
            (forall_mem_of_all (by decide))).append (hpad 3 _)).append
            (forall_mem_of_all (by decide)))

theorem sanitizeByte_plain (c : UInt8) : Plain (sanitizeByte c) := by
  have hhex : ∀ n < 16, isControl (hexDigit n) = false := by decide
  rw [sanitizeByte]
  split
  · have hlt := c.toNat_lt
    intro b hb
    simp only [List.mem_cons, List.not_mem_nil, or_false] at hb
    obtain rfl | rfl | rfl | rfl := hb
    · rfl
    · rfl
    · exact hhex _ (by omega)
    · exact hhex _ (by omega)
  · next hc =>
      intro b hb
      obtain rfl := List.mem_singleton.mp hb
      simpa using hc

theorem sanitizeLoop_plain (outLen : ℕ) (text : Bytes) {out : Bytes} (h : Plain out) :
    Plain (sanitizeLoop outLen text out) := by
  induction text generalizing out with
  | nil => exact h
  | cons c rest ih =>
      rw [sanitizeLoop]
      split
      · exact h
      · exact ih (h.append (sanitizeByte_plain c))

theorem sanitizeByte_length (c : UInt8) : (sanitizeByte c).length ≤ 4 := by
  rw [sanitizeByte]
  split <;> simp

/-- Where every byte has room for an escape, nothing is cut off. -/
theorem sanitizeLoop_eq {outLen : ℕ} (text : Bytes) {out : Bytes}
    (h : out.length + 4 * text.length < outLen) :
    sanitizeLoop outLen text out = out ++ text.flatMap sanitizeByte := by
  induction text generalizing out with
  | nil => simp [sanitizeLoop]
  | cons c rest ih =>
      have hlen := sanitizeByte_length c
      rw [List.length_cons] at h
      rw [sanitizeLoop, if_neg (by omega), ih (by rw [List.length_append]; omega),
        List.flatMap_cons, List.append_assoc]

/-- The buffer of `cytadel_log_vwrite` has room for every message. -/
theorem logSanitize_eq {text : Bytes} (h : text.length < logMsgMax) :
    logSanitize text logSanitizedMax = (cstr text).flatMap sanitizeByte := by
  have hlen : (cstr text).length ≤ text.length := (List.takeWhile_prefix _).length_le
  have hmax : logSanitizedMax = 4 * logMsgMax + 1 := rfl
  rw [logSanitize, if_neg (by decide), sanitizeLoop_eq _ (by rw [List.length_nil]; omega),
    List.nil_append]

theorem logSanitize_plain (text : Bytes) (outLen : ℕ) : Plain (logSanitize text outLen) := by
  have hempty : Plain [] := by
    intro c hc
    cases hc
  rw [logSanitize]
  split
  · exact hempty
  · exact sanitizeLoop_plain _ _ hempty

/-- A line has no control byte but the newline at its end. -/
theorem logText_line (call : LogCall) : ∃ body, logText call = body ++ [0x0A] ∧ Plain body := by
  have hstamp : Plain ((logFormatTimestampUtc call.now iso8601BufLen).getD
      (ascii "0000-00-00T00:00:00.000Z")) := by
    cases hnow : logFormatTimestampUtc call.now iso8601BufLen with
    | none => exact forall_mem_of_all (by decide)
    | some text => exact timestamp_plain hnow
  have hlevel : Plain (logLevelToString call.level) := by
    cases call.level <;> exact forall_mem_of_all (by decide)
  refine ⟨_, rfl, ?_⟩
  exact (((hstamp.append (forall_mem_of_all (by decide))).append hlevel).append
    (forall_mem_of_all (by decide))).append (logSanitize_plain _ _)

/-- `--log-level` filters what is not an audit record. -/
theorem logLine_eq (minLevel : LogLevel) (call : LogCall) :
    logLine minLevel call =
      if call.level = .audit ∨ minLevel.rank ≤ call.level.rank then some (logText call)
      else none := by
  rw [logLine]
  by_cases haudit : call.level = .audit
  · simp [haudit]
  · by_cases hrank : call.level.rank < minLevel.rank
    · rw [if_pos ⟨haudit, hrank⟩, if_neg (by simp [haudit, hrank])]
    · rw [if_neg (by simp [hrank]), if_pos (Or.inr (Nat.le_of_not_lt hrank))]

/-! ## The streams -/

/-- What one of the two streams got. -/
def streamOf (sink : Sink) (out : List Written) : Bytes :=
  out.filterMap fun b => if b.1 = sink then some b.2 else none

theorem streamOf_append (sink : Sink) (out out' : List Written) :
    streamOf sink (out ++ out') = streamOf sink out ++ streamOf sink out' := List.filterMap_append

theorem streamOf_map (sink sink' : Sink) (text : Bytes) :
    streamOf sink (text.map (Prod.mk sink')) = if sink' = sink then text else [] := by
  induction text with
  | nil => simp [streamOf]
  | cons c text ih =>
      rw [streamOf, List.map_cons, List.filterMap_cons]
      rw [streamOf] at ih
      by_cases h : sink' = sink
      · simp only [h, if_true] at ih ⊢
        rw [ih]
      · simp only [h, if_false] at ih ⊢
        rw [ih]

/-- The lines of some jobs. -/
def linesOf (jobs : List LogJob) : List Bytes :=
  jobs.filterMap fun
    | .line text => some text
    | .close => none

/-- Those that the log file gets: all until it is closed. -/
def fileLines : Bool → List LogJob → List Bytes
  | true, .line text :: jobs => text :: fileLines true jobs
  | _, _ => []

/-- Jobs in sequence write their lines. -/
theorem sequence_streams (minLevel : LogLevel) (jobs : List LogJob) (isOpen : Bool) :
    streamOf .stderr ((logMonitor minLevel).sequence jobs isOpen).1 = (linesOf jobs).flatten ∧
      streamOf .file ((logMonitor minLevel).sequence jobs isOpen).1 =
        (fileLines isOpen jobs).flatten := by
  induction jobs generalizing isOpen with
  | nil => cases isOpen <;> exact ⟨rfl, rfl⟩
  | cons job jobs ih =>
      cases job with
      | line text =>
          obtain ⟨hstderr, hfile⟩ := ih isOpen
          simp only [Monitor.sequence, logMonitor] at hstderr hfile ⊢
          rw [streamOf_append, streamOf_append, streamOf_append, streamOf_append, hstderr, hfile,
            streamOf_map, streamOf_map]
          cases isOpen with
          | true => simp [linesOf, fileLines, streamOf_map]
          | false =>
              have hclosed : ∀ jobs, fileLines false jobs = [] := fun jobs => by
                rw [fileLines]
                simp
              simp [linesOf, hclosed, streamOf]
      | close =>
          obtain ⟨hstderr, hfile⟩ := ih false
          have hclosed : ∀ jobs, fileLines false jobs = [] := fun jobs => by
            rw [fileLines]
            simp
          have hend : fileLines isOpen (.close :: jobs) = [] := by
            cases isOpen
            · exact hclosed _
            · rw [fileLines]
              simp
          rw [hclosed] at hfile
          rw [hend]
          exact ⟨hstderr, hfile⟩

/-- Lines are read back at their newlines. -/
theorem splitOn_lines {bodies : List Bytes} (h : ∀ b ∈ bodies, 0x0A ∉ b) :
    ((bodies.map (· ++ [0x0A])).flatten).splitOn 0x0A = bodies ++ [[]] := by
  induction bodies with
  | nil => rfl
  | cons b bodies ih =>
      have hrest := ih fun b' hb' => h b' (List.mem_cons_of_mem _ hb')
      rw [List.map_cons, List.flatten_cons, List.append_assoc, List.singleton_append,
        List.splitOn_append_cons_self_of_not_mem (h b List.mem_cons_self), hrest, List.cons_append]

/-! ## The log of a run -/

/-- The calls of one thread. -/
def callsOf {ι : Type} [DecidableEq ι] (events : List (Event ι LogRequest LogJob)) (i : ι) :
    List LogCall :=
  (called events).filterMap fun c =>
    if c.1 = i then (match c.2 with
      | .write call => some call
      | .close => none) else none

variable {ι : Type} [DecidableEq ι] {minLevel : LogLevel} {isOpen : Bool}
  {events : List (Event ι LogRequest LogJob)} {w : World ι LogJob Bool Written}

/-- Every line behind the lock is that of a call. -/
theorem linesOf_asked (minLevel : LogLevel) (events : List (Event ι LogRequest LogJob)) (i : ι) :
    linesOf ((logMonitor minLevel).asked events i) =
      (callsOf events i).filterMap (logLine minLevel) := by
  rw [asked, callsOf, linesOf, List.filterMap_filterMap, List.filterMap_filterMap]
  refine List.filterMap_congr fun c _ => ?_
  obtain ⟨j, request⟩ := c
  by_cases hj : j = i
  · cases request with
    | write call => cases hline : logLine minLevel call <;> simp [hj, logMonitor, hline]
    | close => simp [hj, logMonitor]
  · simp [hj]

theorem entered_line (hrun : Steps (logMonitor minLevel).Step events (World.start isOpen) w)
    {text : Bytes} (h : text ∈ linesOf ((entered events).map Prod.snd)) :
    ∃ call, text = logText call := by
  obtain ⟨job, hjob, htext⟩ := List.mem_filterMap.mp h
  obtain ⟨⟨i, job'⟩, hentered, hsame⟩ := List.mem_map.mp hjob
  obtain rfl : job' = job := hsame
  obtain ⟨request, -, hasks⟩ := run_asked hrun hentered
  cases request with
  | close =>
      obtain rfl : LogJob.close = job' := Option.some.inj hasks
      cases htext
  | write call =>
      obtain ⟨line, hline, rfl⟩ := Option.map_eq_some_iff.mp hasks
      obtain rfl : line = text := Option.some.inj htext
      rw [logLine_eq] at hline
      split at hline
      · exact ⟨call, (Option.some.inj hline).symm⟩
      · cases hline

/-- Whatever the threads do: once the lock is free, stderr splits at its newlines
into the lines of the calls, the file has those until it is closed, and of a
thread that is not in a call every audit record is there, and of the rest what
`--log-level` lets through. -/
theorem log_lines (hrun : Steps (logMonitor minLevel).Step events (World.start isOpen) w)
    (hfree : w.holder = none) :
    ∃ bodies, (∀ b ∈ bodies, Plain b) ∧
      linesOf ((entered events).map Prod.snd) = bodies.map (· ++ [0x0A]) ∧
      (streamOf .stderr w.out).splitOn 0x0A = bodies ++ [[]] ∧
      streamOf .file w.out = (fileLines isOpen ((entered events).map Prod.snd)).flatten ∧
      ∀ i, w.clients i = .idle →
        linesOf (served events i) = ((callsOf events i).filter fun call =>
          call.level = .audit ∨ minLevel.rank ≤ call.level.rank).map logText := by
  have hbodies : ∀ lines : List Bytes, (∀ text ∈ lines, ∃ call, text = logText call) →
      ∃ bodies : List Bytes, (∀ b ∈ bodies, Plain b) ∧ lines = bodies.map (· ++ [0x0A]) := by
    intro lines hlines
    induction lines with
    | nil => exact ⟨[], by simp, rfl⟩
    | cons text lines ih =>
        obtain ⟨bodies, hplain, hrest⟩ := ih fun t ht => hlines t (List.mem_cons_of_mem _ ht)
        obtain ⟨call, rfl⟩ := hlines text List.mem_cons_self
        obtain ⟨body, htext, hbody⟩ := logText_line call
        refine ⟨body :: bodies, List.forall_mem_cons.mpr ⟨hbody, hplain⟩, ?_⟩
        rw [hrest, htext, List.map_cons]
  obtain ⟨bodies, hplain, hlines⟩ := hbodies _ fun _ htext => entered_line hrun htext
  have hseq := run_sequential hrun hfree
  obtain ⟨hstderr, hfile⟩ := sequence_streams minLevel ((entered events).map Prod.snd) isOpen
  rw [hseq] at hstderr hfile
  refine ⟨bodies, hplain, hlines, ?_, hfile, fun i hidle => ?_⟩
  · rw [hstderr, hlines]
    exact splitOn_lines fun b hb => (hplain b hb).newline
  · rw [run_order hrun hidle, linesOf_asked]
    induction callsOf events i with
    | nil => rfl
    | cons call calls ih =>
        rw [List.filterMap_cons, logLine_eq, List.filter_cons]
        by_cases hkept : call.level = .audit ∨ minLevel.rank ≤ call.level.rank
        · simp only [hkept, if_true, decide_true, List.map_cons, ih]
        · simp only [hkept, if_false, decide_false, ih, Bool.false_eq_true]

/-- An operator's name that would forge a line. -/
def forgedCall : LogCall where
  level := .audit
  now := none
  text := some (ascii "operator='x'\n[AUDIT] forged")

def quietCall : LogCall := ⟨.debug, none, some (ascii "probe")⟩

def failedCall : LogCall := ⟨.error, none, some (ascii "connect failed")⟩

/-- Two threads, one of which waits at the lock while the other writes. -/
def twoThreads : List (Event ℕ LogRequest LogJob) :=
  [.call 0 (.write forgedCall), .call 1 (.write quietCall), .call 1 (.write failedCall),
    .enter 1 (.line (logText failedCall)), .write 1 7, .write 1 500, .leave 1,
    .enter 0 (.line (logText forgedCall)), .write 0 500, .leave 0]

theorem log_lines_two_threads :
    ∃ w bodies, Steps (logMonitor .warn).Step twoThreads (World.start true) w ∧
      (streamOf .stderr w.out).splitOn 0x0A = bodies ++ [[]] ∧ bodies.length = 2 ∧
      linesOf (served twoThreads 1) = [logText failedCall] := by
  obtain ⟨w, hrun, hfree, hidle⟩ : ∃ w, Steps (logMonitor .warn).Step twoThreads
      (World.start true) w ∧ w.holder = none ∧ w.clients 1 = .idle := by
    refine ⟨_, .cons (.call rfl rfl) (.cons (.skip rfl rfl) (.cons (.call rfl rfl)
      (.cons (.enter rfl rfl) (.cons (.write 7 rfl) (.cons (.write 500 rfl) (.cons (.leave rfl)
      (.cons (.enter rfl rfl) (.cons (.write 500 rfl) (.cons (.leave rfl)
      (.nil _)))))))))), rfl, rfl⟩
  obtain ⟨bodies, -, hlines, hsplit, -, hown⟩ := log_lines hrun hfree
  refine ⟨w, bodies, hrun, hsplit, ?_, hown 1 hidle⟩
  have hlen := congrArg List.length hlines
  rw [List.length_map] at hlen
  exact hlen.symm

end Cytadel.Log
