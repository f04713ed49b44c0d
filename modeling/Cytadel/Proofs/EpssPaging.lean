import Cytadel.Db.EpssSync
import Cytadel.Proofs.PageAtomicity
import Cytadel.Proofs.RecordTables

/-!
# A pull of the EPSS feed is complete or has no watermark

The offset moves by the records that came back, so the pages of a pull that
answers OK stand one behind the other from the first record to the total, and
only the page that reaches the total says that the pull is complete. Any server
is left after a bounded number of requests, and one that runs dry before its
own total does not move the watermark.
-/

namespace Cytadel.Db

open Cytadel Lib

/-- The column `last_mod_watermark` of the EPSS row, if there is one. -/
def Tables.epssWatermark (d : Tables) : Option (Option Bytes) :=
  (d.syncState .epss).map (·.lastModWatermark)

/-- The records that the ingest finds in a body. -/
def epssRecords (w : World) (body : Bytes) : List Json :=
  ((epssFeed w false).records (w.parse body)).getD []

/-- A server that has the records `R`. A request may fail; one that is answered
brings their number and some of them from its offset on, no more than it asked
for, and not none while there are any. -/
def EpssServes (w : UrlWorld) (baseUrl : Bytes) (limit : ℕ) (R : List Json) : Prop :=
  ∀ n offset body, w.fetch n (pageUrl baseUrl limit offset) = some body →
    jsonGetNumber (w.parse body) (ascii "total") = some (.finite R.length) ∧
    ∃ data, jsonGetArray (w.parse body) (ascii "data") = some data ∧
      data <+: R.drop offset ∧ data.length ≤ limit ∧ (offset < R.length → data ≠ [])

/-- The requests among the events. -/
def requestCount (log : List (Event Tables EpssNote)) : ℕ :=
  log.countP fun
    | .note (.request _) => true
    | _ => false

/-- The pages that were handed to the ingest, each with its
`full_pull_complete`. -/
def handedPages (log : List (Event Tables EpssNote)) : List (Bytes × Bool) :=
  log.filterMap fun
    | .note (.page body fullPullComplete) => some (body, fullPullComplete)
    | _ => none

theorem requestCount_append (l m : List (Event Tables EpssNote)) :
    requestCount (l ++ m) = requestCount l + requestCount m := List.countP_append

theorem handedPages_append (l m : List (Event Tables EpssNote)) :
    handedPages (l ++ m) = handedPages l ++ handedPages m := List.filterMap_append

/-! ## One page -/

/-- A page with an envelope is one that the ingest reads. -/
theorem envelope_some {w : World} {body : Bytes} {total dataCount : ℕ}
    (h : envelope (w.parse body) = some (total, dataCount)) :
    ∃ v q, jsonGetNumber (w.parse body) (ascii "total") = some v ∧
      v.within epssSyncMaxTotal = some q ∧ q.floor.toNat = total ∧
      jsonGetArray (w.parse body) (ascii "data") = some (epssRecords w body) ∧
      (epssRecords w body).length = dataCount := by
  rw [envelope] at h
  cases hv : jsonGetNumber (w.parse body) (ascii "total") with
  | none => simp [hv] at h
  | some v =>
      cases hd : jsonGetArray (w.parse body) (ascii "data") with
      | none => simp [hv, hd] at h
      | some data =>
          simp only [hv, hd, Option.map_eq_some_iff, Prod.mk.injEq] at h
          obtain ⟨q, hq, htotal, hcount⟩ := h
          have hrecords : epssRecords w body = data := by
            unfold epssRecords FeedSpec.records
            cases hp : w.parse body with
            | none =>
                rw [hp] at hd
                cases hd
            | some root =>
                rw [hp] at hd
                cases root with
                | object fields =>
                    simp only [Json.isObject, if_true]
                    rw [show (epssFeed w false).arrayKey = ascii "data" from rfl, hd]
                    rfl
                | _ => cases hd
          rw [hrecords]
          exact ⟨v, q, rfl, hq, htotal, rfl, hcount⟩

/-- No record touches the row of the feed. -/
theorem RecordEffect.syncState_eq {env : Env Call Bytes} {w : World} {st : Stmt} {e : Json}
    {x x' : RecordCounts × Tables} (h : RecordEffect env (epssReader w) st e x x') :
    x'.2.syncState = x.2.syncState := by
  cases h with
  | skipped c d => rfl
  | @placed c d d₁ id nowTs now up hread why hplace =>
      rw [insertPlaceholder_frame hplace]
  | @ingested c d d₁ d' id nowTs now now' up hread hplace hup =>
      rw [epssReader] at hread
      split at hread
      · obtain ⟨r, -, hr⟩ := Option.map_eq_some_iff.mp hread
        obtain ⟨rfl, rfl⟩ := Prod.mk.inj hr
        rw [epssUpsert_eq hup, insertPlaceholder_frame hplace]
      · cases hread

/-- Only a complete pull moves the watermark. -/
theorem recordSyncUpdate_epssWatermark {n : ℕ} {now : Bytes} {d d' : Tables}
    (h : recordSyncUpdate .epss false n now d = some d') : d'.epssWatermark = d.epssWatermark := by
  simp only [recordSyncUpdate, Option.some.injEq] at h
  subst h
  simp only [Tables.epssWatermark, Function.update_self, Option.map_map]
  cases d.syncState .epss <;> rfl

/-- A page that is not the last leaves the watermark as it was. -/
theorem epssIngest_epssWatermark {ρ : Type} (w : World) (body : Bytes) (s : Session Tables ρ) :
    (epssIngest w body false s).session.committed.epssWatermark =
      s.committed.epssWatermark := by
  obtain ⟨-, hcom, -⟩ | ⟨-, elems, c, d, now, -, hsteps, -, hsync, -⟩ :=
    epssIngest_atomic w body false s
  · rw [hcom]
  · have hd : d.syncState = s.committed.syncState :=
      hsteps.invariant (P := fun x => x.2.syncState = s.committed.syncState)
        (fun e _ x x' h hx => h.syncState_eq.trans hx) rfl
    rw [recordSyncUpdate_epssWatermark hsync, Tables.epssWatermark, hd, Tables.epssWatermark]

/-- A page that is not ingested is not in the durable tables. -/
theorem epssIngest_failed {ρ : Type} {w : World} {body : Bytes} {complete : Bool}
    {s : Session Tables ρ} (h : (epssIngest w body complete s).status ≠ .ok) :
    (epssIngest w body complete s).session.committed = s.committed ∧
      (epssIngest w body complete s).session.log = s.log := by
  obtain ⟨-, hcom, hlog, -⟩ | ⟨hok, -⟩ := epssIngest_atomic w body complete s
  · exact ⟨hcom, hlog⟩
  · exact absurd hok h

theorem epssIngest_log {ρ : Type} {w : World} {body : Bytes} {complete : Bool}
    {s : Session Tables ρ} (h : (epssIngest w body complete s).status = .ok) :
    ∃ d, (epssIngest w body complete s).session.log = s.log ++ [.commit s.committed d] := by
  obtain ⟨hne, -⟩ | ⟨-, elems, c, d, now, -, -, -, -, -, hlog⟩ :=
    epssIngest_atomic w body complete s
  · exact absurd h hne
  · exact ⟨_, hlog⟩

/-! ## The page loop -/

variable {w : UrlWorld} {baseUrl : Bytes} {limit : ℕ}

/-- An answer with no records before its own total. -/
def RanDry (w : World) (offset : ℕ) (body : Bytes) : Prop :=
  ∃ total, envelope (w.parse body) = some (total, 0) ∧ offset < total

/-- What the page loop adds to the log from an offset on. -/
structure PullTrace (w : UrlWorld) (baseUrl : Bytes) (limit pages offset : ℕ) (s : EpssSession)
    (r : EpssSyncResult) (new : List (Event Tables EpssNote)) : Prop where
  log : r.session.log = s.log ++ new
  requests : requestCount new ≤ pages
  dry : ∀ o body, Event.note (.reply o body) ∈ new → RanDry w.toWorld o body →
    r.status = .errProtocol ∧ ∀ p ∈ handedPages new, p.2 = false
  watermark : r.status ≠ .ok →
    r.session.committed.epssWatermark = s.committed.epssWatermark
  complete : ∀ R, EpssServes w baseUrl limit R → offset ≤ R.length → r.status = .ok →
    (handedPages new).flatMap (fun p => epssRecords w.toWorld p.1) = R.drop offset ∧
    ∃ inner last, handedPages new = inner ++ [(last, true)] ∧ ∀ p ∈ inner, p.2 = false

/-- The loop ended before a page was committed. -/
theorem PullTrace.stopped {pages offset : ℕ} {s s' : EpssSession} {status : EpssSyncStatus}
    {c : EpssSyncCounts} {notes : List EpssNote} (hst : status ≠ .ok)
    (hcom : s'.committed = s.committed) (hlog : s'.log = s.log ++ notes.map .note)
    (hreq : requestCount (notes.map .note) ≤ pages)
    (hdry : ∀ o body, EpssNote.reply o body ∈ notes → RanDry w.toWorld o body →
      status = .errProtocol ∧ handedPages (notes.map .note) = []) :
    PullTrace w baseUrl limit pages offset s ⟨status, c, s'⟩ (notes.map .note) where
  log := hlog
  requests := hreq
  dry o body hmem hd := by
    obtain ⟨n, hn, heq⟩ := List.mem_map.mp hmem
    cases heq
    obtain ⟨hp, hnone⟩ := hdry o body hn hd
    refine ⟨hp, ?_⟩
    rw [hnone]
    simp
  watermark _ := congrArg Tables.epssWatermark hcom
  complete R _ _ hok := absurd hok hst

theorem buildPageUrl_some {offset : ℕ} {url : Bytes}
    (h : buildPageUrl baseUrl limit offset = some url) : url = pageUrl baseUrl limit offset := by
  simp only [buildPageUrl] at h
  split at h
  · exact (Option.some.inj h).symm
  · cases h

theorem parseEnvelope_some {w : World} {body : Bytes} {s : EpssSession} {env : ℕ × ℕ}
    (h : (parseEnvelope w body s).1 = some env) : envelope (w.parse body) = some env := by
  simp only [parseEnvelope, parseJson] at h
  split at h
  · cases h
  · exact h

/-- An answer that the loop does not take for a truncated pull. -/
theorem not_ranDry {w : World} {offset total n : ℕ} {body : Bytes}
    (henv : envelope (w.parse body) = some (total, n))
    (h : ¬ (n == 0 && !decide (offset + n ≥ total)) = true) : ¬ RanDry w offset body := by
  rintro ⟨total', henv', hlt⟩
  rw [henv, Option.some.injEq, Prod.mk.injEq] at henv'
  obtain ⟨rfl, rfl⟩ := henv'
  refine h ?_
  simp only [beq_self_eq_true, Bool.true_and, Bool.not_eq_true', decide_eq_false_iff_not]
  omega

/-- One turn of the loop: it ends with notes and no commit, or it commits a
page, and then answers OK or goes on behind the page's records. -/
theorem epssSyncPages_cases (w : UrlWorld) (baseUrl : Bytes) (limit fuel offset : ℕ)
    (c : EpssSyncCounts) (s : EpssSession) :
    (∃ (status : EpssSyncStatus) (s' : EpssSession) (notes : List EpssNote), status ≠ .ok ∧
      epssSyncPages w baseUrl limit (fuel + 1) offset c s = ⟨status, c, s'⟩ ∧
      s'.committed = s.committed ∧ s'.log = s.log ++ notes.map .note ∧
      requestCount (notes.map .note) ≤ fuel + 1 ∧
      ∀ o body, EpssNote.reply o body ∈ notes → RanDry w.toWorld o body →
        status = .errProtocol ∧ handedPages (notes.map .note) = []) ∨
    (∃ (body : Bytes) (total : ℕ) (c' : EpssSyncCounts) (s' : EpssSession) (d : Tables),
      let isLast := decide (offset + (epssRecords w.toWorld body).length ≥ total)
      (∃ n, w.fetch n (pageUrl baseUrl limit offset) = some body) ∧
      envelope (w.parse body) = some (total, (epssRecords w.toWorld body).length) ∧
      ¬ RanDry w.toWorld offset body ∧
      (isLast = false → s'.committed.epssWatermark = s.committed.epssWatermark) ∧
      s'.log = s.log ++ [.note (.request offset), .note (.reply offset body),
        .note (.page body isLast), .commit s.committed d] ∧
      epssSyncPages w baseUrl limit (fuel + 1) offset c s =
        if isLast then ⟨.ok, c', s'⟩
        else epssSyncPages w baseUrl limit fuel (offset + (epssRecords w.toWorld body).length) c'
          s') := by
  rw [epssSyncPages]
  cases hurl : buildPageUrl baseUrl limit offset with
  | none =>
      refine Or.inl ⟨.errProtocol, s, [], by decide, rfl, rfl, (List.append_nil _).symm,
        Nat.zero_le _, ?_⟩
      intro o body hmem
      cases hmem
  | some url =>
      obtain rfl := buildPageUrl_some hurl
      simp only
      cases hfetch : w.fetch s.calls (pageUrl baseUrl limit offset) with
      | none =>
          refine Or.inl ⟨.errFetch, _, [.request offset], by decide, rfl, rfl, rfl,
            Nat.succ_le_succ (Nat.zero_le _), ?_⟩
          intro o body hmem
          simp at hmem
      | some body =>
          have hparsed : ∀ t : EpssSession, (parseEnvelope w.toWorld body t).2 = t.tick :=
            fun _ => rfl
          simp only [hparsed]
          cases henv : (parseEnvelope w.toWorld body
              ((s.note (.request offset)).tick.note (.reply offset body))).1 with
          | none =>
              refine Or.inl ⟨.errProtocol, _, [.request offset, .reply offset body], by decide,
                rfl, rfl, ?_, Nat.succ_le_succ (Nat.zero_le _), ?_⟩
              · simp [Session.note, Session.tick]
              · intro o b _ _
                exact ⟨rfl, rfl⟩
          | some env =>
              obtain ⟨total, dataCount⟩ := env
              have henv' := parseEnvelope_some henv
              obtain ⟨-, -, -, -, -, -, hcount⟩ := envelope_some henv'
              subst hcount
              simp only
              split
              · refine Or.inl ⟨.errProtocol, _, [.request offset, .reply offset body], by decide,
                  rfl, rfl, ?_, Nat.succ_le_succ (Nat.zero_le _), ?_⟩
                · simp [Session.note, Session.tick]
                · intro o b _ _
                  exact ⟨rfl, rfl⟩
              · next hsome =>
                  have hwet := not_ranDry henv' hsome
                  generalize hl : decide (offset + (epssRecords w.toWorld body).length ≥ total) =
                    isLast
                  generalize hpage : epssIngest w.toWorld body isLast
                    ((((s.note (.request offset)).tick.note (.reply offset body)).tick).note
                      (.page body isLast)) = page
                  split
                  · next hfail =>
                      rw [← hpage] at hfail
                      obtain ⟨hcom, hlog⟩ := epssIngest_failed hfail
                      rw [hpage] at hcom hlog
                      refine Or.inl ⟨.errIngest, _,
                        [.request offset, .reply offset body, .page body isLast], by decide, rfl,
                        hcom, ?_, Nat.succ_le_succ (Nat.zero_le _), ?_⟩
                      · rw [hlog]
                        simp [Session.note, Session.tick]
                      · intro o b hmem hdry
                        simp only [List.mem_cons, reduceCtorEq, EpssNote.reply.injEq,
                          List.not_mem_nil, or_false, false_or] at hmem
                        obtain ⟨rfl, rfl⟩ := hmem
                        exact absurd hdry hwet
                  · next hok =>
                      rw [not_not, ← hpage] at hok
                      obtain ⟨d, hlog⟩ := epssIngest_log hok
                      rw [hpage] at hlog
                      refine Or.inr ⟨body, total, c.addPage page.counts, page.session, d,
                        ⟨_, hfetch⟩, henv', hwet, ?_, ?_, ?_⟩
                      · intro hfalse
                        rw [hl] at hfalse
                        subst hfalse
                        rw [← hpage]
                        exact epssIngest_epssWatermark _ _ _
                      · rw [hl]
                        exact hlog.trans (by simp [Session.note, Session.tick])
                      · rw [hl]

/-- What a server with the records `R` answers is on its records. -/
theorem EpssServes.envelope_eq {R : List Json} (h : EpssServes w baseUrl limit R) {n offset : ℕ}
    {body : Bytes} {total : ℕ} (hfetch : w.fetch n (pageUrl baseUrl limit offset) = some body)
    (henv : envelope (w.parse body) = some (total, (epssRecords w.toWorld body).length)) :
    total = R.length ∧ epssRecords w.toWorld body <+: R.drop offset := by
  obtain ⟨v, q, hv, hq, htotal, hdata, -⟩ := envelope_some (w := w.toWorld) henv
  obtain ⟨hnumber, data, harray, hpre, -⟩ := h n offset body hfetch
  rw [hnumber, Option.some.injEq] at hv
  rw [harray, Option.some.injEq] at hdata
  subst hv hdata
  refine ⟨?_, hpre⟩
  simp only [Number.within] at hq
  split at hq
  · obtain ⟨rfl⟩ := hq
    rw [← htotal, ← Int.cast_natCast, Rat.floor_intCast, Int.toNat_natCast]
  · cases hq

theorem PullTrace.last {pages offset total : ℕ} {s s' : EpssSession} {c : EpssSyncCounts}
    {body : Bytes} {d : Tables} {n : ℕ}
    (hfetch : w.fetch n (pageUrl baseUrl limit offset) = some body)
    (henv : envelope (w.parse body) = some (total, (epssRecords w.toWorld body).length))
    (hwet : ¬ RanDry w.toWorld offset body)
    (hlast : offset + (epssRecords w.toWorld body).length ≥ total)
    (hlog : s'.log = s.log ++ [.note (.request offset), .note (.reply offset body),
      .note (.page body true), .commit s.committed d]) :
    PullTrace w baseUrl limit (pages + 1) offset s ⟨.ok, c, s'⟩
      [.note (.request offset), .note (.reply offset body), .note (.page body true),
        .commit s.committed d] where
  log := hlog
  requests := Nat.succ_le_succ (Nat.zero_le _)
  dry o b hmem hdry := by
    simp only [List.mem_cons, reduceCtorEq, Event.note.injEq, EpssNote.reply.injEq,
      List.not_mem_nil, or_false, false_or] at hmem
    obtain ⟨rfl, rfl⟩ := hmem
    exact absurd hdry hwet
  watermark h := absurd rfl h
  complete R hserves hle _ := by
    obtain ⟨rfl, hpre⟩ := hserves.envelope_eq hfetch henv
    refine ⟨?_, [], body, rfl, by simp⟩
    -- the page has every record that is left
    have heq : epssRecords w.toWorld body = R.drop offset := by
      refine hpre.eq_of_length_le ?_
      rw [List.length_drop]
      omega
    simpa [handedPages] using heq

theorem PullTrace.more {pages offset total : ℕ} {s s' : EpssSession} {r : EpssSyncResult}
    {body : Bytes} {d : Tables} {n : ℕ} {new : List (Event Tables EpssNote)}
    (hfetch : w.fetch n (pageUrl baseUrl limit offset) = some body)
    (henv : envelope (w.parse body) = some (total, (epssRecords w.toWorld body).length))
    (hwet : ¬ RanDry w.toWorld offset body)
    (hkept : s'.committed.epssWatermark = s.committed.epssWatermark)
    (hlog : s'.log = s.log ++ [.note (.request offset), .note (.reply offset body),
      .note (.page body false), .commit s.committed d])
    (h : PullTrace w baseUrl limit pages (offset + (epssRecords w.toWorld body).length) s' r new) :
    PullTrace w baseUrl limit (pages + 1) offset s r
      ([.note (.request offset), .note (.reply offset body), .note (.page body false),
        .commit s.committed d] ++ new) where
  log := by rw [h.log, hlog, List.append_assoc]
  requests := by
    have hle := h.requests
    rw [requestCount_append]
    change 1 + requestCount new ≤ pages + 1
    omega
  dry o b hmem hdry := by
    have hmem : (offset = o ∧ body = b) ∨ Event.note (.reply o b) ∈ new := by
      simpa [eq_comm] using hmem
    obtain ⟨rfl, rfl⟩ | hmem := hmem
    · exact absurd hdry hwet
    · obtain ⟨hst, hall⟩ := h.dry o b hmem hdry
      refine ⟨hst, fun p hp => ?_⟩
      rw [handedPages_append] at hp
      obtain hp | hp := List.mem_append.mp hp
      · rw [List.mem_singleton.mp hp]
      · exact hall p hp
  watermark hne := (h.watermark hne).trans hkept
  complete R hserves hle hok := by
    obtain ⟨-, hpre⟩ := hserves.envelope_eq hfetch henv
    have hlen := hpre.length_le
    rw [List.length_drop] at hlen
    obtain ⟨hall, inner, last, hpages, hinner⟩ := h.complete R hserves (by omega) hok
    refine ⟨?_, (body, false) :: inner, last, ?_, ?_⟩
    · rw [handedPages_append, List.flatMap_append, hall, ← List.drop_drop]
      change (epssRecords w.toWorld body ++ []) ++ _ = _
      rw [List.append_nil, List.prefix_iff_eq_append.mp hpre]
    · rw [handedPages_append, hpages]
      rfl
    · intro p hp
      obtain rfl | hp := List.mem_cons.mp hp
      · rfl
      · exact hinner p hp

/-- Every run of the page loop has a trace. -/
theorem epssSyncPages_trace (w : UrlWorld) (baseUrl : Bytes) (limit fuel offset : ℕ)
    (c : EpssSyncCounts) (s : EpssSession) :
    ∃ new, PullTrace w baseUrl limit fuel offset s
      (epssSyncPages w baseUrl limit fuel offset c s) new := by
  induction fuel generalizing offset c s with
  | zero =>
      have hstop : PullTrace w baseUrl limit 0 offset s ⟨.errProtocol, c, s⟩
          (([] : List EpssNote).map .note) :=
        .stopped (by decide) rfl (List.append_nil _).symm (Nat.le_refl _)
          (fun _ _ hmem => by cases hmem)
      exact ⟨_, hstop⟩
  | succ fuel ih =>
      obtain ⟨status, s', notes, hst, heq, hcom, hlog, hreq, hdry⟩ |
        ⟨body, total, c', s', d, ⟨n, hfetch⟩, henv, hwet, hkept, hlog, heq⟩ :=
          epssSyncPages_cases w baseUrl limit fuel offset c s
      · rw [heq]
        exact ⟨_, .stopped hst hcom hlog hreq hdry⟩
      · rw [heq]
        by_cases hlast : offset + (epssRecords w.toWorld body).length ≥ total
        · simp only [hlast, decide_true, if_true] at hlog ⊢
          exact ⟨_, .last hfetch henv hwet hlast hlog⟩
        · simp only [hlast, decide_false, Bool.false_eq_true, if_false,
            forall_const] at hlog hkept ⊢
          obtain ⟨new, htrace⟩ := ih (offset + (epssRecords w.toWorld body).length) c' s'
          exact ⟨_, .more hfetch henv hwet hkept hlog htrace⟩

/-- The pull of the EPSS feed, whatever the database and the network do. It
makes at most so many requests; an answer without records before its own total
ends it with a protocol error, no page said that the pull is complete, and the
watermark stays; and against a server of a fixed list of records an OK means
that the pages handed over hold every record once and in order, and that the
last of them, and no other, said so. -/
theorem epssSync_complete_or_no_watermark (w : UrlWorld) (epssUrl : Option Bytes) (pageSize : ℤ)
    (s : EpssSession) :
    ∃ new, (epssSync w epssUrl pageSize s).session.log = s.log ++ new ∧
      requestCount new ≤ epssSyncMaxPages ∧
      (∀ offset body, Event.note (.reply offset body) ∈ new → RanDry w.toWorld offset body →
        (epssSync w epssUrl pageSize s).status = .errProtocol ∧
        (∀ p ∈ handedPages new, p.2 = false) ∧
        (epssSync w epssUrl pageSize s).session.committed.epssWatermark =
          s.committed.epssWatermark) ∧
      ∀ R, EpssServes w (epssBaseUrl epssUrl) (epssLimit pageSize) R →
        (epssSync w epssUrl pageSize s).status = .ok →
        (handedPages new).flatMap (fun p => epssRecords w.toWorld p.1) = R ∧
        ∃ inner last, handedPages new = inner ++ [(last, true)] ∧ ∀ p ∈ inner, p.2 = false := by
  obtain ⟨new, htrace⟩ := epssSyncPages_trace w (epssBaseUrl epssUrl) (epssLimit pageSize)
    epssSyncMaxPages 0 .zero s
  refine ⟨new, htrace.log, htrace.requests, fun offset body hmem hdry => ?_,
    fun R hserves hok => ?_⟩
  · obtain ⟨hst, hpages⟩ := htrace.dry offset body hmem hdry
    refine ⟨hst, hpages, htrace.watermark ?_⟩
    rw [hst]
    decide
  · exact htrace.complete R hserves (Nat.zero_le _) hok

/-! ## A server of three scores -/

/-- The number that the digits spell. -/
def readDecimal (bs : Bytes) : ℕ := bs.foldl (fun n b => 10 * n + (b.toNat - 48)) 0

theorem readDecimal_decimal (n : ℕ) : readDecimal (decimal n) = n := by
  have hdigit : ∀ d < 10, (UInt8.ofNat (Nat.digitChar d).toNat).toNat - 48 = d := by decide
  induction n using Nat.strong_induction_on with
  | _ n ih =>
      rw [decimal, Nat.toDigits_eq_if (by decide)]
      split
      · next hlt =>
          simp only [readDecimal, List.map_cons, List.map_nil, List.foldl_cons, List.foldl_nil]
          rw [hdigit n hlt]
          omega
      · next hge =>
          have hq := ih (n / 10) (by omega)
          rw [decimal, readDecimal] at hq
          rw [readDecimal, List.map_append, List.foldl_append, hq]
          simp only [List.map_cons, List.map_nil, List.foldl_cons, List.foldl_nil]
          rw [hdigit (n % 10) (Nat.mod_lt _ (by decide))]
          omega

theorem pageUrl_inj {base : Bytes} {limit o o' : ℕ}
    (h : pageUrl base limit o = pageUrl base limit o') : o = o' := by
  have hd : decimal o = decimal o' := List.append_cancel_left h
  rw [← readDecimal_decimal o, hd, readDecimal_decimal]

def scoreIds : List String := ["CVE-2024-0001", "CVE-2024-0002", "CVE-2024-0003"]

def scoreRecord (id : String) : Json :=
  let str (s : String) : Json := .string (ascii s)
  .object [(ascii "cve", str id), (ascii "epss", str "0.5"), (ascii "percentile", str "0.5"),
    (ascii "date", str "2024-01-01")]

/-- The text of the page at an offset, with two records at most. -/
def scoreText (offset : ℕ) : Bytes :=
  ascii "\x7b\"total\":3,\"data\":[" ++
    (ascii ",").intercalate (((scoreIds.drop offset).take 2).map fun id =>
      ["\x7b\"cve\":\"", id, "\",\"epss\":\"0.5\",", "\"percentile\":\"0.5\",",
        "\"date\":\"2024-01-01\"\x7d"].flatMap ascii) ++
    ascii "]\x7d"

/-- The same page as `cJSON` reads it. -/
def scorePage (offset : ℕ) : Json :=
  .object [(ascii "total", .number (.finite 3)),
    (ascii "data", .array (((scoreIds.drop offset).take 2).map scoreRecord))]

/-- It knows the offsets up to the number of its records. -/
def scoreServer : UrlWorld where
  env := quietEnv
  parse body := ((List.range 4).find? fun o => scoreText o == body).map scorePage
  strtod _ := ⟨.finite (1 / 2), false, false⟩
  fetch _ url := ((List.range 4).find? fun o => pageUrl epssDefaultUrl 2 o == url).map scoreText

theorem scoreServer_parse {o : ℕ} (ho : o < 4) :
    scoreServer.parse (scoreText o) = some (scorePage o) := by
  have hfind : ∀ o < 4, (List.range 4).find? (fun o' => scoreText o' == scoreText o) = some o := by
    decide +kernel
  simp only [scoreServer, hfind o ho, Option.map_some]

theorem scoreServer_serves :
    EpssServes scoreServer epssDefaultUrl 2 (scoreIds.map scoreRecord) := by
  intro n offset body h
  simp only [scoreServer, Option.map_eq_some_iff] at h
  obtain ⟨o, hfind, rfl⟩ := h
  have hurl : (pageUrl epssDefaultUrl 2 o == pageUrl epssDefaultUrl 2 offset) = true :=
    List.find?_some (p := fun o => pageUrl epssDefaultUrl 2 o == pageUrl epssDefaultUrl 2 offset)
      hfind
  obtain rfl := pageUrl_inj (beq_iff_eq.mp hurl)
  rw [scoreServer_parse (List.mem_range.mp (List.mem_of_find?_eq_some hfind))]
  refine ⟨rfl, ((scoreIds.drop o).take 2).map scoreRecord, rfl, ?_, ?_, ?_⟩
  · rw [← List.map_drop]
    apply List.IsPrefix.map
    exact List.take_prefix 2 _
  · rw [List.length_map, List.length_take]
    omega
  · intro ho
    have ho' : o < scoreIds.length := ho
    rw [← List.length_pos_iff_ne_nil, List.length_map, List.length_take, List.length_drop]
    omega

/-- Two requests bring the three records. -/
theorem epssSync_complete_two_pages :
    (epssSync scoreServer none 2 Tables.seeded.connect).status = .ok ∧
    ∃ new, (epssSync scoreServer none 2 Tables.seeded.connect).session.log = new ∧
      (handedPages new).flatMap (fun p => epssRecords scoreServer.toWorld p.1) =
        scoreIds.map scoreRecord ∧
      ∃ inner last, handedPages new = inner ++ [(last, true)] ∧ ∀ p ∈ inner, p.2 = false := by
  have hok : (epssSync scoreServer none 2 Tables.seeded.connect).status = .ok := by decide +kernel
  obtain ⟨new, hlog, -, -, hall⟩ :=
    epssSync_complete_or_no_watermark scoreServer none 2 Tables.seeded.connect
  exact ⟨hok, new, hlog, hall _ scoreServer_serves hok⟩

end Cytadel.Db
