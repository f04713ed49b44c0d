import Cytadel.Json
import Cytadel.Db.Schema

/-!
# Ingesting one document of a feed

The NVD, KEV and EPSS ingests are one procedure with different values: refuse
an oversized document, parse it before any transaction is open, find the array
of records, and then in one transaction prepare three statements, walk the
records up to a cap, and update the feed's row of `sync_state`. A record is
ingested or skipped; only a failing step, or a failing sync update, is fatal,
and then the transaction is rolled back.

What the code takes from outside is in `World`: the failing calls and the
clock, the JSON parser, and the number parser of the C library.
-/

namespace Cytadel.Db

open Cytadel Lib

/-- What `strtod` makes of a whole C string. -/
structure Strtod where
  value : Number
  /-- `endptr == buf`, or text is left at `endptr`. -/
  partly : Bool
  erange : Bool
  deriving DecidableEq

structure World where
  env : Env Call Bytes
  parse : Bytes → Option Json
  strtod : Bytes → Strtod

/-- The same world with nothing failing. -/
def World.faultless (w : World) : World := { w with env := w.env.faultless }

@[simp] theorem World.faultless_env (w : World) : w.faultless.env = w.env.faultless := rfl

@[simp] theorem World.faultless_parse (w : World) : w.faultless.parse = w.parse := rfl

@[simp] theorem World.faultless_strtod (w : World) : w.faultless.strtod = w.strtod := rfl

/-- A world in which nothing fails and these documents can be read. -/
def World.reading (docs : List (Bytes × Json)) : World where
  env := quietEnv
  parse bytes := docs.lookup bytes
  strtod _ := ⟨.finite 0, true, false⟩

/-- The status codes of the three ingests. -/
inductive IngestStatus
  | ok
  | errInvalidArg
  | errParse
  | errDb
  deriving DecidableEq, Repr

/-- The values in which the feeds differ. `processOne` also says whether the
record met a fatal error. -/
structure FeedSpec (C : Type) where
  maxBytes : ℕ
  arrayKey : Bytes
  maxRecords : ℕ
  stmts : List Stmt
  processOne : Json → C → Sql (C × Bool)
  zero : C
  skip : C → C
  seen : C → ℕ
  syncBinds : ℕ
  syncUpdate : ℕ → Bytes → Tables → Option Tables

structure IngestResult (C ρ : Type) where
  status : IngestStatus
  counts : C
  session : Session Tables ρ

/-- `cJSON_ParseWithLength`, which also fails when memory runs out. -/
def parseJson {ρ : Type} (w : World) (bytes : Bytes) (s : Session Tables ρ) :
    Option Json × Session Tables ρ :=
  (if w.env.fault s.calls .parse then none else w.parse bytes, s.tick)

namespace FeedSpec

variable {C ρ : Type}

/-- The record loop. What lies beyond the cap is counted as skipped. -/
def ingestRecords (f : FeedSpec C) : List Json → ℕ → C → Sql (C × Bool)
  | [], _, c => pure (c, false)
  | e :: es, 0, c => pure ((e :: es).foldl (fun c _ => f.skip c) c, false)
  | e :: es, n + 1, c => do
      let r ← f.processOne e c
      if r.2 then pure r else f.ingestRecords es n r.1

/-- Binds and steps the `sync_state` update; anything but DONE is fatal. -/
def updateSyncState (f : FeedSpec C) (c : C) : Sql Bool := do
  if ← Prog.attemptAll (.bind .syncState) f.syncBinds then
    let r ← Prog.exec (.step .syncState) (f.syncUpdate (f.seen c))
    pure (r == .done)
  else pure false

/-- The array of records of a parsed document, if it has one. -/
def records (f : FeedSpec C) (root : Option Json) : Option (List Json) :=
  match root with
  | none => none
  | some root => if root.isObject then jsonGetArray (some root) f.arrayKey else none

/-- One document. -/
def ingest (f : FeedSpec C) (w : World) (bytes : Bytes) (s : Session Tables ρ) :
    IngestResult C ρ :=
  if bytes.length > f.maxBytes then ⟨.errParse, f.zero, s⟩
  else
    let root := parseJson w bytes s
    match f.records root.1 with
    | none => ⟨.errParse, f.zero, root.2⟩
    | some elems =>
        let begun := root.2.begin w.env .begin
        if !begun.1 then ⟨.errDb, f.zero, begun.2⟩
        else
          let prepared := (prepareStatements f.stmts).run w.env begun.2
          if !prepared.1 then ⟨.errDb, f.zero, prepared.2.rollback w.env .rollback⟩
          else
            let looped := (f.ingestRecords elems f.maxRecords f.zero).run w.env prepared.2
            let counts := looped.1.1
            if looped.1.2 then ⟨.errDb, counts, looped.2.rollback w.env .rollback⟩
            else
              let synced := (f.updateSyncState counts).run w.env looped.2
              if !synced.1 then ⟨.errDb, counts, synced.2.rollback w.env .rollback⟩
              else
                let committed := synced.2.commit w.env .commit
                if !committed.1 then
                  ⟨.errDb, counts, committed.2.rollback w.env .rollback⟩
                else ⟨.ok, counts, committed.2⟩

end FeedSpec

end Cytadel.Db
