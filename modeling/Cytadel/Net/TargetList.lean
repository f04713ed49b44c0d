import Mathlib.Data.List.Sort
import Cytadel.Net.TargetsFile

/-!
# The target list

`src/net/target_list.c`: the entries of the target spec and the lines of the
targets file are expanded into one array, in order, and the array is then freed
of later entries with an address that it already has.
-/

namespace Cytadel.Net

open Cytadel

/-- `cytadel_target_list_status_t`, without its OK. -/
inductive TargetListError
  | errInvalid
  | errResolve
  | errTooMany
  | errEmpty
  | errFile
  | errAlloc
  deriving DecidableEq, Repr

/-- A status and the text in the caller's error buffer. -/
abbrev TargetListResult (α : Type) := Except (TargetListError × Bytes) α

/-- CYTADEL_MAX_TARGETS. -/
def maxTargets : ℕ := 65536

/-- CYTADEL_TARGET_LIST_SPEC_MAX_LEN. -/
def specMaxLen : ℕ := 65536

/-- CYTADEL_TARGET_LIST_SPEC_MAX_TOKENS. -/
def specMaxTokens : ℕ := 8192

/-- `cytadel_target_dynarray_t` with the running total, and the number of calls
made to the outside. -/
structure Expansion where
  items : List Target
  capacity : ℕ
  total : ℕ
  calls : ℕ

/-- `cytadel_target_dynarray_push`. -/
def Expansion.push (env : NetEnv) (t : Target) (st : Expansion) : Option Expansion :=
  if st.items.length == st.capacity then
    if env.alloc st.calls then none
    else
      some { st with
        items := st.items ++ [t]
        capacity := if st.capacity = 0 then 64 else st.capacity * 2
        calls := st.calls + 1 }
  else some { st with items := st.items ++ [t] }

section

variable (env : NetEnv) (errLen : ℕ)

def listError {α : Type} (e : TargetListError) (msg : Bytes) : TargetListResult α :=
  .error (e, errText errLen msg)

/-- The loop over the addresses of a block, with the number still to come. -/
def pushAddresses (buf : Bytes) (cidr : Cidr) : ℕ → ℕ → Expansion → TargetListResult Expansion
  | 0, _, st => .ok st
  | left + 1, n, st =>
      match cidr.nthAddress n with
      | none =>
          listError errLen .errInvalid (ascii "internal error expanding CIDR block " ++ quoted buf)
      | some ip =>
          match st.push env ⟨ip, ip⟩ with
          | none => listError errLen .errAlloc (ascii "out of memory expanding target list")
          | some st => pushAddresses buf cidr left (n + 1) st

/-- `cytadel_target_list_expand_token`. The cap is checked before a block is
walked. -/
def expandToken (tok : Bytes) (st : Expansion) : TargetListResult Expansion :=
  let buf := trimSpaces tok
  if buf.isEmpty then listError errLen .errInvalid (ascii "empty target token")
  else if buf.length ≥ hostStrMax then
    listError errLen .errInvalid
      (ascii "target token too long (max 255 bytes): " ++ quoted buf)
  else if buf.contains 0x2F then
    match cidrParse 192 buf with
    | .error e => listError errLen .errInvalid e.2
    | .ok cidr =>
        if cidr.hostCount == 0 || st.total + cidr.hostCount > maxTargets then
          listError errLen .errTooMany
            (quoted buf ++ ascii " expands to " ++ decimal cidr.hostCount ++
              ascii " host(s), which would exceed the 65536-target cap " ++
              ascii "(CYTADEL_MAX_TARGETS) -- narrow the block or split it across multiple runs")
        else
          (pushAddresses env errLen buf cidr cidr.hostCount 0 st).map fun st =>
            { st with total := st.total + cidr.hostCount }
  else if st.total + 1 > maxTargets then
    listError errLen .errTooMany
      (ascii "target list exceeds the 65536-target cap (CYTADEL_MAX_TARGETS)")
  else
    match targetParse (env.getaddrinfo st.calls) 192 buf with
    | .error (.errResolve, msg) => listError errLen .errResolve msg
    | .error (_, msg) => listError errLen .errInvalid msg
    | .ok t =>
        match { st with calls := st.calls + 1 }.push env t with
        | none => listError errLen .errAlloc (ascii "out of memory expanding target list")
        | some st => .ok { st with total := st.total + 1 }

/-- The loop of `cytadel_target_list_expand_spec`, with the number of tokens
that came before. -/
def expandTokens : ℕ → List Bytes → Expansion → TargetListResult Expansion
  | _, [], st => .ok st
  | seen, tok :: toks, st =>
      if seen + 1 > specMaxTokens then
        listError errLen .errInvalid
          (ascii "too many comma-separated tokens in target spec (max 8192)")
      else
        match expandToken env errLen tok st with
        | .error e => .error e
        | .ok st => expandTokens (seen + 1) toks st

/-- `cytadel_target_list_expand_spec`. -/
def expandSpec (spec : Bytes) (st : Expansion) : TargetListResult Expansion :=
  if spec.length ≥ specMaxLen then
    listError errLen .errInvalid (ascii "target specification too long (max 65535 bytes)")
  else expandTokens env errLen 0 (spec.splitOn 0x2C) st

/-- The lines of the targets file, each of them one token. -/
def expandLines : List Bytes → Expansion → TargetListResult Expansion
  | [], st => .ok st
  | line :: lines, st =>
      match expandToken env errLen line st with
      | .error e => .error e
      | .ok st => expandLines lines st

/-- The part of `cytadel_target_list_parse` that reads the file. -/
def expandFile (path : Bytes) (st : Expansion) : TargetListResult Expansion :=
  match targetsFileRead env 224 path st.calls with
  | .error e => listError errLen .errFile e.2
  | .ok file => expandLines env errLen file.lines { st with calls := file.calls }

end

/-! ## De-duplication -/

/-- `cytadel_target_dedup_key_t`: an address and the index of its entry. -/
abbrev DedupKey := Bytes × ℕ

/-- `strcmp`, on C strings. -/
def strcmp : Bytes → Bytes → Ordering
  | [], [] => .eq
  | [], _ :: _ => .lt
  | _ :: _, [] => .gt
  | x :: xs, y :: ys => if x < y then .lt else if y < x then .gt else strcmp xs ys

/-- `cytadel_target_dedup_key_cmp`, as the order that `qsort` sorts by. -/
def dedupKeyLe (a b : DedupKey) : Bool :=
  match strcmp a.1 b.1 with
  | .lt => true
  | .gt => false
  | .eq => a.2 ≤ b.2

/-- The indices of the keys that differ in their address from the key before. -/
def keptIndices : Option Bytes → List DedupKey → List ℕ
  | _, [] => []
  | before, (ip, i) :: rest =>
      if before == some ip then keptIndices (some ip) rest
      else i :: keptIndices (some ip) rest

/-- `cytadel_target_list_dedup`. No two keys are equal, so sorting has one
outcome. -/
def targetListDedup (env : NetEnv) (errLen : ℕ) (items : List Target) (calls : ℕ) :
    TargetListResult (List Target) :=
  if items.length ≤ 1 then .ok items
  else if env.alloc calls || env.alloc (calls + 1) then
    listError errLen .errAlloc (ascii "out of memory de-duplicating target list")
  else
    let keys := (items.zipIdx.map fun p => (p.1.ip, p.2)).insertionSort fun a b => dedupKeyLe a b
    let keep := keptIndices none keys
    .ok ((items.zipIdx.filter fun p => keep.contains p.2).map (·.1))

/-- `cytadel_target_list_parse`; a pointer that is NULL is `none`. -/
def targetListParse (env : NetEnv) (errLen : ℕ) (spec targetsFilePath : Option Bytes) :
    TargetListResult (List Target) :=
  let spec := spec.filter fun s => !s.isEmpty
  let path := targetsFilePath.filter fun p => !p.isEmpty
  if spec.isNone && path.isNone then
    listError errLen .errEmpty
      (ascii "no targets given (need a target spec and/or --targets-file)")
  else do
    let st ← match spec with
      | some spec => expandSpec env errLen spec ⟨[], 0, 0, 0⟩
      | none => .ok ⟨[], 0, 0, 0⟩
    let st ← match path with
      | some path => expandFile env errLen path st
      | none => .ok st
    if st.total = 0 then
      listError errLen .errEmpty (ascii "target spec / targets-file produced zero targets")
    else targetListDedup env errLen st.items st.calls

/-- What a call leaves behind: its status, with the text in the error buffer
if it is not OK, and the caller's list. -/
structure TargetListCall where
  status : TargetListResult Unit
  outList : Option (List Target)

/-- `cytadel_target_list_parse` with the list that it writes to. -/
def targetListParseInto (env : NetEnv) (errLen : ℕ) (spec targetsFilePath : Option Bytes)
    (outList : Option (List Target)) : TargetListCall :=
  match outList with
  | none => ⟨listError errLen .errInvalid (ascii "internal error: out_list is NULL"), none⟩
  | some old =>
      match targetListParse env errLen spec targetsFilePath with
      | .error e => ⟨.error e, some old⟩
      | .ok targets => ⟨.ok (), some targets⟩

end Cytadel.Net
