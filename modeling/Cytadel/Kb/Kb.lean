import Mathlib.Algebra.Group.Nat.Defs
import Cytadel.Kb.KbValidate
import Cytadel.Lib.Chains

/-!
# The knowledge base of one host

`src/kb/kb.c`: a chained hash table from keys to typed values. Every
allocation can fail. Which ones do is a parameter of each call, one flag for
each place that allocates; the calls answer whether they succeeded and what
the table is afterwards, at each of their exits.
-/

namespace Cytadel

open Lib

namespace Kb

/-- `cytadel_kb_value_t`: the type and the union, as one. -/
inductive KbValue
  | str (s : Bytes)
  | int (i : Int64)
  | bool (b : Bool)
  deriving DecidableEq, Repr

end Kb

/-- `cytadel_kb_t`. There are `bucket_count` chains. `entry_count` counts
objects in memory, so it does not reach the end of its type. -/
structure Kb where
  buckets : List (List (Bytes × Kb.KbValue))
  entryCount : ℕ
  deriving DecidableEq, Repr

namespace Kb

/-- Which allocations of a call succeed. -/
structure Allocs where
  /-- The copy of a string value. -/
  copy : Bool
  /-- The entry, and its copy of the key. -/
  entry : Bool
  key : Bool
  /-- The bucket array of a table that grows. -/
  buckets : Bool
  deriving DecidableEq, Repr

def Allocs.all : Allocs := ⟨true, true, true, true⟩

/-- `cytadel_kb_hash`, FNV-1a. -/
def kbHash (s : Bytes) : UInt64 :=
  s.foldl (fun h c => (h ^^^ c.toUInt64) * 1099511628211) 1469598103934665603

def kbIndex (key : Bytes) : ℕ := (kbHash key).toNat

/-- `size_t` arithmetic. -/
def sizeT (n : ℕ) : ℕ := n % 2 ^ 64

/-- CYTADEL_KB_INITIAL_BUCKETS. -/
def kbInitialBuckets : ℕ := 64

/-- `cytadel_kb_create`, when both allocations succeed. -/
def kbCreate : Kb := ⟨List.replicate kbInitialBuckets [], 0⟩

/-- `cytadel_kb_find`. -/
protected def find (kb : Kb) (key : Bytes) : Option KbValue := Chains.find kbIndex kb.buckets key

/-- `cytadel_kb_grow_if_needed`. Nobody looks at its answer. -/
protected def growIfNeeded (kb : Kb) (a : Allocs) : Kb :=
  if sizeT ((kb.entryCount + 1) * 4) ≤ sizeT (kb.buckets.length * 3) then kb
  else
    let newCount := sizeT (kb.buckets.length * 2)
    if newCount ≤ kb.buckets.length then kb
    else if !a.buckets then kb
    else { kb with buckets := Chains.rehash kbIndex newCount kb.buckets }

/-- `cytadel_kb_insert_new`, with the value that its caller sets at once. -/
protected def insertNew (kb : Kb) (a : Allocs) (key : Bytes) (value : KbValue) : Bool × Kb :=
  if !a.entry then (false, kb)
  else if !a.key then (false, kb)
  else
    let kb := kb.growIfNeeded a
    (true, ⟨Chains.push kbIndex kb.buckets key value, kb.entryCount + 1⟩)

/-- What the three setters do from the lookup on. -/
protected def store (kb : Kb) (a : Allocs) (key : Bytes) (value : KbValue) : Bool × Kb :=
  match kb.find key with
  | none => kb.insertNew a key value
  | some _ => (true, { kb with buckets := Chains.overwrite kbIndex kb.buckets key value })

/-- `cytadel_kb_set_str_n`. -/
protected def setStrN (kb : Kb) (a : Allocs) (key value : Option Bytes) : Bool × Kb :=
  if !validateKey key then (false, kb)
  else
    match key, value with
    | some key, some value =>
        if value.length > kbValueMaxLen then (false, kb)
        else if !validateNoEmbeddedNul value then (false, kb)
        else if !validateUtf8 value then (false, kb)
        else if !a.copy then (false, kb)
        else kb.store a (cstr key) (.str value)
    | _, _ => (false, kb)

/-- `cytadel_kb_set_str`. -/
protected def setStr (kb : Kb) (a : Allocs) (key value : Option Bytes) : Bool × Kb :=
  match value with
  | none => (false, kb)
  | some value => kb.setStrN a key (some (cstr value))

/-- `cytadel_kb_set_int` and `cytadel_kb_set_bool`. -/
protected def setScalar (kb : Kb) (a : Allocs) (key : Option Bytes) (value : KbValue) : Bool × Kb :=
  if !validateKey key then (false, kb)
  else
    match key with
    | some key => kb.store a (cstr key) value
    | none => (false, kb)

/-- `cytadel_kb_set_int`. -/
protected def setInt (kb : Kb) (a : Allocs) (key : Option Bytes) (value : Int64) : Bool × Kb :=
  kb.setScalar a key (.int value)

/-- `cytadel_kb_set_bool`. -/
protected def setBool (kb : Kb) (a : Allocs) (key : Option Bytes) (value : Bool) : Bool × Kb :=
  kb.setScalar a key (.bool value)

/-- `cytadel_kb_get_status_t`, with the value when there is one. -/
inductive KbGet
  | found (value : KbValue)
  | notFound
  | invalidKey
  deriving DecidableEq, Repr

/-- `cytadel_kb_get`. -/
protected def get (kb : Kb) (key : Option Bytes) : KbGet :=
  match key with
  | none => .invalidKey
  | some buf =>
      if !validateKey (some buf) then .invalidKey
      else
        match kb.find (cstr buf) with
        | none => .notFound
        | some value => .found value

/-- `cytadel_kb_get_str`. -/
protected def getStr (kb : Kb) (key : Option Bytes) : Option Bytes :=
  match kb.get key with
  | .found (.str s) => some s
  | _ => none

/-- `cytadel_kb_foreach`: what the callback is called with, in order. -/
protected def foreach (kb : Kb) : List (Bytes × KbValue) := kb.buckets.flatten

/-- `cytadel_kb_count`. -/
protected def count (kb : Kb) : ℕ := kb.entryCount

/-! ## Runs -/

/-- A call of the interface. -/
inductive KbOp
  | setStrN (key value : Option Bytes)
  | setInt (key : Option Bytes) (value : Int64)
  | setBool (key : Option Bytes) (value : Bool)
  | get (key : Option Bytes)
  | getStr (key : Option Bytes)
  | foreach
  | count

/-- What a call answers. -/
inductive KbReply
  | set (ok : Bool)
  | get (r : KbGet)
  | str (s : Option Bytes)
  | visited (entries : List (Bytes × KbValue))
  | count (n : ℕ)

protected def step (kb : Kb) (op : KbOp) (a : Allocs) : KbReply × Kb :=
  match op with
  | .setStrN key value => ((kb.setStrN a key value).map .set id)
  | .setInt key value => ((kb.setInt a key value).map .set id)
  | .setBool key value => ((kb.setBool a key value).map .set id)
  | .get key => (.get (kb.get key), kb)
  | .getStr key => (.str (kb.getStr key), kb)
  | .foreach => (.visited kb.foreach, kb)
  | .count => (.count kb.count, kb)

/-- A run: the calls with their answers so far, and the table. -/
def kbRun (steps : List (KbOp × Allocs)) : List (KbOp × KbReply) × Kb :=
  steps.foldl
    (fun r st => (r.1 ++ [(st.1, (r.2.step st.1 st.2).1)], (r.2.step st.1 st.2).2))
    ([], kbCreate)

end Kb

end Cytadel
