import Mathlib.Algebra.Order.Ring.Unbundled.Rat
import Cytadel.Bytes

/-!
# Parsed JSON documents

The tree that `cJSON_ParseWithLength` hands back, as far as the feeds look at
it. A decoded string may hold a NUL byte, and then every reader sees only what
stands before it; a key is compared the same way. Numbers are doubles: a
finite one is a rational, and a literal such as `1e400` overflows to an
infinity.
-/

namespace Cytadel

inductive Number
  | finite (q : ℚ)
  | posInf
  | negInf
  deriving DecidableEq

/-- The number when it is finite and in `[0, hi]`. -/
def Number.within (hi : ℚ) : Number → Option ℚ
  | .finite q => if 0 ≤ q && q ≤ hi then some q else none
  | _ => none

inductive Json
  | null
  | bool (b : Bool)
  | number (v : Number)
  | string (s : Bytes)
  | array (items : List Json)
  | object (fields : List (Bytes × Json))

/-- `cJSON_GetObjectItemCaseSensitive`: the first field of that name. A
missing value, a scalar and an array have no fields. -/
def jsonGetItem : Option Json → Bytes → Option Json
  | some (.object fields), key => (fields.find? fun f => cstr f.1 == key).map (·.2)
  | _, _ => none

/-- `cJSON_IsObject`. -/
def Json.isObject : Json → Bool
  | .object _ => true
  | _ => false

/-- The items of an array value; anything else is no array. -/
def jsonGetArray (obj : Option Json) (key : Bytes) : Option (List Json) :=
  match jsonGetItem obj key with
  | some (.array items) => some items
  | _ => none

/-- `json_get_string`. -/
def jsonGetString (obj : Option Json) (key : Bytes) : Option Bytes :=
  match jsonGetItem obj key with
  | some (.string s) => some (cstr s)
  | _ => none

/-- `json_get_string` for a field that also must not be empty. -/
def jsonGetNonempty (obj : Option Json) (key : Bytes) : Option Bytes :=
  (jsonGetString obj key).filter fun s => !s.isEmpty

/-- `json_get_number`. -/
def jsonGetNumber (obj : Option Json) (key : Bytes) : Option Number :=
  match jsonGetItem obj key with
  | some (.number v) => some v
  | _ => none

/-- `json_get_bool`. -/
def jsonGetBool (obj : Option Json) (key : Bytes) : Option Bool :=
  match jsonGetItem obj key with
  | some (.bool b) => some b
  | _ => none

end Cytadel
