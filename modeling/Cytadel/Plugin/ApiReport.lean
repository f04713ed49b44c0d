import Mathlib.Data.Int.Notation
import Cytadel.Bytes

/-!
# What a plugin reports

`src/plugin/api_report.c` and the field readers of `src/plugin/field_utils.c`
that it calls. `report_vuln` gets a Lua table: all fields are checked first,
then they are read again and copied, each as a C string. What Lua converts to
an integer is its own matter, and is a parameter.
-/

namespace Cytadel.Plugin

open Cytadel

/-- A value of a plugin. A string has a length of its own and may hold a NUL;
a table is here what `lua_rawlen` and `lua_rawgeti` see of it, and a number
what Lua makes of it. -/
inductive LuaValue
  | nil
  | boolean (b : Bool)
  | number (repr : ℕ)
  | string (s : Bytes)
  | table (items : List LuaValue)
  | other

/-- The raw fields of the reported table. -/
abbrev LuaTable := Bytes → LuaValue

/-- `lua_tointegerx`. -/
abbrev ToInteger := LuaValue → Option ℤ

/-- The fields of the plugin header that a finding takes over; they are C
strings already. -/
structure PluginHeader where
  scriptId : Int64
  scriptName : Option Bytes
  solution : Option Bytes
  cvssVector : Option Bytes

/-- `cytadel_finding_t`. -/
structure PluginFinding where
  severity : ℤ
  title : Option Bytes
  description : Option Bytes
  evidence : Option Bytes
  port : ℤ
  solution : Option Bytes
  cve : List Bytes
  cpe : Option Bytes
  cvssVector : Option Bytes
  scriptId : Int64
  scriptName : Option Bytes

/-- A message of `luaL_error`: the function, the field, and what is wrong. -/
def fieldError (field : Bytes) (text : String) : Bytes :=
  ascii "report_vuln: field '" ++ field ++ ascii "' " ++ ascii text

/-! ## The checks -/

/-- A check after another passes when both do. -/
theorem bind_eq_ok_iff {ε α β : Type} {x : Except ε α} {g : α → Except ε β} {b : β} :
    x >>= g = .ok b ↔ ∃ a, x = .ok a ∧ g a = .ok b := by
  cases x with
  | error e => simp [bind, Except.bind]
  | ok a => simp [bind, Except.bind]

def checkInteger (toInteger : ToInteger) (t : LuaTable) (field : Bytes) : Except Bytes ℤ :=
  match toInteger (t field) with
  | none => .error (fieldError field "is required and must be an integer")
  | some i => .ok i

def checkSeverity (severity : ℤ) : Except Bytes Unit :=
  if severity < 0 ∨ severity > 4 then
    .error (fieldError (ascii "severity") "must be 0-4 (got " ++ decimalInt severity ++ ascii ")")
  else .ok ()

/-- The part of `cytadel_report_vuln_validate_fields` on a required string, and
`cytadel_plugin_field_required_string` before it copies. -/
def checkRequiredString (t : LuaTable) (field : Bytes) : Except Bytes Bytes :=
  match t field with
  | .string s =>
      if s.length = 0 then .error (fieldError field "must be non-empty") else .ok s
  | _ => .error (fieldError field "is required and must be a string")

/-- The same for a string that may be absent. -/
def checkOptionalString (t : LuaTable) (field : Bytes) : Except Bytes (Option Bytes) :=
  match t field with
  | .nil => .ok none
  | .string s => .ok (some s)
  | _ => .error (fieldError field "must be a string or nil")

/-- The items of `cve`, numbered from `i`. -/
def checkItems : ℕ → List LuaValue → Except Bytes (List Bytes)
  | _, [] => .ok []
  | i, .string s :: items =>
      match checkItems (i + 1) items with
      | .ok ss => .ok (s :: ss)
      | .error e => .error e
  | i, _ => .error (ascii "report_vuln: field 'cve'[" ++ decimal i ++ ascii "] must be a string")

/-- `cytadel_plugin_field_optional_string_array` before it copies. -/
def checkStringArray (t : LuaTable) (field : Bytes) : Except Bytes (List Bytes) :=
  match t field with
  | .nil => .ok []
  | .table items => checkItems 1 items
  | _ => .error (fieldError field "must be an array of strings")

/-- `cytadel_report_vuln_validate_fields`. -/
def validateFields (toInteger : ToInteger) (t : LuaTable) : Except Bytes Unit := do
  checkSeverity (← checkInteger toInteger t (ascii "severity"))
  let _ ← checkRequiredString t (ascii "title")
  let _ ← checkRequiredString t (ascii "evidence")
  let _ ← checkInteger toInteger t (ascii "port")
  let _ ← checkOptionalString t (ascii "description")
  let _ ← checkOptionalString t (ascii "solution")
  let _ ← checkOptionalString t (ascii "cpe")
  let _ ← checkOptionalString t (ascii "cvss_vector")
  let _ ← checkStringArray t (ascii "cve")

/-- `cytadel_plugin_api_report_vuln`, when every allocation succeeds: the
finding that is appended. The copies are `cytadel_plugin_strdup`, so they end
at the first NUL. -/
def reportVuln (toInteger : ToInteger) (header : PluginHeader) (t : LuaTable) :
    Except Bytes PluginFinding := do
  validateFields toInteger t
  let severity ← checkInteger toInteger t (ascii "severity")
  checkSeverity severity
  let title ← checkRequiredString t (ascii "title")
  let evidence ← checkRequiredString t (ascii "evidence")
  let port ← checkInteger toInteger t (ascii "port")
  let description ← checkOptionalString t (ascii "description")
  let solution ← checkOptionalString t (ascii "solution")
  let cve ← checkStringArray t (ascii "cve")
  let cpe ← checkOptionalString t (ascii "cpe")
  let cvssVector ← checkOptionalString t (ascii "cvss_vector")
  return {
    severity := severity
    title := some (cstr title)
    description := description.map cstr
    evidence := some (cstr evidence)
    port := port
    solution := (solution.map cstr).or header.solution
    cve := cve.map cstr
    cpe := cpe.map cstr
    cvssVector := (cvssVector.map cstr).or header.cvssVector
    scriptId := header.scriptId
    scriptName := header.scriptName }

end Cytadel.Plugin
