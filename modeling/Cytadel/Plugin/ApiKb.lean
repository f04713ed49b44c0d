import Cytadel.Kb.Kb
import Cytadel.Plugin.ApiReport

/-!
# What a plugin writes into the knowledge base

`set_kb_item` of `src/plugin/api_kb.c`. The type of the Lua value chooses the
setter; the setter checks the key and the value, and its refusal becomes an
error. What Lua converts, and the names of its types, are parameters.
-/

namespace Cytadel.Plugin

open Cytadel Kb

/-- How a plugin's values read as texts and numbers. -/
structure LuaConversions where
  toInteger : ToInteger
  /-- The text that Lua makes of a number. -/
  numberText : ℕ → Bytes
  typeName : LuaValue → Bytes

/-- An error that a call ends with: Lua's own about an argument, or the message
of a `luaL_error`. -/
inductive LuaError
  | badArgument (arg : ℤ)
  | raised (message : Bytes)
  deriving DecidableEq, Repr

/-- `luaL_checkstring`, as the C string that it is used as. -/
def checkString (lua : LuaConversions) (arg : ℤ) : LuaValue → Except LuaError Bytes
  | .string s => .ok (cstr s)
  | .number r => .ok (cstr (lua.numberText r))
  | _ => .error (.badArgument arg)

/-- The call of a setter that the value asks for. -/
def kbItemSetter (lua : LuaConversions) (key : Bytes) (value : LuaValue) :
    Except LuaError KbOp :=
  match value with
  | .string s => .ok (.setStrN (some key) (some s))
  | .number _ =>
      match lua.toInteger value with
      | some v => .ok (.setInt (some key) (Int64.ofInt v))
      | none => .error (.raised (ascii "set_kb_item: numeric value for key '" ++ key ++
          ascii "' must be an integer, not a non-integer float"))
  | .boolean b => .ok (.setBool (some key) b)
  | _ => .error (.raised (ascii "set_kb_item: unsupported value type '" ++ lua.typeName value ++
      ascii "' for key '" ++ key ++ ascii "' (expected string, integer, or boolean)"))

/-- `cytadel_plugin_api_set_kb_item`: the error, if there is one, and the
knowledge base afterwards. -/
def setKbItem (lua : LuaConversions) (kb : Kb) (a : Allocs) (key value : LuaValue) :
    Except LuaError Unit × Kb :=
  match checkString lua 1 key with
  | .error e => (.error e, kb)
  | .ok key =>
      match kbItemSetter lua key value with
      | .error e => (.error e, kb)
      | .ok op =>
          match kb.step op a with
          | (.set true, kb) => (.ok (), kb)
          | (_, kb) => (.error (.raised (ascii "set_kb_item: rejected key '" ++ key ++
              ascii "' (invalid/over-length key, over-length value, or invalid content -- " ++
              ascii "see the engine log)")), kb)

end Cytadel.Plugin
