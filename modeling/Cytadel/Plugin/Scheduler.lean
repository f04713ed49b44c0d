import Mathlib.Data.List.Sort
import Cytadel.Plugin.ApiKb

/-!
# Which plugins run, and on which ports

`src/plugin/scheduler.c`, and the part of `src/plugin/register.c` that checks
`required_keys`. A plugin is gated on keys of the knowledge base. One of them
may be `Services/<svc>/*`: then it runs once for each port that such a key
names, and the others are asked again before each run. As long as memory lasts
no port is lost; what an invocation writes is a parameter.
-/

namespace Cytadel.Plugin

open Cytadel Kb

/-! ## Registration -/

def servicesPrefix : Bytes := ascii "Services/"

/-- What `cytadel_plugin_match_service_wildcard` finds. -/
inductive KeyPattern
  | exact
  | wildcard (svcLen : ℕ)
  | malformed
  deriving DecidableEq, Repr

/-- `cytadel_plugin_match_service_wildcard`. -/
def matchServiceWildcard (key : Bytes) : KeyPattern :=
  if !key.contains 0x2A then .exact
  else if key.length ≤ servicesPrefix.length ||
      key.take servicesPrefix.length != servicesPrefix then
    .malformed
  else if key.getLast? != some 0x2A || key.length < servicesPrefix.length + 3 ||
      key[key.length - 2]? != some slash then
    .malformed
  else
    let svcLen := key.length - servicesPrefix.length - 2
    let svc := (key.drop servicesPrefix.length).take svcLen
    if !svc.all okChar then .malformed
    else if svcLen = 0 then .malformed
    else .wildcard svcLen

/-- `register: required_keys[%I]`, then what is wrong with it; `i` counts from
zero. -/
def requiredKeyError (i : ℕ) (text : Bytes) : LuaError :=
  .raised (ascii "register: required_keys[" ++ decimal (i + 1) ++ ascii "]" ++ text)

/-- The loop of `cytadel_plugin_validate_required_keys`, from index `i`, with
the `wildcard_index` so far. -/
def validateRequiredKeysFrom : ℕ → Option ℕ → List Bytes → Except LuaError (Option ℕ)
  | _, wildcardIndex, [] => .ok wildcardIndex
  | i, wildcardIndex, key :: keys =>
      if key.isEmpty then .error (requiredKeyError i (ascii " must not be empty"))
      else
        match matchServiceWildcard key with
        | .malformed => .error (requiredKeyError i (ascii " ('" ++ key ++
            ascii "') is not a valid pattern -- '*' is only legal as a whole trailing " ++
            ascii "\"Services/<svc>/*\" wildcard"))
        | .exact => validateRequiredKeysFrom (i + 1) wildcardIndex keys
        | .wildcard _ =>
            match wildcardIndex with
            | some _ => .error (.raised (ascii "register: required_keys may contain at most one " ++
                ascii "\"Services/<svc>/*\" wildcard (found a second at index " ++
                decimal (i + 1) ++ ascii ")"))
            | none => validateRequiredKeysFrom (i + 1) (some i) keys

/-- `cytadel_plugin_validate_required_keys`: the `wildcard_index`. -/
def validateRequiredKeys (keys : List Bytes) : Except LuaError (Option ℕ) :=
  validateRequiredKeysFrom 0 none keys

/-! ## Gates and ports -/

/-- `cytadel_scheduler_exact_key_present`. -/
def exactKeyPresent (kb : Kb) (key : Bytes) : Bool :=
  match kb.get (some key) with
  | .found _ => true
  | _ => false

/-- `cytadel_scheduler_extra_gates_satisfied`, on the keys from index `i` on. -/
def extraGatesFrom (kb : Kb) (skipIndex : Option ℕ) : ℕ → List Bytes → Bool
  | _, [] => true
  | i, key :: keys =>
      if some i = skipIndex then extraGatesFrom kb skipIndex (i + 1) keys
      else if !exactKeyPresent kb key then false
      else extraGatesFrom kb skipIndex (i + 1) keys

def extraGatesSatisfied (keys : List Bytes) (kb : Kb) (skipIndex : Option ℕ) : Bool :=
  extraGatesFrom kb skipIndex 0 keys

/-- The digits of a port; a number above 65535 ends the loop. -/
def portDigits : Bytes → ℕ → Option ℕ
  | [], port => some port
  | c :: cs, port =>
      if c < 0x30 || c > 0x39 then none
      else
        let port := port * 10 + (c.toNat - 0x30)
        if port > 65535 then none else portDigits cs port

/-- `cytadel_scheduler_collect_port` on one key. -/
def collectPort (svc key : Bytes) : Option ℕ :=
  if key.length ≤ servicesPrefix.length + svc.length + 1 then none
  else if key.take servicesPrefix.length != servicesPrefix then none
  else if (key.drop servicesPrefix.length).take svc.length != svc then none
  else if key[servicesPrefix.length + svc.length]? != some slash then none
  else
    let portStr := key.drop (servicesPrefix.length + svc.length + 1)
    if portStr.isEmpty || portStr.contains slash then none
    else
      match portDigits portStr 0 with
      | none => none
      | some port => if port < 1 then none else some port

/-- `cytadel_scheduler_wildcard_service`. -/
def wildcardService (key : Bytes) : Bytes :=
  (key.drop servicesPrefix.length).take (key.length - servicesPrefix.length - 2)

/-! ## Dispatch -/

/-- `cytadel_plugin_result_status_t`. -/
inductive PluginResultStatus
  | ok
  | skipped
  | failed
  deriving DecidableEq, Repr

/-- What `cytadel_plugin_invoke_one` does to the knowledge base: the calls of
`set_kb_item` that the plugin makes, in order, and whether it fails. -/
structure Invocations where
  lua : LuaConversions
  sets : Kb → ℤ → List (LuaValue × LuaValue × Allocs)
  fails : Kb → ℤ → Bool

/-- `cytadel_plugin_invoke_one`, bound to a port. -/
def Invocations.invokeOne (invocations : Invocations) (kb : Kb) (boundPort : ℤ) :
    PluginResultStatus × Kb :=
  (if invocations.fails kb boundPort then .failed else .ok,
    (invocations.sets kb boundPort).foldl
      (fun kb item => (setKbItem invocations.lua kb item.2.2 item.1 item.2.1).2) kb)

/-- A call of `on_result`: the bound port and the status. -/
abbrev PluginResult := ℤ × PluginResultStatus

/-- The loop over the collected ports. -/
def dispatchPorts (keys : List Bytes) (wildcardIndex : ℕ) (invocations : Invocations) :
    List ℕ → Kb → List PluginResult × Kb
  | [], kb => ([], kb)
  | port :: ports, kb =>
      if !extraGatesSatisfied keys kb (some wildcardIndex) then
        let rest := dispatchPorts keys wildcardIndex invocations ports kb
        ((port, .skipped) :: rest.1, rest.2)
      else
        let (status, kb) := invocations.invokeOne kb port
        let rest := dispatchPorts keys wildcardIndex invocations ports kb
        ((port, status) :: rest.1, rest.2)

/-- `cytadel_scheduler_run_wildcard_plugin`: what is reported, and the knowledge
base afterwards. -/
def runWildcardPlugin (keys : List Bytes) (wildcardIndex : ℕ) (invocations : Invocations)
    (kb : Kb) : List PluginResult × Kb :=
  let svc := wildcardService (keys[wildcardIndex]?.getD [])
  let ports := kb.foreach.filterMap fun e => collectPort svc e.1
  if ports.isEmpty then ([(-1, .skipped)], kb)
  else dispatchPorts keys wildcardIndex invocations (ports.insertionSort (· ≤ ·)) kb

/-- `cytadel_scheduler_run_exact_key_plugin`. -/
def runExactKeyPlugin (keys : List Bytes) (invocations : Invocations) (kb : Kb) :
    List PluginResult × Kb :=
  if !extraGatesSatisfied keys kb none then ([(-1, .skipped)], kb)
  else
    let (status, kb) := invocations.invokeOne kb (-1)
    ([(-1, status)], kb)

end Cytadel.Plugin
