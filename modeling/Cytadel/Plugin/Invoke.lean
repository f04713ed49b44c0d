import Cytadel.Lib.Leases
import Cytadel.Plugin.FdTracker

/-!
# The sockets of an invocation

The descriptors that one call of `cytadel_plugin_invoke_one` (`src/plugin/
invoke.c`) opens and closes, through `src/plugin/api_socket.c` and the tracker.
The steps come in any order that the interpreter may bring about: a finaliser
can run while a call of `open_sock_tcp` waits for its userdata, and open sockets
of its own. Other threads open and close descriptors between any two steps, and
a number that is free may go to anyone.
-/

namespace Cytadel.Plugin

open Lib

/-- `cytadel_plugin_socket_t`. -/
structure Socket where
  fd : ℤ
  trackIdx : Option ℕ
  deriving DecidableEq, Repr

/-- `cytadel_plugin_socket_close`: the number that it closes, if any. -/
def socketClose (t : FdTracker) (sock : Socket) : FdTracker × Socket × Option ℤ :=
  if sock.fd < 0 then (t, sock, none)
  else
    let tracked := t.isTracked sock.trackIdx
    if tracked && t.isClosed sock.trackIdx then (t, { sock with fd := -1 }, none)
    else
      (if tracked then t.markClosed sock.trackIdx else t, { sock with fd := -1 }, some sock.fd)

/-- A call of `cytadel_plugin_api_open_sock_tcp` that has got a descriptor:
before the connection stands, before there is a userdata, and the userdata it
made. -/
inductive OpenCall
  | connecting (fd : ℤ)
  | tracked (fd : ℤ) (trackIdx : Option ℕ)
  | userdata (sock : Socket)
  deriving DecidableEq, Repr

def OpenCall.underWay : OpenCall → Bool
  | .userdata _ => false
  | _ => true

/-- Who closes a descriptor: a call whose connection fails, a userdata, a slot
of the tracker. -/
inductive Issuer
  | call (k : ℕ)
  | socket (k : ℕ)
  | slot (i : ℕ)
  deriving DecidableEq, Repr

/-- The Lua code, `lua_close`, `cytadel_plugin_fd_tracker_force_close_all` at
one of its slots, and the end. -/
inductive Phase
  | running
  | closing
  | sweeping (i : ℕ)
  | ended
  deriving DecidableEq, Repr

/-- An invocation among the descriptors of the process. Calls are numbered as
they get their descriptors; `registered` are the calls whose descriptor went
into the tracker, slot by slot. -/
structure Invocation where
  kernel : Leases ℤ ℕ Issuer
  tracker : FdTracker
  registered : List ℕ
  calls : ℕ
  call : ℕ → Option OpenCall
  phase : Phase

/-- The call whose descriptor is the issuer's own. -/
def Invocation.owned (s : Invocation) : Issuer → Option ℕ
  | .call k => some k
  | .socket k => some k
  | .slot i => s.registered[i]?

/-- `cytadel_plugin_invoke_one`, before the plugin runs: others have these
numbers open. -/
def invokeOne (others : ℤ → Bool) : Invocation where
  kernel := ⟨fun fd => if others fd then some .outside else none, []⟩
  tracker := ⟨[], 0, 0, false⟩
  registered := []
  calls := 0
  call := fun _ => none
  phase := .running

def Invocation.setCall (s : Invocation) (k : ℕ) (c : Option OpenCall) : Invocation :=
  { s with call := Function.update s.call k c }

/-- `close`, if there is a number to close. -/
def Invocation.close (s : Invocation) (issuer : Issuer) : Option ℤ → Invocation
  | none => s
  | some fd => { s with kernel := s.kernel.close issuer fd }

/-- Lua code runs: the plugin's, or a finaliser that `lua_close` calls. -/
def Phase.live : Phase → Bool
  | .running => true
  | .closing => true
  | _ => false

inductive Action
  | othersOpen (fd : ℤ)
  | othersClose (fd : ℤ)
  | socket (fd : ℤ)
  | connectFails (k : ℕ)
  | track (k : ℕ) (grown : Bool)
  | newUserdata (k : ℕ) (raised : Bool)
  | closeSock (k : ℕ)
  | luaClose
  | stateClosed
  | forceClose
  | free
  deriving DecidableEq, Repr

/-- One step. `closeSock` is `close_sock`, `__gc` and `__close` alike. -/
def invokeStep (a : Action) (s : Invocation) : Option Invocation :=
  match a with
  | .othersOpen fd =>
      if s.kernel.holder fd = none then some { s with kernel := s.kernel.give fd .outside }
      else none
  | .othersClose fd =>
      if s.kernel.holder fd = some .outside then some { s with kernel := s.kernel.release fd }
      else none
  | .socket fd =>
      if s.phase.live && fd ≥ 0 && s.kernel.holder fd = none then
        some { s.setCall s.calls (some (.connecting fd)) with
          kernel := s.kernel.give fd (.lease s.calls)
          calls := s.calls + 1 }
      else none
  | .connectFails k =>
      match s.call k with
      | some (.connecting fd) => some ((s.setCall k none).close (.call k) (some fd))
      | _ => none
  | .track k grown =>
      match s.call k with
      | some (.connecting fd) =>
          let (tracker, trackIdx) := s.tracker.add fd grown
          some { s.setCall k (some (.tracked fd trackIdx)) with
            tracker
            registered := s.registered ++ trackIdx.toList.map fun _ => k }
      | _ => none
  | .newUserdata k raised =>
      match s.call k with
      | some (.tracked fd trackIdx) =>
          some (s.setCall k (if raised then none else some (.userdata ⟨fd, trackIdx⟩)))
      | _ => none
  | .closeSock k =>
      match s.call k with
      | some (.userdata sock) =>
          let (tracker, sock, fd) := socketClose s.tracker sock
          some ({ s.setCall k (some (.userdata sock)) with tracker }.close (.socket k) fd)
      | _ => none
  | .luaClose =>
      if s.phase = .running then some { s with phase := .closing } else none
  | .stateClosed =>
      -- no call is under way any more, and the userdata are freed
      if s.phase = .closing ∧ ∀ k < s.calls, !(s.call k).any OpenCall.underWay then
        some { s with call := fun _ => none, phase := .sweeping 0 }
      else none
  | .forceClose =>
      match s.phase with
      | .sweeping i =>
          if i < s.tracker.count ∧ s.tracker.freed = false then
            let (tracker, fd) := s.tracker.forceClose i
            some ({ s with tracker, phase := .sweeping (i + 1) }.close (.slot i) fd)
          else none
      | _ => none
  | .free =>
      match s.phase with
      | .sweeping i =>
          if i < s.tracker.count ∧ s.tracker.freed = false then none
          else some { s with tracker := s.tracker.free, phase := .ended }
      | _ => none

end Cytadel.Plugin
