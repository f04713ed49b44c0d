import Mathlib.Data.Int.Notation
import Mathlib.Data.List.Basic

/-!
# The descriptor tracker of an invocation

`src/plugin/fd_tracker.c`. The slots in use are a list, which is `NULL` when
the tracker has been freed; the count stays, so that a slot that was once given
out is told from one that never was. The index `(size_t)-1` is `none`.
-/

namespace Cytadel.Plugin

/-- `cytadel_plugin_fd_tracker_t`. -/
structure FdTracker where
  fds : List ℤ
  count : ℕ
  capacity : ℕ
  freed : Bool
  deriving DecidableEq, Repr

namespace FdTracker

/-- `cytadel_plugin_fd_tracker_add`; `grown` is whether `realloc` succeeds, if
it is called. -/
def add (t : FdTracker) (fd : ℤ) (grown : Bool) : FdTracker × Option ℕ :=
  if t.count = t.capacity && !grown then (t, none)
  else
    let capacity :=
      if t.count = t.capacity then if t.capacity = 0 then 8 else t.capacity * 2
      else t.capacity
    ({ t with fds := t.fds ++ [fd], count := t.count + 1, capacity }, some t.count)

/-- `cytadel_plugin_fd_tracker_mark_closed`. -/
def markClosed (t : FdTracker) : Option ℕ → FdTracker
  | none => t
  | some i => if t.freed || i ≥ t.count then t else { t with fds := t.fds.set i (-1) }

/-- `cytadel_plugin_fd_tracker_is_closed`. -/
def isClosed (t : FdTracker) : Option ℕ → Bool
  | none => true
  | some i => if i ≥ t.count then true else if t.freed then true else t.fds.getD i (-1) < 0

/-- `cytadel_plugin_fd_tracker_is_tracked`. -/
def isTracked (t : FdTracker) : Option ℕ → Bool
  | none => false
  | some i => i < t.count

/-- One turn of the loop of `cytadel_plugin_fd_tracker_force_close_all`: the
number that is closed, if any. -/
def forceClose (t : FdTracker) (i : ℕ) : FdTracker × Option ℤ :=
  let fd := t.fds.getD i (-1)
  if fd ≥ 0 then ({ t with fds := t.fds.set i (-1) }, some fd) else (t, none)

/-- `cytadel_plugin_fd_tracker_free`. -/
def free (t : FdTracker) : FdTracker := { t with fds := [], capacity := 0, freed := true }

end FdTracker

end Cytadel.Plugin
