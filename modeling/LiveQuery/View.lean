import LiveQuery.Change
import LiveQuery.Fault
import Std.Data.ExtTreeSet

/-!
# Views and listeners

A view holds what is known of a subscribed target. Its listeners are told of
its result: the first snapshot reports every document as added, and each later
one reports the difference to the snapshot before.
-/

namespace LiveQuery

open Std

/-- What a listener may rely on. -/
structure Flags where
  /-- The server has not confirmed that the result is its present one, or local writes are part
      of it. -/
  fromCache : Bool
  /-- Some document of the result carries writes that are not acknowledged. -/
  hasPendingWrites : Bool
deriving DecidableEq, Repr

/-- A view as a listener gets it. -/
structure ViewSnapshot where
  target : Target
  /-- The whole result in order. -/
  documents : List Document
  /-- The difference to the snapshot before, in order. -/
  changes : List Change
  flags : Flags

/-- What a listener gets. A fault is the last thing it gets. -/
abbrev ListenEvent := Except Fault ViewSnapshot

/-- What is held of one subscribed target, and who listens to it. -/
structure View where
  target : Target
  replicas : Replicas
  listeners : ExtTreeSet ListenerId := ∅

namespace View

/-- What the view shows. -/
def result (v : View) : Documents := v.replicas.shown.result v.target

/-- The flags of the view, given whether its target is current. -/
def flags (v : View) (current : Bool) : Flags :=
  let pending := v.result.list.any (·.hasLocalWrites)
  ⟨pending || !current, pending⟩

end View

/-- A listener and what it was last shown, with the flags of that snapshot. An unattached listener
    has given up its end of the line, and nothing reaches it. -/
structure Listener where
  target : TargetId
  seen : Option (Replica × Flags) := none
  attached : Bool := true

namespace Listener

/-- What the listener knows of the result. -/
def baseline (l : Listener) (t : Target) : Documents := l.seen.elim ∅ (·.1.result t)

/-- Whether the listener was last shown the very same documents under the same flags. This saves
    the comparison of two equal results. -/
def hasSeen (l : Listener) (shown : Replica) (flags : Flags) : Bool :=
  l.seen.any fun (replica, last) =>
    replica.shares shown && replica.initialized == shown.initialized && last == flags

/-- The next snapshot for a listener of a view, if there is something to tell. A view that is not
    initialized is never shown. -/
def next? (l : Listener) (v : View) (flags : Flags) : Option ViewSnapshot :=
  if l.hasSeen v.replicas.shown flags || !v.replicas.shown.initialized then none
  else
    let changes := v.target.changes (l.baseline v.target) v.result
    if changes.isEmpty && l.seen.any (·.2 == flags) then none
    else some ⟨v.target, v.target.sorted v.result, changes, flags⟩

/-- The listener after it was shown a view. -/
def shown (l : Listener) (v : View) (flags : Flags) : Listener :=
  { l with seen := some (v.replicas.shown, flags) }

end Listener

end LiveQuery
