import LiveQuery.Replica
import LiveQuery.Target
import Std.Data.ExtTreeSet

/-!
# Remote events

Everything the server reported up to one snapshot, collected so that it takes
effect as a whole, and how a replica of the server takes it in.
-/

namespace LiveQuery

open Std

/-- What a snapshot says about one target. A key is added or removed, never both. -/
structure TargetChange where
  token : Option ResumeToken := none
  /-- Whether the target is complete as of the snapshot. -/
  current : Bool := false
  added : ExtTreeSet DocumentKey := ∅
  removed : ExtTreeSet DocumentKey := ∅

namespace TargetChange

/-- Whether the change says nothing. -/
def isEmpty (c : TargetChange) : Bool :=
  !c.current && c.token.isNone && c.added.isEmpty && c.removed.isEmpty

/-- The last word on a key counts. -/
def add (c : TargetChange) (key : DocumentKey) : TargetChange :=
  { c with removed := c.removed.erase key, added := c.added.insert key }

/-- The key left the target, and whatever was said of it before counts no more. -/
def remove (c : TargetChange) (key : DocumentKey) : TargetChange :=
  { c with added := c.added.erase key, removed := c.removed.insert key }

/-- Marks the target as complete. An earlier token stays if no new one comes. -/
def markCurrent (c : TargetChange) (token : Option ResumeToken) : TargetChange :=
  { c with current := true, token := token.or c.token }

end TargetChange

/-- The reports that one snapshot closes. -/
structure RemoteEvent where
  version : Version := .start
  changes : ExtTreeMap TargetId TargetChange := ∅
  /-- Targets whose earlier state counts no more. -/
  resets : ExtTreeSet TargetId := ∅
  /-- The last reported state of each document. -/
  updates : Documents := ∅

namespace RemoteEvent

/-- Whether no target is concerned. -/
def isEmpty (e : RemoteEvent) : Bool := e.changes.isEmpty && e.resets.isEmpty

/-- The targets that the event concerns. -/
def affected (e : RemoteEvent) : ExtTreeSet TargetId := .ofList (e.changes.keys ++ e.resets.toList)

/-- Edits what the event says about a target, starting from nothing. -/
def edit (e : RemoteEvent) (id : TargetId) (f : TargetChange → TargetChange) : RemoteEvent :=
  { e with changes := e.changes.insert id (f (e.changes.getD id {})) }

/-- A document belongs to a target. -/
def addDocument (e : RemoteEvent) (id : TargetId) (d : Document) : RemoteEvent :=
  { e.edit id (·.add d.key) with updates := e.updates.insert d.key d }

/-- A document left a target. -/
def removeDocument (e : RemoteEvent) (id : TargetId) (key : DocumentKey) : RemoteEvent :=
  e.edit id (·.remove key)

/-- A target is complete as of this snapshot. -/
def markCurrent (e : RemoteEvent) (id : TargetId) (token : Option ResumeToken) : RemoteEvent :=
  e.edit id (·.markCurrent token)

/-- Takes back what was said about a target, but for a reset. -/
def forgetChange (e : RemoteEvent) (id : TargetId) : RemoteEvent :=
  { e with changes := e.changes.erase id }

/-- Takes back all that was said about a target. -/
def discard (e : RemoteEvent) (id : TargetId) : RemoteEvent :=
  { e with changes := e.changes.erase id, resets := e.resets.erase id }

/-- The earlier state of a target counts no more. -/
def reset (e : RemoteEvent) (id : TargetId) : RemoteEvent :=
  { e with resets := e.resets.insert id }

/-- Only what concerns the given targets. -/
def restrict (e : RemoteEvent) (keep : TargetId → Bool) : RemoteEvent :=
  { e with changes := e.changes.filter fun id _ => keep id, resets := e.resets.filter keep }

/-- Puts the reported state of an added key into a set of documents, unless a newer state is
    there. -/
def putUpdate (e : RemoteEvent) (documents : Documents) (key : DocumentKey) : Documents :=
  match e.updates[key]? with
  | none => documents
  | some d =>
    if documents[key]?.any fun known => decide (d.version < known.version) then documents
    else documents.insert key d

/-- The documents of a target after the event. -/
def documentsAfter (e : RemoteEvent) (id : TargetId) (before : Documents) : Documents :=
  let start := if e.resets.contains id then ∅ else before
  match e.changes[id]? with
  | none => start
  | some change =>
    let kept := change.removed.toList.foldl (fun documents key => documents.erase key) start
    change.added.toList.foldl e.putUpdate kept

/-- Whether a target is complete after the event: because it now is, or because it was and is
    not reset. -/
def initializedAfter (e : RemoteEvent) (id : TargetId) (before : Bool) : Bool :=
  e.changes[id]?.any (·.current) || (!e.resets.contains id && before)

/-- The server's replica of a target after the event. -/
def applyTo (e : RemoteEvent) (id : TargetId) (filtered : Bool) (server : Replica)
    (edition : Nat) : Replica where
  documents := e.documentsAfter id server.documents
  edition
  initialized := e.initializedAfter id server.initialized
  filtered

end RemoteEvent

end LiveQuery
