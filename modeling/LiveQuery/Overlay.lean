import LiveQuery.Change
import LiveQuery.WriteQueue

/-!
# Overlays

How the shown replica of a target is made: the server's replica with every
queued write to a covered key laid over it.
-/

namespace LiveQuery

namespace WriteQueue

/-- The keys that are written in the queue and covered by a target, in order. -/
def keysFor (q : WriteQueue) (t : Target) : List DocumentKey := q.keys.toList.filter t.covers

/-- Lays the queued writes to one key over its state in the server's replica. A key that is
    patched only, and of which nothing is known, is left alone: there is nothing to patch. -/
def layOver (q : WriteQueue) (server : Replica) (documents : Documents) (key : DocumentKey) :
    Documents :=
  let base := server.documents[key]?
  if base.isNone && !q.overwrites key && !server.isCompleteFor key then documents
  else match q.overlay key base with
    | some d => documents.insert key d
    | none => documents.erase key

/-- The replica to be shown. Without a write to a covered key it shares the server's documents.
    A document that is replaced or deleted locally is known whole, so a target that watches it
    alone is then initialized without the server. -/
def shownOver (q : WriteQueue) (t : Target) (server : Replica) (edition : Nat) : Replica :=
  match q.keysFor t with
  | [] => server.withFlags server.initialized t.isFiltered
  | keys =>
    { documents := keys.foldl (q.layOver server) server.documents
      edition
      initialized := server.initialized || (t.isDocument && keys.any q.overwrites)
      filtered := t.isFiltered }

end WriteQueue

end LiveQuery
