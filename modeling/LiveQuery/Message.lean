import LiveQuery.Mutation
import LiveQuery.Status
import LiveQuery.Target

/-!
# Messages

What travels over the stream. The client adds and removes targets and sends
writes; the server answers those requests, reports documents, and marks the
points at which its reports are complete.
-/

namespace LiveQuery

/-- A report of the server on the watched targets. -/
inductive WatchChange where
  /-- Requests to add these targets were accepted. -/
  | targetAdded (targets : List TargetId)
  /-- These targets were removed: on request, or because they were rejected. -/
  | targetRemoved (targets : List TargetId) (cause : Option Status)
  /-- A document changed; it now belongs to the updated targets and left the removed ones. -/
  | documentChanged (document : Document) (updated removed : List TargetId)
  /-- Everything a target needs to be complete has been sent. -/
  | current (target : TargetId) (token : ResumeToken)
  /-- What was sent so far is one consistent whole. -/
  | snapshot (version : Version)

/-- A request of the client to change what is watched. -/
inductive WatchRequest where
  | add (id : TargetId) (target : Target) (token : Option ResumeToken)
  | remove (id : TargetId)

/-- A message to the server. -/
inductive StreamRequest where
  | watch (request : WatchRequest)
  | write (batch : MutationBatch)

/-- What the stream brings. -/
inductive StreamEvent where
  /-- The stream accepts requests. -/
  | opened
  | watch (change : WatchChange)
  | writeAcked (batch : BatchId) (commit : Version)
  | writeRejected (batch : BatchId) (status : Status)
  /-- The stream ended, without an error if the server finished. -/
  | closed (error : Option StreamError)

/-- The number of a report's type. -/
def WatchChange.typeCode : WatchChange → Nat
  | .targetAdded .. => 1
  | .targetRemoved .. => 2
  | .documentChanged .. => 3
  | .current .. => 4
  | .snapshot .. => 5

/-- The number of an event's type. -/
def StreamEvent.typeCode : StreamEvent → Nat
  | .opened => 10
  | .watch change => change.typeCode
  | .writeAcked .. => 11
  | .writeRejected .. => 12
  | .closed .. => 13

end LiveQuery
