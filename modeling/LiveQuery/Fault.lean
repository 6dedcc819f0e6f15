import LiveQuery.Status

/-!
# Faults

Everything that can go wrong for a caller, with the words for it.
-/

namespace LiveQuery

/-- The cause of a failed call. -/
inductive Fault where
  /-- The connection failed. -/
  | transport (message : String) (retryable : Bool)
  /-- The stream ended with an error. -/
  | stream (error : StreamError)
  /-- The server refused or dropped a target. -/
  | targetRejected (target : TargetId) (status : Status)
  /-- The server refused a batch of writes. -/
  | mutationRejected (batch : BatchId) (status : Status)
  /-- The store failed. -/
  | persistence (message : String)
  /-- A message does not fit the state of the engine. -/
  | internal (message : String)
  | unknownListener (id : ListenerId)
  | unknownTarget (id : TargetId)
  /-- The engine is gone. -/
  | shutdown
deriving DecidableEq, Repr

namespace Fault

/-- The words for a caller. -/
def message : Fault → String
  | .transport message _ => s!"transport error: {message}"
  | .stream error => error.text
  | .targetRejected target status => s!"{target.text} rejected: {status.text}"
  | .mutationRejected batch status => s!"{batch.text} rejected: {status.text}"
  | .persistence message => s!"persistence error: {message}"
  | .internal message => s!"internal invariant violated: {message}"
  | .unknownListener id => s!"unknown listener {id.val}"
  | .unknownTarget id => s!"unknown {id.text}"
  | .shutdown => "sync engine shut down"

/-- Whether the same call may succeed later. -/
def isRetryable : Fault → Bool
  | .transport _ retryable => retryable
  | .stream error => !error.isPermanent
  | .mutationRejected _ status => !status.code.isPermanentForWrites
  | _ => false

/-- The code of the server's status, if the server is the cause. -/
def code : Fault → Option StatusCode
  | .stream error => some error.status.code
  | .targetRejected _ status => some status.code
  | .mutationRejected _ status => some status.code
  | _ => none

end Fault

end LiveQuery
