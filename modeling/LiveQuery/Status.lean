import LiveQuery.Identifier

/-!
# Statuses

The failures that a server reports, and which of them are worth another try.
-/

namespace LiveQuery

/-- The kinds of failure. -/
inductive StatusCode where
  | cancelled
  | unknown
  | invalidArgument
  | deadlineExceeded
  | notFound
  | alreadyExists
  | permissionDenied
  | resourceExhausted
  | failedPrecondition
  | aborted
  | outOfRange
  | unimplemented
  | internal
  | unavailable
  | dataLoss
  | unauthenticated
deriving DecidableEq, Repr

namespace StatusCode

/-- Every code once. -/
def all : List StatusCode :=
  [.cancelled, .unknown, .invalidArgument, .deadlineExceeded, .notFound, .alreadyExists,
    .permissionDenied, .resourceExhausted, .failedPrecondition, .aborted, .outOfRange,
    .unimplemented, .internal, .unavailable, .dataLoss, .unauthenticated]

/-- Whether a stream that failed with this code must not be opened again. -/
def isPermanent : StatusCode → Bool
  | .cancelled | .unknown | .deadlineExceeded | .resourceExhausted | .internal | .unavailable
  | .unauthenticated | .aborted => false
  | _ => true

/-- Whether a write rejected with this code must not be tried again. An aborted write is final,
    although an aborted stream is not. -/
def isPermanentForWrites (code : StatusCode) : Bool := code.isPermanent || code == .aborted

/-- The code as a reader sees it. -/
def text : StatusCode → String
  | .cancelled => "cancelled"
  | .unknown => "unknown"
  | .invalidArgument => "invalid-argument"
  | .deadlineExceeded => "deadline-exceeded"
  | .notFound => "not-found"
  | .alreadyExists => "already-exists"
  | .permissionDenied => "permission-denied"
  | .resourceExhausted => "resource-exhausted"
  | .failedPrecondition => "failed-precondition"
  | .aborted => "aborted"
  | .outOfRange => "out-of-range"
  | .unimplemented => "unimplemented"
  | .internal => "internal"
  | .unavailable => "unavailable"
  | .dataLoss => "data-loss"
  | .unauthenticated => "unauthenticated"

/-- The code as it is named on the wire. -/
def wireName : StatusCode → String
  | .cancelled => "Cancelled"
  | .unknown => "Unknown"
  | .invalidArgument => "InvalidArgument"
  | .deadlineExceeded => "DeadlineExceeded"
  | .notFound => "NotFound"
  | .alreadyExists => "AlreadyExists"
  | .permissionDenied => "PermissionDenied"
  | .resourceExhausted => "ResourceExhausted"
  | .failedPrecondition => "FailedPrecondition"
  | .aborted => "Aborted"
  | .outOfRange => "OutOfRange"
  | .unimplemented => "Unimplemented"
  | .internal => "Internal"
  | .unavailable => "Unavailable"
  | .dataLoss => "DataLoss"
  | .unauthenticated => "Unauthenticated"

/-- The code with a name on the wire. -/
def ofWireName? (name : String) : Option StatusCode := all.find? (·.wireName == name)

end StatusCode

/-- A failure with the server's words. -/
structure Status where
  code : StatusCode
  message : String
deriving DecidableEq, Repr

/-- The failure as a reader sees it. -/
def Status.text (s : Status) : String := s!"{s.code.text}: {s.message}"

/-- Why a stream ended, and which target is to blame, if one is. -/
structure StreamError where
  status : Status
  target : Option TargetId := none
deriving DecidableEq, Repr

namespace StreamError

/-- Whether the stream must not be opened again. -/
def isPermanent (e : StreamError) : Bool := e.status.code.isPermanent

def text (e : StreamError) : String := s!"stream closed: {e.status.text}"

end StreamError

end LiveQuery
