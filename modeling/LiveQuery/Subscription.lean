import LiveQuery.Fault
import LiveQuery.Message
import Std.Data.ExtTreeMap

/-!
# Subscriptions

A subscription is one target that the server is asked to watch. Requests to add
and to remove it are answered one by one and in order, so counting the
unanswered ones tells which answer is the last. The table holds every
subscription that is listened to or that still awaits an answer, and the
requests that are to be written.
-/

namespace LiveQuery

open Std

/-- One target that the server is or was asked to watch. -/
structure Subscription where
  id : TargetId
  target : Target
  /-- From where the server may resume. -/
  token : Option ResumeToken := none
  /-- The snapshot at which the target last was complete. -/
  version : Version := .start
  /-- Requests to add that are not answered. -/
  adds : Nat := 0
  /-- Requests to remove that are not answered. -/
  removes : Nat := 0
  /-- Whether what is known of the target is the server's present state. -/
  current : Bool := false
  /-- Whether anybody listens. -/
  listening : Bool := true

namespace Subscription

/-- Whether reports on the target count: somebody listens and the last request to add is
    answered. -/
def isActive (s : Subscription) : Bool := s.listening && s.adds == 0

/-- The request to add the target, resuming where it can. -/
def addRequest (s : Subscription) : WatchRequest := .add s.id s.target s.token

/-- Nothing is on the way to or from the server. -/
def settled (s : Subscription) : Subscription :=
  { s with adds := 0, removes := 0, current := false }

/-- A new stream starts with one request to add. -/
def reopened (s : Subscription) : Subscription :=
  { s with adds := 1, removes := 0, current := false }

end Subscription

/-- What an accepted request to add amounts to. -/
inductive AddOutcome where
  /-- It was the last one, and reports count from now on. With `reset` the server repeats the
      whole result, so what is known must be dropped. -/
  | activated (reset : Bool)
  /-- A later request overtook it. -/
  | superseded
deriving DecidableEq, Repr

/-- What a removal amounts to. -/
inductive RemoveOutcome where
  /-- A request to remove is answered, and others are under way. -/
  | acknowledged
  /-- The subscription is gone. -/
  | released
  /-- The answer belongs to a request that was overtaken. -/
  | staleIgnored
  /-- The server dropped the target on its own account; it is asked again. -/
  | readded
  /-- The server refuses the target; the subscription is gone. -/
  | rejected (status : Status)
deriving DecidableEq, Repr

/-- The subscriptions by number and by canonical name, and the requests to be written. -/
structure Subscriptions where
  table : ExtTreeMap TargetId Subscription := ∅
  byName : ExtTreeMap String TargetId := ∅
  nextId : Nat := 1
  streamOpen : Bool := false
  outbox : List WatchRequest := []

namespace Subscriptions

def get? (s : Subscriptions) (id : TargetId) : Option Subscription := s.table[id]?

def contains (s : Subscriptions) (id : TargetId) : Bool := s.table.contains id

def isActive (s : Subscriptions) (id : TargetId) : Bool := s.table[id]?.any (·.isActive)

def isCurrent (s : Subscriptions) (id : TargetId) : Bool := s.table[id]?.any (·.current)

/-- The number under which a target is subscribed. -/
def find? (s : Subscriptions) (t : Target) : Option TargetId := s.byName[t.canonicalId]?

/-- The targets that somebody listens to, in order. -/
def listening (s : Subscriptions) : List TargetId :=
  (s.table.filter fun _ sub => sub.listening).keys

/-- Every subscription, in order. -/
def list (s : Subscriptions) : List Subscription := s.table.toList.map (·.2)

/-- Whether anybody listens to anything. -/
def anyListening (s : Subscriptions) : Bool := s.list.any (·.listening)

/-- Puts a subscription in the place of the one with its number. -/
def put (s : Subscriptions) (sub : Subscription) : Subscriptions :=
  { s with table := s.table.insert sub.id sub }

/-- Puts a subscription back and asks the server to add it. -/
def putAndAdd (s : Subscriptions) (sub : Subscription) : Subscriptions :=
  { s.put sub with outbox := s.outbox ++ [sub.addRequest] }

/-- Forgets a subscription. -/
def release (s : Subscriptions) (id : TargetId) : Subscriptions :=
  match s.table[id]? with
  | none => s
  | some sub =>
    { s with table := s.table.erase id, byName := s.byName.erase sub.target.canonicalId }

/-- Starts a subscription that is new or that nobody listened to. On an open stream one more
    request to add goes out. -/
def start (s : Subscriptions) (sub : Subscription) : Subscriptions :=
  if s.streamOpen then s.putAndAdd { sub with adds := sub.adds + 1 } else s.put sub

/-- A new subscription under the next number. -/
def subscribe (s : Subscriptions) (t : Target) : TargetId × Subscriptions :=
  let id : TargetId := ⟨s.nextId⟩
  let s := { s with byName := s.byName.insert t.canonicalId id, nextId := s.nextId + 1 }
  (id, s.start { id, target := t })

/-- Listens to a target. A subscription that is still known is taken up again, and an unanswered
    request to remove it counts no more. -/
def listen (s : Subscriptions) (t : Target) : TargetId × Subscriptions :=
  match (s.find? t).bind s.get? with
  | none => s.subscribe t
  | some sub =>
    if sub.listening then (sub.id, s)
    else (sub.id, s.start { sub with listening := true, current := false, removes := 0 })

/-- Stops listening to a target. Without a stream the server knows nothing of it, and it is
    forgotten at once. -/
def unlisten (s : Subscriptions) (id : TargetId) : Subscriptions :=
  match s.table[id]? with
  | none => s
  | some sub =>
    if !sub.listening then s
    else if !s.streamOpen then s.release id
    else
      let sub := { sub with listening := false, current := false, removes := sub.removes + 1 }
      { s.put sub with outbox := s.outbox ++ [.remove id] }

/-- The server accepted a request to add. -/
def added (s : Subscriptions) (id : TargetId) : Except Fault (AddOutcome × Subscriptions) :=
  match s.table[id]? with
  | none => .error (.unknownTarget id)
  | some sub =>
    if sub.adds = 0 then
      .error (.internal s!"{id.text} acknowledged with no add outstanding")
    else
      let sub := { sub with adds := sub.adds - 1 }
      let outcome := if sub.isActive then .activated sub.token.isNone else .superseded
      .ok (outcome, s.put sub)

/-- The server removed a target without saying why. -/
def dropped (s : Subscriptions) (sub : Subscription) : RemoveOutcome × Subscriptions :=
  if 0 < sub.removes then
    let sub := { sub with removes := sub.removes - 1 }
    if !sub.listening && sub.adds == 0 && sub.removes == 0 then (.released, s.release sub.id)
    else (.acknowledged, s.put sub)
  else if 0 < sub.adds then (.staleIgnored, s)
  else if sub.listening then
    let sub := { sub with current := false }
    (.readded, if s.streamOpen then s.putAndAdd { sub with adds := 1 } else s.put sub)
  else (.released, s.release sub.id)

/-- The server removed a target. A cause makes the removal final. -/
def removed (s : Subscriptions) (id : TargetId) (cause : Option Status) :
    Except Fault (RemoveOutcome × Subscriptions) :=
  match s.table[id]?, cause with
  | none, _ => .error (.unknownTarget id)
  | some sub, some status =>
    .ok (if sub.listening then .rejected status else .released, s.release id)
  | some sub, none => .ok (s.dropped sub)

/-- The target is complete as of a version. Only an active target can be. -/
def markCurrent (s : Subscriptions) (id : TargetId) (token : Option ResumeToken)
    (version : Version) : Subscriptions :=
  match s.table[id]? with
  | none => s
  | some sub =>
    if sub.isActive then s.put { sub with current := true, version, token := token.or sub.token }
    else s

/-- Forgets a target that failed for good, and tells whether anybody listened. -/
def reject (s : Subscriptions) (id : TargetId) : Bool × Subscriptions :=
  (s.table[id]?.any (·.listening), s.release id)

/-- The stream opened: every target is added anew. -/
def streamOpened (s : Subscriptions) : Subscriptions :=
  let table := s.table.map fun _ sub => sub.reopened
  { s with table, streamOpen := true, outbox := table.toList.map (·.2.addRequest) }

/-- The stream closed: the server forgets every request, and so targets that nobody listens to
    are gone. -/
def streamClosed (s : Subscriptions) : Subscriptions :=
  let unheard := (s.table.filter fun _ sub => !sub.listening).keys
  let s := unheard.foldl release { s with streamOpen := false, outbox := [] }
  { s with table := s.table.map fun _ sub => sub.settled }

/-- Nothing can be resumed any more. -/
def clearTokens (s : Subscriptions) : Subscriptions :=
  { s with table := s.table.map fun _ sub => { sub with token := none, version := .start } }

/-- Takes the requests that are to be written, in order. -/
def takeOutbox (s : Subscriptions) : List WatchRequest × Subscriptions :=
  (s.outbox, { s with outbox := [] })

end Subscriptions

end LiveQuery
