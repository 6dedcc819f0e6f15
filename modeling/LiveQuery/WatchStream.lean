import LiveQuery.Backoff
import LiveQuery.RemoteEvent
import LiveQuery.Subscription

/-!
# The watch stream

One stream carries every subscription. Reports of the server are collected
until a snapshot closes them, so nobody sees half of one. A report that does
not fit what was asked for is a fault: client and server disagree, and only a
new start helps. What was taken in before the fault stays.
-/

namespace LiveQuery

/-- Whether there is a stream. -/
inductive StreamState where
  | closed
  /-- Asked for, and not yet accepting requests. -/
  | connecting
  | opened
deriving DecidableEq, Repr

namespace StreamState

/-- Whether a stream exists or is being made. -/
def isStarted : StreamState → Bool
  | .closed => false
  | _ => true

def text : StreamState → String
  | .closed => "Closed"
  | .connecting => "Connecting"
  | .opened => "Open"

end StreamState

/-- A target that the server refused while somebody listened. -/
structure Rejection where
  target : TargetId
  status : Status
deriving DecidableEq, Repr

/-- What the listeners of the target are told. -/
def Rejection.fault (r : Rejection) : Fault := .targetRejected r.target r.status

/-- What a report leads to. -/
inductive WatchOutcome where
  /-- It was collected. -/
  | collected
  | snapshot (event : RemoteEvent)
  | rejected (rejections : List Rejection)

/-- The stream, the subscriptions that it carries, and the reports that wait for their snapshot. -/
structure WatchStream where
  state : StreamState := .closed
  subscriptions : Subscriptions := {}
  backoff : Backoff
  /-- The reports since the last snapshot. -/
  collected : RemoteEvent := {}

namespace WatchStream

/-- No stream and no subscription. -/
def ofConfig (config : BackoffConfig) : WatchStream := { backoff := { config } }

/-- Asks for a stream, unless there is one. -/
def connect? (s : WatchStream) : Option WatchStream :=
  if s.state.isStarted then none else some { s with state := .connecting }

/-- Listens to a target. -/
def listen (s : WatchStream) (t : Target) : TargetId × WatchStream :=
  let (id, subscriptions) := s.subscriptions.listen t
  (id, { s with subscriptions })

/-- Stops listening to a target. -/
def unlisten (s : WatchStream) (id : TargetId) : WatchStream :=
  { s with subscriptions := s.subscriptions.unlisten id }

/-- The stream accepts requests. -/
def opened (s : WatchStream) (now : Duration) : WatchStream :=
  if s.state = .opened then s
  else
    { state := .opened
      subscriptions := s.subscriptions.streamOpened
      backoff := s.backoff.recordOpen now
      collected := {} }

/-- The stream is gone, and with it everything that was collected. -/
def shut (s : WatchStream) : WatchStream :=
  { s with state := .closed, subscriptions := s.subscriptions.streamClosed, collected := {} }

/-- Rejects targets one after the other. -/
def rejectAll (status : Status) :
    List TargetId → Subscriptions → List Rejection × Subscriptions
  | [], s => ([], s)
  | id :: rest, s =>
    let (heard, s) := s.reject id
    let (rejections, s) := rejectAll status rest s
    (if heard then ⟨id, status⟩ :: rejections else rejections, s)

/-- The targets that an error ends for good: the one to blame, or else every one that is listened
    to. A passing error ends none. -/
def victims (s : WatchStream) (error : StreamError) : List TargetId :=
  if error.isPermanent then error.target.elim s.subscriptions.listening ([·]) else []

/-- The stream ended, with or without an error. -/
def closed (s : WatchStream) (error : Option StreamError) (now : Duration) :
    List Rejection × WatchStream :=
  let (rejections, subscriptions) := match error with
    | none => ([], s.subscriptions)
    | some error => rejectAll error.status (s.victims error) s.subscriptions
  let s := { s with subscriptions }.shut
  (rejections, { s with backoff := s.backoff.recordFailure now })

/-- Closes the stream without counting a failure. -/
def disconnect (s : WatchStream) : WatchStream :=
  if s.state.isStarted then { s.shut with backoff := s.backoff.reset } else s

/-- Closes the stream, after which nothing is resumed. -/
def restart (s : WatchStream) : WatchStream :=
  let s := { s with subscriptions := s.subscriptions.clearTokens }
  { s.shut with backoff := s.backoff.reset }

/-- Takes the requests that are to be written; there are none unless the stream is open. -/
def takeOutbox (s : WatchStream) : List WatchRequest × WatchStream :=
  if s.state = .opened then
    let (requests, subscriptions) := s.subscriptions.takeOutbox
    (requests, { s with subscriptions })
  else ([], s)

/-- A target was added. From here on its reports count anew. -/
def targetAdded (s : WatchStream) (id : TargetId) : Except Fault WatchStream := do
  let (outcome, subscriptions) ← s.subscriptions.added id
  let collected := match outcome with
    | .activated false => s.collected.forgetChange id
    | .activated true => (s.collected.forgetChange id).reset id
    | .superseded => s.collected.discard id
  return { s with subscriptions, collected }

/-- Targets are added in order, up to the first fault. -/
def targetsAdded : List TargetId → WatchStream → WatchStream × Except Fault Unit
  | [], s => (s, .ok ())
  | id :: rest, s =>
    match s.targetAdded id with
    | .ok s => targetsAdded rest s
    | .error fault => (s, .error fault)

/-- A target was removed, and what was said about it counts no more. -/
def targetRemoved (s : WatchStream) (cause : Option Status) (id : TargetId) :
    Except Fault (List Rejection × WatchStream) := do
  let (outcome, subscriptions) ← s.subscriptions.removed id cause
  let rejections := match outcome with
    | .rejected status => [⟨id, status⟩]
    | _ => []
  return (rejections, { s with subscriptions, collected := s.collected.discard id })

/-- Targets are removed in order, up to the first fault. -/
def targetsRemoved (cause : Option Status) :
    List TargetId → WatchStream → WatchStream × Except Fault (List Rejection)
  | [], s => (s, .ok [])
  | id :: rest, s =>
    match s.targetRemoved cause id with
    | .error fault => (s, .error fault)
    | .ok (rejections, s) =>
      let (s, others) := targetsRemoved cause rest s
      (s, others.map (rejections ++ ·))

/-- Collects a document for one target it belongs to. One that does not exist leaves the target,
    but its state is kept. -/
def collectUpdate (d : Document) (e : RemoteEvent) (id : TargetId) : RemoteEvent :=
  if d.isPresent then e.addDocument id d
  else { e.removeDocument id d.key with updates := e.updates.insert d.key d }

/-- Collects a document for the active ones of the targets. -/
def collectDocument (s : WatchStream) (d : Document) (updated removed : List TargetId) :
    RemoteEvent :=
  let e := (updated.filter s.subscriptions.isActive).foldl (collectUpdate d) s.collected
  (removed.filter s.subscriptions.isActive).foldl (·.removeDocument · d.key) e

/-- Hands out what was collected for the targets that are active now, and marks the complete ones
    as current. -/
def flush (s : WatchStream) (version : Version) : RemoteEvent × WatchStream :=
  let event := { s.collected.restrict s.subscriptions.isActive with version }
  let subscriptions := event.changes.toList.foldl (fun subs (id, change) =>
    if change.current then subs.markCurrent id change.token version else subs) s.subscriptions
  (event, { s with subscriptions, collected := {} })

/-- Takes in one report. -/
def receive (s : WatchStream) (change : WatchChange) : WatchStream × Except Fault WatchOutcome :=
  if s.state ≠ .opened then
    (s, .error (.internal
      s!"watch change of type {change.typeCode} on a {s.state.text} stream"))
  else match change with
    | .targetAdded targets =>
      let (s, result) := s.targetsAdded targets
      (s, result.map fun _ => .collected)
    | .targetRemoved targets cause =>
      let (s, result) := s.targetsRemoved cause targets
      (s, result.map fun rejections =>
        if rejections.isEmpty then .collected else .rejected rejections)
    | .documentChanged document updated removed =>
      ({ s with collected := s.collectDocument document updated removed }, .ok .collected)
    | .current target token =>
      if !s.subscriptions.contains target then (s, .error (.unknownTarget target))
      else if s.subscriptions.isActive target then
        ({ s with collected := s.collected.markCurrent target (some token) }, .ok .collected)
      else (s, .ok .collected)
    | .snapshot version =>
      let (event, s) := s.flush version
      (s, .ok (.snapshot event))

end WatchStream

end LiveQuery
