import LiveQuery.Engine.Write

/-!
# Watching

How the engine follows its stream: what a snapshot does to the views, how
rejected targets end, and what becomes of everything when the stream opens,
closes or is given up.
-/

namespace LiveQuery

open Std

namespace Engine

/-- Takes a snapshot into the server's replica of one target, if there is a view of it. -/
def absorb (event : RemoteEvent) (e : Engine) (id : TargetId) : Engine :=
  match e.views[id]? with
  | none => e
  | some view =>
    e.setServer id view
      (event.applyTo id view.target.isFiltered view.replicas.server e.nextEdition)

/-- The first target of a snapshot that counts and yet has no view. -/
def viewless? (e : Engine) (event : RemoteEvent) : Option TargetId :=
  event.affected.toList.find? fun id =>
    !e.views.contains id && e.stream.subscriptions.isActive id

/-- Takes in a snapshot as a whole: the server's replicas first, then the acknowledged batches
    that it catches up with, and then what is shown of all that is concerned. -/
def applyRemote (e : Engine) (event : RemoteEvent) : Except Fault Engine :=
  match e.viewless? event with
  | some id => .error (.internal s!"remote event for {id.text} without a view")
  | none =>
    let e := event.affected.toList.foldl (absorb event) e
    let (released, queue) := e.queue.release event.version
    let e := { e with queue, lastSnapshot := e.lastSnapshot.later event.version }
    let affected := event.affected.insertMany (e.touchedBy released)
    let e := affected.toList.foldl (fun e id => (e.recompute id).saveView id) e
    .ok { e with stats := { e.stats with snapshotsApplied := e.stats.snapshotsApplied + 1 } }

/-- Sends a listener its last event. -/
def endListener (event : ListenEvent) (e : Engine) (id : ListenerId) : Engine :=
  match e.listeners[id]? with
  | none => e
  | some listener =>
    { e with listeners := e.listeners.erase id }.deliver id listener event

/-- Ends the view of a rejected target, and with it all its listeners. -/
def rejectTarget (e : Engine) (rejection : Rejection) : Engine :=
  let stats := { e.stats with targetsRejected := e.stats.targetsRejected + 1 }
  let e := { e with stats }
  match e.views[rejection.target]? with
  | none => e
  | some view =>
    view.listeners.toList.foldl (endListener (.error rejection.fault))
      { e with views := e.views.erase rejection.target }

/-- Ends the views of rejected targets, one after the other. -/
def rejectTargets (e : Engine) (rejections : List Rejection) : Engine :=
  rejections.foldl rejectTarget e

/-- Starts all over: nothing is resumed, and the present stream is to be given up. -/
def resync (e : Engine) : Engine :=
  { e with
    stream := e.stream.restart
    queue := e.queue.markAllUnsent
    restartRequested := true
    stats := { e.stats with resyncs := e.stats.resyncs + 1 } }.dispatchAll.prune

/-- The stream accepts requests. -/
def streamOpened (e : Engine) (now : Duration) : Engine :=
  { e with stream := e.stream.opened now, queue := e.queue.markAllUnsent }

/-- Takes in a report of the server. If it does not fit, everything starts over. Without an open
    stream it is a late one and says nothing. -/
def receive (e : Engine) (change : WatchChange) : Engine :=
  if e.stream.state ≠ .opened then e
  else
    let (stream, result) := e.stream.receive change
    let e := { e with stream }
    (match result with
      | .ok .collected => e
      | .ok (.snapshot event) =>
        match e.applyRemote event with
        | .ok e => e
        | .error _ => e.resync
      | .ok (.rejected rejections) => e.rejectTargets rejections
      | .error _ => e.resync).prune

/-- The stream ended. The result is the wait before the next one. -/
def streamClosed (e : Engine) (error : Option StreamError) (now : Duration) : Wait × Engine :=
  let (rejections, stream) := e.stream.closed error now
  let stats := { e.stats with streamRestarts := e.stats.streamRestarts + 1 }
  let e := { e with stream, stats, queue := e.queue.markAllUnsent }
  (stream.backoff.currentWait, (e.rejectTargets rejections).dispatchAll.prune)

/-- Asks for a stream, unless there is one. -/
def connect? (e : Engine) : Option Engine := e.stream.connect?.map ({ e with stream := · })

/-- Closes the stream without counting a failure. -/
def disconnect (e : Engine) : Engine :=
  if e.stream.state.isStarted then
    { e with stream := e.stream.disconnect, queue := e.queue.markAllUnsent }.dispatchAll.prune
  else e

/-- Disables the network. -/
def interrupt (e : Engine) : Engine :=
  if e.enabled then { e with enabled := false }.disconnect else e

/-- Enables the network. -/
def resume (e : Engine) : Engine := { e with enabled := true }

/-- Tells whether the present stream is to be given up. It is told once. -/
def takeRestart (e : Engine) : Bool × Engine :=
  (e.restartRequested, { e with restartRequested := false })

/-- Takes what is to be written: requests on targets, then as many batches as may be under way.
    There is nothing to write unless the stream is open. -/
def takeOutbound (e : Engine) : List StreamRequest × Engine :=
  if e.stream.state = .opened then
    let (requests, stream) := e.stream.takeOutbox
    let (batches, queue) := e.queue.takeUnsent e.config.maxWritesInFlight
    (requests.map .watch ++ batches.map .write, { e with stream, queue })
  else ([], e)

/-- Takes in an event of the stream. If the stream ended, the result is the wait before the next
    one. -/
def handle (e : Engine) (event : StreamEvent) (now : Duration) : Option Wait × Engine :=
  match event with
  | .opened => (none, e.streamOpened now)
  | .watch change => (none, e.receive change)
  | .writeAcked batch commit => (none, e.acknowledge batch commit)
  | .writeRejected batch status => (none, e.reject batch status)
  | .closed error =>
    let (wait, e) := e.streamClosed error now
    (some wait, e)

end Engine

end LiveQuery
