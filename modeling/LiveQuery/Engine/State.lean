import LiveQuery.Config
import LiveQuery.Overlay
import LiveQuery.Store
import LiveQuery.View
import LiveQuery.WatchStream

/-!
# The state of the engine

The engine keeps every view, the queue of writes and the listeners, and tells
the listeners what they have not seen. Whatever it hands out is kept in two
logs, of deliveries and of decisions, from which the mail is taken.
-/

namespace LiveQuery

open Std

/-- What the engine counts. -/
structure Stats where
  snapshotsApplied : Nat := 0
  eventsEmitted : Nat := 0
  writesSubmitted : Nat := 0
  writesAcknowledged : Nat := 0
  writesRejected : Nat := 0
  targetsRejected : Nat := 0
  streamRestarts : Nat := 0
  resyncs : Nat := 0
deriving DecidableEq, Repr

/-- Everything an engine knows. -/
structure Engine where
  config : Config
  store : Store
  stream : WatchStream
  queue : WriteQueue
  views : ExtTreeMap TargetId View := ∅
  listeners : ExtTreeMap ListenerId Listener := ∅
  nextListener : Nat := 1
  /-- The batches whose submitters are to be told of the decision. -/
  awaited : ExtTreeSet BatchId := ∅
  /-- The latest snapshot so far. -/
  lastSnapshot : Version := .start
  /-- Whether the network may be used. -/
  enabled : Bool := true
  /-- Whether the present stream is to be given up after a resync. -/
  restartRequested : Bool := false
  stats : Stats := {}
  /-- The number of the next set of documents that is made. -/
  nextEdition : Nat := 0
  /-- What listeners were sent, oldest first. -/
  deliveries : List (ListenerId × ListenEvent) := []
  /-- The decisions that submitters were told of, oldest first. -/
  decisions : List (BatchId × WriteOutcome) := []

namespace Engine

/-- An engine over a store. The batches that the store holds undecided are queued again. -/
def ofStore (config : Config) (store : Store) : Except Fault Engine := do
  let pending ← store.loadPending
  return { config, store, stream := .ofConfig config.backoff, queue := .ofBatches pending }

/-- What is known of a subscribed target. -/
def view? (e : Engine) (t : Target) : Option Replicas := do
  let id ← e.stream.subscriptions.find? t
  let view ← e.views[id]?
  return view.replicas

/-- The target that a listener listens to. -/
def listenerTarget? (e : Engine) (id : ListenerId) : Option TargetId :=
  e.listeners[id]?.map (·.target)

/-- Whether a stream should exist: the network may be used, and something is listened to or is
    to be written. -/
def shouldConnect (e : Engine) : Bool :=
  e.enabled && (e.stream.subscriptions.anyListening || e.queue.hasPending)

/-- One line on the state. -/
def summary (e : Engine) : String :=
  s!"SyncEngine \x7b stream: {e.stream.state.text}, views: {e.views.size}, " ++
    s!"listeners: {e.listeners.size}, queued_batches: {e.queue.entries.length}, " ++
    s!"enabled: {e.enabled} \x7d"

/-- Sends an event to a listener that is still attached. -/
def deliver (e : Engine) (id : ListenerId) (listener : Listener) (event : ListenEvent) : Engine :=
  if listener.attached then { e with deliveries := e.deliveries ++ [(id, event)] } else e

/-- Tells a listener of a view what it has not seen. Only a snapshot that arrives is counted. -/
def inform (e : Engine) (view : View) (flags : Flags) (id : ListenerId) : Engine :=
  match e.listeners[id]? with
  | none => e
  | some listener =>
    match listener.next? view flags with
    | none => e
    | some snapshot =>
      let emitted := if listener.attached then 1 else 0
      { e with
        listeners := e.listeners.insert id (listener.shown view flags)
        stats := { e.stats with eventsEmitted := e.stats.eventsEmitted + emitted }
      }.deliver id listener (.ok snapshot)

/-- The present flags of a view. -/
def flagsOf (e : Engine) (id : TargetId) (view : View) : Flags :=
  view.flags (e.stream.subscriptions.isCurrent id)

/-- Tells the listeners of a target what they have not seen. -/
def dispatch (e : Engine) (id : TargetId) : Engine :=
  match e.views[id]? with
  | none => e
  | some view => view.listeners.toList.foldl (inform · view (e.flagsOf id view)) e

/-- Tells every listener what it has not seen. -/
def dispatchAll (e : Engine) : Engine := e.views.keys.foldl dispatch e

/-- Puts a replica of the server in the place of the one that a view has. -/
def setServer (e : Engine) (id : TargetId) (view : View) (server : Replica) : Engine :=
  { e with
    views := e.views.insert id { view with replicas := { view.replicas with server } }
    nextEdition := e.nextEdition + 1 }

/-- Lays the queue over the server's replica of a view anew. -/
def overlay (e : Engine) (id : TargetId) (view : View) : Engine :=
  let shown := e.queue.shownOver view.target view.replicas.server e.nextEdition
  { e with
    views := e.views.insert id { view with replicas := { view.replicas with shown } }
    nextEdition := e.nextEdition + 1 }

/-- Makes what a view shows anew and tells its listeners. -/
def recompute (e : Engine) (id : TargetId) : Engine :=
  match e.views[id]? with
  | none => e
  | some view => (e.overlay id view).dispatch id

/-- The views with a target that covers a key of the batches, in order. -/
def touchedBy (e : Engine) (batches : List MutationBatch) : List TargetId :=
  (e.views.filter fun _ view => batches.any fun b => b.keys.any view.target.covers).keys

/-- Makes anew what the batches may show in. -/
def refresh (e : Engine) (batches : List MutationBatch) : Engine :=
  (e.touchedBy batches).foldl recompute e

/-- Stores a view whose server's replica is complete, if views are to be stored. Otherwise the
    last complete one stays in the store. A failing store is put up with. -/
def saveView (e : Engine) (id : TargetId) : Engine :=
  match e.views[id]? with
  | none => e
  | some view =>
    if e.config.persistViews && view.replicas.server.initialized then
      { e with store := e.store.orUnchanged (e.store.saveView view.target view.replicas) }
    else e

/-- Drops the views that nobody listens to and that are no longer subscribed. -/
def prune (e : Engine) : Engine :=
  { e with views := e.views.filter fun id view =>
      !view.listeners.isEmpty || e.stream.subscriptions.contains id }

/-- The listener gave up its end of the line. -/
def detach (e : Engine) (id : ListenerId) : Engine :=
  { e with listeners := e.listeners.modify id fun l => { l with attached := false } }

end Engine

end LiveQuery
