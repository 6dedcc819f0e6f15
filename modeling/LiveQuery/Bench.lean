import LiveQuery.Engine.Action
import LiveQuery.Mailbox

/-!
# The test bench

A bench drives an engine by hand, step by step, and plays its server. After
every step it collects what the engine wants written. A step that cannot be
taken has no result.
-/

namespace LiveQuery

/-- A bench, its engine, and what came out of the engine so far. -/
structure Bench where
  config : Config
  engine : Engine
  /-- What was written and not looked at yet. -/
  sent : List StreamRequest := []
  mail : Mailbox := {}

namespace Bench

/-- A bench over a store, if the store can be read. -/
def ofStore? (config : Config) (store : Store) (mail : Mailbox) : Option Bench :=
  (Engine.ofStore config store).toOption.map fun engine => { config, engine, mail }

/-- A bench over a new store. -/
def start? (config : Config) : Option Bench := ofStore? config {} {}

/-- Puts the engine's mail into the mailbox, and what it wants written with the rest. -/
def collect (b : Bench) (engine : Engine) : Bench :=
  let (requests, engine) := engine.takeOutbound
  let (mail, engine) := b.mail.fetch engine
  { b with engine, mail, sent := b.sent ++ requests }

/-- A new engine over the same store. What listeners were sent before can still be read. -/
def renew? (b : Bench) : Option Bench := ofStore? b.config b.engine.store b.mail.hangUp

/-- Connects and opens the stream. -/
def openStream (b : Bench) : Bench :=
  b.collect ((b.engine.connect?.getD b.engine).streamOpened .zero)

/-- Closes the stream, a moment after it opened. The result is the wait before the next one, if
    it has a length. -/
def closeStream? (b : Bench) (error : Option StreamError) : Option (Duration × Bench) :=
  let (wait, engine) := b.engine.streamClosed error .moment
  wait.length?.map (·, b.collect engine)

/-- Adds a listener and keeps its receiver. -/
def listen (b : Bench) (t : Target) : ListenerId × Bench :=
  let (id, engine) := b.engine.listen t
  (id, { b with mail := b.mail.addReceiver id }.collect engine)

/-- Removes a listener of this bench that the engine still has. -/
def unlisten? (b : Bench) (id : ListenerId) : Option Bench :=
  if b.mail.receivers.contains id then (b.engine.unlisten id).toOption.map b.collect else none

/-- Submits a batch and keeps its handle, if the store takes the batch. -/
def submit? (b : Bench) (mutations : List Mutation) : Option (BatchId × Bench) :=
  match b.engine.submit mutations with
  | (engine, .ok id) => some (id, { b with mail := b.mail.addHandle id }.collect engine)
  | (_, .error _) => none

/-- Takes what was written. -/
def takeSent (b : Bench) : List StreamRequest × Bench := (b.sent, { b with sent := [] })

/-- How many requests add a target, and how many remove it. -/
def countRequests (requests : List StreamRequest) (id : TargetId) : Nat × Nat :=
  (requests.countP fun
      | .watch (.add added ..) => added == id
      | _ => false,
    requests.countP fun
      | .watch (.remove removed) => removed == id
      | _ => false)

/-- Takes what was written, and tells which target was added last. -/
def lastAdded? (b : Bench) : Option (TargetId × Bench) :=
  let (sent, b) := b.takeSent
  (sent.reverse.findSome? fun
    | .watch (.add id ..) => some id
    | _ => none).map (·, b)

/-- What is known of a target's subscription. -/
def subscription? (b : Bench) (id : TargetId) : Option Subscription :=
  b.engine.stream.subscriptions.get? id

/-- The server reports. -/
def watch (b : Bench) (change : WatchChange) : Bench := b.collect (b.engine.receive change)

/-- The server adds a target, reports its documents, and completes it. -/
def serverCurrent (b : Bench) (id : TargetId) (documents : List Document) (version : Version) :
    Bench :=
  let reports := documents.map fun d => WatchChange.documentChanged d [id] []
  let completion := [WatchChange.current id ⟨"resume".toUTF8.toList⟩, .snapshot version]
  (WatchChange.targetAdded [id] :: reports ++ completion).foldl watch b

/-- The server decides on a batch. -/
def acknowledge (b : Bench) (id : BatchId) (commit : Version) : Bench :=
  b.collect (b.engine.acknowledge id commit)

/-- The server refuses a batch. -/
def reject (b : Bench) (id : BatchId) (status : Status) : Bench :=
  b.collect (b.engine.reject id status)

/-- Polls the handle of a submitted batch. -/
def poll? (b : Bench) (id : BatchId) : Option (Option (Except Fault Version) × Bench) :=
  (b.mail.poll? id).map fun (result, mail) => (result, { b with mail })

/-- Takes everything a listener of this bench was sent. -/
def drain? (b : Bench) (id : ListenerId) : Option (List ListenEvent × Bench) :=
  if b.mail.receivers.contains id then
    let (events, mail) := b.mail.take id
    some (events, { b with mail })
  else none

/-- Takes the snapshots a listener was sent. A fault among them is not expected. -/
def snapshots? (b : Bench) (id : ListenerId) : Option (List ViewSnapshot × Bench) := do
  let (events, b) ← b.drain? id
  let snapshots ← events.mapM (·.toOption)
  return (snapshots, b)

/-- Takes the snapshots a listener was sent, and tells the keys that changed in the given way. -/
def changeKeys? (b : Bench) (id : ListenerId) (kind : ChangeKind) :
    Option (List DocumentKey × Bench) := do
  let (snapshots, b) ← b.snapshots? id
  let changes := snapshots.flatMap fun s => s.changes.filter (·.kind == kind)
  return (changes.map (·.document.key), b)

/-- Takes everything a listener was sent, and tells the first fault. -/
def fault? (b : Bench) (id : ListenerId) : Option (Option Fault × Bench) := do
  let (events, b) ← b.drain? id
  return (events.findSome? fun
    | .error fault => some fault
    | .ok _ => none, b)

end Bench

end LiveQuery
