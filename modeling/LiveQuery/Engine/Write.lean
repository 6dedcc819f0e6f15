import LiveQuery.Engine.State

/-!
# Writing

Batches of writes are queued, stored and shown at once, and then wait for the
server's decision. An acknowledged batch is shown until a snapshot has caught
up with it, and a rejected one is taken back.
-/

namespace LiveQuery

namespace Engine

/-- Queues a batch. If the store cannot hold it, the batch is given up, and its number with it. -/
def submit (e : Engine) (mutations : List Mutation) : Engine × Except Fault BatchId :=
  let (batch, queue) := e.queue.append mutations
  match e.store.saveWrite batch with
  | .error fault =>
    ({ e with queue := (queue.reject? batch.id).elim queue (·.2) }, .error fault)
  | .ok store =>
    let stats := { e.stats with writesSubmitted := e.stats.writesSubmitted + 1 }
    let e := { e with queue, store, stats, awaited := e.awaited.insert batch.id }
    (e.refresh [batch], .ok batch.id)

/-- Records a decision and tells the submitter. A failing store is put up with. -/
def decide (e : Engine) (id : BatchId) (outcome : WriteOutcome) : Engine :=
  let e := { e with store := e.store.orUnchanged (e.store.saveOutcome id outcome) }
  if e.awaited.contains id then
    { e with awaited := e.awaited.erase id, decisions := e.decisions ++ [(id, outcome)] }
  else e

/-- The server committed a batch. An acknowledgement that no batch waits for says nothing. -/
def acknowledge (e : Engine) (id : BatchId) (commit : Version) : Engine :=
  match e.queue.acknowledge? id commit with
  | none => e
  | some (batch, queue) =>
    let stats := { e.stats with writesAcknowledged := e.stats.writesAcknowledged + 1 }
    let e := { e with queue, stats }.decide id (.acknowledged commit)
    let (released, queue) := e.queue.release e.lastSnapshot
    { e with queue }.refresh (released ++ [batch])

/-- The server refused a batch. A rejection that no batch waits for says nothing. -/
def reject (e : Engine) (id : BatchId) (status : Status) : Engine :=
  match e.queue.reject? id with
  | none => e
  | some (batch, queue) =>
    let stats := { e.stats with writesRejected := e.stats.writesRejected + 1 }
    ({ e with queue, stats }.decide id (.rejected status)).refresh [batch]

end Engine

end LiveQuery
