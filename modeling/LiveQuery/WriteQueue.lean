import LiveQuery.Mutation
import LiveQuery.Sorting
import Std.Data.ExtTreeSet

/-!
# The write queue

Batches of local writes in the order of their submission. A batch stays until
the server rejects it, or until the server has acknowledged it and reported a
state at or past its commit version.
-/

namespace LiveQuery

open Std

/-- What the server has said about a batch. -/
inductive WriteStatus where
  | pending
  | acknowledged (commit : Version)
deriving DecidableEq, Repr

/-- Lays one mutation of a batch over the state of its document. An acknowledged mutation is
    skipped where the state is one of the server at or past the commit. -/
def WriteStatus.lay (status : WriteStatus) (d : Option Document) (m : Mutation) :
    Option Document :=
  match status with
  | .pending => m.applyLocal d
  | .acknowledged commit =>
    if d.any fun d => decide (commit ≤ d.version) && !d.hasLocalWrites then d
    else m.applyCommitted d commit

/-- A batch in the queue. `sent` tells whether it was written to the present stream. -/
structure QueuedWrite where
  batch : MutationBatch
  status : WriteStatus := .pending
  sent : Bool := false

namespace QueuedWrite

/-- Whether the server has not decided on the batch. -/
def isPending (w : QueuedWrite) : Bool := w.status == .pending

/-- Whether this is the undecided batch with the given number. -/
def awaits (w : QueuedWrite) (id : BatchId) : Bool := w.batch.id == id && w.isPending

/-- Whether the batch is acknowledged and the given version has reached its commit. -/
def isCaughtUpBy (w : QueuedWrite) (version : Version) : Bool :=
  match w.status with
  | .pending => false
  | .acknowledged commit => decide (commit ≤ version)

/-- Lays the mutations of the batch on a key over the state of that key, in order. -/
def layAll (w : QueuedWrite) (key : DocumentKey) (d : Option Document) : Option Document :=
  (w.batch.mutations.filter (·.key == key)).foldl w.status.lay d

end QueuedWrite

/-- The queued batches, oldest first, and the number of the next one. -/
structure WriteQueue where
  entries : List QueuedWrite := []
  nextId : Nat := 1

namespace WriteQueue

/-- A queue of batches that are still undecided. -/
def ofBatches (batches : List MutationBatch) : WriteQueue where
  entries := (sortBy (fun a b => decide (a.id.val ≤ b.id.val)) batches).map ({ batch := · })
  nextId := ((batches.map fun b => b.id.val + 1).max?).getD 1

/-- Queues a batch under the next number. -/
def append (q : WriteQueue) (mutations : List Mutation) : MutationBatch × WriteQueue :=
  let batch := ⟨⟨q.nextId⟩, mutations⟩
  (batch, { entries := q.entries ++ [{ batch }], nextId := q.nextId + 1 })

/-- Marks the first undecided batch with the number as committed. -/
def commitIn (id : BatchId) (commit : Version) : List QueuedWrite → List QueuedWrite
  | [] => []
  | w :: rest =>
    if w.awaits id then { w with status := .acknowledged commit } :: rest
    else w :: commitIn id commit rest

/-- Marks a batch as committed, if it is undecided. -/
def acknowledge? (q : WriteQueue) (id : BatchId) (commit : Version) :
    Option (MutationBatch × WriteQueue) :=
  (q.entries.find? (·.awaits id)).map fun w =>
    (w.batch, { q with entries := commitIn id commit q.entries })

/-- Removes a rejected batch, if it is undecided. -/
def reject? (q : WriteQueue) (id : BatchId) : Option (MutationBatch × WriteQueue) :=
  (q.entries.find? (·.awaits id)).map fun w =>
    (w.batch, { q with entries := q.entries.eraseP (·.awaits id) })

/-- Removes the acknowledged batches that a version has caught up with. -/
def release (q : WriteQueue) (version : Version) : List MutationBatch × WriteQueue :=
  (((q.entries.filter (·.isCaughtUpBy version)).map (·.batch)),
    { q with entries := q.entries.filter fun w => !w.isCaughtUpBy version })

/-- The batches on the wire that are not decided. -/
def inFlight (q : WriteQueue) : Nat := q.entries.countP fun w => w.isPending && w.sent

/-- Takes the oldest undecided batches that are not sent, at most as many as `budget` says. -/
def takeFrom : Nat → List QueuedWrite → List MutationBatch × List QueuedWrite
  | 0, entries => ([], entries)
  | _, [] => ([], [])
  | budget + 1, w :: rest =>
    if w.isPending && !w.sent then
      let (taken, left) := takeFrom budget rest
      (w.batch :: taken, { w with sent := true } :: left)
    else
      let (taken, left) := takeFrom (budget + 1) rest
      (taken, w :: left)

/-- Takes the batches to be written, so that at most `limit` undecided ones are on the wire. -/
def takeUnsent (q : WriteQueue) (limit : Nat) : List MutationBatch × WriteQueue :=
  let (taken, entries) := takeFrom (limit - q.inFlight) q.entries
  (taken, { q with entries })

/-- Nothing counts as sent; the next stream gets every undecided batch again. -/
def markAllUnsent (q : WriteQueue) : WriteQueue :=
  { q with entries := q.entries.map fun w => { w with sent := false } }

/-- The state of a key with every queued write to it laid over `base`, in order. -/
def overlay (q : WriteQueue) (key : DocumentKey) (base : Option Document) : Option Document :=
  q.entries.foldl (fun d w => w.layAll key d) base

/-- Whether a queued write replaces or deletes the document, so that its local state is known
    without the server. -/
def overwrites (q : WriteQueue) (key : DocumentKey) : Bool :=
  q.entries.any fun w => w.batch.mutations.any fun m => m.key == key && m.kind != .patch

/-- Every key that a queued batch writes. -/
def keys (q : WriteQueue) : ExtTreeSet DocumentKey :=
  .ofList (q.entries.flatMap (·.batch.keys))

/-- The undecided batches, oldest first. -/
def pending (q : WriteQueue) : List MutationBatch :=
  (q.entries.filter (·.isPending)).map (·.batch)

/-- How many batches are undecided. -/
def pendingCount (q : WriteQueue) : Nat := q.pending.length

/-- Whether a decision is awaited. -/
def hasPending (q : WriteQueue) : Bool := q.entries.any (·.isPending)

end WriteQueue

end LiveQuery
