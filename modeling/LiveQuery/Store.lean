import LiveQuery.Fault
import LiveQuery.Mutation
import LiveQuery.Replica
import LiveQuery.Target

/-!
# The store

What outlives an engine: the last complete view of each target, the batches
that the server has not decided, and the decisions. Any of its calls can be
made to fail; a call that fails changes nothing.
-/

namespace LiveQuery

open Std

/-- The server's decision on a batch. -/
inductive WriteOutcome where
  | acknowledged (commit : Version)
  | rejected (status : Status)
deriving DecidableEq, Repr

/-- What the submitter of a batch is told of its decision. -/
def WriteOutcome.result (batch : BatchId) : WriteOutcome → Except Fault Version
  | .acknowledged commit => .ok commit
  | .rejected status => .error (.mutationRejected batch status)

/-- The calls of a store. -/
inductive StoreCall where
  | loadView
  | saveView
  | loadPending
  | saveWrite
  | saveOutcome
deriving DecidableEq, Repr

namespace StoreCall

def all : List StoreCall := [.loadView, .saveView, .loadPending, .saveWrite, .saveOutcome]

/-- What a failing call is called. -/
def name : StoreCall → String
  | .loadView => "load_view"
  | .saveView => "persist_view"
  | .loadPending => "load_pending"
  | .saveWrite => "persist_mutation"
  | .saveOutcome => "persist_result"

def ofName? (name : String) : Option StoreCall := all.find? (·.name == name)

end StoreCall

/-- What is stored, and which calls fail. -/
structure Store where
  /-- Views by the canonical name of their target. -/
  views : ExtTreeMap String Replicas := ∅
  /-- Batches without a decision. -/
  pending : ExtTreeMap BatchId MutationBatch := ∅
  /-- Decisions, oldest first. -/
  outcomes : List (BatchId × WriteOutcome) := []
  /-- The calls that fail. -/
  failing : List StoreCall := []

namespace Store

/-- Makes a call fail, or work again. -/
def setFailing (s : Store) (call : StoreCall) (on : Bool) : Store :=
  let others := s.failing.filter (· != call)
  { s with failing := if on then call :: others else others }

/-- The result of a call, unless it is one that fails. -/
def attempt {α : Type} (s : Store) (call : StoreCall) (result : α) : Except Fault α :=
  if s.failing.contains call then .error (.persistence s!"{call.name} failed") else .ok result

/-- The last view stored for a target, if there is one. -/
def loadView (s : Store) (t : Target) : Except Fault (Option Replicas) :=
  s.attempt .loadView s.views[t.canonicalId]?

/-- Stores a view in the place of the last one for its target. -/
def saveView (s : Store) (t : Target) (replicas : Replicas) : Except Fault Store :=
  s.attempt .saveView { s with views := s.views.insert t.canonicalId replicas }

/-- The undecided batches in the order of their submission. -/
def undecided (s : Store) : List MutationBatch := s.pending.toList.map (·.2)

/-- Loads the undecided batches. -/
def loadPending (s : Store) : Except Fault (List MutationBatch) :=
  s.attempt .loadPending s.undecided

/-- Stores a batch that is not decided yet. -/
def saveWrite (s : Store) (batch : MutationBatch) : Except Fault Store :=
  s.attempt .saveWrite { s with pending := s.pending.insert batch.id batch }

/-- Records a decision; the batch is then no longer pending. -/
def saveOutcome (s : Store) (id : BatchId) (outcome : WriteOutcome) : Except Fault Store :=
  s.attempt .saveOutcome
    { s with pending := s.pending.erase id, outcomes := s.outcomes ++ [(id, outcome)] }

/-- The store after a call whose failure is put up with. -/
def orUnchanged (s : Store) (result : Except Fault Store) : Store :=
  match result with
  | .ok s => s
  | .error _ => s

end Store

end LiveQuery
