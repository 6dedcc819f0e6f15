import LiveQuery.Document

/-!
# Replicas

What is held of one target's documents. A replica is initialized once its
documents are one valid state of the world, and filtered if the server may have
left out documents of the covered path. Each view holds two replicas: the state
that the server reported, and the state that is shown, which has the queued
writes laid over it.
-/

namespace LiveQuery

/-- The documents held of a target, those known not to exist included. Every set of documents is
    made once, as one edition. Replicas of one edition hold the same documents, so nobody has to
    compare them. -/
structure Replica where
  documents : Documents
  edition : Nat
  initialized : Bool
  filtered : Bool

namespace Replica

/-- Nothing is known. -/
def blank (edition : Nat) : Replica := ⟨∅, edition, false, false⟩

/-- The same documents under other flags. -/
def withFlags (r : Replica) (initialized filtered : Bool) : Replica :=
  { r with initialized, filtered }

/-- Whether a document that is not held is known not to belong to the target. -/
def isComplete (r : Replica) : Bool := r.initialized && !r.filtered

/-- Whether the state of a key is known. -/
def isCompleteFor (r : Replica) (key : DocumentKey) : Bool :=
  r.isComplete || r.documents.contains key

/-- The held documents that exist, by key. -/
def existing (r : Replica) : List Document := r.documents.list.filter (·.isPresent)

/-- Whether two replicas share one edition of documents. -/
def shares (a b : Replica) : Bool := a.edition == b.edition

/-- Equality of replicas, whatever their editions. -/
def same (a b : Replica) : Bool :=
  a.documents.same b.documents && a.initialized == b.initialized && a.filtered == b.filtered

end Replica

/-- The two replicas of a view. -/
structure Replicas where
  /-- What listeners are shown: the server's state under the queued writes. -/
  shown : Replica
  /-- What the server reported. -/
  server : Replica

namespace Replicas

/-- Equality of both replicas. -/
def same (a b : Replicas) : Bool := a.shown.same b.shown && a.server.same b.server

end Replicas

end LiveQuery
