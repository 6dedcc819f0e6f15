import LiveQuery.Document

/-!
# Writes

A mutation writes one document; the mutations of a batch are submitted
together. A mutation is laid over what is known of its document, and stays
there, at its commit version, until the server reports the document itself.
-/

namespace LiveQuery

open Json

/-- How a document is written: replaced, merged into if it exists, or deleted. -/
inductive MutationKind where
  | set
  | patch
  | delete
deriving DecidableEq, Repr

/-- The word for a kind of write. -/
def MutationKind.name : MutationKind → String
  | .set => "set"
  | .patch => "patch"
  | .delete => "delete"

/-- A write to one document. A deletion carries no fields. -/
structure Mutation where
  key : DocumentKey
  kind : MutationKind
  data : Fields

namespace Mutation

/-- Replaces the document. -/
def set (key : DocumentKey) (data : Fields) : Mutation := ⟨key, .set, data⟩

/-- Merges fields into the document, if it exists. -/
def patch (key : DocumentKey) (data : Fields) : Mutation := ⟨key, .patch, data⟩

/-- Deletes the document. -/
def delete (key : DocumentKey) : Mutation := ⟨key, .delete, ∅⟩

/-- Lays the write over the known state of its document. The version of that state is kept. A
    patch needs a document that is known to exist and otherwise changes nothing. -/
def applyLocal (m : Mutation) (base : Option Document) : Option Document :=
  let version := base.elim .start (·.version)
  let written (data : Option Fields) : Option Document := some ⟨m.key, version, data, true⟩
  match m.kind with
  | .set => written (some m.data)
  | .delete => written none
  | .patch =>
    match base.bind (·.data) with
    | some existing => written (some (existing ∪ m.data))
    | none => base

/-- Lays an acknowledged write over the known state: the result is a state of the server, seen
    at the commit version. -/
def applyCommitted (m : Mutation) (base : Option Document) (commit : Version) :
    Option Document :=
  (m.applyLocal base).map fun d => { d with version := commit, hasLocalWrites := false }

end Mutation

/-- Writes that are submitted together, in order. -/
structure MutationBatch where
  id : BatchId
  mutations : List Mutation

namespace MutationBatch

/-- The keys that the batch writes, in order. -/
def keys (b : MutationBatch) : List DocumentKey := b.mutations.map (·.key)

/-- Whether the batch writes a key. -/
def touches (b : MutationBatch) (key : DocumentKey) : Bool := b.mutations.any (·.key == key)

end MutationBatch

end LiveQuery
