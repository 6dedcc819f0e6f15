import LiveQuery.Json.Reader
import LiveQuery.Wire.Message

/-!
# Texts on the wire

The types that travel, each with its two directions: to the JSON text of a
value, and back from any text that stands for one.
-/

namespace LiveQuery

open Json

namespace Wire

/-- A type with a form on the wire. -/
class Coded (α : Type) where
  toTree : α → Tree
  ofTree? : Tree → Option α

/-- The text of a value. -/
def encode {α : Type} [Coded α] (value : α) : String := (Coded.toTree value).text

/-- The value that a text stands for. -/
def decode? {α : Type} [Coded α] (text : String) : Option α :=
  (Tree.read? text).bind Coded.ofTree?

instance : Coded Datum := ⟨fun datum => datum.value.toTree, Tree.datum?⟩

instance : Coded DocumentKey := ⟨DocumentKey.toTree, DocumentKey.ofTree?⟩

instance : Coded Version := ⟨Version.toTree, Version.ofTree?⟩

instance : Coded Document := ⟨Document.toTree, Document.ofTree?⟩

instance : Coded Target := ⟨Target.toTree, Target.ofTree?⟩

instance : Coded ResumeToken := ⟨ResumeToken.toTree, ResumeToken.ofTree?⟩

instance : Coded Mutation := ⟨Mutation.toTree, Mutation.ofTree?⟩

instance : Coded MutationBatch := ⟨MutationBatch.toTree, MutationBatch.ofTree?⟩

instance : Coded StatusCode := ⟨StatusCode.toTree, StatusCode.ofTree?⟩

instance : Coded Status := ⟨Status.toTree, Status.ofTree?⟩

instance : Coded StreamError := ⟨StreamError.toTree, StreamError.ofTree?⟩

instance : Coded WatchChange := ⟨WatchChange.toTree, WatchChange.ofTree?⟩

instance : Coded WatchRequest := ⟨WatchRequest.toTree, WatchRequest.ofTree?⟩

instance : Coded StreamEvent := ⟨StreamEvent.toTree, StreamEvent.ofTree?⟩

instance : Coded StreamRequest := ⟨StreamRequest.toTree, StreamRequest.ofTree?⟩

end Wire

end LiveQuery
