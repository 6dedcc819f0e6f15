import LiveQuery.Document
import LiveQuery.Json.Order

/-!
# Targets

What a listener watches: one document, or the documents of a collection that
pass a query. A target selects documents and orders them. Targets with one
canonical name share one subscription.
-/

namespace LiveQuery

open Json

/-- An opaque mark of the server from which a subscription can be resumed. -/
structure ResumeToken where
  bytes : List UInt8
deriving DecidableEq, Repr

/-- The bytes, two hexadecimal digits each. -/
def ResumeToken.hex (token : ResumeToken) : String :=
  String.ofList (token.bytes.flatMap fun b =>
    [Nat.digitChar (b.toNat / 16), Nat.digitChar (b.toNat % 16)])

/-- A condition that a field equals a value. -/
structure Filter where
  field : String
  value : Datum

/-- The direct children of a collection that pass every filter, in the order of a field. -/
structure Query where
  collection : String
  filters : List Filter := []
  orderBy : Option String := none

namespace Query

/-- All documents of a collection. -/
def ofPath (path : String) : Query := { collection := trimSlashes path }

/-- Adds a filter. -/
def whereEq (q : Query) (field : String) (value : Datum) : Query :=
  { q with filters := q.filters ++ [⟨field, value⟩] }

/-- Orders by a field, the key breaking ties. -/
def orderedBy (q : Query) (field : String) : Query := { q with orderBy := some field }

end Query

/-- A query or a single document. -/
inductive Target where
  | query (query : Query)
  | document (key : DocumentKey)

namespace Target

instance : Inhabited Target := ⟨.document ⟨""⟩⟩

/-- The name under which a target is subscribed and stored. -/
def canonicalId : Target → String
  | .document key => "doc:" ++ key.path
  | .query q =>
    let filters := q.filters.map fun f => "|" ++ f.field ++ "==" ++ f.value.text
    let order := q.orderBy.elim "" ("|order:" ++ ·)
    "query:" ++ q.collection ++ String.join filters ++ order

/-- Whether a document with this key could belong to the target, judged by its path alone. -/
def covers (t : Target) (key : DocumentKey) : Bool :=
  match t with
  | .document own => own == key
  | .query q => key.collection == q.collection

/-- Whether documents of the covered path may be left out. -/
def isFiltered : Target → Bool
  | .document _ => false
  | .query q => !q.filters.isEmpty

def isDocument : Target → Bool
  | .document _ => true
  | .query _ => false

/-- Whether a document belongs to the target. One that does not exist belongs to none. -/
def selects (t : Target) (d : Document) : Bool :=
  d.isPresent && match t with
    | .document key => d.key == key
    | .query q =>
      d.key.collection == q.collection &&
        q.filters.all fun f => (d.field f.field).any (· == f.value)

/-- The order of a target's documents: by the field of the query, if it has one, then by key. -/
def compare (t : Target) (a b : Document) : Ordering :=
  let byField := match t with
    | .query { orderBy := some field, .. } => Datum.compareOptional (a.field field) (b.field field)
    | _ => .eq
  byField.then (Ord.compare a.key b.key)

/-- Whether the first document may stand before the second. -/
def before (t : Target) (a b : Document) : Bool := (t.compare a b).isLE

end Target

end LiveQuery
