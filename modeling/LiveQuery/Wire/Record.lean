import LiveQuery.Json.Tree

/-!
# Records and variants on the wire

A record is written as an object with its fields in a fixed order, and read
from an object with its fields in any order or from an array of its fields in
that order. A variant is written as an object whose only member bears its
name, or as its bare name if it has no content.
-/

namespace LiveQuery.Wire

open Json

/-- The fields of a record in the order of their names, each with its tree if it is given. Fields
    that the record does not have are skipped, and a field may be given once only. In an array
    the fields stand in order, and only the last `optional` ones may be left out. -/
def record? (names : List String) (optional : Nat) : Tree → Option (List (Option Tree))
  | .object members =>
    let known := members.filter fun m => names.contains m.1
    let others := members.filter fun m => !names.contains m.1
    if others.all (·.2.skippable) && (known.map (·.1)).Nodup then
      some (names.map fun name => known.lookup name)
    else none
  | .array items =>
    if names.length ≤ items.length + optional ∧ items.length ≤ names.length then
      some (items.map some ++ List.replicate (names.length - items.length) none)
    else none
  | _ => none

/-- A field that has to be given. -/
def required {α : Type} (decode : Tree → Option α) (field : Option Tree) : Option α :=
  field.bind decode

/-- A field that may be absent or null. -/
def nullable {α : Type} (decode : Tree → Option α) : Option Tree → Option (Option α)
  | none => some none
  | some .null => some none
  | some tree => (decode tree).map some

/-- A field with a value of its own when it is absent. -/
def defaulted {α : Type} (decode : Tree → Option α) (absent : α) : Option Tree → Option α
  | none => some absent
  | some tree => decode tree

/-- The name and the content of a variant. -/
def variant? : Tree → Option (String × Option Tree)
  | .string name => some (name, none)
  | .object [(name, content)] => some (name, some content)
  | _ => none

/-- Whether a variant's content is that of one without fields. -/
def isUnit : Option Tree → Bool
  | none => true
  | some .null => true
  | _ => false

/-- A variant with content. -/
def variant (name : String) (content : Tree) : Tree := .object [(name, content)]

/-- A value that may be missing, null if it is. -/
def orNull {α : Type} (encode : α → Tree) (value : Option α) : Tree := value.elim .null encode

end LiveQuery.Wire
