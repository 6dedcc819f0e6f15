import LiveQuery.Json.Datum

/-!
# JSON trees

What a JSON text says before its meaning is fixed: members in the order in
which they are written, repeated names included. Records are written as trees
and read from them.

A tree may hold parts that are well formed and yet stand for no value. Such a
part can be skipped where a record ignores it and fails to decode everywhere
else.
-/

namespace LiveQuery.Json

/-- A tree. `bytes` is a string that is no text, because it holds half of a surrogate pair or,
    when not `plain`, a control character that is not escaped. `unusable` is a part without a
    value: a number that is too large, an object with a name that is no text, or a part that is
    nested too deep. -/
inductive Tree where
  | null
  | bool (value : Bool)
  | number (value : Number)
  | string (value : String)
  | bytes (raw : List UInt8) (plain : Bool)
  | array (items : List Tree)
  | object (members : List (String × Tree))
  | unusable

namespace Tree

instance : Inhabited Tree := ⟨.null⟩

mutual

/-- Whether a part may be skipped. Unescaped control characters are never allowed, not even
    where nothing is decoded. -/
def skippable : Tree → Bool
  | .bytes _ plain => plain
  | .array items => skippableItems items
  | .object members => skippableMembers members
  | _ => true

def skippableItems : List Tree → Bool
  | [] => true
  | item :: rest => item.skippable && skippableItems rest

def skippableMembers : List (String × Tree) → Bool
  | [] => true
  | (_, value) :: rest => value.skippable && skippableMembers rest

end

mutual

/-- The data that a tree stands for. Of members with one name the last counts. -/
def datum? : Tree → Option Datum
  | .null => some .null
  | .bool b => some (.bool b)
  | .number n => some (.number n)
  | .string s => some (.string s)
  | .array items => (data? items).map .array
  | .object members => (memberData? members).map fun ms => .object (.ofList ms)
  | .bytes .. => none
  | .unusable => none

def data? : List Tree → Option (List Datum)
  | [] => some []
  | item :: rest => do return (← item.datum?) :: (← data? rest)

def memberData? : List (String × Tree) → Option (List (String × Datum))
  | [] => some []
  | (name, value) :: rest => do return (name, ← value.datum?) :: (← memberData? rest)

end

/-- The members of an object, of those with one name the last. -/
def fields? : Tree → Option Fields
  | .object members => (memberData? members).map (.ofList ·)
  | _ => none

/-- The text that a tree stands for. -/
def string? : Tree → Option String
  | .string s => some s
  | _ => none

def bool? : Tree → Option Bool
  | .bool b => some b
  | _ => none

/-- The items of an array, each decoded. -/
def list? {α : Type} (decode : Tree → Option α) : Tree → Option (List α)
  | .array items => items.mapM decode
  | _ => none

/-- The member with this name, the last if there are several. -/
def get? (t : Tree) (name : String) : Option Tree :=
  match t with
  | .object members => (members.reverse.find? (·.1 == name)).map (·.2)
  | _ => none

/-- A natural number as a tree, if it fits a 64-bit word. -/
def ofNat (n : Nat) : Tree :=
  (Number.ofInt? n).elim .unusable .number

/-- The natural number below `limit` that a tree stands for. -/
def natBelow? (limit : Nat) : Tree → Option Nat
  | .number n => n.toNat?.bind fun k => if k < limit then some k else none
  | _ => none

end Tree

mutual

/-- A value as a tree. -/
def Value.toTree : Value → Tree
  | .null => .null
  | .bool b => .bool b
  | .number n => .number n
  | .string s => .string s
  | .array items => .array (Value.itemTrees items)
  | .object members => .object (Value.memberTrees members)

def Value.itemTrees : List Value → List Tree
  | [] => []
  | item :: rest => item.toTree :: Value.itemTrees rest

def Value.memberTrees : List (String × Value) → List (String × Tree)
  | [] => []
  | (name, value) :: rest => (name, value.toTree) :: Value.memberTrees rest

end

end LiveQuery.Json
