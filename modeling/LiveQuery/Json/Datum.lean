import LiveQuery.Json.Value
import Std.Data.ExtTreeMap

/-!
# Data

The values in which every object has its members in increasing order of their
names, and so one member for each name. Equal data then differ at most in the
sign of a zero. The constructors below build the order in.
-/

namespace LiveQuery.Json

open Std

/-- Names in increasing order. -/
def namesIncrease : List (String × Value) → Bool
  | [] => true
  | [_] => true
  | (a, _) :: (b, v) :: rest => compare a b == .lt && namesIncrease ((b, v) :: rest)

mutual

/-- Every object inside has its members in order. -/
def Value.isOrdered : Value → Bool
  | .array items => Value.areOrdered items
  | .object members => namesIncrease members && Value.membersAreOrdered members
  | _ => true

def Value.areOrdered : List Value → Bool
  | [] => true
  | item :: rest => item.isOrdered && Value.areOrdered rest

def Value.membersAreOrdered : List (String × Value) → Bool
  | [] => true
  | (_, value) :: rest => value.isOrdered && Value.membersAreOrdered rest

end

/-- A value in canonical form. -/
structure Datum where
  value : Value
  ordered : value.isOrdered = true

/-- Named data, such as the members of an object or the fields of a document. -/
abbrev Fields := ExtTreeMap String Datum

namespace Datum

instance : Inhabited Datum := ⟨⟨.null, rfl⟩⟩

instance : BEq Datum := ⟨fun a b => a.value == b.value⟩

def null : Datum := ⟨.null, rfl⟩

def bool (b : Bool) : Datum := ⟨.bool b, rfl⟩

def number (n : Number) : Datum := ⟨.number n, rfl⟩

def string (s : String) : Datum := ⟨.string s, rfl⟩

/-- The items of an array of data are in canonical form, because each of them is. -/
theorem areOrdered_map (items : List Datum) :
    Value.areOrdered (items.map (·.value)) = true := by
  induction items with
  | nil => rfl
  | cons item rest ih => simp [Value.areOrdered, item.ordered, ih]

/-- An array of data. -/
def array (items : List Datum) : Datum :=
  ⟨.array (items.map (·.value)), by simp [Value.isOrdered, areOrdered_map]⟩

/-- The values of the members of an object of data are in canonical form, because each of them is.
    -/
theorem membersAreOrdered_map (members : List (String × Datum)) :
    Value.membersAreOrdered (members.map fun m => (m.1, m.2.value)) = true := by
  induction members with
  | nil => rfl
  | cons member rest ih => simp [Value.membersAreOrdered, member.2.ordered, ih]

/-- Members in increasing order of their names pass the test: it compares neighbours, which are
    ordered as any two members are. -/
theorem namesIncrease_map (members : List (String × Datum))
    (increasing : members.Pairwise fun a b => compare a.1 b.1 = .lt) :
    namesIncrease (members.map fun m => (m.1, m.2.value)) = true := by
  induction members with
  | nil => rfl
  | cons a rest ih =>
    cases rest with
    | nil => rfl
    | cons b rest =>
      have step := (List.pairwise_cons.mp increasing).1 b (by simp)
      have tail := ih (List.pairwise_cons.mp increasing).2
      simp only [List.map_cons, namesIncrease, step, beq_self_eq_true, Bool.true_and]
      exact tail

end Datum

namespace Fields

/-- The members in the order of their names. -/
def members (fields : Fields) : List (String × Value) :=
  fields.toList.map fun m => (m.1, m.2.value)

/-- Equality of the data. -/
def same (a b : Fields) : Bool := Value.sameMembers a.members b.members

end Fields

/-- An object from its members. -/
def Datum.object (fields : Fields) : Datum :=
  ⟨.object fields.members, by
    simp [Value.isOrdered, Fields.members, Datum.membersAreOrdered_map,
      Datum.namesIncrease_map _ ExtTreeMap.ordered_keys_toList]⟩

end LiveQuery.Json
