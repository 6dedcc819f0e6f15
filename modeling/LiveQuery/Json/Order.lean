import LiveQuery.Json.Datum

/-!
# The order of JSON values

Values of one type order as their data do, numbers through the nearest
binary64 number, arrays and objects from their first difference on, and the
shorter first if there is none. Between types the order is null, booleans,
numbers, strings, arrays, objects.
-/

namespace LiveQuery.Json

/-- The place of a number among all binary64 numbers. An integer counts as the binary64 number
    nearest to it. -/
def Number.rank : Number → Int
  | .integer value _ => Binary64.rankOf (value < 0) (Binary64.nearestWord value.natAbs 1)
  | .float value => value.rank

/-- The order of numbers. -/
def Number.compare (a b : Number) : Ordering := Ord.compare a.rank b.rank

namespace Value

/-- The place of a value's type among the types. -/
def typeRank : Value → Nat
  | .null => 0
  | .bool _ => 1
  | .number _ => 2
  | .string _ => 3
  | .array _ => 4
  | .object _ => 5

mutual

/-- The order of values. -/
def compare : Value → Value → Ordering
  | .bool a, .bool b => Ord.compare a b
  | .number a, .number b => a.compare b
  | .string a, .string b => Ord.compare a b
  | .array as, .array bs => compareItems as bs
  | .object as, .object bs => compareMembers as bs
  | a, b => Ord.compare a.typeRank b.typeRank

/-- The first difference decides, else the length. -/
def compareItems : List Value → List Value → Ordering
  | [], [] => .eq
  | [], _ :: _ => .lt
  | _ :: _, [] => .gt
  | a :: as, b :: bs => (a.compare b).then (compareItems as bs)

/-- The first difference in a name or in the value under it decides, else the length. -/
def compareMembers : List (String × Value) → List (String × Value) → Ordering
  | [], [] => .eq
  | [], _ :: _ => .lt
  | _ :: _, [] => .gt
  | (i, a) :: as, (j, b) :: bs =>
    ((Ord.compare i j).then (a.compare b)).then (compareMembers as bs)

end

end Value

/-- Data that are absent come before all others. -/
def Datum.compareOptional : Option Datum → Option Datum → Ordering
  | none, none => .eq
  | none, some _ => .lt
  | some _, none => .gt
  | some a, some b => a.value.compare b.value

end LiveQuery.Json
