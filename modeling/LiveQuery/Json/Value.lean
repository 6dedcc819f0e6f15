import LiveQuery.Binary64

/-!
# JSON values

The values that document fields hold. An integer that fits a signed or an
unsigned 64-bit word stays an integer; every other number is binary64.

Equality of values is that of the data: integers and binary64 numbers are
never equal, and the two binary64 zeros are.
-/

namespace LiveQuery.Json

/-- A number: an integer of a 64-bit word, signed or unsigned, or a binary64 number. -/
inductive Number where
  | integer (value : Int) (inWord : -2 ^ 63 ≤ value ∧ value < 2 ^ 64)
  | float (value : Binary64)
deriving DecidableEq, Repr

namespace Number

/-- The integer, if it fits a 64-bit word. -/
def ofInt? (value : Int) : Option Number :=
  if h : -2 ^ 63 ≤ value ∧ value < 2 ^ 64 then some (.integer value h) else none

/-- The natural number, if this is one. -/
def toNat? : Number → Option Nat
  | .integer value _ => if 0 ≤ value then some value.toNat else none
  | .float _ => none

/-- Equality inside a class; the classes never meet. -/
def same : Number → Number → Bool
  | .integer a _, .integer b _ => a == b
  | .float a, .float b => a.same b
  | _, _ => false

end Number

/-- A value. The members of an object may stand here in any order; `Datum` is the type of the
    values whose objects are in order. -/
inductive Value where
  | null
  | bool (value : Bool)
  | number (value : Number)
  | string (value : String)
  | array (items : List Value)
  | object (members : List (String × Value))

namespace Value

instance : Inhabited Value := ⟨.null⟩

mutual

/-- Equality of the data. -/
def same : Value → Value → Bool
  | .null, .null => true
  | .bool a, .bool b => a == b
  | .number a, .number b => a.same b
  | .string a, .string b => a == b
  | .array as, .array bs => sameItems as bs
  | .object as, .object bs => sameMembers as bs
  | _, _ => false

/-- Item by item, and of one length. -/
def sameItems : List Value → List Value → Bool
  | [], [] => true
  | a :: as, b :: bs => a.same b && sameItems as bs
  | _, _ => false

/-- Member by member: the order of members is fixed by their names. -/
def sameMembers : List (String × Value) → List (String × Value) → Bool
  | [], [] => true
  | (i, a) :: as, (j, b) :: bs => i == j && a.same b && sameMembers as bs
  | _, _ => false

end

instance : BEq Value := ⟨same⟩

end Value

end LiveQuery.Json
