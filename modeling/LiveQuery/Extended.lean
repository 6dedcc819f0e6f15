import LiveQuery.Binary64

/-!
# All binary64 numbers

The finite numbers, the two infinities, and the undefined number, which is what
an operation without a value gives. Every operation rounds once and goes to an
infinity when its result is too large.
-/

namespace LiveQuery

/-- Every binary64 number. -/
inductive Extended where
  | finite (value : Binary64)
  | infinite (negative : Bool)
  /-- No number: unequal to every number, and neither below nor above any. -/
  | undefined
deriving DecidableEq, Repr

namespace Extended

def zero : Extended := .finite ⟨false, 0, by decide⟩

def half : Extended := .finite ⟨false, 1022 * 2 ^ 52, by decide⟩

def one : Extended := .finite ⟨false, 1023 * 2 ^ 52, by decide⟩

def oneAndHalf : Extended := .finite ⟨false, 1023 * 2 ^ 52 + 2 ^ 51, by decide⟩

/-- The number nearest to `num / den` with the given sign. -/
def ofRatio (negative : Bool) (num den : Nat) : Extended :=
  (Binary64.ofRatio negative num den).elim (.infinite negative) .finite

/-- The number nearest to an integer. -/
def ofInt (value : Int) : Extended := ofRatio (value < 0) value.natAbs 1

/-- The product. Zero times infinity is undefined. -/
def mul : Extended → Extended → Extended
  | .finite x, .finite y => (x.mul y).elim (.infinite (x.negative != y.negative)) .finite
  | .infinite negative, .infinite other => .infinite (negative != other)
  | .infinite negative, .finite x | .finite x, .infinite negative =>
    if x.isZero then .undefined else .infinite (negative != x.negative)
  | .undefined, _ | _, .undefined => .undefined

/-- The sum. Opposite infinities have none. -/
def add : Extended → Extended → Extended
  | .finite x, .finite y => (x.add y).elim (.infinite x.negative) .finite
  | .infinite negative, .infinite other =>
    if negative = other then .infinite negative else .undefined
  | .infinite negative, .finite _ | .finite _, .infinite negative => .infinite negative
  | .undefined, _ | _, .undefined => .undefined

/-- Whether one number is below another. The two zeros are equal. -/
def below : Extended → Extended → Bool
  | .finite x, .finite y => !x.same y && decide (x.rank < y.rank)
  | .infinite negative, .infinite other => negative && !other
  | .infinite negative, .finite _ => negative
  | .finite _, .infinite negative => !negative
  | .undefined, _ | _, .undefined => false

/-- The smaller of two numbers; an undefined one does not count. -/
def least (x y : Extended) : Extended :=
  if x = .undefined || y.below x then y else x

/-- The larger of two numbers; an undefined one does not count. -/
def greatest (x y : Extended) : Extended :=
  if x = .undefined || x.below y then y else x

/-- The product of `result` and the power of `base` that the lowest binary digits of `exponent`
    give, by repeated squaring. The order of the multiplications decides how it is rounded. -/
def timesPower (result base : Extended) : (digits exponent : Nat) → Extended
  | 0, _ => result
  | digits + 1, exponent =>
    let next := if exponent % 2 = 1 then result.mul base else result
    if exponent < 2 then next else timesPower next (base.mul base) digits (exponent / 2)

/-- The power by repeated squaring. -/
def power (base : Extended) (exponent : Nat) : Extended :=
  timesPower one base (exponent.log2 + 1) exponent

end Extended

end LiveQuery
