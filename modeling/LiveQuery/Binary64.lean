/-!
# Finite binary64 numbers

A finite binary64 number is its sign and its magnitude word, the 63 bits below
the sign. Everything here is exact arithmetic on natural numbers: a magnitude
word stands for `mantissa * 2 ^ exponent`, and a quotient of natural numbers is
rounded to the nearest word, a tie going to the even one.

Infinities and the numbers that are not numbers have no place in this type; an
operation that would leave the finite range answers `none`.
-/

namespace LiveQuery

-- Powers are those that compute, also where an algebra in scope has its own.
@[default_instance high]
instance (priority := high) power {α : Type} [NatPow α] : Pow α Nat := instPowNat

/-- The first magnitude word that stands for no finite number. -/
def Binary64.wordLimit : Nat := 2047 * 2 ^ 52

/-- A finite binary64 number. Words order as the numbers they stand for. -/
structure Binary64 where
  negative : Bool
  word : Nat
  finite : word < Binary64.wordLimit
deriving DecidableEq, Repr

namespace Binary64

/-- The integer nearest to `num / den`, a tie going to the even one. -/
def nearest (num den : Nat) : Nat :=
  let floor := num / den
  let rest := 2 * (num % den)
  if rest < den then floor
  else if den < rest then floor + 1
  else if floor % 2 = 0 then floor else floor + 1

/-- The magnitude word nearest to `num / den`. The binary place is chosen so that the
    integer part has 53 bits, but never below the smallest place there is; a rounding that
    carries into the next power of two carries into the exponent field by itself. -/
def nearestWord (num den : Nat) : Nat :=
  if num = 0 then 0
  else
    let scaled (place : Int) : Nat × Nat :=
      (num * 2 ^ (-place).toNat, den * 2 ^ place.toNat)
    let low : Int := max ((num.log2 : Int) - den.log2 - 53) (-1074)
    let (top, bottom) := scaled low
    let place := if top / bottom < 2 ^ 53 then low else low + 1
    let (top, bottom) := scaled place
    (place + 1074).toNat * 2 ^ 52 + nearest top bottom

/-- The number nearest to `num / den` with the given sign, unless it is too large. -/
def ofRatio (negative : Bool) (num den : Nat) : Option Binary64 :=
  if h : nearestWord num den < wordLimit then some ⟨negative, nearestWord num den, h⟩ else none

/-- The integer part of the significand; the number is `mantissa * 2 ^ exponent`. -/
def mantissa (x : Binary64) : Nat :=
  if x.word < 2 ^ 52 then x.word else x.word % 2 ^ 52 + 2 ^ 52

/-- The binary place of the significand. The smallest numbers share the place of the next larger
    ones. -/
def exponent (x : Binary64) : Int := max ((x.word / 2 ^ 52 : Nat) : Int) 1 - 1075

/-- The magnitude as a quotient: this over `denominator`. -/
def numerator (x : Binary64) : Nat := x.mantissa * 2 ^ x.exponent.toNat

/-- A power of two. -/
def denominator (x : Binary64) : Nat := 2 ^ (-x.exponent).toNat

/-- Either zero. -/
def isZero (x : Binary64) : Bool := x.word == 0

/-- The product, rounded once. -/
def mul (x y : Binary64) : Option Binary64 :=
  ofRatio (x.negative != y.negative) (x.numerator * y.numerator) (x.denominator * y.denominator)

/-- The quotient by a number that is not zero, rounded once. -/
def div (x y : Binary64) : Option Binary64 :=
  ofRatio (x.negative != y.negative) (x.numerator * y.denominator) (x.denominator * y.numerator)

/-- The other sign; a zero has one too. -/
def neg (x : Binary64) : Binary64 := { x with negative := !x.negative }

/-- The numerator with the sign of the number. -/
def signedNumerator (x : Binary64) : Int := if x.negative then -(x.numerator : Int) else x.numerator

/-- The sum, rounded once. A sum of zero is negative only if both numbers are. -/
def add (x y : Binary64) : Option Binary64 :=
  let sum := x.signedNumerator * y.denominator + y.signedNumerator * x.denominator
  ofRatio (if sum = 0 then x.negative && y.negative else sum < 0) sum.natAbs
    (x.denominator * y.denominator)

/-- Numerical equality: the two zeros are equal. -/
def same (x y : Binary64) : Bool :=
  x.word == y.word && (x.negative == y.negative || x.isZero)

/-- The place of a number with this sign and word in the order of all binary64 numbers, in
    which the negative zero comes directly before the positive one. -/
def rankOf (negative : Bool) (word : Nat) : Int :=
  if negative then -(word : Int) - 1 else word

/-- The place in the order of all binary64 numbers. -/
def rank (x : Binary64) : Int := rankOf x.negative x.word

end Binary64

end LiveQuery
