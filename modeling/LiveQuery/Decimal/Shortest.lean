import LiveQuery.Binary64

/-!
# Shortest decimals

The shortest decimal that reads back as a given binary64 number. The numbers
that round to it form an interval; the coarsest decimal grid with a point in
that interval gives the fewest digits, and of two such points the nearer one is
taken, a tie going to the even digit. Only the two grid points beside the
number have to be looked at, because if any point of a grid lies in the
interval, so does one of those two.
-/

namespace LiveQuery

/-- The decimal `coefficient * 10 ^ exponent`. -/
structure Decimal where
  coefficient : Nat
  exponent : Int
deriving DecidableEq, Repr

namespace Decimal

/-- Drops the zeros at the end of the coefficient, at most `fuel` of them. -/
def dropZeros : Nat → Decimal → Decimal
  | 0, d => d
  | fuel + 1, d =>
    if d.coefficient ≠ 0 ∧ d.coefficient % 10 = 0 then
      dropZeros fuel ⟨d.coefficient / 10, d.exponent + 1⟩
    else d

/-- The numbers that round to one binary64 number: the quotients between `low / scale` and
    `high / scale`, ends included when `closed`. -/
structure Interval where
  low : Nat
  middle : Nat
  high : Nat
  scale : Nat
  closed : Bool

/-- Quarters of a unit in the last place serve as the common measure: the gap below a power of
    two is half as wide as the gap above it, except at the smallest exponent. The ends belong
    to the interval exactly when the mantissa is even, since ties go there. -/
def Interval.of (x : Binary64) : Interval :=
  let m := x.mantissa
  let up := 2 ^ x.exponent.toNat
  let narrow := m = 2 ^ 52 ∧ 2 ^ 53 ≤ x.word
  ⟨(4 * m - if narrow then 1 else 2) * up, 4 * m * up, (4 * m + 2) * up,
    4 * 2 ^ (-x.exponent).toNat, m % 2 = 0⟩

/-- The point of the grid of multiples of `10 ^ exponent` that lies in the interval and is
    nearest to its middle. -/
def Interval.point? (i : Interval) (exponent : Int) : Option Nat :=
  let unit := 10 ^ exponent.toNat * i.scale
  let shift := 10 ^ (-exponent).toNat
  let below := i.middle * shift / unit
  let inside (k : Nat) : Bool :=
    if i.closed then i.low * shift ≤ k * unit && k * unit ≤ i.high * shift
    else i.low * shift < k * unit && k * unit < i.high * shift
  let rest := 2 * (i.middle * shift % unit)
  match inside below, inside (below + 1) with
  | true, false => some below
  | false, true => some (below + 1)
  | false, false => none
  | true, true =>
    if rest < unit then some below
    else if unit < rest then some (below + 1)
    else if below % 2 = 0 then some below else some (below + 1)

/-- Tries the grids from `10 ^ exponent` downwards. -/
def Interval.search (i : Interval) : Nat → Int → Decimal
  | 0, exponent => ⟨i.middle * 10 ^ (-exponent).toNat / (i.scale * 10 ^ exponent.toNat), exponent⟩
  | grids + 1, exponent =>
    match i.point? exponent with
    | some k => ⟨k, exponent⟩
    | none => i.search grids (exponent - 1)

/-- The shortest decimal of the magnitude of a number other than zero. The first grid is
    coarser than the number itself; seventeen digits always suffice. -/
def shortest (x : Binary64) : Decimal :=
  let place := (x.mantissa.log2 : Int) + x.exponent
  let first := (place * 1233).fdiv 4096 + 2
  dropZeros 20 ((Interval.of x).search 24 first)

end Decimal

end LiveQuery
