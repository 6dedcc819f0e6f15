import LiveQuery.Decimal.Shortest

/-!
# Writing decimals

How the digits of a decimal are laid out: with a point among them while the
number is of moderate size, and otherwise with one digit before the point and
a power of ten after it.
-/

namespace LiveQuery.Decimal

/-- The powers of ten of the first digit between which a decimal is written with a point among
    its digits. -/
structure Layout where
  least : Int
  greatest : Int

/-- Lays out a decimal; its power of ten always carries a sign. -/
def Layout.write (layout : Layout) (d : Decimal) : String :=
  let digits := Nat.toDigits 10 d.coefficient
  let lead : Int := digits.length - 1 + d.exponent
  let chars : List Char :=
    if layout.least ≤ lead ∧ lead ≤ layout.greatest then
      if lead < 0 then
        '0' :: '.' :: (List.replicate (-lead - 1).toNat '0' ++ digits)
      else
        let whole := lead.toNat + 1
        let rest := digits.drop whole
        digits.take whole ++ List.replicate (whole - digits.length) '0' ++
          '.' :: (if rest.isEmpty then ['0'] else rest)
    else
      let rest := digits.drop 1
      digits.take 1 ++ (if rest.isEmpty then [] else '.' :: rest) ++
        'e' :: (if lead < 0 then '-' else '+') :: Nat.toDigits 10 lead.natAbs
  String.ofList chars

/-- The text of a binary64 number: the shortest digits that read back, the sign of a zero
    kept. -/
def Layout.writeBinary64 (layout : Layout) (x : Binary64) : String :=
  (if x.negative then "-" else "") ++
    if x.isZero then "0.0" else layout.write (shortest x)

end LiveQuery.Decimal
