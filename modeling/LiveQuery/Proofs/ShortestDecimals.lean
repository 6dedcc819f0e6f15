import LiveQuery.Decimal.Shortest
import Mathlib.Algebra.Order.Field.Power
import Mathlib.Algebra.Order.Field.Rat
import Mathlib.Data.Rat.Cast.Order
import Mathlib.Tactic.FieldSimp
import Mathlib.Tactic.Linarith
import Mathlib.Tactic.NormNum
import Mathlib.Tactic.Positivity
import Mathlib.Tactic.Ring

/-!
# Shortest decimals tell numbers apart

The shortest decimal of a binary64 number is one of the rationals that round to that number:
the last of the grids that are tried is finer than the interval of these rationals, so it has
a point in there. The intervals of two magnitudes have at most one end in common, and where
they have, the odd one of the two leaves it out. So numbers with one shortest decimal have
one magnitude.
-/

namespace LiveQuery

/-- A power with an integer exponent, as a quotient of two whole powers. -/
theorem zpow_eq_div {base : Nat} (positive : 0 < base) (exponent : Int) :
    (base : ℚ) ^ exponent =
      ((base ^ exponent.toNat : Nat) : ℚ) / ((base ^ (-exponent).toNat : Nat) : ℚ) := by
  have nonzero : (base : ℚ) ≠ 0 := by exact_mod_cast positive.ne'
  have split : exponent = (exponent.toNat : Int) - ((-exponent).toNat : Int) := by omega
  conv_lhs => rw [split]
  rw [zpow_sub₀ nonzero, zpow_natCast, zpow_natCast]
  norm_cast

/-- The rational that a decimal stands for. -/
def Decimal.value (d : Decimal) : ℚ := d.coefficient * (10 : ℚ) ^ d.exponent

namespace Decimal

theorem value_eq_div (coefficient : Nat) (exponent : Int) : value ⟨coefficient, exponent⟩ =
    ((coefficient * 10 ^ exponent.toNat : Nat) : ℚ) / ((10 ^ (-exponent).toNat : Nat) : ℚ) := by
  have power := zpow_eq_div (show 0 < 10 by norm_num) exponent
  rw [Nat.cast_ofNat] at power
  rw [value, power, ← mul_div_assoc, Nat.cast_mul]

/-- Zeros at the end say nothing. -/
theorem value_dropZeros (fuel : Nat) (d : Decimal) : (dropZeros fuel d).value = d.value := by
  induction fuel generalizing d with
  | zero => rfl
  | succ fuel ih =>
    rw [dropZeros]
    split
    case isTrue whole =>
      have even : d.coefficient = d.coefficient / 10 * 10 := by omega
      rw [ih, value, value]
      dsimp only
      conv_rhs => rw [even]
      rw [zpow_add_one₀ (by norm_num)]
      push_cast
      ring
    case isFalse => rfl

namespace Interval

/-- The least end of an interval. -/
def lower (i : Interval) : ℚ := i.low / i.scale

/-- The greatest end of an interval. -/
def upper (i : Interval) : ℚ := i.high / i.scale

/-- A rational lies in an interval. -/
def Contains (i : Interval) (q : ℚ) : Prop :=
  if i.closed then i.lower ≤ q ∧ q ≤ i.upper else i.lower < q ∧ q < i.upper

section Points

variable {i : Interval} (scaled : 0 < i.scale) {exponent : Int} {k : Nat}

/-- A point of the grid of multiples of a power of ten lies in the interval, in whole numbers. -/
def inside (i : Interval) (exponent : Int) (k : Nat) : Bool :=
  let unit := 10 ^ exponent.toNat * i.scale
  let shift := 10 ^ (-exponent).toNat
  if i.closed then i.low * shift ≤ k * unit && k * unit ≤ i.high * shift
  else i.low * shift < k * unit && k * unit < i.high * shift

/-- The point of a grid that is found is inside. None is found only if the last one that does not
    pass the middle is outside. -/
theorem point?_cases (i : Interval) (exponent : Int) :
    (∃ k, i.point? exponent = some k ∧ i.inside exponent k = true) ∨
      i.point? exponent = none ∧ i.inside exponent
        (i.middle * 10 ^ (-exponent).toNat / (10 ^ exponent.toNat * i.scale)) = false := by
  unfold point?
  dsimp only
  split
  case h_1 below above => exact .inl ⟨_, rfl, below⟩
  case h_2 below above => exact .inl ⟨_, rfl, above⟩
  case h_3 below above => exact .inr ⟨rfl, below⟩
  case h_4 below above =>
    split
    · exact .inl ⟨_, rfl, below⟩
    · split
      · exact .inl ⟨_, rfl, above⟩
      · split
        · exact .inl ⟨_, rfl, below⟩
        · exact .inl ⟨_, rfl, above⟩

include scaled

/-- A point of a grid against the ends of an interval, all of it brought to whole numbers. -/
theorem le_value_iff (low : Nat) :
    (low : ℚ) / i.scale ≤ value ⟨k, exponent⟩ ↔
      low * 10 ^ (-exponent).toNat ≤ k * (10 ^ exponent.toNat * i.scale) := by
  have scale : (0 : ℚ) < i.scale := by exact_mod_cast scaled
  have shift : (0 : ℚ) < ((10 ^ (-exponent).toNat : Nat) : ℚ) := by positivity
  rw [value_eq_div, div_le_div_iff₀ scale shift, ← Nat.mul_assoc]
  exact_mod_cast Iff.rfl

theorem value_le_iff (high : Nat) :
    value ⟨k, exponent⟩ ≤ (high : ℚ) / i.scale ↔
      k * (10 ^ exponent.toNat * i.scale) ≤ high * 10 ^ (-exponent).toNat := by
  have scale : (0 : ℚ) < i.scale := by exact_mod_cast scaled
  have shift : (0 : ℚ) < ((10 ^ (-exponent).toNat : Nat) : ℚ) := by positivity
  rw [value_eq_div, div_le_div_iff₀ shift scale, ← Nat.mul_assoc]
  exact_mod_cast Iff.rfl

/-- A point is inside as its rational is. -/
theorem contains_iff : i.Contains (value ⟨k, exponent⟩) ↔ i.inside exponent k = true := by
  unfold Contains inside lower upper
  dsimp only
  cases i.closed with
  | true =>
    rw [if_pos rfl, if_pos rfl, le_value_iff scaled, value_le_iff scaled]
    simp
  | false =>
    rw [if_neg Bool.false_ne_true, if_neg Bool.false_ne_true, ← not_le, ← not_le,
      value_le_iff scaled, le_value_iff scaled]
    simp

/-- If one of the grids that are tried has a point inside, a point inside is found. -/
theorem contains_search (grids : Nat) (first : Int) {tried : Nat} (early : tried < grids)
    (some_point : (i.point? (first - tried)).isSome) :
    i.Contains (i.search grids first).value := by
  induction grids generalizing first tried with
  | zero => omega
  | succ grids ih =>
    rw [search]
    obtain ⟨k, point, inside⟩ | ⟨missed, -⟩ := i.point?_cases first
    · rw [point]
      exact (contains_iff scaled).mpr inside
    · rw [missed]
      cases tried with
      | zero =>
        rw [Int.natCast_zero, Int.sub_zero, missed] at some_point
        cases some_point
      | succ tried =>
        apply ih (first - 1) (show tried < grids by omega)
        have same : first - 1 - (tried : Int) = first - (tried + 1 : Nat) := by omega
        rw [same]
        exact some_point

/-- A grid that is finer than the lower half of the interval has a point inside. -/
theorem isSome_point? (upward : i.middle < i.high)
    (fine : 10 ^ exponent.toNat * i.scale ≤ (i.middle - i.low) * 10 ^ (-exponent).toNat) :
    (i.point? exponent).isSome := by
  have shifted : 0 < 10 ^ (-exponent).toNat := by positivity
  have united : 0 < 10 ^ exponent.toNat * i.scale := by positivity
  let below := i.middle * 10 ^ (-exponent).toNat / (10 ^ exponent.toNat * i.scale)
  have inner : i.inside exponent below = true := by
    have under : below * (10 ^ exponent.toNat * i.scale) ≤ i.middle * 10 ^ (-exponent).toNat :=
      Nat.div_mul_le_self _ _
    have beyond : i.middle * 10 ^ (-exponent).toNat <
        (below + 1) * (10 ^ exponent.toNat * i.scale) := by
      rw [Nat.mul_comm (below + 1)]
      exact Nat.lt_mul_div_succ _ united
    have high : i.middle * 10 ^ (-exponent).toNat < i.high * 10 ^ (-exponent).toNat :=
      Nat.mul_lt_mul_of_pos_right upward shifted
    rw [Nat.sub_mul] at fine
    rw [Nat.add_mul, Nat.one_mul] at beyond
    have lower : i.low * 10 ^ (-exponent).toNat < below * (10 ^ exponent.toNat * i.scale) := by
      omega
    have upper := under.trans_lt high
    unfold inside
    dsimp only
    split
    · simp [lower.le, upper.le]
    · simp [lower, upper]
  obtain ⟨k, point, -⟩ | ⟨-, outside⟩ := i.point?_cases exponent
  · rw [point]
    rfl
  · cases inner.symm.trans outside

end Points

end Interval

end Decimal

namespace Binary64

open Decimal (Interval)

variable (x : Binary64)

-- The powers of two are written out below, as the arithmetic is about numerals.

theorem mantissa_eq : x.mantissa =
    if x.word < 4503599627370496 then x.word
    else x.word % 4503599627370496 + 4503599627370496 := rfl

theorem exponent_eq : x.exponent =
    max ((x.word / 4503599627370496 : Nat) : Int) 1 - 1075 := rfl

theorem word_lt : x.word < 9218868437227405312 := x.finite

/-- How far the lower end lies below the number, in quarters of a unit in the last place. -/
def margin : Nat :=
  if x.mantissa = 4503599627370496 ∧ 9007199254740992 ≤ x.word then 1 else 2

theorem scale_pos : 0 < (Interval.of x).scale := by
  unfold Interval.of
  positivity

/-- Quarters of a unit in the last place are the measure of the interval. -/
theorem scaled_eq (n : Nat) : ((n * 2 ^ x.exponent.toNat : Nat) : ℚ) / (Interval.of x).scale =
    n / 4 * (2 : ℚ) ^ x.exponent := by
  have power := zpow_eq_div (show 0 < 2 by norm_num) x.exponent
  rw [Nat.cast_ofNat] at power
  have scale : (Interval.of x).scale = 4 * 2 ^ (-x.exponent).toNat := rfl
  rw [power, scale, div_mul_div_comm]
  push_cast
  rfl

theorem lower_eq : (Interval.of x).lower =
    ((4 * x.mantissa - x.margin : Nat) : ℚ) / 4 * (2 : ℚ) ^ x.exponent := x.scaled_eq _

theorem upper_eq : (Interval.of x).upper =
    ((4 * x.mantissa + 2 : Nat) : ℚ) / 4 * (2 : ℚ) ^ x.exponent := x.scaled_eq _

theorem lower_lt_upper : (Interval.of x).lower < (Interval.of x).upper := by
  rw [lower_eq, upper_eq]
  have power : (0 : ℚ) < 2 ^ x.exponent := by positivity
  have less : ((4 * x.mantissa - x.margin : Nat) : ℚ) < ((4 * x.mantissa + 2 : Nat) : ℚ) := by
    exact_mod_cast (by omega : 4 * x.mantissa - x.margin < 4 * x.mantissa + 2)
  gcongr

/-- Where the interval of one magnitude ends, that of the next begins. -/
theorem upper_eq_lower {x y : Binary64} (next : y.word = x.word + 1) :
    (Interval.of x).upper = (Interval.of y).lower := by
  rw [lower_eq, upper_eq]
  have ends : 4 * x.mantissa + 2 = 4 * y.mantissa - y.margin ∧ y.exponent = x.exponent ∨
      4 * x.mantissa + 2 = 2 * (4 * y.mantissa - y.margin) ∧ y.exponent = x.exponent + 1 := by
    simp only [margin, mantissa_eq, exponent_eq, next]
    split_ifs <;> omega
  obtain ⟨same, exponent⟩ | ⟨double, exponent⟩ := ends
  · rw [same, exponent]
  · rw [double, exponent, zpow_add_one₀ (by norm_num)]
    push_cast
    ring

/-- The intervals of magnitudes that are not neighbours have no end in common. -/
theorem upper_lt_lower {x y : Binary64} (apart : x.word + 1 < y.word) :
    (Interval.of x).upper < (Interval.of y).lower := by
  induction gap : y.word - x.word - 2 generalizing y with
  | zero =>
    have middle : x.word + 1 < wordLimit := apart.trans y.finite
    let z : Binary64 := ⟨false, x.word + 1, middle⟩
    have next : y.word = z.word + 1 := by
      have same : z.word = x.word + 1 := rfl
      omega
    rw [upper_eq_lower (show z.word = x.word + 1 from rfl), ← upper_eq_lower next]
    exact z.lower_lt_upper
  | succ gap ih =>
    have before : y.word - 1 < wordLimit := (Nat.sub_le _ _).trans_lt y.finite
    let z : Binary64 := ⟨false, y.word - 1, before⟩
    have word : z.word = y.word - 1 := rfl
    rw [← upper_eq_lower (show y.word = z.word + 1 by omega)]
    exact (ih (by omega) (by omega)).trans z.lower_lt_upper

/-- The ends belong to the interval when the word is even. -/
theorem closed_eq : (Interval.of x).closed = decide (x.word % 2 = 0) := by
  have parity : x.mantissa % 2 = x.word % 2 := by
    rw [mantissa_eq]
    split <;> omega
  exact congrArg (fun n => decide (n = 0)) parity

theorem contains_iff {q : ℚ} : (Interval.of x).Contains q ↔
    if x.word % 2 = 0 then (Interval.of x).lower ≤ q ∧ q ≤ (Interval.of x).upper
    else (Interval.of x).lower < q ∧ q < (Interval.of x).upper := by
  unfold Interval.Contains
  rw [closed_eq]
  simp only [decide_eq_true_eq]

/-- No rational rounds to two magnitudes. -/
theorem word_le_of_contains {x y : Binary64} {q : ℚ} (first : (Interval.of x).Contains q)
    (second : (Interval.of y).Contains q) : y.word ≤ x.word := by
  rw [contains_iff] at first second
  by_contra less
  rcases Nat.lt_or_eq_of_le (Nat.not_le.mp less) with apart | next
  · have ends := upper_lt_lower apart
    split at first <;> split at second <;> linarith
  · -- neighbours share an end, and the odd one of them leaves it out
    have ends := upper_eq_lower next.symm
    split at first <;> split at second
    · omega
    · linarith
    · linarith
    · linarith

/-- A power of ten is no more than ten times a power of two if their exponents compare in small
    whole numbers. -/
theorem zpow_le_of_zpow_le {a p n m : ℤ} (positive : 0 < n) (bound : a * n ≤ m * p + n)
    (powers : ((10 : ℚ) ^ m) ^ p ≤ ((2 : ℚ) ^ n) ^ p) : (10 : ℚ) ^ a ≤ 10 * 2 ^ p := by
  apply (zpow_le_zpow_iff_left₀ (by positivity) (by positivity) positive).mp
  calc ((10 : ℚ) ^ a) ^ n = 10 ^ (a * n) := (zpow_mul _ _ _).symm
    _ ≤ 10 ^ (m * p + n) := zpow_le_zpow_right₀ (by norm_num) bound
    _ = (10 ^ m) ^ p * 10 ^ n := by rw [zpow_add₀ (by norm_num), zpow_mul]
    _ ≤ (2 ^ n) ^ p * 10 ^ n := by gcongr
    _ = (10 * 2 ^ p) ^ n := by
      rw [mul_zpow, ← zpow_mul, ← zpow_mul, mul_comm n p, mul_comm]

/-- The decimal place of a power of two is estimated well enough. -/
theorem zpow_fdiv_le {place : Int} (least : -1074 ≤ place) (greatest : place ≤ 1023) :
    (10 : ℚ) ^ (place * 1233).fdiv 4096 ≤ 10 * 2 ^ place := by
  rw [Int.fdiv_eq_ediv_of_nonneg _ (by norm_num)]
  rcases Int.le_total 0 place with up | down
  · -- ten to the third is less than two to the tenth
    apply zpow_le_of_zpow_le (n := 10) (m := 3) (by norm_num) (by omega)
    exact zpow_le_zpow_left₀ up (by norm_num) (by norm_num)
  · -- two to the 93rd is less than ten to the 28th
    apply zpow_le_of_zpow_le (n := 93) (m := 28) (by norm_num) (by omega)
    obtain ⟨n, rfl⟩ : ∃ n, place = -n := ⟨-place, (neg_neg place).symm⟩
    rw [zpow_neg, zpow_neg]
    apply inv_anti₀ (by positivity)
    exact zpow_le_zpow_left₀ (by omega) (by positivity) (by norm_num)

theorem mantissa_lt : x.mantissa < 9007199254740992 := by
  rw [mantissa_eq]
  split <;> omega

theorem mantissa_pos (nonzero : x.word ≠ 0) : 0 < x.mantissa := by
  rw [mantissa_eq]
  split <;> omega

/-- The last grid is finer than a quarter of the unit in the last place. -/
theorem zpow_last_le (nonzero : x.word ≠ 0) :
    (10 : ℚ) ^ ((((x.mantissa.log2 : Int) + x.exponent) * 1233).fdiv 4096 + 2 - 23) * 4 ≤
      2 ^ x.exponent := by
  have short : x.mantissa.log2 < 53 := (Nat.log2_lt (x.mantissa_pos nonzero).ne').mpr x.mantissa_lt
  have word := x.word_lt
  have exponent := x.exponent_eq
  have least : -1074 ≤ (x.mantissa.log2 : Int) + x.exponent := by omega
  have estimate := zpow_fdiv_le least (by omega)
  have wide : (2 : ℚ) ^ ((x.mantissa.log2 : Int) + x.exponent) ≤
      2 ^ (52 : Int) * 2 ^ x.exponent := by
    rw [← zpow_add₀ (by norm_num)]
    exact zpow_le_zpow_right₀ (by norm_num) (by omega)
  have power : (0 : ℚ) < 2 ^ x.exponent := by positivity
  rw [show ∀ n : Int, n + 2 - 23 = n + -21 by intro n; omega, zpow_add₀ (by norm_num)]
  norm_num at wide ⊢
  linarith

/-- Below the number the interval is a quarter of a unit in the last place wide, or more. -/
theorem le_middle_sub_low (nonzero : x.word ≠ 0) :
    2 ^ x.exponent.toNat ≤ (Interval.of x).middle - (Interval.of x).low := by
  change _ ≤ 4 * x.mantissa * 2 ^ x.exponent.toNat -
    (4 * x.mantissa - x.margin) * 2 ^ x.exponent.toNat
  rw [← Nat.sub_mul]
  apply Nat.le_mul_of_pos_left
  have positive := x.mantissa_pos nonzero
  unfold margin
  split <;> omega

/-- A grid that is no coarser than a quarter of a unit in the last place is fine enough. -/
theorem fine_of_zpow_le (nonzero : x.word ≠ 0) {exponent : Int}
    (fine : (10 : ℚ) ^ exponent * 4 ≤ 2 ^ x.exponent) :
    10 ^ exponent.toNat * (Interval.of x).scale ≤
      ((Interval.of x).middle - (Interval.of x).low) * 10 ^ (-exponent).toNat := by
  have tens := zpow_eq_div (show 0 < 10 by norm_num) exponent
  have twos := zpow_eq_div (show 0 < 2 by norm_num) x.exponent
  rw [Nat.cast_ofNat] at tens twos
  have shift : (0 : ℚ) < ((10 ^ (-exponent).toNat : Nat) : ℚ) := by positivity
  have down : (0 : ℚ) < ((2 ^ (-x.exponent).toNat : Nat) : ℚ) := by positivity
  rw [tens, twos, div_mul_eq_mul_div, div_le_div_iff₀ shift down] at fine
  calc 10 ^ exponent.toNat * (Interval.of x).scale
      = 10 ^ exponent.toNat * 4 * 2 ^ (-x.exponent).toNat := (Nat.mul_assoc _ _ _).symm
    _ ≤ 2 ^ x.exponent.toNat * 10 ^ (-exponent).toNat := by exact_mod_cast fine
    _ ≤ _ := Nat.mul_le_mul_right _ (x.le_middle_sub_low nonzero)

/-- The shortest decimal of a number rounds to it. -/
theorem contains_shortest (nonzero : x.word ≠ 0) :
    (Interval.of x).Contains (Decimal.shortest x).value := by
  unfold Decimal.shortest
  dsimp only
  rw [Decimal.value_dropZeros]
  apply Interval.contains_search x.scale_pos 24 _ (show 23 < 24 by norm_num)
  apply Interval.isSome_point? x.scale_pos
  · have positive : 0 < 2 ^ x.exponent.toNat := by positivity
    exact Nat.mul_lt_mul_of_pos_right (by omega) positive
  · exact x.fine_of_zpow_le nonzero (x.zpow_last_le nonzero)

/-- The rational that the written digits of a number form. -/
def shortestValue : ℚ := if x.word = 0 then 0 else (Decimal.shortest x).value

theorem value_shortest_pos (nonzero : x.word ≠ 0) : 0 < (Decimal.shortest x).value := by
  have inside := (x.contains_iff).mp (x.contains_shortest nonzero)
  have lower : 0 < (Interval.of x).lower := by
    rw [lower_eq]
    have low : 0 < 4 * x.mantissa - x.margin := by
      simp only [margin, mantissa_eq]
      split_ifs <;> omega
    positivity
  split at inside <;> linarith

theorem word_eq_of_shortestValue {x y : Binary64} (same : x.shortestValue = y.shortestValue) :
    x.word = y.word := by
  unfold shortestValue at same
  split at same
  case isTrue zero =>
    split at same
    case isTrue zero' => rw [zero, zero']
    case isFalse nonzero => exact absurd same (y.value_shortest_pos nonzero).ne
  case isFalse nonzero =>
    split at same
    case isTrue => exact absurd same (x.value_shortest_pos nonzero).ne'
    case isFalse nonzero' =>
      have first := x.contains_shortest nonzero
      have second := y.contains_shortest nonzero'
      rw [← same] at second
      exact Nat.le_antisymm (word_le_of_contains second first) (word_le_of_contains first second)

/-- Numbers with the same sign and the same digits are the same. -/
theorem eq_of_shortestValue {x y : Binary64} (sign : x.negative = y.negative)
    (same : x.shortestValue = y.shortestValue) : x = y := by
  have word := word_eq_of_shortestValue same
  obtain ⟨_, _, _⟩ := x
  obtain ⟨_, _, _⟩ := y
  obtain rfl : _ = _ := sign
  obtain rfl : _ = _ := word
  rfl

end Binary64

end LiveQuery
