import LiveQuery.Proofs.ResultChanges
import LiveQuery.Proofs.SortedResults

/-!
# The order of integers

Integers compare through the binary64 numbers nearest to them. Rounding keeps their order,
and it leaves an integer alone if 53 binary digits are enough for it. So two integers are
never put the wrong way round, but different ones tie if they round to the same number, and
then the key decides which document comes first.

The magnitude word of the number that is nearest to an integer counts up the binades, and
within a binade it counts multiples of one unit. Both the word and the number grow with the
integer, and in both the last unit of a binade meets the first one of the next.
-/

namespace LiveQuery

open Json

namespace Binary64

/-! ## Rounding a quotient -/

/-- A quotient is rounded down or up, to the nearer side. -/
theorem nearest_cases (num den : Nat) :
    nearest num den = num / den ∧ 2 * (num % den) ≤ den ∨
      nearest num den = num / den + 1 ∧ den ≤ 2 * (num % den) := by
  unfold nearest
  dsimp only
  split
  case isTrue less => exact .inl ⟨rfl, less.le⟩
  case isFalse enough =>
    split
    case isTrue more => exact .inr ⟨rfl, more.le⟩
    case isFalse tie =>
      split
      · exact .inl ⟨rfl, Nat.not_lt.mp tie⟩
      · exact .inr ⟨rfl, Nat.not_lt.mp enough⟩

/-- A whole quotient is not rounded. -/
theorem nearest_mul (k : Nat) {den : Nat} (positive : 0 < den) : nearest (k * den) den = k := by
  have whole : k * den % den = 0 := Nat.mul_mod_left k den
  rcases nearest_cases (k * den) den with ⟨down, -⟩ | ⟨-, half⟩
  · rw [down, Nat.mul_div_cancel k positive]
  · omega

/-- A greater numerator does not give a smaller quotient. Within one quotient the remainder decides,
    and two remainders that are both half the denominator are the same. -/
theorem nearest_mono {num more : Nat} (le : num ≤ more) (den : Nat) :
    nearest num den ≤ nearest more den := by
  have quotients : num / den ≤ more / den := Nat.div_le_div_right le
  have split := Nat.div_add_mod num den
  have split' := Nat.div_add_mod more den
  rcases nearest_cases num den with ⟨down, _⟩ | ⟨up, half⟩
  · rcases nearest_cases more den with ⟨down', -⟩ | ⟨up', -⟩ <;> omega
  · rcases nearest_cases more den with ⟨down', half'⟩ | ⟨up', -⟩
    · rcases Nat.lt_or_eq_of_le quotients with less | same
      · omega
      · rw [same] at split
        obtain rfl : num = more := by omega
        exact Nat.le_refl _
    · omega

theorem le_nearest {k num den : Nat} (positive : 0 < den) (le : k * den ≤ num) :
    k ≤ nearest num den :=
  (nearest_mul k positive).symm.le.trans (nearest_mono le den)

theorem nearest_le {k num den : Nat} (positive : 0 < den) (le : num ≤ k * den) :
    nearest num den ≤ k :=
  (nearest_mono le den).trans (nearest_mul k positive).le

/-- No multiple of the denominator is nearer to the numerator than the rounded quotient. -/
theorem distance_nearest_le (num den k : Nat) :
    ((num : Int) - (nearest num den * den : Nat)).natAbs ≤
      ((num : Int) - (k * den : Nat)).natAbs := by
  have split := Nat.div_add_mod num den
  rw [Nat.mul_comm] at split
  rcases Nat.eq_zero_or_pos den with rfl | positive
  · simp
  have rest := Nat.mod_lt num positive
  have sides : k * den ≤ num / den * den ∨ num / den * den + den ≤ k * den := by
    rcases Nat.lt_or_ge (num / den) k with above | below
    · have next := Nat.mul_le_mul_right den (Nat.succ_le_of_lt above)
      rw [Nat.succ_mul] at next
      exact .inr next
    · exact .inl (Nat.mul_le_mul_right den below)
  rcases nearest_cases num den with ⟨down, half⟩ | ⟨up, half⟩
  · rw [down]
    omega
  · rw [up, Nat.add_mul, Nat.one_mul]
    omega

/-! ## Rounding a natural number -/

/-- The distance between the numbers with 53 binary digits around a natural number. -/
def unitAt (n : Nat) : Nat := 2 ^ (n.log2 - 52)

/-- The natural number of 53 binary digits that is nearest to a natural number. -/
def nearestNat (n : Nat) : Nat := nearest n (unitAt n) * unitAt n

/-- The digits to which a natural number is rounded, the first one not zero. -/
def digitsOf (n : Nat) : Nat := nearest (n * 2 ^ (52 - n.log2)) (unitAt n)

variable {n m : Nat}

theorem unitAt_pos (n : Nat) : 0 < unitAt n := Nat.two_pow_pos _

theorem two_pow_log2_le (nonzero : n ≠ 0) : 2 ^ n.log2 ≤ n :=
  (Nat.le_log2 nonzero).mp (Nat.le_refl _)

theorem lt_two_pow_log2 (n : Nat) : n < 2 ^ (n.log2 + 1) := Nat.lt_log2_self

/-- The bounds of a binade, as multiples of its unit. -/
theorem pow_mul_unitAt (extra : Nat) (n : Nat) :
    2 ^ (52 + extra) * unitAt n = 2 ^ (n.log2 + extra) * 2 ^ (52 - n.log2) := by
  rw [unitAt, ← Nat.pow_add, ← Nat.pow_add]
  congr 1
  omega

/-- The first digit is not zero. -/
theorem le_digitsOf (nonzero : n ≠ 0) : 2 ^ 52 ≤ digitsOf n := by
  apply le_nearest (unitAt_pos n)
  rw [pow_mul_unitAt 0 n]
  exact Nat.mul_le_mul_right _ (two_pow_log2_le nonzero)

/-- There are 53 digits, unless all of them carry. -/
theorem digitsOf_le (n : Nat) : digitsOf n ≤ 2 ^ 53 := by
  apply nearest_le (unitAt_pos n)
  rw [pow_mul_unitAt 1 n]
  exact Nat.mul_le_mul_right _ (lt_two_pow_log2 n).le

/-- With 54 digits before the point there are enough. -/
theorem le_div_two_pow (nonzero : n ≠ 0) :
    2 ^ 53 ≤ n * 2 ^ (53 - n.log2) / 2 ^ (n.log2 - 53) := by
  rw [Nat.le_div_iff_mul_le (Nat.two_pow_pos _), ← Nat.pow_add]
  calc 2 ^ (53 + (n.log2 - 53)) = 2 ^ n.log2 * 2 ^ (53 - n.log2) := by
        rw [← Nat.pow_add]
        congr 1
        omega
    _ ≤ n * 2 ^ (53 - n.log2) := Nat.mul_le_mul_right _ (two_pow_log2_le nonzero)

/-- The word counts the binades and, within a binade, the units. -/
theorem nearestWord_one (nonzero : n ≠ 0) :
    nearestWord n 1 = (n.log2 + 1022) * 2 ^ 52 + digitsOf n := by
  have low : max ((n.log2 : Int) - (Nat.log2 1 : Nat) - 53) (-1074) = n.log2 - 53 := by
    rw [show Nat.log2 1 = 0 by decide]
    omega
  have enough : ¬ n * 2 ^ (-((n.log2 : Int) - 53)).toNat /
      (1 * 2 ^ ((n.log2 : Int) - 53).toNat) < 2 ^ 53 := by
    have down : (-((n.log2 : Int) - 53)).toNat = 53 - n.log2 := by omega
    have up : ((n.log2 : Int) - 53).toNat = n.log2 - 53 := by omega
    rw [down, up, Nat.one_mul, Nat.not_lt]
    exact le_div_two_pow nonzero
  have down : (-((n.log2 : Int) - 53 + 1)).toNat = 52 - n.log2 := by omega
  have up : ((n.log2 : Int) - 53 + 1).toNat = n.log2 - 52 := by omega
  have field : ((n.log2 : Int) - 53 + 1 + 1074).toNat = n.log2 + 1022 := by omega
  unfold nearestWord
  rw [if_neg nonzero]
  dsimp only
  rw [low, if_neg enough, down, up, field, Nat.one_mul]
  rfl

/-- The rounded number is made of the same digits. -/
theorem nearestNat_mul (n : Nat) :
    nearestNat n * 2 ^ (52 - n.log2) = digitsOf n * unitAt n := by
  rcases Nat.le_total n.log2 52 with small | large
  · have one : unitAt n = 1 := by rw [unitAt, Nat.sub_eq_zero_of_le small, Nat.pow_zero]
    have whole (k : Nat) : nearest k 1 = k := by simpa using nearest_mul k Nat.one_pos
    rw [nearestNat, digitsOf, one, whole, whole, Nat.mul_one, Nat.mul_one]
  · rw [nearestNat, digitsOf, Nat.sub_eq_zero_of_le large, Nat.pow_zero, Nat.mul_one, Nat.mul_one]

/-- So it compares with a number of the same binade as the digits do. -/
theorem nearestNat_le_iff {v k : Nat} (units : v * 2 ^ (52 - n.log2) = k * unitAt n) :
    nearestNat n ≤ v ↔ digitsOf n ≤ k := by
  rw [← Nat.mul_le_mul_right_iff (Nat.two_pow_pos (52 - n.log2)), nearestNat_mul, units,
    Nat.mul_le_mul_right_iff (unitAt_pos n)]

theorem le_nearestNat_iff {v k : Nat} (units : v * 2 ^ (52 - n.log2) = k * unitAt n) :
    v ≤ nearestNat n ↔ k ≤ digitsOf n := by
  rw [← Nat.mul_le_mul_right_iff (Nat.two_pow_pos (52 - n.log2)), nearestNat_mul, units,
    Nat.mul_le_mul_right_iff (unitAt_pos n)]

/-- A rounded number does not leave its binade. -/
theorem le_nearestNat (nonzero : n ≠ 0) : 2 ^ n.log2 ≤ nearestNat n :=
  (le_nearestNat_iff (pow_mul_unitAt 0 n).symm).mpr (le_digitsOf nonzero)

theorem nearestNat_le (n : Nat) : nearestNat n ≤ 2 ^ (n.log2 + 1) :=
  (nearestNat_le_iff (pow_mul_unitAt 1 n).symm).mpr (digitsOf_le n)

/-- Between binades the rounded numbers are in order. -/
theorem nearestNat_le_of_log2_lt (nonzero : m ≠ 0) (less : n.log2 < m.log2) :
    nearestNat n ≤ nearestNat m :=
  calc nearestNat n ≤ 2 ^ (n.log2 + 1) := nearestNat_le n
    _ ≤ 2 ^ m.log2 := Nat.pow_le_pow_right Nat.two_pos less
    _ ≤ nearestNat m := le_nearestNat nonzero

/-- A greater number is not rounded to a smaller one. -/
theorem nearestNat_mono (le : n ≤ m) : nearestNat n ≤ nearestNat m := by
  rcases Nat.eq_zero_or_pos n with rfl | positive
  · exact Nat.zero_le _
  have nonzero : m ≠ 0 := by omega
  have binades : n.log2 ≤ m.log2 :=
    (Nat.le_log2 nonzero).mpr ((two_pow_log2_le positive.ne').trans le)
  rcases Nat.lt_or_eq_of_le binades with less | same
  · exact nearestNat_le_of_log2_lt nonzero less
  · have units : unitAt n = unitAt m := by rw [unitAt, unitAt, same]
    rw [nearestNat, nearestNat, units]
    exact Nat.mul_le_mul_right _ (nearest_mono le _)

/-- Words and rounded numbers are in the same order. Between two binades they tie only where the
    upper end of the one is the lower end of the other. -/
theorem nearestWord_le_iff (nonzero : n ≠ 0) (nonzero' : m ≠ 0) :
    nearestWord n 1 ≤ nearestWord m 1 ↔ nearestNat n ≤ nearestNat m := by
  have first := le_digitsOf nonzero
  have first' := le_digitsOf nonzero'
  have last := digitsOf_le n
  have last' := digitsOf_le m
  rw [nearestWord_one nonzero, nearestWord_one nonzero']
  rcases Nat.lt_trichotomy n.log2 m.log2 with less | same | more
  · exact iff_of_true (by omega) (nearestNat_le_of_log2_lt nonzero' less)
  · have units : nearestNat m * 2 ^ (52 - n.log2) = digitsOf m * unitAt n := by
      rw [unitAt, same]
      exact nearestNat_mul m
    rw [nearestNat_le_iff units, same]
    omega
  · have ends : nearestNat m ≤ 2 ^ n.log2 :=
      (nearestNat_le m).trans (Nat.pow_le_pow_right Nat.two_pos more)
    constructor
    · intro le
      obtain ⟨next, low, high⟩ :
          n.log2 = m.log2 + 1 ∧ digitsOf n ≤ 2 ^ 52 ∧ 2 ^ 53 ≤ digitsOf m := by omega
      have top := (le_nearestNat_iff (pow_mul_unitAt 1 m).symm).mpr high
      have bottom := (nearestNat_le_iff (pow_mul_unitAt 0 n).symm).mpr low
      rw [← next] at top
      exact bottom.trans top
    · intro le
      have bottom : nearestNat n ≤ 2 ^ n.log2 := le.trans ends
      have low := (nearestNat_le_iff (pow_mul_unitAt 0 n).symm).mp bottom
      have reached : 2 ^ n.log2 ≤ 2 ^ (m.log2 + 1) :=
        (le_nearestNat nonzero).trans (le.trans (nearestNat_le m))
      have next := (Nat.pow_le_pow_iff_right Nat.one_lt_two).mp reached
      have top : 2 ^ (m.log2 + 1) ≤ nearestNat m :=
        (Nat.pow_le_pow_right Nat.two_pos more).trans ((le_nearestNat nonzero).trans le)
      have high := (le_nearestNat_iff (pow_mul_unitAt 1 m).symm).mp top
      omega

theorem nearestNat_eq_zero_iff : nearestNat n = 0 ↔ n = 0 := by
  constructor
  · intro zero
    by_contra nonzero
    have bound := le_nearestNat nonzero
    have positive := Nat.two_pow_pos n.log2
    omega
  · rintro rfl
    decide

/-- The word of a natural number, zero included, is in the order of the rounded numbers. -/
theorem nearestWord_le_nearestWord_iff (n m : Nat) :
    nearestWord n 1 ≤ nearestWord m 1 ↔ nearestNat n ≤ nearestNat m := by
  have zero : nearestWord 0 1 = 0 := rfl
  by_cases nonzero : n = 0
  · rw [nonzero, zero, nearestNat_eq_zero_iff.mpr rfl]
    exact iff_of_true (Nat.zero_le _) (Nat.zero_le _)
  · by_cases nonzero' : m = 0
    · have word := nearestWord_one nonzero
      have digits := le_digitsOf nonzero
      have rounded := mt nearestNat_eq_zero_iff.mp nonzero
      rw [nonzero', zero, nearestNat_eq_zero_iff.mpr rfl]
      omega
    · exact nearestWord_le_iff nonzero nonzero'

/-! ## The integers that binary64 has -/

/-- Binary64 has an integer if 53 binary digits are enough for it, zeros at its end aside. -/
def HasInteger (x : Int) : Prop := ∃ (digits : Int) (zeros : Nat),
  digits.natAbs < 2 ^ 53 ∧ x = digits * 2 ^ zeros

/-- A natural number that binary64 has is less than a binade or stands on its grid. -/
theorem HasInteger.on_grid {z : Nat} (has : HasInteger z) (n : Nat) :
    z < 2 ^ n.log2 ∨ ∃ k, z = k * unitAt n := by
  obtain ⟨digits, zeros, short, made⟩ := has
  have whole : z = digits.natAbs * 2 ^ zeros := by
    have same := congrArg Int.natAbs made
    rwa [Int.natAbs_mul, Int.natAbs_pow, Int.natAbs_natCast] at same
  rcases Nat.lt_or_ge zeros (n.log2 - 52) with few | enough
  · left
    calc z = digits.natAbs * 2 ^ zeros := whole
      _ < 2 ^ 53 * 2 ^ zeros := Nat.mul_lt_mul_of_pos_right short (Nat.two_pow_pos zeros)
      _ = 2 ^ (53 + zeros) := (Nat.pow_add 2 53 zeros).symm
      _ ≤ 2 ^ n.log2 := Nat.pow_le_pow_right Nat.two_pos (by omega)
  · right
    refine ⟨digits.natAbs * 2 ^ (zeros - (n.log2 - 52)), ?_⟩
    rw [whole, unitAt, Nat.mul_assoc, ← Nat.pow_add, Nat.sub_add_cancel enough]

/-- No number that binary64 has is nearer. -/
theorem distance_nearestNat_le (n : Nat) {z : Nat} (has : HasInteger z) :
    ((n : Int) - nearestNat n).natAbs ≤ ((n : Int) - z).natAbs := by
  by_cases nonzero : n = 0
  · rw [nonzero, nearestNat_eq_zero_iff.mpr rfl]
    exact Nat.zero_le _
  · rcases has.on_grid n with below | ⟨k, rfl⟩
    · rcases Nat.le_total n.log2 52 with small | large
      · have same : nearestNat n = n := by
          rw [nearestNat, unitAt, Nat.sub_eq_zero_of_le small, Nat.pow_zero, Nat.mul_one]
          simpa using nearest_mul n Nat.one_pos
        rw [same]
        omega
      · -- the lower end of the binade stands on the grid too, and it is nearer
        have grid : 2 ^ n.log2 = 2 ^ 52 * unitAt n := by
          rw [pow_mul_unitAt 0 n, Nat.sub_eq_zero_of_le large, Nat.pow_zero, Nat.mul_one]
          rfl
        have closer := distance_nearest_le n (unitAt n) (2 ^ 52)
        have bound := two_pow_log2_le nonzero
        rw [← grid] at closer
        change ((n : Int) - (nearest n (unitAt n) * unitAt n : Nat)).natAbs ≤ _
        omega
    · exact distance_nearest_le n (unitAt n) k

/-- The rounded number is one that binary64 has. -/
theorem hasInteger_nearestNat (n : Nat) : HasInteger (nearestNat n) := by
  have digits : nearest n (unitAt n) ≤ 2 ^ 53 := by
    apply nearest_le (unitAt_pos n)
    rw [unitAt, ← Nat.pow_add]
    exact (lt_two_pow_log2 n).le.trans (Nat.pow_le_pow_right Nat.two_pos (by omega))
  rcases Nat.lt_or_eq_of_le digits with short | carried
  · exact ⟨nearest n (unitAt n), n.log2 - 52, short, by rw [nearestNat, unitAt]; push_cast; rfl⟩
  · refine ⟨1, 53 + (n.log2 - 52), by decide, ?_⟩
    rw [nearestNat, carried, unitAt, ← Nat.pow_add, Int.one_mul]
    push_cast
    rfl

/-- The integer that binary64 has in the place of an integer. -/
def nearestInteger (x : Int) : Int :=
  if x < 0 then -(nearestNat x.natAbs : Int) else nearestNat x.natAbs

/-- Up to 2 ^ 53 it has them all. -/
theorem HasInteger.of_natAbs_le {x : Int} (small : x.natAbs ≤ 2 ^ 53) : HasInteger x := by
  rcases Nat.lt_or_eq_of_le small with less | same
  · exact ⟨x, 0, less, by simp⟩
  · rcases Int.natAbs_eq x with positive | negative
    · exact ⟨1, 53, by decide, by rw [positive, same]; rfl⟩
    · exact ⟨-1, 53, by decide, by rw [negative, same]; rfl⟩

theorem HasInteger.neg {x : Int} (has : HasInteger x) : HasInteger (-x) := by
  obtain ⟨digits, zeros, short, rfl⟩ := has
  exact ⟨-digits, zeros, by rwa [Int.natAbs_neg], (Int.neg_mul _ _).symm⟩

theorem hasInteger_nearestInteger (x : Int) : HasInteger (nearestInteger x) := by
  unfold nearestInteger
  split
  · exact (hasInteger_nearestNat _).neg
  · exact hasInteger_nearestNat _

/-- Binary64 has no integer that is nearer. One on the other side of zero is farther away than zero
    itself. -/
theorem distance_nearestInteger_le (x : Int) {z : Int} (has : HasInteger z) :
    (x - nearestInteger x).natAbs ≤ (x - z).natAbs := by
  have zero := distance_nearestNat_le x.natAbs (z := 0) ⟨0, 0, by decide, rfl⟩
  have own : HasInteger z.natAbs := by
    rcases Int.natAbs_eq z with same | opposite
    · rwa [← same]
    · have mirrored := has.neg
      rwa [opposite, Int.neg_neg] at mirrored
  have same_side := distance_nearestNat_le x.natAbs own
  unfold nearestInteger
  split <;> rcases Int.lt_or_le z 0 with below | above <;> omega

/-- Rounding keeps the order of integers. -/
theorem nearestInteger_mono {x y : Int} (le : x ≤ y) : nearestInteger x ≤ nearestInteger y := by
  unfold nearestInteger
  split
  · split
    · have mirrored : nearestNat y.natAbs ≤ nearestNat x.natAbs := nearestNat_mono (by omega)
      omega
    · omega
  · have kept : nearestNat x.natAbs ≤ nearestNat y.natAbs := nearestNat_mono (by omega)
    rw [if_neg (by omega)]
    exact Int.ofNat_le.mpr kept

/-- An integer that binary64 has is not rounded: it is nearer to itself than any other. -/
theorem nearestInteger_of_has {x : Int} (has : HasInteger x) : nearestInteger x = x := by
  have distance := distance_nearestInteger_le x has
  omega

/-- 2 ^ 53, after which binary64 leaves out the first integer. -/
def integerLimit : Int := 9007199254740992

end Binary64

open Binary64

namespace Json

/-- An integer that JSON can hold without rounding: it fits a signed or an unsigned 64-bit word. -/
abbrev InWord (x : Int) : Prop := -2 ^ 63 ≤ x ∧ x < 2 ^ 64

/-- The places of integers among all numbers are in the order of the integers that binary64 has in
    their place. -/
theorem Number.rank_le_rank_iff {x y : Int} (wide : InWord x) (wide' : InWord y) :
    (Number.integer x wide).rank ≤ (Number.integer y wide').rank ↔
      nearestInteger x ≤ nearestInteger y := by
  have forth := nearestWord_le_nearestWord_iff x.natAbs y.natAbs
  have back := nearestWord_le_nearestWord_iff y.natAbs x.natAbs
  unfold Number.rank rankOf nearestInteger
  simp only [decide_eq_true_eq]
  split <;> split
  · omega
  · omega
  · have nonzero := mt (nearestNat_eq_zero_iff (n := y.natAbs)).mp (by omega)
    omega
  · omega

/-- Pairs in the same order compare alike. -/
theorem compare_congr {a b c d : Int} (forth : a ≤ b ↔ c ≤ d) (back : b ≤ a ↔ d ≤ c) :
    compare a b = compare c d := by
  rcases Int.lt_trichotomy c d with less | same | more
  · rw [compare_lt_iff_lt.mpr less, compare_lt_iff_lt]
    omega
  · rw [compare_eq_iff_eq.mpr same, compare_eq_iff_eq]
    omega
  · rw [compare_gt_iff_gt.mpr more, compare_gt_iff_gt]
    omega

/-- Integers compare as the integers that binary64 has in their place. -/
theorem Value.compare_integers {x y : Int} (wide : InWord x) (wide' : InWord y) :
    (Value.number (.integer x wide)).compare (.number (.integer y wide')) =
      Ord.compare (nearestInteger x) (nearestInteger y) :=
  compare_congr (Number.rank_le_rank_iff wide wide') (Number.rank_le_rank_iff wide' wide)

/-- The datum of an integer. -/
def Datum.integer (x : Int) (wide : InWord x) : Datum := .number (.integer x wide)

end Json

namespace Target

/-- A query that orders by a field lists integers in the order of those that binary64 has in their
    place, and then by key. -/
theorem sorted_by_integers {q : Query} {field : String} (ordered : q.orderBy = some field)
    {documents : Documents} (keyed : documents.Keyed) :
    ((query q).sorted documents).Pairwise fun a b =>
      ∀ x y (wide : InWord x) (wide' : InWord y), a.field field = some (.integer x wide) →
        b.field field = some (.integer y wide') →
        nearestInteger x < nearestInteger y ∨
          nearestInteger x = nearestInteger y ∧ Ord.compare a.key b.key = .lt := by
  refine ((query q).sorted_strict keyed).imp fun {a b} less x y wide wide' first second => ?_
  have by_field : (query q).orderField? = some field := ordered
  rw [compare_eq, by_field, Option.elim_some, first, second, Ordering.then_eq_lt] at less
  have compared := Value.compare_integers wide wide'
  rcases less with apart | ⟨tie, keys⟩
  · exact .inl (compare_lt_iff_lt.mp (compared.symm.trans apart))
  · exact .inr ⟨compare_eq_iff_eq.mp (compared.symm.trans tie), keys⟩

/-- Rounding keeps the order, so integers compare by value unless it makes them one. -/
theorem compare_nearestInteger_iff (x y : Int) :
    Ord.compare (nearestInteger x) (nearestInteger y) = Ord.compare x y ↔
      x = y ∨ nearestInteger x ≠ nearestInteger y := by
  constructor
  · intro same
    by_cases tie : nearestInteger x = nearestInteger y
    · rw [compare_eq_iff_eq.mpr tie] at same
      exact .inl (compare_eq_iff_eq.mp same.symm)
    · exact .inr tie
  · rintro (rfl | apart)
    · rw [compare_eq_iff_eq.mpr rfl, compare_eq_iff_eq.mpr rfl]
    · have forth : x ≤ y → nearestInteger x ≤ nearestInteger y := nearestInteger_mono
      have back : y ≤ x → nearestInteger y ≤ nearestInteger x := nearestInteger_mono
      exact compare_congr (by omega) (by omega)

/-- Integers compare as the integers that binary64 has in their place. Each of them is rounded to
    one of the nearest of these, so an integer that binary64 has is not rounded at all. The order is
    that of the values exactly if the integers are equal or not rounded to the same one. And where a
    query that orders by a field lists one before the other, it is less, or both are rounded to the
    same integer and the keys decide. -/
theorem integers_order_by_nearest {x y : Int} (wide : InWord x) (wide' : InWord y) :
    let ordering := (Datum.integer x wide).value.compare (Datum.integer y wide').value
    ordering = Ord.compare (nearestInteger x) (nearestInteger y) ∧
      (HasInteger (nearestInteger x) ∧
        ∀ z, HasInteger z → (x - nearestInteger x).natAbs ≤ (x - z).natAbs) ∧
      (x.natAbs ≤ 2 ^ 53 → HasInteger x) ∧ (HasInteger x → nearestInteger x = x) ∧
      (ordering = Ord.compare x y ↔ x = y ∨ nearestInteger x ≠ nearestInteger y) ∧
      ∀ (q : Query) (field : String) (r : Replica), q.orderBy = some field →
        ((query q).sorted (r.result (query q))).Pairwise fun a b =>
          a.field field = some (.integer x wide) → b.field field = some (.integer y wide') →
          x < y ∧ nearestInteger x < nearestInteger y ∨
            nearestInteger x = nearestInteger y ∧ Ord.compare a.key b.key = .lt := by
  have compared := Value.compare_integers wide wide'
  refine ⟨compared, ⟨hasInteger_nearestInteger x, fun z => distance_nearestInteger_le x⟩,
    HasInteger.of_natAbs_le, nearestInteger_of_has, ?_, fun q field r ordered => ?_⟩
  · rw [← compare_nearestInteger_iff]
    exact Eq.congr_left compared
  · refine (sorted_by_integers ordered (r.keyed_result (query q))).imp
      fun {a b} listed first second => ?_
    refine (listed x y wide wide' first second).imp_left fun less => ⟨?_, less⟩
    by_contra ge
    exact absurd (nearestInteger_mono (Int.not_lt.mp ge)) (Int.not_le.mpr less)

/-- The ranks around the limit. -/
def belowLimit : Datum := .integer (integerLimit - 1) (by decide)

def atLimit : Datum := .integer integerLimit (by decide)

def aboveLimit : Datum := .integer (integerLimit + 1) (by decide)

/-- Documents with these ranks, the greatest under the first key. -/
def closeRanks : Replica where
  documents := .ofList
    [ranked "c/a" aboveLimit, ranked "c/b" atLimit, ranked "c/c" belowLimit]
  edition := 0
  initialized := true
  filtered := false

theorem sorted_closeRanks : byRank.sorted (closeRanks.result byRank) =
    [ranked "c/c" belowLimit, ranked "c/a" aboveLimit, ranked "c/b" atLimit] := rfl

/-- Below the limit the ranks decide. Above it two ranks tie, and then the keys decide. -/
theorem close_ranks_are_rounded :
    belowLimit.value.compare atLimit.value = .lt ∧
      nearestInteger (integerLimit + 1) = nearestInteger integerLimit ∧
      aboveLimit.value.compare atLimit.value ≠ Ord.compare (integerLimit + 1) integerLimit := by
  have below : InWord (integerLimit - 1) := by decide
  have at_limit : InWord integerLimit := by decide
  have above : InWord (integerLimit + 1) := by decide
  obtain ⟨ordered, -, small, exact_below, -, -⟩ := integers_order_by_nearest below at_limit
  obtain ⟨-, -, limit, exact_limit, -, -⟩ := integers_order_by_nearest at_limit above
  obtain ⟨-, -, -, -, by_value, listed⟩ := integers_order_by_nearest above at_limit
  have tied : nearestInteger (integerLimit + 1) = nearestInteger integerLimit := by
    have pairs := listed ⟨"c", [], some "rank"⟩ "rank" closeRanks rfl
    have order : (query ⟨"c", [], some "rank"⟩).sorted
        (closeRanks.result (query ⟨"c", [], some "rank"⟩)) = _ := sorted_closeRanks
    rw [order, List.pairwise_cons, List.pairwise_cons] at pairs
    have kept := pairs.2.1 _ List.mem_cons_self rfl rfl
    exact (kept.resolve_left fun less => absurd less.1 (by decide)).1
  refine ⟨?_, tied, fun same => ?_⟩
  · rw [exact_below (small (by decide)), exact_limit (limit (by decide))] at ordered
    exact ordered.trans rfl
  · exact (by_value.mp same).elim (by decide) fun apart => apart tied

/-- Two integers that are not equal tie, and the greater one is listed first. -/
theorem greater_integer_is_listed_first :
    integerLimit < integerLimit + 1 ∧ aboveLimit.value.compare atLimit.value = .eq ∧
      byRank.sorted (closeRanks.result byRank) =
        [ranked "c/c" belowLimit, ranked "c/a" aboveLimit, ranked "c/b" atLimit] :=
  ⟨by decide, by decide, sorted_closeRanks⟩

end Target

end LiveQuery
