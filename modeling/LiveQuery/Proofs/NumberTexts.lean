import LiveQuery.Json.Printer
import LiveQuery.Json.Reader
import LiveQuery.Proofs.ShortestDecimals

/-!
# Texts of numbers are read back

The text of a number is a literal, and the reader of literals reads it to its end. What it
reads of an integer are its digits, and of a binary64 number the sign and a decimal of the
same rational as the shortest one. So the literal shows which number was written. This is
about the literal alone: the number that is computed from it is rounded more than once.
-/

namespace LiveQuery

namespace Json

namespace Reader

/-- The number that digits form. -/
def ofDigits (ds : List Nat) : Nat := ds.foldl (· * 10 + ·) 0

/-- What a digit stands for. -/
def digitOf (c : Char) : Nat := c.toNat - '0'.toNat

/-- The decimal that a literal writes, its sign apart. -/
def Literal.decimal (l : Literal) : Decimal where
  coefficient := ofDigits (l.whole ++ l.fraction.getD [])
  exponent :=
    (l.exponent.elim 0 fun (down, ds) => if down then -(ofDigits ds : Int) else ofDigits ds) -
      (l.fraction.getD []).length

/-- A text of digits. -/
def AllDigits (cs : List Char) : Prop := ∀ c ∈ cs, c.isDigit = true

/-- A character that stands in no number, the signs apart. -/
def IsMark (c : Char) : Prop := c.isDigit = false ∧ c ≠ '.' ∧ c ≠ 'e' ∧ c ≠ 'E'

instance : DecidablePred IsMark := fun _ => inferInstanceAs (Decidable (_ ∧ _))

/-- No number goes on here. -/
def EndsNumber (cs : List Char) : Prop := ∀ c ∈ cs.head?, IsMark c

theorem endsNumber_cons {c : Char} (mark : IsMark c) (rest : List Char) :
    EndsNumber (c :: rest) := by
  intro d first
  obtain rfl := Option.some.inj first
  exact mark

/-- No digit comes first. -/
def EndsDigits (cs : List Char) : Prop := ∀ c ∈ cs.head?, c.isDigit = false

theorem EndsNumber.digits {rest : List Char} (ends : EndsNumber rest) : EndsDigits rest :=
  fun c first => (ends c first).1

theorem endsDigits_cons {c : Char} (other : c.isDigit = false) (rest : List Char) :
    EndsDigits (c :: rest) := by
  intro d first
  obtain rfl := Option.some.inj first
  exact other

theorem ofDigits_map (cs : List Char) : ofDigits (cs.map digitOf) = Nat.ofDigitChars 10 cs 0 := by
  rw [ofDigits, List.foldl_map, Nat.ofDigitChars_eq_foldl]
  simp only [Nat.mul_comm 10, digitOf]

theorem digits_append {ds rest : List Char} (all : AllDigits ds) (ends : EndsDigits rest) :
    digits (ds ++ rest) = (ds.map digitOf, rest) := by
  unfold digits
  rw [List.takeWhile_append_of_pos all, List.dropWhile_append_of_pos all]
  cases rest with
  | nil =>
    rw [List.takeWhile_nil, List.dropWhile_nil, List.append_nil]
    rfl
  | cons c rest =>
    have stop : ¬c.isDigit = true := by simp [ends c rfl]
    rw [List.takeWhile_cons_of_neg stop, List.dropWhile_cons_of_neg stop, List.append_nil]
    rfl

theorem digits?_append {ds rest : List Char} (some_digit : ds ≠ []) (all : AllDigits ds)
    (ends : EndsDigits rest) : digits? (ds ++ rest) = some (ds.map digitOf, rest) := by
  unfold digits?
  rw [digits_append all ends]
  cases ds with
  | nil => contradiction
  | cons d ds => rfl

/-- The rest of a literal, after its sign. -/
def unsigned? (negative : Bool) (cs : List Char) : Option (Literal × List Char) := do
  let (whole, cs) ← match cs with
    | '0' :: cs => some ([0], cs)
    | cs => digits? cs
  let (fraction, cs) ← fraction? cs
  let (exponent, cs) ← exponent? cs
  return (⟨negative, whole, fraction, exponent⟩, cs)

theorem literal?_minus (cs : List Char) : literal? ('-' :: cs) = unsigned? true cs := rfl

theorem literal?_cons {c : Char} (unsigned : c ≠ '-') (cs : List Char) :
    literal? (c :: cs) = unsigned? false (c :: cs) := by
  unfold literal?
  split
  rename_i part
  split at part
  case h_1 same => exact absurd (List.cons.inj same).1 unsigned
  case h_2 =>
    obtain ⟨rfl, rfl⟩ := Prod.mk.inj part
    rfl

/-- Digits that a literal may begin with: no zero before another one. -/
structure Leads (cs : List Char) : Prop where
  digits : AllDigits cs
  some_digit : cs ≠ []
  canonical : cs = ['0'] ∨ cs.head? ≠ some '0'

/-- A literal is read part by part. -/
theorem unsigned?_of_parts (negative : Bool) {whole rest left final : List Char}
    {fraction : Option (List Nat)} {exponent : Option (Bool × List Nat)}
    (leads : Leads whole) (ends : EndsDigits rest)
    (after : fraction? rest = some (fraction, left))
    (power : exponent? left = some (exponent, final)) :
    unsigned? negative (whole ++ rest) =
      some (⟨negative, whole.map digitOf, fraction, exponent⟩, final) := by
  unfold unsigned?
  obtain rfl | unzero := leads.canonical
  · simp [after, power, digitOf]
  · cases whole with
    | nil => exact absurd rfl leads.some_digit
    | cons c cs =>
      have other : c ≠ '0' := by simpa using unzero
      have read := digits?_append leads.some_digit leads.digits ends
      rw [List.cons_append] at read ⊢
      split
      case h_1 same => exact absurd (List.cons.inj same).1 other
      case h_2 =>
        rw [read]
        simp [after, power]

theorem fraction?_point {ds rest : List Char} (some_digit : ds ≠ []) (all : AllDigits ds)
    (ends : EndsDigits rest) :
    fraction? ('.' :: (ds ++ rest)) = some (some (ds.map digitOf), rest) := by
  rw [fraction?, digits?_append some_digit all ends]
  rfl

theorem fraction?_of_ne {rest : List Char} (plain : rest.head? ≠ some '.') :
    fraction? rest = some (none, rest) := by
  unfold fraction?
  split
  · exact absurd rfl plain
  · rfl

theorem exponent?_power (down : Bool) {ds rest : List Char} (some_digit : ds ≠ [])
    (all : AllDigits ds) (ends : EndsDigits rest) :
    exponent? ('e' :: (if down then '-' else '+') :: (ds ++ rest)) =
      some (some (down, ds.map digitOf), rest) := by
  have read := digits?_append some_digit all ends
  cases down <;> simp [exponent?, read]

theorem exponent?_of_ne {rest : List Char} (lower : rest.head? ≠ some 'e')
    (upper : rest.head? ≠ some 'E') : exponent? rest = some (none, rest) := by
  unfold exponent?
  split
  · exact absurd rfl lower
  · exact absurd rfl upper
  · rfl

/-- Where a number ends there is no point and no exponent. -/
theorem EndsNumber.fraction? {rest : List Char} (ends : EndsNumber rest) :
    Reader.fraction? rest = some (none, rest) := by
  apply fraction?_of_ne
  intro first
  exact absurd rfl (ends '.' first).2.1

theorem EndsNumber.exponent? {rest : List Char} (ends : EndsNumber rest) :
    Reader.exponent? rest = some (none, rest) := by
  apply exponent?_of_ne
  · intro first
    exact absurd rfl (ends 'e' first).2.2.1
  · intro first
    exact absurd rfl (ends 'E' first).2.2.2

/-- A number without an exponent. -/
theorem unsigned?_pointed (negative : Bool) {whole ds rest : List Char} (leads : Leads whole)
    (some_digit : ds ≠ []) (all : AllDigits ds) (ends : EndsNumber rest) :
    unsigned? negative (whole ++ '.' :: (ds ++ rest)) =
      some (⟨negative, whole.map digitOf, some (ds.map digitOf), none⟩, rest) := by
  have fraction := fraction?_point some_digit all ends.digits
  exact unsigned?_of_parts negative leads (endsDigits_cons rfl _) fraction ends.exponent?

/-- A number with an exponent. -/
theorem unsigned?_scaled (negative down : Bool) {whole ds power rest : List Char}
    (leads : Leads whole) (all : AllDigits ds) (some_power : power ≠ []) (powers : AllDigits power)
    (ends : EndsNumber rest) :
    unsigned? negative (whole ++ ((if ds.isEmpty then [] else '.' :: ds) ++
        'e' :: (if down then '-' else '+') :: (power ++ rest))) =
      some (⟨negative, whole.map digitOf, if ds.isEmpty then none else some (ds.map digitOf),
        some (down, power.map digitOf)⟩, rest) := by
  have scaled := exponent?_power down some_power powers ends.digits
  have stops : EndsDigits ('e' :: (if down then '-' else '+') :: (power ++ rest)) :=
    endsDigits_cons rfl _
  cases ds with
  | nil => exact unsigned?_of_parts negative leads stops (fraction?_of_ne (by simp)) scaled
  | cons d ds =>
    have fraction := fraction?_point (by simp) all stops
    exact unsigned?_of_parts negative leads (endsDigits_cons rfl _) fraction scaled

/-- A literal that is not an integer writes this sign and this rational. -/
structure Literal.Writes (l : Literal) (negative : Bool) (q : ℚ) : Prop where
  negative : l.negative = negative
  pointed : l.fraction.isSome ∨ l.exponent.isSome
  value : l.decimal.value = q

theorem allDigits_toDigits (n : Nat) : AllDigits (Nat.toDigits 10 n) :=
  fun _ member => Nat.isDigit_of_mem_toDigits (by norm_num) (by norm_num) member

/-- The digits of a number other than zero do not begin with a zero. -/
theorem head?_toDigits {n : Nat} (positive : 0 < n) :
    (Nat.toDigits 10 n).head? ≠ some '0' := by
  induction n using Nat.strongRecOn with
  | ind n ih =>
    rcases Nat.lt_or_ge n 10 with small | large
    · rw [Nat.toDigits_of_lt_base small]
      simpa using positive.ne'
    · rw [Nat.toDigits_of_base_le (by norm_num) large, List.head?_append_of_ne_nil]
      · exact ih (n / 10) (by omega) (by omega)
      · exact Nat.toDigits_ne_nil

theorem leads_toDigits (n : Nat) : Leads (Nat.toDigits 10 n) where
  digits := allDigits_toDigits n
  some_digit := Nat.toDigits_ne_nil
  canonical := by
    rcases Nat.eq_zero_or_pos n with rfl | positive
    · exact .inl (Nat.toDigits_zero 10)
    · exact .inr (head?_toDigits positive)

theorem AllDigits.append {as bs : List Char} (first : AllDigits as) (second : AllDigits bs) :
    AllDigits (as ++ bs) := by
  intro c member
  rcases List.mem_append.mp member with left | right
  · exact first c left
  · exact second c right

theorem allDigits_zeros (n : Nat) : AllDigits (List.replicate n '0') := by
  intro c member
  rw [List.eq_of_mem_replicate member]
  rfl

/-- Digits of a literal without an exponent form this rational. -/
theorem value_pointed (negative : Bool) (whole ds : List Char) :
    (Literal.mk negative (whole.map digitOf) (some (ds.map digitOf)) none).decimal.value =
      (Nat.ofDigitChars 10 (whole ++ ds) 0 : ℚ) * 10 ^ (-(ds.length : Int)) := by
  simp [Literal.decimal, Decimal.value, ← List.map_append, ofDigits_map]

/-- With an exponent the power of ten is shifted by it. -/
theorem value_scaled (negative : Bool) (whole ds : List Char) (power : Int) :
    (Literal.mk negative (whole.map digitOf) (if ds.isEmpty then none else some (ds.map digitOf))
        (some (decide (power < 0), (Nat.toDigits 10 power.natAbs).map digitOf))).decimal.value =
      (Nat.ofDigitChars 10 (whole ++ ds) 0 : ℚ) * 10 ^ (power - ds.length) := by
  have read : (if ds.isEmpty then none else some (ds.map digitOf)).getD [] = ds.map digitOf := by
    cases ds <;> rfl
  have signed : (if power < 0 then -(power.natAbs : Int) else power.natAbs) = power := by
    split <;> omega
  rw [Literal.decimal, Decimal.value]
  dsimp only
  rw [read, ← List.map_append, ofDigits_map, Option.elim_some, ofDigits_map, List.length_map,
    Nat.ofDigitChars_ten_toDigits]
  simp only [decide_eq_true_eq, signed]

section Write

variable (d : Decimal) {rest : List Char} (ends : EndsNumber rest) (negative : Bool)

/-- The place of the first digit. -/
def lead : Int := (Nat.toDigits 10 d.coefficient).length - 1 + d.exponent

/-- The digits before the point of a number that is not below one. -/
theorem leads_before (positive : 0 < d.coefficient) (whole zeros : Nat) (some_digit : 0 < whole) :
    Leads ((Nat.toDigits 10 d.coefficient).take whole ++ List.replicate zeros '0') := by
  have digits := allDigits_toDigits d.coefficient
  have first := head?_toDigits positive
  cases leading : Nat.toDigits 10 d.coefficient with
  | nil => exact absurd leading Nat.toDigits_ne_nil
  | cons c cs =>
    obtain ⟨whole, rfl⟩ : ∃ n, whole = n + 1 := ⟨whole - 1, by omega⟩
    rw [leading] at digits first
    rw [List.take_succ_cons, List.cons_append]
    refine ⟨?_, List.cons_ne_nil _ _, .inr first⟩
    have taken : AllDigits (c :: cs.take whole) := fun b member =>
      digits b (List.mem_of_mem_take (i := whole + 1) member)
    exact taken.append (allDigits_zeros zeros)

include ends

/-- Below one there are zeros on both sides of the point. -/
theorem unsigned?_small (small : lead d < 0) :
    ∃ l, unsigned? negative ('0' :: '.' ::
        (List.replicate (-lead d - 1).toNat '0' ++ Nat.toDigits 10 d.coefficient) ++ rest) =
      some (l, rest) ∧ l.Writes negative d.value := by
  have zero : Leads ['0'] := leads_toDigits 0
  have zeros := allDigits_zeros (-lead d - 1).toNat
  have fraction := zeros.append (allDigits_toDigits d.coefficient)
  have read := unsigned?_pointed negative zero (by simp) fraction ends
  refine ⟨_, read, rfl, .inl rfl, ?_⟩
  rw [value_pointed, Nat.ofDigitChars_append, Nat.ofDigitChars_append,
    Nat.ofDigitChars_replicate_zero]
  have nothing : 10 ^ (-lead d - 1).toNat * Nat.ofDigitChars 10 ['0'] 0 = 0 := rfl
  have exponent : -((List.replicate (-lead d - 1).toNat '0' ++
      Nat.toDigits 10 d.coefficient).length : Int) = d.exponent := by
    have place : lead d = (Nat.toDigits 10 d.coefficient).length - 1 + d.exponent := rfl
    rw [List.length_append, List.length_replicate]
    omega
  rw [nothing, Nat.ofDigitChars_ten_toDigits, exponent, Decimal.value]

/-- From one on the point is among the digits, or zeros fill the places up to it. -/
theorem unsigned?_moderate (positive : 0 < d.coefficient) (moderate : 0 ≤ lead d) :
    let digits := Nat.toDigits 10 d.coefficient
    let whole := (lead d).toNat + 1
    let fraction := digits.drop whole
    ∃ l, unsigned? negative (digits.take whole ++ List.replicate (whole - digits.length) '0' ++
        '.' :: (if fraction.isEmpty then ['0'] else fraction) ++ rest) =
      some (l, rest) ∧ l.Writes negative d.value := by
  intro digits whole fraction
  have place : lead d = digits.length - 1 + d.exponent := rfl
  have leads := leads_before d positive whole (whole - digits.length) (Nat.succ_pos _)
  have formed : Nat.ofDigitChars 10 digits 0 = d.coefficient := Nat.ofDigitChars_ten_toDigits
  rw [List.append_assoc _ ('.' :: _), List.cons_append]
  cases past : fraction with
  | nil =>
    -- the zero after the point is not among the digits of the decimal
    have read := unsigned?_pointed negative leads (by simp) (allDigits_zeros 1) ends
    refine ⟨_, read, rfl, .inl rfl, ?_⟩
    have short : digits.length ≤ whole := List.drop_eq_nil_iff.mp past
    have zeros : (whole - digits.length : Nat) = d.exponent := by omega
    rw [value_pointed, List.take_of_length_le short, List.append_assoc,
      List.replicate_append_replicate, Nat.ofDigitChars_append, Nat.ofDigitChars_replicate_zero,
      formed, Decimal.value, ← zeros, zpow_natCast]
    push_cast
    rw [List.length_singleton, Nat.cast_one, zpow_neg_one, pow_succ]
    ring
  | cons c cs =>
    have all : AllDigits (c :: cs) := fun b member =>
      allDigits_toDigits d.coefficient b (List.mem_of_mem_drop (past ▸ member))
    have read := unsigned?_pointed negative leads (by simp) all ends
    refine ⟨_, read, rfl, .inl rfl, ?_⟩
    have long : whole < digits.length := by
      by_contra short
      have gone : fraction = [] := List.drop_eq_nil_iff.mpr (Nat.not_lt.mp short)
      cases gone.symm.trans past
    rw [value_pointed, ← past]
    have none_added : whole - digits.length = 0 := by omega
    have exponent : -(fraction.length : Int) = d.exponent := by
      rw [List.length_drop]
      omega
    rw [exponent, none_added, List.replicate_zero, List.append_nil, List.take_append_drop, formed,
      Decimal.value]

/-- With an exponent one digit is before the point. -/
theorem unsigned?_extreme (positive : 0 < d.coefficient) :
    let digits := Nat.toDigits 10 d.coefficient
    let fraction := digits.drop 1
    ∃ l, unsigned? negative (digits.take 1 ++ (if fraction.isEmpty then [] else '.' :: fraction) ++
        'e' :: (if lead d < 0 then '-' else '+') :: Nat.toDigits 10 (lead d).natAbs ++ rest) =
      some (l, rest) ∧ l.Writes negative d.value := by
  intro digits fraction
  have leads := leads_before d positive 1 0 Nat.one_pos
  rw [List.replicate_zero, List.append_nil] at leads
  have all : AllDigits fraction := fun b member =>
    allDigits_toDigits d.coefficient b (List.mem_of_mem_drop member)
  have read := unsigned?_scaled negative (decide (lead d < 0)) leads all Nat.toDigits_ne_nil
    (allDigits_toDigits (lead d).natAbs) ends
  simp only [decide_eq_true_eq] at read
  have digit : 0 < digits.length := Nat.length_toDigits_pos
  have place : lead d - fraction.length = d.exponent := by
    have place : lead d = digits.length - 1 + d.exponent := rfl
    rw [List.length_drop]
    omega
  rw [List.append_assoc, List.append_assoc]
  refine ⟨_, read, rfl, .inr rfl, ?_⟩
  rw [value_scaled, List.take_append_drop, Nat.ofDigitChars_ten_toDigits, place, Decimal.value]

end Write

/-- A decimal is read as it was written. -/
theorem unsigned?_write (layout : Decimal.Layout) {d : Decimal} (positive : 0 < d.coefficient)
    {rest : List Char} (ends : EndsNumber rest) (negative : Bool) :
    ∃ l, unsigned? negative ((layout.write d).toList ++ rest) = some (l, rest) ∧
      l.Writes negative d.value := by
  unfold Decimal.Layout.write
  dsimp only
  rw [String.toList_ofList]
  split
  case isTrue =>
    split
    case isTrue small => exact unsigned?_small d ends negative small
    case isFalse large => exact unsigned?_moderate d ends negative positive (not_lt.mp large)
  case isFalse => exact unsigned?_extreme d ends negative positive

/-- What a literal says of a number: for an integer its digits, and for a binary64 number a decimal
    that tells it apart. -/
def Literal.Denotes (l : Literal) : Number → Prop
  | .integer value _ => l.fraction = none ∧ l.exponent = none ∧
      (if l.negative then -(l.decimal.coefficient : Int) else l.decimal.coefficient) = value
  | .float x => l.Writes x.negative x.shortestValue

/-- A literal denotes one number at most. -/
theorem Literal.Denotes.unique {l : Literal} {n m : Number} (first : l.Denotes n)
    (second : l.Denotes m) : n = m := by
  cases n with
  | integer value inWord =>
    cases m with
    | integer other inWord' =>
      obtain rfl : value = other := first.2.2.symm.trans second.2.2
      rfl
    | float y =>
      have pointed := second.pointed
      rw [first.1, first.2.1] at pointed
      simp at pointed
  | float x =>
    cases m with
    | integer other inWord' =>
      have pointed := first.pointed
      rw [second.1, second.2.1] at pointed
      simp at pointed
    | float y =>
      have sign : x.negative = y.negative := first.negative.symm.trans second.negative
      rw [Binary64.eq_of_shortestValue sign (first.value.symm.trans second.value)]

/-- Digits alone are an integer. -/
theorem unsigned?_digits (negative : Bool) (n : Nat) {rest : List Char} (ends : EndsNumber rest) :
    unsigned? negative (Nat.toDigits 10 n ++ rest) =
      some (⟨negative, (Nat.toDigits 10 n).map digitOf, none, none⟩, rest) :=
  unsigned?_of_parts negative (leads_toDigits n) ends.digits ends.fraction? ends.exponent?

/-- A literal that is read without a sign is read whether or not a sign is allowed. -/
theorem literal?_of_unsigned {cs rest : List Char} {l : Literal}
    (read : unsigned? false cs = some (l, rest)) : literal? cs = some (l, rest) := by
  cases cs with
  | nil => exact read
  | cons c cs =>
    by_cases minus : c = '-'
    · subst minus
      have refused : unsigned? false ('-' :: cs) = none := rfl
      cases refused.symm.trans read
    · rw [literal?_cons minus, read]

/-- The text of a magnitude is read as a literal for it. -/
theorem unsigned?_magnitude (x : Binary64) {rest : List Char} (ends : EndsNumber rest) :
    ∃ l, unsigned? x.negative
        ((if x.isZero then "0.0" else floatLayout.write (Decimal.shortest x)).toList ++ rest) =
      some (l, rest) ∧ l.Denotes (.float x) := by
  by_cases zero : x.word = 0
  · have read := unsigned?_pointed x.negative (leads_toDigits 0) (by simp) (allDigits_zeros 1) ends
    have value : x.shortestValue = 0 := if_pos zero
    rw [if_pos (show x.isZero = true by simpa [Binary64.isZero] using zero)]
    refine ⟨_, read, rfl, .inl rfl, ?_⟩
    rw [value_pointed, value]
    norm_num [Nat.ofDigitChars]
  · have positive : 0 < (Decimal.shortest x).coefficient := by
      have value := x.value_shortest_pos zero
      rw [Nat.pos_iff_ne_zero]
      intro none
      simp [Decimal.value, none] at value
    obtain ⟨l, read, writes⟩ := unsigned?_write floatLayout positive ends x.negative
    have value : x.shortestValue = (Decimal.shortest x).value := if_neg zero
    rw [if_neg (show ¬x.isZero = true by simpa [Binary64.isZero] using zero)]
    exact ⟨l, read, writes.negative, writes.pointed, writes.value.trans value.symm⟩

theorem text_ofNat (k : Nat) : (toString (k : Int)).toList = Nat.toDigits 10 k := by
  rw [show toString (k : Int) = toString k from rfl, Nat.toString_eq_ofList_toDigits,
    String.toList_ofList]

theorem text_negSucc (k : Nat) :
    (toString (Int.negSucc k)).toList = '-' :: Nat.toDigits 10 (k + 1) := by
  rw [show toString (Int.negSucc k) = "-" ++ toString (k + 1) from rfl, String.toList_append,
    Nat.toString_eq_ofList_toDigits]
  simp

/-- The text of a number is read as a literal that denotes it. -/
theorem literal?_text (n : Number) {rest : List Char} (ends : EndsNumber rest) :
    ∃ l, literal? (n.text.toList ++ rest) = some (l, rest) ∧ l.Denotes n := by
  cases n with
  | integer value inWord =>
    have formed (k : Nat) : ofDigits ((Nat.toDigits 10 k).map digitOf ++ []) = k := by
      rw [List.append_nil, ofDigits_map, Nat.ofDigitChars_ten_toDigits]
    cases value with
    | ofNat k =>
      have text : (Number.text (.integer (Int.ofNat k) inWord)).toList = _ := text_ofNat k
      rw [text]
      refine ⟨_, literal?_of_unsigned (unsigned?_digits false k ends), rfl, rfl, ?_⟩
      exact congrArg Int.ofNat (formed k)
    | negSucc k =>
      have text : (Number.text (.integer (Int.negSucc k) inWord)).toList = _ := text_negSucc k
      rw [text, List.cons_append, literal?_minus]
      refine ⟨_, unsigned?_digits true (k + 1) ends, rfl, rfl, ?_⟩
      exact congrArg (fun n : Nat => -(n : Int)) (formed (k + 1))
  | float x =>
    obtain ⟨l, read, denotes⟩ := unsigned?_magnitude x ends
    refine ⟨l, ?_, denotes⟩
    change literal? (String.toList ((if x.negative then "-" else "") ++ _) ++ rest) = _
    rw [String.toList_append]
    cases sign : x.negative with
    | true =>
      rw [sign] at read
      exact read
    | false =>
      rw [sign] at read
      exact literal?_of_unsigned read

end Reader

end Json
end LiveQuery
