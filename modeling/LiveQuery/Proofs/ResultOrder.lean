import LiveQuery.Sorting
import LiveQuery.Target

/-!
# The order of a result

The order of values is a total preorder. It is lexicographic at every level: by
type, then item by item or member by member. The proof therefore follows three
comparisons at once, of a first value with a second, of the second with a third
and of the first with the third, and shows that they fit if those of the parts
do.

Keys break every tie, so two documents under different keys are never of one
rank, and a sorted result is in strict order.
-/

namespace LiveQuery

open Std Json

/-- How the comparisons of a first with a second item, of the second with a third and of the first
    with the third fit together in an order. -/
structure Chains (first second both : Ordering) : Prop where
  same_left : first = .eq → both = second
  same_right : second = .eq → both = first
  rising : first = .lt → second = .lt → both = .lt

/-- The comparisons of a lawful order fit. -/
theorem Chains.of_ord {α : Type} [Ord α] [TransOrd α] (a b c : α) :
    Chains (compare a b) (compare b c) (compare a c) where
  same_left := TransCmp.congr_left
  same_right tie := (TransCmp.congr_right tie).symm
  rising := TransCmp.lt_trans

/-- A second criterion counts where the first one ties. It has to fit only there. -/
theorem Chains.then {first second both first' second' both' : Ordering}
    (outer : Chains first second both)
    (inner : first = .eq → second = .eq → Chains first' second' both') :
    Chains (first.then first') (second.then second') (both.then both') := by
  obtain ⟨same_left, same_right, rising⟩ := outer
  cases first with
  | eq =>
    obtain rfl := same_left rfl
    cases both with
    | eq => exact inner rfl rfl
    | lt => exact ⟨fun _ => rfl, nofun, fun _ _ => rfl⟩
    | gt => exact ⟨fun _ => rfl, nofun, nofun⟩
  | lt =>
    cases second with
    | eq =>
      obtain rfl := same_right rfl
      exact ⟨nofun, fun _ => rfl, fun _ _ => rfl⟩
    | lt =>
      obtain rfl := rising rfl rfl
      exact ⟨nofun, nofun, fun _ _ => rfl⟩
    | gt => exact ⟨nofun, nofun, nofun⟩
  | gt =>
    cases second with
    | eq =>
      obtain rfl := same_right rfl
      exact ⟨nofun, fun _ => rfl, nofun⟩
    | lt => exact ⟨nofun, nofun, nofun⟩
    | gt => exact ⟨nofun, nofun, nofun⟩

/-- Comparisons that fit are transitive. -/
theorem Chains.isLE {first second both : Ordering} (chains : Chains first second both)
    (le : first.isLE) (le' : second.isLE) : both.isLE := by
  cases first with
  | eq => exact (chains.same_left rfl).symm ▸ le'
  | lt =>
    cases second with
    | eq => exact (chains.same_right rfl).symm ▸ le
    | lt => exact (chains.rising rfl rfl).symm ▸ rfl
    | gt => exact absurd le' Bool.false_ne_true
  | gt => exact absurd le Bool.false_ne_true

namespace Json

namespace Value

/-- The order of values of one type. -/
def compareWithin : Value → Value → Ordering
  | .bool a, .bool b => Ord.compare a b
  | .number a, .number b => a.compare b
  | .string a, .string b => Ord.compare a b
  | .array as, .array bs => compareItems as bs
  | .object as, .object bs => compareMembers as bs
  | _, _ => .eq

/-- The type decides first. -/
theorem compare_eq_then (a b : Value) :
    a.compare b = (Ord.compare a.typeRank b.typeRank).then (a.compareWithin b) := by
  cases a <;> cases b <;> simp [compare, compareWithin, typeRank]

/-- Numbers compare by rank. -/
theorem chains_number (a b c : Number) : Chains (a.compare b) (b.compare c) (a.compare c) :=
  Chains.of_ord a.rank b.rank c.rank

mutual

/-- Three values. Where the types tie, all three are of one type, and the parts decide. -/
theorem chains_compare (a b c : Value) : Chains (a.compare b) (b.compare c) (a.compare c) := by
  rw [compare_eq_then a, compare_eq_then b, compare_eq_then a c]
  apply (Chains.of_ord a.typeRank b.typeRank c.typeRank).then
  intro first second
  cases a with
  | null =>
    cases b with
    | null => cases c <;> first | contradiction | exact ⟨fun _ => rfl, fun _ => rfl, nofun⟩
    | _ => contradiction
  | bool a =>
    cases b with
    | bool b => cases c <;> first | contradiction | exact Chains.of_ord a b _
    | _ => contradiction
  | number a =>
    cases b with
    | number b => cases c <;> first | contradiction | exact chains_number a b _
    | _ => contradiction
  | string a =>
    cases b with
    | string b => cases c <;> first | contradiction | exact Chains.of_ord a b _
    | _ => contradiction
  | array as =>
    cases b with
    | array bs => cases c <;> first | contradiction | exact chains_compareItems as bs _
    | _ => contradiction
  | object as =>
    cases b with
    | object bs => cases c <;> first | contradiction | exact chains_compareMembers as bs _
    | _ => contradiction

/-- Three lists of items, item by item. -/
theorem chains_compareItems (as bs cs : List Value) :
    Chains (compareItems as bs) (compareItems bs cs) (compareItems as cs) := by
  cases as with
  | nil => cases bs <;> cases cs <;> constructor <;> simp [compareItems]
  | cons a as =>
    cases bs with
    | nil => cases cs <;> constructor <;> simp [compareItems]
    | cons b bs =>
      cases cs with
      | nil => constructor <;> simp [compareItems]
      | cons c cs => exact (chains_compare a b c).then fun _ _ => chains_compareItems as bs cs

/-- Three lists of members, member by member. -/
theorem chains_compareMembers (as bs cs : List (String × Value)) :
    Chains (compareMembers as bs) (compareMembers bs cs) (compareMembers as cs) := by
  cases as with
  | nil => cases bs <;> cases cs <;> constructor <;> simp [compareMembers]
  | cons a as =>
    obtain ⟨i, a⟩ := a
    cases bs with
    | nil => cases cs <;> constructor <;> simp [compareMembers]
    | cons b bs =>
      obtain ⟨j, b⟩ := b
      cases cs with
      | nil => constructor <;> simp [compareMembers]
      | cons c cs =>
        obtain ⟨k, c⟩ := c
        exact ((Chains.of_ord i j k).then fun _ _ => chains_compare a b c).then fun _ _ =>
          chains_compareMembers as bs cs

end

mutual

/-- Comparing the other way round gives the opposite. -/
theorem compare_swap (a b : Value) : (a.compare b).swap = b.compare a := by
  rw [compare_eq_then a, compare_eq_then b, Ordering.swap_then]
  have types : (Ord.compare a.typeRank b.typeRank).swap = Ord.compare b.typeRank a.typeRank :=
    OrientedOrd.eq_swap.symm
  rw [types]
  cases a with
  | null => cases b <;> rfl
  | bool a => cases b <;> first | rfl | exact congrArg _ OrientedOrd.eq_swap.symm
  | number a => cases b <;> first | rfl | exact congrArg _ OrientedOrd.eq_swap.symm
  | string a => cases b <;> first | rfl | exact congrArg _ OrientedOrd.eq_swap.symm
  | array as => cases b <;> first | rfl | exact congrArg _ (compareItems_swap as _)
  | object as => cases b <;> first | rfl | exact congrArg _ (compareMembers_swap as _)

theorem compareItems_swap (as bs : List Value) :
    (compareItems as bs).swap = compareItems bs as := by
  cases as with
  | nil => cases bs <;> rfl
  | cons a as =>
    cases bs with
    | nil => rfl
    | cons b bs =>
      rw [compareItems, compareItems, Ordering.swap_then, compare_swap a b,
        compareItems_swap as bs]

theorem compareMembers_swap (as bs : List (String × Value)) :
    (compareMembers as bs).swap = compareMembers bs as := by
  cases as with
  | nil => cases bs <;> rfl
  | cons a as =>
    obtain ⟨i, a⟩ := a
    cases bs with
    | nil => rfl
    | cons b bs =>
      obtain ⟨j, b⟩ := b
      have names : (Ord.compare i j).swap = Ord.compare j i := OrientedOrd.eq_swap.symm
      rw [compareMembers, compareMembers, Ordering.swap_then, Ordering.swap_then, names,
        compare_swap a b, compareMembers_swap as bs]

end

end Value

/-- Absent data come first, so they fit in as one more value. -/
theorem Datum.chains_compareOptional (a b c : Option Datum) :
    Chains (compareOptional a b) (compareOptional b c) (compareOptional a c) := by
  cases a with
  | none => cases b <;> cases c <;> constructor <;> simp [compareOptional]
  | some a =>
    cases b with
    | none => cases c <;> constructor <;> simp [compareOptional]
    | some b =>
      cases c with
      | none => constructor <;> simp [compareOptional]
      | some c => exact a.value.chains_compare b.value c.value

theorem Datum.compareOptional_swap (a b : Option Datum) :
    (compareOptional a b).swap = compareOptional b a := by
  cases a with
  | none => cases b <;> rfl
  | some a =>
    cases b with
    | none => rfl
    | some b => exact a.value.compare_swap b.value

end Json

namespace Target

/-- The field by which a target orders, if there is one. -/
def orderField? : Target → Option String
  | .query q => q.orderBy
  | .document _ => none

/-- The field decides, and then the key. -/
theorem compare_eq (t : Target) (a b : Document) :
    t.compare a b = (t.orderField?.elim .eq fun field =>
      Datum.compareOptional (a.field field) (b.field field)).then (Ord.compare a.key b.key) := by
  cases t with
  | document => rfl
  | query q =>
    obtain ⟨collection, filters, _ | field⟩ := q <;> rfl

theorem chains_compare (t : Target) (a b c : Document) :
    Chains (t.compare a b) (t.compare b c) (t.compare a c) := by
  rw [compare_eq, compare_eq, compare_eq]
  refine Chains.then ?_ fun _ _ => Chains.of_ord a.key b.key c.key
  cases t.orderField? with
  | none => exact ⟨fun _ => rfl, fun _ => rfl, nofun⟩
  | some field => exact Datum.chains_compareOptional _ _ _

theorem compare_swap (t : Target) (a b : Document) : (t.compare a b).swap = t.compare b a := by
  have keys : (Ord.compare a.key b.key).swap = Ord.compare b.key a.key := OrientedOrd.eq_swap.symm
  rw [compare_eq, compare_eq, Ordering.swap_then, keys]
  cases t.orderField? with
  | none => rfl
  | some field => rw [Option.elim_some, Option.elim_some, Datum.compareOptional_swap]

/-- Of two documents one may stand before the other. -/
theorem before_total (t : Target) (a b : Document) : t.before a b || t.before b a := by
  rw [before, before, ← t.compare_swap a b]
  cases t.compare a b <;> rfl

theorem before_trans (t : Target) (a b c : Document) (first : t.before a b)
    (second : t.before b c) : t.before a c :=
  (t.chains_compare a b c).isLE first second

/-- Under different keys, to stand before is to be strictly less. -/
theorem lt_of_before {t : Target} {a b : Document} (le : t.before a b) (differ : a.key ≠ b.key) :
    t.compare a b = .lt := by
  have untied : t.compare a b ≠ .eq := by
    rw [compare_eq, ne_eq, Ordering.then_eq_eq]
    exact fun tie => differ (LawfulEqOrd.eq_of_compare tie.2)
  rw [before] at le
  cases compared : t.compare a b with
  | lt => rfl
  | eq => exact absurd compared untied
  | gt => rw [compared] at le; exact absurd le Bool.false_ne_true

/-- Documents under different keys are put in strict order. -/
theorem sortBy_before_strict (t : Target) {documents : List Document}
    (distinct : (documents.map (·.key)).Nodup) :
    (sortBy t.before documents).Pairwise fun a b => t.compare a b = .lt := by
  have ordered := pairwise_sortBy t.before_total t.before_trans documents
  have still : ((sortBy t.before documents).map (·.key)).Nodup :=
    ((perm_sortBy t.before documents).map _).nodup_iff.mpr distinct
  rw [List.Nodup, List.pairwise_map] at still
  exact (ordered.and still).imp fun pair => lt_of_before pair.1 pair.2

end Target

end LiveQuery
