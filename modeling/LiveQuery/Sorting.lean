/-!
# Sorting

Lists in an order that is given as a test: may the first item stand before the
second? Items of equal rank keep their places. The result holds the same items,
and it is in order whenever the test is total and transitive.
-/

namespace LiveQuery

variable {α : Type}

/-- Puts an item into a sorted list, before those of equal rank. -/
def insertBy (before : α → α → Bool) (item : α) : List α → List α
  | [] => [item]
  | other :: rest =>
    if before item other then item :: other :: rest else other :: insertBy before item rest

/-- The items in order. -/
def sortBy (before : α → α → Bool) : List α → List α
  | [] => []
  | item :: rest => insertBy before item (sortBy before rest)

/-- The new item is added and nothing else changes: each step keeps the items passed so far. -/
theorem perm_insertBy (before : α → α → Bool) (item : α) (items : List α) :
    (insertBy before item items).Perm (item :: items) := by
  induction items with
  | nil => exact .refl _
  | cons other rest ih =>
    unfold insertBy
    split
    · exact .refl _
    · exact (ih.cons other).trans (.swap item other rest)

/-- Sorting neither adds nor loses items. -/
theorem perm_sortBy (before : α → α → Bool) (items : List α) :
    (sortBy before items).Perm items := by
  induction items with
  | nil => exact .refl _
  | cons item rest ih => exact (perm_insertBy before item _).trans (ih.cons item)

/-- A sorted list stays sorted. The item stands before the first item that it may precede, and by
    transitivity before all later ones; by totality every item passed may precede it. -/
theorem pairwise_insertBy {before : α → α → Bool}
    (total : ∀ a b, before a b || before b a)
    (trans : ∀ a b c, before a b → before b c → before a c)
    (item : α) {items : List α} (sorted : items.Pairwise (before · ·)) :
    (insertBy before item items).Pairwise (before · ·) := by
  induction items with
  | nil => exact List.pairwise_singleton _ item
  | cons other rest ih =>
    obtain ⟨first, sorted⟩ := List.pairwise_cons.mp sorted
    unfold insertBy
    split
    case isTrue le =>
      refine List.pairwise_cons.mpr ⟨fun x member => ?_, List.pairwise_cons.mpr ⟨first, sorted⟩⟩
      rcases List.mem_cons.mp member with rfl | member
      · exact le
      · exact trans _ _ _ le (first x member)
    case isFalse gt =>
      refine List.pairwise_cons.mpr ⟨fun x member => ?_, ih sorted⟩
      rcases List.mem_cons.mp ((perm_insertBy before item rest).mem_iff.mp member) with rfl | member
      · have either := total x other
        simpa [gt] using either
      · exact first x member

/-- The result is in order, by one insertion after the other. -/
theorem pairwise_sortBy {before : α → α → Bool}
    (total : ∀ a b, before a b || before b a)
    (trans : ∀ a b c, before a b → before b c → before a c) (items : List α) :
    (sortBy before items).Pairwise (before · ·) := by
  induction items with
  | nil => exact List.Pairwise.nil
  | cons item rest ih => exact pairwise_insertBy total trans item ih

/-- A list that is in order stays as it is: each item is put before those that follow it. -/
theorem sortBy_of_pairwise {before : α → α → Bool} {items : List α}
    (sorted : items.Pairwise (before · ·)) : sortBy before items = items := by
  induction items with
  | nil => rfl
  | cons item rest ih =>
    obtain ⟨first, later⟩ := List.pairwise_cons.mp sorted
    rw [sortBy, ih later]
    cases rest with
    | nil => rfl
    | cons other rest => rw [insertBy, if_pos (first other List.mem_cons_self)]

end LiveQuery
