import LiveQuery.Proofs.ResultOrder
import Mathlib.Data.List.Sort

/-!
# Sorted results

The order of values and the order of documents under a target are total preorders, and
documents tie only under one key. So documents under different keys can be put in order in
one way only: neither the order they come in nor the way they are sorted can be seen in the
result.
-/

namespace LiveQuery

open Std Json

/-- Values of any nesting can be compared, and the comparisons fit together. -/
instance : TransCmp Value.compare where
  eq_swap {a b} := (b.compare_swap a).symm
  isLE_trans {a b c} first second := (Value.chains_compare a b c).isLE first second

namespace Target

variable (t : Target)

/-- Documents can be compared under any target, and the comparisons fit together. -/
instance : TransCmp t.compare where
  eq_swap {a b} := (t.compare_swap b a).symm
  isLE_trans {a b c} first second := (t.chains_compare a b c).isLE first second

/-- The key breaks every tie. -/
theorem key_eq_of_compare {a b : Document} (tie : t.compare a b = .eq) : a.key = b.key := by
  rw [compare_eq, Ordering.then_eq_eq] at tie
  exact LawfulEqOrd.eq_of_compare tie.2

/-- Documents that may stand before each other are under one key. -/
theorem key_eq_of_before {a b : Document} (le : t.before a b) (ge : t.before b a) :
    a.key = b.key := by
  by_contra differ
  have less : t.compare a b = .lt := lt_of_before le differ
  have more : t.compare b a = .lt := lt_of_before ge (Ne.symm differ)
  rw [← t.compare_swap, more] at less
  cases less

/-- Of documents under different keys there is one list in order. Two such lists would hold the
    same documents, and neither could put a document before another where the other does not. -/
theorem eq_of_ordered {documents others : List Document} (perm : documents.Perm others)
    (distinct : (documents.map (·.key)).Nodup) (ordered : documents.Pairwise (t.before · ·))
    (ordered' : others.Pairwise (t.before · ·)) : documents = others := by
  refine perm.eq_of_pairwise (fun a b here there le ge => ?_) ordered ordered'
  exact List.inj_on_of_nodup_map distinct here (perm.mem_iff.mpr there) (t.key_eq_of_before le ge)

/-- The order of values is a total preorder. So is the order of documents under any target, and
    only documents under one key tie. Documents under different keys are therefore sorted into the
    same list whatever the order they come in, and this is the only list of them in order. -/
theorem order_is_total :
    (∀ a : Value, a.compare a = .eq) ∧
    (∀ a b : Value, a.compare b = (b.compare a).swap) ∧
    (∀ a b c : Value, (a.compare b).isLE → (b.compare c).isLE → (a.compare c).isLE) ∧
    ∀ t : Target,
      (∀ a : Document, t.compare a a = .eq) ∧
      (∀ a b : Document, t.compare a b = (t.compare b a).swap) ∧
      (∀ a b c : Document,
        (t.compare a b).isLE → (t.compare b c).isLE → (t.compare a c).isLE) ∧
      (∀ a b : Document, t.compare a b = .eq → a.key = b.key) ∧
      ∀ documents others : List Document, documents.Perm others →
        (documents.map (·.key)).Nodup →
          sortBy t.before documents = sortBy t.before others ∧
          (others.Pairwise (t.before · ·) → sortBy t.before documents = others) := by
  refine ⟨fun a => ReflCmp.compare_self, fun a b => OrientedCmp.eq_swap,
    fun a b c => TransCmp.isLE_trans, fun t => ⟨fun a => ReflCmp.compare_self,
      fun a b => OrientedCmp.eq_swap, fun a b c => TransCmp.isLE_trans,
      fun a b => t.key_eq_of_compare, fun documents others perm distinct => ?_⟩⟩
  have sorted (documents : List Document) : (sortBy t.before documents).Pairwise (t.before · ·) :=
    pairwise_sortBy t.before_total t.before_trans documents
  have same : (sortBy t.before documents).Perm documents := perm_sortBy t.before documents
  have distinct : ((sortBy t.before documents).map (·.key)).Nodup :=
    (same.map _).nodup_iff.mpr distinct
  constructor
  · exact t.eq_of_ordered ((same.trans perm).trans (perm_sortBy t.before others).symm) distinct
      (sorted documents) (sorted others)
  · exact t.eq_of_ordered (same.trans perm) distinct (sorted documents)

/-- The documents of a collection by rank. -/
def byRank : Target := .query { collection := "c", orderBy := some "rank" }

/-- A document with a rank. -/
def ranked (path : String) (rank : Datum) : Document :=
  ⟨⟨path⟩, ⟨1⟩, some ((∅ : Fields).insert "rank" rank), false⟩

/-- The integer ten. -/
def ten : Datum := .number (.integer 10 (by decide))

/-- The binary64 number nine and a half. -/
def nineAndHalf : Datum := .number (.float ⟨false, 1026 * 2 ^ 52 + 3 * 2 ^ 48, by decide⟩)

/-- Ranks of several types. No rank comes before all ranks, numbers of both kinds come by size, and
    an array comes after all numbers. -/
theorem mixed_ranks_sort_one_way :
    (ten.value.compare (Datum.array [.null]).value).isLE ∧
      (byRank.compare (ranked "c/d" .null) (ranked "c/b" ten)).isLE ∧
      sortBy byRank.before [ranked "c/a" (.array [.null]), ranked "c/b" ten,
          ranked "c/c" nineAndHalf, ⟨⟨"c/d"⟩, ⟨1⟩, some ∅, false⟩] =
        [⟨⟨"c/d"⟩, ⟨1⟩, some ∅, false⟩, ranked "c/c" nineAndHalf, ranked "c/b" ten,
          ranked "c/a" (.array [.null])] := by
  obtain ⟨-, -, values, documents⟩ := order_is_total
  obtain ⟨-, -, ordered, -, sorted⟩ := documents byRank
  refine ⟨values _ (Datum.string "high").value _ (by decide +kernel) (by decide +kernel),
    ordered _ (ranked "c/c" nineAndHalf) _ (by decide +kernel) (by decide +kernel), ?_⟩
  refine (sorted _ _ ?_ (by decide +kernel)).2 (by decide +kernel)
  exact (List.reverse_perm _).symm

end Target

end LiveQuery
