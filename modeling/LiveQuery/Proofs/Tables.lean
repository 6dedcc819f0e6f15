import Std.Data.ExtTreeMap
import Std.Data.ExtTreeSet

/-!
# Keyed tables

Facts on tables that are needed for tables of every kind.
-/

namespace LiveQuery

open Std

variable {κ β : Type} [Ord κ] [TransOrd κ] [LawfulEqOrd κ]

omit [LawfulEqOrd κ] in
/-- What is in a table has an entry. -/
theorem mem_iff_entry {table : ExtTreeMap κ β} {key : κ} :
    key ∈ table ↔ ∃ entry, table[key]? = some entry := by
  rw [ExtTreeMap.mem_iff_isSome_getElem?, Option.isSome_iff_exists]

/-- The keys that a selection leaves are those of the selected entries. -/
theorem mem_keys_filter (table : ExtTreeMap κ β) (select : κ → β → Bool) (key : κ) :
    key ∈ (table.filter select).keys ↔ ∃ entry, table[key]? = some entry ∧ select key entry := by
  rw [ExtTreeMap.mem_keys, mem_iff_entry]
  simp only [ExtTreeMap.getElem?_filter', Option.filter_eq_some_iff]

/-- Editing an entry leaves the others as they are. -/
theorem getElem?_modify_eq_some {table : ExtTreeMap κ β} {key other : κ} {f : β → β} {entry : β} :
    (table.modify key f)[other]? = some entry ↔
      ∃ old, table[other]? = some old ∧ ((key = other ∧ entry = f old) ∨
        (key ≠ other ∧ entry = old)) := by
  rw [ExtTreeMap.getElem?_modify]
  by_cases same : key = other
  · subst same
    rw [if_pos ReflOrd.compare_self, Option.map_eq_some_iff]
    simp [eq_comm]
  · rw [if_neg (mt LawfulEqOrd.eq_of_compare same)]
    simp [same]

/-- Editing an entry neither makes nor removes one. -/
theorem getElem?_modify_eq_none {table : ExtTreeMap κ β} {key other : κ} {f : β → β} :
    (table.modify key f)[other]? = none ↔ table[other]? = none := by
  rw [ExtTreeMap.getElem?_modify]
  split
  case isTrue same => rw [← LawfulEqOrd.eq_of_compare same, Option.map_eq_none_iff]
  case isFalse => rfl

/-- Editing an entry is putting the edited one in its place. -/
theorem insert_eq_modify {table : ExtTreeMap κ β} {key : κ} {entry : β}
    (entered : table[key]? = some entry) (f : β → β) :
    table.insert key (f entry) = table.modify key f := by
  apply ExtTreeMap.ext_getElem?
  intro other
  rw [ExtTreeMap.getElem?_insert, ExtTreeMap.getElem?_modify, entered, Option.map_some]

/-- Where there is no entry there is nothing to edit. -/
theorem modify_of_absent {table : ExtTreeMap κ β} {key : κ} (absent : table[key]? = none)
    (f : β → β) : table.modify key f = table := by
  apply ExtTreeMap.ext_getElem?
  intro other
  rw [ExtTreeMap.getElem?_modify, absent, Option.map_none]
  split
  case isTrue same => rw [← LawfulEqOrd.eq_of_compare same, absent]
  case isFalse => rfl

/-- Where there is no entry there is nothing to erase. -/
theorem erase_of_absent {table : ExtTreeMap κ β} {key : κ} (absent : table[key]? = none) :
    table.erase key = table := by
  apply ExtTreeMap.ext_getElem?
  intro other
  rw [ExtTreeMap.getElem?_erase]
  split
  case isTrue same => rw [← LawfulEqOrd.eq_of_compare same, absent]
  case isFalse => rfl

/-- What is no member need not be taken out. -/
theorem erase_of_not_mem {members : ExtTreeSet κ} {member : κ} (absent : member ∉ members) :
    members.erase member = members := by
  apply ExtTreeSet.ext_mem
  intro other
  rw [ExtTreeSet.mem_erase]
  refine and_iff_right_of_imp fun present same => absent ?_
  rwa [LawfulEqOrd.eq_of_compare same]

/-- A table lists each of its keys once. -/
theorem nodup_keys (table : ExtTreeMap κ β) : table.keys.Nodup :=
  ExtTreeMap.distinct_keys.imp ReflCmp.ne_of_cmp_ne_eq

/-- A set lists each of its members once. -/
theorem nodup_toList (members : ExtTreeSet κ) : members.toList.Nodup :=
  ExtTreeSet.distinct_toList.imp ReflCmp.ne_of_cmp_ne_eq

omit [LawfulEqOrd κ] in
/-- A round over different keys does to the entry of each key of the round what one step does. -/
theorem getElem?_foldl [DecidableEq κ] {step : ExtTreeMap κ β → κ → ExtTreeMap κ β}
    (on : κ → Option β → Option β)
    (each : ∀ table key, ∀ other : κ,
      (step table key)[other]? = if key = other then on other table[other]? else table[other]?)
    {keys : List κ} (distinct : keys.Nodup) (table : ExtTreeMap κ β) (key : κ) :
    (keys.foldl step table)[key]? = if key ∈ keys then on key table[key]? else table[key]? := by
  induction keys generalizing table with
  | nil => simp
  | cons first rest ih =>
    obtain ⟨once, distinct⟩ := List.nodup_cons.mp distinct
    rw [List.foldl_cons, ih distinct, each]
    by_cases same : first = key
    · subst same
      simp [once]
    · simp [same, Ne.symm same]

end LiveQuery
