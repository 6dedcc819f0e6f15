import LiveQuery.Change
import LiveQuery.Proofs.ResultOrder
import Mathlib.Data.List.Basic

/-!
# Changes replayed

Applied one after the other to the result before, the changes between two
results give the result after. Each of them applies: what is added is absent and
everything else is present. A document for which there is no change is the same
in both results, up to the equality of documents.

A result holds every document under its own key. This is what makes the order of
the changes irrelevant: there is at most one for each key.
-/

namespace LiveQuery

open Std Json

namespace Json

theorem Binary64.same_self (x : Binary64) : x.same x = true := by simp [Binary64.same]

theorem Number.same_self (n : Number) : n.same n = true := by
  cases n with
  | integer => simp [Number.same]
  | float x => exact Binary64.same_self x

namespace Value

mutual

/-- Equality of data is reflexive: every number in a value is one. -/
theorem same_self (v : Value) : v.same v = true := by
  cases v with
  | null => rfl
  | bool => simp [same]
  | number n => exact n.same_self
  | string => simp [same]
  | array items => exact sameItems_self items
  | object members => exact sameMembers_self members

theorem sameItems_self (items : List Value) : sameItems items items = true := by
  cases items with
  | nil => rfl
  | cons item rest => rw [sameItems, same_self item, sameItems_self rest, Bool.and_self]

theorem sameMembers_self (members : List (String × Value)) :
    sameMembers members members = true := by
  cases members with
  | nil => rfl
  | cons member rest =>
    obtain ⟨name, value⟩ := member
    rw [sameMembers, same_self value, sameMembers_self rest, beq_self_eq_true, Bool.and_self,
      Bool.and_self]

end

end Value

end Json

namespace Document

theorem sameContents_self (d : Document) : d.sameContents d = true := by
  unfold sameContents
  cases d.data with
  | none => rfl
  | some fields => exact Value.sameMembers_self fields.members

theorem same_self (d : Document) : d.same d = true := by simp [same, sameContents_self]

theorem key_of_same {a b : Document} (same : a.same b = true) : a.key = b.key := by
  simp only [Document.same, Bool.and_eq_true, beq_iff_eq] at same
  exact same.1.1.1

end Document

namespace Documents

/-- Every document stands under its own key. -/
def Keyed (documents : Documents) : Prop :=
  ∀ (key : DocumentKey) (d : Document), documents[key]? = some d → d.key = key

/-- Two sets hold equal documents under the same keys. -/
def Agrees (a b : Documents) : Prop :=
  ∀ key : DocumentKey, Option.Rel (fun x y : Document => x.same y = true) a[key]? b[key]?

theorem Agrees.refl (documents : Documents) : documents.Agrees documents := by
  intro key
  cases documents[key]? with
  | none => exact .none
  | some d => exact .some d.same_self

theorem Keyed.insert {documents : Documents} (keyed : documents.Keyed) (d : Document) :
    Keyed (documents.insert d.key d) := by
  intro key other found
  rw [ExtTreeMap.getElem?_insert] at found
  split at found
  case isTrue same => rw [← Option.some.inj found, LawfulEqOrd.eq_of_compare same]
  case isFalse => exact keyed key other found

/-- A set made from a list is keyed by making. -/
theorem keyed_ofList (documents : List Document) : Keyed (ofList documents) := by
  have through (known : Documents) (keyed : known.Keyed) :
      Keyed (known.insertMany (documents.map fun d => (d.key, d))) := by
    induction documents generalizing known with
    | nil => simpa using keyed
    | cons d rest ih =>
      rw [List.map_cons, ExtTreeMap.insertMany_cons]
      exact ih _ (keyed.insert d)
  rw [ofList, ExtTreeMap.ofList_eq_insertMany_empty]
  exact through ∅ fun key d found => by simp at found

/-- What documents laid over a set leave at a key was there before or is one of them. -/
theorem mem_of_insertMany {known : Documents} {documents : List Document}
    {key : DocumentKey} {d : Document}
    (found : (known.insertMany (documents.map fun d => (d.key, d)))[key]? = some d) :
    known[key]? = some d ∨ d ∈ documents := by
  induction documents generalizing known with
  | nil => exact .inl (by simpa using found)
  | cons first rest ih =>
    rw [List.map_cons, ExtTreeMap.insertMany_cons] at found
    rcases ih found with here | later
    · rw [ExtTreeMap.getElem?_insert] at here
      split at here
      case isTrue => exact .inr (Option.some.inj here ▸ List.mem_cons_self)
      case isFalse => exact .inl here
    · exact .inr (List.mem_cons_of_mem first later)

/-- What a set is made of is in the list that it is made from. -/
theorem mem_of_ofList {documents : List Document} {key : DocumentKey} {d : Document}
    (found : (ofList documents)[key]? = some d) : d ∈ documents := by
  rw [ofList, ExtTreeMap.ofList_eq_insertMany_empty] at found
  exact (mem_of_insertMany found).resolve_left (by simp)

/-- Choosing among the documents of a set is choosing from its list. -/
theorem list_filter (documents : Documents) (p : Document → Bool) :
    list (documents.filter fun _ d => p d) = documents.list.filter p := by
  rw [list, list, List.filter_map, ExtTreeMap.toList_filter]
  rfl

/-- In a keyed set no two documents of the list share a key. -/
theorem Keyed.nodup_list {documents : Documents} (keyed : documents.Keyed) :
    (documents.list.map (·.key)).Nodup := by
  have keys : documents.list.map (·.key) = documents.keys := by
    rw [list, List.map_map, ← ExtTreeMap.map_fst_toList_eq_keys]
    apply List.map_congr_left
    intro entry member
    exact keyed entry.1 entry.2 (ExtTreeMap.mem_toList_iff_getElem?_eq_some.mp member)
  rw [keys]
  exact ExtTreeMap.nodup_keys

theorem mem_list {documents : Documents} (keyed : documents.Keyed) {d : Document} :
    d ∈ documents.list ↔ documents[d.key]? = some d := by
  simp only [list, List.mem_map, Prod.exists, exists_eq_right,
    ExtTreeMap.mem_toList_iff_getElem?_eq_some]
  constructor
  · rintro ⟨key, found⟩
    rwa [keyed key d found]
  · exact fun found => ⟨d.key, found⟩

/-- Documents with different keys are entered in different places. -/
theorem apart_of_nodup {documents : List Document} (nodup : (documents.map (·.key)).Nodup) :
    (documents.map fun d => (d.key, d)).Pairwise fun a b => ¬compare a.1 b.1 = .eq := by
  rw [List.Nodup, List.pairwise_map] at nodup
  rw [List.pairwise_map]
  exact nodup.imp fun differ same => differ (LawfulEqOrd.eq_of_compare same)

/-- A keyed set is made of its documents in any order. -/
theorem Keyed.ofList_perm {documents : Documents} (keyed : documents.Keyed) {ds : List Document}
    (perm : ds.Perm documents.list) : ofList ds = documents := by
  have distinct := apart_of_nodup ((perm.map (·.key)).nodup_iff.mpr keyed.nodup_list)
  apply ExtTreeMap.ext_getElem?
  intro key
  cases found : documents[key]? with
  | some d =>
    have own := keyed key d found
    have member : d ∈ ds := perm.mem_iff.mpr ((mem_list keyed).mpr (own ▸ found))
    refine ExtTreeMap.getElem?_ofList_of_mem ReflOrd.compare_self distinct (List.mem_map.mpr ?_)
    exact ⟨d, member, by rw [own]⟩
  | none =>
    refine ExtTreeMap.getElem?_ofList_of_contains_eq_false ?_
    rw [List.map_map, List.contains_eq_mem, decide_eq_false_iff_not, List.mem_map]
    rintro ⟨d, member, rfl⟩
    have here := (mem_list keyed).mp (perm.mem_iff.mp member)
    exact nomatch found.symm.trans here

end Documents

/-- A result is keyed: it is made from a list. -/
theorem Replica.keyed_result (r : Replica) (t : Target) : (r.result t).Keyed := by
  unfold result
  split
  · exact Documents.keyed_ofList _
  · exact fun key d found => by simp at found

/-- Whatever is in a result is held by the replica and belongs to the target, and the result has it
    under its own key. -/
theorem Replica.of_mem_result {r : Replica} {t : Target} {key : DocumentKey} {d : Document}
    (found : (r.result t)[key]? = some d) :
    r.initialized = true ∧ d.key = key ∧ t.selects d = true ∧
      ∃ held : DocumentKey, r.documents[held]? = some d := by
  have own := r.keyed_result t key d found
  unfold result at found
  split at found
  case isTrue initialized =>
    obtain ⟨listed, selected⟩ := List.mem_filter.mp (Documents.mem_of_ofList found)
    obtain ⟨entry, here, rfl⟩ := List.mem_map.mp listed
    exact ⟨initialized, own, selected, entry.1,
      ExtTreeMap.mem_toList_iff_getElem?_eq_some.mp here⟩
  case isFalse => simp at found

/-- What a replica shows depends on what the target selects at each key. -/
theorem Replica.result_congr {r s : Replica} {t : Target}
    (initialized : r.initialized = s.initialized)
    (same : ∀ key : DocumentKey,
      r.documents[key]?.filter t.selects = s.documents[key]?.filter t.selects) :
    r.result t = s.result t := by
  have alike : (r.documents.filter fun _ d => t.selects d) =
      s.documents.filter fun _ d => t.selects d := by
    apply ExtTreeMap.ext_getElem?
    intro key
    rw [ExtTreeMap.getElem?_filter', ExtTreeMap.getElem?_filter']
    exact same key
  rw [result, result, initialized, ← Documents.list_filter, ← Documents.list_filter, alike]

namespace Target

/-- Sorting keeps the documents of a result. -/
theorem ofList_sorted (t : Target) {documents : Documents} (keyed : documents.Keyed) :
    Documents.ofList (t.sorted documents) = documents :=
  keyed.ofList_perm (perm_sortBy t.before documents.list)

/-- A sorted result is in strict order. -/
theorem sorted_strict (t : Target) {documents : Documents} (keyed : documents.Keyed) :
    (t.sorted documents).Pairwise fun a b => t.compare a b = .lt :=
  t.sortBy_before_strict keyed.nodup_list

end Target

namespace Change

/-- Applies a change to a set of documents. What is added must be absent, and anything else must be
    present. -/
def replay? (documents : Documents) (c : Change) : Option Documents :=
  match c.kind, documents[c.document.key]? with
  | .added, none => some (documents.insert c.document.key c.document)
  | .modified, some _ => some (documents.insert c.document.key c.document)
  | .metadata, some _ => some (documents.insert c.document.key c.document)
  | .removed, some _ => some (documents.erase c.document.key)
  | _, _ => none

/-- Applies changes one after the other. -/
def replayAll? (documents : Documents) (changes : List Change) : Option Documents :=
  changes.foldlM replay? documents

/-- A document that stays is modified, or its mark changed. -/
theorem kindBetween_cases {before after : Document} {kind : ChangeKind}
    (changed : kindBetween before after = some kind) : kind = .modified ∨ kind = .metadata := by
  unfold kindBetween at changed
  split at changed
  · exact .inl (Option.some.inj changed).symm
  · split at changed
    · exact .inr (Option.some.inj changed).symm
    · split at changed
      · exact .inl (Option.some.inj changed).symm
      · exact nomatch changed

/-- A document without a change is the same, as long as it is under the same key. -/
theorem same_of_kindBetween {before after : Document} (own : before.key = after.key)
    (unchanged : kindBetween before after = none) : before.same after = true := by
  unfold kindBetween at unchanged
  split at unchanged
  · exact nomatch unchanged
  case isFalse contents =>
    split at unchanged
    · exact nomatch unchanged
    case isFalse marks =>
      split at unchanged
      · exact nomatch unchanged
      case isFalse versions =>
        simp only [Bool.not_eq_true', Bool.not_eq_false, bne_iff_ne, ne_eq, Decidable.not_not]
          at contents marks versions
        simp [Document.same, own, contents, marks, versions]

/-- Between documents that are the same there is no change. -/
theorem kindBetween_of_same {before after : Document} (same : before.same after = true) :
    kindBetween before after = none := by
  simp only [Document.same, Bool.and_eq_true, beq_iff_eq] at same
  obtain ⟨⟨⟨-, version⟩, contents⟩, marks⟩ := same
  simp [kindBetween, version, contents, marks]

/-- Where the states are the same there is no change. -/
theorem between_of_same {before after : Option Document}
    (same : Option.Rel (fun x y : Document => x.same y = true) before after) :
    between before after = none := by
  cases same with
  | none => rfl
  | some same => rw [between, kindBetween_of_same same, Option.map_none]

/-- A change applies to the state that it starts from, and leaves the state that it leads to. -/
theorem replay?_between {documents : Documents} {c : Change} {after : Option Document}
    (made : Change.between documents[c.document.key]? after = some c) :
    ∃ next, replay? documents c = some next ∧ ∀ key : DocumentKey,
      next[key]? = if c.document.key = key then after else documents[key]? := by
  cases found : documents[c.document.key]? with
  | none =>
    cases after with
    | none => rw [found] at made; exact nomatch made
    | some d =>
      rw [found] at made
      obtain rfl := Option.some.inj made
      refine ⟨documents.insert d.key d, by simp only [replay?, found], fun key => ?_⟩
      simp [ExtTreeMap.getElem?_insert]
  | some known =>
    cases after with
    | none =>
      rw [found] at made
      obtain rfl := Option.some.inj made
      refine ⟨documents.erase known.key, by simp only [replay?, found], fun key => ?_⟩
      simp [ExtTreeMap.getElem?_erase]
    | some d =>
      rw [found] at made
      obtain ⟨kind, changed, rfl⟩ := Option.map_eq_some_iff.mp made
      refine ⟨documents.insert d.key d, ?_, fun key => ?_⟩
      · obtain rfl | rfl := kindBetween_cases changed <;> simp only [replay?, found]
      · simp [ExtTreeMap.getElem?_insert]

/-- Changes under different keys apply one after the other, each to the state of its own key. -/
theorem replayAll?_between {documents : Documents} {changes : List Change}
    {after : DocumentKey → Option Document}
    (distinct : changes.Pairwise fun a b => a.document.key ≠ b.document.key)
    (made : ∀ c ∈ changes,
      Change.between documents[c.document.key]? (after c.document.key) = some c) :
    ∃ held, replayAll? documents changes = some held ∧
      (∀ c ∈ changes, held[c.document.key]? = after c.document.key) ∧
      ∀ key, (∀ c ∈ changes, c.document.key ≠ key) → held[key]? = documents[key]? := by
  induction changes generalizing documents with
  | nil => exact ⟨documents, rfl, List.forall_mem_nil _, fun _ _ => rfl⟩
  | cons c rest ih =>
    obtain ⟨others, distinct⟩ := List.pairwise_cons.mp distinct
    obtain ⟨next, applied, at_key⟩ := replay?_between (made c List.mem_cons_self)
    have later : ∀ other ∈ rest,
        Change.between next[other.document.key]? (after other.document.key) = some other := by
      intro other member
      rw [at_key, if_neg (others other member)]
      exact made other (List.mem_cons_of_mem _ member)
    obtain ⟨held, all, reached, untouched⟩ := ih distinct later
    refine ⟨held, ?_, ?_, ?_⟩
    · rw [replayAll?, List.foldlM_cons, applied]
      exact all
    · intro other member
      rcases List.mem_cons.mp member with rfl | member
      · rw [untouched _ fun later member => (others later member).symm, at_key, if_pos rfl]
      · exact reached other member
    · intro key none_there
      have differs := none_there c List.mem_cons_self
      rw [untouched key fun later member => none_there later (List.mem_cons_of_mem _ member),
        at_key, if_neg differs]

/-- The change under a key from one set to another. -/
def under (before after : Documents) (key : DocumentKey) : Option Change :=
  Change.between before[key]? after[key]?

/-- A change stands under the key of its document. -/
theorem key_of_under {before after : Documents} (keyed : before.Keyed) (keyed' : after.Keyed)
    {key : DocumentKey} {c : Change} (made : under before after key = some c) :
    c.document.key = key := by
  unfold under at made
  cases found : before[key]? with
  | none =>
    cases found' : after[key]? with
    | none => rw [found, found'] at made; exact nomatch made
    | some d =>
      rw [found, found'] at made
      obtain rfl := Option.some.inj made
      exact keyed' key d found'
  | some known =>
    cases found' : after[key]? with
    | none =>
      rw [found, found'] at made
      obtain rfl := Option.some.inj made
      exact keyed key known found
    | some d =>
      rw [found, found'] at made
      obtain ⟨_, _, rfl⟩ := Option.map_eq_some_iff.mp made
      exact keyed' key d found'

/-- Without a change under a key, the states are the same there. -/
theorem rel_of_under {before after : Documents} (keyed : before.Keyed) (keyed' : after.Keyed)
    {key : DocumentKey} (unchanged : under before after key = none) :
    Option.Rel (fun x y : Document => x.same y = true) before[key]? after[key]? := by
  unfold under at unchanged
  cases found : before[key]? with
  | none =>
    cases found' : after[key]? with
    | none => exact .none
    | some d => rw [found, found'] at unchanged; exact nomatch unchanged
  | some known =>
    cases found' : after[key]? with
    | none => rw [found, found'] at unchanged; exact nomatch unchanged
    | some d =>
      rw [found, found'] at unchanged
      have own : known.key = d.key := (keyed key known found).trans (keyed' key d found').symm
      exact .some (same_of_kindBetween own (Option.map_eq_none_iff.mp unchanged))

end Change

namespace Target

/-- The keys at which two sets may differ, each once. -/
def keysOf (before after : Documents) : List DocumentKey :=
  after.keys ++ before.keys.filter fun key => !after.contains key

theorem nodup_keysOf (before after : Documents) : (keysOf before after).Nodup := by
  refine List.nodup_append.mpr ⟨ExtTreeMap.nodup_keys, ExtTreeMap.nodup_keys.filter _, ?_⟩
  rintro key here _ there rfl
  have absent : after.contains key = false := by simpa using (List.mem_filter.mp there).2
  have present := ExtTreeMap.mem_iff_contains.mp (ExtTreeMap.mem_keys.mp here)
  exact absurd (absent.symm.trans present) Bool.false_ne_true

/-- The changes are those under all the keys, in order. -/
theorem changes_eq (t : Target) (before after : Documents) :
    t.changes before after = sortBy (fun a b => t.before a.document b.document)
      ((keysOf before after).filterMap (Change.under before after)) := by
  have kept : after.toList.filterMap (fun entry => Change.between before[entry.1]? (some entry.2)) =
      after.keys.filterMap (Change.under before after) := by
    rw [← ExtTreeMap.map_fst_toList_eq_keys, List.filterMap_map]
    apply List.filterMap_congr
    intro entry member
    rw [Function.comp, Change.under, ExtTreeMap.mem_toList_iff_getElem?_eq_some.mp member]
  have left : before.toList.filterMap (fun entry =>
        if after.contains entry.1 then none else Change.between (some entry.2) none) =
      (before.keys.filter fun key => !after.contains key).filterMap
        (Change.under before after) := by
    rw [← ExtTreeMap.map_fst_toList_eq_keys, List.filter_map, List.filterMap_map,
      List.filterMap_filter]
    apply List.filterMap_congr
    intro entry member
    simp only [Function.comp]
    cases held : after.contains entry.1 with
    | true => simp
    | false =>
      have absent : after[entry.1]? = none := by
        rwa [ExtTreeMap.contains_eq_isSome_getElem?, Option.isSome_eq_false_iff,
          Option.isNone_iff_eq_none] at held
      simp only [Bool.false_eq_true, if_false, Bool.not_false, if_true]
      rw [Change.under, ExtTreeMap.mem_toList_iff_getElem?_eq_some.mp member, absent]
  rw [keysOf, List.filterMap_append, ← kept, ← left]
  rfl

/-- There is a change exactly where the sets differ. -/
theorem mem_changes {t : Target} {before after : Documents} {c : Change} :
    c ∈ t.changes before after ↔ ∃ key, Change.under before after key = some c := by
  rw [changes_eq, (perm_sortBy _ _).mem_iff, List.mem_filterMap]
  constructor
  · rintro ⟨key, -, made⟩
    exact ⟨key, made⟩
  · rintro ⟨key, made⟩
    refine ⟨key, ?_, made⟩
    by_cases held : key ∈ after
    · exact List.mem_append_left _ (ExtTreeMap.mem_keys.mpr held)
    · refine List.mem_append_right _ (List.mem_filter.mpr ⟨ExtTreeMap.mem_keys.mpr ?_, ?_⟩)
      · rw [ExtTreeMap.mem_iff_isSome_getElem?, Option.isSome_iff_ne_none]
        intro absent
        rw [Change.under, absent, ExtTreeMap.getElem?_eq_none held] at made
        exact nomatch made
      · rwa [Bool.not_eq_true', ← Bool.not_eq_true, ← ExtTreeMap.mem_iff_contains]

/-- Among keyed sets a change is found under the key of its document. -/
theorem mem_changes_iff {t : Target} {before after : Documents} (keyed : before.Keyed)
    (keyed' : after.Keyed) {c : Change} :
    c ∈ t.changes before after ↔
      Change.between before[c.document.key]? after[c.document.key]? = some c := by
  rw [mem_changes]
  constructor
  · rintro ⟨key, made⟩
    rw [Change.key_of_under keyed keyed' made]
    exact made
  · exact fun made => ⟨_, made⟩

/-- There is at most one change for each key. -/
theorem distinct_changes (t : Target) {before after : Documents} (keyed : before.Keyed)
    (keyed' : after.Keyed) :
    (t.changes before after).Pairwise fun a b => a.document.key ≠ b.document.key := by
  rw [changes_eq, (perm_sortBy _ _).pairwise_iff fun differ => differ.symm, List.pairwise_filterMap]
  apply (nodup_keysOf before after).imp
  intro key other differ c made d made'
  rwa [Change.key_of_under keyed keyed' made, Change.key_of_under keyed keyed' made']

/-- Applied to the result before, the changes give the result after. -/
theorem changes_replay (t : Target) {before after : Documents} (keyed : before.Keyed)
    (keyed' : after.Keyed) :
    ∃ held, Change.replayAll? before (t.changes before after) = some held ∧ held.Agrees after := by
  have made : ∀ c ∈ t.changes before after,
      Change.between before[c.document.key]? after[c.document.key]? = some c :=
    fun c member => (mem_changes_iff keyed keyed').mp member
  obtain ⟨held, applied, reached, untouched⟩ :=
    Change.replayAll?_between (t.distinct_changes keyed keyed') made
  refine ⟨held, applied, fun key => ?_⟩
  cases changed : Change.under before after key with
  | some c =>
    have own := Change.key_of_under keyed keyed' changed
    have there := reached c (mem_changes.mpr ⟨key, changed⟩)
    rw [own] at there
    rw [there]
    exact Documents.Agrees.refl after key
  | none =>
    rw [untouched key]
    · exact Change.rel_of_under keyed keyed' changed
    · rintro c member rfl
      exact nomatch changed.symm.trans (made c member)

/-- Two results without a change between them agree. -/
theorem agrees_of_changes_eq_nil (t : Target) {before after : Documents} (keyed : before.Keyed)
    (keyed' : after.Keyed) (unchanged : t.changes before after = []) : before.Agrees after := by
  obtain ⟨held, applied, agrees⟩ := t.changes_replay keyed keyed'
  rw [unchanged] at applied
  exact Option.some.inj applied ▸ agrees

/-- Where two results agree there is no change between them. -/
theorem changes_eq_nil_of_agrees (t : Target) {before after : Documents}
    (agrees : before.Agrees after) : t.changes before after = [] := by
  apply List.eq_nil_iff_forall_not_mem.mpr
  intro c member
  obtain ⟨key, made⟩ := mem_changes.mp member
  rw [Change.under, Change.between_of_same (agrees key)] at made
  cases made

end Target

/-- Sorting by a part of the items is sorting the parts. -/
theorem sortBy_map {α β : Type} (before : β → β → Bool) (part : α → β) (whole : β → α)
    (inverse : ∀ b, part (whole b) = b) (items : List β) :
    sortBy (fun a b => before (part a) (part b)) (items.map whole) =
      (sortBy before items).map whole := by
  have inserted (item : β) (items : List β) :
      insertBy (fun a b => before (part a) (part b)) (whole item) (items.map whole) =
        (insertBy before item items).map whole := by
    induction items with
    | nil => rfl
    | cons other rest ih =>
      simp only [List.map_cons, insertBy, inverse, ih]
      split <;> rfl
  induction items with
  | nil => rfl
  | cons item rest ih => rw [List.map_cons, sortBy, ih, inserted, sortBy]

namespace Target

/-- From nothing, every document of the result is added, in the order of the result. -/
theorem changes_from_nothing (t : Target) (after : Documents) :
    t.changes ∅ after = (t.sorted after).map (⟨.added, ·⟩) := by
  have added : after.toList.filterMap
      (fun entry => Change.between (∅ : Documents)[entry.1]? (some entry.2)) =
        after.list.map (⟨.added, ·⟩) := by
    rw [Documents.list, List.map_map, ← List.filterMap_eq_map]
    exact List.filterMap_congr fun entry _ => by simp [Change.between]
  have unfolded : t.changes ∅ after = sortBy (fun a b => t.before a.document b.document)
      (after.toList.filterMap
        (fun entry => Change.between (∅ : Documents)[entry.1]? (some entry.2)) ++ []) := rfl
  rw [unfolded, List.append_nil, added]
  exact sortBy_map t.before Change.document (Change.mk .added) (fun _ => rfl) after.list

end Target

end LiveQuery
