import LiveQuery.Proofs.ResultChanges
import Mathlib.Data.List.Sort

/-!
# The changes that a listener is told

What can be said about the difference between two results is said completely:
each key at which they differ is told once, no other key is told, the kind of
the change follows from the two states of the key, and the changes replay from
the one result to the other. They stand strictly in the order of the target, a
document that left where its old state stood. Only one list is like that, so the
description can take the place of the computation.
-/

namespace LiveQuery

open Std

/-- Two sets hold equal documents under a key, or both hold none there. -/
def Documents.AgreesAt (a b : Documents) (key : DocumentKey) : Prop :=
  Option.Rel (fun x y : Document => x.same y = true) a[key]? b[key]?

namespace Change

/-- A document that is in both results is neither added nor removed. -/
theorem kindBetween_ne (known d : Document) :
    kindBetween known d ≠ some .added ∧ kindBetween known d ≠ some .removed := by
  refine ⟨fun added => ?_, fun removed => ?_⟩
  · rcases kindBetween_cases added with other | other <;> cases other
  · rcases kindBetween_cases removed with other | other <;> cases other

/-- A document is added if there was none. -/
theorem between_eq_added {before after : Option Document} {d : Document} :
    between before after = some ⟨.added, d⟩ ↔ before = none ∧ after = some d := by
  cases before with
  | none => cases after <;> simp [between]
  | some known =>
    cases after with
    | none => simp [between]
    | some next => simp [between, kindBetween_ne known next]

/-- A document is removed if there is none left. What is told is the old one. -/
theorem between_eq_removed {before after : Option Document} {d : Document} :
    between before after = some ⟨.removed, d⟩ ↔ before = some d ∧ after = none := by
  cases before with
  | none => cases after <;> simp [between]
  | some known =>
    cases after with
    | none => simp [between]
    | some next => simp [between, kindBetween_ne known next]

/-- A document that is in both results is told with what became of it. -/
theorem between_eq_kept {before after : Option Document} {d : Document} (kind : ChangeKind)
    (not_added : kind ≠ .added) (not_removed : kind ≠ .removed) :
    between before after = some ⟨kind, d⟩ ↔
      ∃ known, before = some known ∧ after = some d ∧ kindBetween known d = some kind := by
  cases before with
  | none => cases after <;> simp [between, not_added.symm]
  | some known =>
    cases after with
    | none => simp [between, not_removed.symm]
    | some next =>
      simp only [between, Option.map_eq_some_iff, Change.mk.injEq, Option.some.injEq]
      constructor
      · rintro ⟨_, changed, rfl, rfl⟩
        exact ⟨known, rfl, rfl, changed⟩
      · rintro ⟨_, rfl, rfl, changed⟩
        exact ⟨kind, changed, rfl, rfl⟩

/-- Only the mark changed: the contents are the same. -/
theorem kindBetween_eq_metadata {known d : Document} :
    kindBetween known d = some .metadata ↔
      known.sameContents d = true ∧ known.hasLocalWrites ≠ d.hasLocalWrites := by
  unfold kindBetween
  split
  case isTrue differ => simp_all
  case isFalse contents =>
    split
    case isTrue marks => simp_all
    case isFalse marks => split <;> simp_all

/-- What differs otherwise is modified. -/
theorem kindBetween_eq_modified {known d : Document} (own : known.key = d.key) :
    kindBetween known d = some .modified ↔ known.same d = false ∧
      ¬(known.sameContents d = true ∧ known.hasLocalWrites ≠ d.hasLocalWrites) := by
  rw [← kindBetween_eq_metadata]
  constructor
  · intro changed
    refine ⟨?_, by simp [changed]⟩
    rw [Bool.eq_false_iff]
    intro same
    exact nomatch (kindBetween_of_same same).symm.trans changed
  · rintro ⟨differ, other⟩
    cases changed : kindBetween known d with
    | none => exact absurd (same_of_kindBetween own changed) (by simp [differ])
    | some kind =>
      rcases kindBetween_cases changed with rfl | rfl
      · rfl
      · exact absurd changed other

end Change

namespace Target

/-- A list of changes tells the difference between two sets of documents, exactly and in the order
    of the target. -/
structure Tells (t : Target) (before after : Documents) (changes : List Change) : Prop where
  /-- No key is told twice. -/
  once : (changes.map (·.document.key)).Nodup
  /-- The keys that are told are those at which the sets differ. -/
  listed : ∀ key, (∃ c ∈ changes, c.document.key = key) ↔ ¬before.AgreesAt after key
  /-- The changes lead from the one set to the other. -/
  replays : ∃ held, Change.replayAll? before changes = some held ∧ held.Agrees after
  added : ∀ d, ⟨.added, d⟩ ∈ changes ↔ before[d.key]? = none ∧ after[d.key]? = some d
  removed : ∀ d, ⟨.removed, d⟩ ∈ changes ↔ before[d.key]? = some d ∧ after[d.key]? = none
  metadata : ∀ d, ⟨.metadata, d⟩ ∈ changes ↔
    ∃ known, before[d.key]? = some known ∧ after[d.key]? = some d ∧
      known.sameContents d = true ∧ known.hasLocalWrites ≠ d.hasLocalWrites
  modified : ∀ d, ⟨.modified, d⟩ ∈ changes ↔
    ∃ known, before[d.key]? = some known ∧ after[d.key]? = some d ∧ known.same d = false ∧
      ¬(known.sameContents d = true ∧ known.hasLocalWrites ≠ d.hasLocalWrites)
  ordered : changes.Pairwise fun a b => t.compare a.document b.document = .lt

/-- The changes are in strict order: they were sorted, and their keys differ. -/
theorem changes_strict (t : Target) {before after : Documents} (keyed : before.Keyed)
    (keyed' : after.Keyed) :
    (t.changes before after).Pairwise fun a b => t.compare a.document b.document = .lt := by
  have distinct := t.distinct_changes keyed keyed'
  rw [changes_eq] at distinct ⊢
  have sorted := pairwise_sortBy (fun a b : Change => t.before_total a.document b.document)
    (fun a b c => t.before_trans a.document b.document c.document)
    ((keysOf before after).filterMap (Change.under before after))
  exact (sorted.and distinct).imp fun pair => lt_of_before pair.1 pair.2

/-- The computed changes tell the difference. -/
theorem tells_changes (t : Target) {before after : Documents} (keyed : before.Keyed)
    (keyed' : after.Keyed) : t.Tells before after (t.changes before after) where
  once := by
    rw [List.Nodup, List.pairwise_map]
    exact t.distinct_changes keyed keyed'
  listed key := by
    constructor
    · rintro ⟨c, member, rfl⟩ same
      have made := (mem_changes_iff keyed keyed').mp member
      rw [Change.between_of_same same] at made
      exact nomatch made
    · intro differ
      cases changed : Change.under before after key with
      | none => exact absurd (Change.rel_of_under keyed keyed' changed) differ
      | some c =>
        exact ⟨c, mem_changes.mpr ⟨key, changed⟩, Change.key_of_under keyed keyed' changed⟩
  replays := t.changes_replay keyed keyed'
  added d := by rw [mem_changes_iff keyed keyed', Change.between_eq_added]
  removed d := by rw [mem_changes_iff keyed keyed', Change.between_eq_removed]
  metadata d := by
    rw [mem_changes_iff keyed keyed', Change.between_eq_kept .metadata nofun nofun]
    simp only [Change.kindBetween_eq_metadata]
  modified d := by
    rw [mem_changes_iff keyed keyed', Change.between_eq_kept .modified nofun nofun]
    refine exists_congr fun known => and_congr_right fun held => and_congr_right fun _ => ?_
    exact Change.kindBetween_eq_modified (keyed d.key known held)
  ordered := t.changes_strict keyed keyed'

/-- The sets decide which changes are told. -/
theorem Tells.mem_iff {t : Target} {before after : Documents} {first second : List Change}
    (told : t.Tells before after first) (again : t.Tells before after second) (c : Change) :
    c ∈ first ↔ c ∈ second := by
  obtain ⟨kind, d⟩ := c
  cases kind with
  | added => rw [told.added, again.added]
  | modified => rw [told.modified, again.modified]
  | removed => rw [told.removed, again.removed]
  | metadata => rw [told.metadata, again.metadata]

/-- Nothing else tells the difference: the strict order leaves one list for one set of changes. -/
theorem Tells.unique {t : Target} {before after : Documents} {first second : List Change}
    (told : t.Tells before after first) (again : t.Tells before after second) :
    first = second := by
  have asymm : Std.Asymm fun a b : Change => t.compare a.document b.document = .lt := by
    constructor
    intro a b less more
    rw [← t.compare_swap a.document b.document, less] at more
    exact nomatch more
  exact told.ordered.eq_of_mem_iff again.ordered (told.mem_iff again)

/-- What a listener is told between two replicas, for every target. While the new replica is not
    initialized, nothing is said; otherwise the one list that tells the difference between the two
    results, of which the old one is empty if the old replica was not initialized. -/
theorem changesBetween_exact (t : Target) (old new : Replica) :
    (t.changesBetween? old new = none ↔ new.initialized = false) ∧
      (old.initialized = false → old.result t = ∅) ∧
      ∀ changes, t.changesBetween? old new = some changes ↔
        new.initialized = true ∧ t.Tells (old.result t) (new.result t) changes := by
  have told := t.tells_changes (old.keyed_result t) (new.keyed_result t)
  refine ⟨?_, fun blank => by simp [Replica.result, blank], fun changes => ?_⟩
  · simp [changesBetween?]
  · rw [changesBetween?, Option.ite_none_right_eq_some, Option.some.injEq]
    refine and_congr_right fun _ => ⟨fun same => same ▸ told, told.unique⟩

end Target

/-- Which documents the two results are about: of those that a replica holds, each under its own
    key, the result has the ones that exist and belong to the target, and no others. It has none
    before the replica is initialized. -/
theorem Replica.getElem?_result {r : Replica} (keyed : r.documents.Keyed) (t : Target)
    (key : DocumentKey) (d : Document) :
    (r.result t)[key]? = some d ↔ r.initialized = true ∧ r.documents[key]? = some d ∧
      d.key = key ∧ d.isPresent = true ∧ t.selects d = true := by
  have kept : Documents.Keyed (r.documents.filter fun _ d => t.selects d) := by
    intro key d found
    rw [ExtTreeMap.getElem?_filter', Option.filter_eq_some_iff] at found
    exact keyed key d found.1
  unfold result
  split
  case isTrue initialized =>
    rw [← Documents.list_filter, kept.ofList_perm (.refl _), ExtTreeMap.getElem?_filter',
      Option.filter_eq_some_iff]
    constructor
    · rintro ⟨held, selected⟩
      have present : d.isPresent = true := (Bool.and_eq_true_iff.mp selected).1
      exact ⟨initialized, held, keyed key d held, present, selected⟩
    · rintro ⟨-, held, -, -, selected⟩
      exact ⟨held, selected⟩
  case isFalse blank => simp [blank]

end LiveQuery
