import LiveQuery.Proofs.ShownReplicas
import LiveQuery.RemoteEvent

/-!
# What an event makes of a replica

A snapshot says of every key of a target what becomes of it: a reset drops it, a
removal drops it, and an addition puts the reported state there unless a newer one
is known. All of this looks at the state of the one key alone, so the order in
which the keys are visited does not matter, and saying it again changes nothing.

Replicas are compared up to their editions, which only say who shares documents
with whom.
-/

namespace LiveQuery

open Std

/-- Two replicas hold the same under the same flags. Their editions may differ. -/
structure Replica.Alike (a b : Replica) : Prop where
  documents : b.documents = a.documents
  initialized : b.initialized = a.initialized
  filtered : b.filtered = a.filtered

namespace Replica.Alike

theorem refl (r : Replica) : r.Alike r := ⟨rfl, rfl, rfl⟩

/-- Alike replicas show the same. -/
theorem result {a b : Replica} (alike : a.Alike b) (t : Target) : b.result t = a.result t := by
  rw [Replica.result, Replica.result, alike.documents, alike.initialized]

end Replica.Alike

namespace RemoteEvent

/-- An event concerns the targets that it says something of, and those that it resets. -/
theorem mem_affected {e : RemoteEvent} {id : TargetId} :
    id ∈ e.affected ↔ id ∈ e.changes ∨ id ∈ e.resets := by
  rw [affected, ExtTreeSet.mem_ofList, List.contains_iff_mem, List.mem_append, ExtTreeMap.mem_keys,
    ExtTreeSet.mem_toList]

/-- The state of a key once its reported state is taken in, if there is one. A newer state that is
    known stays. -/
def updated (e : RemoteEvent) (key : DocumentKey) (known : Option Document) : Option Document :=
  match e.updates[key]? with
  | none => known
  | some d => if known.any fun old => decide (d.version < old.version) then known else some d

/-- What a change makes of the state of a key. -/
def stateUnder (e : RemoteEvent) (change : TargetChange) (key : DocumentKey)
    (known : Option Document) : Option Document :=
  let kept := if key ∈ change.removed.toList then none else known
  if key ∈ change.added.toList then e.updated key kept else kept

/-- What an event makes of the state of a key in the replica of a target. -/
def stateAfter (e : RemoteEvent) (id : TargetId) (key : DocumentKey) (known : Option Document) :
    Option Document :=
  let start := if e.resets.contains id then none else known
  match e.changes[id]? with
  | none => start
  | some change => e.stateUnder change key start

theorem getElem?_putUpdate (e : RemoteEvent) (documents : Documents) (key other : DocumentKey) :
    (e.putUpdate documents key)[other]? =
      if key = other then e.updated other documents[other]? else documents[other]? := by
  by_cases same : key = other
  · subst same
    rw [if_pos rfl, putUpdate, updated]
    cases e.updates[key]? with
    | none => rfl
    | some d =>
      dsimp only
      split
      · rfl
      · exact ExtTreeMap.getElem?_insert_self
  · have apart : ¬compare key other = .eq := fun equal => same (LawfulEqOrd.eq_of_compare equal)
    rw [if_neg same, putUpdate]
    cases e.updates[key]? with
    | none => rfl
    | some d =>
      dsimp only
      split
      · rfl
      · rw [ExtTreeMap.getElem?_insert, if_neg apart]

/-- The documents after an event, key by key. -/
theorem getElem?_documentsAfter (e : RemoteEvent) (id : TargetId) (before : Documents)
    (key : DocumentKey) :
    (e.documentsAfter id before)[key]? = e.stateAfter id key before[key]? := by
  have erased (documents : Documents) (key other : DocumentKey) :
      (documents.erase key)[other]? = if key = other then none else documents[other]? := by
    simp [ExtTreeMap.getElem?_erase]
  have start : (if e.resets.contains id then (∅ : Documents) else before)[key]? =
      if e.resets.contains id then none else before[key]? := by
    split
    · exact ExtTreeMap.getElem?_empty
    · rfl
  rw [documentsAfter, stateAfter]
  cases e.changes[id]? with
  | none => exact start
  | some change =>
    dsimp only
    rw [getElem?_foldl e.updated e.getElem?_putUpdate (nodup_toList _),
      getElem?_foldl (fun _ _ => none) erased (nodup_toList _), start]
    rfl

/-- A reported state that is taken in twice is taken in once. -/
theorem updated_updated (e : RemoteEvent) (key : DocumentKey) (known : Option Document) :
    e.updated key (e.updated key known) = e.updated key known := by
  unfold updated
  cases e.updates[key]? with
  | none => rfl
  | some d =>
    have itself : ¬d.version < d.version := Nat.lt_irrefl _
    by_cases newer : (known.any fun old => decide (d.version < old.version)) = true
    · simp only [if_pos newer]
    · simp only [if_neg newer, Option.any_some, itself, decide_false, Bool.false_eq_true, if_false]

/-- An event makes of a state what it makes of it at once, however often it comes. -/
theorem stateAfter_stateAfter (e : RemoteEvent) (id : TargetId) (key : DocumentKey)
    (known : Option Document) :
    e.stateAfter id key (e.stateAfter id key known) = e.stateAfter id key known := by
  have under (change : TargetChange) (known : Option Document) :
      e.stateUnder change key (e.stateUnder change key known) = e.stateUnder change key known := by
    unfold stateUnder
    by_cases removed : key ∈ change.removed.toList
    · simp only [if_pos removed]
    · by_cases added : key ∈ change.added.toList
      · simp only [if_neg removed, if_pos added, updated_updated]
      · simp only [if_neg removed, if_neg added]
  unfold stateAfter
  by_cases reset : e.resets.contains id = true
  · simp only [if_pos reset]
  · simp only [if_neg reset]
    cases e.changes[id]? with
    | none => rfl
    | some change => exact under change known

/-- A target that an event completes stays complete when the event comes again. -/
theorem initializedAfter_initializedAfter (e : RemoteEvent) (id : TargetId) (before : Bool) :
    e.initializedAfter id (e.initializedAfter id before) = e.initializedAfter id before := by
  unfold initializedAfter
  cases e.changes[id]?.any (·.current) <;> cases e.resets.contains id <;> rfl

/-- A replica into which an event was taken holds the same after the event is taken in again. -/
theorem alike_applyTo (e : RemoteEvent) (id : TargetId) (filtered : Bool) {server again : Replica}
    (first second third : Nat)
    (alike : (e.applyTo id filtered server first).Alike again) :
    (e.applyTo id filtered server second).Alike (e.applyTo id filtered again third) where
  documents := by
    apply ExtTreeMap.ext_getElem?
    intro key
    rw [applyTo, applyTo, getElem?_documentsAfter, getElem?_documentsAfter, alike.documents,
      applyTo, getElem?_documentsAfter, stateAfter_stateAfter]
  initialized := by
    rw [applyTo, applyTo, alike.initialized]
    exact e.initializedAfter_initializedAfter id server.initialized
  filtered := rfl

end RemoteEvent

/-- What is shown over alike replicas of the server is alike. -/
theorem Replicas.ShowOver.alike {r s : Replicas} {t : Target} {q : WriteQueue}
    (shows : r.ShowOver t q) (shows' : s.ShowOver t q) (server : r.server.Alike s.server) :
    r.shown.Alike s.shown where
  documents := by
    apply ExtTreeMap.ext_getElem?
    intro key
    by_cases laid : t.covers key ∧ q.Writes key
    · rw [shows.written key laid.1 laid.2, shows'.written key laid.1 laid.2, server.documents]
    · rw [shows.untouched key laid, shows'.untouched key laid, server.documents]
  initialized := by
    rw [Bool.eq_iff_iff, shows.initialized, shows'.initialized, server.initialized]
  filtered := by rw [shows.filtered, shows'.filtered]

end LiveQuery
