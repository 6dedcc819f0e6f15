import LiveQuery.WriteQueue
import Mathlib.Data.List.Basic

/-!
# The writes of a queue

What a queue shows of a document depends on nothing but the queued writes to its
key, in order, each with what the server has said of its batch. An operation on
the queue leaves the writes to every other key alone: only the keys of the
batches that it hands back are concerned.

Every batch has a number below the next one. A batch that is queued and taken
back at once is therefore the only one with its number, and the queue is what it
was before.
-/

namespace LiveQuery

open Std

/-- A write with what the server has said about its batch. -/
abbrev MarkedWrite := WriteStatus × Mutation

/-- The writes of a batch to a key, in the order of the batch. -/
def QueuedWrite.writesTo (w : QueuedWrite) (key : DocumentKey) : List MarkedWrite :=
  (w.batch.mutations.filter (·.key == key)).map (w.status, ·)

/-- A batch writes to its own keys only. -/
theorem QueuedWrite.writesTo_eq_nil {w : QueuedWrite} {key : DocumentKey} :
    w.writesTo key = [] ↔ key ∉ w.batch.keys := by
  simp [writesTo, MutationBatch.keys, List.filter_eq_nil_iff]

namespace WriteQueue

/-- The writes of queued batches to a key, batch by batch. -/
def writesIn (entries : List QueuedWrite) (key : DocumentKey) : List MarkedWrite :=
  entries.flatMap (·.writesTo key)

/-- Every queued write to a key. -/
def writesOn (q : WriteQueue) (key : DocumentKey) : List MarkedWrite := writesIn q.entries key

/-- The overlay lays the writes to the key one after the other. -/
theorem overlay_eq_foldl (q : WriteQueue) (key : DocumentKey) (base : Option Document) :
    q.overlay key base =
      (q.writesOn key).foldl (fun d write => write.1.lay d write.2) base := by
  rw [overlay, writesOn, writesIn, List.foldl_flatMap]
  simp only [QueuedWrite.writesTo, List.foldl_map]
  rfl

/-- A document is overwritten if one of the writes to it is more than a patch. -/
theorem overwrites_eq_any (q : WriteQueue) (key : DocumentKey) :
    q.overwrites key = (q.writesOn key).any (·.2.kind != .patch) := by
  rw [overwrites, writesOn, writesIn, List.any_flatMap]
  simp only [QueuedWrite.writesTo, List.any_map, List.any_filter]
  rfl

/-- The keys of the queue are those that are written. -/
theorem mem_keys (q : WriteQueue) (key : DocumentKey) : key ∈ q.keys ↔ q.writesOn key ≠ [] := by
  have member : key ∈ q.keys ↔ key ∈ q.entries.flatMap (·.batch.keys) := by
    rw [keys, ExtTreeSet.mem_ofList, List.contains_iff_mem]
  rw [member, writesOn, writesIn, ne_eq, List.flatMap_eq_nil_iff]
  simp [QueuedWrite.writesTo_eq_nil]

/-- Every batch has a number that was given out before. -/
def Numbered (q : WriteQueue) : Prop := ∀ w ∈ q.entries, w.batch.id.val < q.nextId

/-- The numbers are as good as before where no batch is new. -/
theorem Numbered.of_batches {q after : WriteQueue} (numbered : q.Numbered)
    (kept : ∀ w ∈ after.entries, ∃ old ∈ q.entries, old.batch = w.batch)
    (next : q.nextId ≤ after.nextId) : after.Numbered := by
  intro w member
  obtain ⟨old, queued, same⟩ := kept w member
  exact Nat.lt_of_lt_of_le (same ▸ numbered old queued) next

/-- The next number is past every number of a restored batch. -/
theorem numbered_ofBatches (batches : List MutationBatch) : (ofBatches batches).Numbered := by
  intro w member
  obtain ⟨batch, sorted, rfl⟩ := List.mem_map.mp member
  have restored : batch ∈ batches := (perm_sortBy _ batches).mem_iff.mp sorted
  have counted : batch.id.val + 1 ∈ batches.map fun b => b.id.val + 1 :=
    List.mem_map_of_mem restored
  change batch.id.val < ((batches.map fun b => b.id.val + 1).max?).getD 1
  cases largest : (batches.map fun b => b.id.val + 1).max? with
  | none =>
    rw [List.max?_eq_none_iff.mp largest] at counted
    exact absurd counted List.not_mem_nil
  | some top => exact (List.max?_eq_some_iff.mp largest).2 _ counted

/-- The commit goes to the first batch that awaits it. -/
theorem commitIn_split {id : BatchId} (commit : Version) {before : List QueuedWrite}
    (passed : ∀ other ∈ before, !other.awaits id) {w : QueuedWrite} (awaited : w.awaits id)
    (rest : List QueuedWrite) :
    commitIn id commit (before ++ w :: rest) =
      before ++ { w with status := .acknowledged commit } :: rest := by
  induction before with
  | nil => simp [commitIn, awaited]
  | cons other before ih =>
    have idle : other.awaits id = false := by simpa using passed other List.mem_cons_self
    simp only [List.cons_append, commitIn, idle, Bool.false_eq_true, if_false]
    rw [ih fun w member => passed w (List.mem_cons_of_mem _ member)]

/-- An acknowledgement splits the queue at the batch that it decides on. -/
theorem acknowledge_cases {q after : WriteQueue} {id : BatchId} {commit : Version}
    {batch : MutationBatch} (done : q.acknowledge? id commit = some (batch, after)) :
    ∃ before w rest, q.entries = before ++ w :: rest ∧ (∀ other ∈ before, !other.awaits id) ∧
      w.awaits id ∧ w.batch = batch ∧
      after = { q with
        entries := before ++ { w with status := .acknowledged commit } :: rest } := by
  obtain ⟨w, found, decided⟩ := Option.map_eq_some_iff.mp done
  obtain ⟨rfl, rfl⟩ := Prod.mk.inj decided
  obtain ⟨awaited, before, rest, split, passed⟩ := List.find?_eq_some_iff_append.mp found
  refine ⟨before, w, rest, split, passed, awaited, rfl, ?_⟩
  rw [split, commitIn_split commit passed awaited]

/-- A rejection takes one batch out of the queue. -/
theorem reject_cases {q after : WriteQueue} {id : BatchId} {batch : MutationBatch}
    (done : q.reject? id = some (batch, after)) :
    ∃ before w rest, q.entries = before ++ w :: rest ∧ w.awaits id ∧ w.batch = batch ∧
      after = { q with entries := before ++ rest } := by
  obtain ⟨w, found, decided⟩ := Option.map_eq_some_iff.mp done
  obtain ⟨rfl, rfl⟩ := Prod.mk.inj decided
  obtain ⟨awaited, before, rest, split, passed⟩ := List.find?_eq_some_iff_append.mp found
  refine ⟨before, w, rest, split, awaited, rfl, ?_⟩
  have passed : ∀ other ∈ before, ¬other.awaits id = true := by simpa using passed
  have taken : (w :: rest).eraseP (·.awaits id) = rest := List.eraseP_cons_of_pos awaited
  rw [split, List.eraseP_append_right _ passed, taken]

/-- Acknowledging a batch concerns the keys of the batch. -/
theorem writesOn_acknowledge {q after : WriteQueue} {id : BatchId} {commit : Version}
    {batch : MutationBatch} (done : q.acknowledge? id commit = some (batch, after))
    {key : DocumentKey} (other : key ∉ batch.keys) : after.writesOn key = q.writesOn key := by
  obtain ⟨before, w, rest, split, -, -, rfl, rfl⟩ := acknowledge_cases done
  have old : w.writesTo key = [] := QueuedWrite.writesTo_eq_nil.mpr other
  have new : ({ w with status := .acknowledged commit } : QueuedWrite).writesTo key = [] :=
    QueuedWrite.writesTo_eq_nil.mpr other
  simp [writesOn, writesIn, split, old, new]

theorem Numbered.acknowledge {q after : WriteQueue} (numbered : q.Numbered) {id : BatchId}
    {commit : Version} {batch : MutationBatch}
    (done : q.acknowledge? id commit = some (batch, after)) : after.Numbered := by
  obtain ⟨before, w, rest, split, -, -, rfl, rfl⟩ := acknowledge_cases done
  refine numbered.of_batches ?_ (Nat.le_refl _)
  intro other member
  rw [split]
  rcases List.mem_append.mp member with early | late
  · exact ⟨other, List.mem_append_left _ early, rfl⟩
  · rcases List.mem_cons.mp late with rfl | late
    · exact ⟨w, by simp, rfl⟩
    · exact ⟨other, by simp [late], rfl⟩

/-- Rejecting a batch concerns the keys of the batch. -/
theorem writesOn_reject {q after : WriteQueue} {id : BatchId} {batch : MutationBatch}
    (done : q.reject? id = some (batch, after)) {key : DocumentKey} (other : key ∉ batch.keys) :
    after.writesOn key = q.writesOn key := by
  obtain ⟨before, w, rest, split, -, rfl, rfl⟩ := reject_cases done
  have old : w.writesTo key = [] := QueuedWrite.writesTo_eq_nil.mpr other
  simp [writesOn, writesIn, split, old]

theorem Numbered.reject {q after : WriteQueue} (numbered : q.Numbered) {id : BatchId}
    {batch : MutationBatch} (done : q.reject? id = some (batch, after)) : after.Numbered := by
  obtain ⟨before, w, rest, split, -, -, rfl⟩ := reject_cases done
  refine numbered.of_batches ?_ (Nat.le_refl _)
  intro other member
  have queued : other ∈ before ++ w :: rest := by
    rcases List.mem_append.mp member with early | late
    · exact List.mem_append_left _ early
    · exact List.mem_append_right _ (List.mem_cons_of_mem _ late)
  exact ⟨other, split ▸ queued, rfl⟩

/-- Queueing a batch concerns the keys of the batch. -/
theorem writesOn_append (q : WriteQueue) (mutations : List Mutation) {key : DocumentKey}
    (other : key ∉ (q.append mutations).1.keys) :
    (q.append mutations).2.writesOn key = q.writesOn key := by
  have new : ({ batch := (q.append mutations).1 } : QueuedWrite).writesTo key = [] :=
    QueuedWrite.writesTo_eq_nil.mpr other
  have entries : (q.append mutations).2.entries =
      q.entries ++ [{ batch := (q.append mutations).1 }] := rfl
  simp [writesOn, writesIn, entries, new]

theorem Numbered.append {q : WriteQueue} (numbered : q.Numbered) (mutations : List Mutation) :
    (q.append mutations).2.Numbered := by
  intro w member
  rcases List.mem_append.mp member with old | new
  · exact Nat.lt_succ_of_lt (numbered w old)
  · obtain rfl := List.mem_singleton.mp new
    exact Nat.lt_succ_self _

/-- A batch that is queued and taken back leaves nothing behind but its number. Every other batch
    has a smaller one. -/
theorem reject_append {q : WriteQueue} (numbered : q.Numbered) (mutations : List Mutation) :
    (q.append mutations).2.reject? (q.append mutations).1.id =
      some ((q.append mutations).1, { q with nextId := q.nextId + 1 }) := by
  let batch : MutationBatch := ⟨⟨q.nextId⟩, mutations⟩
  have passed : ∀ w ∈ q.entries, ¬w.awaits batch.id = true := by
    intro w member
    have differs : w.batch.id ≠ batch.id := by
      intro same
      have small := numbered w member
      rw [same] at small
      exact Nat.lt_irrefl _ small
    simp [QueuedWrite.awaits, differs]
  let w : QueuedWrite := { batch := batch }
  have awaited : w.awaits batch.id = true := by simp [w, QueuedWrite.awaits, QueuedWrite.isPending]
  have found : (q.entries ++ [w]).find? (·.awaits batch.id) = some w := by
    rw [List.find?_append, List.find?_eq_none.mpr passed, Option.none_or, List.find?_singleton,
      awaited, if_pos rfl]
  have taken : (q.entries ++ [w]).eraseP (·.awaits batch.id) = q.entries := by
    have last : [w].eraseP (·.awaits batch.id) = [] := List.eraseP_cons_of_pos awaited
    rw [List.eraseP_append_right _ passed, last, List.append_nil]
  have queued : (q.append mutations).2.entries = q.entries ++ [w] := rfl
  have own : (q.append mutations).1.id = batch.id := rfl
  rw [reject?, queued, own, found, Option.map_some, taken]
  rfl

/-- Releasing batches concerns the keys of those that are released. -/
theorem writesOn_release (q : WriteQueue) (version : Version) {key : DocumentKey}
    (others : ∀ batch ∈ (q.release version).1, key ∉ batch.keys) :
    (q.release version).2.writesOn key = q.writesOn key := by
  have untouched : ∀ w ∈ q.entries, w.isCaughtUpBy version = true → w.writesTo key = [] := by
    intro w member caught
    refine QueuedWrite.writesTo_eq_nil.mpr (others w.batch ?_)
    exact List.mem_map_of_mem (List.mem_filter.mpr ⟨member, caught⟩)
  change writesIn (q.entries.filter fun w => !w.isCaughtUpBy version) key = writesIn q.entries key
  generalize q.entries = entries at untouched
  induction entries with
  | nil => rfl
  | cons w rest ih =>
    have later := ih fun w member => untouched w (List.mem_cons_of_mem _ member)
    have first := untouched w List.mem_cons_self
    rw [List.filter_cons]
    split
    case isTrue => rw [writesIn, List.flatMap_cons, ← writesIn, later]; rfl
    case isFalse caught =>
      rw [later, writesIn, writesIn, List.flatMap_cons, first (by simpa using caught),
        List.nil_append]

theorem Numbered.release {q : WriteQueue} (numbered : q.Numbered) (version : Version) :
    (q.release version).2.Numbered :=
  numbered.of_batches (fun w member => ⟨w, (List.mem_filter.mp member).1, rfl⟩) (Nat.le_refl _)

/-- Whether a batch was sent matters to no write. -/
theorem writesIn_congr {first second : List QueuedWrite}
    (same : first.map (fun w => (w.batch, w.status)) = second.map fun w => (w.batch, w.status))
    (key : DocumentKey) : writesIn first key = writesIn second key := by
  have through (entries : List QueuedWrite) : writesIn entries key =
      (entries.map fun w => (w.batch, w.status)).flatMap fun w =>
        (w.1.mutations.filter (·.key == key)).map (w.2, ·) := by
    rw [List.flatMap_map]
    rfl
  rw [through, through, same]

theorem Numbered.congr {q after : WriteQueue} (numbered : q.Numbered)
    (same : after.entries.map (fun w => (w.batch, w.status)) =
      q.entries.map fun w => (w.batch, w.status))
    (next : after.nextId = q.nextId) : after.Numbered := by
  refine numbered.of_batches ?_ (Nat.le_of_eq next.symm)
  intro w member
  have here : (w.batch, w.status) ∈ after.entries.map fun w => (w.batch, w.status) :=
    List.mem_map_of_mem member
  rw [same] at here
  obtain ⟨old, queued, both⟩ := List.mem_map.mp here
  exact ⟨old, queued, (Prod.mk.inj both).1⟩

/-- Sending batches marks them and does nothing else. -/
theorem map_takeFrom (budget : Nat) (entries : List QueuedWrite) :
    (takeFrom budget entries).2.map (fun w => (w.batch, w.status)) =
      entries.map fun w => (w.batch, w.status) := by
  induction entries generalizing budget with
  | nil => cases budget <;> rfl
  | cons w rest ih =>
    cases budget with
    | zero => rfl
    | succ budget =>
      rw [takeFrom]
      split
      · simp only [List.map_cons, ih]
      · simp only [List.map_cons, ih]

/-- A new stream gets the batches again as they are. -/
theorem map_markAllUnsent (q : WriteQueue) :
    q.markAllUnsent.entries.map (fun w => (w.batch, w.status)) =
      q.entries.map fun w => (w.batch, w.status) := by
  simp [markAllUnsent, Function.comp_def]

end WriteQueue

end LiveQuery
