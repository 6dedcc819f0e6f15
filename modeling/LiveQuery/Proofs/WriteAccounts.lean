import LiveQuery.Proofs.WriteLedger
import LiveQuery.Session

/-!
# Accounts that balance

An engine answers for the batches that it found in its store and for those that
it accepted. At any time each of them is either stored without a decision, and
then it is pending in the queue, or has one recorded decision, and no other batch
has either. One entry of the ledger keeps this up, so a whole session does, as
long as nobody else writes to the store and every decision can be recorded.
-/

namespace LiveQuery

open Std

/-- Every batch is stored under its own number. -/
def Store.Keyed (s : Store) : Prop :=
  ∀ (id : BatchId) (batch : MutationBatch), s.pending[id]? = some batch → batch.id = id

namespace Store

/-- Storing a batch under its own number keeps all of them under theirs. -/
theorem Keyed.insert {s : Store} (keyed : s.Keyed) (batch : MutationBatch) :
    Keyed { s with pending := s.pending.insert batch.id batch } := by
  intro id other there
  rw [ExtTreeMap.getElem?_insert] at there
  split at there
  case isTrue same => exact Option.some.inj there ▸ LawfulEqOrd.eq_of_compare same
  case isFalse => exact keyed id other there

theorem mem_undecided {s : Store} (keyed : s.Keyed) {batch : MutationBatch} :
    batch ∈ s.undecided ↔ s.pending[batch.id]? = some batch := by
  rw [undecided, List.mem_map]
  constructor
  · rintro ⟨⟨id, other⟩, listed, rfl⟩
    have there := ExtTreeMap.mem_toList_iff_getElem?_eq_some.mp listed
    exact keyed id other there ▸ there
  · exact fun there =>
      ⟨(batch.id, batch), ExtTreeMap.mem_toList_iff_getElem?_eq_some.mpr there, rfl⟩

/-- The store lists its batches in the order of their numbers. -/
theorem ordered_undecided {s : Store} (keyed : s.Keyed) :
    s.undecided.Pairwise fun a b => a.id.val < b.id.val := by
  rw [undecided, List.pairwise_map]
  refine ExtTreeMap.ordered_keys_toList.imp_of_mem fun {a b} here there less => ?_
  rw [keyed a.1 a.2 (ExtTreeMap.mem_toList_iff_getElem?_eq_some.mp here),
    keyed b.1 b.2 (ExtTreeMap.mem_toList_iff_getElem?_eq_some.mp there)]
  exact Nat.compare_eq_lt.mp less

end Store

/-- Batches in the order of their numbers are queued in this order, and none is decided. -/
theorem WriteQueue.entries_ofBatches {batches : List MutationBatch}
    (ordered : batches.Pairwise fun a b => a.id.val < b.id.val) :
    (ofBatches batches).entries = batches.map ({ batch := · }) := by
  rw [ofBatches, sortBy_of_pairwise (ordered.imp fun less => decide_eq_true (Nat.le_of_lt less))]

theorem WriteQueue.pending_ofBatches {batches : List MutationBatch}
    (ordered : batches.Pairwise fun a b => a.id.val < b.id.val) :
    (ofBatches batches).pending = batches := by
  simp [pending, entries_ofBatches ordered, List.filter_map, Function.comp_def,
    QueuedWrite.isPending]

/-- A new engine has what its store holds undecided in its queue. -/
theorem Engine.ofStore_undecided {config : Config} {store : Store} {e : Engine}
    (read : ofStore config store = .ok e) :
    e = { config, store, stream := .ofConfig config.backoff
          queue := .ofBatches store.undecided } := by
  unfold ofStore Store.loadPending Store.attempt at read
  split at read
  case isTrue => cases read
  case isFalse => exact (Except.ok.inj read).symm

namespace Ledger

/-- An engine over the store that accepted batches answers for a batch. -/
def Known (store : Store) (accepted : List BatchId) (id : BatchId) : Prop :=
  id ∈ store.pending ∨ id ∈ accepted

/-- Balanced store accepted recorded l: an engine that found `store` and accepted batches since has
    recorded decisions, and its ledger agrees with that. -/
structure Balanced (store : Store) (accepted : List BatchId)
    (recorded : List (BatchId × WriteOutcome)) (l : Ledger) : Prop where
  ordered : l.queued.Pairwise fun a b => a.id.val < b.id.val
  numbered : ∀ batch ∈ l.queued, batch.id.val < l.nextId
  among : l.pending.Sublist l.queued
  stored : ∀ (id : BatchId) (batch : MutationBatch),
    l.stored[id]? = some batch ↔ batch ∈ l.pending ∧ batch.id = id
  issued : ∀ id, Known store accepted id → id.val < l.nextId
  fresh : accepted.Nodup
  newer : ∀ id ∈ accepted, ∀ old ∈ store.pending, old.val < id.val
  outcomes : l.outcomes = store.outcomes ++ recorded
  once : (recorded.map (·.1)).Nodup
  /-- Each batch is stored or decided. -/
  accounted : ∀ id, Known store accepted id ↔ id ∈ l.stored ∨ id ∈ recorded.map (·.1)
  /-- No batch is both. -/
  apart : ∀ id ∈ recorded.map (·.1), id ∉ l.stored
  awaited : ∀ id, id ∈ l.awaited ↔ id ∈ accepted ∧ id ∈ l.stored
  counted : l.submitted = accepted.length
  even : store.undecided.length + l.submitted = l.decided + l.pending.length
  records : StoreCall.saveOutcome ∉ l.failing

namespace Balanced

variable {store : Store} {accepted : List BatchId} {recorded : List (BatchId × WriteOutcome)}
  {l : Ledger}

/-- A batch is pending exactly if it is stored. -/
theorem mem_stored (b : Balanced store accepted recorded l) {id : BatchId} :
    id ∈ l.stored ↔ ∃ batch ∈ l.pending, batch.id = id := by
  rw [mem_iff_entry]
  exact exists_congr fun batch => b.stored id batch

/-- The store of an engine numbers its batches as it should. -/
theorem keyed {e : Engine} (b : Balanced store accepted recorded e.ledger) : e.store.Keyed :=
  fun id batch there => ((b.stored id batch).mp there).2

/-- No queued batch has a number that is still to be given out. -/
theorem numbered_queue {e : Engine} (b : Balanced store accepted recorded e.ledger) :
    e.queue.Numbered :=
  fun _ member => b.numbered _ (List.mem_map_of_mem member)

theorem ordered_pending (b : Balanced store accepted recorded l) :
    l.pending.Pairwise fun a b => a.id.val < b.id.val :=
  b.ordered.sublist b.among

/-- The store lists exactly the pending batches, and in the order of the queue: both lists are in
    the order of the numbers. -/
theorem undecided_eq {e : Engine} (b : Balanced store accepted recorded e.ledger) :
    e.store.undecided = e.queue.pending := by
  have distinct {batches : List MutationBatch}
      (ordered : batches.Pairwise fun a b => a.id.val < b.id.val) : batches.Nodup := by
    refine ordered.imp fun {a b} less same => ?_
    exact Nat.ne_of_lt less (congrArg (·.id.val) same)
  have stored := Store.ordered_undecided b.keyed
  refine List.Perm.eq_of_pairwise (fun _ _ _ _ less more => absurd less (Nat.lt_asymm more))
    stored b.ordered_pending ?_
  refine (List.perm_ext_iff_of_nodup (distinct stored) (distinct b.ordered_pending)).mpr
    fun batch => ?_
  rw [Store.mem_undecided b.keyed]
  exact (b.stored batch.id batch).trans (and_iff_left rfl)

theorem below (b : Balanced store accepted recorded l) {id : BatchId} (there : id ∈ l.stored) :
    id.val < l.nextId :=
  b.issued id ((b.accounted id).mpr (.inl there))

/-- The next number was never given out. -/
theorem unknown (b : Balanced store accepted recorded l) : ¬Known store accepted ⟨l.nextId⟩ :=
  fun known => Nat.lt_irrefl _ (b.issued _ known)

theorem accept (b : Balanced store accepted recorded l) (mutations : List Mutation) :
    Balanced store (⟨l.nextId⟩ :: accepted) recorded (l.accept mutations) := by
  have knows (id : BatchId) :
      Known store (⟨l.nextId⟩ :: accepted) id ↔ id = ⟨l.nextId⟩ ∨ Known store accepted id := by
    simp only [Known, List.mem_cons]
    exact or_left_comm
  have stores (id : BatchId) :
      id ∈ (l.accept mutations).stored ↔ id = ⟨l.nextId⟩ ∨ id ∈ l.stored := by
    rw [Ledger.accept, ExtTreeMap.mem_insert, LawfulEqOrd.compare_eq_iff_eq, eq_comm]
  have older (batch : MutationBatch) (pending : batch ∈ l.pending) : batch.id.val < l.nextId :=
    b.numbered batch (b.among.subset pending)
  refine
    { ordered := ?_, numbered := ?_, among := b.among.append (.refl _), stored := ?_, issued := ?_
      fresh := ?_, newer := ?_, outcomes := b.outcomes, once := b.once, accounted := ?_
      apart := ?_, awaited := ?_, counted := ?_, even := ?_, records := b.records }
  · refine List.pairwise_append.mpr ⟨b.ordered, List.pairwise_singleton _ _, ?_⟩
    intro batch queued new here
    rw [List.mem_singleton.mp here]
    exact b.numbered batch queued
  · intro batch queued
    rcases List.mem_append.mp queued with old | new
    · exact Nat.lt_succ_of_lt (b.numbered batch old)
    · rw [List.mem_singleton.mp new]
      exact Nat.lt_succ_self _
  · intro id batch
    change (l.stored.insert ⟨l.nextId⟩ ⟨⟨l.nextId⟩, mutations⟩)[id]? = some batch ↔
      batch ∈ l.pending ++ [⟨⟨l.nextId⟩, mutations⟩] ∧ batch.id = id
    rw [ExtTreeMap.getElem?_insert, List.mem_append, List.mem_singleton]
    simp only [LawfulEqOrd.compare_eq_iff_eq]
    split
    case isTrue same =>
      subst same
      constructor
      · rintro ⟨⟩
        exact ⟨.inr rfl, rfl⟩
      · rintro ⟨old | rfl, own⟩
        · have less := older batch old
          rw [own] at less
          exact absurd less (Nat.lt_irrefl _)
        · rfl
    case isFalse differs =>
      rw [b.stored id batch]
      refine and_congr_left fun own => (or_iff_left ?_).symm
      rintro rfl
      exact differs own
  · intro id known
    rcases (knows id).mp known with rfl | old
    · exact Nat.lt_succ_self _
    · exact Nat.lt_succ_of_lt (b.issued id old)
  · exact List.nodup_cons.mpr ⟨fun old => b.unknown (.inr old), b.fresh⟩
  · exact List.forall_mem_cons.mpr ⟨fun old found => b.issued old (.inl found), b.newer⟩
  · intro id
    rw [knows, stores, b.accounted, or_assoc]
  · intro id decided here
    rcases (stores id).mp here with rfl | old
    · exact b.unknown ((b.accounted _).mpr (.inr decided))
    · exact b.apart id decided old
  · intro id
    rw [stores, List.mem_cons, ← or_and_left, ← b.awaited, Ledger.accept,
      ExtTreeSet.mem_insert, LawfulEqOrd.compare_eq_iff_eq, eq_comm]
  · rw [Ledger.accept, b.counted, List.length_cons]
  · have even := b.even
    simp only [Ledger.accept, List.length_append, List.length_singleton]
    omega

/-- A number that was used up is given to no batch. -/
theorem refuse (b : Balanced store accepted recorded l) :
    Balanced store accepted recorded { l with nextId := l.nextId + 1 } :=
  { b with
    numbered := fun batch queued => Nat.lt_succ_of_lt (b.numbered batch queued)
    issued := fun id known => Nat.lt_succ_of_lt (b.issued id known) }

/-- Batches that leave the queue after their decision leave the accounts as they are. -/
theorem release (b : Balanced store accepted recorded l) {queued : List MutationBatch}
    (fewer : queued.Sublist l.queued) (kept : l.pending.Sublist queued) :
    Balanced store accepted recorded { l with queued } :=
  { b with
    ordered := b.ordered.sublist fewer
    numbered := fun batch there => b.numbered batch (fewer.subset there)
    among := kept }

/-- A pending batch has another number than the batches before and after it. -/
theorem others (b : Balanced store accepted recorded l) {batch : MutationBatch}
    {front back : List MutationBatch} (awaited : l.pending = front ++ batch :: back) :
    ∀ other ∈ front ++ back, other.id ≠ batch.id := by
  have ordered := b.ordered_pending
  rw [awaited] at ordered
  obtain ⟨-, later, earlier⟩ := List.pairwise_append.mp ordered
  intro other member same
  rcases List.mem_append.mp member with before | after
  · have less := earlier other before batch List.mem_cons_self
    rw [same] at less
    exact Nat.lt_irrefl _ less
  · have less := (List.pairwise_cons.mp later).1 other after
    rw [same] at less
    exact Nat.lt_irrefl _ less

/-- A decision moves its batch from the stored ones to the recorded ones. -/
theorem decide (b : Balanced store accepted recorded l) {batch : MutationBatch}
    {front back queued : List MutationBatch} (outcome : WriteOutcome)
    (awaited : l.pending = front ++ batch :: back) (fewer : queued.Sublist l.queued)
    (kept : (front ++ back).Sublist queued) :
    Balanced store accepted (recorded ++ [(batch.id, outcome)])
      (l.decide batch.id outcome queued (front ++ back)) := by
  have there : batch.id ∈ l.stored := b.mem_stored.mpr ⟨batch, by simp [awaited], rfl⟩
  have others := b.others awaited
  have stores (id : BatchId) : id ∈ (l.decide batch.id outcome queued (front ++ back)).stored ↔
      id ≠ batch.id ∧ id ∈ l.stored := by
    rw [Ledger.decide, ExtTreeMap.mem_erase, ne_eq, LawfulEqOrd.compare_eq_iff_eq, eq_comm]
  have records (id : BatchId) : id ∈ (recorded ++ [(batch.id, outcome)]).map (·.1) ↔
      id ∈ recorded.map (·.1) ∨ id = batch.id := by
    simp
  refine
    { ordered := b.ordered.sublist fewer
      numbered := fun other member => b.numbered other (fewer.subset member)
      among := kept, stored := ?_, issued := b.issued, fresh := b.fresh, newer := b.newer
      outcomes := ?_, once := ?_, accounted := ?_, apart := ?_, awaited := ?_
      counted := b.counted, even := ?_, records := b.records }
  · intro id other
    change (l.stored.erase batch.id)[id]? = some other ↔ other ∈ front ++ back ∧ other.id = id
    rw [ExtTreeMap.getElem?_erase]
    simp only [LawfulEqOrd.compare_eq_iff_eq]
    split
    case isTrue same =>
      subst same
      refine iff_of_false nofun ?_
      rintro ⟨member, own⟩
      exact others other member own
    case isFalse differs =>
      rw [b.stored id other, awaited]
      refine and_congr_left fun own => ?_
      have apart : other ≠ batch := fun same => differs (same ▸ own)
      simp [apart]
  · rw [Ledger.decide, b.outcomes, List.append_assoc]
  · rw [List.map_append, List.nodup_append]
    refine ⟨b.once, List.pairwise_singleton _ _, ?_⟩
    rintro id decided _ new rfl
    obtain rfl := List.mem_singleton.mp new
    exact b.apart _ decided there
  · intro id
    rw [b.accounted, stores, records]
    by_cases same : id = batch.id
    · simp [same, there]
    · simp [same]
  · intro id decided here
    obtain ⟨differs, old⟩ := (stores id).mp here
    exact b.apart id (((records id).mp decided).resolve_right differs) old
  · intro id
    rw [stores, Ledger.decide, ExtTreeSet.mem_erase, ne_eq, LawfulEqOrd.compare_eq_iff_eq,
      b.awaited, eq_comm]
    exact and_left_comm
  · have even := b.even
    rw [awaited] at even
    simp only [Ledger.decide, List.length_append, List.length_cons] at even ⊢
    omega

end Balanced

/-- A new engine answers for what its store holds undecided, and has decided nothing. -/
theorem balanced_ofStore {config : Config} {store : Store} {e : Engine} (keyed : store.Keyed)
    (records : StoreCall.saveOutcome ∉ store.failing)
    (read : Engine.ofStore config store = .ok e) : Balanced store [] [] e.ledger := by
  have ordered := Store.ordered_undecided keyed
  have entries := WriteQueue.entries_ofBatches ordered
  have numbered := WriteQueue.numbered_ofBatches store.undecided
  have queued : (WriteQueue.ofBatches store.undecided).entries.map (·.batch) = store.undecided := by
    rw [entries, List.map_map]
    exact List.map_id _
  obtain rfl := Engine.ofStore_undecided read
  unfold Engine.ledger
  rw [queued, WriteQueue.pending_ofBatches ordered]
  have below (batch : MutationBatch) (there : batch ∈ store.undecided) :
      batch.id.val < (WriteQueue.ofBatches store.undecided).nextId :=
    numbered ⟨batch, .pending, false⟩ (entries ▸ List.mem_map_of_mem there)
  refine
    { ordered, numbered := below, among := .refl _, stored := ?_, issued := ?_
      fresh := List.nodup_nil, newer := nofun, outcomes := (List.append_nil _).symm
      once := List.nodup_nil
      accounted := ?_, apart := nofun, awaited := ?_, counted := rfl, even := ?_, records }
  · intro id batch
    constructor
    · intro there
      have own := keyed id batch there
      exact ⟨(Store.mem_undecided keyed).mpr (own ▸ there), own⟩
    · rintro ⟨there, rfl⟩
      exact (Store.mem_undecided keyed).mp there
  · intro id known
    obtain ⟨batch, there⟩ := mem_iff_entry.mp (known.resolve_right List.not_mem_nil)
    obtain rfl := keyed id batch there
    exact below batch ((Store.mem_undecided keyed).mpr there)
  · intro id
    simp [Known]
  · intro id
    simp
  · simp

end Ledger

end LiveQuery
