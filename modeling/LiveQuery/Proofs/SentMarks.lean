import LiveQuery.Proofs.Resyncs
import LiveQuery.Proofs.WriteIndependence

/-!
# Sent marks

The queue marks the batches that were written to the present stream. The marks decide
what is written next, and nothing else depends on them: engines whose queues differ
in marks alone answer every other call alike and are told apart by marks alone after
it. Which differences are meant is up to a marking. The two that matter here are
that the second queue has no marks at all, and that it has the same ones on the
batches that are not decided.
-/

namespace LiveQuery

open Std

/-- Which mark a batch may have in a second queue. A batch that is queued is not marked, one that
    is acknowledged keeps its mark, and all may lose their marks at once. -/
structure Marking where
  allows : QueuedWrite → Bool → Prop
  fresh (batch : MutationBatch) : allows { batch } false
  acknowledged {w : QueuedWrite} {mark : Bool} (commit : Version) :
    allows w mark → allows { w with status := .acknowledged commit } mark
  unsent (w : QueuedWrite) : allows { w with sent := false } false

namespace Marking

/-- No marks. -/
def cleared : Marking where
  allows _ mark := mark = false
  fresh _ := rfl
  acknowledged _ := id
  unsent _ := rfl

/-- The same marks on the batches that are not decided. -/
def kept : Marking where
  allows w mark := w.isPending = true → mark = w.sent
  fresh _ _ := rfl
  acknowledged _ _ pending := nomatch pending
  unsent _ _ := rfl

end Marking

variable {μ : Marking}

/-- The same batch with the same decision, under a mark that may differ. -/
def QueuedWrite.Remarked (μ : Marking) (w other : QueuedWrite) : Prop :=
  ∃ mark, μ.allows w mark ∧ other = { w with sent := mark }

namespace WriteQueue

variable {q r : WriteQueue}

/-- The same batches in the same order, under marks that may differ. -/
structure Remarked (μ : Marking) (q r : WriteQueue) : Prop where
  nextId : r.nextId = q.nextId
  entries : List.Forall₂ (QueuedWrite.Remarked μ) q.entries r.entries

/-- What a queue shows of a target is the same in both. -/
def Shows (r q : WriteQueue) : Prop :=
  ∀ (t : Target) (server : Replica) (edition : Nat),
    r.shownOver t server edition = q.shownOver t server edition

/-- What is shown depends on the batches and on what is decided of them. -/
theorem shows_of_map
    (same : r.entries.map (fun w => (w.batch, w.status)) =
      q.entries.map fun w => (w.batch, w.status)) : r.Shows q := by
  have writes (key : DocumentKey) : r.writesOn key = q.writesOn key := writesIn_congr same key
  have keys : r.keys = q.keys := by
    have through (q : WriteQueue) : q.entries.flatMap (·.batch.keys) =
        (q.entries.map fun w => (w.batch, w.status)).flatMap (·.1.keys) := by
      rw [List.flatMap_map]
    rw [WriteQueue.keys, WriteQueue.keys, through r, through q, same]
  have overlay (key : DocumentKey) : r.overlay key = q.overlay key := by
    funext base
    rw [overlay_eq_foldl, overlay_eq_foldl, writes]
  have overwrites : r.overwrites = q.overwrites := by
    funext key
    rw [overwrites_eq_any, overwrites_eq_any, writes]
  intro t server edition
  have laid : r.layOver server = q.layOver server := by
    funext documents key
    rw [layOver, layOver, overlay, overwrites]
  rw [shownOver, shownOver, keysFor, keysFor, keys, laid, overwrites]

/-- Two results of a decision: nobody awaits it in either queue, or the same batch in both. -/
inductive Decided (μ : Marking) :
    Option (MutationBatch × WriteQueue) → Option (MutationBatch × WriteQueue) → Prop
  | none : Decided μ none none
  | some (batch : MutationBatch) {q r : WriteQueue} (remarked : q.Remarked μ r) :
    Decided μ (some (batch, q)) (some (batch, r))

section Entries

variable {entries others : List QueuedWrite}
  (remarked : List.Forall₂ (QueuedWrite.Remarked μ) entries others)

include remarked

theorem map_remarked : others.map (fun w => (w.batch, w.status)) =
    entries.map fun w => (w.batch, w.status) := by
  induction remarked with
  | nil => rfl
  | cons first _ ih =>
    obtain ⟨mark, -, rfl⟩ := first
    rw [List.map_cons, List.map_cons, ih]

/-- The batch that awaits a decision is the same in both. -/
theorem find?_remarked (id : BatchId) :
    (others.find? (·.awaits id)).map (·.batch) = (entries.find? (·.awaits id)).map (·.batch) := by
  induction remarked with
  | nil => rfl
  | @cons w _ _ _ first _ ih =>
    obtain ⟨mark, -, rfl⟩ := first
    have same : QueuedWrite.awaits { w with sent := mark } id = w.awaits id := rfl
    rw [List.find?_cons, List.find?_cons, same]
    split
    · rfl
    · exact ih

theorem commitIn_remarked (id : BatchId) (commit : Version) :
    List.Forall₂ (QueuedWrite.Remarked μ) (commitIn id commit entries)
      (commitIn id commit others) := by
  induction remarked with
  | nil => exact .nil
  | @cons w _ _ _ first rest ih =>
    obtain ⟨mark, allowed, rfl⟩ := first
    have same : QueuedWrite.awaits { w with sent := mark } id = w.awaits id := rfl
    rw [commitIn, commitIn, same]
    split
    · exact .cons ⟨mark, μ.acknowledged commit allowed, rfl⟩ rest
    · exact .cons ⟨mark, allowed, rfl⟩ ih

theorem eraseP_remarked (id : BatchId) :
    List.Forall₂ (QueuedWrite.Remarked μ) (entries.eraseP (·.awaits id))
      (others.eraseP (·.awaits id)) := by
  induction remarked with
  | nil => exact .nil
  | @cons w _ _ _ first rest ih =>
    obtain ⟨mark, allowed, rfl⟩ := first
    have same : QueuedWrite.awaits { w with sent := mark } id = w.awaits id := rfl
    rw [List.eraseP_cons, List.eraseP_cons, same]
    cases w.awaits id with
    | true => exact rest
    | false => exact .cons ⟨mark, allowed, rfl⟩ ih

/-- A version catches up with the same batches in both. -/
theorem released_remarked (version : Version) :
    (others.filter (·.isCaughtUpBy version)).map (·.batch) =
        (entries.filter (·.isCaughtUpBy version)).map (·.batch) ∧
      List.Forall₂ (QueuedWrite.Remarked μ) (entries.filter fun w => !w.isCaughtUpBy version)
        (others.filter fun w => !w.isCaughtUpBy version) := by
  induction remarked with
  | nil => exact ⟨rfl, .nil⟩
  | @cons w _ _ _ first _ ih =>
    obtain ⟨mark, allowed, rfl⟩ := first
    obtain ⟨released, left⟩ := ih
    have same : QueuedWrite.isCaughtUpBy { w with sent := mark } version =
        w.isCaughtUpBy version := rfl
    simp only [List.filter_cons, same]
    cases w.isCaughtUpBy version with
    | true => exact ⟨congrArg (w.batch :: ·) released, left⟩
    | false => exact ⟨released, .cons ⟨mark, allowed, rfl⟩ left⟩

theorem unsent_remarked : List.Forall₂ (QueuedWrite.Remarked μ)
    (entries.map fun w => { w with sent := false })
    (others.map fun w => { w with sent := false }) := by
  induction remarked with
  | nil => exact .nil
  | cons first _ ih =>
    obtain ⟨mark, -, rfl⟩ := first
    exact .cons ⟨false, μ.unsent _, rfl⟩ ih

end Entries

section Kept

variable {entries others : List QueuedWrite}
  (remarked : List.Forall₂ (QueuedWrite.Remarked .kept) entries others)

include remarked

theorem countP_remarked : (others.countP fun w => w.isPending && w.sent) =
    entries.countP fun w => w.isPending && w.sent := by
  induction remarked with
  | nil => rfl
  | @cons w _ _ _ first _ ih =>
    obtain ⟨mark, same, rfl⟩ := first
    have pending : QueuedWrite.isPending { w with sent := mark } = w.isPending := rfl
    rw [List.countP_cons, List.countP_cons, ih, pending]
    cases undecided : w.isPending with
    | true => rw [same undecided]
    | false => rfl

theorem takeFrom_remarked (budget : Nat) :
    (takeFrom budget others).1 = (takeFrom budget entries).1 ∧
      List.Forall₂ (QueuedWrite.Remarked .kept) (takeFrom budget entries).2
        (takeFrom budget others).2 := by
  induction remarked generalizing budget with
  | nil =>
    cases budget <;> exact ⟨rfl, .nil⟩
  | @cons w _ _ _ first rest ih =>
    obtain ⟨mark, same, rfl⟩ := first
    cases budget with
    | zero => exact ⟨rfl, .cons ⟨mark, same, rfl⟩ rest⟩
    | succ budget =>
      have pending : QueuedWrite.isPending { w with sent := mark } = w.isPending := rfl
      rw [takeFrom, takeFrom, pending]
      cases undecided : w.isPending with
      | true =>
        obtain rfl := same undecided
        cases marked : w.sent with
        | false =>
          obtain ⟨taken, left⟩ := ih budget
          exact ⟨congrArg (w.batch :: ·) taken, .cons ⟨true, fun _ => rfl, rfl⟩ left⟩
        | true =>
          obtain ⟨taken, left⟩ := ih (budget + 1)
          exact ⟨taken, .cons ⟨true, fun _ => marked.symm, rfl⟩ left⟩
      | false =>
        obtain ⟨taken, left⟩ := ih (budget + 1)
        exact ⟨taken, .cons ⟨mark, same, rfl⟩ left⟩

end Kept

/-- The queue without marks is the one where all marks were lost. -/
theorem remarked_cleared : q.Remarked .cleared r ↔ r = q.markAllUnsent := by
  constructor
  · rintro ⟨nextId, entries⟩
    have unmarked {entries others : List QueuedWrite}
        (remarked : List.Forall₂ (QueuedWrite.Remarked .cleared) entries others) :
        others = entries.map fun w => { w with sent := false } := by
      induction remarked with
      | nil => rfl
      | cons first _ ih =>
        obtain ⟨mark, cleared, rfl⟩ := first
        obtain rfl : mark = false := cleared
        rw [List.map_cons, ih]
    unfold WriteQueue.markAllUnsent
    rw [← nextId, ← unmarked entries]
  · rintro rfl
    refine ⟨rfl, ?_⟩
    exact List.forall₂_map_right_iff.mpr (List.forall₂_same.mpr fun w _ => ⟨false, rfl, rfl⟩)

namespace Remarked

theorem shows (remarked : q.Remarked μ r) : r.Shows q :=
  shows_of_map (map_remarked remarked.entries)

/-- A batch is queued in both. -/
theorem append (remarked : q.Remarked μ r) (mutations : List Mutation) :
    (r.append mutations).1 = (q.append mutations).1 ∧
      (q.append mutations).2.Remarked μ (r.append mutations).2 := by
  obtain ⟨nextId, entries⟩ := remarked
  unfold WriteQueue.append
  rw [nextId]
  refine ⟨rfl, rfl, ?_⟩
  exact List.rel_append entries (.cons ⟨false, μ.fresh _, rfl⟩ .nil)

/-- A decision finds the same batch in both. -/
theorem decided (remarked : q.Remarked μ r) (id : BatchId)
    (edit : WriteQueue → List QueuedWrite)
    (edited : List.Forall₂ (QueuedWrite.Remarked μ) (edit q) (edit r)) :
    Decided μ ((q.entries.find? (·.awaits id)).map fun w => (w.batch, { q with entries := edit q }))
      ((r.entries.find? (·.awaits id)).map fun w => (w.batch, { r with entries := edit r })) := by
  have found := find?_remarked remarked.entries id
  cases here : q.entries.find? (·.awaits id) with
  | none =>
    rw [here, Option.map_none, Option.map_eq_none_iff] at found
    rw [found]
    exact .none
  | some w =>
    rw [here, Option.map_some] at found
    obtain ⟨v, there, batch⟩ := Option.map_eq_some_iff.mp found
    rw [there, Option.map_some, Option.map_some, batch]
    exact .some _ ⟨remarked.nextId, edited⟩

theorem acknowledge? (remarked : q.Remarked μ r) (id : BatchId) (commit : Version) :
    Decided μ (q.acknowledge? id commit) (r.acknowledge? id commit) :=
  remarked.decided id (fun q => commitIn id commit q.entries)
    (commitIn_remarked remarked.entries id commit)

theorem reject? (remarked : q.Remarked μ r) (id : BatchId) :
    Decided μ (q.reject? id) (r.reject? id) :=
  remarked.decided id (fun q => q.entries.eraseP (·.awaits id))
    (eraseP_remarked remarked.entries id)

theorem release (remarked : q.Remarked μ r) (version : Version) :
    (r.release version).1 = (q.release version).1 ∧
      (q.release version).2.Remarked μ (r.release version).2 := by
  obtain ⟨released, left⟩ := released_remarked remarked.entries version
  exact ⟨released, remarked.nextId, left⟩

/-- Both may lose their marks. -/
theorem markAllUnsent (remarked : q.Remarked μ r) :
    q.markAllUnsent.Remarked μ r.markAllUnsent :=
  ⟨remarked.nextId, unsent_remarked remarked.entries⟩

/-- Queues with the same marks on the undecided batches hand out the same ones. -/
theorem takeUnsent (remarked : q.Remarked .kept r) (limit : Nat) :
    (r.takeUnsent limit).1 = (q.takeUnsent limit).1 ∧
      (q.takeUnsent limit).2.Remarked .kept (r.takeUnsent limit).2 := by
  obtain ⟨taken, left⟩ := takeFrom_remarked remarked.entries (limit - q.inFlight)
  have inFlight : r.inFlight = q.inFlight := countP_remarked remarked.entries
  unfold WriteQueue.takeUnsent
  rw [inFlight]
  exact ⟨taken, remarked.nextId, left⟩

end Remarked

/-! ## The window -/

/-- The undecided batches that were written to the present stream, oldest first. -/
def onWire (q : WriteQueue) : List MutationBatch :=
  (q.entries.filter fun w => w.isPending && w.sent).map (·.batch)

/-- The undecided batches that are still to be written, oldest first. -/
def waiting (q : WriteQueue) : List MutationBatch :=
  (q.entries.filter fun w => w.isPending && !w.sent).map (·.batch)

/-- The batches on the wire come before those that wait, and there are not too many of them. -/
structure InWindow (q : WriteQueue) (limit : Nat) : Prop where
  first : (q.entries.filter (·.isPending)).Pairwise fun w v => v.sent = true → w.sent = true
  bound : q.inFlight ≤ limit

section Window

variable {limit : Nat}

theorem length_onWire (q : WriteQueue) : q.onWire.length = q.inFlight := by
  rw [onWire, List.length_map, inFlight, List.countP_eq_length_filter]

theorem inFlight_eq (q : WriteQueue) :
    q.inFlight = (q.entries.filter (·.isPending)).countP (·.sent) := by
  rw [inFlight, List.countP_filter]
  exact List.countP_congr fun w _ => by rw [Bool.and_comm]

/-- What comes first, and what comes later. -/
theorem filter_append_of_pairwise {α : Type} {p : α → Bool} {items : List α}
    (first : items.Pairwise fun a b => p b = true → p a = true) :
    items.filter p ++ items.filter (fun a => !p a) = items := by
  induction items with
  | nil => rfl
  | cons a rest ih =>
    obtain ⟨before, first⟩ := List.pairwise_cons.mp first
    cases here : p a with
    | true => simp [here, ih first]
    | false =>
      have later : ∀ b ∈ rest, p b = false := by
        intro b member
        by_contra marked
        have earlier := before b member (by simpa using marked)
        simp [here] at earlier
      have none_marked : rest.filter p = [] := List.filter_eq_nil_iff.mpr (by simpa using later)
      have all_left : rest.filter (fun b => !p b) = rest :=
        List.filter_eq_self.mpr (by simpa using later)
      simp [here, none_marked, all_left]

theorem InWindow.pending_eq (window : q.InWindow limit) :
    q.onWire ++ q.waiting = q.pending := by
  have split := filter_append_of_pairwise window.first
  rw [List.filter_filter, List.filter_filter] at split
  rw [onWire, waiting, pending, ← List.map_append, ← split]
  simp only [Bool.and_comm]

/-- Fewer undecided batches are in the window all the more. -/
theorem InWindow.fewer (window : q.InWindow limit)
    (fewer : (r.entries.filter (·.isPending)).Sublist (q.entries.filter (·.isPending))) :
    r.InWindow limit where
  first := window.first.sublist fewer
  bound := by
    have bound := window.bound
    rw [inFlight_eq] at bound ⊢
    exact fewer.countP_le.trans bound

theorem InWindow.append (window : q.InWindow limit) (mutations : List Mutation) :
    (q.append mutations).2.InWindow limit := by
  have entered : (q.append mutations).2.entries.filter (·.isPending) =
      q.entries.filter (·.isPending) ++ [{ batch := (q.append mutations).1 }] := by
    simp [WriteQueue.append, QueuedWrite.isPending]
  constructor
  · rw [entered]
    refine List.pairwise_append.mpr ⟨window.first, List.pairwise_singleton _ _, ?_⟩
    intro w _ v member marked
    obtain rfl := List.mem_singleton.mp member
    cases marked
  · have bound := window.bound
    rw [inFlight_eq] at bound ⊢
    rw [entered]
    simpa using bound

theorem unsent_of_mem {w : QueuedWrite} (member : w ∈ q.markAllUnsent.entries) :
    w.sent = false := by
  obtain ⟨old, -, rfl⟩ := List.mem_map.mp member
  rfl

/-- Nothing is on the wire once all marks are lost. -/
theorem inFlight_markAllUnsent (q : WriteQueue) : q.markAllUnsent.inFlight = 0 := by
  refine List.countP_eq_zero.mpr fun w member => ?_
  simp [unsent_of_mem member]

theorem InWindow.unsent (q : WriteQueue) (limit : Nat) : q.markAllUnsent.InWindow limit := by
  constructor
  · refine List.pairwise_of_forall_mem_list fun w _ v member marked => ?_
    rw [unsent_of_mem (List.mem_filter.mp member).1] at marked
    cases marked
  · rw [inFlight_markAllUnsent]
    exact Nat.zero_le limit

/-- The oldest batches that wait are taken. -/
theorem takeFrom_eq (budget : Nat) (entries : List QueuedWrite) :
    (takeFrom budget entries).1 =
      ((entries.filter fun w => w.isPending && !w.sent).map (·.batch)).take budget := by
  induction entries generalizing budget with
  | nil => cases budget <;> rfl
  | cons w rest ih =>
    cases budget with
    | zero => rfl
    | succ budget =>
      rw [takeFrom, List.filter_cons]
      split
      · simp [ih]
      · exact ih _

/-- What is taken is on the wire. -/
theorem countP_takeFrom (budget : Nat) (entries : List QueuedWrite) :
    ((takeFrom budget entries).2.countP fun w => w.isPending && w.sent) =
      (entries.countP fun w => w.isPending && w.sent) + (takeFrom budget entries).1.length := by
  induction entries generalizing budget with
  | nil => cases budget <;> rfl
  | cons w rest ih =>
    cases budget with
    | zero => rfl
    | succ budget =>
      rw [takeFrom]
      split
      case isTrue taken =>
        obtain ⟨pending, unsent⟩ := Bool.and_eq_true_iff.mp taken
        have marked : QueuedWrite.isPending { w with sent := true } = true := pending
        simp only [List.countP_cons, ih, List.length_cons, marked, pending] at unsent ⊢
        simp at unsent
        simp [unsent]
        omega
      case isFalse =>
        simp only [List.countP_cons, ih]
        omega

/-- The batches on the wire still come first. -/
theorem first_takeFrom (budget : Nat) {entries : List QueuedWrite}
    (first : (entries.filter (·.isPending)).Pairwise fun w v => v.sent = true → w.sent = true) :
    ((takeFrom budget entries).2.filter (·.isPending)).Pairwise
      fun w v => v.sent = true → w.sent = true := by
  induction entries generalizing budget with
  | nil => cases budget <;> exact .nil
  | cons w rest ih =>
    cases budget with
    | zero => exact first
    | succ budget =>
      rw [takeFrom]
      rw [List.filter_cons] at first
      split
      case isTrue taken =>
        obtain ⟨pending, unsent⟩ := Bool.and_eq_true_iff.mp taken
        rw [if_pos pending] at first
        have marked : QueuedWrite.isPending { w with sent := true } = true := pending
        rw [List.filter_cons, if_pos marked]
        exact List.pairwise_cons.mpr
          ⟨fun _ _ _ => rfl, ih budget (List.pairwise_cons.mp first).2⟩
      case isFalse kept =>
        rw [List.filter_cons]
        cases pending : w.isPending with
        | true =>
          rw [if_pos pending] at first
          have marked : w.sent = true := by simpa [pending] using kept
          exact List.pairwise_cons.mpr
            ⟨fun _ _ _ => marked, ih (budget + 1) (List.pairwise_cons.mp first).2⟩
        | false =>
          rw [if_neg (by simp [pending])] at first
          exact ih (budget + 1) first

theorem InWindow.takeUnsent (window : q.InWindow limit) :
    (q.takeUnsent limit).2.InWindow limit := by
  constructor
  · exact first_takeFrom _ window.first
  · have bound := window.bound
    have taken : (takeFrom (limit - q.inFlight) q.entries).1.length ≤ limit - q.inFlight := by
      rw [takeFrom_eq]
      exact List.length_take_le _ _
    have counted := countP_takeFrom (limit - q.inFlight) q.entries
    change ((takeFrom (limit - q.inFlight) q.entries).2.countP _) ≤ limit
    rw [counted]
    change q.inFlight + _ ≤ limit
    omega

/-- Without its marks the queue hands out what is on the wire once more, and then what it hands out
    with them. -/
theorem InWindow.retake (window : q.InWindow limit) :
    (q.markAllUnsent.takeUnsent limit).1 = q.onWire ++ (q.takeUnsent limit).1 ∧
      q.onWire ++ (q.takeUnsent limit).1 = q.pending.take limit := by
  have taken : (q.takeUnsent limit).1 = q.waiting.take (limit - q.inFlight) := takeFrom_eq _ _
  have both : q.onWire ++ (q.takeUnsent limit).1 = q.pending.take limit := by
    rw [taken, ← window.pending_eq, List.take_append, length_onWire,
      List.take_of_length_le (l := q.onWire) (length_onWire q ▸ window.bound)]
  exact ⟨both ▸ takeUnsent_markAllUnsent q limit, both⟩

/-- What is not taken is passed over. -/
theorem takeFrom_cons_of_spared {w : QueuedWrite} (spared : ¬(w.isPending && !w.sent) = true)
    (budget : Nat) (rest : List QueuedWrite) :
    (takeFrom budget (w :: rest)).2 = w :: (takeFrom budget rest).2 := by
  cases budget with
  | zero => cases rest <;> rfl
  | succ budget => rw [takeFrom, if_neg spared]

/-- Where nothing is on the wire, losing the marks makes no difference. -/
theorem kept_unsent {entries : List QueuedWrite}
    (idle : (entries.countP fun w => w.isPending && w.sent) = 0) :
    List.Forall₂ (QueuedWrite.Remarked .kept) entries
      (entries.map fun w => { w with sent := false }) := by
  refine List.forall₂_map_right_iff.mpr (List.forall₂_same.mpr fun w member => ?_)
  refine ⟨false, fun pending => ?_, rfl⟩
  simpa [pending] using List.countP_eq_zero.mp idle w member

/-- A batch that waits is taken as long as the budget allows. -/
theorem takeFrom_cons_of_waiting {w : QueuedWrite} (waits : (w.isPending && !w.sent) = true)
    (budget : Nat) (rest : List QueuedWrite) :
    (takeFrom (budget + 1) (w :: rest)).2 =
      { w with sent := true } :: (takeFrom budget rest).2 := by
  rw [takeFrom, if_pos waits]

/-- Behind a batch that waits nothing is on the wire. -/
theorem idle_behind {w : QueuedWrite} {rest : List QueuedWrite} (unsent : w.sent = false)
    (later : ∀ v ∈ rest.filter (·.isPending), v.sent = true → w.sent = true) :
    (rest.countP fun w => w.isPending && w.sent) = 0 := by
  refine List.countP_eq_zero.mpr fun v member sent => ?_
  obtain ⟨pending, sent⟩ := Bool.and_eq_true_iff.mp sent
  have before := later v (List.mem_filter.mpr ⟨member, pending⟩) sent
  cases unsent.symm.trans before

/-- After either of the two the same batches are on the wire. -/
theorem kept_retake (limit : Nat) {entries : List QueuedWrite}
    (first : (entries.filter (·.isPending)).Pairwise fun w v => v.sent = true → w.sent = true)
    (bound : (entries.countP fun w => w.isPending && w.sent) ≤ limit) :
    List.Forall₂ (QueuedWrite.Remarked .kept)
      (takeFrom (limit - entries.countP fun w => w.isPending && w.sent) entries).2
      (takeFrom limit (entries.map fun w => { w with sent := false })).2 := by
  induction entries generalizing limit with
  | nil => cases limit <;> exact .nil
  | cons w rest ih =>
    cases limit with
    | zero =>
      have idle := Nat.le_zero.mp bound
      rw [Nat.zero_sub]
      exact kept_unsent idle
    | succ limit =>
      rw [List.filter_cons] at first
      rw [List.countP_cons] at bound ⊢
      rw [List.map_cons]
      cases pending : w.isPending with
      | false =>
        have spared : ¬(w.isPending && !w.sent) = true := by simp [pending]
        have spared' : ¬(QueuedWrite.isPending { w with sent := false } && !false) = true := by
          rw [show QueuedWrite.isPending { w with sent := false } = w.isPending from rfl, pending]
          simp
        rw [takeFrom_cons_of_spared spared, takeFrom_cons_of_spared spared']
        rw [if_neg (by simp [pending])] at first
        simp only [pending, Bool.false_and, Bool.false_eq_true, if_false, Nat.add_zero] at bound ⊢
        exact .cons ⟨false, fun undecided => (nomatch pending.symm.trans undecided), rfl⟩
          (ih (limit + 1) first bound)
      | true =>
        rw [if_pos pending] at first
        obtain ⟨later, first⟩ := List.pairwise_cons.mp first
        have waits : (QueuedWrite.isPending { w with sent := false } && !false) = true :=
          Bool.and_eq_true_iff.mpr ⟨pending, rfl⟩
        rw [takeFrom_cons_of_waiting waits]
        cases marked : w.sent with
        | true =>
          have spared : ¬(w.isPending && !w.sent) = true := by simp [marked]
          simp only [pending, marked, Bool.and_self, if_true] at bound ⊢
          rw [takeFrom_cons_of_spared spared, Nat.add_sub_add_right]
          exact .cons ⟨true, fun _ => marked.symm, rfl⟩ (ih limit first (by omega))
        | false =>
          have idle := idle_behind marked later
          have rest_retaken := ih limit first (idle ▸ Nat.zero_le limit)
          rw [idle, Nat.sub_zero] at rest_retaken
          simp only [idle, Bool.and_false, Bool.false_eq_true, if_false, Nat.add_zero, Nat.sub_zero]
          rw [takeFrom_cons_of_waiting (by simp [pending, marked])]
          exact .cons ⟨true, fun _ => rfl, rfl⟩ rest_retaken

/-- Then both have the same on the wire. -/
theorem InWindow.remarked_retake (window : q.InWindow limit) :
    (q.takeUnsent limit).2.Remarked .kept (q.markAllUnsent.takeUnsent limit).2 := by
  refine ⟨rfl, ?_⟩
  have retaken := kept_retake limit window.first window.bound
  change List.Forall₂ _ (takeFrom (limit - q.inFlight) q.entries).2
    (takeFrom (limit - q.markAllUnsent.inFlight) q.markAllUnsent.entries).2
  rw [inFlight_markAllUnsent, Nat.sub_zero]
  exact retaken

/-- Where nothing is on the wire, losing the marks makes no difference. -/
theorem remarked_markAllUnsent (idle : q.onWire = []) : q.Remarked .kept q.markAllUnsent :=
  ⟨rfl, kept_unsent (by rw [← inFlight, ← length_onWire, idle, List.length_nil])⟩

end Window

end WriteQueue

end LiveQuery
