import LiveQuery.Proofs.OverlayReplay
import LiveQuery.Proofs.ServerFreshness
import LiveQuery.Proofs.ShownReplicas

/-!
# What a fresh snapshot shows

A write that the server has not decided on marks its document. A snapshot is
fresh only if it shows no marked document, so the documents that it does show are
what stands without the undecided writes. Two things escape this. A pending write
can take its document out of the result, by a deletion or past a filter, and the
mark goes with it. And an acknowledged write behind a pending one to the same key
takes the mark off again. At every other key a fresh snapshot shows exactly what
stands.
-/

namespace LiveQuery

open Std

/-- Laying a write locally changes nothing or leaves a marked document. -/
theorem Mutation.marks (m : Mutation) (d : Option Document) :
    m.applyLocal d = d ∨ ∃ x, m.applyLocal d = some x ∧ x.hasLocalWrites = true := by
  unfold applyLocal
  dsimp only
  split
  case h_1 => exact .inr ⟨_, rfl, rfl⟩
  case h_2 => exact .inr ⟨_, rfl, rfl⟩
  case h_3 =>
    split
    case h_1 => exact .inr ⟨_, rfl, rfl⟩
    case h_2 => exact .inl rfl

namespace WriteQueue

/-- The queue without the batches that the server has not decided on. -/
def withoutPending (q : WriteQueue) : WriteQueue :=
  { q with entries := q.entries.filter fun w => !w.isPending }

/-- No acknowledged write to the key stands behind a pending one. -/
def OrderedOn (q : WriteQueue) (key : DocumentKey) : Prop :=
  (q.writesOn key).Pairwise fun earlier later => earlier.1 = .pending → later.1 = .pending

/-- Some write to the key is not decided. -/
def PendsOn (q : WriteQueue) (key : DocumentKey) : Prop :=
  ∃ write ∈ q.writesOn key, write.1 = .pending

theorem writesOn_withoutPending (q : WriteQueue) (key : DocumentKey) :
    q.withoutPending.writesOn key = (q.writesOn key).filter (·.1 != .pending) := by
  have own (w : QueuedWrite) : (w.writesTo key).filter (·.1 != .pending) =
      if w.isPending then [] else w.writesTo key := by
    rw [QueuedWrite.writesTo, List.filter_map, QueuedWrite.isPending]
    cases decided : w.status == .pending <;> simp [bne, Function.comp_def, decided]
  change (q.entries.filter fun w => !w.isPending).flatMap (·.writesTo key) =
    (q.entries.flatMap (·.writesTo key)).filter (·.1 != .pending)
  induction q.entries with
  | nil => rfl
  | cons w rest ih =>
    rw [List.flatMap_cons, List.filter_append, own, ← ih, List.filter_cons]
    cases w.isPending <;> rfl

/-- Pending writes over a state change nothing or leave a marked document. -/
theorem marks_of_pending {writes : List MarkedWrite}
    (pending : ∀ write ∈ writes, write.1 = .pending) (d : Option Document) :
    writes.foldl (fun d write => write.1.lay d write.2) d = d ∨
      ∃ x, writes.foldl (fun d write => write.1.lay d write.2) d = some x ∧
        x.hasLocalWrites = true := by
  induction writes generalizing d with
  | nil => exact .inl rfl
  | cons write rest ih =>
    obtain ⟨here, later⟩ := List.forall_mem_cons.mp pending
    have laid : write.1.lay d write.2 = write.2.applyLocal d := by
      rw [here]
      rfl
    rw [List.foldl_cons, laid]
    rcases ih later (write.2.applyLocal d) with same | marked
    · rw [same]
      exact write.2.marks d
    · exact .inr marked

/-- Behind the decided writes to a key the pending ones change nothing or leave a marked
    document. -/
theorem overlay_withoutPending {q : WriteQueue} {key : DocumentKey} (ordered : q.OrderedOn key)
    (base : Option Document) :
    q.overlay key base = q.withoutPending.overlay key base ∨
      q.PendsOn key ∧ ∃ x, q.overlay key base = some x ∧ x.hasLocalWrites = true := by
  rw [overlay_eq_foldl, overlay_eq_foldl, writesOn_withoutPending, PendsOn]
  rw [OrderedOn] at ordered
  generalize q.writesOn key = writes at ordered
  induction writes generalizing base with
  | nil => exact .inl rfl
  | cons write rest ih =>
    obtain ⟨behind, ordered⟩ := List.pairwise_cons.mp ordered
    by_cases pending : write.1 = .pending
    case pos =>
      have all : ∀ other ∈ write :: rest, other.1 = .pending :=
        List.forall_mem_cons.mpr ⟨pending, fun other member => behind other member pending⟩
      have none_decided : (write :: rest).filter (·.1 != .pending) = [] := by
        rw [List.filter_eq_nil_iff]
        intro other member
        simp [all other member]
      rw [none_decided, List.foldl_nil]
      exact (marks_of_pending all base).imp_right fun marked =>
        ⟨⟨write, List.mem_cons_self, pending⟩, marked⟩
    case neg =>
      rw [List.filter_cons_of_pos (by simpa using pending), List.foldl_cons, List.foldl_cons]
      refine (ih _ ordered).imp_right fun ⟨⟨other, member, pending⟩, marked⟩ => ?_
      exact ⟨⟨other, List.mem_cons_of_mem write member, pending⟩, marked⟩

/-- Behind decided batches alone nothing stands out of order. -/
theorem orderedOn_of_inOrder {q : WriteQueue} (ordered : InOrder q.entries) (key : DocumentKey) :
    q.OrderedOn key :=
  ordered.writes key

/-- Nothing is laid over a key that is not written. -/
theorem overlay_of_unwritten {q : WriteQueue} {key : DocumentKey} (unwritten : ¬q.Writes key)
    (base : Option Document) : q.overlay key base = base := by
  rw [writes_iff, ne_eq, not_not] at unwritten
  rw [overlay_eq_foldl, unwritten, List.foldl_nil]

end WriteQueue

/-- At a covered key the overlay is shown, also if nothing is written there. -/
theorem Replicas.ShowOver.at_covered {r : Replicas} {t : Target} {q : WriteQueue}
    (laid : r.ShowOver t q) {key : DocumentKey} (covered : t.covers key = true) :
    r.shown.documents[key]? = q.overlay key r.server.documents[key]? := by
  by_cases written : q.Writes key
  case pos => exact laid.written key covered written
  case neg =>
    rw [laid.untouched key fun both => written both.2, WriteQueue.overlay_of_unwritten written]

namespace View

/-- What the view would show if every batch that is not decided were taken out of the queue. -/
def standing (v : View) (q : WriteQueue) : Replica :=
  q.withoutPending.shownOver v.target v.replicas.server v.replicas.shown.edition

/-- A pending write changes what is selected at the key, but the mark of its document is not in the
    result. -/
structure Hides (v : View) (q : WriteQueue) (key : DocumentKey) : Prop where
  pends : q.PendsOn key
  marked : ∃ d, v.replicas.shown.documents[key]? = some d ∧ d.hasLocalWrites = true ∧
    d ∉ v.result.list
  changed : v.replicas.shown.documents[key]?.filter v.target.selects ≠
    (v.standing q).documents[key]?.filter v.target.selects

/-- Documents of a view that show nothing of the pending writes, but for those that hide what
    stands and those behind which a decided write stands. -/
structure Stands (v : View) (q : WriteQueue) (documents : List Document) : Prop where
  /-- Every document is one that stands. -/
  each : ∀ d ∈ documents, ∃ key : DocumentKey, v.replicas.shown.documents[key]? = some d ∧
    (q.OrderedOn key → (v.standing q).documents[key]? = some d)
  /-- What is selected at a key is what stands there, or it is hidden. -/
  selected : ∀ key : DocumentKey, q.OrderedOn key →
    v.replicas.shown.documents[key]?.filter v.target.selects =
        (v.standing q).documents[key]?.filter v.target.selects ∨
      v.Hides q key
  /-- Where nothing is hidden and the writes to every key are in order, they are exactly the result
      that stands, if the view would be shown at all. -/
  whole : (∀ key, q.OrderedOn key ∧ ¬v.Hides q key) → (v.standing q).initialized = true →
    documents = v.target.sorted ((v.standing q).result v.target)

variable {v : View} {q : WriteQueue}

/-- At every key the view shows what stands, or a marked document. -/
theorem standing_or_marked (laid : v.replicas.ShowOver v.target q) {key : DocumentKey}
    (ordered : q.OrderedOn key) :
    v.replicas.shown.documents[key]? = (v.standing q).documents[key]? ∨
      q.PendsOn key ∧ ∃ x, v.replicas.shown.documents[key]? = some x ∧
        x.hasLocalWrites = true := by
  have stood : Replicas.ShowOver ⟨v.standing q, v.replicas.server⟩ v.target q.withoutPending :=
    q.withoutPending.showOver_shownOver v.target v.replicas.server _
  by_cases covered : v.target.covers key = true
  case pos =>
    have there := stood.at_covered covered
    dsimp only at there
    rw [laid.at_covered covered, there]
    exact WriteQueue.overlay_withoutPending ordered _
  case neg =>
    left
    have there := stood.untouched key fun both => covered both.1
    dsimp only at there
    rw [laid.untouched key fun both => covered both.1, there]

/-- Whatever is in the result of a view is shown at some key. -/
theorem shown_of_mem_result {d : Document} (member : d ∈ v.result.list) :
    ∃ key : DocumentKey, v.replicas.shown.documents[key]? = some d := by
  have found := (Documents.mem_list (v.replicas.shown.keyed_result v.target)).mp member
  exact (Replica.of_mem_result found).2.2.2

/-- A result without a mark shows what stands. -/
theorem stands_of_unmarked (laid : v.replicas.ShowOver v.target q)
    (initialized : v.replicas.shown.initialized = true)
    (unmarked : ∀ d ∈ v.result.list, d.hasLocalWrites = false) :
    v.Stands q (v.target.sorted v.result) := by
  have selected (key : DocumentKey) (ordered : q.OrderedOn key) :
      v.replicas.shown.documents[key]?.filter v.target.selects =
          (v.standing q).documents[key]?.filter v.target.selects ∨
        v.Hides q key := by
    by_cases changed : v.replicas.shown.documents[key]?.filter v.target.selects =
        (v.standing q).documents[key]?.filter v.target.selects
    case pos => exact .inl changed
    case neg =>
      rcases standing_or_marked laid ordered with same | ⟨pends, d, here, marked⟩
      · exact absurd (congrArg _ same) changed
      · refine .inr ⟨pends, ⟨d, here, marked, fun member => ?_⟩, changed⟩
        exact nomatch (unmarked d member).symm.trans marked
  refine ⟨fun d member => ?_, selected, fun unhidden complete => ?_⟩
  · have member : d ∈ v.result.list := (perm_sortBy _ _).mem_iff.mp member
    obtain ⟨key, here⟩ := shown_of_mem_result member
    refine ⟨key, here, fun ordered => ?_⟩
    rcases standing_or_marked laid ordered with same | ⟨-, x, there, marked⟩
    · exact same ▸ here
    · obtain rfl := Option.some.inj (here.symm.trans there)
      exact nomatch (unmarked d member).symm.trans marked
  · have same : v.result = (v.standing q).result v.target := by
      refine Replica.result_congr (initialized.trans complete.symm) fun key => ?_
      exact (selected key (unhidden key).1).resolve_right (unhidden key).2
    rw [same]

end View

namespace Engine

/-- Whatever came before: a snapshot that a call sends as fresh shows what stands without the
    pending writes of the queue as the call leaves it. If all that is known of the server came over
    the stream, the view would be shown without them. -/
theorem fresh_snapshots_show_what_stands {past : List Moment} {e : Engine}
    (history : History past e) (action : Action) (x : ListenerId) (s : ViewSnapshot)
    (member : .ok s ∈ e.sent action x) (fresh : s.flags.fromCache = false) :
    ∃ l v, (e.perform action).2.listeners[x]? = some l ∧
      (e.perform action).2.views[l.target]? = some v ∧ s.target = v.target ∧
      v.Stands (e.perform action).2.queue s.documents ∧
      (Driven (⟨e, .call action⟩ :: past) →
        (v.standing (e.perform action).2.queue).initialized = true) := by
  obtain ⟨l, v, entered, viewed, initialized, shows⟩ :=
    sent_shows history.reachable.settled.informed history.sound member
  have later : History (⟨e, .call action⟩ :: past) (e.perform action).2 :=
    history.step (.call action)
  rw [shows.flags, flagsOf, View.flags, Bool.or_eq_false_iff] at fresh
  obtain ⟨unmarked, current⟩ := fresh
  refine ⟨l, v, entered, viewed, shows.target, ?_, fun driven => ?_⟩
  · have laid := later.reachable.settled.shows viewed fun impossible => impossible
    rw [shows.documents]
    refine View.stands_of_unmarked laid initialized fun d member => ?_
    exact Bool.eq_false_iff.mpr fun marked =>
      Bool.eq_false_iff.mp unmarked (List.any_eq_true.mpr ⟨d, member, marked⟩)
  · have current : (e.perform action).2.stream.Current l.target :=
      Bool.not_eq_eq_eq_not.mp current
    obtain ⟨w, there, complete⟩ := later.complete driven l.target current
    obtain rfl := Option.some.inj (viewed.symm.trans there)
    exact (WriteQueue.showOver_shownOver _ _ _ _).initialized.mpr (.inl complete)

/-- A document is watched and current, and two writes are submitted: one to it and one elsewhere. -/
def twoWrites : List Action :=
  reported ++ [.handle (.watch (.snapshot ⟨1⟩)) .zero, .submit [.set ⟨"c/a"⟩ ∅],
    .submit [.set ⟨"d/x"⟩ ∅]]

/-- Once the write to the document is acknowledged, a fresh snapshot shows what stands, although the
    other write is pending. -/
theorem acknowledged_write_stands :
    let e := blank.run twoWrites
    let acknowledgement := Action.handle (.writeAcked ⟨1⟩ ⟨5⟩) .zero
    let after := (e.perform acknowledgement).2
    ∃ past s v, History past e ∧ .ok s ∈ e.sent acknowledgement ⟨1⟩ ∧
      s.flags.fromCache = false ∧ after.queue.hasPending = true ∧
      after.views[(⟨1⟩ : TargetId)]? = some v ∧
      s.documents = v.target.sorted ((v.standing after.queue).result v.target) := by
  intro e acknowledgement after
  have history := history_blank.run twoWrites
  have told : (e.sent acknowledgement ⟨1⟩).any ListenEvent.isFresh = true := by decide +kernel
  have entered : (after.listeners[(⟨1⟩ : ListenerId)]?.all (·.target == ⟨1⟩)) = true := by
    decide +kernel
  have ordered : WriteQueue.InOrder after.queue.entries := by
    unfold WriteQueue.InOrder
    decide +kernel
  have elsewhere : (after.queue.entries.all fun w =>
      !w.isPending || w.batch.mutations.all (·.key == ⟨"d/x"⟩)) = true := by
    decide +kernel
  have unselected : (after.views[(⟨1⟩ : TargetId)]?.all fun v =>
      (v.replicas.shown.documents[(⟨"d/x"⟩ : DocumentKey)]?.filter v.target.selects).isNone &&
        ((v.standing after.queue).documents[(⟨"d/x"⟩ : DocumentKey)]?.filter
          v.target.selects).isNone) = true := by
    decide +kernel
  have driven : Driven (⟨e, .call acknowledgement⟩ :: (blank.moments twoWrites ++ [])) :=
    List.forall_mem_cons.mpr
      ⟨by simp [acknowledgement], driven_moments blank (by simp [twoWrites, reported])⟩
  obtain ⟨event, member, label⟩ := List.any_eq_true.mp told
  obtain ⟨s, rfl, fresh⟩ := ListenEvent.of_isFresh label
  obtain ⟨l, v, here, viewed, -, stands, initialized⟩ :=
    fresh_snapshots_show_what_stands history _ ⟨1⟩ s member fresh
  have own : l.target = ⟨1⟩ := by
    change after.listeners[(⟨1⟩ : ListenerId)]? = some l at here
    rw [here] at entered
    exact beq_iff_eq.mp entered
  rw [own] at viewed
  refine ⟨_, s, v, history, member, fresh, by decide +kernel, viewed, ?_⟩
  refine stands.whole (fun key => ⟨WriteQueue.orderedOn_of_inOrder ordered key, ?_⟩)
    (initialized driven)
  rintro ⟨⟨write, writes, pending⟩, -, changed⟩
  obtain ⟨w, queued, among⟩ := List.mem_flatMap.mp writes
  obtain ⟨m, mutation, rfl⟩ := List.mem_map.mp among
  obtain ⟨mutation, onKey⟩ := List.mem_filter.mp mutation
  have undecided : w.isPending = true := beq_iff_eq.mpr pending
  have only := List.all_eq_true.mp elsewhere w queued
  rw [undecided, Bool.not_true, Bool.false_or, List.all_eq_true] at only
  obtain rfl : key = ⟨"d/x"⟩ :=
    (beq_iff_eq.mp onKey).symm.trans (beq_iff_eq.mp (only m mutation))
  change after.views[(⟨1⟩ : TargetId)]? = some v at viewed
  rw [viewed, Option.all_some, Bool.and_eq_true_iff, Option.isNone_iff_eq_none,
    Option.isNone_iff_eq_none] at unselected
  exact changed (unselected.1.trans unselected.2.symm)

/-- A document is watched by a query and current. -/
def watched : List Action :=
  [.listen (.query (.ofPath "c")), .connect, .handle .opened .zero,
    .handle (.watch (.targetAdded [⟨1⟩])) .zero,
    .handle (.watch (.documentChanged ⟨⟨"c/a"⟩, ⟨1⟩, some ∅, false⟩ [⟨1⟩] [])) .zero,
    .handle (.watch (.current ⟨1⟩ ⟨[]⟩)) .zero, .handle (.watch (.snapshot ⟨1⟩)) .zero]

/-- A pending deletion takes the document and with it the mark out of the result, and the snapshot
    is labelled as fresh. -/
theorem pending_deletion_is_fresh :
    let e := blank.run watched
    let deletion := Action.submit [.delete ⟨"c/a"⟩]
    let after := (e.perform deletion).2
    e.Reachable ∧ ∃ s v, .ok s ∈ e.sent deletion ⟨1⟩ ∧ s.flags.fromCache = false ∧
      after.views[(⟨1⟩ : TargetId)]? = some v ∧ s.documents = [] ∧
      v.target.sorted ((v.standing after.queue).result v.target) ≠ [] := by
  intro e deletion after
  have told : (e.sent deletion ⟨1⟩).any ListenEvent.isFresh = true := by decide +kernel
  have gone : ((e.sent deletion ⟨1⟩).all fun event =>
      event.toOption.all (·.documents.isEmpty)) = true := by
    decide +kernel
  have stands : (after.views[(⟨1⟩ : TargetId)]?.any fun v =>
      !(v.target.sorted ((v.standing after.queue).result v.target)).isEmpty) = true := by
    decide +kernel
  obtain ⟨event, member, label⟩ := List.any_eq_true.mp told
  obtain ⟨s, rfl, fresh⟩ := ListenEvent.of_isFresh label
  obtain ⟨v, viewed, standing⟩ := (Option.any_eq_true _ _).mp stands
  have empty : s.documents.isEmpty = true := List.all_eq_true.mp gone (.ok s) member
  exact ⟨reachable_blank.run _, s, v, member, fresh, viewed, List.isEmpty_iff.mp empty,
    by simpa using standing⟩

end Engine

end LiveQuery
