import LiveQuery.Proofs.EngineStream

/-!
# The ledger of writes

Four parts of an engine keep account of its writes: the queue, the store, the
submitters who wait for a decision, and the counters. The ledger is what they
say together, without what else the engine holds. Showing a write, telling
listeners and sending batches leave the ledger alone. So a call makes one entry
at most: a batch is taken in or turned away, a decision is put down, or batches
that the server is known to show are let go.
-/

namespace LiveQuery

open Std

namespace WriteQueue

/-- The batches without a decision are among the queued ones. -/
theorem pending_sublist (q : WriteQueue) : q.pending.Sublist (q.entries.map (·.batch)) :=
  List.filter_sublist.map _

theorem pending_append (q : WriteQueue) (mutations : List Mutation) :
    (q.append mutations).2.pending = q.pending ++ [(q.append mutations).1] := by
  simp [pending, append, QueuedWrite.isPending]

/-- What is caught up with was decided before. -/
theorem pending_release (q : WriteQueue) (version : Version) :
    (q.release version).2.pending = q.pending := by
  have kept (w : QueuedWrite) :
      (w.isPending && !w.isCaughtUpBy version) = w.isPending := by
    rcases w with ⟨batch, _ | commit, sent⟩ <;> rfl
  simp only [pending, release, List.filter_filter, kept]

theorem release_sublist (q : WriteQueue) (version : Version) :
    ((q.release version).2.entries.map (·.batch)).Sublist (q.entries.map (·.batch)) :=
  List.filter_sublist.map _

/-- Only a batch without a decision is waited for. -/
theorem isPending_of_awaits {w : QueuedWrite} {id : BatchId} (awaited : w.awaits id = true) :
    w.batch.id = id ∧ w.isPending = true := by
  obtain ⟨own, open_⟩ := Bool.and_eq_true_iff.mp awaited
  exact ⟨beq_iff_eq.mp own, open_⟩

/-- An acknowledged batch keeps its place, and counts as decided. -/
theorem pending_acknowledge {q after : WriteQueue} {id : BatchId} {commit : Version}
    {batch : MutationBatch} (done : q.acknowledge? id commit = some (batch, after)) :
    batch.id = id ∧ after.nextId = q.nextId ∧
      after.entries.map (·.batch) = q.entries.map (·.batch) ∧
      ∃ front back, q.pending = front ++ batch :: back ∧ after.pending = front ++ back := by
  obtain ⟨before, w, rest, split, -, awaited, rfl, rfl⟩ := acknowledge_cases done
  obtain ⟨own, undecided⟩ := isPending_of_awaits awaited
  have decided : ({ w with status := .acknowledged commit } : QueuedWrite).isPending = false := rfl
  refine ⟨own, rfl, by simp [split], (before.filter (·.isPending)).map (·.batch),
    (rest.filter (·.isPending)).map (·.batch), ?_, ?_⟩
  · simp [pending, split, undecided]
  · simp [pending, decided]

/-- A rejected batch leaves the queue. -/
theorem pending_reject {q after : WriteQueue} {id : BatchId} {batch : MutationBatch}
    (done : q.reject? id = some (batch, after)) :
    batch.id = id ∧ after.nextId = q.nextId ∧
      (after.entries.map (·.batch)).Sublist (q.entries.map (·.batch)) ∧
      ∃ front back, q.pending = front ++ batch :: back ∧ after.pending = front ++ back := by
  obtain ⟨before, w, rest, split, awaited, rfl, rfl⟩ := reject_cases done
  obtain ⟨own, undecided⟩ := isPending_of_awaits awaited
  refine ⟨own, rfl, ?_, (before.filter (·.isPending)).map (·.batch),
    (rest.filter (·.isPending)).map (·.batch), ?_, ?_⟩
  · rw [split]
    exact ((List.sublist_cons_self w rest).append_left before).map _
  · simp [pending, split, undecided]
  · simp [pending]

/-- A batch without a decision is waited for. -/
theorem awaited_of_pending {q : WriteQueue} {id : BatchId}
    (pending : ∃ batch ∈ q.pending, batch.id = id) :
    (∀ commit, ∃ batch after, q.acknowledge? id commit = some (batch, after)) ∧
      ∃ batch after, q.reject? id = some (batch, after) := by
  obtain ⟨_, member, rfl⟩ := pending
  obtain ⟨w, kept, rfl⟩ := List.mem_map.mp member
  obtain ⟨queued, undecided⟩ := List.mem_filter.mp kept
  have found : (q.entries.find? (·.awaits w.batch.id)).isSome = true :=
    List.find?_isSome.mpr ⟨w, queued, by simp [QueuedWrite.awaits, undecided]⟩
  obtain ⟨first, found⟩ := Option.isSome_iff_exists.mp found
  simp [acknowledge?, reject?, found]

/-- Nothing is decided of a batch that nobody waits for. -/
theorem decide_none {q : WriteQueue} {id : BatchId} (decided : ∀ batch ∈ q.pending, batch.id ≠ id) :
    (∀ commit, q.acknowledge? id commit = none) ∧ q.reject? id = none := by
  have missing : q.entries.find? (·.awaits id) = none := by
    refine List.find?_eq_none.mpr fun w member awaited => ?_
    obtain ⟨own, undecided⟩ := isPending_of_awaits awaited
    exact decided w.batch
      (List.mem_map_of_mem (List.mem_filter.mpr ⟨member, undecided⟩)) own
  simp [acknowledge?, reject?, missing]

end WriteQueue

/-- What an engine and its store know of writes. -/
structure Ledger where
  /-- The queued batches, oldest first. -/
  queued : List MutationBatch
  /-- Those among them that the server has not decided. -/
  pending : List MutationBatch
  nextId : Nat
  /-- The batches that the store holds without a decision. -/
  stored : ExtTreeMap BatchId MutationBatch
  /-- The decisions in the store, oldest first. -/
  outcomes : List (BatchId × WriteOutcome)
  failing : List StoreCall
  /-- The batches whose submitters are to be told. -/
  awaited : ExtTreeSet BatchId
  /-- What submitters were told. -/
  told : List (BatchId × WriteOutcome)
  /-- How many batches were submitted. -/
  submitted : Nat
  /-- How many decisions came. -/
  decided : Nat

namespace Ledger

/-- A batch is queued under the next number and stored, and its submitter waits. -/
def accept (l : Ledger) (mutations : List Mutation) : Ledger :=
  let batch : MutationBatch := ⟨⟨l.nextId⟩, mutations⟩
  { l with
    queued := l.queued ++ [batch]
    pending := l.pending ++ [batch]
    nextId := l.nextId + 1
    stored := l.stored.insert batch.id batch
    awaited := l.awaited.insert batch.id
    submitted := l.submitted + 1 }

/-- The decision on a batch is recorded, and told to its submitter. -/
def decide (l : Ledger) (id : BatchId) (outcome : WriteOutcome)
    (queued pending : List MutationBatch) : Ledger :=
  { l with
    queued, pending
    stored := l.stored.erase id
    outcomes := l.outcomes ++ [(id, outcome)]
    awaited := l.awaited.erase id
    told := l.told ++ if l.awaited.contains id then [(id, outcome)] else []
    decided := l.decided + 1 }

/-- Step l accepted after: the entry that leads from one ledger to the next, and the number of the
    batch that is accepted by it. -/
inductive Step (l : Ledger) : Option BatchId → Ledger → Prop
  | none : Step l none l
  | accept (mutations : List Mutation) : Step l (some ⟨l.nextId⟩) (l.accept mutations)
  /-- A batch that cannot be stored uses up its number. -/
  | refuse : Step l none { l with nextId := l.nextId + 1 }
  | decide {batch : MutationBatch} {front back queued : List MutationBatch} (outcome : WriteOutcome)
    (awaited : l.pending = front ++ batch :: back) (fewer : queued.Sublist l.queued)
    (kept : (front ++ back).Sublist queued) :
    Step l none (l.decide batch.id outcome queued (front ++ back))
  /-- Batches that were acknowledged before leave the queue. -/
  | release {queued : List MutationBatch} (fewer : queued.Sublist l.queued)
    (kept : l.pending.Sublist queued) : Step l none { l with queued }

theorem Step.of_same {l after : Ledger} (same : after = l) : l.Step .none after := same ▸ .none

end Ledger

/-- The number of the batch that a call accepted. -/
def Engine.Reply.batch? : Engine.Reply → Option BatchId
  | .batch id => some id
  | _ => none

namespace Engine

/-- What the engine and its store know of writes. -/
def ledger (e : Engine) : Ledger where
  queued := e.queue.entries.map (·.batch)
  pending := e.queue.pending
  nextId := e.queue.nextId
  stored := e.store.pending
  outcomes := e.store.outcomes
  failing := e.store.failing
  awaited := e.awaited
  told := e.decisions
  submitted := e.stats.writesSubmitted
  decided := e.stats.writesAcknowledged + e.stats.writesRejected

section Frames

/-- Steps that leave the ledger alone, one after the other. -/
theorem ledger_foldl {α : Type} {step : Engine → α → Engine}
    (each : ∀ e a, (step e a).ledger = e.ledger) (steps : List α) (e : Engine) :
    (steps.foldl step e).ledger = e.ledger := by
  induction steps generalizing e with
  | nil => rfl
  | cons a rest ih => exact (ih (step e a)).trans (each e a)

/-- Sending batches, and having to send them again, changes no entry. -/
theorem ledger_resend {e : Engine} {queue : WriteQueue}
    (same : queue.entries.map (fun w => (w.batch, w.status)) =
      e.queue.entries.map fun w => (w.batch, w.status))
    (next : queue.nextId = e.queue.nextId) : { e with queue }.ledger = e.ledger := by
  have queued (q : WriteQueue) : q.entries.map (·.batch) =
      (q.entries.map fun w => (w.batch, w.status)).map (·.1) := by
    rw [List.map_map]
    rfl
  have pending (q : WriteQueue) : q.pending =
      ((q.entries.map fun w => (w.batch, w.status)).filter (·.2 == .pending)).map (·.1) := by
    rw [List.filter_map, List.map_map]
    rfl
  unfold ledger
  rw [queued queue, pending queue, same, ← queued, ← pending, next]

theorem ledger_markAllUnsent (e : Engine) :
    { e with queue := e.queue.markAllUnsent }.ledger = e.ledger :=
  ledger_resend e.queue.map_markAllUnsent rfl

theorem ledger_deliver (e : Engine) (id : ListenerId) (l : Listener) (event : ListenEvent) :
    (e.deliver id l event).ledger = e.ledger := by
  unfold deliver
  split <;> rfl

theorem ledger_inform (e : Engine) (v : View) (flags : Flags) (id : ListenerId) :
    (e.inform v flags id).ledger = e.ledger := by
  unfold inform
  split
  case h_1 => rfl
  case h_2 =>
    split
    case h_1 => rfl
    case h_2 => exact ledger_deliver _ _ _ _

theorem ledger_dispatch (e : Engine) (id : TargetId) : (e.dispatch id).ledger = e.ledger := by
  unfold dispatch
  split
  · rfl
  · exact ledger_foldl (fun e id => ledger_inform e _ _ id) _ e

theorem ledger_recompute (e : Engine) (id : TargetId) : (e.recompute id).ledger = e.ledger := by
  unfold recompute
  split
  · rfl
  · exact ledger_dispatch _ id

theorem ledger_refresh (e : Engine) (batches : List MutationBatch) :
    (e.refresh batches).ledger = e.ledger :=
  ledger_foldl ledger_recompute _ e

theorem ledger_dispatchAll (e : Engine) : e.dispatchAll.ledger = e.ledger :=
  ledger_foldl ledger_dispatch _ e

/-- Views are stored apart from writes. -/
theorem ledger_saveView (e : Engine) (id : TargetId) : (e.saveView id).ledger = e.ledger := by
  unfold saveView
  split
  case h_1 => rfl
  case h_2 v viewed =>
    split
    case isFalse => rfl
    case isTrue =>
      unfold Store.saveView Store.attempt
      split <;> rfl

theorem ledger_absorb (event : RemoteEvent) (e : Engine) (id : TargetId) :
    (absorb event e id).ledger = e.ledger := by
  unfold absorb
  split <;> rfl

theorem ledger_endListener (event : ListenEvent) (e : Engine) (id : ListenerId) :
    (endListener event e id).ledger = e.ledger := by
  unfold endListener
  split
  · rfl
  · exact ledger_deliver _ _ _ _

theorem ledger_rejectTarget (e : Engine) (r : Rejection) :
    (e.rejectTarget r).ledger = e.ledger := by
  unfold rejectTarget
  dsimp only
  split
  · rfl
  · exact ledger_foldl (ledger_endListener _) _ _

theorem ledger_rejectTargets (e : Engine) (rejections : List Rejection) :
    (e.rejectTargets rejections).ledger = e.ledger :=
  ledger_foldl ledger_rejectTarget rejections e

theorem ledger_resync (e : Engine) : e.resync.ledger = e.ledger :=
  have stopped : e.startedOver.ledger = e.ledger := e.ledger_markAllUnsent
  (ledger_dispatchAll e.startedOver).trans stopped

theorem ledger_ensureView (e : Engine) (id : TargetId) (t : Target) :
    (e.ensureView id t).ledger = e.ledger := by
  unfold ensureView
  split <;> rfl

theorem ledger_listen (e : Engine) (t : Target) : (e.listen t).2.ledger = e.ledger :=
  (ledger_dispatch _ _).trans (ledger_ensureView _ _ _)

theorem ledger_unlisten {e after : Engine} {listener : ListenerId}
    (left : e.unlisten listener = .ok after) : after.ledger = e.ledger := by
  obtain ⟨entry, -, rfl | rfl⟩ := unlisten_cases left
  · rfl
  · exact ledger_saveView (e.forget listener entry.target) entry.target

theorem ledger_streamClosed (e : Engine) (error : Option StreamError) (now : Duration) :
    (e.streamClosed error now).2.ledger = e.ledger :=
  have stopped : (e.cutOff error now).ledger = e.ledger := e.ledger_markAllUnsent
  ((ledger_dispatchAll _).trans (ledger_rejectTargets (e.cutOff error now) _)).trans stopped

theorem ledger_disconnect (e : Engine) : e.disconnect.ledger = e.ledger := by
  unfold disconnect
  split
  · exact (ledger_dispatchAll _).trans
      (ledger_markAllUnsent { e with stream := e.stream.disconnect })
  · rfl

theorem ledger_interrupt (e : Engine) : e.interrupt.ledger = e.ledger := by
  unfold interrupt
  split
  · exact ledger_disconnect { e with enabled := false }
  · rfl

theorem ledger_takeOutbound (e : Engine) : e.takeOutbound.2.ledger = e.ledger := by
  unfold takeOutbound
  split
  · exact ledger_resend (WriteQueue.map_takeFrom _ e.queue.entries) rfl
  · rfl

end Frames

/-- A batch is stored before it is accepted. Where that fails the queue forgets it again. -/
theorem ledger_submit {e : Engine} (numbered : e.queue.Numbered) (mutations : List Mutation) :
    ((e.submit mutations).2 = .ok ⟨e.queue.nextId⟩ ∧
      (e.submit mutations).1.ledger = e.ledger.accept mutations) ∨
    (∃ fault, (e.submit mutations).2 = .error fault) ∧
      (e.submit mutations).1.ledger = { e.ledger with nextId := e.queue.nextId + 1 } := by
  unfold submit
  dsimp only
  cases stored : e.store.saveWrite (e.queue.append mutations).1 with
  | error fault =>
    refine .inr ⟨⟨fault, rfl⟩, ?_⟩
    dsimp only
    rw [WriteQueue.reject_append numbered mutations]
    rfl
  | ok store =>
    refine .inl ⟨rfl, ?_⟩
    dsimp only
    rw [ledger_refresh]
    unfold Store.saveWrite Store.attempt at stored
    split at stored
    case isTrue => cases stored
    case isFalse =>
      cases stored
      unfold ledger Ledger.accept
      dsimp only
      rw [WriteQueue.pending_append]
      simp [WriteQueue.append]

/-- A decision is recorded if the store is able to, and told if somebody waits for it. -/
theorem ledger_decide {e : Engine} (records : StoreCall.saveOutcome ∉ e.store.failing)
    (id : BatchId) (outcome : WriteOutcome) (queue : WriteQueue) (stats : Stats)
    (counted : stats.writesAcknowledged + stats.writesRejected = e.ledger.decided + 1)
    (submitted : stats.writesSubmitted = e.ledger.submitted)
    (next : queue.nextId = e.queue.nextId) :
    ({ e with queue, stats }.decide id outcome).ledger =
      e.ledger.decide id outcome (queue.entries.map (·.batch)) queue.pending := by
  have saved : ({ e with queue, stats } : Engine).store.saveOutcome id outcome =
      .ok { e.store with
        pending := e.store.pending.erase id
        outcomes := e.store.outcomes ++ [(id, outcome)] } := by
    have works : e.store.failing.contains .saveOutcome = false := by simpa using records
    rw [Store.saveOutcome, Store.attempt, works]
    rfl
  unfold Engine.decide
  dsimp only
  rw [saved]
  unfold ledger Ledger.decide
  dsimp only [Store.orUnchanged]
  split
  case isTrue waiting =>
    dsimp only
    rw [counted, submitted, next]
    rfl
  case isFalse nobody =>
    have absent : id ∉ e.awaited := mt ExtTreeSet.mem_iff_contains.mp nobody
    dsimp only
    rw [erase_of_not_mem absent, counted, submitted, next, List.append_nil]
    rfl

/-- What is let go was decided before. -/
theorem ledger_release (e : Engine) (version : Version) :
    { e with queue := (e.queue.release version).2 }.ledger =
      { e.ledger with queued := (e.queue.release version).2.entries.map (·.batch) } := by
  unfold ledger
  dsimp only
  rw [WriteQueue.pending_release]
  rfl

/-- An acknowledgement is put down once, and lets go of what the server is known to show. -/
theorem ledger_acknowledge {e : Engine} (records : StoreCall.saveOutcome ∉ e.store.failing)
    {id : BatchId} {commit : Version} {batch : MutationBatch} {queue : WriteQueue}
    (done : e.queue.acknowledge? id commit = some (batch, queue)) :
    batch.id = id ∧ ∃ front back queued, e.ledger.pending = front ++ batch :: back ∧
      queued.Sublist e.ledger.queued ∧ (front ++ back).Sublist queued ∧
      (e.acknowledge id commit).ledger =
        e.ledger.decide id (.acknowledged commit) queued (front ++ back) := by
  obtain ⟨rfl, next, same, front, back, waiting, left⟩ := WriteQueue.pending_acknowledge done
  let stats := { e.stats with writesAcknowledged := e.stats.writesAcknowledged + 1 }
  have decided := ledger_decide records batch.id (.acknowledged commit) queue stats
    (Nat.add_right_comm _ _ _) rfl next
  let after := { e with queue, stats }.decide batch.id (.acknowledged commit)
  have kept : after.queue = queue :=
    (sameBooks_decide { e with queue, stats } batch.id (.acknowledged commit)).queue
  have released := queue.pending_release after.lastSnapshot
  refine ⟨rfl, front, back, (queue.release after.lastSnapshot).2.entries.map (·.batch), waiting,
    ?_, ?_, ?_⟩
  · have fewer := queue.release_sublist after.lastSnapshot
    rwa [same] at fewer
  · rw [← left, ← released]
    exact WriteQueue.pending_sublist _
  · unfold acknowledge
    rw [done]
    dsimp only
    rw [ledger_refresh, ledger_release, decided, left, kept]
    rfl

/-- A rejection is put down once. -/
theorem ledger_reject {e : Engine} (records : StoreCall.saveOutcome ∉ e.store.failing)
    {id : BatchId} (status : Status) {batch : MutationBatch} {queue : WriteQueue}
    (done : e.queue.reject? id = some (batch, queue)) :
    batch.id = id ∧ ∃ front back queued, e.ledger.pending = front ++ batch :: back ∧
      queued.Sublist e.ledger.queued ∧ (front ++ back).Sublist queued ∧
      (e.reject id status).ledger =
        e.ledger.decide id (.rejected status) queued (front ++ back) := by
  obtain ⟨rfl, next, fewer, front, back, waiting, left⟩ := WriteQueue.pending_reject done
  let stats := { e.stats with writesRejected := e.stats.writesRejected + 1 }
  have decided := ledger_decide records batch.id (.rejected status) queue stats
    (Nat.add_assoc _ _ 1).symm rfl next
  refine ⟨rfl, front, back, _, waiting, fewer, left ▸ queue.pending_sublist, ?_⟩
  unfold reject
  rw [done]
  dsimp only
  rw [ledger_refresh, decided, left]

theorem step_acknowledge {e : Engine} (records : StoreCall.saveOutcome ∉ e.store.failing)
    (id : BatchId) (commit : Version) :
    e.ledger.Step none (e.acknowledge id commit).ledger := by
  cases done : e.queue.acknowledge? id commit with
  | none =>
    rw [acknowledge, done]
    exact .none
  | some decided =>
    obtain ⟨rfl, front, back, queued, waiting, fewer, kept, entry⟩ :=
      ledger_acknowledge records done
    rw [entry]
    exact .decide (.acknowledged commit) waiting fewer kept

theorem step_reject {e : Engine} (records : StoreCall.saveOutcome ∉ e.store.failing)
    (id : BatchId) (status : Status) : e.ledger.Step none (e.reject id status).ledger := by
  cases done : e.queue.reject? id with
  | none =>
    rw [reject, done]
    exact .none
  | some decided =>
    obtain ⟨rfl, front, back, queued, waiting, fewer, kept, entry⟩ :=
      ledger_reject records status done
    rw [entry]
    exact .decide (.rejected status) waiting fewer kept

/-- What is pending is decided as the server says. -/
theorem outcomes_decided {e : Engine} (records : StoreCall.saveOutcome ∉ e.store.failing)
    {id : BatchId} (pending : ∃ batch ∈ e.queue.pending, batch.id = id) :
    (∀ commit, (e.acknowledge id commit).store.outcomes =
        e.store.outcomes ++ [(id, .acknowledged commit)]) ∧
      ∀ status, (e.reject id status).store.outcomes =
        e.store.outcomes ++ [(id, .rejected status)] := by
  obtain ⟨acknowledged, rejected⟩ := WriteQueue.awaited_of_pending pending
  refine ⟨fun commit => ?_, fun status => ?_⟩
  · obtain ⟨batch, queue, done⟩ := acknowledged commit
    obtain ⟨-, front, back, queued, -, -, -, entry⟩ := ledger_acknowledge records done
    exact congrArg Ledger.outcomes entry
  · obtain ⟨batch, queue, done⟩ := rejected
    obtain ⟨-, front, back, queued, -, -, -, entry⟩ := ledger_reject records status done
    exact congrArg Ledger.outcomes entry

/-- A snapshot lets go of the batches that it catches up with. -/
theorem step_applyRemote {e after : Engine} {event : RemoteEvent}
    (applied : e.applyRemote event = .ok after) : e.ledger.Step none after.ledger := by
  obtain ⟨-, made, shown, rfl⟩ := applyRemote_eq applied
  let taken := event.affected.toList.foldl (absorb event) e
  have absorbed : taken.ledger = e.ledger := ledger_foldl (ledger_absorb event) _ e
  have released : made.ledger =
      { e.ledger with queued := (taken.queue.release event.version).2.entries.map (·.batch) } := by
    have saved (e : Engine) (id : TargetId) : ((e.recompute id).saveView id).ledger = e.ledger :=
      (ledger_saveView _ id).trans (ledger_recompute e id)
    rw [shown, ledger_foldl saved, ← absorbed]
    exact ledger_release taken event.version
  have fewer := taken.queue.release_sublist event.version
  have remain := (taken.queue.release event.version).2.pending_sublist
  rw [WriteQueue.pending_release] at remain
  change e.ledger.Step none made.ledger
  rw [released]
  refine .release ?_ ?_
  · rw [← absorbed]
    exact fewer
  · rw [← absorbed]
    exact remain

/-- A report makes no entry, unless it is a snapshot that is applied. A fault changes nothing. -/
theorem step_receive (e : Engine) (change : WatchChange) :
    e.ledger.Step none (e.receive change).ledger := by
  by_cases opened : e.stream.state = .opened
  case neg =>
    rw [receive, if_pos opened]
    exact .none
  case pos =>
    rw [receive_eq opened]
    split
    case h_1 => exact .none
    case h_2 event done =>
      split
      case h_1 applied =>
        have step := step_applyRemote applied
        exact step
      case h_2 => exact .of_same (ledger_resync { e with stream := (e.stream.receive change).1 })
    case h_3 rejections done =>
      exact .of_same
        (ledger_rejectTargets { e with stream := (e.stream.receive change).1 } rejections)
    case h_4 => exact .of_same (ledger_resync { e with stream := (e.stream.receive change).1 })

theorem step_handle {e : Engine} (records : StoreCall.saveOutcome ∉ e.store.failing)
    (event : StreamEvent) (now : Duration) :
    e.ledger.Step none (e.handle event now).2.ledger := by
  cases event with
  | opened => exact .of_same (ledger_markAllUnsent { e with stream := e.stream.opened now })
  | watch change => exact step_receive e change
  | writeAcked id commit => exact step_acknowledge records id commit
  | writeRejected id status => exact step_reject records id status
  | closed error => exact .of_same (ledger_streamClosed e error now)

/-- Every call makes one entry at most, and only an accepted batch is replied with its number. -/
theorem step_perform {e : Engine} (numbered : e.queue.Numbered)
    (records : StoreCall.saveOutcome ∉ e.store.failing) (action : Action) :
    e.ledger.Step (e.perform action).1.batch? (e.perform action).2.ledger := by
  cases action with
  | connect =>
    unfold Engine.perform Engine.connect?
    cases e.stream.connect? with
    | none => exact .none
    | some stream => exact .none
  | handle event now => exact step_handle records event now
  | listen t => exact .of_same (ledger_listen e t)
  | unlisten listener =>
    cases left : e.unlisten listener with
    | error => simpa only [Engine.perform, left, orRefuse] using .none
    | ok after =>
      simp only [Engine.perform, left, orRefuse]
      exact .of_same (ledger_unlisten left)
  | submit mutations =>
    have entry := ledger_submit numbered mutations
    rcases submitted : e.submit mutations with ⟨after, result⟩
    rw [submitted] at entry
    simp only [Engine.perform, submitted]
    rcases entry with ⟨rfl, taken⟩ | ⟨⟨fault, rfl⟩, refused⟩
    · dsimp only at taken ⊢
      rw [taken]
      exact .accept mutations
    · dsimp only at refused ⊢
      rw [refused]
      exact .refuse
  | takeOutbound => exact .of_same (ledger_takeOutbound e)
  | applyRemote event =>
    cases applied : e.applyRemote event with
    | error => simpa only [Engine.perform, applied, orRefuse] using .none
    | ok after =>
      simp only [Engine.perform, applied, orRefuse]
      exact step_applyRemote applied
  | interrupt => exact .of_same (ledger_interrupt e)
  | resume => exact .none
  | disconnect => exact .of_same (ledger_disconnect e)
  | resync => exact .of_same (ledger_resync e)
  | takeRestart => exact .none

end Engine

end LiveQuery
