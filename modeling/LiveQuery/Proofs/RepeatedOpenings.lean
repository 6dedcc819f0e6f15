import LiveQuery.Proofs.CompleteViews
import LiveQuery.Proofs.RemarkedEngines

/-!
# Word that the stream opens, once more

Word that the stream accepts requests may come again on a stream that does. Everything
but the queue disregards it. The queue loses its marks, so the batches on the wire that
are not decided by then are written once more, before any others, when the outbox is
drained next. That drain aside, nothing differs from what would have happened without
the second word, and if nothing was on the wire that drain does not differ either.

The batches on the wire are always the oldest ones that are not decided, and as many as
are allowed at most. So those written once more are no more batches than the stream had.
-/

namespace LiveQuery

open Std

namespace WriteQueue

/-- Shifts q limit used r: what a call may do to a queue, and how many numbers it uses up. -/
inductive Shifts (q : WriteQueue) (limit : Nat) : Nat → WriteQueue → Prop
  | fewer {used : Nat} {r : WriteQueue}
    (fewer : (r.entries.filter (·.isPending)).Sublist (q.entries.filter (·.isPending)))
    (nextId : r.nextId = q.nextId + used) : Shifts q limit used r
  | append (mutations : List Mutation) : Shifts q limit 1 (q.append mutations).2
  | unsent : Shifts q limit 0 q.markAllUnsent
  | taken : Shifts q limit 0 (q.takeUnsent limit).2

theorem Shifts.of_same {q r : WriteQueue} {limit : Nat} (same : r = q) : q.Shifts limit 0 r :=
  .fewer (same ▸ .refl _) (congrArg nextId same)

theorem Shifts.window {q r : WriteQueue} {limit used : Nat} (shifts : q.Shifts limit used r)
    (window : q.InWindow limit) : r.InWindow limit := by
  cases shifts with
  | fewer fewer => exact window.fewer fewer
  | append mutations => exact window.append mutations
  | unsent => exact .unsent q limit
  | taken => exact window.takeUnsent

theorem Shifts.nextId {q r : WriteQueue} {limit used : Nat} (shifts : q.Shifts limit used r) :
    r.nextId = q.nextId + used := by
  cases shifts with
  | fewer _ nextId => exact nextId
  | append | unsent | taken => rfl

/-- Only an undecided batch is decided on. -/
theorem shifts_acknowledge {q r : WriteQueue} {id : BatchId} {commit : Version}
    {batch : MutationBatch} (done : q.acknowledge? id commit = some (batch, r)) (limit : Nat) :
    q.Shifts limit 0 r := by
  obtain ⟨before, w, rest, split, -, awaited, rfl, rfl⟩ := acknowledge_cases done
  refine .fewer ?_ rfl
  have decided : QueuedWrite.isPending { w with status := .acknowledged commit } = false := rfl
  rw [split, List.filter_append, List.filter_append, List.filter_cons, decided]
  exact (List.Sublist.refl _).append ((List.sublist_cons_self w rest).filter _)

theorem shifts_reject {q r : WriteQueue} {id : BatchId} {batch : MutationBatch}
    (done : q.reject? id = some (batch, r)) (limit : Nat) : q.Shifts limit 0 r := by
  obtain ⟨before, w, rest, split, awaited, rfl, rfl⟩ := reject_cases done
  refine .fewer ?_ rfl
  rw [split]
  exact ((List.Sublist.refl before).append (List.sublist_cons_self w rest)).filter _

theorem shifts_release (q : WriteQueue) (version : Version) (limit : Nat) :
    q.Shifts limit 0 (q.release version).2 :=
  .fewer (List.filter_sublist.filter _) rfl

end WriteQueue

namespace Engine

/-- A call that submits a batch. -/
def Action.isSubmit : Action → Bool
  | .submit _ => true
  | _ => false

section Queue

variable {e : Engine}

theorem queue_dispatchAll (e : Engine) : e.dispatchAll.queue = e.queue :=
  (OnlyTells.foldl onlyTells_dispatch _ e).queue

theorem queue_refresh (e : Engine) (batches : List MutationBatch) :
    (e.refresh batches).queue = e.queue :=
  queue_foldl queue_recompute _ e

theorem queue_rejectTargets (e : Engine) (rejections : List Rejection) :
    (e.rejectTargets rejections).queue = e.queue :=
  queue_foldl queue_rejectTarget rejections e

theorem queue_resync (e : Engine) : e.resync.queue = e.queue.markAllUnsent :=
  queue_dispatchAll e.startedOver

theorem queue_streamClosed (e : Engine) (error : Option StreamError) (now : Duration) :
    (e.streamClosed error now).2.queue = e.queue.markAllUnsent :=
  (queue_dispatchAll _).trans (queue_rejectTargets _ _)

theorem queue_disconnect (e : Engine) :
    e.disconnect.queue = e.queue.markAllUnsent ∨ e.disconnect.queue = e.queue := by
  unfold disconnect
  split
  case isTrue => exact .inl (queue_dispatchAll _)
  case isFalse => exact .inr rfl

theorem queue_listen (e : Engine) (t : Target) : (e.listen t).2.queue = e.queue :=
  (onlyTells_dispatch _ _).queue.trans (queue_ensureView _ _ t)

theorem queue_unlisten {after : Engine} {x : ListenerId} (left : e.unlisten x = .ok after) :
    after.queue = e.queue := by
  obtain ⟨l, -, rfl | rfl⟩ := unlisten_cases left
  · rfl
  · exact (sameBooks_saveView (e.forget x l.target) l.target).queue

section Shifts

variable (limit : Nat)

theorem shifts_applyRemote {after : Engine} {event : RemoteEvent}
    (applied : e.applyRemote event = .ok after) : e.queue.Shifts limit 0 after.queue :=
  queue_applyRemote applied ▸ e.queue.shifts_release event.version limit

theorem shifts_receive (e : Engine) (change : WatchChange) :
    e.queue.Shifts limit 0 (e.receive change).queue := by
  by_cases opened : e.stream.state = .opened
  · let base : Engine := { e with stream := (e.stream.receive change).1 }
    have resynced : e.queue.Shifts limit 0 base.resync.queue := queue_resync base ▸ .unsent
    rw [receive_eq opened]
    split
    case h_1 => exact .of_same rfl
    case h_2 event _ =>
      split
      case h_1 applied =>
        have released := shifts_applyRemote limit applied
        exact released
      case h_2 => exact resynced
    case h_3 rejections _ => exact .of_same (queue_rejectTargets base rejections)
    case h_4 => exact resynced
  · have same : e.receive change = e := if_pos opened
    exact .of_same (congrArg queue same)

theorem shifts_acknowledge (e : Engine) (id : BatchId) (commit : Version) :
    ∃ middle, e.queue.Shifts limit 0 middle ∧
      middle.Shifts limit 0 (e.acknowledge id commit).queue := by
  unfold acknowledge
  split
  case h_1 => exact ⟨e.queue, .of_same rfl, .of_same rfl⟩
  case h_2 batch queue done =>
    let stats := { e.stats with writesAcknowledged := e.stats.writesAcknowledged + 1 }
    have told := (sameBooks_decide { e with queue, stats } id (.acknowledged commit)).queue
    refine ⟨queue, WriteQueue.shifts_acknowledge done limit, ?_⟩
    dsimp only
    rw [queue_refresh, told]
    exact queue.shifts_release _ limit

theorem shifts_reject (e : Engine) (id : BatchId) (status : Status) :
    e.queue.Shifts limit 0 (e.reject id status).queue := by
  unfold reject
  split
  case h_1 => exact .of_same rfl
  case h_2 batch queue done =>
    let stats := { e.stats with writesRejected := e.stats.writesRejected + 1 }
    have told := (sameBooks_decide { e with queue, stats } id (.rejected status)).queue
    rw [queue_refresh, told]
    exact WriteQueue.shifts_reject done limit

/-- A batch that cannot be stored is taken back, but not its number. -/
theorem shifts_submit (numbered : e.queue.Numbered) (mutations : List Mutation) :
    e.queue.Shifts limit 1 (e.submit mutations).1.queue := by
  unfold submit
  dsimp only
  split
  case h_1 =>
    dsimp only
    rw [WriteQueue.reject_append numbered mutations]
    exact .fewer (.refl _) rfl
  case h_2 =>
    rw [queue_refresh]
    exact .append mutations

/-- The end of a stream takes all marks. -/
theorem shifts_disconnect (e : Engine) : e.queue.Shifts limit 0 e.disconnect.queue := by
  rcases queue_disconnect e with unsent | still
  · rw [unsent]
    exact .unsent
  · exact .of_same still

end Shifts

/-- Whatever is called does at most two things to the queue, and the first uses up no number. -/
theorem shifts_perform (numbered : e.queue.Numbered) (action : Action) :
    let limit := e.config.maxWritesInFlight
    ∃ middle, e.queue.Shifts limit 0 middle ∧
      middle.Shifts limit (if action.isSubmit then 1 else 0) (e.perform action).2.queue := by
  intro limit
  -- Only an acknowledgement takes both steps: it decides on a batch and lets others go.
  have once {used : Nat} {r : WriteQueue} (shifts : e.queue.Shifts limit used r) :
      ∃ middle, e.queue.Shifts limit 0 middle ∧ middle.Shifts limit used r :=
    ⟨e.queue, .of_same rfl, shifts⟩
  cases action with
  | connect =>
    unfold perform connect?
    cases e.stream.connect? with
    | none => exact once (.of_same rfl)
    | some stream => exact once (.of_same rfl)
  | handle event now =>
    cases event with
    | opened => exact once .unsent
    | watch change => exact once (shifts_receive limit e change)
    | writeAcked id commit => exact shifts_acknowledge limit e id commit
    | writeRejected id status => exact once (shifts_reject limit e id status)
    | closed error =>
      have resent : e.queue.Shifts limit 0 e.queue.markAllUnsent := .unsent
      exact once (queue_streamClosed e error now ▸ resent)
  | listen t => exact once (.of_same (queue_listen e t))
  | unlisten x =>
    cases left : e.unlisten x with
    | error fault =>
      simp only [perform, left, orRefuse]
      exact once (.of_same rfl)
    | ok after =>
      simp only [perform, left, orRefuse]
      exact once (.of_same (queue_unlisten left))
  | submit mutations =>
    rw [perform_submit]
    exact once (shifts_submit limit numbered mutations)
  | takeOutbound =>
    change ∃ middle, e.queue.Shifts limit 0 middle ∧ middle.Shifts limit 0 e.takeOutbound.2.queue
    unfold takeOutbound
    split
    case isTrue => exact once .taken
    case isFalse => exact once (.of_same rfl)
  | applyRemote event =>
    cases applied : e.applyRemote event with
    | error fault =>
      simp only [perform, applied, orRefuse]
      exact once (.of_same rfl)
    | ok after =>
      simp only [perform, applied, orRefuse]
      exact once (shifts_applyRemote limit applied)
  | interrupt =>
    change ∃ middle, e.queue.Shifts limit 0 middle ∧ middle.Shifts limit 0 e.interrupt.queue
    unfold interrupt
    split
    case isTrue => exact once (shifts_disconnect limit { e with enabled := false })
    case isFalse => exact once (.of_same rfl)
  | resume => exact once (.of_same rfl)
  | disconnect => exact once (shifts_disconnect limit e)
  | resync =>
    have resent : e.queue.Shifts limit 0 e.queue.markAllUnsent := .unsent
    exact once (queue_resync e ▸ resent)
  | takeRestart => exact once (.of_same rfl)

/-- Whatever is called, the batches on the wire stay in the window. -/
theorem window_perform (numbered : e.queue.Numbered)
    (window : e.queue.InWindow e.config.maxWritesInFlight) (action : Action) :
    (e.perform action).2.queue.InWindow e.config.maxWritesInFlight := by
  obtain ⟨middle, first, second⟩ := shifts_perform numbered action
  exact second.window (first.window window)

/-- Only submitting uses up numbers of batches. -/
theorem nextId_perform (numbered : e.queue.Numbered) (action : Action) :
    (e.perform action).2.queue.nextId =
      e.queue.nextId + if action.isSubmit then 1 else 0 := by
  obtain ⟨middle, first, second⟩ := shifts_perform numbered action
  rw [second.nextId, first.nextId, Nat.add_zero]

/-- In every engine that comes about the batches on the wire are in the window. -/
theorem Reachable.window (reached : e.Reachable) :
    e.queue.InWindow e.config.maxWritesInFlight := by
  induction reached with
  | @start config _ _ read =>
    obtain ⟨pending, rfl⟩ := ofStore_eq read
    have unmarked : (WriteQueue.ofBatches pending).markAllUnsent = .ofBatches pending := by
      simp [WriteQueue.ofBatches, WriteQueue.markAllUnsent]
    exact unmarked ▸ .unsent (.ofBatches pending) config.maxWritesInFlight
  | @perform e reached action ih =>
    have same : (e.perform action).2.config = e.config := e.config_meet (.call action)
    rw [same]
    exact window_perform reached.settled.numbered ih action
  | detach _ id ih => exact ih
  | restock _ store ih => exact ih

end Queue

/-! ## Runs -/

/-- What is answered to a call. To anything else nothing is. -/
def replyTo (e : Engine) : Happening → Reply
  | .call action => (e.perform action).1
  | _ => .done

/-- The answers to all that befalls an engine, in order. -/
def repliesTo (e : Engine) : List Happening → List Reply
  | [] => []
  | happening :: rest => e.replyTo happening :: (e.meet happening).repliesTo rest

end Engine

/-- The outbox of an open stream is drained. -/
def Moment.Drains (m : Moment) : Prop :=
  m.happening = .call .takeOutbound ∧ m.before.stream.state = .opened

namespace Engine

section Runs

variable {μ : Marking} {e f : Engine}

/-- Engines that agree but for marks answer alike and go on to agree, drains aside. -/
theorem Remarked.meet (remarked : e.Remarked μ f) {happening : Happening}
    (drains : Moment.Drains ⟨e, happening⟩ → μ = .kept) :
    f.replyTo happening = e.replyTo happening ∧
      (e.meet happening).Remarked μ (f.meet happening) := by
  cases happening with
  | call action => exact remarked.perform fun taken opened => drains ⟨taken ▸ rfl, opened⟩
  | detach id =>
    obtain ⟨q, queued, rfl⟩ := remarked
    exact ⟨rfl, q, queued, rfl⟩
  | restock store =>
    obtain ⟨q, queued, rfl⟩ := remarked
    exact ⟨rfl, q, queued, rfl⟩

theorem Remarked.meetAll (remarked : e.Remarked μ f) {happenings : List Happening}
    (drains : ∀ m ∈ e.momentsOf happenings, m.Drains → μ = .kept) :
    f.repliesTo happenings = e.repliesTo happenings ∧
      (e.meetAll happenings).Remarked μ (f.meetAll happenings) := by
  induction happenings generalizing e f with
  | nil => exact ⟨rfl, remarked⟩
  | cons happening rest ih =>
    obtain ⟨here, drains⟩ := List.forall_mem_cons.mp drains
    obtain ⟨answer, after⟩ := remarked.meet here
    obtain ⟨answers, last⟩ := ih after drains
    refine ⟨?_, last⟩
    rw [repliesTo, repliesTo, answer, answers]

theorem Reachable.meetAll (reached : e.Reachable) (happenings : List Happening) :
    (e.meetAll happenings).Reachable := by
  induction happenings generalizing e with
  | nil => exact reached
  | cons happening rest ih =>
    apply ih
    cases happening with
    | call action => exact reached.perform action
    | detach id => exact reached.detach id
    | restock store => exact reached.restock store

/-- On an open stream the second word that it opens takes the marks and nothing else. -/
theorem handle_opened (opened : e.stream.state = .opened) (now : Duration) :
    (e.handle .opened now).2 = { e with queue := e.queue.markAllUnsent } := by
  have same : e.stream.opened now = e.stream := if_pos opened
  unfold handle streamOpened
  dsimp only
  rw [same]

/-- From an open stream the outbox is taken, and batches as far as they may be under way. -/
theorem takeOutbound_of_opened (opened : e.stream.state = .opened) :
    let batches := e.queue.takeUnsent e.config.maxWritesInFlight
    e.takeOutbound = (e.stream.takeOutbox.1.map .watch ++ batches.1.map .write,
      { e with stream := e.stream.takeOutbox.2, queue := batches.2 }) := by
  intro batches
  unfold takeOutbound
  rw [if_pos opened]

/-- Word that the stream opens comes once more on an open stream. Until the outbox of an open
    stream is drained next, all is answered as without that word, and of the state only the sent
    marks are gone. That drain then hands out the same requests on targets, and before the batches
    that it would have handed out it hands out once more those that are on the wire and not
    decided. All in all these are the oldest undecided batches, and no more of them than may be
    under way. Whatever comes later is answered alike, and the states differ in no more than the
    marks of decided batches. So it is even without that drain if nothing is on the wire. -/
theorem repeated_opening_rewrites (reached : e.Reachable) (opened : e.stream.state = .opened)
    (now : Duration) {front : List Happening}
    (undrained : ∀ m ∈ e.momentsOf front, ¬m.Drains) :
    let reopened := (e.handle .opened now).2
    let before := e.meetAll front
    let again := reopened.meetAll front
    reopened.repliesTo front = e.repliesTo front ∧
      again = { before with queue := before.queue.markAllUnsent } ∧
      (before.stream.state = .opened → ∃ batches,
        before.takeOutbound.1 = before.stream.takeOutbox.1.map .watch ++ batches.map .write ∧
        again.takeOutbound.1 = before.stream.takeOutbox.1.map .watch ++
          (before.queue.onWire ++ batches).map .write ∧
        before.queue.onWire ++ batches =
          before.queue.pending.take before.config.maxWritesInFlight ∧
        ∀ back, again.takeOutbound.2.repliesTo back = before.takeOutbound.2.repliesTo back ∧
          (before.takeOutbound.2.meetAll back).Remarked .kept
            (again.takeOutbound.2.meetAll back)) ∧
      (before.queue.onWire = [] → ∀ back, again.repliesTo back = before.repliesTo back ∧
        (before.meetAll back).Remarked .kept (again.meetAll back)) := by
  intro reopened before again
  have window := (reached.meetAll front).window
  have start : e.Remarked .cleared reopened :=
    ⟨_, WriteQueue.remarked_cleared.mpr rfl, handle_opened opened now⟩
  obtain ⟨answers, last⟩ := start.meetAll fun m among drains => (undrained m among drains).elim
  have bare : again = { before with queue := before.queue.markAllUnsent } := by
    obtain ⟨queue, unmarked, same⟩ := last
    rw [WriteQueue.remarked_cleared.mp unmarked] at same
    exact same
  refine ⟨answers, bare, fun still => ?_, fun idle back => ?_⟩
  · obtain ⟨retaken, oldest⟩ := window.retake
    have drained := takeOutbound_of_opened still
    have again_still : again.stream.state = .opened := bare ▸ still
    have redrained := takeOutbound_of_opened again_still
    rw [bare] at redrained
    have kept : before.takeOutbound.2.Remarked .kept again.takeOutbound.2 := by
      rw [bare, drained, redrained]
      exact ⟨_, window.remarked_retake, rfl⟩
    refine ⟨_, congrArg Prod.fst drained, ?_, oldest, fun back => kept.meetAll fun _ _ _ => rfl⟩
    rw [← retaken, bare, redrained]
  · have kept : before.Remarked .kept again :=
      ⟨_, WriteQueue.remarked_markAllUnsent idle, bare⟩
    exact kept.meetAll fun _ _ _ => rfl

/-- A batch waits on an open stream. -/
def writing : Engine :=
  blank.run [.connect, .handle .opened .zero, .submit [.delete ⟨"c/a"⟩]]

/-- The batch is written, and it is not decided. -/
def writtenOnce : Engine := writing.takeOutbound.2

theorem reachable_writtenOnce : writtenOnce.Reachable := by
  have before : writing.Reachable := reachable_blank.run _
  exact before.perform .takeOutbound

/-- Another batch is queued after the second word. The drain hands out the one on the wire before
    it, so the stream has it twice, and both are under way then. -/
theorem reopening_rewrites_before_newer :
    let more : List Happening := [.call (.submit [.delete ⟨"c/b"⟩])]
    (∀ m ∈ writtenOnce.momentsOf more, ¬m.Drains) ∧
      ∃ batches, (writtenOnce.meetAll more).takeOutbound.1 = batches.map .write ∧
        ((writtenOnce.handle .opened .zero).2.meetAll more).takeOutbound.1 =
          (⟨⟨1⟩, [.delete ⟨"c/a"⟩]⟩ :: batches).map .write := by
  intro more
  have undrained : ∀ m ∈ writtenOnce.momentsOf more, ¬m.Drains := by
    intro m among drains
    obtain rfl := List.mem_singleton.mp among
    cases drains.1
  obtain ⟨-, -, drain, -⟩ :=
    repeated_opening_rewrites reachable_writtenOnce (by decide +kernel) .zero undrained
  have still : (writtenOnce.meetAll more).stream.state = .opened := rfl
  obtain ⟨batches, taken, retaken, -⟩ := drain still
  exact ⟨undrained, batches, taken, retaken⟩

/-- The batch is written to the stream, and nothing is left to be written. When word comes again
    that the stream opens, the batch is written to it a second time. -/
theorem reopening_writes_twice :
    let batch : MutationBatch := ⟨⟨1⟩, [.delete ⟨"c/a"⟩]⟩
    writtenOnce.Reachable ∧ writtenOnce.stream.state = .opened ∧
      writing.takeOutbound.1 = [.write batch] ∧
      writtenOnce.takeOutbound.1 = [] ∧
      (writtenOnce.handle .opened .zero).2.takeOutbound.1 = [.write batch] := by
  refine ⟨reachable_writtenOnce, by decide +kernel, ?_, ?_, ?_⟩
  · rfl
  · rfl
  · rfl

end Runs

end Engine

end LiveQuery
