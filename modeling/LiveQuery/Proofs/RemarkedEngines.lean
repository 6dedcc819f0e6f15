import LiveQuery.Proofs.SentMarks

/-!
# Engines up to marks

Two engines that agree in all but the sent marks of their queues. Both answer every call
alike, unless batches are taken from the queue, and afterwards they still agree but for
marks. What an engine shows, stores and tells depends on which batches are queued and
on what is decided of them, and not on what was sent.
-/

namespace LiveQuery

open Std

namespace Engine

/-- The engines agree but for the marks in their queues. -/
def Remarked (μ : Marking) (e f : Engine) : Prop :=
  ∃ queue, e.queue.Remarked μ queue ∧ f = { e with queue }

namespace Remarked

variable {μ : Marking} {e f : Engine}

/-- Steps that are taken alike, one after the other. -/
theorem foldl {α : Type} {step : Engine → α → Engine}
    (each : ∀ {e f : Engine}, e.Remarked μ f → ∀ a, (step e a).Remarked μ (step f a))
    (remarked : e.Remarked μ f) (steps : List α) :
    (steps.foldl step e).Remarked μ (steps.foldl step f) := by
  induction steps generalizing e f with
  | nil => exact remarked
  | cons first rest ih => exact ih (each remarked first)

theorem deliver (remarked : e.Remarked μ f) (x : ListenerId) (l : Listener)
    (event : ListenEvent) : (e.deliver x l event).Remarked μ (f.deliver x l event) := by
  obtain ⟨q, queued, rfl⟩ := remarked
  unfold Engine.deliver
  split <;> exact ⟨q, queued, rfl⟩

theorem inform (remarked : e.Remarked μ f) (v : View) (flags : Flags) (x : ListenerId) :
    (e.inform v flags x).Remarked μ (f.inform v flags x) := by
  obtain ⟨q, queued, rfl⟩ := remarked
  unfold Engine.inform
  dsimp only
  split
  case h_1 => exact ⟨q, queued, rfl⟩
  case h_2 l entered =>
    split
    case h_1 => exact ⟨q, queued, rfl⟩
    case h_2 =>
      apply deliver
      exact ⟨q, queued, rfl⟩

theorem dispatch (remarked : e.Remarked μ f) (id : TargetId) :
    (e.dispatch id).Remarked μ (f.dispatch id) := by
  obtain ⟨q, queued, rfl⟩ := remarked
  unfold Engine.dispatch
  dsimp only
  split
  case h_1 => exact ⟨q, queued, rfl⟩
  case h_2 v viewed =>
    exact foldl (fun remarked x => remarked.inform v _ x) ⟨q, queued, rfl⟩ v.listeners.toList

theorem dispatchAll (remarked : e.Remarked μ f) : e.dispatchAll.Remarked μ f.dispatchAll := by
  obtain ⟨q, queued, rfl⟩ := remarked
  exact foldl dispatch ⟨q, queued, rfl⟩ e.views.keys

/-- A view shows the same under any marks. -/
theorem overlay (remarked : e.Remarked μ f) (id : TargetId) (v : View) :
    (e.overlay id v).Remarked μ (f.overlay id v) := by
  obtain ⟨q, queued, rfl⟩ := remarked
  refine ⟨q, queued, ?_⟩
  unfold Engine.overlay
  dsimp only
  rw [queued.shows]

theorem recompute (remarked : e.Remarked μ f) (id : TargetId) :
    (e.recompute id).Remarked μ (f.recompute id) := by
  obtain ⟨q, queued, rfl⟩ := remarked
  unfold Engine.recompute
  dsimp only
  split
  case h_1 => exact ⟨q, queued, rfl⟩
  case h_2 v viewed => exact (overlay ⟨q, queued, rfl⟩ id v).dispatch id

theorem refresh (remarked : e.Remarked μ f) (batches : List MutationBatch) :
    (e.refresh batches).Remarked μ (f.refresh batches) := by
  obtain ⟨q, queued, rfl⟩ := remarked
  exact foldl recompute ⟨q, queued, rfl⟩ (e.touchedBy batches)

theorem saveView (remarked : e.Remarked μ f) (id : TargetId) :
    (e.saveView id).Remarked μ (f.saveView id) := by
  obtain ⟨q, queued, rfl⟩ := remarked
  unfold Engine.saveView
  dsimp only
  split
  case h_1 => exact ⟨q, queued, rfl⟩
  case h_2 => split <;> exact ⟨q, queued, rfl⟩

theorem absorb (event : RemoteEvent) (remarked : e.Remarked μ f) (id : TargetId) :
    (Engine.absorb event e id).Remarked μ (Engine.absorb event f id) := by
  obtain ⟨q, queued, rfl⟩ := remarked
  unfold Engine.absorb
  dsimp only
  split <;> exact ⟨q, queued, rfl⟩

theorem endListener (event : ListenEvent) (remarked : e.Remarked μ f) (x : ListenerId) :
    (Engine.endListener event e x).Remarked μ (Engine.endListener event f x) := by
  obtain ⟨q, queued, rfl⟩ := remarked
  unfold Engine.endListener
  dsimp only
  split
  case h_1 => exact ⟨q, queued, rfl⟩
  case h_2 l entered =>
    apply deliver
    exact ⟨q, queued, rfl⟩

theorem rejectTarget (remarked : e.Remarked μ f) (r : Rejection) :
    (e.rejectTarget r).Remarked μ (f.rejectTarget r) := by
  obtain ⟨q, queued, rfl⟩ := remarked
  unfold Engine.rejectTarget
  dsimp only
  split
  case h_1 => exact ⟨q, queued, rfl⟩
  case h_2 v viewed =>
    apply foldl (endListener _)
    exact ⟨q, queued, rfl⟩

theorem rejectTargets (remarked : e.Remarked μ f) (rejections : List Rejection) :
    (e.rejectTargets rejections).Remarked μ (f.rejectTargets rejections) :=
  foldl rejectTarget remarked rejections

theorem decide (remarked : e.Remarked μ f) (id : BatchId) (outcome : WriteOutcome) :
    (e.decide id outcome).Remarked μ (f.decide id outcome) := by
  obtain ⟨q, queued, rfl⟩ := remarked
  unfold Engine.decide
  dsimp only
  split <;> exact ⟨q, queued, rfl⟩

theorem prune (remarked : e.Remarked μ f) : e.prune.Remarked μ f.prune := by
  obtain ⟨q, queued, rfl⟩ := remarked
  exact ⟨q, queued, rfl⟩

/-! ## Listening -/

theorem ensureView (remarked : e.Remarked μ f) (id : TargetId) (t : Target) :
    (e.ensureView id t).Remarked μ (f.ensureView id t) := by
  obtain ⟨q, queued, rfl⟩ := remarked
  unfold Engine.ensureView
  dsimp only
  split
  case isTrue => exact ⟨q, queued, rfl⟩
  case isFalse =>
    apply overlay
    exact ⟨q, queued, rfl⟩

theorem attach (remarked : e.Remarked μ f) (id : TargetId) :
    (f.attach id).1 = (e.attach id).1 ∧ (e.attach id).2.Remarked μ (f.attach id).2 := by
  obtain ⟨q, queued, rfl⟩ := remarked
  exact ⟨rfl, q, queued, rfl⟩

theorem listen (remarked : e.Remarked μ f) (t : Target) :
    (f.listen t).1 = (e.listen t).1 ∧ (e.listen t).2.Remarked μ (f.listen t).2 := by
  have viewed : ({ e with stream := (e.stream.listen t).2 }.ensureView
      (e.stream.listen t).1 t).Remarked μ ({ f with stream := (f.stream.listen t).2 }.ensureView
        (f.stream.listen t).1 t) := by
    obtain ⟨q, queued, rfl⟩ := remarked
    apply ensureView
    exact ⟨q, queued, rfl⟩
  have stream : f.stream = e.stream := by
    obtain ⟨q, -, rfl⟩ := remarked
    rfl
  rw [stream] at viewed
  obtain ⟨answer, attached⟩ := viewed.attach (e.stream.listen t).1
  unfold Engine.listen
  rw [stream]
  exact ⟨answer, attached.dispatch _⟩

theorem leave (remarked : e.Remarked μ f) (id : TargetId) :
    (e.leave id).Remarked μ (f.leave id) := by
  obtain ⟨q, queued, same⟩ := remarked.saveView id
  unfold Engine.leave
  rw [same]
  exact ⟨q, queued, rfl⟩

/-- Two answers of calls that may be refused: both are refused for the same reason, or in both the
    engines agree but for marks. -/
inductive Answers (μ : Marking) : Except Fault Engine → Except Fault Engine → Prop
  | refused (fault : Fault) : Answers μ (.error fault) (.error fault)
  | done {e f : Engine} (remarked : e.Remarked μ f) : Answers μ (.ok e) (.ok f)

theorem unlisten (remarked : e.Remarked μ f) (x : ListenerId) :
    Answers μ (e.unlisten x) (f.unlisten x) := by
  obtain ⟨q, queued, rfl⟩ := remarked
  unfold Engine.unlisten
  dsimp only
  split
  case h_1 => exact .refused _
  case h_2 id seen attached entered =>
    split
    case h_1 => exact .done ⟨q, queued, rfl⟩
    case h_2 v viewed =>
      apply Answers.done
      split
      case isTrue =>
        apply leave
        exact ⟨q, queued, rfl⟩
      case isFalse => exact ⟨q, queued, rfl⟩

theorem Answers.orRefuse {answer other : Except Fault Engine} (answers : Answers μ answer other)
    (remarked : e.Remarked μ f) :
    (f.orRefuse other).1 = (e.orRefuse answer).1 ∧
      (e.orRefuse answer).2.Remarked μ (f.orRefuse other).2 := by
  cases answers with
  | refused fault => exact ⟨rfl, remarked⟩
  | done after => exact ⟨rfl, after⟩

/-! ## Watching -/

/-- What is counted is counted in both. -/
theorem count (remarked : e.Remarked μ f) (edit : Stats → Stats) :
    { e with stats := edit e.stats }.Remarked μ { f with stats := edit f.stats } := by
  obtain ⟨q, queued, rfl⟩ := remarked
  exact ⟨q, queued, rfl⟩

theorem applyRemote (remarked : e.Remarked μ f) (event : RemoteEvent) :
    Answers μ (e.applyRemote event) (f.applyRemote event) := by
  have absorbed := foldl (absorb event) remarked event.affected.toList
  have viewless : f.viewless? event = e.viewless? event := by
    obtain ⟨q, -, rfl⟩ := remarked
    rfl
  unfold Engine.applyRemote
  rw [viewless]
  split
  case h_1 => exact .refused _
  case h_2 =>
    dsimp only
    generalize event.affected.toList.foldl (Engine.absorb event) e = taken at absorbed
    generalize event.affected.toList.foldl (Engine.absorb event) f = taken' at absorbed
    obtain ⟨q, queued, rfl⟩ := absorbed
    obtain ⟨released, left⟩ := queued.release event.version
    dsimp only
    rw [released]
    apply Answers.done
    refine count ?_ fun stats => { stats with snapshotsApplied := stats.snapshotsApplied + 1 }
    apply foldl fun remarked id => (recompute remarked id).saveView id
    exact ⟨_, left, rfl⟩

theorem resync (remarked : e.Remarked μ f) : e.resync.Remarked μ f.resync := by
  unfold Engine.resync
  apply prune
  apply dispatchAll
  obtain ⟨q, queued, rfl⟩ := remarked
  exact ⟨q.markAllUnsent, queued.markAllUnsent, rfl⟩

theorem streamOpened (remarked : e.Remarked μ f) (now : Duration) :
    (e.streamOpened now).Remarked μ (f.streamOpened now) := by
  obtain ⟨q, queued, rfl⟩ := remarked
  exact ⟨q.markAllUnsent, queued.markAllUnsent, rfl⟩

theorem receive (remarked : e.Remarked μ f) (change : WatchChange) :
    (e.receive change).Remarked μ (f.receive change) := by
  obtain ⟨q, queued, rfl⟩ := remarked
  unfold Engine.receive
  dsimp only
  split
  case isTrue => exact ⟨q, queued, rfl⟩
  case isFalse =>
    apply prune
    have collected : Remarked μ { e with stream := (e.stream.receive change).1 }
        { e with stream := (e.stream.receive change).1, queue := q } := ⟨q, queued, rfl⟩
    split
    case h_1 => exact collected
    case h_2 event _ =>
      have answers := collected.applyRemote event
      generalize Engine.applyRemote { e with stream := (e.stream.receive change).1 } event =
        answer at answers ⊢
      generalize Engine.applyRemote
        { e with stream := (e.stream.receive change).1, queue := q } event = other at answers ⊢
      cases answers with
      | refused => exact collected.resync
      | done after => exact after
    case h_3 rejections _ => exact collected.rejectTargets rejections
    case h_4 => exact collected.resync

theorem streamClosed (remarked : e.Remarked μ f) (error : Option StreamError) (now : Duration) :
    (f.streamClosed error now).1 = (e.streamClosed error now).1 ∧
      (e.streamClosed error now).2.Remarked μ (f.streamClosed error now).2 := by
  obtain ⟨q, queued, rfl⟩ := remarked
  refine ⟨rfl, ?_⟩
  unfold Engine.streamClosed
  dsimp only
  apply prune
  apply dispatchAll
  apply rejectTargets
  exact ⟨q.markAllUnsent, queued.markAllUnsent, rfl⟩

theorem disconnect (remarked : e.Remarked μ f) : e.disconnect.Remarked μ f.disconnect := by
  obtain ⟨q, queued, rfl⟩ := remarked
  unfold Engine.disconnect
  dsimp only
  split
  case isTrue =>
    apply prune
    apply dispatchAll
    exact ⟨q.markAllUnsent, queued.markAllUnsent, rfl⟩
  case isFalse => exact ⟨q, queued, rfl⟩

theorem interrupt (remarked : e.Remarked μ f) : e.interrupt.Remarked μ f.interrupt := by
  obtain ⟨q, queued, rfl⟩ := remarked
  unfold Engine.interrupt
  dsimp only
  split
  case isTrue =>
    apply disconnect
    exact ⟨q, queued, rfl⟩
  case isFalse => exact ⟨q, queued, rfl⟩

/-! ## Writing -/

theorem submit (remarked : e.Remarked μ f) (mutations : List Mutation) :
    (f.submit mutations).2 = (e.submit mutations).2 ∧
      (e.submit mutations).1.Remarked μ (f.submit mutations).1 := by
  obtain ⟨q, queued, rfl⟩ := remarked
  obtain ⟨batch, appended⟩ := queued.append mutations
  unfold Engine.submit
  dsimp only
  rw [batch]
  split
  case h_1 fault _ =>
    refine ⟨rfl, ?_⟩
    have rejected := appended.reject? (e.queue.append mutations).1.id
    generalize (e.queue.append mutations).2.reject? _ = mine at rejected ⊢
    generalize (q.append mutations).2.reject? _ = other at rejected ⊢
    cases rejected with
    | none => exact ⟨_, appended, rfl⟩
    | some _ left => exact ⟨_, left, rfl⟩
  case h_2 store _ =>
    refine ⟨rfl, ?_⟩
    apply refresh
    exact ⟨_, appended, rfl⟩

theorem acknowledge (remarked : e.Remarked μ f) (id : BatchId) (commit : Version) :
    (e.acknowledge id commit).Remarked μ (f.acknowledge id commit) := by
  obtain ⟨q, queued, rfl⟩ := remarked
  have acknowledged := queued.acknowledge? id commit
  unfold Engine.acknowledge
  dsimp only
  generalize e.queue.acknowledge? id commit = mine at acknowledged ⊢
  generalize q.acknowledge? id commit = other at acknowledged ⊢
  cases acknowledged with
  | none => exact ⟨q, queued, rfl⟩
  | @some batch queue queue' marked =>
    dsimp only
    let stats := { e.stats with writesAcknowledged := e.stats.writesAcknowledged + 1 }
    have counted : Remarked μ { e with queue, stats } { e with queue := queue', stats } :=
      ⟨queue', marked, rfl⟩
    have decided := counted.decide id (.acknowledged commit)
    generalize Engine.decide { e with queue, stats } id (.acknowledged commit) = told at decided ⊢
    generalize Engine.decide { e with queue := queue', stats } id (.acknowledged commit) =
      told' at decided ⊢
    obtain ⟨r, kept, rfl⟩ := decided
    obtain ⟨released, left⟩ := kept.release told.lastSnapshot
    dsimp only
    rw [released]
    apply refresh
    exact ⟨_, left, rfl⟩

theorem reject (remarked : e.Remarked μ f) (id : BatchId) (status : Status) :
    (e.reject id status).Remarked μ (f.reject id status) := by
  obtain ⟨q, queued, rfl⟩ := remarked
  have rejected := queued.reject? id
  unfold Engine.reject
  dsimp only
  generalize e.queue.reject? id = mine at rejected ⊢
  generalize q.reject? id = other at rejected ⊢
  cases rejected with
  | none => exact ⟨q, queued, rfl⟩
  | @some batch queue queue' left =>
    apply refresh
    apply decide
    exact ⟨queue', left, rfl⟩

/-! ## Every call -/

/-- Taking batches depends on the marks of those that are not decided. -/
theorem takeOutbound (remarked : e.Remarked .kept f) :
    f.takeOutbound.1 = e.takeOutbound.1 ∧ e.takeOutbound.2.Remarked .kept f.takeOutbound.2 := by
  obtain ⟨q, queued, rfl⟩ := remarked
  unfold Engine.takeOutbound
  dsimp only
  split
  case isFalse => exact ⟨rfl, q, queued, rfl⟩
  case isTrue =>
    obtain ⟨taken, left⟩ := queued.takeUnsent e.config.maxWritesInFlight
    rw [taken]
    exact ⟨rfl, _, left, rfl⟩

theorem handle (remarked : e.Remarked μ f) (event : StreamEvent) (now : Duration) :
    (f.handle event now).1 = (e.handle event now).1 ∧
      (e.handle event now).2.Remarked μ (f.handle event now).2 := by
  cases event with
  | opened => exact ⟨rfl, remarked.streamOpened now⟩
  | watch change => exact ⟨rfl, remarked.receive change⟩
  | writeAcked id commit => exact ⟨rfl, remarked.acknowledge id commit⟩
  | writeRejected id status => exact ⟨rfl, remarked.reject id status⟩
  | closed error =>
    obtain ⟨wait, after⟩ := remarked.streamClosed error now
    exact ⟨congrArg some wait, after⟩

/-- Every call but a drain is answered alike, and afterwards the engines still agree but for
    marks. So is a drain if the same batches wait. -/
theorem perform (remarked : e.Remarked μ f) {action : Action}
    (drains : action = .takeOutbound → e.stream.state = .opened → μ = .kept) :
    (f.perform action).1 = (e.perform action).1 ∧
      (e.perform action).2.Remarked μ (f.perform action).2 := by
  cases action with
  | connect =>
    obtain ⟨q, queued, rfl⟩ := remarked
    unfold Engine.perform Engine.connect?
    dsimp only
    cases e.stream.connect? with
    | none => exact ⟨rfl, q, queued, rfl⟩
    | some stream => exact ⟨rfl, q, queued, rfl⟩
  | handle event now =>
    obtain ⟨answer, after⟩ := remarked.handle event now
    exact ⟨congrArg Reply.wait answer, after⟩
  | listen t =>
    obtain ⟨answer, after⟩ := remarked.listen t
    exact ⟨congrArg Reply.listener answer, after⟩
  | unlisten x => exact (remarked.unlisten x).orRefuse remarked
  | submit mutations =>
    obtain ⟨answer, after⟩ := remarked.submit mutations
    rw [perform_submit, perform_submit]
    refine ⟨?_, after⟩
    unfold Engine.perform
    dsimp only
    generalize e.submit mutations = mine at answer ⊢
    generalize f.submit mutations = other at answer ⊢
    obtain ⟨_, result⟩ := mine
    obtain ⟨_, result'⟩ := other
    obtain rfl : result' = result := answer
    cases result' <;> rfl
  | takeOutbound =>
    by_cases opened : e.stream.state = .opened
    · obtain rfl := drains rfl opened
      obtain ⟨answer, after⟩ := remarked.takeOutbound
      exact ⟨congrArg Reply.requests answer, after⟩
    · obtain ⟨q, queued, rfl⟩ := remarked
      unfold Engine.perform Engine.takeOutbound
      dsimp only
      rw [if_neg opened, if_neg opened]
      exact ⟨rfl, q, queued, rfl⟩
  | applyRemote event => exact (remarked.applyRemote event).orRefuse remarked
  | interrupt => exact ⟨rfl, remarked.interrupt⟩
  | resume =>
    obtain ⟨q, queued, rfl⟩ := remarked
    exact ⟨rfl, q, queued, rfl⟩
  | disconnect => exact ⟨rfl, remarked.disconnect⟩
  | resync => exact ⟨rfl, remarked.resync⟩
  | takeRestart =>
    obtain ⟨q, queued, rfl⟩ := remarked
    exact ⟨rfl, q, queued, rfl⟩

end Remarked

end Engine

end LiveQuery
