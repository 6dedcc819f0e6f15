import LiveQuery.Proofs.ServerSide

/-!
# When a stream is needed

A stream should exist while the network may be used and something is listened to or
waits for the server's decision. Making, writing and ending a stream changes nothing
of this. Nobody but the engine's owner makes a stream. The engine may end the one it
has, but not unnoticed: then a new start is asked for, or the network is disabled, or
the owner itself brought the news of the end.
-/

namespace LiveQuery

open Std

namespace Subscriptions

theorem anyListening_iff {s : Subscriptions} :
    s.anyListening = true ↔ ∃ (id : TargetId) (sub : Subscription),
      s.table[id]? = some sub ∧ sub.listening = true := by
  rw [anyListening, list, List.any_map, List.any_eq_true]
  constructor
  · rintro ⟨⟨id, sub⟩, member, heard⟩
    exact ⟨id, sub, ExtTreeMap.mem_toList_iff_getElem?_eq_some.mp member, heard⟩
  · rintro ⟨id, sub, entered, heard⟩
    exact ⟨(id, sub), ExtTreeMap.mem_toList_iff_getElem?_eq_some.mpr entered, heard⟩

/-- Without a stream the same targets are listened to. -/
theorem anyListening_streamClosed (s : Subscriptions) :
    s.streamClosed.anyListening = s.anyListening := by
  rw [Bool.eq_iff_iff, anyListening_iff, anyListening_iff]
  constructor
  · rintro ⟨id, next, entered, heard⟩
    rw [table_streamClosed, Option.map_eq_some_iff] at entered
    obtain ⟨sub, kept, rfl⟩ := entered
    exact ⟨id, sub, (Option.filter_eq_some_iff.mp kept).1, heard⟩
  · rintro ⟨id, sub, entered, heard⟩
    refine ⟨id, sub.settled, ?_, heard⟩
    rw [table_streamClosed, entered, Option.filter_some, if_pos heard, Option.map_some]

end Subscriptions

/-- Whether batches await a decision has nothing to do with what is sent. -/
theorem WriteQueue.hasPending_congr {q r : WriteQueue}
    (same : r.entries.map (fun w => (w.batch, w.status)) =
      q.entries.map fun w => (w.batch, w.status)) : r.hasPending = q.hasPending := by
  have awaited (entries : List QueuedWrite) : entries.any (·.isPending) =
      (entries.map fun w => (w.batch, w.status)).any (·.2 == .pending) := by
    rw [List.any_map]
    rfl
  rw [hasPending, hasPending, awaited, awaited, same]

namespace Engine

variable {e after : Engine}

theorem shouldConnect_congr (enabled : after.enabled = e.enabled)
    (listening : after.stream.subscriptions.anyListening = e.stream.subscriptions.anyListening)
    (queue : after.queue.entries.map (fun w => (w.batch, w.status)) =
      e.queue.entries.map fun w => (w.batch, w.status)) :
    after.shouldConnect = e.shouldConnect := by
  rw [shouldConnect, shouldConnect, enabled, listening, WriteQueue.hasPending_congr queue]

theorem shouldConnect_connect? (asked : e.connect? = some after) :
    after.shouldConnect = e.shouldConnect := by
  obtain ⟨stream, made, rfl⟩ := Option.map_eq_some_iff.mp asked
  rw [WatchStream.connect?, Option.ite_none_left_eq_some] at made
  rw [← Option.some.inj made.2]
  rfl

theorem shouldConnect_takeOutbound (e : Engine) :
    e.takeOutbound.2.shouldConnect = e.shouldConnect := by
  unfold takeOutbound
  split
  case isTrue opened =>
    refine shouldConnect_congr rfl ?_ (WriteQueue.map_takeFrom _ e.queue.entries)
    rw [WatchStream.takeOutbox, if_pos opened]
    rfl
  case isFalse => rfl

theorem shouldConnect_disconnect (e : Engine) : e.disconnect.shouldConnect = e.shouldConnect := by
  unfold disconnect
  split
  case isTrue started =>
    have told : OnlyTells _ (dispatchAll
        { e with stream := e.stream.disconnect, queue := e.queue.markAllUnsent }) :=
      .foldl onlyTells_dispatch _ _
    refine shouldConnect_congr ?_ ?_ ?_
    · exact congrArg ServerSide.enabled (serverSide_dispatchAll _)
    · refine (congrArg (·.subscriptions.anyListening) (stream_dispatchAll _)).trans ?_
      dsimp only
      rw [WatchStream.disconnect, if_pos started]
      exact e.stream.subscriptions.anyListening_streamClosed
    · exact (congrArg (·.entries.map fun w => (w.batch, w.status)) told.queue).trans
        e.queue.map_markAllUnsent
  case isFalse => rfl

end Engine

namespace WatchStream

theorem state_targetsAdded (ids : List TargetId) (s : WatchStream) :
    (targetsAdded ids s).1.state = s.state := by
  induction ids generalizing s with
  | nil => rfl
  | cons id rest ih =>
    unfold targetsAdded targetAdded
    cases s.subscriptions.added id with
    | error => rfl
    | ok => exact ih _

theorem state_targetsRemoved (cause : Option Status) (ids : List TargetId) (s : WatchStream) :
    (targetsRemoved cause ids s).1.state = s.state := by
  induction ids generalizing s with
  | nil => rfl
  | cons id rest ih =>
    unfold targetsRemoved targetRemoved
    cases s.subscriptions.removed id cause with
    | error => rfl
    | ok => exact ih _

/-- No report opens or ends a stream. -/
theorem state_receive (s : WatchStream) (change : WatchChange) :
    (s.receive change).1.state = s.state := by
  unfold receive
  split
  case isTrue => rfl
  case isFalse =>
    cases change with
    | targetAdded ids => exact state_targetsAdded ids s
    | targetRemoved ids cause => exact state_targetsRemoved cause ids s
    | documentChanged | snapshot => rfl
    | current =>
      dsimp only
      split
      · rfl
      · split <;> rfl

end WatchStream

namespace ServerSide

variable {s : ServerSide}

/-- The stream is as it was, or it is gone and its owner can tell. -/
def Minds (s after : ServerSide) : Prop :=
  after.stream.state.isStarted = s.stream.state.isStarted ∧
      after.restartRequested = s.restartRequested ∨
    after.stream.state = .closed ∧ (after.restartRequested = true ∨ after.enabled = false)

theorem frame_rejectTargets (rejections : List Rejection) (s : ServerSide) :
    (s.rejectTargets rejections).stream = s.stream ∧
      (s.rejectTargets rejections).enabled = s.enabled ∧
      (s.rejectTargets rejections).restartRequested = s.restartRequested := by
  unfold rejectTargets
  induction rejections generalizing s with
  | nil => exact ⟨rfl, rfl, rfl⟩
  | cons r rest ih => exact ih (s.rejectTarget r)

/-- A report that breaks the stream asks for a new start. -/
theorem minds_receive (s : ServerSide) (change : WatchChange) : s.Minds (s.receive change) := by
  have same := congrArg StreamState.isStarted (s.stream.state_receive change)
  unfold receive follow
  split
  case isTrue => exact .inl ⟨rfl, rfl⟩
  case isFalse =>
    split
    case h_1 => exact .inl ⟨same, rfl⟩
    case h_2 =>
      split
      · exact .inr ⟨rfl, .inl rfl⟩
      · exact .inl ⟨same, rfl⟩
    case h_3 rejections _ =>
      obtain ⟨stream, -, restart⟩ := frame_rejectTargets rejections
        { s with stream := (s.stream.receive change).1 }
      exact .inl ⟨(congrArg (·.state.isStarted) stream).trans same, restart⟩
    case h_4 => exact .inr ⟨rfl, .inl rfl⟩

theorem disconnect_closed (s : ServerSide) : s.disconnect.stream.state = .closed ∧
    s.disconnect.enabled = s.enabled ∧ s.disconnect.restartRequested = s.restartRequested := by
  unfold disconnect
  split
  case isTrue started =>
    refine ⟨?_, rfl, rfl⟩
    change s.stream.disconnect.state = .closed
    rw [WatchStream.disconnect, if_pos started]
    rfl
  case isFalse unstarted =>
    refine ⟨?_, rfl, rfl⟩
    cases state : s.stream.state with
    | closed => rfl
    | connecting | opened => simp [state, StreamState.isStarted] at unstarted

/-- An event is minded unless it is the end of the stream itself. -/
theorem minds_handle (started : s.stream.state.isStarted = true) {event : StreamEvent}
    (lasting : ∀ error, event ≠ .closed error) (now : Duration) : s.Minds (s.handle event now) := by
  cases event with
  | opened =>
    refine .inl ⟨?_, rfl⟩
    change (s.stream.opened now).state.isStarted = _
    unfold WatchStream.opened
    split
    · rfl
    · exact started.symm
  | watch change => exact s.minds_receive change
  | writeAcked | writeRejected => exact .inl ⟨rfl, rfl⟩
  | closed error => exact absurd rfl (lasting error)

theorem minds_unlisten (s : ServerSide) (x : ListenerId) : s.Minds (s.unlisten x) := by
  unfold unlisten
  split
  · exact .inl ⟨rfl, rfl⟩
  · dsimp only
    split <;> exact .inl ⟨rfl, rfl⟩

theorem minds_interrupt (s : ServerSide) : s.Minds s.interrupt := by
  unfold interrupt
  split
  case isTrue =>
    obtain ⟨closed, enabled, -⟩ := disconnect_closed { s with enabled := false }
    exact .inr ⟨closed, .inr enabled⟩
  case isFalse => exact .inl ⟨rfl, rfl⟩

/-- The network is disabled and enabled by nothing but the calls for it. -/
theorem enabled_perform (s : ServerSide) (stored : Target → Replica) (action : Engine.Action) :
    (s.perform stored action).enabled =
      match action with
      | .interrupt => false
      | .resume => true
      | _ => s.enabled := by
  cases action with
  | connect | submit | takeOutbound | resume | resync | takeRestart | listen => rfl
  | handle event now =>
    cases event with
    | opened | writeAcked | writeRejected => rfl
    | watch change =>
      change (s.receive change).enabled = s.enabled
      unfold receive follow
      split
      case isTrue => rfl
      case isFalse =>
        split
        case h_2 => split <;> rfl
        case h_3 rejections _ =>
          let taken : ServerSide := { s with stream := (s.stream.receive change).1 }
          exact (frame_rejectTargets rejections taken).2.1
        all_goals rfl
    | closed error =>
      exact (frame_rejectTargets _ { s with stream := (s.stream.closed error now).2 }).2.1
  | unlisten x =>
    change (s.unlisten x).enabled = s.enabled
    unfold unlisten
    split
    · rfl
    · dsimp only
      split <;> rfl
  | applyRemote event =>
    change (s.applyRemote event).enabled = s.enabled
    unfold applyRemote
    split <;> rfl
  | interrupt =>
    change s.interrupt.enabled = false
    unfold interrupt
    split
    case isTrue => exact (disconnect_closed { s with enabled := false }).2.1
    case isFalse disabled => exact Bool.eq_false_iff.mpr disabled
  | disconnect => exact s.disconnect_closed.2.1

end ServerSide

end LiveQuery
