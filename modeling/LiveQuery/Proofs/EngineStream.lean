import LiveQuery.Proofs.EngineRun
import LiveQuery.Proofs.StreamReports

/-!
# The stream of an engine

No part of a call but its beginning touches the stream: neither telling listeners
nor making views anew nor saving them. So the stream after a call is what the one
operation on the stream that the call makes leaves of it, and only a fault, which
starts the stream anew, adds a second one.
-/

namespace LiveQuery

open Std

namespace Engine

/-- Steps that leave the stream alone, one after the other. -/
theorem stream_foldl {α : Type} {step : Engine → α → Engine}
    (each : ∀ e a, (step e a).stream = e.stream) (steps : List α) (e : Engine) :
    (steps.foldl step e).stream = e.stream := by
  induction steps generalizing e with
  | nil => rfl
  | cons a rest ih => exact (ih (step e a)).trans (each e a)

theorem stream_deliver (e : Engine) (id : ListenerId) (l : Listener) (event : ListenEvent) :
    (e.deliver id l event).stream = e.stream := by
  unfold deliver
  split <;> rfl

theorem stream_inform (e : Engine) (v : View) (flags : Flags) (id : ListenerId) :
    (e.inform v flags id).stream = e.stream := by
  unfold inform
  split
  case h_1 => rfl
  case h_2 =>
    split
    case h_1 => rfl
    case h_2 => exact stream_deliver _ _ _ _

theorem stream_dispatch (e : Engine) (id : TargetId) : (e.dispatch id).stream = e.stream := by
  unfold dispatch
  split
  · rfl
  · exact stream_foldl (fun e id => stream_inform e _ _ id) _ e

theorem stream_recompute (e : Engine) (id : TargetId) : (e.recompute id).stream = e.stream := by
  unfold recompute
  split
  · rfl
  · exact stream_dispatch _ id

theorem stream_saveView (e : Engine) (id : TargetId) : (e.saveView id).stream = e.stream := by
  unfold saveView
  split
  · rfl
  · split <;> rfl

theorem stream_absorb (event : RemoteEvent) (e : Engine) (id : TargetId) :
    (absorb event e id).stream = e.stream := by
  unfold absorb
  split <;> rfl

theorem stream_endListener (event : ListenEvent) (e : Engine) (id : ListenerId) :
    (endListener event e id).stream = e.stream := by
  unfold endListener
  split
  · rfl
  · exact stream_deliver _ _ _ _

theorem stream_rejectTarget (e : Engine) (r : Rejection) :
    (e.rejectTarget r).stream = e.stream := by
  unfold rejectTarget
  dsimp only
  split
  · rfl
  · exact stream_foldl (stream_endListener _) _ _

theorem stream_rejectTargets (e : Engine) (rejections : List Rejection) :
    (e.rejectTargets rejections).stream = e.stream :=
  stream_foldl stream_rejectTarget rejections e

theorem stream_decide (e : Engine) (id : BatchId) (outcome : WriteOutcome) :
    (e.decide id outcome).stream = e.stream := by
  unfold decide
  dsimp only
  split <;> rfl

theorem stream_refresh (e : Engine) (batches : List MutationBatch) :
    (e.refresh batches).stream = e.stream :=
  stream_foldl stream_recompute _ e

theorem stream_dispatchAll (e : Engine) : e.dispatchAll.stream = e.stream :=
  stream_foldl stream_dispatch _ e

theorem stream_resync (e : Engine) : e.resync.stream = e.stream.restart := stream_dispatchAll _

theorem stream_ensureView (e : Engine) (id : TargetId) (t : Target) :
    (e.ensureView id t).stream = e.stream := by
  unfold ensureView
  split <;> rfl

/-- The engine once a snapshot is taken into the server's replicas and the queue. -/
def takeIn (e : Engine) (event : RemoteEvent) : Engine :=
  let taken := event.affected.toList.foldl (absorb event) e
  { taken with
    queue := (taken.queue.release event.version).2
    lastSnapshot := taken.lastSnapshot.later event.version }

/-- The targets whose views a snapshot makes anew: those that it concerns, and those that a released
    batch touches. -/
def concerned (e : Engine) (event : RemoteEvent) : List TargetId :=
  let taken := event.affected.toList.foldl (absorb event) e
  (event.affected.insertMany (taken.touchedBy (taken.queue.release event.version).1)).toList

/-- A snapshot is taken in, the views are made anew, and the snapshot is counted. -/
theorem applyRemote_eq {e after : Engine} {event : RemoteEvent}
    (applied : e.applyRemote event = .ok after) :
    e.viewless? event = none ∧ ∃ made,
      made = (e.concerned event).foldl (fun e id => (e.recompute id).saveView id)
        (e.takeIn event) ∧
      after = { made with
        stats := { made.stats with snapshotsApplied := made.stats.snapshotsApplied + 1 } } := by
  unfold applyRemote at applied
  split at applied
  case h_1 => cases applied
  case h_2 complete => exact ⟨complete, _, rfl, (Except.ok.inj applied).symm⟩

/-- After a snapshot is taken in, what it concerns is made anew, and some more. Only the count of
    snapshots differs besides. -/
theorem applyRemote_cases {e after : Engine} {event : RemoteEvent}
    (applied : e.applyRemote event = .ok after) :
    e.viewless? event = none ∧ ∃ (ids : List TargetId) (stats : Stats), ids.Nodup ∧
      (∀ id ∈ event.affected, id ∈ ids) ∧
      after = { ids.foldl (fun e id => (e.recompute id).saveView id) (e.takeIn event) with
        stats } := by
  obtain ⟨complete, _, rfl, made⟩ := applyRemote_eq applied
  refine ⟨complete, e.concerned event, _, nodup_toList _, fun id affected => ?_, made⟩
  exact ExtTreeSet.mem_toList.mpr (ExtTreeSet.mem_insertMany_list.mpr (.inl affected))

theorem stream_applyRemote {e after : Engine} {event : RemoteEvent}
    (applied : e.applyRemote event = .ok after) : after.stream = e.stream := by
  obtain ⟨-, ids, stats, -, -, rfl⟩ := applyRemote_cases applied
  refine (stream_foldl (fun e id => ?_) ids _).trans (stream_foldl (stream_absorb event) _ e)
  exact (stream_saveView _ id).trans (stream_recompute e id)

/-- On an open stream a report is taken in, and what it leads to decides the rest. -/
theorem receive_eq {e : Engine} (opened : e.stream.state = .opened) (change : WatchChange) :
    e.receive change =
      (match (e.stream.receive change).2 with
        | .ok .collected => { e with stream := (e.stream.receive change).1 }
        | .ok (.snapshot event) =>
          match ({ e with stream := (e.stream.receive change).1 } : Engine).applyRemote event with
          | .ok e => e
          | .error _ => ({ e with stream := (e.stream.receive change).1 } : Engine).resync
        | .ok (.rejected rejections) =>
          ({ e with stream := (e.stream.receive change).1 } : Engine).rejectTargets rejections
        | .error _ =>
          ({ e with stream := (e.stream.receive change).1 } : Engine).resync).prune := by
  unfold Engine.receive
  refine (if_neg (not_not_intro opened)).trans ?_
  rcases e.stream.receive change with ⟨stream, result⟩
  rfl

/-- A fault on the stream starts it anew. -/
theorem stream_receive {e : Engine} (opened : e.stream.state = .opened) (change : WatchChange) :
    (e.receive change).stream = (e.stream.receive change).1 ∨
      (e.receive change).stream = (e.stream.receive change).1.restart := by
  have restarted : ({ e with stream := (e.stream.receive change).1 } : Engine).resync.stream =
      (e.stream.receive change).1.restart := stream_resync _
  rw [receive_eq opened]
  split
  case h_1 => exact .inl rfl
  case h_2 event done =>
    split
    case h_1 applied => exact .inl (stream_applyRemote applied)
    case h_2 => exact .inr restarted
  case h_3 rejections done => exact .inl (stream_rejectTargets _ rejections)
  case h_4 => exact .inr restarted

namespace Action

/-- The call hands a report of the server to a stream that is open. -/
def Brings (e : Engine) (action : Action) (change : WatchChange) : Prop :=
  e.stream.state = .opened ∧ ∃ now, action = .handle (.watch change) now

/-- The call brings a removal that strands the listeners of a target. -/
def Strands (e : Engine) (action : Action) (t : TargetId) : Prop :=
  ∃ change, Brings e action change ∧ e.stream.Strands change t

/-- The call brings a removal without a cause of a target that is current. -/
def Dulls (e : Engine) (action : Action) (t : TargetId) : Prop :=
  ∃ change, Brings e action change ∧ e.stream.Dulls change t

end Action

theorem stream_acknowledge (e : Engine) (id : BatchId) (commit : Version) :
    (e.acknowledge id commit).stream = e.stream := by
  unfold acknowledge
  split
  case h_1 => rfl
  case h_2 => exact (stream_refresh _ _).trans (stream_decide _ id _)

theorem stream_reject (e : Engine) (id : BatchId) (status : Status) :
    (e.reject id status).stream = e.stream := by
  unfold reject
  split
  case h_1 => rfl
  case h_2 => exact (stream_refresh _ _).trans (stream_decide _ id _)

theorem stream_submit (e : Engine) (mutations : List Mutation) :
    (e.submit mutations).1.stream = e.stream := by
  unfold submit
  dsimp only
  split
  case h_1 => rfl
  case h_2 => exact stream_refresh _ _

theorem stream_streamClosed (e : Engine) (error : Option StreamError) (now : Duration) :
    (e.streamClosed error now).2.stream = (e.stream.closed error now).2 :=
  (stream_dispatchAll _).trans (stream_rejectTargets _ _)

theorem stream_listen (e : Engine) (t : Target) :
    (e.listen t).2.stream = (e.stream.listen t).2 :=
  (stream_dispatch _ _).trans (stream_ensureView _ _ _)

theorem stream_unlisten {e after : Engine} {listener : ListenerId}
    (left : e.unlisten listener = .ok after) :
    after.stream = e.stream ∨ ∃ id, after.stream = e.stream.unlisten id := by
  obtain ⟨entry, -, rfl | rfl⟩ := unlisten_cases left
  · exact .inl rfl
  · refine .inr ⟨entry.target, ?_⟩
    change (saveView _ _).stream.unlisten _ = _
    rw [stream_saveView]
    rfl

theorem stream_takeOutbound (e : Engine) :
    e.takeOutbound.2.stream = e.stream ∨ e.takeOutbound.2.stream = e.stream.takeOutbox.2 := by
  unfold takeOutbound
  split
  case isTrue => exact .inr rfl
  case isFalse => exact .inl rfl

theorem stream_disconnect (e : Engine) :
    e.disconnect.stream = e.stream ∨ e.disconnect.stream = e.stream.disconnect := by
  unfold disconnect
  split
  case isTrue => exact .inr (stream_dispatchAll _)
  case isFalse => exact .inl rfl

theorem stream_interrupt (e : Engine) :
    e.interrupt.stream = e.stream ∨ e.interrupt.stream = e.stream.disconnect := by
  unfold interrupt
  split
  case isTrue => exact stream_disconnect { e with enabled := false }
  case isFalse => exact .inl rfl

/-- The stream after a call is as before, or it took a turn, or a report was taken in, after which
    it may have been started anew. -/
theorem stream_perform (e : Engine) (action : Action) :
    (e.perform action).2.stream = e.stream ∨ e.stream.Turn (e.perform action).2.stream ∨
      ∃ change, Action.Brings e action change ∧
        ((e.perform action).2.stream = (e.stream.receive change).1 ∨
          (e.perform action).2.stream = (e.stream.receive change).1.restart) := by
  have turned {after s : WatchStream} (same : s = after) (turn : e.stream.Turn after) :
      e.stream.Turn s := same ▸ turn
  cases action with
  | connect =>
    unfold Engine.perform Engine.connect?
    cases asked : e.stream.connect? with
    | none => exact .inl rfl
    | some stream => exact .inr (.inl (.connect asked))
  | handle event now =>
    cases event with
    | opened => exact .inr (.inl (.opened e.stream now))
    | watch change =>
      by_cases opened : e.stream.state = .opened
      case neg =>
        left
        change (e.receive change).stream = _
        rw [receive, if_pos opened]
      case pos =>
        exact .inr (.inr ⟨change, ⟨opened, now, rfl⟩, stream_receive opened change⟩)
    | writeAcked id commit => exact .inl (e.stream_acknowledge id commit)
    | writeRejected id status => exact .inl (e.stream_reject id status)
    | closed error =>
      exact .inr (.inl (turned (e.stream_streamClosed error now) (.closed e.stream error now)))
  | listen target =>
    exact .inr (.inl (turned (e.stream_listen target) (.listen e.stream target)))
  | unlisten listener =>
    cases left : e.unlisten listener with
    | error =>
      left
      simp only [Engine.perform, left, orRefuse]
    | ok after =>
      simp only [Engine.perform, left, orRefuse]
      refine (stream_unlisten left).imp_right ?_
      rintro ⟨id, same⟩
      exact .inl (turned same (.unlisten e.stream id))
  | submit mutations =>
    left
    rw [perform_submit]
    exact e.stream_submit mutations
  | takeOutbound =>
    exact e.stream_takeOutbound.imp_right fun same => .inl (turned same (.takeOutbox e.stream))
  | applyRemote event =>
    left
    cases applied : e.applyRemote event with
    | error => simp only [Engine.perform, applied, orRefuse]
    | ok after => simpa only [Engine.perform, applied, orRefuse] using stream_applyRemote applied
  | interrupt =>
    exact e.stream_interrupt.imp_right fun same => .inl (turned same (.disconnect e.stream))
  | resume => exact .inl rfl
  | disconnect =>
    exact e.stream_disconnect.imp_right fun same => .inl (turned same (.disconnect e.stream))
  | resync => exact .inr (.inl (turned e.stream_resync (.restart e.stream)))
  | takeRestart => exact .inl rfl

end Engine

end LiveQuery
