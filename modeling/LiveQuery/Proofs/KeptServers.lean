import LiveQuery.Proofs.EngineStream

/-!
# Replicas that are kept

Only a snapshot that is applied edits what an engine holds of the server, and a
view is dropped only together with its subscription. So whatever else is asked of
an engine, the view of a target that is still subscribed afterwards has the
replica of the server that it had.
-/

namespace LiveQuery

open Std

namespace WatchStream

/-- What a call makes of the stream that brings the given reports, unless it brings a snapshot that
    is applied. -/
inductive Moves (brings : WatchChange → Prop) (s : WatchStream) : WatchStream → Prop
  | same : Moves brings s s
  | turn {after : WatchStream} (turn : s.Turn after) : Moves brings s after
  /-- A report that fits is taken in. -/
  | report {change : WatchChange} {outcome : WatchOutcome} (brought : brings change)
    (opened : s.state = .opened) (unclosed : ¬change.Closes)
    (accepted : (s.receive change).2 = .ok outcome) : Moves brings s (s.receive change).1
  /-- A report does not fit, and the stream is started anew. -/
  | fault {broken : WatchStream} (sound : broken.Sound) : Moves brings s broken.restart

section Moves

variable {brings others : WatchChange → Prop} {s after : WatchStream}

theorem Moves.widen (moves : s.Moves brings after)
    (wider : ∀ change, s.state = .opened → brings change → others change) :
    s.Moves others after := by
  cases moves with
  | same => exact .same
  | turn turn => exact .turn turn
  | report brought opened unclosed accepted =>
    exact .report (wider _ opened brought) opened unclosed accepted
  | fault sound => exact .fault sound

/-- Nothing becomes current. -/
theorem Moves.current (moves : s.Moves brings after) (sound : s.Sound) {t : TargetId}
    (current : after.Current t) : s.Current t := by
  cases moves with
  | same => exact current
  | turn turn => exact ((turn.fades sound).2.current t current).elim (·) False.elim
  | @report change outcome brought opened unclosed accepted =>
    obtain ⟨-, gains⟩ := gains_receive sound change
    exact (gains.current t current).elim (·) fun closes => absurd closes.1 unclosed
  | fault broken =>
    obtain ⟨shut, -⟩ := Turn.fades (.restart _) broken
    cases (shut.current t current).1

end Moves

end WatchStream

namespace Engine

/-- If the target has a view, it keeps one, with the same replica of the server. -/
def Keeps (e after : Engine) (t : TargetId) : Prop :=
  ∀ v, e.views[t]? = some v →
    ∃ w, after.views[t]? = some w ∧ w.replicas.server = v.replicas.server

section Keeps

variable {e middle after : Engine} {t : TargetId}

theorem Keeps.of_same (views : after.views = e.views) : e.Keeps after t :=
  fun v viewed => ⟨v, views ▸ viewed, rfl⟩

theorem Keeps.refl (e : Engine) (t : TargetId) : e.Keeps e t := .of_same rfl

theorem Keeps.trans (first : e.Keeps middle t) (second : middle.Keeps after t) :
    e.Keeps after t := by
  intro v viewed
  obtain ⟨w, there, same⟩ := first v viewed
  obtain ⟨x, last, again⟩ := second w there
  exact ⟨x, last, again.trans same⟩

theorem Keeps.foldl {α : Type} {step : Engine → α → Engine}
    (each : ∀ (e : Engine) a, e.Keeps (step e a) t) (steps : List α) (e : Engine) :
    e.Keeps (steps.foldl step e) t := by
  induction steps generalizing e with
  | nil => exact .refl e t
  | cons a rest ih => exact (each e a).trans (ih (step e a))

/-- Editing views keeps the replica if the edit does. -/
theorem Keeps.modify {id : TargetId} {f : View → View} (views : after.views = e.views.modify id f)
    (kept : ∀ v, (f v).replicas.server = v.replicas.server) : e.Keeps after t := by
  intro v viewed
  by_cases same : id = t
  · refine ⟨f v, ?_, kept v⟩
    rw [views, getElem?_modify_eq_some]
    exact ⟨v, viewed, .inl ⟨same, rfl⟩⟩
  · refine ⟨v, ?_, rfl⟩
    rw [views, getElem?_modify_eq_some]
    exact ⟨v, viewed, .inr ⟨same, rfl⟩⟩

theorem keeps_recompute (e : Engine) (id : TargetId) : e.Keeps (e.recompute id) t :=
  .modify (views_recompute e id) fun _ => rfl

theorem keeps_saveView (e : Engine) (id : TargetId) : e.Keeps (e.saveView id) t :=
  .of_same (sameBooks_saveView e id).views

theorem keeps_dispatch (e : Engine) (id : TargetId) : e.Keeps (e.dispatch id) t :=
  .of_same (onlyTells_dispatch e id).views

theorem keeps_refresh (e : Engine) (batches : List MutationBatch) :
    e.Keeps (e.refresh batches) t :=
  .foldl keeps_recompute _ e

theorem keeps_dispatchAll (e : Engine) : e.Keeps e.dispatchAll t := .foldl keeps_dispatch _ e

/-- The view of a subscribed target is not dropped. -/
theorem keeps_prune (known : e.stream.subscriptions.contains t = true) : e.Keeps e.prune t := by
  intro v viewed
  refine ⟨v, ?_, rfl⟩
  rw [Engine.prune, ExtTreeMap.getElem?_filter', viewed]
  simp [Option.filter, known]

/-- Rejecting targets drops the views of no others. -/
theorem keeps_rejectTargets {rejections : List Rejection}
    (spared : ∀ r ∈ rejections, r.target ≠ t) (e : Engine) :
    e.Keeps (e.rejectTargets rejections) t := by
  unfold Engine.rejectTargets
  induction rejections generalizing e with
  | nil => exact .refl e t
  | cons r rest ih =>
    obtain ⟨other, others⟩ := List.forall_mem_cons.mp spared
    refine Keeps.trans (fun v viewed => ⟨v, ?_, rfl⟩) (ih others (e.rejectTarget r))
    rw [views_rejectTarget, ExtTreeMap.getElem?_erase,
      if_neg fun same => other (LawfulEqOrd.eq_of_compare same)]
    exact viewed

theorem keeps_ensureView (e : Engine) (id : TargetId) (target : Target) :
    e.Keeps (e.ensureView id target) t := by
  rcases ensureView_cases e id target with ⟨-, same⟩ | ⟨unviewed, server, -, made⟩
  · rw [same]
    exact .refl e t
  · intro v viewed
    refine ⟨v, ?_, rfl⟩
    rw [made, ExtTreeMap.getElem?_insert]
    split
    case isTrue same =>
      rw [LawfulEqOrd.eq_of_compare same, viewed] at unviewed
      cases unviewed
    case isFalse => exact viewed

theorem keeps_resync (known : e.resync.stream.subscriptions.contains t = true) :
    e.Keeps e.resync t := by
  have same : e.Keeps e.startedOver t := .of_same rfl
  exact (same.trans (keeps_dispatchAll _)).trans (keeps_prune known)

theorem keeps_disconnect (known : e.disconnect.stream.subscriptions.contains t = true) :
    e.Keeps e.disconnect t := by
  unfold Engine.disconnect at known ⊢
  by_cases started : e.stream.state.isStarted = true
  case neg =>
    rw [if_neg started]
    exact .refl e t
  case pos =>
    rw [if_pos started] at known ⊢
    let closed : Engine := { e with
      stream := e.stream.disconnect, queue := e.queue.markAllUnsent }
    have same : e.Keeps closed t := .of_same rfl
    exact (same.trans (keeps_dispatchAll closed)).trans (keeps_prune known)

theorem keeps_interrupt (known : e.interrupt.stream.subscriptions.contains t = true) :
    e.Keeps e.interrupt t := by
  unfold Engine.interrupt at known ⊢
  cases enabled : e.enabled with
  | false => exact .refl e t
  | true =>
    rw [enabled, if_pos rfl] at known
    exact keeps_disconnect known

theorem keeps_acknowledge (e : Engine) (id : BatchId) (commit : Version) :
    e.Keeps (e.acknowledge id commit) t := by
  unfold Engine.acknowledge
  split
  case h_1 => exact .refl e t
  case h_2 =>
    refine Keeps.trans ?_ (keeps_refresh _ _)
    exact .of_same (sameBooks_decide _ id (.acknowledged commit)).views

theorem keeps_reject (e : Engine) (id : BatchId) (status : Status) :
    e.Keeps (e.reject id status) t := by
  unfold Engine.reject
  split
  case h_1 => exact .refl e t
  case h_2 =>
    refine Keeps.trans ?_ (keeps_refresh _ _)
    exact .of_same (sameBooks_decide _ id (.rejected status)).views

theorem keeps_listen (e : Engine) (target : Target) : e.Keeps (e.listen target).2 t := by
  let listening : Engine := { e with stream := (e.stream.listen target).2 }
  let ensured := listening.ensureView (e.stream.listen target).1 target
  have same : e.Keeps listening t := .of_same rfl
  have joined : ensured.Keeps (ensured.attach (e.stream.listen target).1).2 t :=
    .modify rfl fun _ => rfl
  exact ((same.trans (keeps_ensureView listening _ target)).trans joined).trans (keeps_dispatch _ _)

theorem keeps_unlisten {listener : ListenerId} (left : e.unlisten listener = .ok after)
    (known : after.stream.subscriptions.contains t = true) : e.Keeps after t := by
  obtain ⟨entry, -, kind⟩ := unlisten_cases left
  have struck : e.Keeps (e.forget listener entry.target) t := .modify rfl fun _ => rfl
  rcases kind with rfl | rfl
  · exact struck
  · let saved := (e.forget listener entry.target).saveView entry.target
    have ended : e.Keeps { saved with stream := saved.stream.unlisten entry.target } t :=
      struck.trans (keeps_saveView _ entry.target)
    exact ended.trans (keeps_prune known)

theorem keeps_submit (e : Engine) (mutations : List Mutation) :
    e.Keeps (e.submit mutations).1 t := by
  unfold Engine.submit
  dsimp only
  split
  case h_1 => exact .of_same rfl
  case h_2 =>
    refine Keeps.trans ?_ (keeps_refresh _ _)
    exact .of_same rfl

theorem keeps_takeOutbound (e : Engine) : e.Keeps e.takeOutbound.2 t := by
  unfold Engine.takeOutbound
  split <;> exact .of_same rfl

/-- What the end of the stream rejects is not subscribed any more. -/
theorem keeps_streamClosed {error : Option StreamError} {now : Duration}
    (known : (e.streamClosed error now).2.stream.subscriptions.contains t = true) :
    e.Keeps (e.streamClosed error now).2 t := by
  have same := e.stream_streamClosed error now
  have spared : ∀ r ∈ (e.stream.closed error now).1, r.target ≠ t := by
    rintro r rejected rfl
    rw [same, Subscriptions.contains, ExtTreeMap.contains_eq_isSome_getElem?,
      (WatchStream.rejected_closed rejected).2] at known
    cases known
  have first : e.Keeps (e.cutOff error now) t := .of_same rfl
  have rejected := first.trans (keeps_rejectTargets spared (e.cutOff error now))
  exact (rejected.trans (keeps_dispatchAll _)).trans (keeps_prune known)

/-- A snapshot is applied, or it does not fit and the engine starts over. -/
theorem receive_snapshot_cases (opened : e.stream.state = .opened) (version : Version) :
    (∃ applied, ({ e with stream := (e.stream.flush version).2 } : Engine).applyRemote
        (e.stream.flush version).1 = .ok applied ∧
        e.receive (.snapshot version) = applied.prune) ∨
      e.receive (.snapshot version) =
        ({ e with stream := (e.stream.flush version).2 } : Engine).resync.prune := by
  rw [receive_eq opened, WatchStream.receive_snapshot opened]
  dsimp only
  split
  case h_1 applied made => exact .inl ⟨applied, made, rfl⟩
  case h_2 => exact .inr rfl

/-- The call brings a snapshot, which is applied to the engine. -/
def Applies (e after : Engine) (version : Version) : Prop :=
  e.stream.state = .opened ∧ ∃ applied,
    ({ e with stream := (e.stream.flush version).2 } : Engine).applyRemote
      (e.stream.flush version).1 = .ok applied ∧ after = applied.prune

/-- Whatever else a report comes to keeps the replicas of all targets that are still subscribed. -/
theorem keeps_receive (sound : e.stream.Sound) (change : WatchChange)
    (known : (e.receive change).stream.subscriptions.contains t = true) :
    e.Keeps (e.receive change) t ∨
      ∃ version, change = .snapshot version ∧ e.Applies (e.receive change) version := by
  by_cases opened : e.stream.state = .opened
  case neg =>
    rw [Engine.receive, if_pos opened]
    exact .inl (.refl e t)
  case pos =>
    let taken : Engine := { e with stream := (e.stream.receive change).1 }
    have first : e.Keeps taken t := .of_same rfl
    by_cases closes : change.Closes
    case pos =>
      obtain ⟨version, rfl⟩ := closes
      rcases receive_snapshot_cases opened version with ⟨applied, made, same⟩ | same
      · exact .inr ⟨version, rfl, opened, applied, made, same⟩
      · left
        rw [same] at known ⊢
        have flushed : e.Keeps { e with stream := (e.stream.flush version).2 } t := .of_same rfl
        exact (flushed.trans (keeps_resync known)).trans (keeps_prune known)
    case neg =>
      left
      rw [receive_eq opened] at known ⊢
      revert known
      split
      case h_1 => exact fun known => first.trans (keeps_prune known)
      case h_2 event done => exact absurd (WatchStream.closes_of_snapshot sound opened done) closes
      case h_3 rejections done =>
        intro known
        refine (first.trans (keeps_rejectTargets ?_ taken)).trans (keeps_prune known)
        rintro r rejected rfl
        obtain ⟨-, gone⟩ := WatchStream.rejected_receive sound opened done rejected
        have same : (taken.rejectTargets rejections).stream = (e.stream.receive change).1 :=
          stream_rejectTargets _ rejections
        change (taken.rejectTargets rejections).stream.subscriptions.contains r.target = true
          at known
        rw [same, Subscriptions.contains, ExtTreeMap.contains_eq_isSome_getElem?, gone] at known
        cases known
      case h_4 =>
        exact fun known => (first.trans (keeps_resync known)).trans (keeps_prune known)

/-- Any call that is no made-up snapshot keeps the replicas of all targets that are still
    subscribed, unless it brings a snapshot that is applied. -/
theorem keeps_perform (sound : e.stream.Sound) {action : Action}
    (genuine : ∀ event, action ≠ .applyRemote event)
    (known : (e.perform action).2.stream.subscriptions.contains t = true) :
    e.Keeps (e.perform action).2 t ∨ ∃ version now,
      action = .handle (.watch (.snapshot version)) now ∧
        e.Applies (e.perform action).2 version := by
  cases action with
  | connect =>
    left
    unfold Engine.perform Engine.connect?
    cases e.stream.connect? with
    | none => exact .refl e t
    | some stream => exact .of_same rfl
  | handle event now =>
    cases event with
    | opened => exact .inl (.of_same rfl)
    | watch change =>
      refine (keeps_receive sound change known).imp_right ?_
      rintro ⟨version, rfl, applies⟩
      exact ⟨version, now, rfl, applies⟩
    | writeAcked id commit => exact .inl (keeps_acknowledge e id commit)
    | writeRejected id status => exact .inl (keeps_reject e id status)
    | closed error => exact .inl (keeps_streamClosed known)
  | listen target => exact .inl (keeps_listen e target)
  | unlisten listener =>
    left
    cases left : e.unlisten listener with
    | error => simpa only [Engine.perform, left, orRefuse] using .refl e t
    | ok after =>
      simp only [Engine.perform, left, orRefuse] at known ⊢
      exact keeps_unlisten left known
  | submit mutations => exact .inl (e.perform_submit mutations ▸ keeps_submit e mutations)
  | takeOutbound => exact .inl (keeps_takeOutbound e)
  | applyRemote event => exact absurd rfl (genuine event)
  | interrupt => exact .inl (keeps_interrupt known)
  | resume => exact .inl (.of_same rfl)
  | disconnect => exact .inl (keeps_disconnect known)
  | resync => exact .inl (keeps_resync known)
  | takeRestart => exact .inl (.of_same rfl)

/-- The stream after a report that comes to no snapshot that is applied. -/
theorem moves_receive (sound : e.stream.Sound) (change : WatchChange) :
    e.stream.Moves (· = change) (e.receive change).stream ∨
      ∃ version, change = .snapshot version ∧ e.Applies (e.receive change) version := by
  by_cases opened : e.stream.state = .opened
  case neg =>
    rw [Engine.receive, if_pos opened]
    exact .inl .same
  case pos =>
    have received := (WatchStream.gains_receive sound change).1
    have faulty {after : Engine} (same : after.stream = (e.stream.receive change).1.restart) :
        e.stream.Moves (· = change) after.stream := same ▸ .fault received
    by_cases closes : change.Closes
    case pos =>
      obtain ⟨version, rfl⟩ := closes
      rcases receive_snapshot_cases opened version with ⟨applied, made, same⟩ | same
      · exact .inr ⟨version, rfl, opened, applied, made, same⟩
      · left
        rw [same]
        rw [WatchStream.receive_snapshot opened] at faulty
        exact faulty (stream_resync _)
    case neg =>
      left
      rw [receive_eq opened]
      split
      case h_1 done => exact .report rfl opened closes done
      case h_2 event done => exact absurd (WatchStream.closes_of_snapshot sound opened done) closes
      case h_3 rejections done =>
        have same : (rejectTargets { e with stream := (e.stream.receive change).1 }
            rejections).stream = (e.stream.receive change).1 := stream_rejectTargets _ rejections
        change e.stream.Moves (· = change) (rejectTargets _ rejections).stream
        rw [same]
        exact .report rfl opened closes done
      case h_4 => exact faulty (stream_resync _)

/-- The stream after a call that does not bring a snapshot that is applied. -/
theorem moves_perform (sound : e.stream.Sound) (action : Action) :
    e.stream.Moves (action.Brings e) (e.perform action).2.stream ∨ ∃ version now,
      action = .handle (.watch (.snapshot version)) now ∧
        e.Applies (e.perform action).2 version := by
  by_cases report : ∃ change now, action = .handle (.watch change) now
  case pos =>
    obtain ⟨change, now, rfl⟩ := report
    refine (moves_receive sound change).imp (fun moves => ?_) ?_
    · refine moves.widen fun other opened same => ⟨opened, now, ?_⟩
      rw [same]
    · rintro ⟨version, rfl, applies⟩
      exact ⟨version, now, rfl, applies⟩
  case neg =>
    left
    rcases e.stream_perform action with same | turn | ⟨change, ⟨-, now, taken⟩, -⟩
    · rw [same]
      exact .same
    · exact .turn turn
    · exact absurd ⟨change, now, taken⟩ report

theorem Applies.stream {version : Version} (applies : e.Applies after version) :
    after.stream = (e.stream.flush version).2 := by
  obtain ⟨-, applied, made, rfl⟩ := applies
  exact stream_applyRemote made

end Keeps

end Engine

end LiveQuery
