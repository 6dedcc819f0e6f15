import LiveQuery.Proofs.ListenerRounds

/-!
# What a call does

A call first changes the stream and the queue, and only then tells listeners. For
each listener that is entered it comes to one of four things: its view is laid
before it, or nothing changes that it could see, or its target is rejected, or
it leaves. Who listens to a target is known to the stream throughout, but for a
removal that breaks after it released the target.
-/

namespace LiveQuery

open Std

namespace Engine

/-- What a call comes to for a listener of a target. -/
inductive Course (e : Engine) (action : Action) (x : ListenerId) (t : TargetId) (after : Engine) :
    Prop
  | spoken (spoken : Spoken e after x t)
    (heard : e.stream.Heard t → after.stream.Heard t ∨ Action.Strands e action t)
  | still (still : Still e after x t) (heard : e.stream.Heard t → after.stream.Heard t)
    (current : after.stream.subscriptions.isCurrent t = e.stream.subscriptions.isCurrent t ∨
      Action.Dulls e action t)
  | ended (status : Status)
    (line : after.line x = (e.line x).finish (.error (.targetRejected t status)))
    (heard : e.stream.Heard t) (gone : after.stream.subscriptions.table[t]? = none)
  | left (gone : action = .unlisten x) (line : after.line x = ⟨none, e.told x⟩)

namespace Course

variable {e middle after : Engine} {action : Action} {x : ListenerId} {t : TargetId} {v : View}

theorem unchanged (here : e.Placed x t v) : Course e action x t e :=
  .still (.refl here) id (.inl rfl)

/-- A call that tells nobody anything and leaves what is current as it is. -/
theorem of_calm (here : e.Placed x t v) (views : after.views = e.views)
    (listeners : after.listeners = e.listeners) (deliveries : after.deliveries = e.deliveries)
    (calm : e.stream.Calm after.stream) : Course e action x t after :=
  .still (.of_same here views listeners deliveries) (calm.heard t) (.inl (calm.current t))

/-- A call that ends in a round of telling everyone. -/
theorem of_dispatchAll (still : Still e middle x t)
    (heard : e.stream.Heard t → middle.stream.Heard t ∨ Action.Strands e action t) :
    Course e action x t middle.dispatchAll.prune := by
  obtain ⟨_, there⟩ := still.placed
  refine .spoken (still.spoken (spoken_dispatchAll there)).prune fun before => ?_
  change middle.dispatchAll.stream.Heard t ∨ _
  rw [stream_dispatchAll]
  exact heard before

/-- A call that ends in making anew what some batches touch. -/
theorem of_refresh (still : Still e middle x t) (stream : middle.stream = e.stream)
    (batches : List MutationBatch) : Course e action x t (middle.refresh batches) := by
  obtain ⟨_, there⟩ := still.placed
  have kept : (middle.refresh batches).stream = e.stream :=
    (stream_refresh middle batches).trans stream
  rcases course_refresh there batches with spoken | unchanged
  · exact .spoken (still.spoken spoken) fun heard => .inl (kept ▸ heard)
  · exact .still (still.trans unchanged) (fun heard => kept ▸ heard) (.inl (by rw [kept]))

/-- Starting over tells everyone. -/
theorem of_resync (still : Still e middle x t)
    (heard : e.stream.Heard t → middle.stream.Heard t ∨ Action.Strands e action t) :
    Course e action x t middle.resync := by
  obtain ⟨_, there⟩ := still.placed
  exact of_dispatchAll (still.trans (.of_same there rfl rfl rfl)) fun before =>
    (heard before).imp_left WatchStream.heard_restart

theorem of_disconnect (still : Still e middle x t) (stream : middle.stream = e.stream) :
    Course e action x t middle.disconnect := by
  obtain ⟨_, there⟩ := still.placed
  unfold Engine.disconnect
  split
  case isTrue =>
    exact of_dispatchAll (still.trans (.of_same there rfl rfl rfl)) fun before =>
      .inl (WatchStream.heard_disconnect (stream ▸ before))
  case isFalse =>
    exact .still still (fun heard => stream ▸ heard) (.inl (by rw [stream]))

theorem submit (here : e.Placed x t v) (mutations : List Mutation) :
    Course e action x t (e.submit mutations).1 := by
  unfold Engine.submit
  dsimp only
  split
  case h_1 => exact of_calm here rfl rfl rfl (.refl _)
  case h_2 =>
    apply of_refresh
    case still => exact .of_same here rfl rfl rfl
    case stream => rfl

theorem acknowledge (here : e.Placed x t v) (id : BatchId) (commit : Version) :
    Course e action x t (e.acknowledge id commit) := by
  unfold Engine.acknowledge
  split
  case h_1 => exact unchanged here
  case h_2 batch queue done =>
    have decided := sameBooks_decide { e with queue, stats := { e.stats with
      writesAcknowledged := e.stats.writesAcknowledged + 1 } } id (.acknowledged commit)
    apply of_refresh
    case still => exact .of_same here decided.views decided.listeners decided.deliveries
    case stream => exact stream_decide _ id _

theorem reject (here : e.Placed x t v) (id : BatchId) (status : Status) :
    Course e action x t (e.reject id status) := by
  unfold Engine.reject
  split
  case h_1 => exact unchanged here
  case h_2 batch queue done =>
    have decided := sameBooks_decide { e with queue, stats := { e.stats with
      writesRejected := e.stats.writesRejected + 1 } } id (.rejected status)
    apply of_refresh
    case still => exact .of_same here decided.views decided.listeners decided.deliveries
    case stream => exact stream_decide _ id _

theorem takeOutbound (here : e.Placed x t v) : Course e action x t e.takeOutbound.2 := by
  unfold Engine.takeOutbound
  split
  case isTrue => exact of_calm here rfl rfl rfl e.stream.calm_takeOutbox
  case isFalse => exact unchanged here

/-- When the stream ends, the listeners of the targets that it ends for good end with them, and the
    others are told. -/
theorem streamClosed (here : e.Placed x t v) (error : Option StreamError) (now : Duration) :
    Course e action x t (e.streamClosed error now).2 := by
  rw [streamClosed_eq]
  let ended := (e.cutOff error now).rejectTargets (e.stream.closed error now).1
  have still : Still e (e.cutOff error now) x t := .of_same here rfl rfl rfl
  obtain ⟨_, there⟩ := still.placed
  rcases course_rejectTargets there (e.stream.closed error now).1 with
    ⟨status, rejected, unplaced, line⟩ | ⟨unchanged, spared⟩
  · obtain ⟨heard, gone⟩ := WatchStream.rejected_closed rejected
    refine .ended status ?_ heard ?_
    · have quiet : ended.dispatchAll.line x = ended.line x :=
        telling_dispatch.quiet fun id _ => unplaced id
      exact quiet.trans (still.1 ▸ line)
    · have kept := stream_dispatchAll ended
      rw [stream_rejectTargets] at kept
      exact kept ▸ gone
  · refine of_dispatchAll (still.trans unchanged) fun heard => .inl ?_
    rw [stream_rejectTargets]
    rcases WatchStream.heard_closed e.stream error now heard with kept | ⟨status, rejected⟩
    · exact kept
    · exact absurd rejected (spared status)

theorem prune (course : Course e action x t after) : Course e action x t after.prune := by
  cases course with
  | spoken spoken heard => exact .spoken spoken.prune heard
  | still still heard current => exact .still still.prune heard current
  | ended status line heard gone => exact .ended status line heard gone
  | left gone line => exact .left gone line

/-- A snapshot that cannot be applied is a fault like any other. -/
theorem applied (sound : e.stream.Sound) (opened : e.stream.state = .opened)
    {change : WatchChange} {now : Duration} {event : RemoteEvent} (here : e.Placed x t v)
    (done : (e.stream.receive change).2 = .ok (.snapshot event)) :
    Course e (.handle (.watch change) now) x t
      (match ({ e with stream := (e.stream.receive change).1 } : Engine).applyRemote event with
        | .ok e => e
        | .error _ => ({ e with stream := (e.stream.receive change).1 } : Engine).resync) := by
  have still : Still e { e with stream := (e.stream.receive change).1 } x t :=
    .of_same here rfl rfl rfl
  have heard (before : e.stream.Heard t) : (e.stream.receive change).1.Heard t := by
    rcases WatchStream.heard_accepted sound opened done before with kept | ⟨_, _, impossible, -⟩
    · exact kept
    · cases impossible
  split
  case h_1 after applied =>
    have kept : after.stream = (e.stream.receive change).1 := stream_applyRemote applied
    obtain ⟨_, there⟩ := still.placed
    rcases course_applyRemote applied there with spoken | ⟨unchanged, unmentioned⟩
    · exact .spoken (still.spoken spoken) fun before => .inl (kept ▸ heard before)
    · refine .still (still.trans unchanged) (fun before => kept ▸ heard before) ?_
      rw [kept]
      rcases WatchStream.current_receive sound opened done t with
        same | dulls | ⟨_, _, impossible, -⟩ | ⟨_, same, mentioned⟩
      · exact .inl same
      · exact .inr ⟨change, ⟨opened, now, rfl⟩, dulls⟩
      · cases impossible
      · obtain rfl := WatchOutcome.snapshot.inj same
        refine absurd (ExtTreeSet.mem_ofList.mpr ?_) unmentioned
        exact List.contains_iff_mem.mpr
          (List.mem_append_left _ (ExtTreeMap.mem_keys.mpr mentioned))
  case h_2 => exact of_resync still fun before => .inl (heard before)

/-- What a report comes to for the listeners of a target. -/
theorem receive (sound : e.stream.Sound) (here : e.Placed x t v) (change : WatchChange)
    (now : Duration) : Course e (.handle (.watch change) now) x t (e.receive change) := by
  by_cases opened : e.stream.state = .opened
  case neg =>
    rw [Engine.receive, if_pos opened]
    exact unchanged here
  case pos =>
    have brings : Action.Brings e (.handle (.watch change) now) change := ⟨opened, now, rfl⟩
    have still : Still e { e with stream := (e.stream.receive change).1 } x t :=
      .of_same here rfl rfl rfl
    rw [receive_eq opened]
    apply prune
    split
    case h_1 done =>
      refine .still still (fun before => ?_) ?_
      · rcases WatchStream.heard_accepted sound opened done before with kept | ⟨_, _, impossible, -⟩
        · exact kept
        · cases impossible
      · rcases WatchStream.current_receive sound opened done t with
          same | dulls | ⟨_, _, impossible, -⟩ | ⟨_, impossible, -⟩
        · exact .inl same
        · exact .inr ⟨change, brings, dulls⟩
        · cases impossible
        · cases impossible
    case h_2 event done => exact applied sound opened here done
    case h_3 rejections done =>
      obtain ⟨_, there⟩ := still.placed
      have kept := stream_rejectTargets { e with stream := (e.stream.receive change).1 } rejections
      rcases course_rejectTargets there rejections with
        ⟨status, rejected, -, line⟩ | ⟨unchanged, spared⟩
      · obtain ⟨heard, gone⟩ := WatchStream.rejected_receive sound opened done rejected
        exact .ended status (still.1 ▸ line) heard (kept ▸ gone)
      · refine .still (still.trans unchanged) (fun before => ?_) ?_
        · rw [kept]
          rcases WatchStream.heard_accepted sound opened done before with
            there | ⟨others, status, same, rejected⟩
          · exact there
          · obtain rfl := WatchOutcome.rejected.inj same
            exact absurd rejected (spared status)
        · rw [kept]
          rcases WatchStream.current_receive sound opened done t with
            same | dulls | ⟨others, status, again, rejected⟩ | ⟨_, impossible, -⟩
          · exact .inl same
          · exact .inr ⟨change, brings, dulls⟩
          · obtain rfl := WatchOutcome.rejected.inj again
            exact absurd rejected (spared status)
          · cases impossible
    case h_4 fault done =>
      refine of_resync still fun before => ?_
      rcases WatchStream.heard_receive sound opened change before with
        kept | ⟨_, _, rejected, -⟩ | strands
      · exact .inl kept
      · cases done.symm.trans rejected
      · exact .inr ⟨change, brings, strands⟩

/-- A new listener concerns no other, but that those of the same target may be told. -/
theorem listen (sound : e.stream.Sound) (here : e.Placed x t v) (differs : x ≠ ⟨e.nextListener⟩)
    (target : Target) : Course e action x t (e.listen target).2 := by
  unfold Engine.listen
  dsimp only
  let id := (e.stream.listen target).1
  let listening : Engine := { e with stream := (e.stream.listen target).2 }
  let attached := ((listening.ensureView id target).attach id).2
  have stream : attached.stream = (e.stream.listen target).2 :=
    stream_ensureView listening id target
  have started : Still e listening x t := .of_same here rfl rfl rfl
  obtain ⟨_, there⟩ := started.placed
  have ensured := started.trans (still_ensureView there id target)
  obtain ⟨_, there⟩ := ensured.placed
  have named : (listening.ensureView id target).nextListener = e.nextListener := by
    unfold ensureView
    split <;> rfl
  have still : Still e attached x t := ensured.trans (still_attach there (named ▸ differs) id)
  obtain ⟨_, there⟩ := still.placed
  obtain ⟨heard, others⟩ := WatchStream.heard_listen sound target
  have kept : (attached.dispatch id).stream = (e.stream.listen target).2 :=
    (stream_dispatch attached id).trans stream
  change Course e action x t (attached.dispatch id)
  by_cases same : t = id
  · have spoken : Spoken attached (attached.dispatch id) x t :=
      telling_dispatch.spoken (List.pairwise_singleton _ id) there (List.mem_singleton.mpr same)
    exact .spoken (still.spoken spoken) fun _ => .inl (kept ▸ same ▸ heard)
  · have quiet : Still attached (attached.dispatch id) x t :=
      telling_dispatch.still there (mt List.mem_singleton.mp same)
    refine .still (still.trans quiet) ?_ (.inl ?_)
    · rintro ⟨sub, entered, listening⟩
      exact kept ▸ ⟨sub, (others t same).trans entered, listening⟩
    · rw [kept, Subscriptions.isCurrent, others t same]
      rfl

/-- A listener that leaves concerns no other. -/
theorem unlisten (sound : e.stream.Sound) (here : e.Placed x t v) {y : ListenerId}
    (left : e.unlisten y = .ok after) : Course e (.unlisten y) x t after := by
  obtain ⟨entry, entered, kind⟩ := unlisten_last left
  by_cases same : x = y
  · subst same
    refine .left rfl ?_
    have struck : (e.forget x entry.target).line x = ⟨none, e.told x⟩ := by
      change Line.mk (e.listeners.erase x)[x]? _ = _
      rw [ExtTreeMap.getElem?_erase_self]
      rfl
    rcases kind with rfl | ⟨rfl, -⟩
    · exact struck
    · exact (lines_of_books (sameBooks_saveView _ entry.target) x).trans struck
  · have still := still_forget here same entry.target
    rcases kind with rfl | ⟨rfl, nobody⟩
    · exact .still still (·) (.inl rfl)
    · obtain ⟨w, there⟩ := still.placed
      have differs : t ≠ entry.target := by
        rintro rfl
        have empty := nobody w there.viewed
        rw [ExtTreeSet.isEmpty_iff] at empty
        exact ExtTreeSet.not_mem_empty (empty ▸ there.member)
      let saved := (e.forget y entry.target).saveView entry.target
      have books := sameBooks_saveView (e.forget y entry.target) entry.target
      have stream : saved.stream = e.stream := stream_saveView _ entry.target
      have kept : saved.stream.unlisten entry.target = e.stream.unlisten entry.target := by
        rw [stream]
      have ended : Still (e.forget y entry.target)
          { saved with stream := saved.stream.unlisten entry.target } x t :=
        .of_same there books.views books.listeners books.deliveries
      refine .still (still.trans ended).prune ?_ (.inl ?_)
      · rintro ⟨sub, entered, listening⟩
        change (saved.stream.unlisten entry.target).Heard t
        rw [kept]
        exact ⟨sub, (WatchStream.table_unlisten sound differs).trans entered, listening⟩
      · change (saved.stream.unlisten entry.target).subscriptions.isCurrent t = _
        rw [kept, Subscriptions.isCurrent, WatchStream.table_unlisten sound differs]
        rfl

/-- What a call comes to for a listener that is entered. -/
theorem perform {behind : TargetId → Prop} (informed : Informed behind e)
    (sound : e.stream.Sound) {l : Listener} (entered : e.listeners[x]? = some l)
    (action : Action) : Course e action x l.target (e.perform action).2 := by
  obtain ⟨v, here⟩ := informed.placed entered
  cases action with
  | connect =>
    unfold Engine.perform Engine.connect?
    cases asked : e.stream.connect? with
    | none => exact unchanged here
    | some stream => exact of_calm here rfl rfl rfl (WatchStream.calm_connect asked)
  | handle event now =>
    cases event with
    | opened => exact of_calm here rfl rfl rfl (WatchStream.calm_opened sound now)
    | watch change => exact receive sound here change now
    | writeAcked batch commit => exact acknowledge here batch commit
    | writeRejected batch status => exact reject here batch status
    | closed error => exact streamClosed here error now
  | listen target =>
    refine listen sound here ?_ target
    rintro rfl
    cases entered.symm.trans (informed.unentered (Nat.le_refl _))
  | unlisten y =>
    cases left : e.unlisten y with
    | error => simpa only [Engine.perform, left, orRefuse] using unchanged here
    | ok after => simpa only [Engine.perform, left, orRefuse] using unlisten sound here left
  | submit mutations =>
    exact e.perform_submit mutations ▸ submit here mutations
  | takeOutbound => exact takeOutbound here
  | applyRemote event =>
    cases applied : e.applyRemote event with
    | error => simpa only [Engine.perform, applied, orRefuse] using unchanged here
    | ok after =>
      have kept : after.stream = e.stream := stream_applyRemote applied
      have course : Course e (.applyRemote event) x l.target after := by
        rcases course_applyRemote applied here with spoken | ⟨still, -⟩
        · exact .spoken spoken fun heard => .inl (kept ▸ heard)
        · exact .still still (fun heard => kept ▸ heard) (.inl (by rw [kept]))
      simpa only [Engine.perform, applied, orRefuse] using course
  | interrupt =>
    change Course e _ x l.target e.interrupt
    unfold Engine.interrupt
    split
    · exact of_disconnect (.of_same here rfl rfl rfl) rfl
    · exact unchanged here
  | resume => exact of_calm here rfl rfl rfl (.refl _)
  | disconnect => exact of_disconnect (.refl here) rfl
  | resync => exact of_resync (.refl here) .inl
  | takeRestart => exact of_calm here rfl rfl rfl (.refl _)

end Course

end Engine

end LiveQuery
