import LiveQuery.Proofs.EngineCalls

/-!
# What a call sends

A call sends nothing to those who are not entered, but to the listener that it
adds. Whatever snapshot it sends shows the view, and the flags, as the call
leaves them.
-/

namespace LiveQuery

open Std

namespace Engine

/-- Whoever is not entered is told nothing and stays away, and no number is given out again. -/
structure Silent (e after : Engine) (x : ListenerId) : Prop where
  line : e.listeners[x]? = none → after.line x = e.line x
  next : e.nextListener ≤ after.nextListener

section Silence

variable {e middle after : Engine} {x : ListenerId}

theorem Silent.refl (e : Engine) : Silent e e x := ⟨fun _ => rfl, Nat.le_refl _⟩

theorem Silent.trans (first : Silent e middle x) (second : Silent middle after x) :
    Silent e after x where
  line absent :=
    have line := first.line absent
    (second.line ((congrArg Line.entry line).trans absent)).trans line
  next := Nat.le_trans first.next second.next

theorem Silent.of_same (listeners : after.listeners = e.listeners)
    (deliveries : after.deliveries = e.deliveries) (next : after.nextListener = e.nextListener) :
    Silent e after x where
  line _ := by rw [Engine.line, Engine.line, listeners, told_congr deliveries]
  next := Nat.le_of_eq next.symm

theorem Silent.of_books (same : e.SameBooks after) : Silent e after x :=
  .of_same same.listeners same.deliveries same.nextListener

theorem Silent.prune (silent : Silent e after x) : Silent e after.prune x :=
  ⟨silent.line, silent.next⟩

theorem silent_foldl {α : Type} {step : Engine → α → Engine}
    (each : ∀ e a, Silent e (step e a) x) (steps : List α) (e : Engine) :
    Silent e (steps.foldl step e) x := by
  induction steps generalizing e with
  | nil => exact .refl e
  | cons a rest ih => exact (each e a).trans (ih (step e a))

theorem silent_dispatch (e : Engine) (id : TargetId) : Silent e (e.dispatch id) x where
  line absent := by
    cases viewed : e.views[id]? with
    | none => rw [dispatch_of_unviewed viewed]
    | some v =>
      rw [e.line_dispatch viewed]
      split
      · rw [Engine.line, Line.inform, absent]
      · rfl
  next := Nat.le_of_eq (onlyTells_dispatch e id).nextListener.symm

theorem silent_recompute (e : Engine) (id : TargetId) : Silent e (e.recompute id) x := by
  cases viewed : e.views[id]? with
  | none =>
    rw [recompute_of_unviewed viewed]
    exact .refl e
  | some v =>
    rw [recompute_of_viewed viewed]
    have laid : Silent e (e.overlay id v) x := .of_same rfl rfl rfl
    exact laid.trans (silent_dispatch _ id)

theorem silent_absorb (event : RemoteEvent) (e : Engine) (id : TargetId) :
    Silent e (absorb event e id) x := by
  unfold absorb
  split <;> exact .of_same rfl rfl rfl

theorem silent_rejectTarget (e : Engine) (r : Rejection) : Silent e (e.rejectTarget r) x where
  line absent := by
    cases viewed : e.views[r.target]? with
    | none => exact lines_of_books (sameBooks_rejectTarget viewed) x
    | some v =>
      rw [e.line_rejectTarget viewed]
      split
      · rw [Engine.line, Line.finish, absent]
      · rfl
  next := Nat.le_of_eq (counters_rejectTarget e r).1.symm

theorem silent_refresh (e : Engine) (batches : List MutationBatch) :
    Silent e (e.refresh batches) x :=
  silent_foldl silent_recompute _ e

theorem silent_resync (e : Engine) : Silent e e.resync x := by
  have stopped : Silent e e.startedOver x := .of_same rfl rfl rfl
  rw [resync_eq]
  exact (stopped.trans (silent_foldl silent_dispatch _ _)).prune

theorem silent_disconnect (e : Engine) : Silent e e.disconnect x := by
  unfold disconnect
  split
  · have closed : Silent e { e with
        stream := e.stream.disconnect, queue := e.queue.markAllUnsent } x := .of_same rfl rfl rfl
    exact (closed.trans (silent_foldl silent_dispatch _ _)).prune
  · exact .refl _

theorem silent_applyRemote {event : RemoteEvent} (applied : e.applyRemote event = .ok after) :
    Silent e after x := by
  obtain ⟨-, ids, stats, -, -, rfl⟩ := applyRemote_cases applied
  have absorbed : Silent e (event.affected.toList.foldl (absorb event) e) x :=
    silent_foldl (silent_absorb event) _ e
  have taken : Silent e (e.takeIn event) x := absorbed.trans (.of_same rfl rfl rfl)
  have told := taken.trans (silent_foldl
    (fun e id => (silent_recompute e id).trans (.of_books (sameBooks_saveView _ id))) ids _)
  exact ⟨told.line, told.next⟩

theorem silent_receive (e : Engine) (change : WatchChange) : Silent e (e.receive change) x := by
  by_cases opened : e.stream.state = .opened
  case neg =>
    rw [receive, if_pos opened]
    exact .refl _
  case pos =>
    rw [receive_eq opened]
    apply Silent.prune
    have taken : Silent e { e with stream := (e.stream.receive change).1 } x := .of_same rfl rfl rfl
    split
    case h_1 => exact taken
    case h_2 event done =>
      split
      case h_1 applied => exact taken.trans (silent_applyRemote applied)
      case h_2 => exact taken.trans (silent_resync _)
    case h_3 rejections done => exact taken.trans (silent_foldl silent_rejectTarget _ _)
    case h_4 => exact taken.trans (silent_resync _)

theorem silent_decided (queue : WriteQueue) (stats : Stats) (id : BatchId)
    (outcome : WriteOutcome) : Silent e (({ e with queue, stats } : Engine).decide id outcome) x :=
  have counted : Silent e { e with queue, stats } x := .of_same rfl rfl rfl
  counted.trans (.of_books (sameBooks_decide _ id outcome))

theorem silent_handle (e : Engine) (event : StreamEvent) (now : Duration) :
    Silent e (e.handle event now).2 x := by
  cases event with
  | opened => exact .of_same rfl rfl rfl
  | watch change => exact silent_receive e change
  | writeAcked id commit =>
    change Silent e (e.acknowledge id commit) x
    unfold acknowledge
    split
    case h_1 => exact .refl _
    case h_2 =>
      refine Silent.trans ?_ (silent_refresh _ _)
      exact (silent_decided _ _ id (.acknowledged commit)).trans (.of_same rfl rfl rfl)
  | writeRejected id status =>
    change Silent e (e.reject id status) x
    unfold reject
    split
    case h_1 => exact .refl _
    case h_2 => exact (silent_decided _ _ id _).trans (silent_refresh _ _)
  | closed error =>
    have stopped : Silent e (e.cutOff error now) x := .of_same rfl rfl rfl
    have ended : Silent e ((e.cutOff error now).rejectTargets (e.stream.closed error now).1) x :=
      stopped.trans (silent_foldl silent_rejectTarget _ _)
    exact (ended.trans (silent_foldl silent_dispatch _ _)).prune

theorem silent_unlisten {y : ListenerId} (left : e.unlisten y = .ok after) :
    Silent e after x := by
  have struck (entry : Listener) : Silent e (e.forget y entry.target) x := by
    refine ⟨fun absent => ?_, Nat.le_refl _⟩
    change Line.mk (e.listeners.erase y)[x]? _ = _
    rw [ExtTreeMap.getElem?_erase, line, absent, ite_self]
    rfl
  obtain ⟨entry, -, rfl | rfl⟩ := unlisten_cases left
  · exact struck entry
  · have saved := (struck entry).trans (.of_books (sameBooks_saveView _ entry.target))
    exact ⟨saved.line, saved.next⟩

/-- Listening adds one listener, which was told nothing before. -/
theorem silent_listen (e : Engine) (target : Target) (differs : x ≠ ⟨e.nextListener⟩) :
    Silent e (e.listen target).2 x := by
  let id := (e.stream.listen target).1
  let listening : Engine := { e with stream := (e.stream.listen target).2 }
  let ensured := listening.ensureView id target
  obtain ⟨listeners, deliveries, next⟩ : (listening.ensureView id target).listeners = e.listeners ∧
      (listening.ensureView id target).deliveries = e.deliveries ∧
      (listening.ensureView id target).nextListener = e.nextListener := by
    unfold ensureView
    split <;> exact ⟨rfl, rfl, rfl⟩
  have attached : Silent ensured (ensured.attach id).2 x := by
    refine ⟨fun absent => ?_, Nat.le_succ _⟩
    change Line.mk (ensured.listeners.insert ⟨ensured.nextListener⟩ { target := id })[x]? _ = _
    rw [ExtTreeMap.getElem?_insert, next,
      if_neg fun same => differs (LawfulEqOrd.eq_of_compare same).symm]
    rfl
  have first : Silent e ensured x := .of_same listeners deliveries next
  exact (first.trans attached).trans (silent_dispatch _ id)

/-- A call says nothing to those who are not entered, but to the one that it enters. -/
theorem silent_perform (e : Engine) (action : Action)
    (old : ∀ target, action = .listen target → x ≠ ⟨e.nextListener⟩) :
    Silent e (e.perform action).2 x := by
  cases action with
  | connect =>
    unfold Engine.perform Engine.connect?
    cases asked : e.stream.connect? with
    | none => exact .refl _
    | some stream => exact .of_same rfl rfl rfl
  | handle event now => exact silent_handle e event now
  | listen target => exact silent_listen e target (old target rfl)
  | unlisten y =>
    cases left : e.unlisten y with
    | error => simpa only [Engine.perform, left, orRefuse] using Silent.refl e
    | ok after => simpa only [Engine.perform, left, orRefuse] using silent_unlisten left
  | submit mutations =>
    rw [perform_submit]
    unfold submit
    dsimp only
    split
    case h_1 => exact .of_same rfl rfl rfl
    case h_2 store _ =>
      have queued : Silent e { e with
          queue := (e.queue.append mutations).2
          store
          stats := { e.stats with writesSubmitted := e.stats.writesSubmitted + 1 }
          awaited := e.awaited.insert (e.queue.append mutations).1.id } x := .of_same rfl rfl rfl
      exact queued.trans (silent_refresh _ _)
  | takeOutbound =>
    change Silent e e.takeOutbound.2 x
    unfold takeOutbound
    split <;> exact .of_same rfl rfl rfl
  | applyRemote event =>
    cases applied : e.applyRemote event with
    | error => simpa only [Engine.perform, applied, orRefuse] using Silent.refl e
    | ok after => simpa only [Engine.perform, applied, orRefuse] using silent_applyRemote applied
  | interrupt =>
    change Silent e e.interrupt x
    unfold interrupt
    split
    · have disabled : Silent e { e with enabled := false } x := .of_same rfl rfl rfl
      exact disabled.trans (silent_disconnect _)
    · exact .refl _
  | resume => exact .of_same rfl rfl rfl
  | disconnect => exact silent_disconnect e
  | resync => exact silent_resync e
  | takeRestart => exact .of_same rfl rfl rfl

end Silence

/-- A listener that is added is told at once, if there is something to tell. -/
theorem spoken_listen {behind : TargetId → Prop} {e : Engine} (informed : Informed behind e)
    (target : Target) :
    ∃ middle, middle.line ⟨e.nextListener⟩ = ⟨some { target := (e.stream.listen target).1 }, []⟩ ∧
      Spoken middle (e.listen target).2 ⟨e.nextListener⟩ (e.stream.listen target).1 := by
  let id := (e.stream.listen target).1
  let listening : Engine := { e with stream := (e.stream.listen target).2 }
  have started : Informed behind listening := informed.aside (.edit ..)
  have ensured := started.ensureView id target
  have next : (listening.ensureView id target).nextListener = e.nextListener := by
    unfold ensureView
    split <;> rfl
  have viewed : id ∈ (listening.ensureView id target).views := by
    unfold ensureView
    split
    case isTrue viewed => exact ExtTreeMap.mem_iff_contains.mpr viewed
    case isFalse => exact ExtTreeMap.mem_insert_self
  have unused : (listening.ensureView id target).line ⟨e.nextListener⟩ = ⟨none, []⟩ :=
    ensured.fresh _ (Nat.le_of_eq next)
  let attached := ((listening.ensureView id target).attach id).2
  have entered : attached.listeners[ListenerId.mk e.nextListener]? = some { target := id } := by
    rw [← next]
    exact ExtTreeMap.getElem?_insert_self
  have line : attached.line ⟨e.nextListener⟩ = ⟨some { target := id }, []⟩ := by
    rw [Engine.line, entered]
    exact congrArg (Line.mk _) (congrArg Line.events unused)
  obtain ⟨v, here⟩ := (ensured.attach viewed).placed entered
  exact ⟨attached, line,
    telling_dispatch.spoken (List.pairwise_singleton _ id) here (List.mem_singleton.mpr rfl)⟩

/-- What a call sends to a listener, oldest first. -/
def sent (e : Engine) (action : Action) (x : ListenerId) : List ListenEvent :=
  ((e.perform action).2.told x).drop (e.told x).length

section Sent

variable {e : Engine} {x : ListenerId}

/-- What was told stays told. -/
theorem told_perform {behind : TargetId → Prop} (informed : Informed behind e)
    (sound : e.stream.Sound) (action : Action) (x : ListenerId) :
    (e.perform action).2.told x = e.told x ++ e.sent action x := by
  have extends_told {events : List ListenEvent}
      (told : (e.perform action).2.told x = e.told x ++ events) :
      (e.perform action).2.told x = e.told x ++ e.sent action x := by
    rw [sent, told, List.drop_left]
  have same (line : (e.perform action).2.line x = e.line x) :
      (e.perform action).2.told x = e.told x ++ [] :=
    (congrArg Line.events line).trans (List.append_nil _).symm
  cases entered : e.listeners[x]? with
  | none =>
    by_cases new : ∃ target, action = .listen target ∧ x = ⟨e.nextListener⟩
    · obtain ⟨target, -, rfl⟩ := new
      have untold : e.told ⟨e.nextListener⟩ = [] :=
        congrArg Line.events (informed.fresh ⟨e.nextListener⟩ (Nat.le_refl _))
      rw [sent, untold]
      rfl
    · exact extends_told (same ((silent_perform e action
        fun target here own => new ⟨target, here, own⟩).line entered))
  | some l =>
    cases Course.perform informed sound entered action with
    | spoken spoken _ =>
      obtain ⟨v, -, line⟩ := spoken
      exact extends_told ((congrArg Line.events line).trans (Line.events_inform ..))
    | still still _ _ => exact extends_told (same still.1)
    | ended status line _ _ =>
      exact extends_told ((congrArg Line.events line).trans (Line.events_finish ..))
    | left _ line =>
      exact extends_told ((congrArg Line.events line).trans (List.append_nil _).symm)

/-- A view that is not initialized is not shown. -/
theorem initialized_of_next? {l : Listener} {v : View} {flags : Flags} {next : ViewSnapshot}
    (spoken : l.next? v flags = some next) : v.replicas.shown.initialized = true := by
  unfold Listener.next? at spoken
  split at spoken
  case isTrue => cases spoken
  case isFalse idle =>
    simp only [Bool.or_eq_true, Bool.not_eq_true', not_or] at idle
    exact eq_true_of_ne_false idle.2

/-- What reaches a listener that a view is laid before shows the view. -/
theorem shows_of_spoken {before after : Engine} {t : TargetId} (spoken : Spoken before after x t)
    {l : Listener} (entered : before.listeners[x]? = some l) (own : l.target = t)
    {events : List ListenEvent} (told : after.told x = before.told x ++ events)
    {s : ViewSnapshot} (member : .ok s ∈ events) :
    ∃ l v, after.listeners[x]? = some l ∧ after.views[l.target]? = some v ∧
      v.replicas.shown.initialized = true ∧
      s.Shows v.target v.result (after.flagsOf l.target v) := by
  obtain ⟨v, here, line⟩ := spoken
  have entry := congrArg Line.entry line
  have news := congrArg Line.events line
  rw [Line.entry_inform] at entry
  rw [Line.events_inform] at news
  change after.listeners[x]? = before.listeners[x]?.map _ at entry
  change after.told x = before.told x ++ before.listeners[x]?.elim [] _ at news
  rw [entered] at entry news
  obtain rfl := List.append_cancel_left (told.symm.trans news)
  have target : (l.after v (after.flagsOf t v)).target = t := (l.target_after v _).trans own
  rw [Option.elim_some, Listener.news] at member
  split at member
  case isFalse => cases member
  case isTrue =>
    obtain ⟨next, spoken, same⟩ : ∃ next, l.next? v (after.flagsOf t v) = some next ∧
        Except.ok next = (Except.ok s : ListenEvent) := by
      simpa using member
    obtain rfl := Except.ok.inj same
    obtain ⟨shows, -, -⟩ := Listener.of_next?_eq_some spoken
    refine ⟨l.after v (after.flagsOf t v), v, entry, ?_, initialized_of_next? spoken, ?_⟩
    · rw [target, here.viewed]
    · rw [target]
      exact shows

/-- Every snapshot that a call sends shows the view as the call leaves it. -/
theorem sent_shows {behind : TargetId → Prop} (informed : Informed behind e)
    (sound : e.stream.Sound) {action : Action} {s : ViewSnapshot}
    (member : .ok s ∈ e.sent action x) :
    ∃ l v, (e.perform action).2.listeners[x]? = some l ∧
      (e.perform action).2.views[l.target]? = some v ∧ v.replicas.shown.initialized = true ∧
      s.Shows v.target v.result ((e.perform action).2.flagsOf l.target v) := by
  have told := told_perform informed sound action x
  have unchanged (line : (e.perform action).2.line x = e.line x) : e.sent action x = [] :=
    List.append_right_eq_self.mp (told.symm.trans (congrArg Line.events line))
  cases entered : e.listeners[x]? with
  | none =>
    by_cases new : ∃ target, action = .listen target ∧ x = ⟨e.nextListener⟩
    · obtain ⟨target, rfl, rfl⟩ := new
      obtain ⟨middle, line, spoken⟩ := spoken_listen informed target
      have untold : e.told ⟨e.nextListener⟩ = [] :=
        congrArg Line.events (informed.fresh ⟨e.nextListener⟩ (Nat.le_refl _))
      refine shows_of_spoken spoken (congrArg Line.entry line) rfl ?_ member
      rw [show middle.told ⟨e.nextListener⟩ = [] from congrArg Line.events line]
      exact told.trans (by rw [untold])
    · rw [unchanged ((silent_perform e action
        fun target here own => new ⟨target, here, own⟩).line entered)] at member
      cases member
  | some l =>
    cases Course.perform informed sound entered action with
    | spoken spoken _ => exact shows_of_spoken spoken entered rfl told member
    | still still _ _ =>
      rw [unchanged still.1] at member
      cases member
    | ended status line _ _ =>
      have news := (congrArg Line.events line).trans (Line.events_finish ..)
      change _ = e.told x ++ e.listeners[x]?.elim [] _ at news
      rw [entered, Option.elim_some] at news
      rw [List.append_cancel_left (told.symm.trans news)] at member
      split at member <;> simp at member
    | left _ line =>
      have same : (e.perform action).2.told x = e.told x := congrArg Line.events line
      rw [List.append_right_eq_self.mp (told.symm.trans same)] at member
      cases member

/-- Whoever is entered after a call was so before, for the same target, or is the listener that the
    call adds. -/
theorem entered_perform {behind : TargetId → Prop} (informed : Informed behind e)
    (sound : e.stream.Sound) {action : Action} {l : Listener}
    (entered : (e.perform action).2.listeners[x]? = some l) :
    (∃ old, e.listeners[x]? = some old ∧ old.target = l.target) ∨
      ∃ target, action = .listen target ∧ x = ⟨e.nextListener⟩ ∧
        l.target = (e.stream.listen target).1 := by
  cases before : e.listeners[x]? with
  | none =>
    by_cases new : ∃ target, action = .listen target ∧ x = ⟨e.nextListener⟩
    · obtain ⟨target, rfl, rfl⟩ := new
      obtain ⟨middle, line, v, -, spoken⟩ := spoken_listen informed target
      have entry := (congrArg Line.entry spoken).trans (Line.entry_inform ..)
      rw [line] at entry
      obtain rfl := Option.some.inj (entered.symm.trans entry)
      exact .inr ⟨target, rfl, rfl, Listener.target_after _ v _⟩
    · have same := (silent_perform e action
        fun target here own => new ⟨target, here, own⟩).line before
      cases entered.symm.trans ((congrArg Line.entry same).trans before)
  | some old =>
    refine .inl ⟨old, rfl, ?_⟩
    cases Course.perform informed sound before action with
    | spoken spoken _ =>
      obtain ⟨v, -, line⟩ := spoken
      have entry := (congrArg Line.entry line).trans (Line.entry_inform ..)
      change _ = e.listeners[x]?.map _ at entry
      rw [before] at entry
      obtain rfl := Option.some.inj (entered.symm.trans entry)
      exact (old.target_after v _).symm
    | still still _ _ =>
      have entry : _ = e.listeners[x]? := congrArg Line.entry still.1
      obtain rfl := Option.some.inj ((entry.trans before).symm.trans entered)
      rfl
    | ended status line _ _ =>
      cases entered.symm.trans ((congrArg Line.entry line).trans (Line.entry_finish ..))
    | left _ line => cases entered.symm.trans (congrArg Line.entry line)

end Sent

end Engine

end LiveQuery
