import LiveQuery.Proofs.ServerSide
import LiveQuery.Proofs.SubscriptionNames

/-!
# The registries

Who listens to what is written down three times: each listener is entered with its
target, each view lists its listeners, and the subscriptions say which targets are
tracked and listened to. Every call edits some of them and leaves them agreeing.
A view lasts as long as somebody listens to it or the server may still report on
its target. So a report never concerns a target that has no view, and no snapshot
is ever refused.
-/

namespace LiveQuery

open Std

namespace Subscriptions

theorem contains_iff {s : Subscriptions} {id : TargetId} :
    s.contains id = true ↔ ∃ sub, s.table[id]? = some sub :=
  ExtTreeMap.mem_iff_contains.symm.trans mem_iff_entry

/-- Listening answers with a number that is given out. -/
theorem given_listen {s : Subscriptions} (numbered : s.Numbered) (t : Target) :
    (s.listen t).1.val < (s.listen t).2.nextId ∧ s.nextId ≤ (s.listen t).2.nextId := by
  obtain ⟨next, edited, own, given, -⟩ := listen_edited numbered t
  exact ⟨own ▸ given, edited.nextId⟩

end Subscriptions

namespace ServerSide

/-- Every target that is tracked has a view. -/
structure Tracked (s : ServerSide) : Prop where
  named : s.stream.subscriptions.Named
  /-- The view is for the very target, and it has a listener if the target is listened to. -/
  viewed : ∀ (id : TargetId) sub, s.stream.subscriptions.table[id]? = some sub →
    ∃ v, s.views id = some v ∧ v.target = sub.target ∧
      (sub.listening = true → v.listeners.isEmpty = false)
  given : ∀ (id : TargetId) v, s.views id = some v → id.val < s.stream.subscriptions.nextId

/-- Besides, there is no view that nobody needs. -/
structure Registered (s : ServerSide) : Prop extends Tracked s where
  needed : ∀ (id : TargetId) v, s.views id = some v →
    v.listeners.isEmpty = false ∨ ∃ sub, s.stream.subscriptions.table[id]? = some sub

section Steps

variable {s : ServerSide} {stream : WatchStream}

/-- Fewer targets have views all the more. -/
theorem Tracked.thinned (tracked : s.Tracked) (thins : s.stream.Thins stream) :
    Tracked { s with stream } where
  named := thins.named tracked.named
  viewed id next entered := by
    obtain ⟨sub, before, -, target, heard⟩ := thins.entry id next entered
    obtain ⟨v, viewed, same, listened⟩ := tracked.viewed id sub before
    exact ⟨v, viewed, same.trans target.symm, listened ∘ heard⟩
  given id v viewed := Nat.lt_of_lt_of_le (tracked.given id v viewed) thins.nextId

theorem views_prune {id : TargetId} {v : ServerView} : s.prune.views id = some v ↔
    s.views id = some v ∧
      (v.listeners.isEmpty = false ∨ ∃ sub, s.stream.subscriptions.table[id]? = some sub) := by
  rw [prune, Option.filter_eq_some_iff, Bool.or_eq_true, Bool.not_eq_true',
    Subscriptions.contains_iff]

/-- No view is without need while every target stays tracked. -/
theorem Registered.kept (registered : s.Registered) (thins : s.stream.Thins stream)
    (kept : ∀ (id : TargetId) sub, s.stream.subscriptions.table[id]? = some sub →
      ∃ next, stream.subscriptions.table[id]? = some next) : Registered { s with stream } where
  toTracked := registered.toTracked.thinned thins
  needed id v viewed := (registered.needed id v viewed).imp_right fun ⟨sub, entered⟩ =>
    kept id sub entered

/-- Dropping the views that nobody needs leaves those of the tracked targets. -/
theorem Tracked.prune (tracked : s.Tracked) : s.prune.Registered where
  named := tracked.named
  viewed id sub entered := by
    obtain ⟨v, viewed, kept⟩ := tracked.viewed id sub entered
    exact ⟨v, views_prune.mpr ⟨viewed, .inr ⟨sub, entered⟩⟩, kept⟩
  given id v viewed := tracked.given id v (views_prune.mp viewed).1
  needed _ _ viewed := (views_prune.mp viewed).2

/-- A rejected target that is gone needs no view. -/
theorem Tracked.rejectTarget (tracked : s.Tracked) {r : Rejection}
    (gone : s.stream.subscriptions.table[r.target]? = none) : (s.rejectTarget r).Tracked where
  named := tracked.named
  viewed id sub entered := by
    have other : r.target ≠ id := by
      rintro rfl
      cases gone.symm.trans entered
    obtain ⟨v, viewed, kept⟩ := tracked.viewed id sub entered
    exact ⟨v, (if_neg other).trans viewed, kept⟩
  given id v viewed := by
    dsimp only [ServerSide.rejectTarget] at viewed
    split at viewed
    case isTrue => cases viewed
    case isFalse => exact tracked.given id v viewed

theorem Tracked.rejectTargets (tracked : s.Tracked) {rejections : List Rejection}
    (gone : ∀ r ∈ rejections, s.stream.subscriptions.table[r.target]? = none) :
    (s.rejectTargets rejections).Tracked := by
  unfold ServerSide.rejectTargets
  induction rejections generalizing s with
  | nil => exact tracked
  | cons r rest ih =>
    obtain ⟨first, others⟩ := List.forall_mem_cons.mp gone
    exact ih (tracked.rejectTarget first) others

/-- A snapshot touches neither targets nor listeners. -/
theorem views_takeIn {event : RemoteEvent} {id : TargetId} {v : ServerView}
    (viewed : (s.takeIn event).views id = some v) :
    ∃ w, s.views id = some w ∧ v.target = w.target ∧ v.listeners = w.listeners := by
  obtain ⟨w, before, rfl⟩ := Option.map_eq_some_iff.mp viewed
  refine ⟨w, before, ?_⟩
  split <;> exact ⟨rfl, rfl⟩

theorem Tracked.takeIn (tracked : s.Tracked) (event : RemoteEvent) : (s.takeIn event).Tracked where
  named := tracked.named
  viewed id sub entered := by
    obtain ⟨v, viewed, kept⟩ := tracked.viewed id sub entered
    refine ⟨_, congrArg (Option.map _) viewed, ?_⟩
    split <;> exact kept
  given id v viewed := by
    obtain ⟨w, viewed, -⟩ := views_takeIn viewed
    exact tracked.given id w viewed

theorem Registered.takeIn (registered : s.Registered) (event : RemoteEvent) :
    (s.takeIn event).Registered where
  toTracked := registered.toTracked.takeIn event
  needed id v viewed := by
    obtain ⟨w, viewed, -, listeners⟩ := views_takeIn viewed
    exact listeners ▸ registered.needed id w viewed

theorem Registered.applyRemote (registered : s.Registered) (event : RemoteEvent) :
    (s.applyRemote event).Registered := by
  unfold ServerSide.applyRemote
  split
  · exact registered
  · exact registered.takeIn event

/-- Listening gives its view one more listener and makes the view if there is none. -/
theorem views_listen (s : ServerSide) (t : Target) (server : Replica) (id : TargetId) :
    (s.listen t server).views id =
      if (s.stream.listen t).1 = id then
        some { (s.views id).getD ⟨t, server, ∅⟩ with
          listeners := ((s.views id).getD ⟨t, server, ∅⟩).listeners.insert ⟨s.nextListener⟩ }
      else s.views id := by
  simp only [listen, attach, relist, ensureView]
  split
  case isTrue here =>
    subst here
    cases s.views (s.stream.listen t).1 <;> rfl
  case isFalse => rfl

theorem Registered.listen (registered : s.Registered) (sound : s.stream.Sound) (t : Target)
    (server : Replica) : (s.listen t server).Registered := by
  have given := Subscriptions.given_listen sound.numbered t
  have listened (id : TargetId) : (((s.views id).getD ⟨t, server, ∅⟩).listeners.insert
      ⟨s.nextListener⟩).isEmpty = false :=
    ExtTreeSet.isEmpty_eq_false_iff.mpr ExtTreeSet.insert_ne_empty
  refine ⟨⟨Subscriptions.named_listen sound.numbered registered.named t,
    fun id next entered => ?_, fun id v viewed => ?_⟩, fun id v viewed => ?_⟩
  · rw [views_listen]
    rcases Subscriptions.entry_listen sound.numbered t entered with
      ⟨sub, before, target, same⟩ | ⟨here, new, target⟩
    · obtain ⟨v, viewed, own, heard⟩ := registered.viewed id sub before
      split
      case isTrue =>
        refine ⟨_, rfl, ?_, fun _ => listened id⟩
        rw [viewed, target]
        exact own
      case isFalse other =>
        rw [same (Ne.symm other)]
        exact ⟨v, viewed, own, heard⟩
    · have unviewed : s.views id = none := by
        cases viewed : s.views id with
        | none => rfl
        | some v =>
          have given := registered.given id v viewed
          rw [new] at given
          exact absurd given (Nat.lt_irrefl _)
      refine ⟨_, if_pos here.symm, ?_, fun _ => listened id⟩
      rw [unviewed, target]
      rfl
  · rw [views_listen] at viewed
    split at viewed
    case isTrue here => exact here ▸ given.1
    case isFalse => exact Nat.lt_of_lt_of_le (registered.given id v viewed) given.2
  · rw [views_listen] at viewed
    split at viewed
    case isTrue => exact .inl (Option.some.inj viewed ▸ listened id)
    case isFalse other =>
      have kept : (s.listen t server).stream.subscriptions.table[id]? =
          s.stream.subscriptions.table[id]? :=
        (WatchStream.heard_listen sound t).2 id (Ne.symm other)
      exact kept ▸ registered.needed id v viewed

/-- A listener that is struck off leaves its view the others. -/
theorem views_forget {x : ListenerId} {id other : TargetId} {v : ServerView}
    (viewed : s.views other = some v) :
    (s.forget x id).views other =
      some (if id = other then { v with listeners := v.listeners.erase x } else v) := by
  dsimp only [forget, relist]
  split
  case isTrue here => rw [here, viewed]; rfl
  case isFalse => exact viewed

/-- The views that are there without a struck listener were there with it. -/
theorem of_views_forget {x : ListenerId} {id other : TargetId} {v : ServerView}
    (viewed : (s.forget x id).views other = some v) :
    ∃ w, s.views other = some w ∧ v.target = w.target ∧
      (id ≠ other → v.listeners = w.listeners) := by
  dsimp only [forget, relist] at viewed
  split at viewed
  case isTrue here =>
    obtain ⟨w, before, rfl⟩ := Option.map_eq_some_iff.mp viewed
    exact ⟨w, here ▸ before, rfl, fun differs => absurd here differs⟩
  case isFalse => exact ⟨v, viewed, rfl, fun _ => rfl⟩

/-- While some listener is left the target is listened to, and with the last one it is left. -/
theorem Registered.unlisten (registered : s.Registered) (sound : s.stream.Sound) (x : ListenerId) :
    (s.unlisten x).Registered := by
  unfold ServerSide.unlisten
  split
  case h_1 => exact registered
  case h_2 id listening =>
    dsimp only
    split
    case isTrue =>
      refine Tracked.prune ⟨?_, fun other next entered => ?_, fun other v viewed => ?_⟩
      · exact (Subscriptions.thins_unlisten sound.numbered id).named registered.named
      · obtain ⟨sub, before, -, target, heard⟩ :=
          (Subscriptions.thins_unlisten sound.numbered id).entry other next entered
        obtain ⟨v, viewed, own, listened⟩ := registered.viewed other sub before
        refine ⟨_, views_forget viewed, ?_⟩
        split
        case isTrue here =>
          obtain ⟨entry, edited, left⟩ := Subscriptions.unlisten_edited sound.numbered id
          have unheard : next.listening = false :=
            (left next ((if_pos here).symm.trans ((edited.table other).symm.trans entered))).1
          exact ⟨own.trans target.symm, fun heard => nomatch unheard.symm.trans heard⟩
        case isFalse => exact ⟨own.trans target.symm, listened ∘ heard⟩
      · obtain ⟨w, viewed, -⟩ := of_views_forget viewed
        exact Nat.lt_of_lt_of_le (registered.given other w viewed)
          (Subscriptions.thins_unlisten sound.numbered id).nextId
    case isFalse others =>
      have busy (v : ServerView) (viewed : (s.forget x id).views id = some v) :
          v.listeners.isEmpty = false := by
        simpa [viewed] using others
      refine ⟨⟨registered.named, fun other sub entered => ?_, fun other v viewed => ?_⟩,
        fun other v viewed => ?_⟩
      · obtain ⟨v, viewed, own, listened⟩ := registered.viewed other sub entered
        have left : (s.forget x id).views other = _ := views_forget viewed
        refine ⟨_, left, ?_⟩
        split
        case isTrue here =>
          subst here
          rw [if_pos rfl] at left
          exact ⟨own, fun _ => busy _ left⟩
        case isFalse => exact ⟨own, listened⟩
      · obtain ⟨w, viewed, -⟩ := of_views_forget viewed
        exact registered.given other w viewed
      · obtain ⟨w, before, -, kept⟩ := of_views_forget viewed
        by_cases here : id = other
        · subst here
          exact .inl (busy v viewed)
        · exact kept here ▸ registered.needed other w before

theorem Tracked.resync (tracked : s.Tracked) : s.resync.Registered :=
  Tracked.prune (s := { s with stream := s.stream.restart, restartRequested := true })
    { tracked.thinned s.stream.thins_restart with }

/-- No target that counts is without a view. -/
theorem Tracked.viewless? (tracked : s.Tracked) (event : RemoteEvent) :
    s.viewless? event = none := by
  refine List.find?_eq_none.mpr fun id _ => ?_
  cases unviewed : s.views id with
  | some v => simp
  | none =>
    have absent : s.stream.subscriptions.table[id]? = none := by
      cases entered : s.stream.subscriptions.table[id]? with
      | none => rfl
      | some sub =>
        obtain ⟨v, viewed, -⟩ := tracked.viewed id sub entered
        cases unviewed.symm.trans viewed
    simp [Subscriptions.isActive, absent]

/-- Whatever a report leads to, every target that is still tracked keeps its view. -/
theorem Registered.receive (registered : s.Registered) (sound : s.stream.Sound)
    (change : WatchChange) : (s.receive change).Registered := by
  unfold ServerSide.receive
  split
  case isTrue => exact registered
  case isFalse unopened =>
    have opened : s.stream.state = .opened := not_not.mp unopened
    have tracked : Tracked { s with stream := (s.stream.receive change).1 } :=
      registered.toTracked.thinned (WatchStream.thins_receive sound change)
    unfold ServerSide.follow
    split
    case h_1 => exact tracked.prune
    case h_2 event _ =>
      rw [tracked.viewless? event]
      exact (tracked.takeIn event).prune
    case h_3 rejections done =>
      refine (tracked.rejectTargets fun r rejected => ?_).prune
      exact (WatchStream.rejected_receive sound opened done rejected).2
    case h_4 => exact tracked.resync.toTracked.prune

/-- The end of the stream takes the views of rejected targets, which are gone. -/
theorem Registered.streamClosed (registered : s.Registered) (error : Option StreamError)
    (now : Duration) : (s.streamClosed error now).Registered := by
  have tracked : Tracked { s with stream := (s.stream.closed error now).2 } :=
    registered.toTracked.thinned (s.stream.thins_closed error now)
  exact (tracked.rejectTargets fun r rejected => (WatchStream.rejected_closed rejected).2).prune

theorem Registered.disconnect (registered : s.Registered) : s.disconnect.Registered := by
  unfold ServerSide.disconnect
  split
  · exact (registered.toTracked.thinned s.stream.thins_disconnect).prune
  · exact registered

/-- Every call leaves the registries agreeing. -/
theorem Registered.perform (registered : s.Registered) (sound : s.stream.Sound)
    (stored : Target → Replica) (action : Engine.Action) :
    (s.perform stored action).Registered := by
  cases action with
  | connect =>
    have same : (s.stream.connect?.getD s.stream).subscriptions = s.stream.subscriptions := by
      unfold WatchStream.connect?
      split <;> rfl
    have thins : s.stream.Thins (s.stream.connect?.getD s.stream) :=
      Subscriptions.thins_of_tables (by rw [same]) (by rw [same]) (by rw [same])
    exact registered.kept thins fun id sub entered => ⟨sub, same ▸ entered⟩
  | handle event now =>
    cases event with
    | opened =>
      refine registered.kept (s.stream.thins_opened now) fun id sub entered => ?_
      unfold WatchStream.opened
      split
      · exact ⟨sub, entered⟩
      · exact ⟨sub.reopened, (Subscriptions.table_streamOpened _ id).trans
          (congrArg (Option.map Subscription.reopened) entered)⟩
    | watch change => exact registered.receive sound change
    | writeAcked | writeRejected => exact registered
    | closed error => exact registered.streamClosed error now
  | listen target => exact registered.listen sound target (stored target)
  | unlisten x => exact registered.unlisten sound x
  | submit => exact registered
  | takeOutbound =>
    have table : s.stream.takeOutbox.2.subscriptions.table = s.stream.subscriptions.table ∧
        s.stream.takeOutbox.2.subscriptions.byName = s.stream.subscriptions.byName ∧
        s.stream.takeOutbox.2.subscriptions.nextId = s.stream.subscriptions.nextId := by
      unfold WatchStream.takeOutbox
      split <;> exact ⟨rfl, rfl, rfl⟩
    obtain ⟨table, byName, nextId⟩ := table
    exact registered.kept (Subscriptions.thins_of_tables table byName nextId)
      fun id sub entered => ⟨sub, table ▸ entered⟩
  | applyRemote event => exact registered.applyRemote event
  | interrupt =>
    change s.interrupt.Registered
    unfold ServerSide.interrupt
    split
    · exact Registered.disconnect { registered with }
    · exact registered
  | resume => exact { registered with }
  | disconnect => exact registered.disconnect
  | resync => exact registered.toTracked.resync
  | takeRestart => exact { registered with }

end Steps

end ServerSide

namespace Engine

/-- The server's side of a new engine is empty. -/
theorem registered_ofStore {config : Config} {store : Store} {e : Engine}
    (read : ofStore config store = .ok e) : e.serverSide.Registered := by
  obtain ⟨pending, rfl⟩ := ofStore_eq read
  refine ⟨⟨fun name id => ?_, fun id sub entered => ?_, fun id v viewed => ?_⟩,
    fun id v viewed => ?_⟩
  · simp [serverSide, WatchStream.ofConfig, Subscriptions.nameOf]
  · simp [serverSide, WatchStream.ofConfig] at entered
  · simp [serverSide] at viewed
  · simp [serverSide] at viewed

/-- A listener that gives up its end of the line keeps its target. -/
theorem serverSide_detach (e : Engine) (x : ListenerId) :
    (e.detach x).serverSide = e.serverSide := by
  refine serverSide_congr rfl rfl (fun _ => rfl) (fun y => ?_) rfl rfl rfl rfl
  rw [listenerTarget?, listenerTarget?, detach, ExtTreeMap.getElem?_modify]
  split
  case isTrue same => rw [LawfulEqOrd.eq_of_compare same, Option.map_map]; rfl
  case isFalse => rfl

end Engine

/-- The registries agree at any time. -/
theorem History.registered {past : List Moment} {e : Engine} (history : History past e) :
    e.serverSide.Registered := by
  induction history with
  | start read => exact Engine.registered_ofStore read
  | step before happening ih =>
    cases happening with
    | call action =>
      rw [Engine.meet, Engine.serverSide_perform]
      exact ih.perform before.sound _ action
    | detach id => rwa [Engine.meet, Engine.serverSide_detach]
    | restock store => exact ih

namespace Engine

variable {e : Engine}

/-- With a view for every tracked target no snapshot is refused. -/
theorem applied_of_tracked (tracked : e.serverSide.Tracked) (event : RemoteEvent) :
    ∃ after, e.applyRemote event = .ok after := by
  rcases e.applyRemote_side event with ⟨viewless, -⟩ | ⟨-, after, applied, -⟩
  · rw [tracked.viewless? event] at viewless
    cases viewless
  · exact ⟨after, applied⟩

/-- A snapshot from the stream starts nothing over. -/
theorem resyncs_of_registered (registered : e.serverSide.Registered) (sound : e.stream.Sound)
    (version : Version) : (e.receive (.snapshot version)).stats.resyncs = e.stats.resyncs := by
  by_cases opened : e.stream.state = .opened
  · have tracked : ServerSide.Tracked
        { e.serverSide with stream := (e.stream.flush version).2 } :=
      registered.toTracked.thinned (WatchStream.thins_flush sound version)
    obtain ⟨after, applied⟩ := applied_of_tracked
      (e := { e with stream := (e.stream.flush version).2 }) tracked (e.stream.flush version).1
    rw [receive_eq opened, WatchStream.receive_snapshot opened]
    dsimp only
    rw [applied]
    exact (resyncs_applyRemote applied).1
  · have same : e.receive (.snapshot version) = e := if_pos opened
    rw [same]

/-- Where a listener is entered, where it is listed and what is tracked agree. -/
structure Agrees (e : Engine) : Prop where
  /-- A view lists a listener exactly if the listener is entered with its target. -/
  listed : ∀ (x : ListenerId) (id : TargetId),
    (∃ v, e.views[id]? = some v ∧ x ∈ v.listeners) ↔ e.listenerTarget? x = some id
  /-- A tracked target has a view for the same target, with a listener if it is listened to. -/
  viewed : ∀ (id : TargetId) sub, e.stream.subscriptions.table[id]? = some sub →
    ∃ v, e.views[id]? = some v ∧ v.target = sub.target ∧
      (sub.listening = true → ∃ x, x ∈ v.listeners)
  /-- A view has a listener or its target is tracked. -/
  needed : ∀ (id : TargetId) v, e.views[id]? = some v →
    (∃ x, x ∈ v.listeners) ∨ ∃ sub, e.stream.subscriptions.table[id]? = some sub

theorem exists_listener {listeners : ExtTreeSet ListenerId}
    (some_listen : listeners.isEmpty = false) : ∃ x, x ∈ listeners := by
  cases members : listeners.toList with
  | nil =>
    rw [← ExtTreeSet.isEmpty_toList, members] at some_listen
    cases some_listen
  | cons x rest => exact ⟨x, ExtTreeSet.mem_toList.mp (members ▸ List.mem_cons_self)⟩

theorem agrees_of_registered (registered : e.serverSide.Registered)
    (informed : Informed (fun _ => False) e) : e.Agrees where
  listed x id := by
    refine ⟨fun ⟨v, viewed, member⟩ => ?_, fun target => ?_⟩
    · obtain ⟨l, entered, own⟩ := informed.listed id v viewed x member
      rw [listenerTarget?, entered, Option.map_some, own]
    · obtain ⟨l, entered, rfl⟩ := Option.map_eq_some_iff.mp target
      obtain ⟨v, viewed, member, -⟩ := informed.served x l entered
      exact ⟨v, viewed, member⟩
  viewed id sub entered := by
    obtain ⟨_, there, target, heard⟩ := registered.viewed id sub entered
    obtain ⟨v, viewed, rfl⟩ := Option.map_eq_some_iff.mp there
    exact ⟨v, viewed, target, fun listening => exists_listener (heard listening)⟩
  needed id v viewed :=
    (registered.needed id v.serverView (congrArg (Option.map View.serverView) viewed)).imp_left
      exists_listener

/-- In every engine that comes about the registries agree. So a snapshot is never refused,
    whatever it says and wherever it comes from, and none makes the engine start over. This takes
    for granted that the numbers of targets and listeners do not overflow, as `numbers_fit` says
    of all engines that are called to listen less than 2 ^ 32 - 1 times. -/
theorem registries_agree (reached : e.Reachable) :
    e.Agrees ∧ (∀ event, ∃ after, e.applyRemote event = .ok after) ∧
      ∀ version, (e.receive (.snapshot version)).stats.resyncs = e.stats.resyncs := by
  obtain ⟨past, history⟩ := reached.history
  have registered := history.registered
  exact ⟨agrees_of_registered registered reached.settled.informed,
    applied_of_tracked registered.toTracked, resyncs_of_registered registered history.sound⟩

/-- A document is listened to, and its only listener leaves while the stream is open. -/
def leftOnStream : Engine :=
  blank.run [.listen (.document ⟨"c/a"⟩), .connect, .handle .opened .zero, .unlisten ⟨1⟩]

/-- Its view stays, since the server has not answered yet. -/
theorem left_view_is_tracked :
    leftOnStream.Reachable ∧ leftOnStream.listeners.isEmpty = true ∧ ∃ v sub,
      leftOnStream.views[(⟨1⟩ : TargetId)]? = some v ∧
      leftOnStream.stream.subscriptions.table[(⟨1⟩ : TargetId)]? = some sub ∧
      v.target = sub.target ∧ ∀ event, ∃ after, leftOnStream.applyRemote event = .ok after := by
  have reached : leftOnStream.Reachable := reachable_blank.run _
  have tracked : leftOnStream.stream.subscriptions.contains ⟨1⟩ = true := by decide +kernel
  obtain ⟨sub, entered⟩ := Subscriptions.contains_iff.mp tracked
  obtain ⟨agrees, applied, -⟩ := registries_agree reached
  obtain ⟨v, viewed, target, -⟩ := agrees.viewed ⟨1⟩ sub entered
  exact ⟨reached, by decide +kernel, v, sub, viewed, entered, target, applied⟩

end Engine

end LiveQuery
