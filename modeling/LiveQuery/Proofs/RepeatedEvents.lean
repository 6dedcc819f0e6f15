import LiveQuery.Proofs.EventReplicas
import LiveQuery.Proofs.FreshnessLabels

/-!
# A snapshot that comes twice

What a snapshot makes of an engine it makes of it at once. Taken in again, it
leaves the server's replicas as they are, finds no batch to release, and is not
later than the latest snapshot. So what is shown stays the same, too, since that is
the server's state under the queued writes, and no listener hears of it: those of
the targets that the snapshot concerns were told the present result under the
present flags when it came first, and the others are not told of it at all.
-/

namespace LiveQuery

open Std

/-- Two views show the same to the same listeners. Their replicas may differ in edition. -/
structure View.Alike (v w : View) : Prop where
  target : w.target = v.target
  listeners : w.listeners = v.listeners
  shown : v.replicas.shown.Alike w.replicas.shown
  server : v.replicas.server.Alike w.replicas.server

theorem View.Alike.refl (v : View) : v.Alike v := ⟨rfl, rfl, .refl _, .refl _⟩

/-- Views that are alike have the same result. -/
theorem View.Alike.result {v w : View} (alike : v.Alike w) : w.result = v.result := by
  rw [View.result, View.result, alike.target, alike.shown.result]

namespace Listener

/-- A view that is not initialized is not shown. -/
theorem next?_of_uninitialized (l : Listener) {v : View} (flags : Flags)
    (uninitialized : ¬v.replicas.shown.initialized) : l.next? v flags = none := by
  simp [next?, uninitialized]

/-- A listener that has seen the result under the same flags is told nothing. -/
theorem next?_of_seen {l : Listener} {v : View} {flags : Flags} {r : Replica}
    (seen : l.seen = some (r, flags)) (agrees : (r.result v.target).Agrees v.result) :
    l.next? v flags = none := by
  have unchanged : v.target.changes (l.baseline v.target) v.result = [] := by
    rw [baseline, seen, Option.elim_some]
    exact v.target.changes_eq_nil_of_agrees agrees
  simp [next?, unchanged, seen]

end Listener

/-- A listener that there is nothing to tell is left as it is. -/
theorem Line.inform_of_quiet {line : Line} {v : View} {flags : Flags}
    (quiet : ∀ l, line.entry = some l → l.next? v flags = none) : line.inform v flags = line := by
  obtain ⟨entry, events⟩ := line
  cases entry with
  | none => rfl
  | some l => simp [inform, Listener.after, Listener.news, quiet l rfl]

/-- A version releases nothing that it released before. -/
theorem WriteQueue.release_release (q : WriteQueue) (version : Version) :
    (q.release version).2.release version = ([], (q.release version).2) := by
  have spared : (q.entries.filter fun w => !w.isCaughtUpBy version).filter
      (·.isCaughtUpBy version) = [] := by
    simp [List.filter_filter]
  simp [release, spared, List.filter_filter]

/-- A version is not later than itself. -/
theorem Version.later_later (a b : Version) : (a.later b).later b = a.later b := by
  simp [later]

namespace Engine

/-- The settings, the latest snapshot and what was asked for on the stream's behalf are the same. -/
structure Unmoved (e after : Engine) : Prop where
  config : after.config = e.config
  lastSnapshot : after.lastSnapshot = e.lastSnapshot
  restartRequested : after.restartRequested = e.restartRequested
  resyncs : after.stats.resyncs = e.stats.resyncs

section Unmoved

theorem Unmoved.refl (e : Engine) : e.Unmoved e := ⟨rfl, rfl, rfl, rfl⟩

theorem Unmoved.trans {e middle after : Engine} (first : e.Unmoved middle)
    (second : middle.Unmoved after) : e.Unmoved after where
  config := second.config.trans first.config
  lastSnapshot := second.lastSnapshot.trans first.lastSnapshot
  restartRequested := second.restartRequested.trans first.restartRequested
  resyncs := second.resyncs.trans first.resyncs

theorem Unmoved.foldl {α : Type} {step : Engine → α → Engine}
    (each : ∀ (e : Engine) a, e.Unmoved (step e a)) (steps : List α) (e : Engine) :
    e.Unmoved (steps.foldl step e) := by
  induction steps generalizing e with
  | nil => exact .refl e
  | cons a rest ih => exact (each e a).trans (ih (step e a))

theorem unmoved_inform (e : Engine) (v : View) (flags : Flags) (id : ListenerId) :
    e.Unmoved (e.inform v flags id) := by
  unfold inform
  split
  case h_1 => exact .refl e
  case h_2 =>
    split
    case h_1 => exact .refl e
    case h_2 =>
      unfold deliver
      split <;> exact ⟨rfl, rfl, rfl, rfl⟩

theorem unmoved_dispatch (e : Engine) (id : TargetId) : e.Unmoved (e.dispatch id) := by
  unfold dispatch
  split
  · exact .refl e
  · exact .foldl (fun e id => unmoved_inform e _ _ id) _ e

theorem unmoved_recompute (e : Engine) (id : TargetId) : e.Unmoved (e.recompute id) := by
  unfold recompute
  split
  case h_1 => exact .refl e
  case h_2 v _ =>
    have laid : e.Unmoved (e.overlay id v) := ⟨rfl, rfl, rfl, rfl⟩
    exact laid.trans (unmoved_dispatch _ id)

theorem unmoved_saveView (e : Engine) (id : TargetId) : e.Unmoved (e.saveView id) := by
  unfold saveView
  split
  · exact .refl e
  · split <;> exact ⟨rfl, rfl, rfl, rfl⟩

theorem unmoved_absorb (event : RemoteEvent) (e : Engine) (id : TargetId) :
    e.Unmoved (absorb event e id) := by
  unfold absorb
  split <;> exact ⟨rfl, rfl, rfl, rfl⟩

end Unmoved

/-- A snapshot that is taken into some views leaves the others alone. -/
theorem views_foldl_absorb (event : RemoteEvent) {ids : List TargetId} (distinct : ids.Nodup)
    (e : Engine) (id : TargetId) :
    ∃ edition, (ids.foldl (absorb event) e).views[id]? = e.views[id]?.map fun v =>
      if id ∈ ids then
        v.withServer (event.applyTo id v.target.isFiltered v.replicas.server edition)
      else v := by
  induction ids generalizing e with
  | nil => exact ⟨0, by simp⟩
  | cons first rest ih =>
    obtain ⟨once, distinct⟩ := List.nodup_cons.mp distinct
    obtain ⟨edition, views⟩ := ih distinct (absorb event e first)
    rw [List.foldl_cons, views, views_absorb]
    by_cases same : first = id
    · subst same
      refine ⟨e.nextEdition, ?_⟩
      rw [ExtTreeMap.getElem?_modify_self]
      simp [once, Function.comp_def]
    · refine ⟨edition, ?_⟩
      rw [ExtTreeMap.getElem?_modify, if_neg (mt LawfulEqOrd.eq_of_compare same)]
      simp [Ne.symm same]

/-- A round of telling edits at most what the views show. -/
theorem Telling.views_foldl {make : Engine → TargetId → Engine} (telling : Telling make)
    (ids : List TargetId) (e : Engine) (id : TargetId) :
    ∃ shown, (ids.foldl make e).views[id]? = e.views[id]?.map (·.withShown shown) := by
  induction ids generalizing e with
  | nil =>
    cases viewed : e.views[id]? with
    | none => exact ⟨.blank 0, viewed⟩
    | some v => exact ⟨v.replicas.shown, viewed⟩
  | cons first rest ih =>
    obtain ⟨shown, views⟩ := ih (make e first)
    refine ⟨shown, ?_⟩
    rw [List.foldl_cons, views]
    cases viewed : e.views[first]? with
    | none => rw [telling.unviewed e first viewed]
    | some v =>
      obtain ⟨before, edited⟩ := telling.views e first v viewed
      rw [edited]
      split
      case isTrue same =>
        rw [← same, viewed]
        rfl
      case isFalse => rfl

section Applied

variable {e after : Engine} {event : RemoteEvent}

/-- A snapshot releases the batches that it has caught up with, and leaves the others. -/
theorem queue_applyRemote (applied : e.applyRemote event = .ok after) :
    after.queue = (e.queue.release event.version).2 := by
  obtain ⟨-, _, rfl, rfl⟩ := applyRemote_eq applied
  have made (e : Engine) (id : TargetId) : ((e.recompute id).saveView id).queue = e.queue :=
    (sameBooks_saveView _ id).queue.trans (queue_recompute e id)
  exact (queue_foldl made _ _).trans (by rw [takeIn, queue_foldl (queue_absorb event)])

/-- Making the views anew moves nothing that the stream goes by. -/
theorem unmoved_takeIn (applied : e.applyRemote event = .ok after) :
    Unmoved (e.takeIn event) after := by
  obtain ⟨-, _, rfl, rfl⟩ := applyRemote_eq applied
  have made := Unmoved.foldl (fun e id => (unmoved_recompute e id).trans (unmoved_saveView _ id))
    (e.concerned event) (e.takeIn event)
  exact ⟨made.config, made.lastSnapshot, made.restartRequested, made.resyncs⟩

/-- A snapshot counts if it is later than the latest one. -/
theorem lastSnapshot_applyRemote (applied : e.applyRemote event = .ok after) :
    after.lastSnapshot = e.lastSnapshot.later event.version := by
  have absorbed := Unmoved.foldl (unmoved_absorb event) event.affected.toList e
  exact (unmoved_takeIn applied).lastSnapshot.trans (by rw [takeIn, absorbed.lastSnapshot])

/-- A snapshot neither starts anything over nor asks for it. -/
theorem resyncs_applyRemote (applied : e.applyRemote event = .ok after) :
    after.stats.resyncs = e.stats.resyncs ∧ after.restartRequested = e.restartRequested := by
  have absorbed := Unmoved.foldl (unmoved_absorb event) event.affected.toList e
  have made := unmoved_takeIn applied
  exact ⟨made.resyncs.trans absorbed.resyncs, made.restartRequested.trans absorbed.restartRequested⟩

/-- A snapshot is taken into the server's replicas of the views that it concerns. Besides, it edits
    at most what the views show. -/
theorem views_applyRemote (applied : e.applyRemote event = .ok after) (id : TargetId) :
    ∃ edition shown, after.views[id]? = e.views[id]?.map fun v =>
      (if id ∈ event.affected.toList then
        v.withServer (event.applyTo id v.target.isFiltered v.replicas.server edition)
      else v).withShown shown := by
  obtain ⟨-, _, rfl, rfl⟩ := applyRemote_eq applied
  obtain ⟨edition, absorbed⟩ := views_foldl_absorb event (nodup_toList _) e id
  obtain ⟨shown, made⟩ :=
    telling_recompute_saveView.views_foldl (e.concerned event) (e.takeIn event) id
  refine ⟨edition, shown, made.trans ?_⟩
  rw [takeIn, absorbed, Option.map_map]
  rfl

/-- Where no batch is released, a snapshot concerns the listeners of its own targets alone. -/
theorem still_applyRemote (applied : e.applyRemote event = .ok after)
    (idle : (e.queue.release event.version).1 = []) {x : ListenerId} {t : TargetId} {v : View}
    (here : e.Placed x t v) (spared : t ∉ event.affected) : Still e after x t := by
  obtain ⟨-, _, rfl, rfl⟩ := applyRemote_eq applied
  have unnamed : t ∉ e.concerned event := by
    have untouched (taken : Engine) : taken.touchedBy [] = [] :=
      List.eq_nil_iff_forall_not_mem.mpr fun id touched => by simp [mem_touchedBy] at touched
    rw [concerned, queue_foldl (queue_absorb event), idle, untouched, ExtTreeSet.mem_toList,
      ExtTreeSet.mem_insertMany_list]
    simp [spared]
  have absorbed := still_foldl (still_absorb event) event.affected.toList here
  obtain ⟨_, there⟩ := absorbed.placed
  have taken : Still e (e.takeIn event) x t := absorbed.trans (.of_same there rfl rfl rfl)
  obtain ⟨_, there⟩ := taken.placed
  have told := taken.trans (telling_recompute_saveView.still there unnamed)
  obtain ⟨_, last⟩ := told.placed
  exact told.trans (.of_same last rfl rfl rfl)

/-- A snapshot is refused only for a target without a view, and it makes and drops none. -/
theorem applyRemote_again (applied : e.applyRemote event = .ok after) :
    ∃ twice, after.applyRemote event = .ok twice := by
  have complete : after.viewless? event = none := by
    rw [← (applyRemote_eq applied).1, viewless?, viewless?, stream_applyRemote applied]
    congr 1
    funext id
    obtain ⟨edition, shown, views⟩ := views_applyRemote applied id
    rw [ExtTreeMap.contains_eq_isSome_getElem?, ExtTreeMap.contains_eq_isSome_getElem?, views,
      Option.isSome_map]
  unfold applyRemote
  rw [complete]
  exact ⟨_, rfl⟩

end Applied

section Twice

variable {e once twice : Engine} {event : RemoteEvent}

/-- The views are as they were after the first time. -/
theorem alike_views (reached : e.Reachable) (first : e.applyRemote event = .ok once)
    (second : once.applyRemote event = .ok twice) (id : TargetId) :
    Option.Rel View.Alike once.views[id]? twice.views[id]? := by
  have settled := reached.settled.applyRemote first
  have queue : twice.queue = once.queue := by
    rw [queue_applyRemote second, queue_applyRemote first, WriteQueue.release_release]
  obtain ⟨edition, shown, views⟩ := views_applyRemote first id
  obtain ⟨edition', shown', views'⟩ := views_applyRemote second id
  cases before : e.views[id]? with
  | none =>
    rw [views', views, before]
    exact .none
  | some u =>
    rw [before, Option.map_some] at views
    rw [views, Option.map_some] at views'
    have shows := settled.shows views fun impossible => impossible
    have shows' := (settled.applyRemote second).shows views' fun impossible => impossible
    rw [views, views']
    by_cases concerned : id ∈ event.affected.toList
    · simp only [if_pos concerned] at shows shows' ⊢
      have server := event.alike_applyTo id u.target.isFiltered edition edition edition'
        (.refl (event.applyTo id u.target.isFiltered u.replicas.server edition))
      exact .some ⟨rfl, rfl, shows.alike (queue ▸ shows') server, server⟩
    · simp only [if_neg concerned] at shows shows' ⊢
      exact .some ⟨rfl, rfl, shows.alike (queue ▸ shows') (.refl _), .refl _⟩

/-- Whoever was laid the view before is told nothing when it is laid a view that is alike. -/
theorem quiet_of_spoken {behind : TargetId → Prop} (informed : Informed behind once)
    {x : ListenerId} {l : Listener} {v w : View} (spoken : Spoken e once x l.target)
    (entered : once.listeners[x]? = some l) (viewed : once.views[l.target]? = some v)
    (ahead : ¬behind l.target) (alike : v.Alike w) (stream : twice.stream = once.stream) :
    l.next? w (twice.flagsOf l.target w) = none := by
  by_cases complete : w.replicas.shown.initialized
  case neg => exact l.next?_of_uninitialized _ complete
  case pos =>
    have initialized : v.replicas.shown.initialized := alike.shown.initialized ▸ complete
    obtain ⟨_, again, -, -, current⟩ := informed.served x l entered
    obtain rfl := Option.some.inj (viewed.symm.trans again)
    obtain ⟨r, flags, seen, agrees⟩ := current ahead initialized
    obtain ⟨r', seen'⟩ := seen_of_spoken spoken entered viewed initialized
    have same : flags = twice.flagsOf l.target w := by
      have here : flags = once.flagsOf l.target v :=
        congrArg Prod.snd (Option.some.inj (seen.symm.trans seen'))
      rw [here, flagsOf, flagsOf, View.flags, View.flags, alike.result, stream]
    exact Listener.next?_of_seen (same ▸ seen) (by rwa [alike.target, alike.result])

/-- The second time no listener is told anything, and nothing new is noted of any. -/
theorem line_twice (reached : e.Reachable) (first : e.applyRemote event = .ok once)
    (second : once.applyRemote event = .ok twice) (x : ListenerId) :
    twice.line x = once.line x := by
  have informed := (reached.settled.applyRemote first).informed
  cases entered : once.listeners[x]? with
  | none => exact (silent_applyRemote second).line entered
  | some l =>
    obtain ⟨v, here⟩ := informed.placed entered
    by_cases concerned : l.target ∈ event.affected
    case neg =>
      have idle : (once.queue.release event.version).1 = [] := by
        rw [queue_applyRemote first, WriteQueue.release_release]
      exact (still_applyRemote second idle here concerned).1
    case pos =>
      obtain ⟨w, there, line⟩ :=
        (course_applyRemote second here).resolve_right fun spared => spared.2 concerned
      have alike : v.Alike w := by
        have related := alike_views reached first second l.target
        rw [here.viewed, there.viewed] at related
        cases related with
        | some alike => exact alike
      have spoken : Spoken e once x l.target := by
        have done : (e.perform (.applyRemote event)).2 = once := by
          rw [Engine.perform, first]
          rfl
        obtain ⟨old, before, own⟩ : ∃ old, e.listeners[x]? = some old ∧ old.target = l.target := by
          rcases entered_perform reached.settled.informed reached.history.choose_spec.sound
            (done ▸ entered) with before | ⟨_, impossible, -⟩
          · exact before
          · cases impossible
        obtain ⟨u, placed⟩ := reached.settled.informed.placed before
        rw [own] at placed
        exact (course_applyRemote first placed).resolve_right fun spared => spared.2 concerned
      rw [line]
      refine Line.inform_of_quiet fun l' entered' => ?_
      obtain rfl := Option.some.inj (entered.symm.trans entered')
      exact quiet_of_spoken informed spoken entered here.viewed (fun late => late) alike
        (stream_applyRemote second)

end Twice

/-- In every engine that comes about, a remote event that is applied twice leaves what it leaves
    when it is applied once: the same views with the same documents and flags in both replicas, the
    same queue, stream and latest snapshot, and the same reply. The second time no listener gets
    anything, and what is noted of the listeners stays the same. -/
theorem applyRemote_idempotent {e : Engine} (reached : e.Reachable) (event : RemoteEvent) :
    let once := (e.perform (.applyRemote event)).2
    let twice := (once.perform (.applyRemote event)).2
    (once.perform (.applyRemote event)).1 = (e.perform (.applyRemote event)).1 ∧
      (∀ id : TargetId, Option.Rel View.Alike once.views[id]? twice.views[id]?) ∧
      twice.queue = once.queue ∧ twice.stream = once.stream ∧
      twice.lastSnapshot = once.lastSnapshot ∧
      ∀ x, once.sent (.applyRemote event) x = [] ∧ twice.listeners[x]? = once.listeners[x]? := by
  cases first : e.applyRemote event with
  | error fault =>
    have refused : e.perform (.applyRemote event) = (.refused fault, e) := by
      rw [Engine.perform, first]
      rfl
    simp only [refused, sent, List.drop_length, and_self, implies_true, and_true, true_and]
    intro id
    cases e.views[id]? with
    | none => exact .none
    | some v => exact .some (.refl v)
  | ok once =>
    obtain ⟨twice, second⟩ := applyRemote_again first
    have done : e.perform (.applyRemote event) = (.done, once) := by
      rw [Engine.perform, first]
      rfl
    have again : once.perform (.applyRemote event) = (.done, twice) := by
      rw [Engine.perform, second]
      rfl
    simp only [done, again, sent, true_and]
    refine ⟨alike_views reached first second, ?_, stream_applyRemote second, ?_, fun x => ?_⟩
    · rw [queue_applyRemote second, queue_applyRemote first, WriteQueue.release_release]
    · rw [lastSnapshot_applyRemote second, lastSnapshot_applyRemote first, Version.later_later]
    · have line := line_twice reached first second x
      refine ⟨?_, congrArg Line.entry line⟩
      rw [show twice.told x = once.told x from congrArg Line.events line, List.drop_length]

/-- A collection is listened to, and a write to it is acknowledged before anything is reported. -/
def acknowledgedFirst : Engine :=
  blank.run [.listen (.query (.ofPath "c")), .connect, .handle .opened .zero,
    .handle (.watch (.targetAdded [⟨1⟩])) .zero, .submit [.set ⟨"c/a"⟩ ∅],
    .handle (.writeAcked ⟨1⟩ ⟨5⟩) .zero]

/-- A snapshot past the commit that resets the target, removes and adds the written document, and
    adds another one without its state. -/
def overlapping : RemoteEvent where
  version := ⟨7⟩
  changes := (∅ : ExtTreeMap TargetId TargetChange).insert ⟨1⟩ {
    current := true
    added := .ofList [DocumentKey.mk "c/a", ⟨"c/b"⟩]
    removed := .ofList [DocumentKey.mk "c/a", ⟨"c/d"⟩] }
  resets := (∅ : ExtTreeSet TargetId).insert ⟨1⟩
  updates := .ofList [⟨⟨"c/a"⟩, ⟨6⟩, some ∅, false⟩]

/-- The first time it releases the batch and the listener is sent a snapshot; the second time
    neither happens. -/
theorem overlapping_is_told_once :
    let once := (acknowledgedFirst.perform (.applyRemote overlapping)).2
    acknowledgedFirst.Reachable ∧
      acknowledgedFirst.queue.entries.length = 1 ∧ once.queue.entries.length = 0 ∧
      (acknowledgedFirst.sent (.applyRemote overlapping) ⟨1⟩).length = 1 ∧
      once.sent (.applyRemote overlapping) ⟨1⟩ = [] := by
  have reached : acknowledgedFirst.Reachable := reachable_blank.run _
  have idle := (applyRemote_idempotent reached overlapping).2.2.2.2.2 ⟨1⟩
  exact ⟨reached, by decide +kernel, by decide +kernel, by decide +kernel, idle.1⟩

end Engine

end LiveQuery
