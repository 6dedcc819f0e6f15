import LiveQuery.Proofs.EngineStream
import LiveQuery.Proofs.ListenerStreams

/-!
# Rounds of telling

What follows the beginning of a call concerns the listeners view by view. In a
round that names every target at most once, the listeners of a view that is named
are laid the view as it is in the end, and for the others nothing changes.
-/

namespace LiveQuery

open Std

namespace Engine

/-- A listener listens to the view of one target and to no other. -/
structure Placed (e : Engine) (x : ListenerId) (t : TargetId) (v : View) : Prop where
  viewed : e.views[t]? = some v
  member : x ∈ v.listeners
  own : ∀ other w, e.views[other]? = some w → x ∈ w.listeners → other = t

/-- Where a listener is entered, it is placed. -/
theorem Informed.placed {behind : TargetId → Prop} {e : Engine} (informed : Informed behind e)
    {x : ListenerId} {l : Listener} (entered : e.listeners[x]? = some l) :
    ∃ v, e.Placed x l.target v := by
  obtain ⟨v, viewed, member, -⟩ := informed.served x l entered
  refine ⟨v, viewed, member, fun other w there listening => ?_⟩
  obtain ⟨_, again, own⟩ := informed.listed other w there x listening
  obtain rfl := Option.some.inj (entered.symm.trans again)
  exact own.symm

/-- The view of a target is laid before a listener, as it is in the end. -/
def Spoken (e after : Engine) (x : ListenerId) (t : TargetId) : Prop :=
  ∃ v, after.Placed x t v ∧ after.line x = (e.line x).inform v (after.flagsOf t v)

/-- Nothing changes of what a listener was told and of what its view shows. -/
def Still (e after : Engine) (x : ListenerId) (t : TargetId) : Prop :=
  after.line x = e.line x ∧ ∃ v w, e.Placed x t v ∧ after.Placed x t w ∧
    w.target = v.target ∧ w.replicas.shown = v.replicas.shown

/-- A step that may make what one view shows anew and lays it before its listeners. -/
structure Telling (make : Engine → TargetId → Engine) : Prop where
  stream : ∀ e id, (make e id).stream = e.stream
  unviewed : ∀ e id, e.views[id]? = none → make e id = e
  views : ∀ e id v, e.views[id]? = some v → ∃ shown, ∀ other : TargetId,
    (make e id).views[other]? = if id = other then some (v.withShown shown) else e.views[other]?
  line : ∀ e id v, (make e id).views[id]? = some v → ∀ x, (make e id).line x =
    if x ∈ v.listeners then (e.line x).inform v ((make e id).flagsOf id v) else e.line x

theorem telling_dispatch : Telling dispatch where
  stream := stream_dispatch
  unviewed _ _ := dispatch_of_unviewed
  views e id v viewed := by
    refine ⟨v.replicas.shown, fun other => ?_⟩
    rw [(onlyTells_dispatch e id).views]
    split
    case isTrue same => exact same ▸ viewed
    case isFalse => rfl
  line e id v viewed x := by
    rw [(onlyTells_dispatch e id).views] at viewed
    rw [line_dispatch e viewed, flagsOf, flagsOf, stream_dispatch]

theorem telling_recompute : Telling recompute where
  stream := stream_recompute
  unviewed _ _ := recompute_of_unviewed
  views e id v viewed := by
    refine ⟨e.queue.shownOver v.target v.replicas.server e.nextEdition, fun other => ?_⟩
    rw [recompute_of_viewed viewed, (onlyTells_dispatch _ id).views]
    simp [overlay, ExtTreeMap.getElem?_insert, View.withShown]
  line e id v viewed x := by
    cases before : e.views[id]? with
    | none =>
      rw [recompute_of_unviewed before, before] at viewed
      cases viewed
    | some old =>
      rw [recompute_of_viewed before] at viewed ⊢
      exact telling_dispatch.line (e.overlay id old) id v viewed x

theorem lines_of_books {e after : Engine} (same : e.SameBooks after) (x : ListenerId) :
    after.line x = e.line x := by
  rw [line, line, same.listeners, told_congr same.deliveries]

theorem telling_recompute_saveView : Telling fun e id => (e.recompute id).saveView id where
  stream e id := (stream_saveView _ id).trans (stream_recompute e id)
  unviewed e id unviewed := by
    rw [recompute_of_unviewed unviewed, saveView, unviewed]
  views e id v viewed := by
    obtain ⟨shown, views⟩ := telling_recompute.views e id v viewed
    exact ⟨shown, fun other => by rw [(sameBooks_saveView _ id).views, views]⟩
  line e id v viewed x := by
    rw [(sameBooks_saveView _ id).views] at viewed
    rw [lines_of_books (sameBooks_saveView _ id), telling_recompute.line e id v viewed x, flagsOf,
      flagsOf, stream_saveView]

namespace Telling

variable {make : Engine → TargetId → Engine}

/-- A step leaves the views of other targets alone. -/
theorem other (telling : Telling make) (e : Engine) {id t : TargetId} (differs : id ≠ t) :
    (make e id).views[t]? = e.views[t]? := by
  cases viewed : e.views[id]? with
  | none => rw [telling.unviewed e id viewed]
  | some v =>
    obtain ⟨shown, views⟩ := telling.views e id v viewed
    rw [views, if_neg differs]

/-- Views neither come nor go, and their listeners stay. -/
theorem view (telling : Telling make) (e : Engine) (id : TargetId) {t : TargetId} {w : View}
    (there : (make e id).views[t]? = some w) :
    ∃ v, e.views[t]? = some v ∧ w.target = v.target ∧ w.listeners = v.listeners := by
  by_cases same : id = t
  · subst same
    cases viewed : e.views[id]? with
    | none =>
      rw [telling.unviewed e id viewed, viewed] at there
      cases there
    | some v =>
      obtain ⟨shown, views⟩ := telling.views e id v viewed
      rw [views, if_pos rfl] at there
      exact ⟨v, rfl, Option.some.inj there ▸ rfl, Option.some.inj there ▸ rfl⟩
  · exact ⟨w, telling.other e same ▸ there, rfl, rfl⟩

theorem placed (telling : Telling make) {e : Engine} {x : ListenerId} {t : TargetId} {v : View}
    (placed : e.Placed x t v) (id : TargetId) :
    ∃ shown, (make e id).Placed x t (v.withShown shown) := by
  have own : ∀ other w, (make e id).views[other]? = some w → x ∈ w.listeners → other = t := by
    intro other w there member
    obtain ⟨old, viewed, -, same⟩ := telling.view e id there
    exact placed.own other old viewed (same ▸ member)
  by_cases same : id = t
  · subst same
    obtain ⟨shown, views⟩ := telling.views e id v placed.viewed
    exact ⟨shown, by rw [views, if_pos rfl], placed.member, own⟩
  · exact ⟨v.replicas.shown, (telling.other e same).trans placed.viewed, placed.member, own⟩

/-- A listener that listens to none of the views hears nothing. -/
theorem quiet (telling : Telling make) {ids : List TargetId} {e : Engine} {x : ListenerId}
    (deaf : ∀ id ∈ ids, ∀ v, e.views[id]? = some v → x ∉ v.listeners) :
    (ids.foldl make e).line x = e.line x := by
  induction ids generalizing e with
  | nil => rfl
  | cons id rest ih =>
    have still : (make e id).line x = e.line x := by
      cases viewed : (make e id).views[id]? with
      | none =>
        cases before : e.views[id]? with
        | none => rw [telling.unviewed e id before]
        | some v =>
          obtain ⟨shown, views⟩ := telling.views e id v before
          rw [views, if_pos rfl] at viewed
          cases viewed
      | some w =>
        obtain ⟨v, before, -, same⟩ := telling.view e id viewed
        rw [telling.line e id w viewed, if_neg]
        exact same ▸ deaf id List.mem_cons_self v before
    refine (ih fun other member w there => ?_).trans still
    obtain ⟨v, before, -, same⟩ := telling.view e id there
    exact same ▸ deaf other (List.mem_cons_of_mem id member) v before

/-- The views that are not named stay as they are. -/
theorem spared (telling : Telling make) {ids : List TargetId} {t : TargetId} (spared : t ∉ ids)
    (e : Engine) : (ids.foldl make e).views[t]? = e.views[t]? := by
  induction ids generalizing e with
  | nil => rfl
  | cons id rest ih =>
    obtain ⟨differs, spared⟩ := not_or.mp (mt List.mem_cons.mpr spared)
    exact (ih spared (make e id)).trans (telling.other e (Ne.symm differs))

/-- Where a listener was placed it is placed after the round. -/
theorem placed_foldl (telling : Telling make) (ids : List TargetId) {e : Engine} {x : ListenerId}
    {t : TargetId} {v : View} (here : e.Placed x t v) :
    ∃ shown, (ids.foldl make e).Placed x t (v.withShown shown) := by
  induction ids generalizing e v with
  | nil => exact ⟨v.replicas.shown, here⟩
  | cons id rest ih =>
    obtain ⟨_, next⟩ := telling.placed here id
    obtain ⟨shown, last⟩ := ih next
    exact ⟨shown, last⟩

/-- In a round that names every target at most once, the listeners of a view that is named are laid
    the view as it is in the end, and the others hear nothing. -/
theorem spoken (telling : Telling make) {ids : List TargetId} (distinct : ids.Nodup) {e : Engine}
    {x : ListenerId} {t : TargetId} {v : View} (here : e.Placed x t v) (named : t ∈ ids) :
    Spoken e (ids.foldl make e) x t := by
  obtain ⟨front, back, rfl⟩ := List.append_of_mem named
  obtain ⟨-, later, apart⟩ := List.nodup_append.mp distinct
  have first : t ∉ front := fun again => apart t again t List.mem_cons_self rfl
  obtain ⟨last, -⟩ := List.nodup_cons.mp later
  obtain ⟨_, placed⟩ := telling.placed_foldl front here
  have before : (front.foldl make e).line x = e.line x :=
    telling.quiet fun id member w there listening =>
      first (here.own id w there listening ▸ member)
  obtain ⟨shown, laid⟩ := telling.placed placed t
  have after : (back.foldl make (make (front.foldl make e) t)).line x =
      (make (front.foldl make e) t).line x :=
    telling.quiet fun id member w there listening =>
      last (laid.own id w there listening ▸ member)
  have kept := telling.spared last (make (front.foldl make e) t)
  obtain ⟨_, ended⟩ := telling.placed_foldl back laid
  rw [List.foldl_append, List.foldl_cons]
  refine ⟨_, ⟨kept.trans laid.viewed, laid.member, ended.own⟩, ?_⟩
  rw [after, telling.line _ t _ laid.viewed, if_pos laid.member, before, flagsOf, flagsOf,
    stream_foldl telling.stream back]

/-- The others hear nothing, and their view stays as it is. -/
theorem still (telling : Telling make) {ids : List TargetId} {e : Engine} {x : ListenerId}
    {t : TargetId} {v : View} (here : e.Placed x t v) (unnamed : t ∉ ids) :
    Still e (ids.foldl make e) x t := by
  obtain ⟨_, ended⟩ := telling.placed_foldl ids here
  refine ⟨telling.quiet fun id member w there listening => ?_, v, v, here, ?_, rfl, rfl⟩
  · exact unnamed (here.own id w there listening ▸ member)
  · exact ⟨(telling.spared unnamed e).trans here.viewed, here.member, ended.own⟩

end Telling

theorem Still.refl {e : Engine} {x : ListenerId} {t : TargetId} {v : View}
    (here : e.Placed x t v) : Still e e x t := ⟨rfl, v, v, here, here, rfl, rfl⟩

/-- A listener for which nothing changes is placed as before. -/
theorem Still.placed {e after : Engine} {x : ListenerId} {t : TargetId}
    (still : Still e after x t) : ∃ w, after.Placed x t w := by
  obtain ⟨-, -, w, -, there, -, -⟩ := still
  exact ⟨w, there⟩

theorem Still.trans {e middle after : Engine} {x : ListenerId} {t : TargetId}
    (first : Still e middle x t) (second : Still middle after x t) : Still e after x t := by
  obtain ⟨line, u, v, before, there, target, shown⟩ := first
  obtain ⟨line', v', w, again, last, target', shown'⟩ := second
  obtain rfl := Option.some.inj (there.viewed.symm.trans again.viewed)
  exact ⟨line'.trans line, u, w, before, last, target'.trans target, shown'.trans shown⟩

theorem Still.spoken {e middle after : Engine} {x : ListenerId} {t : TargetId}
    (first : Still e middle x t) (second : Spoken middle after x t) : Spoken e after x t := by
  obtain ⟨v, placed, line⟩ := second
  exact ⟨v, placed, first.1 ▸ line⟩

/-- Nothing but views without listeners is dropped. -/
theorem Placed.prune {e : Engine} {x : ListenerId} {t : TargetId} {v : View}
    (here : e.Placed x t v) : e.prune.Placed x t v where
  viewed := by
    have someone : v.listeners.isEmpty = false := by
      rw [ExtTreeSet.isEmpty_eq_false_iff]
      intro nobody
      exact ExtTreeSet.not_mem_empty (nobody ▸ here.member)
    rw [Engine.prune, ExtTreeMap.getElem?_filter', here.viewed]
    simp [Option.filter, someone]
  member := here.member
  own other w there := by
    rw [Engine.prune, ExtTreeMap.getElem?_filter', Option.filter_eq_some_iff] at there
    exact here.own other w there.1

theorem Still.prune {e after : Engine} {x : ListenerId} {t : TargetId}
    (still : Still e after x t) : Still e after.prune x t := by
  obtain ⟨line, v, w, before, there, target, shown⟩ := still
  exact ⟨line, v, w, before, there.prune, target, shown⟩

theorem Spoken.prune {e after : Engine} {x : ListenerId} {t : TargetId}
    (spoken : Spoken e after x t) : Spoken e after.prune x t := by
  obtain ⟨v, placed, line⟩ := spoken
  exact ⟨v, placed.prune, line⟩

/-- Where neither views nor lines change, nothing does that a listener could see. -/
theorem Still.of_same {e after : Engine} {x : ListenerId} {t : TargetId} {v : View}
    (here : e.Placed x t v) (views : after.views = e.views)
    (listeners : after.listeners = e.listeners)
    (deliveries : after.deliveries = e.deliveries) : Still e after x t := by
  refine ⟨?_, v, v, here, ⟨views ▸ here.viewed, here.member, ?_⟩, rfl, rfl⟩
  · rw [line, line, listeners, told_congr deliveries]
  · exact fun other w there => here.own other w (views ▸ there)

theorem Spoken.of_same {e middle after : Engine} {x : ListenerId} {t : TargetId}
    (spoken : Spoken e middle x t) (views : after.views = middle.views)
    (listeners : after.listeners = middle.listeners)
    (deliveries : after.deliveries = middle.deliveries) (stream : after.stream = middle.stream) :
    Spoken e after x t := by
  obtain ⟨v, here, line⟩ := spoken
  obtain ⟨same, -⟩ := Still.of_same here views listeners deliveries
  refine ⟨v, ⟨views ▸ here.viewed, here.member, ?_⟩, ?_⟩
  · exact fun other w there => here.own other w (views ▸ there)
  · rw [same, line, flagsOf, flagsOf, stream]

/-- In a round of telling that names every view, every listener is laid its own. -/
theorem spoken_dispatchAll {e : Engine} {x : ListenerId} {t : TargetId} {v : View}
    (here : e.Placed x t v) : Spoken e e.dispatchAll x t := by
  refine telling_dispatch.spoken (nodup_keys _) here (ExtTreeMap.mem_keys.mpr ?_)
  exact ExtTreeMap.mem_iff_isSome_getElem?.mpr (here.viewed ▸ rfl)

/-- After a change of the queue, a listener is laid its view or nothing changes for it. -/
theorem course_refresh {e : Engine} {x : ListenerId} {t : TargetId} {v : View}
    (here : e.Placed x t v) (batches : List MutationBatch) :
    Spoken e (e.refresh batches) x t ∨ Still e (e.refresh batches) x t := by
  by_cases named : t ∈ e.touchedBy batches
  · exact .inl (telling_recompute.spoken (nodup_keys _) here named)
  · exact .inr (telling_recompute.still here named)

/-- A snapshot that is taken in changes nothing that a listener could see. -/
theorem still_absorb (event : RemoteEvent) {e : Engine} {x : ListenerId} {t : TargetId} {v : View}
    (here : e.Placed x t v) (id : TargetId) : Still e (absorb event e id) x t := by
  have lines : (absorb event e id).line x = e.line x := by
    cases viewed : e.views[id]? with
    | none => rw [absorb_of_unviewed viewed]
    | some w =>
      rw [absorb_of_viewed viewed]
      rfl
  have view {other : TargetId} {w : View} (there : (absorb event e id).views[other]? = some w) :
      ∃ old, e.views[other]? = some old ∧ w.listeners = old.listeners := by
    rw [views_absorb, getElem?_modify_eq_some] at there
    obtain ⟨old, before, ⟨-, rfl⟩ | ⟨-, rfl⟩⟩ := there
    · exact ⟨old, before, rfl⟩
    · exact ⟨w, before, rfl⟩
  have own : ∀ other w, (absorb event e id).views[other]? = some w → x ∈ w.listeners →
      other = t := by
    intro other w there member
    obtain ⟨old, before, same⟩ := view there
    exact here.own other old before (same ▸ member)
  refine ⟨lines, v, ?_⟩
  by_cases same : id = t
  · let server := event.applyTo id v.target.isFiltered v.replicas.server e.nextEdition
    refine ⟨v.withServer server, here, ⟨?_, here.member, own⟩, rfl, rfl⟩
    rw [views_absorb, getElem?_modify_eq_some]
    exact ⟨v, here.viewed, .inl ⟨same, rfl⟩⟩
  · refine ⟨v, here, ⟨?_, here.member, own⟩, rfl, rfl⟩
    rw [views_absorb, getElem?_modify_eq_some]
    exact ⟨v, here.viewed, .inr ⟨same, rfl⟩⟩

/-- Steps under which nothing changes for a listener, one after the other. -/
theorem still_foldl {α : Type} {step : Engine → α → Engine} {x : ListenerId} {t : TargetId}
    (each : ∀ {e : Engine} {v : View}, e.Placed x t v → ∀ a, Still e (step e a) x t)
    (steps : List α) {e : Engine} {v : View} (here : e.Placed x t v) :
    Still e (steps.foldl step e) x t := by
  induction steps generalizing e v with
  | nil => exact .refl here
  | cons a rest ih =>
    obtain ⟨w, there⟩ := (each here a).placed
    exact (each here a).trans (ih there)

/-- A snapshot that is applied lays the views of the targets that it concerns before their
    listeners. -/
theorem course_applyRemote {e after : Engine} {event : RemoteEvent}
    (applied : e.applyRemote event = .ok after) {x : ListenerId} {t : TargetId} {v : View}
    (here : e.Placed x t v) :
    Spoken e after x t ∨ Still e after x t ∧ t ∉ event.affected := by
  obtain ⟨-, ids, stats, distinct, all, rfl⟩ := applyRemote_cases applied
  have absorbed := still_foldl (still_absorb event) event.affected.toList here
  obtain ⟨_, there⟩ := absorbed.placed
  have taken : Still e (e.takeIn event) x t := absorbed.trans (.of_same there rfl rfl rfl)
  obtain ⟨_, there⟩ := taken.placed
  by_cases named : t ∈ ids
  · have told := telling_recompute_saveView.spoken distinct there named
    exact .inl ((taken.spoken told).of_same rfl rfl rfl rfl)
  · have told := taken.trans (telling_recompute_saveView.still there named)
    obtain ⟨_, last⟩ := told.placed
    exact .inr ⟨told.trans (.of_same last rfl rfl rfl), fun affected => named (all t affected)⟩

/-- A listener that listens to no view. -/
def Unplaced (e : Engine) (x : ListenerId) : Prop :=
  ∀ (t : TargetId) v, e.views[t]? = some v → x ∉ v.listeners

/-- Rejections concern the listeners of the rejected targets alone. -/
theorem still_rejectTarget {e : Engine} {x : ListenerId} {t : TargetId} {v : View}
    (here : e.Placed x t v) {r : Rejection} (differs : r.target ≠ t) :
    Still e (e.rejectTarget r) x t := by
  refine ⟨?_, v, v, here, ⟨?_, here.member, ?_⟩, rfl, rfl⟩
  · cases viewed : e.views[r.target]? with
    | none => exact lines_of_books (sameBooks_rejectTarget viewed) x
    | some w =>
      rw [e.line_rejectTarget viewed, if_neg]
      exact fun member => differs (here.own r.target w viewed member)
  · rw [views_rejectTarget, ExtTreeMap.getElem?_erase,
      if_neg (fun same => differs (LawfulEqOrd.eq_of_compare same))]
    exact here.viewed
  · intro other w there
    rw [views_rejectTarget, ExtTreeMap.getElem?_erase] at there
    split at there
    case isTrue => cases there
    case isFalse => exact here.own other w there

theorem unplaced_rejectTarget {e : Engine} {x : ListenerId} (unplaced : e.Unplaced x)
    (r : Rejection) : (e.rejectTarget r).Unplaced x ∧ (e.rejectTarget r).line x = e.line x := by
  constructor
  · intro t v viewed
    rw [views_rejectTarget, ExtTreeMap.getElem?_erase] at viewed
    split at viewed
    case isTrue => cases viewed
    case isFalse => exact unplaced t v viewed
  · cases viewed : e.views[r.target]? with
    | none => exact lines_of_books (sameBooks_rejectTarget viewed) x
    | some w => rw [e.line_rejectTarget viewed, if_neg (unplaced _ w viewed)]

theorem unplaced_rejectTargets {e : Engine} {x : ListenerId} (unplaced : e.Unplaced x)
    (rejections : List Rejection) :
    (e.rejectTargets rejections).Unplaced x ∧ (e.rejectTargets rejections).line x = e.line x := by
  unfold rejectTargets
  induction rejections generalizing e with
  | nil => exact ⟨unplaced, rfl⟩
  | cons r rest ih =>
    obtain ⟨still, line⟩ := unplaced_rejectTarget unplaced r
    obtain ⟨last, line'⟩ := ih still
    exact ⟨last, line'.trans line⟩

/-- The listeners of the rejected targets end with the fault, and nothing changes for others. -/
theorem course_rejectTargets {e : Engine} {x : ListenerId} {t : TargetId} {v : View}
    (here : e.Placed x t v) (rejections : List Rejection) :
    (∃ status, ⟨t, status⟩ ∈ rejections ∧ (e.rejectTargets rejections).Unplaced x ∧
        (e.rejectTargets rejections).line x =
          (e.line x).finish (.error (.targetRejected t status))) ∨
      Still e (e.rejectTargets rejections) x t ∧ ∀ status, ⟨t, status⟩ ∉ rejections := by
  unfold rejectTargets
  induction rejections generalizing e v with
  | nil => exact .inr ⟨.refl here, fun _ => List.not_mem_nil⟩
  | cons r rest ih =>
    by_cases same : r.target = t
    · obtain ⟨target, status⟩ := r
      obtain rfl : target = t := same
      left
      have ended : (e.rejectTarget ⟨target, status⟩).line x =
          (e.line x).finish (.error (.targetRejected target status)) := by
        rw [e.line_rejectTarget here.viewed, if_pos here.member]
        rfl
      have unplaced : (e.rejectTarget ⟨target, status⟩).Unplaced x := by
        intro other w there member
        rw [views_rejectTarget, ExtTreeMap.getElem?_erase] at there
        split at there
        case isTrue => cases there
        case isFalse differs =>
          have own : other = target := here.own other w there member
          exact differs (own ▸ ReflOrd.compare_self)
      obtain ⟨last, line⟩ := unplaced_rejectTargets unplaced rest
      exact ⟨status, List.mem_cons_self, last, line.trans ended⟩
    · have first : Still e (e.rejectTarget r) x t := still_rejectTarget here same
      obtain ⟨_, there⟩ := first.placed
      rcases ih there with ⟨status, member, unplaced, line⟩ | ⟨still, none_named⟩
      · exact .inl ⟨status, List.mem_cons_of_mem r member, unplaced, first.1 ▸ line⟩
      · refine .inr ⟨first.trans still, fun status member => ?_⟩
        rcases List.mem_cons.mp member with here | later
        · exact same (here ▸ rfl)
        · exact none_named status later

/-- A view that is made concerns nobody. -/
theorem still_ensureView {e : Engine} {x : ListenerId} {t : TargetId} {v : View}
    (here : e.Placed x t v) (id : TargetId) (target : Target) :
    Still e (e.ensureView id target) x t := by
  rcases ensureView_cases e id target with ⟨-, same⟩ | ⟨unviewed, server, -, made⟩
  · rw [same]
    exact .refl here
  · rw [made]
    refine ⟨rfl, v, v, here, ⟨?_, here.member, fun other w there member => ?_⟩, rfl, rfl⟩
    · rw [ExtTreeMap.getElem?_insert]
      split
      case isTrue same =>
        rw [LawfulEqOrd.eq_of_compare same, here.viewed] at unviewed
        cases unviewed
      case isFalse => exact here.viewed
    · rw [ExtTreeMap.getElem?_insert] at there
      split at there
      case isTrue =>
        obtain rfl := Option.some.inj there
        exact absurd member ExtTreeSet.not_mem_empty
      case isFalse => exact here.own other w there member

/-- A listener that is added concerns no other. -/
theorem still_attach {e : Engine} {x : ListenerId} {t : TargetId} {v : View}
    (here : e.Placed x t v) (differs : x ≠ ⟨e.nextListener⟩) (id : TargetId) :
    Still e (e.attach id).2 x t := by
  let join (v : View) : View := { v with listeners := v.listeners.insert ⟨e.nextListener⟩ }
  have views : (e.attach id).2.views = e.views.modify id join := rfl
  have lines : (e.attach id).2.line x = e.line x := by
    change Line.mk (e.listeners.insert ⟨e.nextListener⟩ { target := id })[x]? _ = _
    rw [ExtTreeMap.getElem?_insert,
      if_neg fun same => differs (LawfulEqOrd.eq_of_compare same).symm]
    rfl
  have own : ∀ other w, (e.attach id).2.views[other]? = some w → x ∈ w.listeners →
      other = t := by
    intro other w there member
    obtain ⟨old, before, ⟨-, rfl⟩ | ⟨-, rfl⟩⟩ := getElem?_modify_eq_some.mp (views ▸ there)
    · refine here.own other old before ((ExtTreeSet.mem_insert.mp member).resolve_left ?_)
      exact fun same => differs (LawfulEqOrd.eq_of_compare same).symm
    · exact here.own other w before member
  refine ⟨lines, v, ?_⟩
  by_cases same : id = t
  · refine ⟨join v, here, ⟨?_, ExtTreeSet.mem_insert.mpr (.inr here.member), own⟩, rfl, rfl⟩
    exact getElem?_modify_eq_some.mpr ⟨v, here.viewed, .inl ⟨same, rfl⟩⟩
  · refine ⟨v, here, ⟨?_, here.member, own⟩, rfl, rfl⟩
    exact getElem?_modify_eq_some.mpr ⟨v, here.viewed, .inr ⟨same, rfl⟩⟩

/-- A listener that is struck off concerns no other. -/
theorem still_forget {e : Engine} {x : ListenerId} {t : TargetId} {v : View}
    (here : e.Placed x t v) {y : ListenerId} (differs : x ≠ y) (id : TargetId) :
    Still e (e.forget y id) x t := by
  let leave (v : View) : View := { v with listeners := v.listeners.erase y }
  have views : (e.forget y id).views = e.views.modify id leave := rfl
  have lines : (e.forget y id).line x = e.line x := by
    change Line.mk (e.listeners.erase y)[x]? _ = _
    rw [ExtTreeMap.getElem?_erase,
      if_neg fun same => differs (LawfulEqOrd.eq_of_compare same).symm]
    rfl
  have own : ∀ other w, (e.forget y id).views[other]? = some w → x ∈ w.listeners →
      other = t := by
    intro other w there member
    obtain ⟨old, before, ⟨-, rfl⟩ | ⟨-, rfl⟩⟩ := getElem?_modify_eq_some.mp (views ▸ there)
    · exact here.own other old before (ExtTreeSet.mem_erase.mp member).2
    · exact here.own other w before member
  refine ⟨lines, v, ?_⟩
  by_cases same : id = t
  · refine ⟨leave v, here, ⟨?_, ExtTreeSet.mem_erase.mpr ⟨?_, here.member⟩, own⟩, rfl, rfl⟩
    · exact getElem?_modify_eq_some.mpr ⟨v, here.viewed, .inl ⟨same, rfl⟩⟩
    · exact fun same => differs (LawfulEqOrd.eq_of_compare same).symm
  · refine ⟨v, here, ⟨?_, here.member, own⟩, rfl, rfl⟩
    exact getElem?_modify_eq_some.mpr ⟨v, here.viewed, .inr ⟨same, rfl⟩⟩

end Engine

end LiveQuery
