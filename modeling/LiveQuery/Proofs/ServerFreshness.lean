import LiveQuery.Proofs.History
import LiveQuery.Proofs.KeptServers

/-!
# What a fresh snapshot rests on

A snapshot is labelled fresh only for a target that is current, and a target is
current only if the server said so on the present stream: after its last addition
it was reported to be complete, and a snapshot closed the report. From its
addition on its reports count without a break. The server's replica of a current
target is complete, because the snapshot that makes a target current completes
the replica and resets no target that is current.
-/

namespace LiveQuery

open Std

namespace Moment

/-- The reports on a target count before and after. -/
def On (m : Moment) (t : TargetId) : Prop := m.before.stream.Live t ∧ m.after.stream.Live t

/-- The target is added, and its reports count from then on. -/
def Activates (m : Moment) (t : TargetId) : Prop :=
  m.Adds t ∧ ¬m.before.stream.Live t ∧ m.after.stream.Live t

end Moment

/-- The reports on the target count without a break since it was added. -/
def Activated (t : TargetId) : List Moment → Prop := Since (·.On t) fun m _ => m.Activates t

/-- Since the target was added it was reported to be complete. -/
def Completed (t : TargetId) : List Moment → Prop :=
  Since (·.On t) fun m earlier => m.On t ∧ m.Completes t ∧ Activated t earlier

/-- Since the target was reported to be complete a snapshot closed the report. -/
def Confirmed (t : TargetId) : List Moment → Prop :=
  Since (·.On t) fun m earlier => m.On t ∧ m.Closes ∧ Completed t earlier

/-- What the stream knows of its targets the server said on it. -/
structure Attested (past : List Moment) (s : WatchStream) : Prop where
  live : ∀ t, s.Live t → Activated t past
  marked : ∀ t, s.Marked t → Completed t past
  current : ∀ t, s.Current t → Confirmed t past

theorem History.attested {past : List Moment} {e : Engine} (history : History past e) :
    Attested past e.stream := by
  induction history with
  | start read =>
    obtain ⟨pending, rfl⟩ := Engine.ofStore_eq read
    have sound := (History.start read).sound
    refine ⟨fun t live => ?_, fun t marked => ?_, fun t current => ?_⟩
    · exact nomatch live.1
    · exact nomatch marked.1.1
    · exact nomatch (sound.current t current).1
  | @step past e history happening ih =>
    let m : Moment := ⟨e, happening⟩
    obtain ⟨sound, gains⟩ := m.gains history.sound
    refine ⟨fun t live => ?_, fun t marked => ?_, fun t current => ?_⟩
    · by_cases before : e.stream.Live t
      · exact (ih.live t before).still ⟨before, live⟩
      · exact .now ⟨(gains.live t live).resolve_left before, before, live⟩
    · rcases gains.marked t marked with before | completes
      · exact (ih.marked t before).still ⟨before.1, marked.1⟩
      · have before : e.stream.Live t := by
          refine (gains.live t marked.1).resolve_right ?_
          rintro ⟨change, brings, ids, rfl, -⟩
          obtain ⟨other, again, token, rfl⟩ := completes
          cases brings.same again
        exact .now ⟨⟨before, marked.1⟩, completes, ih.live t before⟩
    · have live := sound.current t current
      rcases gains.current t current with before | ⟨closes, marked⟩
      · exact (ih.current t before).still ⟨history.sound.current t before, live⟩
      · exact .now ⟨⟨marked.1, live⟩, closes, ih.marked t marked⟩

namespace Engine

/-- The view of a target is there, and the server's replica of it is complete. -/
def Complete (e : Engine) (t : TargetId) : Prop :=
  ∃ v, e.views[t]? = some v ∧ v.replicas.server.initialized = true

section Complete

variable {e after : Engine} {t : TargetId}

/-- A replica that is kept stays complete. -/
theorem Complete.keeps (complete : e.Complete t) (keeps : e.Keeps after t) : after.Complete t := by
  obtain ⟨v, viewed, initialized⟩ := complete
  obtain ⟨w, there, same⟩ := keeps v viewed
  exact ⟨w, there, same ▸ initialized⟩

theorem Complete.foldl {α : Type} {step : Engine → α → Engine}
    (each : ∀ {e : Engine}, e.Complete t → ∀ a, (step e a).Complete t) (steps : List α)
    (complete : e.Complete t) : (steps.foldl step e).Complete t := by
  induction steps generalizing e with
  | nil => exact complete
  | cons a rest ih => exact ih (each complete a)

/-- A snapshot leaves a complete replica complete unless it resets the target for good. -/
theorem Complete.absorb (complete : e.Complete t) {event : RemoteEvent}
    (settles : event.initializedAfter t true = true) (id : TargetId) :
    (absorb event e id).Complete t := by
  obtain ⟨v, viewed, initialized⟩ := complete
  by_cases same : id = t
  · subst same
    refine ⟨v.withServer (event.applyTo id v.target.isFiltered v.replicas.server e.nextEdition),
      ?_, ?_⟩
    · rw [views_absorb, getElem?_modify_eq_some]
      exact ⟨v, viewed, .inl ⟨rfl, rfl⟩⟩
    · change event.initializedAfter id v.replicas.server.initialized = true
      rw [initialized, settles]
  · refine ⟨v, ?_, initialized⟩
    rw [views_absorb, getElem?_modify_eq_some]
    exact ⟨v, viewed, .inr ⟨same, rfl⟩⟩

/-- A snapshot completes the targets that it says are complete, if they have a view. -/
theorem complete_absorbAll {event : RemoteEvent} {change : TargetChange}
    (here : event.changes[t]? = some change) (current : change.current = true)
    {ids : List TargetId} (named : t ∈ ids) (viewed : e.views[t]? ≠ none) :
    (ids.foldl (absorb event) e).Complete t := by
  have settles (before : Bool) : event.initializedAfter t before = true := by
    rw [RemoteEvent.initializedAfter, here, Option.any_some, current, Bool.true_or]
  obtain ⟨front, back, rfl⟩ := List.append_of_mem named
  have still (ids : List TargetId) : (ids.foldl (absorb event) e).views[t]? ≠ none := by
    induction ids generalizing e with
    | nil => exact viewed
    | cons id rest ih =>
      refine ih fun absent => viewed ?_
      rwa [views_absorb, getElem?_modify_eq_none] at absent
  rw [List.foldl_append, List.foldl_cons]
  refine Complete.foldl (fun complete id => complete.absorb (settles true) id) back ?_
  obtain ⟨v, there⟩ := Option.ne_none_iff_exists'.mp (still front)
  refine ⟨v.withServer (event.applyTo t v.target.isFiltered v.replicas.server
    (front.foldl (absorb event) e).nextEdition), ?_, settles _⟩
  rw [views_absorb, getElem?_modify_eq_some]
  exact ⟨v, there, .inl ⟨rfl, rfl⟩⟩

/-- What is complete after a snapshot: what was so and is not reset, and what the snapshot
    completes. A snapshot that says something of a live target without a view is not applied. -/
theorem complete_applyRemote {event : RemoteEvent} (applied : e.applyRemote event = .ok after)
    (known : e.Complete t ∧ t ∉ event.resets ∨
      (∃ change, event.changes[t]? = some change ∧ change.current = true) ∧
        e.stream.subscriptions.isActive t = true) : after.Complete t := by
  obtain ⟨viewless, ids, stats, -, -, rfl⟩ := applyRemote_cases applied
  have taken : (event.affected.toList.foldl (absorb event) e).Complete t := by
    rcases known with ⟨complete, unreset⟩ | ⟨⟨change, here, current⟩, active⟩
    · refine complete.foldl (fun complete id => complete.absorb ?_ id) _
      have unreset : event.resets.contains t = false :=
        Bool.eq_false_iff.mpr (mt ExtTreeSet.mem_iff_contains.mpr unreset)
      simp [RemoteEvent.initializedAfter, unreset]
    · have mentioned : t ∈ event.affected := by
        refine ExtTreeSet.mem_ofList.mpr (List.contains_iff_mem.mpr (List.mem_append_left _ ?_))
        exact ExtTreeMap.mem_keys.mpr (ExtTreeMap.mem_iff_isSome_getElem?.mpr (here ▸ rfl))
      refine complete_absorbAll here current (ExtTreeSet.mem_toList.mpr mentioned) fun absent => ?_
      have viewless := List.find?_eq_none.mp viewless t (ExtTreeSet.mem_toList.mpr mentioned)
      simp [active, ExtTreeMap.contains_eq_isSome_getElem?, absent] at viewless
  have reread : (e.takeIn event).Complete t := taken.keeps (.of_same rfl)
  have shown := reread.keeps (.foldl (fun e id =>
    (keeps_recompute e id).trans (keeps_saveView _ id)) ids _)
  exact shown.keeps (.of_same rfl)

/-- A current target is subscribed. -/
theorem contains_of_current {s : WatchStream} (current : s.Current t) :
    s.subscriptions.contains t = true := by
  obtain ⟨sub, entered, -⟩ := (s.subscriptions.isCurrent_iff t).mp current
  rw [Subscriptions.contains, ExtTreeMap.contains_eq_isSome_getElem?, entered]
  rfl

end Complete

end Engine

namespace Moment

/-- A moment brings a snapshot that is applied, or it moves the stream and keeps the replicas of all
    targets that are subscribed after it. -/
theorem course (m : Moment) (sound : m.before.stream.Sound)
    (genuine : ∀ event, m.happening ≠ .call (.applyRemote event)) :
    (∃ version, m.before.Applies m.after version) ∨
      m.before.stream.Moves m.Brings m.after.stream ∧
        ∀ t, m.after.stream.subscriptions.contains t = true → m.before.Keeps m.after t := by
  by_cases applied : ∃ version, m.before.Applies m.after version
  case pos => exact .inl applied
  case neg =>
    right
    obtain ⟨e, happening⟩ := m
    cases happening with
    | detach id => exact ⟨.same, fun t _ => .of_same rfl⟩
    | restock store => exact ⟨.same, fun t _ => .of_same rfl⟩
    | call action =>
      have genuine (event : RemoteEvent) : action ≠ .applyRemote event :=
        fun same => genuine event (congrArg Happening.call same)
      refine ⟨?_, fun t known => ?_⟩
      · rcases Engine.moves_perform sound action with moves | ⟨version, now, -, applies⟩
        · exact moves.widen fun change _ brings => ⟨action, rfl, brings⟩
        · exact absurd ⟨version, applies⟩ applied
      · refine (Engine.keeps_perform sound genuine known).resolve_right ?_
        rintro ⟨version, now, -, applies⟩
        exact applied ⟨version, applies⟩

/-- A replica is complete after a moment if it was so before, or, where the moment brings a
    snapshot, if it was so and is not reset or the snapshot completes it. -/
theorem complete {m : Moment} {t : TargetId} (sound : m.before.stream.Sound)
    (genuine : ∀ event, m.happening ≠ .call (.applyRemote event))
    (known : m.after.stream.subscriptions.contains t = true)
    (moved : m.before.stream.Moves m.Brings m.after.stream → m.before.Complete t)
    (closed : ∀ version, m.before.stream.state = .opened →
      m.after.stream = (m.before.stream.flush version).2 →
      m.before.Complete t ∧ t ∉ (m.before.stream.flush version).1.resets ∨
        (∃ change, (m.before.stream.flush version).1.changes[t]? = some change ∧
          change.current = true) ∧
          (m.before.stream.flush version).2.subscriptions.isActive t = true) :
    m.after.Complete t := by
  rcases m.course sound genuine with ⟨version, applies⟩ | ⟨moves, keeps⟩
  · have settles := closed version applies.1 applies.stream
    obtain ⟨-, applied, made, same⟩ := applies
    rw [same] at known ⊢
    refine (Engine.complete_applyRemote made ?_).keeps (Engine.keeps_prune known)
    exact settles.imp_left fun ⟨complete, unreset⟩ => ⟨complete.keeps (.of_same rfl), unreset⟩
  · exact (moved moves).keeps (keeps t known)

end Moment

/-- Driven past: nobody laid a made-up snapshot over the engine, so that all it knows of the server
    came over the stream. -/
def Driven (past : List Moment) : Prop :=
  ∀ m ∈ past, ∀ event, m.happening ≠ .call (.applyRemote event)

theorem driven_moments (e : Engine) {actions : List Engine.Action}
    (genuine : ∀ action ∈ actions, ∀ event, action ≠ .applyRemote event) :
    Driven (e.moments actions ++ []) := by
  intro m member event same
  rw [List.append_nil] at member
  obtain ⟨action, among, here⟩ := Engine.mem_moments member
  exact genuine action among event (Happening.call.inj (here.symm.trans same))

/-- The server's replica of a current target is complete. -/
theorem History.complete {past : List Moment} {e : Engine} (history : History past e)
    (driven : Driven past) : ∀ t, e.stream.Current t → e.Complete t := by
  induction history with
  | start read =>
    intro t current
    obtain ⟨pending, rfl⟩ := Engine.ofStore_eq read
    exact nomatch ((History.start read).sound.current t current).1
  | @step past e history happening ih =>
    intro t current
    obtain ⟨now, before⟩ := List.forall_mem_cons.mp driven
    refine Moment.complete (m := ⟨e, happening⟩) history.sound now
      (Engine.contains_of_current current) (fun moves => ?_) fun version opened same => ?_
    · exact ih before t (moves.current history.sound current)
    · have current : (⟨e, happening⟩ : Moment).after.stream.Current t := current
      rw [same] at current
      exact (WatchStream.current_flush history.sound opened current).imp_left
        fun ⟨current, unreset⟩ => ⟨ih before t current, unreset⟩

/-- What the server must have said of a target, and what must be known of it, for its snapshots to
    be fresh. -/
structure Assured (past : List Moment) (e : Engine) (t : TargetId) : Prop where
  opened : e.stream.state = .opened
  subscribed : ∃ sub, e.stream.subscriptions.table[t]? = some sub ∧ sub.listening = true ∧
    sub.adds = 0
  confirmed : Confirmed t past
  complete : e.Complete t

theorem History.assured {past : List Moment} {e : Engine} (history : History past e)
    (driven : Driven past) {t : TargetId} (current : e.stream.Current t) : Assured past e t := by
  obtain ⟨opened, active⟩ := history.sound.current t current
  obtain ⟨sub, entered, active⟩ := (e.stream.subscriptions.isActive_iff t).mp active
  obtain ⟨listening, unasked⟩ := Bool.and_eq_true_iff.mp active
  exact ⟨opened, ⟨sub, entered, listening, beq_iff_eq.mp unasked⟩,
    history.attested.current t current, history.complete driven t current⟩

/-- Whether the event is a snapshot that is labelled as fresh. -/
def ListenEvent.isFresh : ListenEvent → Bool
  | .ok s => !s.flags.fromCache
  | .error _ => false

theorem ListenEvent.of_isFresh {event : ListenEvent} (fresh : isFresh event = true) :
    ∃ s, event = .ok s ∧ s.flags.fromCache = false := by
  cases event with
  | error => cases fresh
  | ok s => exact ⟨s, rfl, by simpa [isFresh] using fresh⟩

namespace Engine

/-- Whatever came before, as long as it came over the stream or from calls: a target that is current
    is assured, and so is the target of every snapshot that a call sends as fresh, right after that
    call. -/
theorem fresh_snapshots_are_assured {past : List Moment} {e : Engine} (history : History past e)
    (driven : Driven past) :
    (∀ t, e.stream.subscriptions.isCurrent t = true → Assured past e t) ∧
      ∀ (action : Action) (x : ListenerId) (s : ViewSnapshot),
        (∀ event, action ≠ .applyRemote event) → .ok s ∈ e.sent action x →
        s.flags.fromCache = false → ∃ l v, (e.perform action).2.listeners[x]? = some l ∧
          (e.perform action).2.views[l.target]? = some v ∧ s.target = v.target ∧
          Assured (⟨e, .call action⟩ :: past) (e.perform action).2 l.target := by
  refine ⟨fun t current => history.assured driven current, ?_⟩
  intro action x s genuine member fresh
  obtain ⟨l, v, entered, viewed, -, shows⟩ :=
    sent_shows history.reachable.settled.informed history.sound member
  refine ⟨l, v, entered, viewed, shows.target, ?_⟩
  have later : History (⟨e, .call action⟩ :: past) (e.perform action).2 :=
    history.step (.call action)
  have current : (e.perform action).2.stream.Current l.target := by
    rw [shows.flags, flagsOf, View.flags, Bool.or_eq_false_iff] at fresh
    exact Bool.not_eq_eq_eq_not.mp fresh.2
  refine later.assured (List.forall_mem_cons.mpr ⟨?_, driven⟩) current
  rintro event same
  exact genuine event (Happening.call.inj same)

/-- What the server reports of target 1, but for the snapshot that closes the reports. -/
def reported : List Action :=
  [.listen (.document ⟨"c/a"⟩), .connect, .handle .opened .zero,
    .handle (.watch (.targetAdded [⟨1⟩])) .zero, .handle (.watch (.current ⟨1⟩ ⟨[]⟩)) .zero]

/-- The snapshot that closes the reports is fresh, and its target is assured. -/
theorem fresh_after_reports :
    let e := blank.run reported
    let closing := Action.handle (.watch (.snapshot ⟨1⟩)) .zero
    ∃ past, History past e ∧ Driven past ∧ ∃ s, .ok s ∈ e.sent closing ⟨1⟩ ∧
      s.flags.fromCache = false ∧ ∃ l v,
        (e.perform closing).2.listeners[(⟨1⟩ : ListenerId)]? = some l ∧
        (e.perform closing).2.views[l.target]? = some v ∧ s.target = v.target ∧
        Assured (⟨e, .call closing⟩ :: past) (e.perform closing).2 l.target := by
  intro e closing
  have history := history_blank.run reported
  have driven : Driven (blank.moments reported ++ []) :=
    driven_moments blank (by simp [reported])
  have told : (e.sent closing ⟨1⟩).any ListenEvent.isFresh = true := by decide +kernel
  obtain ⟨event, member, label⟩ := List.any_eq_true.mp told
  obtain ⟨s, rfl, fresh⟩ := ListenEvent.of_isFresh label
  obtain ⟨-, sends⟩ := fresh_snapshots_are_assured history driven
  exact ⟨_, history, driven, s, member, fresh, sends closing ⟨1⟩ s (fun _ => nofun) member fresh⟩

end Engine

end LiveQuery
