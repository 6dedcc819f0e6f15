import LiveQuery.Proofs.ServerFreshness

/-!
# Labels of what a listener was told last

The latest snapshot of a listener carries the flags of the present state: every
call that changes what a view shows, or whether its target is current, lays the
view before its listeners again. One change goes unsaid. A removal without a cause
of a target that somebody listens to adds the target again, and it is not current
any more, but its listeners are not told. Their label is outdated until they are
told something again.
-/

namespace LiveQuery

open Std

/-- The target is not current after the moment, and the listener was told nothing in it. -/
def Moment.Unsaid (m : Moment) (x : ListenerId) (t : TargetId) : Prop :=
  m.after.told x = m.before.told x ∧ ¬m.after.stream.Current t

/-- A removal without a cause ended that the target was current. Since then the target was not
    current, and the listener was told nothing. -/
def Outdated (x : ListenerId) (t : TargetId) : List Moment → Prop :=
  Since (·.Unsaid x t) fun m _ => m.Dulls t ∧ m.Unsaid x t

/-- The flags are those of the present state, or those of a target that is current although it is
    not any more. -/
inductive Labelled (past : List Moment) (e : Engine) (x : ListenerId) (t : TargetId) (v : View)
    (flags : Flags) : Prop
  | present (same : flags = e.flagsOf t v)
  | outdated (same : flags = v.flags true) (outdated : Outdated x t past)

/-- Where an initialized view says nothing new, its flags are not new. -/
theorem Listener.seen_of_next?_eq_none {l : Listener} {v : View} {flags : Flags}
    (quiet : l.next? v flags = none) (initialized : v.replicas.shown.initialized = true) :
    ∃ r, l.seen = some (r, flags) := by
  unfold next? at quiet
  dsimp only at quiet
  have known : l.seen.any (·.2 == flags) = true := by
    split at quiet
    case isTrue idle =>
      rw [initialized, Bool.not_true, Bool.or_false, hasSeen] at idle
      obtain ⟨shown, seen, same⟩ := (Option.any_eq_true _ _).mp idle
      exact (Option.any_eq_true _ _).mpr ⟨shown, seen, (Bool.and_eq_true_iff.mp same).2⟩
    case isFalse =>
      split at quiet
      case isTrue unchanged => exact (Bool.and_eq_true_iff.mp unchanged).2
      case isFalse => cases quiet
  obtain ⟨⟨r, last⟩, seen, same⟩ := (Option.any_eq_true _ _).mp known
  obtain rfl : last = flags := beq_iff_eq.mp same
  exact ⟨r, seen⟩

/-- A listener that an initialized view was laid before has seen its flags. -/
theorem Listener.seen_after {v : View} (initialized : v.replicas.shown.initialized = true)
    (l : Listener) (flags : Flags) : ∃ r, (l.after v flags).seen = some (r, flags) := by
  unfold after
  split
  case isTrue => exact ⟨v.replicas.shown, rfl⟩
  case isFalse silent => exact seen_of_next?_eq_none (by simpa using silent) initialized

/-- The flags of a view depend on what it shows alone. -/
theorem View.flags_congr {v w : View} (target : w.target = v.target)
    (shown : w.replicas.shown = v.replicas.shown) (current : Bool) :
    w.flags current = v.flags current := by
  rw [View.flags, View.flags, View.result, View.result, target, shown]

namespace Engine

variable {past : List Moment} {e middle : Engine} {x : ListenerId} {t : TargetId} {l : Listener}
  {v : View}

/-- Whoever a view was laid before has seen its present flags. -/
theorem seen_of_spoken (spoken : Spoken middle e x t) (entered : e.listeners[x]? = some l)
    (viewed : e.views[t]? = some v) (initialized : v.replicas.shown.initialized = true) :
    ∃ r, l.seen = some (r, e.flagsOf t v) := by
  obtain ⟨w, here, line⟩ := spoken
  obtain rfl := Option.some.inj (viewed.symm.trans here.viewed)
  have entry := (congrArg Line.entry line).trans (Line.entry_inform ..)
  obtain ⟨old, -, rfl⟩ := Option.map_eq_some_iff.mp (entry.symm.trans entered)
  exact old.seen_after initialized _

end Engine

namespace History

variable {past : List Moment} {e : Engine} {x : ListenerId} {t : TargetId} {l : Listener}
  {v : View}

/-- A target whose label is outdated is not current. -/
theorem not_current_of_outdated (history : History past e) (outdated : Outdated x t past) :
    ¬e.stream.Current t := by
  cases history with
  | start =>
    obtain ⟨later, m, earlier, impossible, -⟩ := outdated
    cases List.append_eq_nil_iff.mp impossible.symm |>.2
  | step _ happening => exact (outdated.holds_now fun _ _ began => began.2).2

/-- A moment in which a listener is told nothing, and in which neither what its view shows nor what
    is current changes, leaves its label as it is, unless it dulls the target. -/
theorem labelled_still (history : History past e) {happening : Happening} {w : View}
    {flags : Flags} (labelled : Labelled past e x t v flags)
    (same : ∀ current, w.flags current = v.flags current)
    (told : (e.meet happening).told x = e.told x)
    (current : (e.meet happening).stream.subscriptions.isCurrent t =
      e.stream.subscriptions.isCurrent t ∨ Moment.Dulls ⟨e, happening⟩ t) :
    Labelled (⟨e, happening⟩ :: past) (e.meet happening) x t w flags := by
  have dull (now : (e.meet happening).stream.subscriptions.isCurrent t = false) :
      Moment.Unsaid ⟨e, happening⟩ x t := ⟨told, Bool.eq_false_iff.mp now⟩
  cases labelled with
  | present here =>
    rw [Engine.flagsOf, ← same] at here
    rcases current with kept | dulls
    · exact .present (by rw [Engine.flagsOf, kept, here])
    · have before : e.stream.subscriptions.isCurrent t = true := by
        obtain ⟨action, -, change, -, before, -⟩ := dulls
        exact before
      rw [before] at here
      cases now : (e.meet happening).stream.subscriptions.isCurrent t with
      | true => exact .present (by rw [Engine.flagsOf, now, here])
      | false => exact .outdated here (.now ⟨dulls, dull now⟩)
  | outdated here since =>
    have before := history.not_current_of_outdated since
    refine .outdated (here.trans (same true).symm) (since.still (dull ?_))
    rcases current with kept | ⟨action, -, change, -, impossible, -⟩
    · exact kept.trans (Bool.eq_false_iff.mpr before)
    · exact absurd impossible before

/-- The flags that a listener was last shown are those of the present state, or they are
    outdated. -/
theorem labelled (history : History past e) (entered : e.listeners[x]? = some l)
    (viewed : e.views[l.target]? = some v) (initialized : v.replicas.shown.initialized = true) :
    ∃ r flags, l.seen = some (r, flags) ∧ Labelled past e x l.target v flags := by
  induction history generalizing l v with
  | start read =>
    obtain ⟨pending, rfl⟩ := Engine.ofStore_eq read
    exact nomatch ExtTreeMap.getElem?_empty.symm.trans entered
  | @step past e before happening ih =>
    cases happening with
    | restock store =>
      obtain ⟨r, flags, seen, labelled⟩ := ih entered viewed initialized
      exact ⟨r, flags, seen, before.labelled_still labelled (fun _ => rfl) rfl (.inl rfl)⟩
    | detach id =>
      obtain ⟨old, there, same⟩ : ∃ old, e.listeners[x]? = some old ∧ old.target = l.target ∧
          old.seen = l.seen := by
        obtain ⟨old, there, ⟨-, rfl⟩ | ⟨-, rfl⟩⟩ := getElem?_modify_eq_some.mp entered
        · exact ⟨old, there, rfl, rfl⟩
        · exact ⟨l, there, rfl, rfl⟩
      obtain ⟨r, flags, seen, labelled⟩ := ih there (same.1 ▸ viewed) initialized
      refine ⟨r, flags, same.2 ▸ seen, ?_⟩
      exact before.labelled_still (same.1 ▸ labelled) (fun _ => rfl) rfl (.inl rfl)
    | call action =>
      have informed := before.reachable.settled.informed
      have present {middle : Engine}
          (spoken : Engine.Spoken middle (e.perform action).2 x l.target) :
          ∃ r flags, l.seen = some (r, flags) ∧
            Labelled (⟨e, .call action⟩ :: past) (e.perform action).2 x l.target v flags := by
        obtain ⟨r, seen⟩ := Engine.seen_of_spoken spoken entered viewed initialized
        exact ⟨r, _, seen, .present rfl⟩
      rcases Engine.entered_perform informed before.sound entered with
        ⟨old, there, own⟩ | ⟨target, rfl, rfl, own⟩
      · have course := Engine.Course.perform informed before.sound there action
        rw [own] at course
        cases course with
        | spoken spoken _ => exact present spoken
        | still still _ current =>
          obtain ⟨line, shown, w, here, now, target, same⟩ := still
          obtain rfl := Option.some.inj (viewed.symm.trans now.viewed)
          have entry : _ = e.listeners[x]? := congrArg Line.entry line
          obtain rfl := Option.some.inj (entered.symm.trans (entry.trans there))
          obtain ⟨r, flags, seen, labelled⟩ := ih there here.viewed (same ▸ initialized)
          refine ⟨r, flags, seen, before.labelled_still labelled (View.flags_congr target same)
            (congrArg Line.events line) (current.imp_right fun dulls => ⟨action, rfl, dulls⟩)⟩
        | ended status line _ _ =>
          cases entered.symm.trans ((congrArg Line.entry line).trans (Line.entry_finish ..))
        | left _ line => cases entered.symm.trans (congrArg Line.entry line)
      · obtain ⟨middle, -, spoken⟩ := Engine.spoken_listen informed target
        exact present (own ▸ spoken)

end History

namespace Engine

/-- After any history, the latest event of a listener whose view is initialized is a snapshot, and
    its label is right: it says that there are pending writes if some document of the present result
    carries local writes, and that it comes from the cache if so or if the target is not current.
    Only an outdated label misses that the target is not current any more. -/
theorem labels_are_present_or_outdated {past : List Moment} {e : Engine}
    (history : History past e) (x : ListenerId) (l : Listener) (v : View)
    (entered : e.listeners[x]? = some l) (attached : l.attached = true)
    (viewed : e.views[l.target]? = some v) (initialized : v.replicas.shown.initialized = true) :
    ∃ last, (e.told x).getLast? = some (.ok last) ∧
      (last.flags.hasPendingWrites = true ↔ ∃ d ∈ v.result.list, d.hasLocalWrites = true) ∧
      ((last.flags.fromCache = true ↔
          last.flags.hasPendingWrites = true ∨ ¬e.stream.subscriptions.isCurrent l.target = true) ∨
        Outdated x l.target past ∧ last.flags.fromCache = last.flags.hasPendingWrites) := by
  have informed := history.reachable.settled.informed
  obtain ⟨w, there, -, ⟨snapshots, -, told, heard⟩, -⟩ := informed.served x l entered
  obtain ⟨r, flags, seen, labelled⟩ := history.labelled entered viewed initialized
  have heard := heard attached
  rw [Listener.Heard, seen] at heard
  obtain ⟨last, latest, shows⟩ := heard
  refine ⟨last, by rw [told, List.getLast?_map, latest, Option.map_some], ?_⟩
  rw [shows.flags]
  cases labelled with
  | present same =>
    subst same
    refine ⟨List.any_eq_true, .inl ?_⟩
    simp [flagsOf, View.flags]
  | outdated same outdated =>
    subst same
    exact ⟨List.any_eq_true, .inr ⟨outdated, Bool.or_false _⟩⟩

/-- Whether a listener is attached to a target whose view is initialized. -/
def watches (e : Engine) (x : ListenerId) (t : TargetId) : Bool :=
  (e.listeners[x]?.any fun l => l.attached && l.target == t) &&
    e.views[t]?.any (·.replicas.shown.initialized)

theorem exists_of_watches {e : Engine} {x : ListenerId} {t : TargetId}
    (watches : e.watches x t = true) :
    ∃ l v, e.listeners[x]? = some l ∧ l.attached = true ∧ l.target = t ∧
      e.views[l.target]? = some v ∧ v.replicas.shown.initialized = true := by
  obtain ⟨somebody, complete⟩ := Bool.and_eq_true_iff.mp watches
  obtain ⟨l, entered, state⟩ := (Option.any_eq_true _ _).mp somebody
  obtain ⟨attached, own⟩ := Bool.and_eq_true_iff.mp state
  obtain ⟨v, viewed, initialized⟩ := (Option.any_eq_true _ _).mp complete
  obtain rfl := beq_iff_eq.mp own
  exact ⟨l, v, entered, attached, rfl, viewed, initialized⟩

/-- Calls after which a listener was told on an open stream that its result is fresh. -/
def freshActions : List Action := reported ++ [.handle (.watch (.snapshot ⟨1⟩)) .zero]

/-- When the stream is given up, the listener is told that its result comes from the cache. -/
theorem disconnect_is_said :
    let e := blank.run (freshActions ++ [.disconnect])
    ∃ past l v, History past e ∧ e.listeners[(⟨1⟩ : ListenerId)]? = some l ∧
      l.attached = true ∧ e.views[l.target]? = some v ∧ v.replicas.shown.initialized = true ∧
      ∃ last, (e.told ⟨1⟩).getLast? = some (.ok last) ∧ last.flags.fromCache = true := by
  intro e
  have history := history_blank.run (freshActions ++ [.disconnect])
  obtain ⟨l, v, entered, attached, own, viewed, initialized⟩ :=
    exists_of_watches (e := e) (by decide +kernel : e.watches ⟨1⟩ ⟨1⟩ = true)
  have kept : ¬Outdated ⟨1⟩ l.target (blank.moments (freshActions ++ [.disconnect]) ++ []) := by
    rintro ⟨later, m, earlier, split, ⟨⟨action, here, _, ⟨-, now, rfl⟩, -, ids, rfl, -⟩, -⟩, -⟩
    rw [List.append_nil] at split
    have member : m ∈ blank.moments (freshActions ++ [.disconnect]) := by simp [split]
    obtain ⟨other, among, there⟩ := mem_moments member
    obtain rfl := Happening.call.inj (here.symm.trans there)
    simp [freshActions, reported] at among
  obtain ⟨last, told, -, label⟩ :=
    labels_are_present_or_outdated history ⟨1⟩ l v entered attached viewed initialized
  have label := label.resolve_right fun outdated => kept outdated.1
  refine ⟨_, l, v, history, entered, attached, viewed, initialized, last, told, label.mpr ?_⟩
  right
  rw [own]
  decide +kernel

/-- When the server removes the target without a cause, the target is not current any more, but the
    listener is left with the label that its result is fresh. -/
theorem uncaused_removal_is_unsaid :
    let e := blank.run (freshActions ++ [.handle (.watch (.targetRemoved [⟨1⟩] none)) .zero])
    e.Reachable ∧ ∃ l v last, e.listeners[(⟨1⟩ : ListenerId)]? = some l ∧ l.attached = true ∧
      e.views[l.target]? = some v ∧ v.replicas.shown.initialized = true ∧
      (e.told ⟨1⟩).getLast? = some (.ok last) ∧ last.flags.fromCache = false ∧
      e.stream.subscriptions.isCurrent l.target = false := by
  intro e
  obtain ⟨l, v, entered, attached, own, viewed, initialized⟩ :=
    exists_of_watches (e := e) (by decide +kernel : e.watches ⟨1⟩ ⟨1⟩ = true)
  have told : (e.told ⟨1⟩).getLast?.any ListenEvent.isFresh = true := by decide +kernel
  have lapsed : e.stream.subscriptions.isCurrent ⟨1⟩ = false := by decide +kernel
  obtain ⟨event, told, label⟩ := (Option.any_eq_true _ _).mp told
  obtain ⟨last, rfl, fresh⟩ := ListenEvent.of_isFresh label
  rw [← own] at lapsed
  exact ⟨reachable_blank.run _, l, v, last, entered, attached, viewed, initialized, told, fresh,
    lapsed⟩

end Engine

end LiveQuery
