import LiveQuery.Proofs.EngineRun

/-!
# The line to a listener

The line to a listener is the entry that is kept of it and the events that it
was sent. Telling listeners touches one line at a time, so what a round of
telling does can be said for each line by itself.

To save comparisons, the entry keeps the edition of the documents that were shown
last. Equal editions stand for equal documents among all replicas that an engine
holds: every set of documents that is made gets an edition of its own, and a
replica that shares an edition shares the documents.
-/

namespace LiveQuery

open Std

namespace Listener

/-- The listener after a view was laid before it. -/
def after (l : Listener) (v : View) (flags : Flags) : Listener :=
  if (l.next? v flags).isSome then l.shown v flags else l

/-- What reaches a listener that a view is laid before. -/
def news (l : Listener) (v : View) (flags : Flags) : List ListenEvent :=
  if l.attached then ((l.next? v flags).map .ok).toList else []

end Listener

/-- The entry of a listener, if there is one, and what it was sent, oldest first. -/
structure Line where
  entry : Option Listener
  events : List ListenEvent

namespace Line

/-- The line after a view was laid before the listener. -/
def inform (v : View) (flags : Flags) (line : Line) : Line :=
  match line.entry with
  | none => line
  | some l => ⟨some (l.after v flags), line.events ++ l.news v flags⟩

/-- The line after its last event. -/
def finish (event : ListenEvent) (line : Line) : Line :=
  match line.entry with
  | none => line
  | some l => ⟨none, if l.attached then line.events ++ [event] else line.events⟩

theorem entry_inform (v : View) (flags : Flags) (line : Line) :
    (line.inform v flags).entry = line.entry.map (·.after v flags) := by
  unfold inform
  split <;> simp [*]

theorem events_inform (v : View) (flags : Flags) (line : Line) :
    (line.inform v flags).events = line.events ++ line.entry.elim [] (·.news v flags) := by
  unfold inform
  split <;> simp [*]

theorem entry_finish (event : ListenEvent) (line : Line) : (line.finish event).entry = none := by
  unfold finish
  split <;> simp [*]

theorem events_finish (event : ListenEvent) (line : Line) :
    (line.finish event).events =
      line.events ++ line.entry.elim [] fun l => if l.attached then [event] else [] := by
  unfold finish
  split
  · simp [*]
  case h_2 l entered => by_cases attached : l.attached <;> simp [entered, attached]

end Line

namespace Engine

/-- What a listener was sent, oldest first. -/
def told (e : Engine) (id : ListenerId) : List ListenEvent :=
  (e.deliveries.filter (·.1 == id)).map (·.2)

/-- The line to a listener. -/
def line (e : Engine) (id : ListenerId) : Line := ⟨e.listeners[id]?, e.told id⟩

/-- An event reaches the listener that it is meant for, if that one is still attached. -/
theorem told_deliver (e : Engine) (id : ListenerId) (l : Listener) (event : ListenEvent)
    (other : ListenerId) :
    (e.deliver id l event).told other =
      if id = other ∧ l.attached then e.told other ++ [event] else e.told other := by
  unfold deliver told
  by_cases attached : l.attached
  · by_cases same : id = other <;> simp [attached, same]
  · simp [attached]

theorem listeners_deliver (e : Engine) (id : ListenerId) (l : Listener) (event : ListenEvent) :
    (e.deliver id l event).listeners = e.listeners := by
  unfold deliver
  split <;> rfl

/-- Laying a view before one listener concerns the line to it alone. -/
theorem line_inform (e : Engine) (v : View) (flags : Flags) (id other : ListenerId) :
    (e.inform v flags id).line other =
      if id = other then (e.line other).inform v flags else e.line other := by
  unfold inform
  split
  case h_1 absent =>
    split
    case isTrue same => rw [line, ← same, Line.inform, absent]
    case isFalse => rfl
  case h_2 l entered =>
    split
    case h_1 quiet =>
      split
      case isTrue same =>
        rw [line, ← same, Line.inform, entered]
        simp [Listener.after, Listener.news, quiet]
      case isFalse => rfl
    case h_2 snapshot spoken =>
      rw [line, told_deliver, listeners_deliver, ExtTreeMap.getElem?_insert]
      split
      case isTrue same =>
        obtain rfl := LawfulEqOrd.eq_of_compare same
        rw [line, Line.inform, entered]
        by_cases attached : l.attached <;>
          simp [Listener.after, Listener.news, spoken, attached, told]
      case isFalse differs =>
        have differs : id ≠ other := fun same => differs (same ▸ ReflOrd.compare_self)
        simp [differs, line, told]

/-- The last event of one listener concerns the line to it alone. -/
theorem line_endListener (event : ListenEvent) (e : Engine) (id other : ListenerId) :
    (endListener event e id).line other =
      if id = other then (e.line other).finish event else e.line other := by
  unfold endListener
  split
  case h_1 absent =>
    split
    case isTrue same => rw [line, ← same, Line.finish, absent]
    case isFalse => rfl
  case h_2 l entered =>
    rw [line, told_deliver, listeners_deliver, ExtTreeMap.getElem?_erase]
    split
    case isTrue same =>
      obtain rfl := LawfulEqOrd.eq_of_compare same
      rw [line, Line.finish, entered]
      by_cases attached : l.attached <;> simp [attached, told]
    case isFalse differs =>
      have differs : id ≠ other := fun same => differs (same ▸ ReflOrd.compare_self)
      simp [differs, line, told]

/-- A round over different listeners does to each line of the round what one turn does. -/
theorem line_foldl {turn : Engine → ListenerId → Engine} {on : Line → Line}
    (each : ∀ e id other, (turn e id).line other = if id = other then on (e.line other)
      else e.line other) {ids : List ListenerId} (distinct : ids.Nodup) (e : Engine)
    (other : ListenerId) :
    (ids.foldl turn e).line other = if other ∈ ids then on (e.line other) else e.line other := by
  induction ids generalizing e with
  | nil => simp
  | cons id rest ih =>
    obtain ⟨once, distinct⟩ := List.nodup_cons.mp distinct
    rw [List.foldl_cons, ih distinct, each]
    by_cases same : id = other
    · subst same
      simp [once]
    · simp [same, Ne.symm same]

theorem line_dispatch (e : Engine) {id : TargetId} {v : View} (viewed : e.views[id]? = some v)
    (other : ListenerId) :
    (e.dispatch id).line other =
      if other ∈ v.listeners then (e.line other).inform v (e.flagsOf id v) else e.line other := by
  have unfolded : e.dispatch id =
      v.listeners.toList.foldl (Engine.inform · v (e.flagsOf id v)) e := by
    rw [dispatch, viewed]
  rw [unfolded, line_foldl (fun e id other => e.line_inform v _ id other) (nodup_toList _)]
  simp only [ExtTreeSet.mem_toList]

/-- The listeners of a view are told and keep their entries. -/
theorem listeners_dispatch (e : Engine) {id : TargetId} {v : View}
    (viewed : e.views[id]? = some v) (other : ListenerId) :
    (e.dispatch id).listeners[other]? =
      if other ∈ v.listeners then e.listeners[other]?.map (·.after v (e.flagsOf id v))
      else e.listeners[other]? := by
  have entry := congrArg Line.entry (e.line_dispatch viewed other)
  rw [apply_ite Line.entry, Line.entry_inform] at entry
  exact entry

theorem told_dispatch (e : Engine) {id : TargetId} {v : View} (viewed : e.views[id]? = some v)
    (other : ListenerId) :
    (e.dispatch id).told other =
      if other ∈ v.listeners then
        e.told other ++ e.listeners[other]?.elim [] (·.news v (e.flagsOf id v))
      else e.told other := by
  have events := congrArg Line.events (e.line_dispatch viewed other)
  rw [apply_ite Line.events, Line.events_inform] at events
  exact events

theorem line_rejectTarget (e : Engine) {rejection : Rejection} {v : View}
    (viewed : e.views[rejection.target]? = some v) (other : ListenerId) :
    (e.rejectTarget rejection).line other =
      if other ∈ v.listeners then (e.line other).finish (.error rejection.fault)
      else e.line other := by
  unfold rejectTarget
  simp only [viewed]
  rw [line_foldl (line_endListener _) (nodup_toList _)]
  simp only [ExtTreeSet.mem_toList]
  rfl

/-- The listeners of a rejected target lose their entries. -/
theorem listeners_rejectTarget (e : Engine) {rejection : Rejection} {v : View}
    (viewed : e.views[rejection.target]? = some v) (other : ListenerId) :
    (e.rejectTarget rejection).listeners[other]? =
      if other ∈ v.listeners then none else e.listeners[other]? := by
  have entry := congrArg Line.entry (e.line_rejectTarget viewed other)
  rw [apply_ite Line.entry, Line.entry_finish] at entry
  exact entry

theorem told_rejectTarget (e : Engine) {rejection : Rejection} {v : View}
    (viewed : e.views[rejection.target]? = some v) (other : ListenerId) :
    (e.rejectTarget rejection).told other =
      if other ∈ v.listeners then e.told other ++ e.listeners[other]?.elim []
        fun l => if l.attached then [.error rejection.fault] else []
      else e.told other := by
  have events := congrArg Line.events (e.line_rejectTarget viewed other)
  rw [apply_ite Line.events, Line.events_finish] at events
  exact events

/-- Without a view there is nothing but a count to reject. -/
theorem sameBooks_rejectTarget {e : Engine} {rejection : Rejection}
    (unviewed : e.views[rejection.target]? = none) : e.SameBooks (e.rejectTarget rejection) := by
  unfold rejectTarget
  simp only [unviewed]
  apply SameBooks.edit

end Engine

/-- Among the replicas that are held, equal editions stand for equal documents, and all editions
    are older than the next one. -/
structure Editions (held : Replica → Prop) (next : Nat) : Prop where
  older : ∀ r, held r → r.edition < next
  alike : ∀ r s, held r → held s → r.edition = s.edition → r.documents = s.documents

namespace Editions

/-- Fewer replicas and a later edition do no harm. -/
theorem mono {held fewer : Replica → Prop} {next later : Nat} (editions : Editions held next)
    (kept : ∀ r, fewer r → held r) (le : next ≤ later) : Editions fewer later where
  older r here := Nat.lt_of_lt_of_le (editions.older r (kept r here)) le
  alike r s here there := editions.alike r s (kept r here) (kept s there)

/-- A new set of documents gets the next edition, which no replica has. -/
theorem add {held : Replica → Prop} {next : Nat} (editions : Editions held next) {new : Replica}
    (made : new.edition = next) : Editions (fun r => held r ∨ r = new) (next + 1) where
  older r here := by
    rcases here with here | rfl
    · exact Nat.lt_succ_of_lt (editions.older r here)
    · exact Nat.lt_succ_of_le (Nat.le_of_eq made)
  alike r s here there same := by
    rcases here with here | rfl <;> rcases there with there | rfl
    · exact editions.alike r s here there same
    · exact absurd (same.trans made) (Nat.ne_of_lt (editions.older r here))
    · exact absurd (same.symm.trans made) (Nat.ne_of_lt (editions.older s there))
    · rfl

/-- A replica that shares its documents shares the edition. -/
theorem share {held : Replica → Prop} {next : Nat} (editions : Editions held next)
    {old new : Replica} (here : held old) (edition : new.edition = old.edition)
    (documents : new.documents = old.documents) :
    Editions (fun r => held r ∨ r = new) (next + 1) where
  older r here' := by
    rcases here' with here' | rfl
    · exact Nat.lt_succ_of_lt (editions.older r here')
    · exact edition ▸ Nat.lt_succ_of_lt (editions.older old here)
  alike r s here' there same := by
    rcases here' with here' | rfl <;> rcases there with there | rfl
    · exact editions.alike r s here' there same
    · exact documents ▸ editions.alike r old here' here (same.trans edition)
    · exact documents ▸ editions.alike old s here there (edition.symm.trans same)
    · rfl

/-- What is made to be shown shares the server's documents or is new. -/
theorem lay {held : Replica → Prop} {next : Nat} (editions : Editions held next)
    (q : WriteQueue) (t : Target) {server : Replica} (here : held server) :
    Editions (fun r => held r ∨ r = q.shownOver t server next) (next + 1) := by
  have made : ((q.shownOver t server next).edition = server.edition ∧
      (q.shownOver t server next).documents = server.documents) ∨
      (q.shownOver t server next).edition = next := by
    unfold WriteQueue.shownOver
    split
    · exact .inl ⟨rfl, rfl⟩
    · exact .inr rfl
  rcases made with ⟨edition, documents⟩ | edition
  · exact editions.share here edition documents
  · exact editions.add edition

end Editions

namespace Engine

/-- The replicas of the views, and those that listeners were shown last. -/
def Holds (e : Engine) (r : Replica) : Prop :=
  (∃ id v, e.views[(id : TargetId)]? = some v ∧ (r = v.replicas.shown ∨ r = v.replicas.server)) ∨
    ∃ id l flags, e.listeners[(id : ListenerId)]? = some l ∧ l.seen = some (r, flags)

/-- What a view of an engine shows is held. -/
theorem holds_shown {e : Engine} {id : TargetId} {v : View} (viewed : e.views[id]? = some v) :
    e.Holds v.replicas.shown := .inl ⟨id, v, viewed, .inl rfl⟩

theorem holds_server {e : Engine} {id : TargetId} {v : View} (viewed : e.views[id]? = some v) :
    e.Holds v.replicas.server := .inl ⟨id, v, viewed, .inr rfl⟩

/-- Nothing new is held where every view has the replicas of an old one and every listener was
    shown what an old one was shown, if anything. -/
theorem Holds.of_old {e after : Engine} {r : Replica} (holds : after.Holds r)
    (views : ∀ (id : TargetId) v, after.views[id]? = some v →
      ∃ old, e.views[id]? = some old ∧ v.replicas = old.replicas)
    (listeners : ∀ (id : ListenerId) l, after.listeners[id]? = some l →
      l.seen = none ∨ ∃ old, e.listeners[id]? = some old ∧ l.seen = old.seen) : e.Holds r := by
  rcases holds with ⟨id, v, viewed, which⟩ | ⟨id, l, flags, entered, seen⟩
  · obtain ⟨old, viewed, same⟩ := views id v viewed
    rw [same] at which
    exact .inl ⟨id, old, viewed, which⟩
  · rcases listeners id l entered with unseen | ⟨old, entered, same⟩
    · exact nomatch seen.symm.trans unseen
    · exact .inr ⟨id, old, flags, entered, same ▸ seen⟩

/-- A listener that is told holds what the view shows. -/
theorem Holds.of_dispatch {e : Engine} {id : TargetId} {r : Replica}
    (holds : (e.dispatch id).Holds r) : e.Holds r := by
  cases viewed : e.views[id]? with
  | none => rwa [dispatch_of_unviewed viewed] at holds
  | some v =>
    rcases holds with ⟨other, w, seen_there, which⟩ | ⟨other, l, flags, entered, seen⟩
    · exact .inl ⟨other, w, (onlyTells_dispatch e id).views ▸ seen_there, which⟩
    · rw [e.listeners_dispatch viewed] at entered
      split at entered
      case isFalse => exact .inr ⟨other, l, flags, entered, seen⟩
      case isTrue =>
        obtain ⟨old, before, rfl⟩ := Option.map_eq_some_iff.mp entered
        unfold Listener.after at seen
        split at seen
        case isTrue =>
          obtain ⟨rfl, -⟩ := Prod.mk.inj (Option.some.inj seen)
          exact holds_shown viewed
        case isFalse => exact .inr ⟨other, old, flags, before, seen⟩

/-- Editing the replicas of one view adds those of the edited view. -/
theorem Holds.of_modify {e after : Engine} {r : Replica} (holds : after.Holds r) {id : TargetId}
    {f : View → View} {new : Replica} (views : after.views = e.views.modify id f)
    (listeners : after.listeners = e.listeners)
    (edited : ∀ v, e.views[id]? = some v →
      ((f v).replicas.shown = v.replicas.shown ∨ (f v).replicas.shown = new) ∧
        ((f v).replicas.server = v.replicas.server ∨ (f v).replicas.server = new)) :
    e.Holds r ∨ r = new := by
  rcases holds with ⟨other, v, viewed, which⟩ | ⟨other, l, flags, entered, seen⟩
  · rw [views, getElem?_modify_eq_some] at viewed
    obtain ⟨old, viewed, ⟨rfl, rfl⟩ | ⟨-, rfl⟩⟩ := viewed
    · obtain ⟨shown, server⟩ := edited old viewed
      rcases which with rfl | rfl
      · apply shown.imp_left
        intro same
        rw [same]
        exact holds_shown viewed
      · apply server.imp_left
        intro same
        rw [same]
        exact holds_server viewed
    · exact .inl (.inl ⟨other, v, viewed, which⟩)
  · exact .inl (.inr ⟨other, l, flags, listeners ▸ entered, seen⟩)

/-- A rejection uses up no numbers. -/
theorem counters_rejectTarget (e : Engine) (rejection : Rejection) :
    (e.rejectTarget rejection).nextListener = e.nextListener ∧
      (e.rejectTarget rejection).nextEdition = e.nextEdition := by
  unfold rejectTarget
  dsimp only
  split
  case h_1 => exact ⟨rfl, rfl⟩
  case h_2 v _ =>
    have tells := OnlyTells.foldl (onlyTells_endListener (.error rejection.fault))
      v.listeners.toList { e with
        stats := { e.stats with targetsRejected := e.stats.targetsRejected + 1 }
        views := e.views.erase rejection.target }
    exact ⟨tells.nextListener, tells.nextEdition⟩

/-- Telling uses up no edition. -/
theorem editions_dispatch {e : Engine} (editions : Editions e.Holds e.nextEdition)
    (id : TargetId) : Editions (e.dispatch id).Holds (e.dispatch id).nextEdition := by
  rw [(onlyTells_dispatch e id).nextEdition]
  exact editions.mono (fun r holds => holds.of_dispatch) (Nat.le_refl _)

theorem editions_overlay {e : Engine} (editions : Editions e.Holds e.nextEdition) {id : TargetId}
    {v : View} (viewed : e.views[id]? = some v) :
    Editions (e.overlay id v).Holds (e.overlay id v).nextEdition := by
  let shown := e.queue.shownOver v.target v.replicas.server e.nextEdition
  have laid : Editions (fun r => e.Holds r ∨ r = shown) (e.nextEdition + 1) :=
    editions.lay e.queue v.target (holds_server viewed)
  refine laid.mono (fun r holds => ?_) (Nat.le_refl _)
  apply holds.of_modify (insert_eq_modify viewed (·.withShown shown)) rfl
  exact fun old _ => ⟨.inr rfl, .inl rfl⟩

theorem editions_recompute {e : Engine} (editions : Editions e.Holds e.nextEdition)
    (id : TargetId) : Editions (e.recompute id).Holds (e.recompute id).nextEdition := by
  cases viewed : e.views[id]? with
  | none => rwa [recompute_of_unviewed viewed]
  | some v =>
    rw [recompute_of_viewed viewed]
    exact editions_dispatch (editions_overlay editions viewed) id

/-- What is held is held by views and listeners. -/
theorem editions_of_same {e after : Engine} (editions : Editions e.Holds e.nextEdition)
    (views : after.views = e.views) (listeners : after.listeners = e.listeners)
    (next : after.nextEdition = e.nextEdition) : Editions after.Holds after.nextEdition := by
  refine editions.mono (fun r holds => ?_) (Nat.le_of_eq next.symm)
  refine holds.of_old (fun id v viewed => ?_) (fun id l entered => .inr ?_)
  · exact ⟨v, views ▸ viewed, rfl⟩
  · exact ⟨l, listeners ▸ entered, rfl⟩

/-- A new listener was shown nothing. -/
theorem editions_attach {e : Engine} (editions : Editions e.Holds e.nextEdition) (id : TargetId) :
    Editions (e.attach id).2.Holds (e.attach id).2.nextEdition := by
  refine editions.mono (fun r holds => ?_) (Nat.le_refl _)
  refine holds.of_old (fun other v viewed => ?_) (fun other l entered => ?_)
  · obtain ⟨old, before, ⟨rfl, rfl⟩ | ⟨-, rfl⟩⟩ := getElem?_modify_eq_some.mp viewed
    · exact ⟨old, before, rfl⟩
    · exact ⟨v, before, rfl⟩
  · have entered : (e.listeners.insert ⟨e.nextListener⟩ { target := id })[other]? = some l :=
      entered
    rw [ExtTreeMap.getElem?_insert] at entered
    split at entered
    case isTrue => exact .inl (Option.some.inj entered ▸ rfl)
    case isFalse => exact .inr ⟨l, entered, rfl⟩

/-- Equal editions stand for equal documents, whatever the engine went through. -/
theorem Passes.editions {lagging : TargetId → Prop} {e : Engine} (passed : Passes lagging e) :
    Editions e.Holds e.nextEdition := by
  induction passed with
  | @start config store e read =>
    obtain ⟨pending, made⟩ := ofStore_eq read
    have nothing {r : Replica} (holds : e.Holds r) : False := by
      rcases holds with ⟨id, v, viewed, -⟩ | ⟨id, l, flags, entered, -⟩
      · simp [made] at viewed
      · simp [made] at entered
    exact ⟨fun r holds => (nothing holds).elim, fun r s holds => (nothing holds).elim⟩
  | widen _ _ ih => exact ih
  | aside _ same ih => exact editions_of_same ih same.views same.listeners same.nextEdition
  | requeue _ _ _ _ ih => exact ih
  | @absorb _ e _ event id ih =>
    cases viewed : e.views[id]? with
    | none => rwa [absorb_of_unviewed viewed]
    | some v =>
      let server := event.applyTo id v.target.isFiltered v.replicas.server e.nextEdition
      have added : Editions (fun r => e.Holds r ∨ r = server) (e.nextEdition + 1) := ih.add rfl
      rw [absorb_of_viewed viewed]
      refine added.mono (fun r holds => ?_) (Nat.le_refl _)
      apply holds.of_modify (insert_eq_modify viewed (·.withServer server)) rfl
      exact fun old _ => ⟨.inl rfl, .inr rfl⟩
  | recompute _ id ih => exact editions_recompute ih id
  | dispatch _ id ih => exact editions_dispatch ih id
  | @ensureView _ e _ id t ih =>
    rcases ensureView_cases e id t with ⟨-, same⟩ | ⟨-, server, edition, made⟩
    · rwa [same]
    · rw [made]
      refine ((ih.add edition).lay e.queue t (.inr rfl)).mono (fun r holds => ?_) (Nat.le_refl _)
      rcases holds with ⟨other, v, viewed, which⟩ | held
      · rw [ExtTreeMap.getElem?_insert] at viewed
        split at viewed
        case isTrue =>
          obtain rfl := Option.some.inj viewed
          exact which.elim .inr fun here => .inl (.inr here)
        case isFalse => exact .inl (.inl (.inl ⟨other, v, viewed, which⟩))
      · exact .inl (.inl (.inr held))
  | @join _ e _ id _ ih => exact editions_dispatch (editions_attach ih id) id
  | @forget _ e _ listener entry entered ih =>
    refine ih.mono (fun r holds => ?_) (Nat.le_refl _)
    refine holds.of_old (fun other v viewed => ?_) (fun other l there => .inr ?_)
    · obtain ⟨old, before, ⟨rfl, rfl⟩ | ⟨-, rfl⟩⟩ := getElem?_modify_eq_some.mp viewed
      · exact ⟨old, before, rfl⟩
      · exact ⟨v, before, rfl⟩
    · have there : (e.listeners.erase listener)[other]? = some l := there
      rw [ExtTreeMap.getElem?_erase] at there
      split at there
      case isTrue => exact nomatch there
      case isFalse => exact ⟨l, there, rfl⟩
  | @reject _ e _ rejection ih =>
    rw [(counters_rejectTarget e rejection).2]
    refine ih.mono (fun r holds => ?_) (Nat.le_refl _)
    refine holds.of_old (fun other v viewed => ?_) (fun other l entered => .inr ?_)
    · rw [views_rejectTarget, ExtTreeMap.getElem?_erase] at viewed
      split at viewed
      case isTrue => exact nomatch viewed
      case isFalse => exact ⟨v, viewed, rfl⟩
    · refine ⟨l, ?_, rfl⟩
      cases viewed : e.views[rejection.target]? with
      | none => exact (sameBooks_rejectTarget viewed).listeners ▸ entered
      | some v =>
        rw [e.listeners_rejectTarget viewed] at entered
        split at entered
        case isTrue => exact nomatch entered
        case isFalse => exact entered
  | @prune _ e _ ih =>
    refine ih.mono (fun r holds => ?_) (Nat.le_refl _)
    refine holds.of_old (fun other v viewed => ?_) (fun other l entered => .inr ?_)
    · rw [Engine.prune, ExtTreeMap.getElem?_filter', Option.filter_eq_some_iff] at viewed
      exact ⟨v, viewed.1, rfl⟩
    · exact ⟨l, entered, rfl⟩
  | @detach _ e _ id ih =>
    refine ih.mono (fun r holds => ?_) (Nat.le_refl _)
    refine holds.of_old (fun other v viewed => ⟨v, viewed, rfl⟩) (fun other l entered => .inr ?_)
    obtain ⟨old, before, ⟨rfl, rfl⟩ | ⟨-, rfl⟩⟩ := getElem?_modify_eq_some.mp entered
    · exact ⟨old, before, rfl⟩
    · exact ⟨l, before, rfl⟩

end Engine

end LiveQuery
