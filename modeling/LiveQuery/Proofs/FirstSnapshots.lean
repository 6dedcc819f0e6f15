import LiveQuery.Proofs.FreshSnapshots
import LiveQuery.Proofs.UnservedTargets
import Mathlib.Data.List.Nodup

/-!
# The first snapshot of a target

An addition without anything to resume from is accepted: what was known of the
target counts no more, and the server sends its documents one by one and then says
that they are all. Only the next snapshot lets them take effect. Whoever waited and
saw nothing before is shown exactly these documents, all of them as added.
-/

namespace LiveQuery

open Std

/-- A set that is made from documents with different keys lists them, in some order. -/
theorem Documents.list_ofList_perm {documents : List Document}
    (distinct : (documents.map (·.key)).Nodup) : (ofList documents).list.Perm documents := by
  have keyed := keyed_ofList documents
  refine (List.perm_ext_iff_of_nodup (List.Nodup.of_map _ keyed.nodup_list)
    (List.Nodup.of_map _ distinct)).mpr fun d => ?_
  rw [mem_list keyed]
  constructor
  · exact mem_of_ofList
  · intro member
    refine ExtTreeMap.getElem?_ofList_of_mem ReflOrd.compare_self (apart_of_nodup distinct) ?_
    exact List.mem_map_of_mem member

/-- What the server sends once it has accepted a request to add: documents, the word that they are
    all, and a snapshot. -/
structure Delivery where
  documents : List Document := []
  token : ResumeToken := ⟨[]⟩
  version : Version := .start

namespace Delivery

/-- The documents belong to the target, and no two of them have the same key. -/
structure Fits (delivery : Delivery) (t : Target) : Prop where
  selected : ∀ d ∈ delivery.documents, t.selects d = true
  distinct : (delivery.documents.map (·.key)).Nodup

/-- The documents exist. -/
theorem Fits.present {delivery : Delivery} {t : Target} (fits : delivery.Fits t) :
    ∀ d ∈ delivery.documents, d.isPresent = true :=
  fun d member => (Bool.and_eq_true_iff.mp (fits.selected d member)).1

/-- The reports on a target up to the snapshot. -/
def contents (delivery : Delivery) (id : TargetId) : List WatchChange :=
  delivery.documents.map (.documentChanged · [id] []) ++ [.current id delivery.token]

/-- What these reports add to what is collected, if the target is active. -/
def collect (delivery : Delivery) (id : TargetId) (e : RemoteEvent) : RemoteEvent :=
  (delivery.documents.foldl (·.addDocument id ·) e).markCurrent id (some delivery.token)

end Delivery

/-- A snapshot that shows all of some documents to somebody who saw nothing before. Without local
    writes among them it is fresh. -/
structure ViewSnapshot.Introduces (s : ViewSnapshot) (t : Target) (documents : List Document) :
    Prop where
  target : s.target = t
  held : s.documents.Perm documents
  changes : s.changes = s.documents.map (⟨.added, ·⟩)
  flags : s.flags =
    ⟨documents.any (·.hasLocalWrites), documents.any (·.hasLocalWrites)⟩

/-- Whoever saw nothing before gets the whole result of a view that is shown. -/
theorem Listener.news_of_unseen {l : Listener} (unseen : l.seen = none)
    (attached : l.attached = true) {v : View} (complete : v.replicas.shown.initialized = true)
    (flags : Flags) :
    l.news v flags = [.ok ⟨v.target, v.target.sorted v.result,
      (v.target.sorted v.result).map (⟨.added, ·⟩), flags⟩] := by
  have baseline : l.baseline v.target = ∅ := by rw [Listener.baseline, unseen, Option.elim_none]
  have next : l.next? v flags = some ⟨v.target, v.target.sorted v.result,
      (v.target.sorted v.result).map (⟨.added, ·⟩), flags⟩ := by
    simp [Listener.next?, Listener.hasSeen, unseen, complete, baseline,
      Target.changes_from_nothing]
  simp [Listener.news, attached, next]

namespace Subscriptions

/-- An active target that is current already, or that is among those to be marked as current, is
    current once they are marked. -/
theorem isCurrent_foldl {s : Subscriptions} (numbered : s.Numbered) {id : TargetId}
    (active : s.isActive id = true) (version : Version) (changes : List (TargetId × TargetChange))
    (named : s.isCurrent id = true ∨ ∃ change, (id, change) ∈ changes ∧ change.current = true) :
    (changes.foldl (fun subs (id, change) =>
      if change.current then subs.markCurrent id change.token version else subs) s).isCurrent id =
      true := by
  induction changes generalizing s with
  | nil => exact named.resolve_right (by simp)
  | cons first rest ih =>
    obtain ⟨other, change⟩ := first
    obtain ⟨sub, entered, active'⟩ := (s.isActive_iff id).mp active
    rw [List.foldl_cons]
    dsimp only
    split
    case isFalse incomplete =>
      refine ih numbered active (named.imp_right fun ⟨own, member, complete⟩ => ⟨own, ?_, complete⟩)
      refine (List.mem_cons.mp member).resolve_left fun same => incomplete ?_
      rwa [(Prod.mk.inj same).2] at complete
    case isTrue =>
      have edited := edited_markCurrent numbered other change.token version
      have stamped : s.Stamped (fun _ => True) (s.markCurrent other change.token version) :=
        stamped_markCurrent numbered trivial change.token version
      have numbered' := numbered.stamped stamped
      by_cases same : other = id
      case pos =>
        subst same
        have there : (s.markCurrent other change.token version).table[other]? =
            some { sub with current := true, version, token := change.token.or sub.token } := by
          rw [edited.table, if_pos rfl, entered, Option.map_some, marked, if_pos active']
        refine ih numbered' ((isActive_iff _ other).mpr ⟨_, there, active'⟩) (.inl ?_)
        exact (isCurrent_iff _ other).mpr ⟨_, there, rfl⟩
      case neg =>
        have there : (s.markCurrent other change.token version).table[id]? = some sub := by
          rw [edited.table, if_neg same, entered]
        refine ih numbered' ((isActive_iff _ id).mpr ⟨sub, there, active'⟩) ?_
        refine named.imp (fun current => ?_) fun ⟨own, member, complete⟩ => ⟨own, ?_, complete⟩
        · obtain ⟨before, again, current⟩ := (isCurrent_iff s id).mp current
          obtain rfl := Option.some.inj (entered.symm.trans again)
          exact (isCurrent_iff _ id).mpr ⟨_, there, current⟩
        · exact (List.mem_cons.mp member).resolve_left fun here =>
            same (Prod.mk.inj here).1.symm

end Subscriptions

namespace RemoteEvent

/-- An event that says of a target that some documents are all it has. -/
structure Introduces (e : RemoteEvent) (id : TargetId) (documents : Documents) : Prop where
  reset : id ∈ e.resets
  complete : ∃ change, e.changes[id]? = some change ∧ change.current = true ∧
    ∀ key, key ∈ change.added ↔ key ∈ documents
  updates : e.updates = documents

/-- Documents of a target that are collected one after the other are all added. -/
theorem foldl_addDocument (id : TargetId) (documents : List Document) (e : RemoteEvent) :
    let after := documents.foldl (·.addDocument id ·) e
    after.resets = e.resets ∧
      after.updates = e.updates.insertMany (documents.map fun d => (d.key, d)) ∧
      ∀ key, key ∈ (after.changes.getD id {}).added ↔
        key ∈ (e.changes.getD id {}).added ∨ ∃ d ∈ documents, d.key = key := by
  induction documents generalizing e with
  | nil => simp
  | cons d rest ih =>
    obtain ⟨resets, updates, added⟩ := ih (e.addDocument id d)
    refine ⟨resets, ?_, fun key => ?_⟩
    · rw [List.map_cons, ExtTreeMap.insertMany_cons]
      exact updates
    · have first : key ∈ ((e.addDocument id d).changes.getD id {}).added ↔
          d.key = key ∨ key ∈ (e.changes.getD id {}).added := by
        simp [addDocument, edit, TargetChange.add]
      rw [List.foldl_cons, added, first, or_comm (a := d.key = key), or_assoc]
      simp

/-- A reset target whose documents are collected and which is then said to be complete has just
    these documents. -/
theorem introduces_collect (delivery : Delivery) (id : TargetId) :
    (delivery.collect id (({} : RemoteEvent).reset id)).Introduces id
      (.ofList delivery.documents) := by
  obtain ⟨resets, updates, added⟩ :=
    foldl_addDocument id delivery.documents (({} : RemoteEvent).reset id)
  constructor
  case reset =>
    change id ∈ (delivery.documents.foldl (·.addDocument id ·) (({} : RemoteEvent).reset id)).resets
    rw [resets]
    exact ExtTreeSet.mem_insert_self
  case complete =>
    refine ⟨_, ExtTreeMap.getElem?_insert_self, rfl, fun key => (added key).trans ?_⟩
    have nothing : key ∉ ((({} : RemoteEvent).reset id).changes.getD id {}).added := by
      simp [reset]
    rw [or_iff_right nothing, Documents.ofList, ExtTreeMap.mem_ofList]
    simp
  case updates =>
    rw [Documents.ofList, ExtTreeMap.ofList_eq_insertMany_empty]
    exact updates

/-- What is only about the targets that count is still about one that does. -/
theorem Introduces.restrict {e : RemoteEvent} {id : TargetId} {documents : Documents}
    (introduces : e.Introduces id documents) {keep : TargetId → Bool} (kept : keep id = true)
    (version : Version) : Introduces { e.restrict keep with version } id documents := by
  obtain ⟨change, here, complete⟩ := introduces.complete
  refine ⟨ExtTreeSet.mem_filter.mpr ⟨introduces.reset, ?_⟩, ⟨change, ?_, complete⟩,
    introduces.updates⟩
  · simpa using kept
  · change (e.changes.filter fun id _ => keep id)[id]? = some change
    rw [ExtTreeMap.getElem?_filter', here]
    simp [Option.filter, kept]

/-- Whatever the server's replica was, it then holds these documents and is complete. -/
theorem Introduces.applyTo {e : RemoteEvent} {id : TargetId} {documents : Documents}
    (introduces : e.Introduces id documents) (filtered : Bool) (server : Replica) (edition : Nat) :
    (e.applyTo id filtered server edition).documents = documents ∧
      (e.applyTo id filtered server edition).initialized = true := by
  obtain ⟨change, here, complete, added⟩ := introduces.complete
  have reset : e.resets.contains id = true := introduces.reset
  constructor
  · apply ExtTreeMap.ext_getElem?
    intro key
    refine (e.getElem?_documentsAfter id server.documents key).trans ?_
    simp only [stateAfter, stateUnder, updated, here, reset, introduces.updates, if_true,
      ExtTreeSet.mem_toList, added]
    cases found : documents[key]? with
    | none => simp [mem_iff_entry, found]
    | some d => simp [mem_iff_entry, found]
  · simp [RemoteEvent.applyTo, initializedAfter, here, complete]

end RemoteEvent

namespace WatchStream

variable {s : WatchStream}

/-- Documents that exist are collected for the target that they are sent for, if it is active. -/
theorem collectDocument_single {id : TargetId} {d : Document} (present : d.isPresent = true) :
    s.collectDocument d [id] [] =
      if s.subscriptions.isActive id then s.collected.addDocument id d else s.collected := by
  by_cases active : s.subscriptions.isActive id = true <;>
    simp [collectDocument, collectUpdate, active, present]

/-- A snapshot makes an active target current if it was said to be complete. -/
theorem isCurrent_flush (sound : s.Sound) {id : TargetId}
    (active : s.subscriptions.isActive id = true) {change : TargetChange}
    (here : s.collected.changes[id]? = some change) (complete : change.current = true)
    (version : Version) : (s.flush version).2.subscriptions.isCurrent id = true := by
  refine Subscriptions.isCurrent_foldl sound.numbered active version _ (.inr ⟨change, ?_, complete⟩)
  refine ExtTreeMap.mem_toList_iff_getElem?_eq_some.mpr ?_
  change (s.collected.changes.filter fun id _ => s.subscriptions.isActive id)[id]? = some change
  rw [ExtTreeMap.getElem?_filter', here]
  simp [Option.filter, active]

/-- A snapshot asks for nothing. -/
theorem outbox_flush (s : WatchStream) (version : Version) :
    (s.flush version).2.subscriptions.outbox = s.subscriptions.outbox := by
  have marking (changes : List (TargetId × TargetChange)) (subs : Subscriptions) :
      (changes.foldl (fun subs (id, change) =>
        if change.current then subs.markCurrent id change.token version else subs) subs).outbox =
        subs.outbox := by
    induction changes generalizing subs with
    | nil => rfl
    | cons first rest ih =>
      rw [List.foldl_cons, ih]
      dsimp only
      split
      case isTrue =>
        unfold Subscriptions.markCurrent
        split
        · rfl
        · split <;> rfl
      case isFalse => rfl
  exact marking _ s.subscriptions

end WatchStream

/-- Where the server's replica is shown as it is and holds nothing but some documents that the
    target selects, these are the result. -/
theorem View.result_of_selected {v : View} {documents : List Document}
    (shown : v.replicas.shown.documents = .ofList documents)
    (initialized : v.replicas.shown.initialized = true)
    (selected : ∀ d ∈ documents, v.target.selects d = true) : v.result = .ofList documents := by
  have keyed := Documents.keyed_ofList documents
  have whole : (Documents.ofList documents).list.filter v.target.selects =
      (Documents.ofList documents).list := by
    rw [List.filter_eq_self]
    intro d member
    exact selected d (Documents.mem_of_ofList ((Documents.mem_list keyed).mp member))
  rw [View.result, Replica.result, if_pos initialized, shown, whole]
  exact keyed.ofList_perm (.refl _)

namespace Engine

theorem Reachable.receive {e : Engine} (reached : e.Reachable) (change : WatchChange) :
    (e.receive change).Reachable :=
  reached.perform (.handle (.watch change) .zero)

/-- What reports lead to is reached. -/
theorem Reachable.foldl_receive {e : Engine} (reached : e.Reachable) (changes : List WatchChange) :
    (changes.foldl Engine.receive e).Reachable :=
  List.foldlRecOn changes Engine.receive reached fun _ reached change _ => reached.receive change

/-- The engine with other reports waiting for their snapshot. -/
def collecting (e : Engine) (collected : RemoteEvent) : Engine :=
  { e with stream := { e.stream with collected } }

section Reports

variable {e : Engine} {id : TargetId}

theorem prune_collecting (kept : e.prune = e) (collected : RemoteEvent) :
    (e.collecting collected).prune = e.collecting collected := by
  have views : (e.views.filter fun id v =>
      !v.listeners.isEmpty || e.stream.subscriptions.contains id) = e.views :=
    congrArg Engine.views kept
  unfold prune collecting
  rw [views]

/-- A report that only waits for its snapshot changes nothing else. -/
theorem receive_collected (opened : e.stream.state = .opened) (kept : e.prune = e)
    {change : WatchChange} {collected : RemoteEvent}
    (taken : e.stream.receive change = ({ e.stream with collected }, .ok .collected)) :
    e.receive change = e.collecting collected := by
  rw [receive_eq opened, taken]
  exact prune_collecting kept collected

/-- Documents that exist wait for their snapshot if their target is active, and otherwise say
    nothing. -/
theorem receive_documents (id : TargetId) (opened : e.stream.state = .opened) (kept : e.prune = e)
    {documents : List Document} (present : ∀ d ∈ documents, d.isPresent = true) :
    (documents.map (.documentChanged · [id] [])).foldl receive e =
      e.collecting (if e.stream.subscriptions.isActive id then
        documents.foldl (·.addDocument id ·) e.stream.collected else e.stream.collected) := by
  induction documents generalizing e with
  | nil =>
    rw [List.foldl_nil, ite_self]
    rfl
  | cons d rest ih =>
    obtain ⟨here, others⟩ := List.forall_mem_cons.mp present
    let collected := if e.stream.subscriptions.isActive id then e.stream.collected.addDocument id d
      else e.stream.collected
    have taken : e.receive (.documentChanged d [id] []) = e.collecting collected := by
      refine receive_collected opened kept ?_
      rw [WatchStream.receive, if_neg (not_not_intro opened)]
      exact congrArg (fun collected => ({ e.stream with collected }, _))
        (WatchStream.collectDocument_single here)
    rw [List.map_cons, List.foldl_cons, taken]
    refine (ih (e := e.collecting collected) opened (prune_collecting kept _) others).trans ?_
    by_cases active : e.stream.subscriptions.isActive id = true <;>
      simp [collected, collecting, active]

/-- So does the word that these are all. -/
theorem receive_current (opened : e.stream.state = .opened) (kept : e.prune = e)
    (known : e.stream.subscriptions.contains id = true) (token : ResumeToken) :
    e.receive (.current id token) =
      e.collecting (if e.stream.subscriptions.isActive id then
        e.stream.collected.markCurrent id (some token) else e.stream.collected) := by
  refine receive_collected opened kept ?_
  rw [WatchStream.receive, if_neg (not_not_intro opened)]
  by_cases active : e.stream.subscriptions.isActive id = true <;> simp [known, active]

/-- The contents of a known target wait for their snapshot if the target is active, and otherwise
    say nothing. -/
theorem receive_contents (opened : e.stream.state = .opened) (kept : e.prune = e)
    (known : e.stream.subscriptions.contains id = true) {delivery : Delivery} {t : Target}
    (fits : delivery.Fits t) :
    (delivery.contents id).foldl receive e =
      e.collecting (if e.stream.subscriptions.isActive id then
        delivery.collect id e.stream.collected else e.stream.collected) := by
  rw [Delivery.contents, List.foldl_append, receive_documents id opened kept fits.present]
  refine (receive_current (e := e.collecting (if e.stream.subscriptions.isActive id then
    delivery.documents.foldl (·.addDocument id ·) e.stream.collected else e.stream.collected))
    opened (prune_collecting kept _) known delivery.token).trans ?_
  by_cases active : e.stream.subscriptions.isActive id = true <;>
    simp [collecting, active, Delivery.collect]

/-- A listener that saw nothing before and is laid a view that is shown gets its whole result. -/
theorem told_of_unseen {after : Engine} {x : ListenerId} {l : Listener} {v : View} {flags : Flags}
    (line : after.line x = (e.line x).inform v flags) (entered : e.listeners[x]? = some l)
    (unseen : l.seen = none) (attached : l.attached = true)
    (complete : v.replicas.shown.initialized = true) :
    x ∈ after.listeners ∧ after.told x = e.told x ++ [.ok ⟨v.target, v.target.sorted v.result,
      (v.target.sorted v.result).map (⟨.added, ·⟩), flags⟩] := by
  have entered : (e.line x).entry = some l := entered
  constructor
  · have entry : after.listeners[x]? = (e.line x).entry.map (·.after v flags) :=
      (congrArg Line.entry line).trans (Line.entry_inform v flags _)
    rw [entered] at entry
    exact mem_iff_entry.mpr ⟨_, entry⟩
  · have events := (congrArg Line.events line).trans (Line.events_inform v flags _)
    rwa [entered, Option.elim_some, Listener.news_of_unseen unseen attached complete] at events

/-- Once a snapshot is applied that introduces the documents of a target, they are the result of its
    view. -/
theorem result_applyRemote {after : Engine} {event : RemoteEvent} {v : View}
    {documents : List Document} (settled : e.Settled) (idle : e.queue.entries = [])
    (applied : e.applyRemote event = .ok after)
    (introduces : event.Introduces id (.ofList documents))
    (viewed : e.views[id]? = some v) (selected : ∀ d ∈ documents, v.target.selects d = true) :
    after.queue.entries = [] ∧ ∃ w, after.views[id]? = some w ∧ w.target = v.target ∧
      w.replicas.shown.initialized = true ∧ w.result = .ofList documents := by
  have queue : after.queue.entries = [] := by
    rw [queue_applyRemote applied]
    simp [WriteQueue.release, idle]
  have mentioned : id ∈ event.affected.toList :=
    ExtTreeSet.mem_toList.mpr (RemoteEvent.mem_affected.mpr (.inr introduces.reset))
  obtain ⟨edition, shown, views⟩ := views_applyRemote applied id
  rw [viewed, Option.map_some, if_pos mentioned] at views
  have shows := (settled.applyRemote applied).shows views fun impossible => impossible
  obtain ⟨same, initialized⟩ := shows.of_idle queue
  obtain ⟨held, complete⟩ :=
    introduces.applyTo v.target.isFiltered v.replicas.server edition
  have whole : shown.initialized = true := initialized.trans complete
  exact ⟨queue, _, views, rfl, whole, View.result_of_selected (same.trans held) whole selected⟩

/-- A snapshot is applied if every target that counts has a view. -/
theorem receive_snapshot (opened : e.stream.state = .opened) (version : Version)
    (viewed : ∀ other, e.stream.subscriptions.isActive other = true → other ∈ e.views) :
    ∃ after, ({ e with stream := (e.stream.flush version).2 } : Engine).applyRemote
        (e.stream.flush version).1 = .ok after ∧
      e.receive (.snapshot version) = after.prune := by
  have counts {other : TargetId} (affected : other ∈ (e.stream.flush version).1.affected) :
      e.stream.subscriptions.isActive other = true := by
    rcases RemoteEvent.mem_affected.mp affected with changed | reset
    · have changed : other ∈ e.stream.collected.changes.filter fun id _ =>
          e.stream.subscriptions.isActive id := changed
      obtain ⟨change, found⟩ := mem_iff_entry.mp changed
      rw [ExtTreeMap.getElem?_filter'] at found
      exact (Option.filter_eq_some_iff.mp found).2
    · obtain ⟨_, kept⟩ := ExtTreeSet.mem_filter.mp reset
      simpa using kept
  have complete : viewless? { e with stream := (e.stream.flush version).2 }
      (e.stream.flush version).1 = none := by
    refine List.find?_eq_none.mpr fun other affected => ?_
    have known := viewed other (counts (ExtTreeSet.mem_toList.mp affected))
    simp [ExtTreeMap.mem_iff_contains.mp known]
  obtain ⟨after, applied⟩ : ∃ after, ({ e with stream := (e.stream.flush version).2 } :
      Engine).applyRemote (e.stream.flush version).1 = .ok after := by
    unfold applyRemote
    rw [complete]
    exact ⟨_, rfl⟩
  refine ⟨after, applied, ?_⟩
  rw [receive_eq opened, WatchStream.receive_snapshot opened]
  dsimp only
  rw [applied]

/-- The snapshot after which the documents of a target take effect: they are shown to everybody who
    waited, and nothing else happens. -/
theorem receive_first_snapshot {v : View} {delivery : Delivery} (reached : e.Reachable)
    (opened : e.stream.state = .opened) (idle : e.queue.entries = [])
    (viewed : e.views[id]? = some v)
    (alone : ∀ other, e.stream.subscriptions.isActive other = true ↔ other = id)
    (introduces : e.stream.collected.Introduces id (.ofList delivery.documents))
    (fits : delivery.Fits v.target) :
    let after := e.receive (.snapshot delivery.version)
    (after.stats.resyncs = e.stats.resyncs ∧ after.restartRequested = e.restartRequested) ∧
      after.queue.entries = [] ∧
      after.stream.subscriptions.outbox = e.stream.subscriptions.outbox ∧
      (∀ x, e.listeners[x]? = none → after.told x = e.told x) ∧
      ∀ x l, e.listeners[x]? = some l → l.target = id → l.seen = none → l.attached = true →
        x ∈ after.listeners ∧
          ∃ s, after.told x = e.told x ++ [.ok s] ∧
            s.Introduces v.target delivery.documents := by
  obtain ⟨past, history⟩ := reached.history
  let version := delivery.version
  have active : e.stream.subscriptions.isActive id = true := (alone id).mpr rfl
  have introduced : (e.stream.flush version).1.Introduces id (.ofList delivery.documents) :=
    introduces.restrict active version
  obtain ⟨after, applied, received⟩ := receive_snapshot opened version fun other counts => by
    obtain rfl := (alone other).mp counts
    exact mem_iff_entry.mpr ⟨v, viewed⟩
  have settled : Settled { e with stream := (e.stream.flush version).2 } :=
    reached.settled.aside (.edit ..)
  obtain ⟨queue, w, there, target, complete, result⟩ :=
    result_applyRemote settled idle applied introduced viewed fits.selected
  have calm := resyncs_applyRemote applied
  have stream := stream_applyRemote applied
  have current : after.stream.subscriptions.isCurrent id = true := by
    obtain ⟨change, collected, marked, -⟩ := introduces.complete
    rw [stream]
    exact WatchStream.isCurrent_flush history.sound active collected marked version
  rw [received]
  refine ⟨calm, queue, ?_, fun x absent => ?_, fun x l entered own unseen attached => ?_⟩
  · change after.stream.subscriptions.outbox = _
    rw [stream]
    exact e.stream.outbox_flush version
  · exact congrArg Line.events ((silent_applyRemote applied).line absent)
  · subst own
    obtain ⟨_, here⟩ := settled.informed.placed entered
    have spoken : Spoken _ after x l.target :=
      (course_applyRemote applied here).resolve_right fun spared =>
        spared.2 (RemoteEvent.mem_affected.mpr (.inr introduced.reset))
    obtain ⟨_, again, line⟩ := spoken
    obtain rfl := Option.some.inj (there.symm.trans again.viewed)
    obtain ⟨stays, told⟩ := told_of_unseen line entered unseen attached complete
    refine ⟨stays, _, told, ⟨target, ?_, rfl, ?_⟩⟩
    · rw [result]
      exact (perm_sortBy _ _).trans (Documents.list_ofList_perm fits.distinct)
    · dsimp only
      rw [flagsOf, current, View.flags, result,
        (Documents.list_ofList_perm fits.distinct).any_eq, Bool.not_true, Bool.or_false]

end Reports

end Engine

end LiveQuery
