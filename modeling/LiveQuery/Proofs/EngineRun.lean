import LiveQuery.Engine.Action
import LiveQuery.Proofs.QueuedWrites
import LiveQuery.Proofs.Tables

/-!
# Runs of the engine

A run starts from any store that can be read. After that any calls come in any
order, listeners give up their ends of the line, and the store answers as it
likes.

Every call is a sequence of a few steps. On the way some views lag behind: the
queue or the server's replica has moved on, and what the views show has not been
made anew yet. A step that moves something says which views lag from then on,
and making a view anew takes it off. Each call begins and ends with no view
lagging, so a law of the engine needs one case for each step and none for the
calls.
-/

namespace LiveQuery

open Std

namespace View

/-- The view with another replica of the server. -/
def withServer (v : View) (server : Replica) : View :=
  { v with replicas := { v.replicas with server } }

/-- The view with another replica to be shown. -/
def withShown (v : View) (shown : Replica) : View :=
  { v with replicas := { v.replicas with shown } }

end View

namespace Engine

/-- The engines that come about. -/
inductive Reachable : Engine → Prop
  | start {config : Config} {store : Store} {e : Engine} (read : ofStore config store = .ok e) :
    Reachable e
  | perform {e : Engine} (reached : Reachable e) (action : Action) :
    Reachable (e.perform action).2
  | detach {e : Engine} (reached : Reachable e) (id : ListenerId) : Reachable (e.detach id)
  | restock {e : Engine} (reached : Reachable e) (store : Store) : Reachable { e with store }

/-- What is reached by calls is reached. -/
theorem Reachable.run {e : Engine} (reached : e.Reachable) (actions : List Action) :
    (e.run actions).Reachable := by
  induction actions generalizing e with
  | nil => exact reached
  | cons action rest ih => exact ih (reached.perform action)

/-- An engine over an empty store. -/
def blank : Engine where
  config := {}
  store := {}
  stream := .ofConfig .standard
  queue := .ofBatches []

theorem reachable_blank : blank.Reachable :=
  have read : ofStore {} {} = .ok blank := rfl
  .start read

/-- Two engines have the same views, the same listeners and the same queue, and have told the same.
    They may differ in everything else. -/
structure SameBooks (e after : Engine) : Prop where
  views : after.views = e.views
  listeners : after.listeners = e.listeners
  nextListener : after.nextListener = e.nextListener
  queue : after.queue = e.queue
  nextEdition : after.nextEdition = e.nextEdition
  deliveries : after.deliveries = e.deliveries

/-- No edit of anything else touches the books. -/
theorem SameBooks.edit (e : Engine) (config : Config) (store : Store) (stream : WatchStream)
    (awaited : ExtTreeSet BatchId) (lastSnapshot : Version) (enabled restartRequested : Bool)
    (stats : Stats) (decisions : List (BatchId × WriteOutcome)) :
    e.SameBooks { e with
      config, store, stream, awaited, lastSnapshot
      enabled, restartRequested, stats, decisions } :=
  ⟨rfl, rfl, rfl, rfl, rfl, rfl⟩

/-- Storing a view touches the store alone. -/
theorem sameBooks_saveView (e : Engine) (id : TargetId) : e.SameBooks (e.saveView id) := by
  unfold saveView
  split
  · apply SameBooks.edit
  · split <;> apply SameBooks.edit

/-- A decision is told to submitters, not to listeners. -/
theorem sameBooks_decide (e : Engine) (id : BatchId) (outcome : WriteOutcome) :
    e.SameBooks (e.decide id outcome) := by
  unfold decide
  dsimp only
  split <;> apply SameBooks.edit

/-- At most what listeners were told and what is noted of them differs. -/
structure OnlyTells (e after : Engine) : Prop where
  views : after.views = e.views
  queue : after.queue = e.queue
  nextListener : after.nextListener = e.nextListener
  nextEdition : after.nextEdition = e.nextEdition

theorem OnlyTells.refl (e : Engine) : e.OnlyTells e := ⟨rfl, rfl, rfl, rfl⟩

theorem OnlyTells.trans {e middle after : Engine} (first : e.OnlyTells middle)
    (second : middle.OnlyTells after) : e.OnlyTells after where
  views := second.views.trans first.views
  queue := second.queue.trans first.queue
  nextListener := second.nextListener.trans first.nextListener
  nextEdition := second.nextEdition.trans first.nextEdition

/-- Telling one after the other is telling. -/
theorem OnlyTells.foldl {α : Type} {tell : Engine → α → Engine}
    (each : ∀ (e : Engine) a, e.OnlyTells (tell e a)) (steps : List α) (e : Engine) :
    e.OnlyTells (steps.foldl tell e) := by
  induction steps generalizing e with
  | nil => exact .refl e
  | cons a rest ih => exact (each e a).trans (ih (tell e a))

theorem onlyTells_deliver (e : Engine) (id : ListenerId) (listener : Listener)
    (event : ListenEvent) : e.OnlyTells (e.deliver id listener event) := by
  unfold deliver
  split <;> exact ⟨rfl, rfl, rfl, rfl⟩

theorem onlyTells_inform (e : Engine) (v : View) (flags : Flags) (id : ListenerId) :
    e.OnlyTells (e.inform v flags id) := by
  unfold inform
  split
  case h_1 => exact .refl e
  case h_2 =>
    split
    case h_1 => exact .refl e
    case h_2 =>
      refine OnlyTells.trans ?_ (onlyTells_deliver _ _ _ _)
      exact ⟨rfl, rfl, rfl, rfl⟩

theorem onlyTells_dispatch (e : Engine) (id : TargetId) : e.OnlyTells (e.dispatch id) := by
  unfold dispatch
  split
  · exact .refl e
  · exact .foldl (fun e id => onlyTells_inform e _ _ id) _ e

theorem onlyTells_endListener (event : ListenEvent) (e : Engine) (id : ListenerId) :
    e.OnlyTells (endListener event e id) := by
  unfold endListener
  split
  · exact .refl e
  · refine OnlyTells.trans ?_ (onlyTells_deliver _ _ _ _)
    exact ⟨rfl, rfl, rfl, rfl⟩

theorem dispatch_of_unviewed {e : Engine} {id : TargetId} (unviewed : e.views[id]? = none) :
    e.dispatch id = e := by
  rw [dispatch, unviewed]

theorem absorb_of_unviewed {e : Engine} {id : TargetId} (unviewed : e.views[id]? = none)
    (event : RemoteEvent) : absorb event e id = e := by
  rw [absorb, unviewed]

theorem absorb_of_viewed {e : Engine} {id : TargetId} {v : View} (viewed : e.views[id]? = some v)
    (event : RemoteEvent) :
    absorb event e id = e.setServer id v
      (event.applyTo id v.target.isFiltered v.replicas.server e.nextEdition) := by
  rw [absorb, viewed]

theorem recompute_of_unviewed {e : Engine} {id : TargetId} (unviewed : e.views[id]? = none) :
    e.recompute id = e := by
  rw [recompute, unviewed]

theorem recompute_of_viewed {e : Engine} {id : TargetId} {v : View}
    (viewed : e.views[id]? = some v) : e.recompute id = (e.overlay id v).dispatch id := by
  rw [recompute, viewed]

/-- Taking in a snapshot edits one view, and of it the server's replica only. -/
theorem views_absorb (event : RemoteEvent) (e : Engine) (id : TargetId) :
    (absorb event e id).views = e.views.modify id fun v =>
      v.withServer (event.applyTo id v.target.isFiltered v.replicas.server e.nextEdition) := by
  cases viewed : e.views[id]? with
  | none => rw [absorb_of_unviewed viewed, modify_of_absent viewed]
  | some v =>
    rw [absorb_of_viewed viewed, ← insert_eq_modify viewed]
    rfl

/-- Making a view anew edits this view, and of it the shown replica only. -/
theorem views_recompute (e : Engine) (id : TargetId) :
    (e.recompute id).views = e.views.modify id fun v =>
      v.withShown (e.queue.shownOver v.target v.replicas.server e.nextEdition) := by
  cases viewed : e.views[id]? with
  | none => rw [recompute_of_unviewed viewed, modify_of_absent viewed]
  | some v =>
    rw [recompute_of_viewed viewed, (onlyTells_dispatch _ id).views, ← insert_eq_modify viewed]
    rfl

/-- A view is made only where there is none. It shows the queued writes from the start, and nobody
    listens to it yet. -/
theorem ensureView_cases (e : Engine) (id : TargetId) (t : Target) :
    (id ∈ e.views ∧ e.ensureView id t = e) ∨
      e.views[id]? = none ∧ ∃ server : Replica, server.edition = e.nextEdition ∧
        e.ensureView id t = { e with
          nextEdition := e.nextEdition + 1 + 1
          views := e.views.insert id
            ⟨t, ⟨e.queue.shownOver t server (e.nextEdition + 1), server⟩, ∅⟩ } := by
  unfold ensureView
  split
  case isTrue viewed => exact .inl ⟨ExtTreeMap.mem_iff_contains.mpr viewed, rfl⟩
  case isFalse unviewed =>
    refine .inr ⟨?_, e.startingServer t, ?_, rfl⟩
    · exact ExtTreeMap.getElem?_eq_none (mt ExtTreeMap.mem_iff_contains.mp unviewed)
    · unfold startingServer
      split <;> rfl

/-- A rejected target loses its view. -/
theorem views_rejectTarget (e : Engine) (rejection : Rejection) :
    (e.rejectTarget rejection).views = e.views.erase rejection.target := by
  unfold rejectTarget
  dsimp only
  split
  case h_1 unviewed => exact (erase_of_absent unviewed).symm
  case h_2 => rw [(OnlyTells.foldl (onlyTells_endListener _) _ _).views]

/-- Making a view anew leaves the queue alone. -/
theorem queue_recompute (e : Engine) (id : TargetId) : (e.recompute id).queue = e.queue := by
  unfold recompute
  split
  · rfl
  · exact (onlyTells_dispatch _ _).queue

theorem queue_absorb (event : RemoteEvent) (e : Engine) (id : TargetId) :
    (absorb event e id).queue = e.queue := by
  unfold absorb
  split <;> rfl

theorem queue_ensureView (e : Engine) (id : TargetId) (t : Target) :
    (e.ensureView id t).queue = e.queue := by
  unfold ensureView
  split <;> rfl

theorem queue_rejectTarget (e : Engine) (rejection : Rejection) :
    (e.rejectTarget rejection).queue = e.queue := by
  unfold rejectTarget
  dsimp only
  split
  · rfl
  · exact (OnlyTells.foldl (onlyTells_endListener _) _ _).queue

/-- Steps that leave the queue alone, one after the other. -/
theorem queue_foldl {α : Type} {step : Engine → α → Engine}
    (each : ∀ (e : Engine) a, (step e a).queue = e.queue) (steps : List α) (e : Engine) :
    (steps.foldl step e).queue = e.queue := by
  induction steps generalizing e with
  | nil => rfl
  | cons first rest ih => exact (ih (step e first)).trans (each e first)

/-- Strikes a listener off, from its entry and from the view that it listens to. -/
def forget (e : Engine) (listener : ListenerId) (id : TargetId) : Engine :=
  { e with
    listeners := e.listeners.erase listener
    views := e.views.modify id fun v => { v with listeners := v.listeners.erase listener } }

/-- Passes lagging e: the engine gets to `e`, where at most the views in `lagging` lag behind the
    queue and the server's replicas. -/
inductive Passes : (TargetId → Prop) → Engine → Prop
  | start {config : Config} {store : Store} {e : Engine} (read : ofStore config store = .ok e) :
    Passes (fun _ => False) e
  | widen {lagging more : TargetId → Prop} {e : Engine} (passed : Passes lagging e)
    (wider : ∀ id, lagging id → more id) : Passes more e
  | aside {lagging : TargetId → Prop} {e after : Engine} (passed : Passes lagging e)
    (same : e.SameBooks after) : Passes lagging after
  | requeue {lagging : TargetId → Prop} {e : Engine} (passed : Passes lagging e)
    {queue : WriteQueue} (batches : List MutationBatch) (numbered : queue.Numbered)
    (others : ∀ key, (∀ batch ∈ batches, key ∉ batch.keys) →
      queue.writesOn key = e.queue.writesOn key) :
    Passes (fun id => lagging id ∨ id ∈ e.touchedBy batches) { e with queue }
  | absorb {lagging : TargetId → Prop} {e : Engine} (passed : Passes lagging e)
    (event : RemoteEvent) (id : TargetId) :
    Passes (fun other => lagging other ∨ other = id) (absorb event e id)
  | recompute {lagging : TargetId → Prop} {e : Engine} (passed : Passes lagging e)
    (id : TargetId) : Passes (fun other => lagging other ∧ other ≠ id) (e.recompute id)
  | dispatch {lagging : TargetId → Prop} {e : Engine} (passed : Passes lagging e)
    (id : TargetId) : Passes lagging (e.dispatch id)
  | ensureView {lagging : TargetId → Prop} {e : Engine} (passed : Passes lagging e)
    (id : TargetId) (t : Target) : Passes lagging (e.ensureView id t)
  | join {lagging : TargetId → Prop} {e : Engine} (passed : Passes lagging e) {id : TargetId}
    (viewed : id ∈ e.views) : Passes lagging ((e.attach id).2.dispatch id)
  | forget {lagging : TargetId → Prop} {e : Engine} (passed : Passes lagging e)
    {listener : ListenerId} {entry : Listener} (entered : e.listeners[listener]? = some entry) :
    Passes lagging (e.forget listener entry.target)
  | reject {lagging : TargetId → Prop} {e : Engine} (passed : Passes lagging e)
    (rejection : Rejection) : Passes lagging (e.rejectTarget rejection)
  | prune {lagging : TargetId → Prop} {e : Engine} (passed : Passes lagging e) :
    Passes lagging e.prune
  | detach {lagging : TargetId → Prop} {e : Engine} (passed : Passes lagging e)
    (id : ListenerId) : Passes lagging (e.detach id)

/-- No view lags. -/
abbrev Settled (e : Engine) : Prop := Passes (fun _ => False) e

/-- A new engine has the stored batches in its queue, and nothing else. -/
theorem ofStore_eq {config : Config} {store : Store} {e : Engine}
    (read : ofStore config store = .ok e) :
    ∃ pending, e =
      { config, store, stream := .ofConfig config.backoff, queue := .ofBatches pending } := by
  unfold ofStore at read
  cases loaded : store.loadPending with
  | error fault => simp [loaded, bind, Except.bind] at read
  | ok pending =>
    simp only [loaded, bind, Except.bind, pure, Except.pure, Except.ok.injEq] at read
    exact ⟨pending, read.symm⟩

/-- Every batch in the queue keeps a number that was given out. -/
theorem Passes.numbered {lagging : TargetId → Prop} {e : Engine} (passed : Passes lagging e) :
    e.queue.Numbered := by
  induction passed with
  | start read =>
    obtain ⟨pending, rfl⟩ := ofStore_eq read
    exact WriteQueue.numbered_ofBatches pending
  | widen _ _ ih => exact ih
  | aside _ same ih => exact same.queue ▸ ih
  | requeue _ _ numbered _ => exact numbered
  | absorb _ event id ih => rwa [queue_absorb event _ id]
  | recompute _ id ih => rwa [queue_recompute _ id]
  | dispatch _ id ih => rwa [(onlyTells_dispatch _ id).queue]
  | ensureView _ id t ih => rwa [queue_ensureView _ id t]
  | join _ _ ih => rwa [(onlyTells_dispatch _ _).queue]
  | forget _ _ ih => exact ih
  | reject _ rejection ih => rwa [queue_rejectTarget _ rejection]
  | prune _ ih => exact ih
  | detach _ _ ih => exact ih

/-- The views that batches touch are those that cover a key of theirs. -/
theorem mem_touchedBy {e : Engine} {batches : List MutationBatch} {id : TargetId} :
    id ∈ e.touchedBy batches ↔
      ∃ v, e.views[id]? = some v ∧ ∃ batch ∈ batches, ∃ key ∈ batch.keys, v.target.covers key := by
  rw [touchedBy, mem_keys_filter]
  simp only [List.any_eq_true]

/-- Which views batches touch depends on the views alone. -/
theorem touchedBy_congr {e after : Engine} (same : after.views = e.views)
    (batches : List MutationBatch) : after.touchedBy batches = e.touchedBy batches := by
  rw [touchedBy, touchedBy, same]

/-- Steps on one view after the other, each of which makes its view anew, make them all anew. -/
theorem Passes.anew {lagging : TargetId → Prop} {e : Engine} (passed : Passes lagging e)
    {make : Engine → TargetId → Engine}
    (each : ∀ {lagging : TargetId → Prop} {e : Engine}, Passes lagging e →
      ∀ id, Passes (fun other => lagging other ∧ other ≠ id) (make e id))
    {ids : List TargetId} (all : ∀ id, lagging id → id ∈ ids) : (ids.foldl make e).Settled := by
  induction ids generalizing lagging e with
  | nil => exact passed.widen fun id behind => nomatch all id behind
  | cons id rest ih =>
    apply ih (each passed id)
    rintro other ⟨behind, differs⟩
    exact (List.mem_cons.mp (all other behind)).resolve_left differs

/-- The views that batches touch are made anew. -/
theorem Passes.refresh {lagging : TargetId → Prop} {e : Engine} (passed : Passes lagging e)
    {batches : List MutationBatch} (touched : ∀ id, lagging id → id ∈ e.touchedBy batches) :
    (e.refresh batches).Settled :=
  passed.anew (fun passed id => passed.recompute id) touched

/-- A queue with the same writes leaves no view behind. -/
theorem Passes.resend {lagging : TargetId → Prop} {e : Engine} (passed : Passes lagging e)
    {queue : WriteQueue}
    (same : queue.entries.map (fun w => (w.batch, w.status)) =
      e.queue.entries.map fun w => (w.batch, w.status))
    (next : queue.nextId = e.queue.nextId) : Passes lagging { e with queue } := by
  refine (passed.requeue [] (passed.numbered.congr same next) ?_).widen ?_
  · exact fun key _ => WriteQueue.writesIn_congr same key
  · intro id
    simp [mem_touchedBy]

theorem Passes.markAllUnsent {lagging : TargetId → Prop} {e : Engine} (passed : Passes lagging e) :
    Passes lagging { e with queue := e.queue.markAllUnsent } :=
  passed.resend e.queue.map_markAllUnsent rfl

theorem Passes.dispatchAll {lagging : TargetId → Prop} {e : Engine} (passed : Passes lagging e) :
    Passes lagging e.dispatchAll := by
  unfold Engine.dispatchAll
  generalize e.views.keys = ids
  induction ids generalizing e with
  | nil => exact passed
  | cons id rest ih => exact ih (passed.dispatch id)

theorem Passes.rejectTargets {lagging : TargetId → Prop} {e : Engine} (passed : Passes lagging e)
    (rejections : List Rejection) : Passes lagging (e.rejectTargets rejections) := by
  unfold Engine.rejectTargets
  induction rejections generalizing e with
  | nil => exact passed
  | cons rejection rest ih => exact ih (passed.reject rejection)

/-- The views that a snapshot is taken into lag until they are made anew. -/
theorem Passes.absorbAll {lagging : TargetId → Prop} {e : Engine} (passed : Passes lagging e)
    (event : RemoteEvent) (ids : List TargetId) :
    Passes (fun id => lagging id ∨ id ∈ ids) (ids.foldl (Engine.absorb event) e) := by
  induction ids generalizing lagging e with
  | nil => exact passed.widen fun _ behind => .inl behind
  | cons id rest ih =>
    apply (ih (passed.absorb event id)).widen
    rintro other ((behind | rfl) | later)
    · exact .inl behind
    · exact .inr List.mem_cons_self
    · exact .inr (List.mem_cons_of_mem _ later)

theorem Settled.listen {e : Engine} (settled : e.Settled) (t : Target) :
    (e.listen t).2.Settled := by
  have subscribed : Settled { e with stream := (e.stream.listen t).2 } :=
    settled.aside (.edit ..)
  apply (subscribed.ensureView (e.stream.listen t).1 t).join
  unfold Engine.ensureView
  split
  case isTrue viewed => exact ExtTreeMap.mem_iff_contains.mpr viewed
  case isFalse => exact ExtTreeMap.mem_insert_self

/-- Only the last listener that leaves ends the subscription. -/
theorem unlisten_last {e after : Engine} {listener : ListenerId}
    (left : e.unlisten listener = .ok after) :
    ∃ entry, e.listeners[listener]? = some entry ∧
      (after = e.forget listener entry.target ∨
        after = (e.forget listener entry.target).leave entry.target ∧
          ∀ v, (e.forget listener entry.target).views[entry.target]? = some v →
            v.listeners.isEmpty = true) := by
  unfold unlisten at left
  split at left
  case h_1 => cases left
  case h_2 _ id seen attached entered =>
    refine ⟨_, entered, ?_⟩
    dsimp only at left ⊢
    split at left
    case h_1 unviewed =>
      rw [forget, modify_of_absent unviewed]
      exact .inl (Except.ok.inj left).symm
    case h_2 v viewed =>
      rw [forget, ← insert_eq_modify viewed]
      split at left
      case isTrue nobody =>
        refine .inr ⟨(Except.ok.inj left).symm, fun w there => ?_⟩
        have kept := (ExtTreeMap.getElem?_insert_self (t := e.views) (k := id)).symm.trans there
        exact Option.some.inj kept ▸ nobody
      case isFalse => exact .inl (Except.ok.inj left).symm

/-- Leaving strikes the listener off and, if it was the last one, ends the subscription. -/
theorem unlisten_cases {e after : Engine} {listener : ListenerId}
    (left : e.unlisten listener = .ok after) :
    ∃ entry, e.listeners[listener]? = some entry ∧
      (after = e.forget listener entry.target ∨
        after = (e.forget listener entry.target).leave entry.target) := by
  obtain ⟨entry, entered, kind⟩ := unlisten_last left
  exact ⟨entry, entered, kind.imp_right And.left⟩

theorem Settled.unlisten {e after : Engine} (settled : e.Settled) {listener : ListenerId}
    (left : e.unlisten listener = .ok after) : after.Settled := by
  obtain ⟨entry, entered, rfl | rfl⟩ := unlisten_cases left
  · exact settled.forget entered
  · have struck := settled.forget entered
    have saved := struck.aside (sameBooks_saveView _ entry.target)
    exact Passes.prune (saved.aside (.edit ..))

/-- A refused batch leaves no trace but its number, and a queued one is shown at once. -/
theorem Settled.submit {e : Engine} (settled : e.Settled) (mutations : List Mutation) :
    (e.submit mutations).1.Settled := by
  unfold Engine.submit
  dsimp only
  split
  case h_1 =>
    rw [WriteQueue.reject_append settled.numbered mutations, Option.elim_some]
    have numbered : WriteQueue.Numbered { e.queue with nextId := e.queue.nextId + 1 } :=
      settled.numbered.of_batches (fun w member => ⟨w, member, rfl⟩) (Nat.le_succ _)
    refine (settled.requeue [] numbered fun _ _ => rfl).widen ?_
    intro id
    simp [mem_touchedBy]
  case h_2 =>
    have queued := settled.requeue [(e.queue.append mutations).1]
      (settled.numbered.append mutations) fun key others =>
        e.queue.writesOn_append mutations (others _ List.mem_cons_self)
    apply Passes.refresh (queued.aside (.edit ..))
    exact fun id behind => behind.resolve_left fun impossible => impossible

/-- An acknowledgement may release older batches as well. What any of them touch is made anew. -/
theorem Settled.acknowledge {e : Engine} (settled : e.Settled) (id : BatchId) (commit : Version) :
    (e.acknowledge id commit).Settled := by
  unfold Engine.acknowledge
  split
  case h_1 => exact settled
  case h_2 batch queue done =>
    have counted : Settled { e with stats := { e.stats with
        writesAcknowledged := e.stats.writesAcknowledged + 1 } } :=
      settled.aside (.edit ..)
    have marked := counted.requeue [batch] (counted.numbered.acknowledge done) fun key others =>
      WriteQueue.writesOn_acknowledge done (others batch List.mem_cons_self)
    have decided := sameBooks_decide { e with queue, stats := { e.stats with
      writesAcknowledged := e.stats.writesAcknowledged + 1 } } id (.acknowledged commit)
    have told := marked.aside decided
    dsimp only
    generalize decide _ id (.acknowledged commit) = after at decided told
    have released := told.requeue (after.queue.release after.lastSnapshot).1
      (told.numbered.release _) fun key others => after.queue.writesOn_release _ others
    apply released.refresh
    intro other behind
    rw [mem_touchedBy]
    rcases behind with (impossible | early) | late
    · exact impossible.elim
    · obtain ⟨v, viewed, touching, member, covered⟩ := mem_touchedBy.mp early
      refine ⟨v, ?_, touching, List.mem_append_right _ member, covered⟩
      rw [decided.views]
      exact viewed
    · obtain ⟨v, viewed, touching, member, covered⟩ := mem_touchedBy.mp late
      exact ⟨v, viewed, touching, List.mem_append_left _ member, covered⟩

theorem Settled.reject {e : Engine} (settled : e.Settled) (id : BatchId) (status : Status) :
    (e.reject id status).Settled := by
  unfold Engine.reject
  split
  case h_1 => exact settled
  case h_2 batch queue done =>
    have counted : Settled { e with stats := { e.stats with
        writesRejected := e.stats.writesRejected + 1 } } :=
      settled.aside (.edit ..)
    have marked := counted.requeue [batch] (counted.numbered.reject done) fun key others =>
      WriteQueue.writesOn_reject done (others batch List.mem_cons_self)
    have decided := sameBooks_decide { e with queue, stats := { e.stats with
      writesRejected := e.stats.writesRejected + 1 } } id (.rejected status)
    apply Passes.refresh (marked.aside decided)
    intro other behind
    rw [touchedBy_congr decided.views]
    exact behind.resolve_left fun impossible => impossible

/-- A snapshot is taken into the server's replicas, then batches are released, and then all that
    one or the other concerns is made anew. -/
theorem Settled.applyRemote {e after : Engine} (settled : e.Settled) {event : RemoteEvent}
    (applied : e.applyRemote event = .ok after) : after.Settled := by
  unfold Engine.applyRemote at applied
  split at applied
  case h_1 => exact nomatch applied
  case h_2 =>
    have absorbed := settled.absorbAll event event.affected.toList
    dsimp only at applied
    generalize event.affected.toList.foldl (Engine.absorb event) e = taken at absorbed applied
    have released := absorbed.requeue (taken.queue.release event.version).1
      (absorbed.numbered.release _) fun key others => taken.queue.writesOn_release _ others
    have concerned : ∀ id, (False ∨ id ∈ event.affected.toList) ∨
        id ∈ taken.touchedBy (taken.queue.release event.version).1 →
        id ∈ event.affected ∨
          (taken.touchedBy (taken.queue.release event.version).1).contains id := by
      rintro id ((impossible | affected) | touched)
      · exact impossible.elim
      · exact .inl (ExtTreeSet.mem_toList.mp affected)
      · exact .inr (List.contains_iff_mem.mpr touched)
    have dated : Passes _ { taken with
        queue := (taken.queue.release event.version).2
        lastSnapshot := taken.lastSnapshot.later event.version } :=
      released.aside (.edit ..)
    have shown := dated.anew
      (fun passed id => (passed.recompute id).aside (sameBooks_saveView _ id))
      (fun id behind => ExtTreeSet.mem_toList.mpr
        (ExtTreeSet.mem_insertMany_list.mpr (concerned id behind)))
    exact Except.ok.inj applied ▸ shown.aside (.edit ..)

/-- The engine that starts over, before its listeners learn of it. -/
def startedOver (e : Engine) : Engine :=
  { e with
    stream := e.stream.restart
    queue := e.queue.markAllUnsent
    restartRequested := true
    stats := { e.stats with resyncs := e.stats.resyncs + 1 } }

theorem resync_eq (e : Engine) : e.resync = e.startedOver.dispatchAll.prune := rfl

/-- The engine that lost its stream, before its listeners learn of it. -/
def cutOff (e : Engine) (error : Option StreamError) (now : Duration) : Engine :=
  { e with
    stream := (e.stream.closed error now).2
    queue := e.queue.markAllUnsent
    stats := { e.stats with streamRestarts := e.stats.streamRestarts + 1 } }

theorem streamClosed_eq (e : Engine) (error : Option StreamError) (now : Duration) :
    (e.streamClosed error now).2 =
      ((e.cutOff error now).rejectTargets (e.stream.closed error now).1).dispatchAll.prune :=
  rfl

/-- A resync resets what the stream resumes from. No view lags, and listeners learn of the flags. -/
theorem Settled.resync {e : Engine} (settled : e.Settled) : e.resync.Settled := by
  have stopped : e.startedOver.Settled := settled.markAllUnsent.aside (.edit ..)
  rw [resync_eq]
  exact stopped.dispatchAll.prune

theorem Settled.receive {e : Engine} (settled : e.Settled) (change : WatchChange) :
    (e.receive change).Settled := by
  unfold Engine.receive
  split
  · exact settled
  · have collected : Settled { e with stream := (e.stream.receive change).1 } :=
      settled.aside (.edit ..)
    apply Passes.prune
    dsimp only
    split
    · exact collected
    · split
      case h_1 applied => exact collected.applyRemote applied
      case h_2 => exact collected.resync
    · exact collected.rejectTargets _
    · exact collected.resync

theorem Settled.streamClosed {e : Engine} (settled : e.Settled) (error : Option StreamError)
    (now : Duration) : (e.streamClosed error now).2.Settled := by
  have stopped : (e.cutOff error now).Settled := settled.markAllUnsent.aside (.edit ..)
  rw [streamClosed_eq]
  exact (stopped.rejectTargets _).dispatchAll.prune

theorem Settled.disconnect {e : Engine} (settled : e.Settled) : e.disconnect.Settled := by
  unfold Engine.disconnect
  split
  · have closed : Settled { e with stream := e.stream.disconnect } :=
      settled.aside (.edit ..)
    exact closed.markAllUnsent.dispatchAll.prune
  · exact settled

theorem Settled.takeOutbound {e : Engine} (settled : e.Settled) : e.takeOutbound.2.Settled := by
  unfold Engine.takeOutbound
  split
  · have taken : Settled { e with stream := e.stream.takeOutbox.2 } :=
      settled.aside (.edit ..)
    exact taken.resend (WriteQueue.map_takeFrom _ e.queue.entries) rfl
  · exact settled

theorem Settled.handle {e : Engine} (settled : e.Settled) (event : StreamEvent) (now : Duration) :
    (e.handle event now).2.Settled := by
  cases event with
  | opened =>
    have opened : Settled { e with stream := e.stream.opened now } :=
      settled.aside (.edit ..)
    exact opened.markAllUnsent
  | watch change => exact settled.receive change
  | writeAcked batch commit => exact settled.acknowledge batch commit
  | writeRejected batch status => exact settled.reject batch status
  | closed error => exact settled.streamClosed error now

/-- Submitting leaves one and the same engine, whatever the reply is made of. -/
theorem perform_submit (e : Engine) (mutations : List Mutation) :
    (e.perform (.submit mutations)).2 = (e.submit mutations).1 := by
  unfold Engine.perform
  dsimp only
  rcases e.submit mutations with ⟨after, _ | _⟩ <;> rfl

/-- Every call leaves no view behind. -/
theorem Settled.perform {e : Engine} (settled : e.Settled) (action : Action) :
    (e.perform action).2.Settled := by
  cases action with
  | connect =>
    unfold Engine.perform Engine.connect?
    cases e.stream.connect? with
    | none => exact settled
    | some stream => exact settled.aside (.edit ..)
  | handle event now => exact settled.handle event now
  | listen t => exact settled.listen t
  | unlisten listener =>
    cases left : e.unlisten listener with
    | error => simpa only [Engine.perform, left, orRefuse] using settled
    | ok after => simpa only [Engine.perform, left, orRefuse] using settled.unlisten left
  | submit mutations =>
    exact e.perform_submit mutations ▸ settled.submit mutations
  | takeOutbound => exact settled.takeOutbound
  | applyRemote event =>
    cases applied : e.applyRemote event with
    | error => simpa only [Engine.perform, applied, orRefuse] using settled
    | ok after => simpa only [Engine.perform, applied, orRefuse] using settled.applyRemote applied
  | interrupt =>
    change e.interrupt.Settled
    unfold Engine.interrupt
    split
    · exact Settled.disconnect (settled.aside (.edit ..))
    · exact settled
  | resume => exact settled.aside (.edit ..)
  | disconnect => exact settled.disconnect
  | resync => exact settled.resync
  | takeRestart => exact settled.aside (.edit ..)

/-- In every engine that comes about, no view lags. -/
theorem Reachable.settled {e : Engine} (reached : e.Reachable) : e.Settled := by
  induction reached with
  | start read => exact .start read
  | perform _ action ih => exact ih.perform action
  | detach _ id ih => exact ih.detach id
  | restock _ _ ih => exact ih.aside (.edit ..)

end Engine

end LiveQuery
