import LiveQuery.Proofs.Registries
import LiveQuery.Proofs.StrandedListeners

/-!
# Stored views

Of a stored view only the server's replica matters later, when a new view starts with
it. Each time a snapshot moves the replica of a view on, the view is stored if it is
complete, and so are the views that released writes touch. The latter are stored a
second time: what the server said of a complete view was stored when it came. So the
stored replicas do not depend on the writes.

This holds as long as no two views have one name, that is, as long as every removal
fits what is tracked. A removal that does not fit may leave a view behind whose target
is entered anew under another number.
-/

namespace LiveQuery

open Std

namespace ServerSide

/-- The name and the replica under which a view is stored, if it is. -/
def entry? (s : ServerSide) (id : TargetId) : Option (String × Replica) :=
  (s.views id).bind fun v =>
    if s.config.persistViews && v.server.initialized then some (v.target.canonicalId, v.server)
    else none

/-- What is to be stored of each view is stored, but for some that are still to be stored. -/
def Filed (s : ServerSide) (due : TargetId → Prop) (filed : String → Option Replica) : Prop :=
  ∀ (id : TargetId) name r, s.entry? id = some (name, r) → ¬due id → filed name = some r

/-- Nothing but views is stored. -/
def Files (s : ServerSide) (filed after : String → Option Replica) : Prop :=
  ∀ name, after name = filed name ∨ ∃ id r, s.entry? id = some (name, r)

/-- No two views are of targets with one name. -/
def Distinct (s : ServerSide) : Prop :=
  ∀ (id other : TargetId) v w, s.views id = some v → s.views other = some w →
    v.target.canonicalId = w.target.canonicalId → id = other

/-- Every view is of a target that is tracked. -/
def Served (s : ServerSide) : Prop :=
  ∀ (id : TargetId) v, s.views id = some v → ∃ sub, s.stream.subscriptions.table[id]? = some sub

section Filing

variable {s after : ServerSide} {due : TargetId → Prop} {filed : String → Option Replica}

theorem Files.refl (s : ServerSide) (filed : String → Option Replica) : s.Files filed filed :=
  fun _ => .inl rfl

theorem Files.trans {middle last : String → Option Replica} (first : s.Files filed middle)
    (second : s.Files middle last) : s.Files filed last := fun name =>
  (second name).elim (fun same => same.symm ▸ first name) .inr

/-- Where everything is stored there is one way to get there. -/
theorem Files.unique {one two : String → Option Replica} (first : s.Files filed one)
    (second : s.Files filed two) (all : s.Filed (fun _ => False) one)
    (all' : s.Filed (fun _ => False) two) : two = one := by
  funext name
  by_cases stored : ∃ id r, s.entry? id = some (name, r)
  · obtain ⟨id, r, here⟩ := stored
    rw [all id name r here not_false, all' id name r here not_false]
  · rw [(first name).resolve_right stored, (second name).resolve_right stored]

theorem entry?_eq_some {id : TargetId} {name : String} {r : Replica} :
    s.entry? id = some (name, r) ↔ s.config.persistViews = true ∧ ∃ v, s.views id = some v ∧
      v.server.initialized = true ∧ v.target.canonicalId = name ∧ v.server = r := by
  unfold entry?
  rw [Option.bind_eq_some_iff]
  constructor
  · rintro ⟨v, viewed, stored⟩
    split at stored
    case isTrue complete =>
      obtain ⟨persist, initialized⟩ := Bool.and_eq_true_iff.mp complete
      obtain ⟨same, kept⟩ := Prod.mk.inj (Option.some.inj stored)
      exact ⟨persist, v, viewed, initialized, same, kept⟩
    case isFalse => cases stored
  · rintro ⟨persist, v, viewed, initialized, rfl, rfl⟩
    exact ⟨v, viewed, by rw [persist, initialized]; rfl⟩

/-- A view that is tracked goes by the name of its target. -/
theorem Registered.nameOf_view (registered : s.Registered) (served : s.Served) {id : TargetId}
    {v : ServerView} (viewed : s.views id = some v) :
    s.stream.subscriptions.nameOf id = some v.target.canonicalId := by
  obtain ⟨sub, entered⟩ := served id v viewed
  obtain ⟨w, again, target, -⟩ := registered.viewed id sub entered
  obtain rfl := Option.some.inj (viewed.symm.trans again)
  rw [target]
  exact Subscriptions.nameOf_of_entered entered

/-- Views that are tracked under different numbers have different names. -/
theorem Registered.distinct (registered : s.Registered) (served : s.Served) : s.Distinct := by
  intro id other v w viewed viewed' same
  exact registered.named.unique (registered.nameOf_view served viewed)
    (same ▸ registered.nameOf_view served viewed')

/-- One name is the entry of one view. -/
theorem Distinct.entry (distinct : s.Distinct) {id other : TargetId} {name : String}
    {r r' : Replica} (stored : s.entry? id = some (name, r))
    (stored' : s.entry? other = some (name, r')) : id = other := by
  obtain ⟨-, v, viewed, -, rfl, -⟩ := entry?_eq_some.mp stored
  obtain ⟨-, w, viewed', -, same, -⟩ := entry?_eq_some.mp stored'
  exact distinct id other v w viewed viewed' same.symm

theorem Distinct.takeIn (distinct : s.Distinct) (event : RemoteEvent) :
    (s.takeIn event).Distinct := by
  intro id other v w viewed viewed' same
  obtain ⟨v', before, target, -⟩ := views_takeIn viewed
  obtain ⟨w', before', target', -⟩ := views_takeIn viewed'
  exact distinct id other v' w' before before' (target ▸ target' ▸ same)

/-- A snapshot moves on the replicas that it concerns, and they are to be stored again. -/
theorem Filed.takeIn (all : s.Filed due filed) (event : RemoteEvent) :
    (s.takeIn event).Filed (fun id => due id ∨ id ∈ event.affected.toList) filed := by
  intro id name r stored spared
  obtain ⟨waits, unconcerned⟩ := not_or.mp spared
  refine all id name r ?_ waits
  obtain ⟨persist, v, viewed, kept⟩ := entry?_eq_some.mp stored
  obtain ⟨w, before, rfl⟩ := Option.map_eq_some_iff.mp viewed
  rw [if_neg unconcerned] at kept
  exact entry?_eq_some.mpr ⟨persist, w, before, kept⟩

/-- There is nothing to drop while every view is tracked. -/
theorem Served.prune (served : s.Served) : s.prune = s := by
  have views (id : TargetId) : s.prune.views id = s.views id := by
    cases viewed : s.views id with
    | none => simp [ServerSide.prune, viewed]
    | some v => exact views_prune.mpr ⟨viewed, .inr (served id v viewed)⟩
  exact congrArg (fun views => { s with views }) (funext views)

theorem Served.takeIn (served : s.Served) (event : RemoteEvent) : (s.takeIn event).Served := by
  intro id v viewed
  obtain ⟨w, before, -⟩ := views_takeIn viewed
  exact served id w before

/-- Every view was there before, with the same target and the same replica. -/
structure Sheds (s after : ServerSide) : Prop where
  config : after.config = s.config
  views : ∀ (id : TargetId) v, after.views id = some v →
    ∃ w, s.views id = some w ∧ w.target = v.target ∧ w.server = v.server

theorem Sheds.trans {middle : ServerSide} (first : s.Sheds middle) (second : middle.Sheds after) :
    s.Sheds after where
  config := second.config.trans first.config
  views id v viewed := by
    obtain ⟨w, viewed, target, server⟩ := second.views id v viewed
    obtain ⟨u, viewed, target', server'⟩ := first.views id w viewed
    exact ⟨u, viewed, target'.trans target, server'.trans server⟩

theorem sheds_of_views (config : after.config = s.config) (views : after.views = s.views) :
    s.Sheds after :=
  ⟨config, fun _ v viewed => ⟨v, views ▸ viewed, rfl, rfl⟩⟩

theorem sheds_prune (s : ServerSide) : s.Sheds s.prune :=
  ⟨rfl, fun _ v viewed => ⟨v, (views_prune.mp viewed).1, rfl, rfl⟩⟩

theorem sheds_rejectTargets (rejections : List Rejection) (s : ServerSide) :
    s.Sheds (s.rejectTargets rejections) := by
  unfold rejectTargets
  induction rejections generalizing s with
  | nil => exact sheds_of_views rfl rfl
  | cons r rest ih =>
    have first : s.Sheds (s.rejectTarget r) := by
      refine ⟨rfl, fun id v viewed => ?_⟩
      dsimp only [rejectTarget] at viewed
      split at viewed
      case isTrue => cases viewed
      case isFalse => exact ⟨v, viewed, rfl, rfl⟩
    exact first.trans (ih (s.rejectTarget r))

theorem sheds_forget (s : ServerSide) (x : ListenerId) (id : TargetId) :
    s.Sheds (s.forget x id) := by
  refine ⟨rfl, fun other v viewed => ?_⟩
  dsimp only [forget, relist] at viewed
  split at viewed
  case isTrue here =>
    obtain ⟨w, before, rfl⟩ := Option.map_eq_some_iff.mp viewed
    exact ⟨w, here ▸ before, rfl, rfl⟩
  case isFalse => exact ⟨v, viewed, rfl, rfl⟩

theorem sheds_unlisten (s : ServerSide) (x : ListenerId) : s.Sheds (s.unlisten x) := by
  unfold ServerSide.unlisten
  split
  case h_1 => exact sheds_of_views rfl rfl
  case h_2 id _ =>
    dsimp only
    split
    · let left : ServerSide :=
        { s.forget x id with stream := (s.forget x id).stream.unlisten id }
      have unheard : (s.forget x id).Sheds left := sheds_of_views rfl rfl
      exact (s.sheds_forget x id).trans (unheard.trans left.sheds_prune)
    · exact s.sheds_forget x id

theorem sheds_resync (s : ServerSide) : s.Sheds s.resync :=
  (sheds_of_views rfl rfl : s.Sheds
    { s with stream := s.stream.restart, restartRequested := true }).trans (sheds_prune _)

theorem sheds_streamClosed (s : ServerSide) (error : Option StreamError) (now : Duration) :
    s.Sheds (s.streamClosed error now) :=
  (sheds_of_views rfl rfl : s.Sheds { s with stream := (s.stream.closed error now).2 }).trans
    ((sheds_rejectTargets _ _).trans (sheds_prune _))

theorem sheds_disconnect (s : ServerSide) : s.Sheds s.disconnect := by
  unfold disconnect
  split
  · exact (sheds_of_views rfl rfl : s.Sheds { s with stream := s.stream.disconnect }).trans
      (sheds_prune _)
  · exact sheds_of_views rfl rfl

theorem sheds_interrupt (s : ServerSide) : s.Sheds s.interrupt := by
  unfold interrupt
  split
  · exact (sheds_of_views rfl rfl : s.Sheds { s with enabled := false }).trans (sheds_disconnect _)
  · exact sheds_of_views rfl rfl

theorem Distinct.shed (distinct : s.Distinct) (sheds : s.Sheds after) : after.Distinct := by
  intro id other v w viewed viewed' same
  obtain ⟨v', before, target, -⟩ := sheds.views id v viewed
  obtain ⟨w', before', target', -⟩ := sheds.views other w viewed'
  exact distinct id other v' w' before before' (by rw [target, target', same])

/-- What was stored of more views is stored of fewer. -/
theorem Filed.shed (all : s.Filed due filed) (sheds : s.Sheds after) : after.Filed due filed := by
  intro id name r stored still
  obtain ⟨persist, v, viewed, initialized, rfl, rfl⟩ := entry?_eq_some.mp stored
  obtain ⟨w, viewed, target, server⟩ := sheds.views id v viewed
  refine all id _ _ (entry?_eq_some.mpr ⟨sheds.config ▸ persist, w, viewed, ?_, ?_, server⟩) still
  · rw [server, initialized]
  · rw [target]

end Filing

end ServerSide

namespace Engine

/-- The server's replica that is stored under a name. -/
def filed? (e : Engine) (name : String) : Option Replica :=
  e.store.views[name]?.map (·.server.unedited)

/-- The stored views, and the calls of the store that fail. -/
def shelf (e : Engine) : ExtTreeMap String Replicas × List StoreCall :=
  (e.store.views, e.store.failing)

section Shelf

variable {e after : Engine}

theorem filed?_of_shelf (same : after.shelf = e.shelf) : after.filed? = e.filed? := by
  funext name
  rw [filed?, filed?, (Prod.mk.inj same).1]

/-- Steps that leave the shelf alone, one after the other. -/
theorem shelf_foldl {α : Type} {step : Engine → α → Engine}
    (each : ∀ (e : Engine) a, (step e a).shelf = e.shelf) (steps : List α) (e : Engine) :
    (steps.foldl step e).shelf = e.shelf := by
  induction steps generalizing e with
  | nil => rfl
  | cons first rest ih => exact (ih (step e first)).trans (each e first)

theorem shelf_deliver (e : Engine) (x : ListenerId) (l : Listener) (event : ListenEvent) :
    (e.deliver x l event).shelf = e.shelf := by
  unfold deliver
  split <;> rfl

theorem shelf_inform (e : Engine) (v : View) (flags : Flags) (x : ListenerId) :
    (e.inform v flags x).shelf = e.shelf := by
  unfold inform
  split
  case h_1 => rfl
  case h_2 =>
    split
    · rfl
    · exact shelf_deliver _ _ _ _

theorem shelf_dispatch (e : Engine) (id : TargetId) : (e.dispatch id).shelf = e.shelf := by
  unfold dispatch
  split
  · rfl
  · exact shelf_foldl (fun e => e.shelf_inform _ _) _ e

theorem shelf_dispatchAll (e : Engine) : e.dispatchAll.shelf = e.shelf :=
  shelf_foldl shelf_dispatch _ e

theorem shelf_recompute (e : Engine) (id : TargetId) : (e.recompute id).shelf = e.shelf := by
  unfold recompute
  split
  · rfl
  · exact shelf_dispatch _ id

theorem shelf_refresh (e : Engine) (batches : List MutationBatch) :
    (e.refresh batches).shelf = e.shelf :=
  shelf_foldl shelf_recompute _ e

theorem shelf_absorb (event : RemoteEvent) (e : Engine) (id : TargetId) :
    (absorb event e id).shelf = e.shelf := by
  unfold absorb
  split <;> rfl

theorem shelf_endListener (event : ListenEvent) (e : Engine) (x : ListenerId) :
    (endListener event e x).shelf = e.shelf := by
  unfold endListener
  split
  · rfl
  · exact shelf_deliver _ _ _ _

theorem shelf_rejectTargets (e : Engine) (rejections : List Rejection) :
    (e.rejectTargets rejections).shelf = e.shelf := by
  refine shelf_foldl (fun e r => ?_) rejections e
  unfold rejectTarget
  dsimp only
  split
  · rfl
  · exact shelf_foldl (shelf_endListener _) _ _

theorem shelf_decide (e : Engine) (id : BatchId) (outcome : WriteOutcome) :
    (e.decide id outcome).shelf = e.shelf := by
  have stored : (e.store.orUnchanged (e.store.saveOutcome id outcome)).views = e.store.views ∧
      (e.store.orUnchanged (e.store.saveOutcome id outcome)).failing = e.store.failing := by
    unfold Store.saveOutcome Store.attempt
    split <;> exact ⟨rfl, rfl⟩
  unfold decide
  dsimp only
  split <;> exact Prod.ext stored.1 stored.2

/-- Batches are stored apart from views, -/
theorem shelf_submit (e : Engine) (mutations : List Mutation) :
    (e.submit mutations).1.shelf = e.shelf := by
  unfold submit
  dsimp only
  split
  case h_1 => rfl
  case h_2 store saved =>
    unfold Store.saveWrite Store.attempt at saved
    split at saved
    case isTrue => cases saved
    case isFalse =>
      obtain rfl := Except.ok.inj saved
      exact shelf_refresh _ _

/-- and so are the decisions on them. -/
theorem shelf_acknowledge (e : Engine) (id : BatchId) (commit : Version) :
    (e.acknowledge id commit).shelf = e.shelf := by
  unfold acknowledge
  split
  · rfl
  · exact (shelf_refresh _ _).trans (shelf_decide _ _ _)

theorem shelf_reject (e : Engine) (id : BatchId) (status : Status) :
    (e.reject id status).shelf = e.shelf := by
  unfold reject
  split
  · rfl
  · exact (shelf_refresh _ _).trans (shelf_decide _ _ _)

theorem shelf_ensureView (e : Engine) (id : TargetId) (t : Target) :
    (e.ensureView id t).shelf = e.shelf := by
  unfold ensureView
  split <;> rfl

theorem shelf_listen (e : Engine) (t : Target) : (e.listen t).2.shelf = e.shelf :=
  (shelf_dispatch _ _).trans (shelf_ensureView _ _ t)

theorem shelf_resync (e : Engine) : e.resync.shelf = e.shelf := shelf_dispatchAll _

theorem shelf_streamClosed (e : Engine) (error : Option StreamError) (now : Duration) :
    (e.streamClosed error now).2.shelf = e.shelf :=
  (shelf_dispatchAll _).trans (shelf_rejectTargets _ _)

theorem shelf_disconnect (e : Engine) : e.disconnect.shelf = e.shelf := by
  unfold disconnect
  split
  · exact shelf_dispatchAll _
  · rfl

theorem shelf_interrupt (e : Engine) : e.interrupt.shelf = e.shelf := by
  unfold interrupt
  split
  · exact shelf_disconnect _
  · rfl

theorem shelf_takeOutbound (e : Engine) : e.takeOutbound.2.shelf = e.shelf := by
  unfold takeOutbound
  split <;> rfl

end Shelf

section Saving

variable {e : Engine} {due : TargetId → Prop}

/-- Storing a view leaves the calls that fail alone, -/
theorem failing_saveView (e : Engine) (id : TargetId) :
    (e.saveView id).store.failing = e.store.failing := by
  unfold saveView
  split
  case h_1 => rfl
  case h_2 =>
    split
    case isFalse => rfl
    case isTrue =>
      unfold Store.saveView Store.attempt
      split <;> rfl

/-- and where none fails it puts the server's replica of a complete view under its name. -/
theorem filed?_saveView (works : e.store.failing = []) (id : TargetId) (name : String) :
    (e.saveView id).filed? name = match e.serverSide.entry? id with
      | some (own, r) => if own = name then some r else e.filed? name
      | none => e.filed? name := by
  unfold saveView ServerSide.entry?
  rw [serverSide_views]
  cases viewed : e.views[id]? with
  | none => rfl
  | some v =>
    have same : (e.serverSide.config.persistViews && v.serverView.server.initialized) =
        (e.config.persistViews && v.replicas.server.initialized) := rfl
    dsimp only [Option.map_some, Option.bind_some]
    rw [same]
    split
    case isFalse => rfl
    case isTrue =>
      have saved : e.store.saveView v.target v.replicas =
          .ok { e.store with views := e.store.views.insert v.target.canonicalId v.replicas } :=
        if_neg (by rw [works]; nofun)
      dsimp only [filed?]
      rw [saved, Store.orUnchanged, ExtTreeMap.getElem?_insert]
      simp only [LawfulEqOrd.compare_eq_iff_eq]
      rw [apply_ite (Option.map _)]
      rfl

/-- A view that is stored is due no longer, and no other is touched. -/
theorem filed_saveView (works : e.store.failing = []) (distinct : e.serverSide.Distinct)
    (all : e.serverSide.Filed due e.filed?) (id : TargetId) :
    e.serverSide.Filed (fun other => due other ∧ other ≠ id) (e.saveView id).filed? ∧
      e.serverSide.Files e.filed? (e.saveView id).filed? := by
  constructor
  · intro other name r stored spared
    rw [filed?_saveView works]
    split
    case h_1 own kept here =>
      split
      case isTrue same =>
        subst same
        obtain rfl := distinct.entry here stored
        obtain ⟨-, rfl⟩ := Prod.mk.inj (Option.some.inj (here.symm.trans stored))
        rfl
      case isFalse differs =>
        refine all other name r stored fun due => spared ⟨due, ?_⟩
        rintro rfl
        exact differs (Prod.mk.inj (Option.some.inj (here.symm.trans stored))).1
    case h_2 nothing =>
      refine all other name r stored fun due => spared ⟨due, ?_⟩
      rintro rfl
      cases nothing.symm.trans stored
  · intro name
    rw [filed?_saveView works]
    split
    case h_1 own kept here =>
      split
      case isTrue same => exact .inr ⟨id, kept, same ▸ here⟩
      case isFalse => exact .inl rfl
    case h_2 => exact .inl rfl

/-- Making views anew and storing them, one after the other, stores what is due among them. -/
theorem filed_foldl (ids : List TargetId) (works : e.store.failing = [])
    (distinct : e.serverSide.Distinct) (all : e.serverSide.Filed due e.filed?)
    (among : ∀ id, due id → id ∈ ids) :
    let after := ids.foldl (fun e id => (e.recompute id).saveView id) e
    after.store.failing = [] ∧ e.serverSide.Filed (fun _ => False) after.filed? ∧
      e.serverSide.Files e.filed? after.filed? := by
  induction ids generalizing e due with
  | nil =>
    refine ⟨works, fun id name r stored _ => all id name r stored fun due => ?_, .refl _ _⟩
    exact nomatch among id due
  | cons id rest ih =>
    have side : ((e.recompute id).saveView id).serverSide = e.serverSide :=
      (serverSide_saveView _ id).trans (serverSide_recompute e id)
    have shelf := shelf_recompute e id
    have works' : (e.recompute id).store.failing = [] := (Prod.mk.inj shelf).2.trans works
    have all' : (e.recompute id).serverSide.Filed due (e.recompute id).filed? := by
      rw [serverSide_recompute, filed?_of_shelf shelf]
      exact all
    obtain ⟨left, files⟩ :=
      filed_saveView works' (serverSide_recompute e id ▸ distinct) all' id
    rw [serverSide_recompute] at left files
    rw [filed?_of_shelf shelf] at files
    obtain ⟨last, done, more⟩ := ih ((failing_saveView _ id).trans works') (side ▸ distinct)
      (side ▸ left) fun other ⟨behind, differs⟩ =>
        (List.mem_cons.mp (among other behind)).resolve_left differs
    rw [side] at done more
    exact ⟨last, done, files.trans more⟩

end Saving

/-- The store never fails, and what is to be stored of the views is stored. -/
structure Shelved (e : Engine) : Prop where
  works : e.store.failing = []
  filed : e.serverSide.Filed (fun _ => False) e.filed?

/-- Afterwards all is stored, and nothing was stored besides. -/
structure Shelves (e after : Engine) : Prop extends Shelved after where
  files : after.serverSide.Files e.filed? after.filed?

section Calls

variable {e after : Engine}

/-- There is nothing to store while the replicas stay as they are. -/
theorem Shelved.shed (shelved : e.Shelved) (failing : after.store.failing = e.store.failing)
    (filed : after.filed? = e.filed?) (sheds : e.serverSide.Sheds after.serverSide) :
    e.Shelves after where
  works := failing.trans shelved.works
  filed := filed ▸ shelved.filed.shed sheds
  files := filed ▸ .refl _ _

theorem Shelved.still (shelved : e.Shelved) (same : after.shelf = e.shelf)
    (sheds : e.serverSide.Sheds after.serverSide) : e.Shelves after :=
  shelved.shed (Prod.mk.inj same).2 (filed?_of_shelf same) sheds

/-- Whatever a snapshot completes is stored. -/
theorem Shelved.applyRemote (shelved : e.Shelved) (distinct : e.serverSide.Distinct)
    {event : RemoteEvent} (applied : e.applyRemote event = .ok after) : e.Shelves after := by
  have side := serverSide_applyRemote applied
  obtain ⟨-, ids, stats, -, concerned, rfl⟩ := applyRemote_cases applied
  have shelf : (e.takeIn event).shelf = e.shelf := shelf_foldl (shelf_absorb event) _ e
  have taken := e.serverSide_takeIn event
  have due : (e.takeIn event).serverSide.Filed
      (fun id => False ∨ id ∈ event.affected.toList) (e.takeIn event).filed? := by
    rw [taken, filed?_of_shelf shelf]
    exact shelved.filed.takeIn event
  obtain ⟨works, filed, files⟩ := filed_foldl ids ((Prod.mk.inj shelf).2.trans shelved.works)
    (taken ▸ distinct.takeIn event) due
    fun id due => concerned id (ExtTreeSet.mem_toList.mp (due.resolve_left not_false))
  rw [taken, filed?_of_shelf shelf] at files
  rw [taken] at filed
  exact ⟨⟨works, side ▸ filed⟩, side ▸ files⟩

/-- A new view starts with what is stored. -/
theorem storedServer_eq (works : e.store.failing = []) (t : Target) :
    e.storedServer t = (e.filed? t.canonicalId).getD (Replica.blank 0) := by
  have loaded : e.store.loadView t = .ok e.store.views[t.canonicalId]? :=
    if_neg (by rw [works]; nofun)
  unfold storedServer startingServer filed?
  rw [loaded]
  cases e.store.views[t.canonicalId]? <;> rfl

theorem Shelved.listen (shelved : e.Shelved) (t : Target) : e.Shelves (e.listen t).2 := by
  have same := e.shelf_listen t
  refine ⟨⟨(Prod.mk.inj same).2.trans shelved.works, ?_⟩, filed?_of_shelf same ▸ .refl _ _⟩
  rw [filed?_of_shelf same, serverSide_listen]
  intro id name r stored _
  obtain ⟨persist, v, viewed, initialized, rfl, rfl⟩ := ServerSide.entry?_eq_some.mp stored
  rw [ServerSide.views_listen] at viewed
  have old {w : ServerView} (before : e.serverSide.views id = some w)
      (done : w.server.initialized = true) : e.filed? w.target.canonicalId = some w.server :=
    shelved.filed id _ _
      (ServerSide.entry?_eq_some.mpr ⟨persist, w, before, done, rfl, rfl⟩) not_false
  split at viewed
  case isFalse => exact old viewed initialized
  case isTrue =>
    obtain rfl := Option.some.inj viewed
    cases before : e.serverSide.views id with
    | some w =>
      rw [before] at initialized
      have kept : e.filed? w.target.canonicalId = some w.server := old before initialized
      exact kept
    | none =>
      rw [before] at initialized
      dsimp only [Option.getD_none] at initialized ⊢
      rw [storedServer_eq shelved.works] at initialized ⊢
      cases kept : e.filed? t.canonicalId with
      | none =>
        rw [kept] at initialized
        cases initialized
      | some r => rfl

/-- The view that the last listener leaves is stored already. -/
theorem Shelved.unlisten (shelved : e.Shelved) (distinct : e.serverSide.Distinct) (x : ListenerId) :
    e.Shelves (e.orRefuse (e.unlisten x)).2 := by
  have sheds := e.serverSide.sheds_unlisten x
  rw [← serverSide_unlisten] at sheds
  cases entered : e.listeners[x]? with
  | none =>
    have refused : (e.orRefuse (e.unlisten x)).2 = e := by
      rw [Engine.unlisten, entered]
      rfl
    rw [refused] at sheds ⊢
    exact shelved.still rfl sheds
  | some l =>
    rw [unlisten_eq entered] at sheds ⊢
    dsimp only [orRefuse] at sheds ⊢
    by_cases last : ((e.forget x l.target).views[l.target]?).any (·.listeners.isEmpty) = true
    · rw [if_pos last] at sheds ⊢
      have forgot : e.serverSide.Sheds (e.forget x l.target).serverSide :=
        serverSide_forget e x l.target ▸ e.serverSide.sheds_forget x l.target
      have struck : e.Shelves (e.forget x l.target) := shelved.still rfl forgot
      obtain ⟨filed, files⟩ :=
        filed_saveView struck.works (distinct.shed forgot) struck.filed l.target
      have same : ((e.forget x l.target).saveView l.target).filed? = e.filed? :=
        ServerSide.Files.unique (.refl _ _) files struck.filed
          fun id name r stored _ => filed id name r stored fun due => due.1
      exact shelved.shed (failing_saveView _ l.target) same sheds
    · rw [if_neg last] at sheds ⊢
      exact shelved.still rfl sheds

/-- A snapshot leaves every target tracked that was. -/
theorem served_flush (sound : e.stream.Sound) (served : e.serverSide.Served) (version : Version) :
    ServerSide.Served { e.serverSide with stream := (e.stream.flush version).2 } := by
  intro id v viewed
  obtain ⟨sub, entered⟩ := served id v viewed
  rcases (WatchStream.stamped_flush sound version).entry id with
    ⟨absent, -⟩ | ⟨_, next, -, there, -⟩
  · cases absent.symm.trans entered
  · exact ⟨next, there⟩

/-- No report but a snapshot has anything stored. -/
theorem Shelved.receive (shelved : e.Shelved) (sound : e.stream.Sound)
    (registered : e.serverSide.Registered) (served : e.serverSide.Served) (change : WatchChange) :
    e.Shelves (e.receive change) := by
  by_cases opened : e.stream.state = .opened
  · let base : Engine := { e with stream := (e.stream.receive change).1 }
    have moved : e.Shelves base := shelved.still rfl (ServerSide.sheds_of_views rfl rfl)
    have shed {middle : Engine} (shelf : middle.shelf = e.shelf)
        (sheds : base.serverSide.Sheds middle.serverSide) : e.Shelves middle.prune := by
      refine shelved.still shelf ?_
      rw [serverSide_prune]
      have first : e.serverSide.Sheds base.serverSide := ServerSide.sheds_of_views rfl rfl
      exact (first.trans sheds).trans (ServerSide.sheds_prune _)
    rw [receive_eq opened]
    split
    case h_1 => exact shed (show base.shelf = e.shelf from rfl) (ServerSide.sheds_of_views rfl rfl)
    case h_2 event done =>
      obtain ⟨version, rfl⟩ := WatchStream.closes_of_snapshot sound opened done
      have tracked : base.serverSide.Tracked :=
        registered.toTracked.thinned (WatchStream.thins_receive sound (.snapshot version))
      have distinct : base.serverSide.Distinct := registered.distinct served
      have still : base.serverSide.Served := by
        have flushed := served_flush sound served version
        have same : (e.stream.flush version).2 = (e.stream.receive (.snapshot version)).1 := by
          rw [WatchStream.receive_snapshot opened]
        rw [same] at flushed
        exact flushed
      obtain ⟨after, applied⟩ := applied_of_tracked tracked event
      have kept := moved.toShelved.applyRemote distinct applied
      have side : after.prune.serverSide = after.serverSide := by
        rw [serverSide_prune, serverSide_applyRemote applied]
        exact (still.takeIn event).prune
      have same : ({ e with stream := (e.stream.receive (.snapshot version)).1 } : Engine) = base :=
        rfl
      rw [same, applied]
      exact ⟨⟨kept.works, side ▸ kept.filed⟩, side ▸ kept.files⟩
    case h_3 rejections _ =>
      exact shed (base.shelf_rejectTargets rejections)
        (base.serverSide_rejectTargets rejections ▸ base.serverSide.sheds_rejectTargets rejections)
    case h_4 =>
      exact shed base.shelf_resync (base.serverSide_resync ▸ base.serverSide.sheds_resync)
  · have same : e.receive change = e := if_pos opened
    rw [same]
    exact shelved.still rfl (ServerSide.sheds_of_views rfl rfl)

/-- What a call moves on is stored, and nothing else is. -/
theorem Shelved.perform (shelved : e.Shelved) (sound : e.stream.Sound)
    (registered : e.serverSide.Registered) (served : e.serverSide.Served) (action : Action) :
    e.Shelves (e.perform action).2 := by
  have idle {after : Engine} (same : after.shelf = e.shelf)
      (side : after.serverSide = e.serverSide) : e.Shelves after :=
    shelved.still same (side ▸ ServerSide.sheds_of_views rfl rfl)
  cases action with
  | connect =>
    unfold Engine.perform Engine.connect?
    cases e.stream.connect? with
    | none => exact idle rfl rfl
    | some stream => exact shelved.still rfl (ServerSide.sheds_of_views rfl rfl)
  | handle event now =>
    cases event with
    | opened => exact shelved.still rfl (ServerSide.sheds_of_views rfl rfl)
    | watch change => exact shelved.receive sound registered served change
    | writeAcked id commit =>
      exact idle (e.shelf_acknowledge id commit) (e.serverSide_acknowledge id commit)
    | writeRejected id status =>
      exact idle (e.shelf_reject id status) (e.serverSide_reject id status)
    | closed error =>
      refine shelved.still (e.shelf_streamClosed error now) ?_
      have side := e.serverSide_streamClosed error now
      exact side ▸ e.serverSide.sheds_streamClosed error now
  | listen target => exact shelved.listen target
  | unlisten x => exact shelved.unlisten (registered.distinct served) x
  | submit mutations =>
    rw [perform_submit]
    exact idle (e.shelf_submit mutations) (e.serverSide_submit mutations)
  | takeOutbound =>
    refine shelved.still e.shelf_takeOutbound ?_
    rw [show (e.perform .takeOutbound).2 = e.takeOutbound.2 from rfl, serverSide_takeOutbound]
    exact ServerSide.sheds_of_views rfl rfl
  | applyRemote event =>
    obtain ⟨after, applied⟩ := applied_of_tracked registered.toTracked event
    have same : (e.perform (.applyRemote event)).2 = after :=
      congrArg (fun answer => (e.orRefuse answer).2) applied
    exact same ▸ shelved.applyRemote (registered.distinct served) applied
  | interrupt =>
    exact shelved.still e.shelf_interrupt (e.serverSide_interrupt ▸ e.serverSide.sheds_interrupt)
  | resume => exact shelved.still rfl (ServerSide.sheds_of_views rfl rfl)
  | disconnect =>
    exact shelved.still e.shelf_disconnect (e.serverSide_disconnect ▸ e.serverSide.sheds_disconnect)
  | resync => exact shelved.still e.shelf_resync (e.serverSide_resync ▸ e.serverSide.sheds_resync)
  | takeRestart => exact shelved.still rfl (ServerSide.sheds_of_views rfl rfl)

end Calls

end Engine

end LiveQuery
