import LiveQuery.Proofs.WriteIndependence

/-!
# The last complete views

An engine lives over a store that holds no views at first and never fails, and now and
then another engine takes over what the store holds. At any time the store holds, for
each target, the last complete replica of the server that some view of the target has
had. A view that the server reset leaves the stored one as it is until it is complete
again, and so does a view that is dropped. So whoever listens after a restart starts
with the last complete replica, or with nothing, and never with a part of one.
-/

namespace LiveQuery

open Std

namespace Engine

/-- The server's replica of a target, if there is a view of it and the replica is complete. -/
def complete? (e : Engine) (t : Target) : Option Replica :=
  (e.view? t).bind fun replicas =>
    if replicas.server.initialized then some replicas.server.unedited else none

/-- The last complete replica that a target had, given the engines from the latest back. -/
def lastComplete? (engines : List Engine) (t : Target) : Option Replica :=
  engines.findSome? (·.complete? t)

end Engine

/-- Lived past e: the engine `e` comes after the engines of `past`, the latest first. They store
    views, in a store that held none at first, that never fails and that nobody else writes to.
    Every removal fits, and a restart leaves nothing but what is stored. -/
inductive Lived : List Engine → Engine → Prop
  | start {config : Config} {store : Store} {e : Engine} (persist : config.persistViews = true)
    (empty : store.views = ∅) (works : store.failing = [])
    (read : Engine.ofStore config store = .ok e) : Lived [] e
  | step {past : List Engine} {e : Engine} (lived : Lived past e) {happening : Happening}
    (own : happening.KeepsStore) (orderly : Moment.Orderly ⟨e, happening⟩) :
    Lived (e :: past) (e.meet happening)
  | restart {past : List Engine} {e : Engine} (lived : Lived past e) {config : Config}
    {next : Engine} (persist : config.persistViews = true)
    (read : Engine.ofStore config e.store = .ok next) : Lived (e :: past) next

namespace ServerSide

/-- No call changes the configuration. -/
theorem config_perform (s : ServerSide) (stored : Target → Replica) (action : Engine.Action) :
    (s.perform stored action).config = s.config := by
  have followed (s : ServerSide) (outcome : Except Fault WatchOutcome) :
      (s.follow outcome).config = s.config := by
    unfold follow
    split
    case h_1 | h_4 => rfl
    case h_2 => split <;> rfl
    case h_3 rejections => exact (s.sheds_rejectTargets rejections).config
  cases action with
  | connect | listen | submit | takeOutbound | resume | resync | takeRestart => rfl
  | handle event now =>
    cases event with
    | opened | writeAcked | writeRejected => rfl
    | watch change =>
      change (s.receive change).config = s.config
      unfold receive
      split
      · rfl
      · exact followed ..
    | closed error => exact (s.sheds_streamClosed error now).config
  | unlisten x => exact (s.sheds_unlisten x).config
  | applyRemote event =>
    change (s.applyRemote event).config = s.config
    unfold applyRemote
    split <;> rfl
  | interrupt => exact s.sheds_interrupt.config
  | disconnect => exact s.sheds_disconnect.config

/-- A target that is not known is given a view under the next number. -/
theorem Registered.views_listen_of_unknown {s : ServerSide} (registered : s.Registered)
    {t : Target} (unknown : s.stream.subscriptions.find? t = none) (server : Replica) :
    (s.listen t server).views ⟨s.stream.subscriptions.nextId⟩ =
      some ⟨t, server, (∅ : ExtTreeSet ListenerId).insert ⟨s.nextListener⟩⟩ := by
  have number : (s.stream.listen t).1 = ⟨s.stream.subscriptions.nextId⟩ := by
    unfold WatchStream.listen Subscriptions.listen
    rw [unknown]
    rfl
  have fresh : s.views ⟨s.stream.subscriptions.nextId⟩ = none := by
    cases there : s.views ⟨s.stream.subscriptions.nextId⟩ with
    | none => rfl
    | some v => exact absurd (registered.given _ v there) (Nat.lt_irrefl _)
  rw [views_listen, number, if_pos rfl, fresh]
  rfl

end ServerSide

namespace Engine

section Views

variable {e : Engine}

theorem config_meet (e : Engine) (happening : Happening) :
    (e.meet happening).config = e.config := by
  cases happening with
  | call action =>
    have moved := congrArg ServerSide.config (e.serverSide_perform action)
    exact moved.trans (ServerSide.config_perform ..)
  | detach id => rfl
  | restock store => rfl

/-- While every view is tracked, a view is found under the name of its target. -/
theorem view?_eq_some (registered : e.serverSide.Registered) (served : e.serverSide.Served)
    {t : Target} {replicas : Replicas} :
    e.view? t = some replicas ↔ ∃ (id : TargetId) (v : View), e.views[id]? = some v ∧
      v.target.canonicalId = t.canonicalId ∧ v.replicas = replicas := by
  have found (id : TargetId) :
      e.stream.subscriptions.find? t = some id ↔
        e.stream.subscriptions.nameOf id = some t.canonicalId :=
    registered.named t.canonicalId id
  have name {id : TargetId} {v : View} (viewed : e.views[id]? = some v) :
      e.stream.subscriptions.nameOf id = some v.target.canonicalId :=
    registered.nameOf_view served (congrArg (Option.map View.serverView) viewed)
  simp only [view?, bind, Option.bind_eq_some_iff, pure, Option.some.injEq]
  constructor
  · rintro ⟨id, known, v, viewed, same⟩
    exact ⟨id, v, viewed, Option.some.inj ((name viewed).symm.trans ((found id).mp known)), same⟩
  · rintro ⟨id, v, viewed, named, same⟩
    exact ⟨id, (found id).mpr (named ▸ name viewed), v, viewed, same⟩

/-- The complete replicas are those that are to be stored. -/
theorem complete?_eq_some (registered : e.serverSide.Registered) (served : e.serverSide.Served)
    (persist : e.config.persistViews = true) {t : Target} {r : Replica} :
    e.complete? t = some r ↔ ∃ id, e.serverSide.entry? id = some (t.canonicalId, r) := by
  have stored (id : TargetId) : e.serverSide.entry? id = some (t.canonicalId, r) ↔
      ∃ v, e.views[id]? = some v ∧ v.replicas.server.initialized = true ∧
        v.target.canonicalId = t.canonicalId ∧ v.replicas.server.unedited = r := by
    rw [ServerSide.entry?_eq_some, serverSide_views]
    constructor
    · rintro ⟨-, _, there, complete, named, same⟩
      obtain ⟨v, viewed, rfl⟩ := Option.map_eq_some_iff.mp there
      exact ⟨v, viewed, complete, named, same⟩
    · rintro ⟨v, viewed, complete, named, same⟩
      exact ⟨persist, v.serverView, congrArg _ viewed, complete, named, same⟩
  simp only [stored, complete?, Option.bind_eq_some_iff, view?_eq_some registered served]
  constructor
  · rintro ⟨_, ⟨id, v, viewed, named, rfl⟩, kept⟩
    split at kept
    case isTrue complete => exact ⟨id, v, viewed, complete, named, Option.some.inj kept⟩
    case isFalse => cases kept
  · rintro ⟨id, v, viewed, complete, named, same⟩
    exact ⟨v.replicas, ⟨id, v, viewed, named, rfl⟩, by rw [if_pos complete, same]⟩

end Views

/-- What the store holds of each target is the last complete replica that the target had. -/
structure Archived (past : List Engine) (e : Engine) : Prop where
  kept : ∃ moments, Kept moments e
  persist : e.config.persistViews = true
  whole : ∀ name r, e.filed? name = some r → r.initialized = true
  last : ∀ t : Target, e.filed? t.canonicalId = lastComplete? (e :: past) t

section Archive

variable {past : List Engine} {e : Engine}

theorem Archived.served (archived : Archived past e) : e.serverSide.Served := by
  obtain ⟨moments, kept⟩ := archived.kept
  exact kept.history.served kept.orderly

theorem Archived.registered (archived : Archived past e) : e.serverSide.Registered := by
  obtain ⟨moments, kept⟩ := archived.kept
  exact kept.history.registered

theorem Archived.shelved (archived : Archived past e) : e.Shelved := by
  obtain ⟨moments, kept⟩ := archived.kept
  exact kept.shelved

/-- Over a store that works there is always an engine, without views at first. -/
theorem ofStore_of_works {store : Store} (works : store.failing = []) (config : Config) :
    ofStore config store = .ok { config, store, stream := .ofConfig config.backoff
                                 queue := .ofBatches store.undecided } := by
  unfold ofStore Store.loadPending Store.attempt
  rw [works]
  rfl

theorem view?_of_viewless (viewless : e.views = ∅) (t : Target) : e.view? t = none := by
  unfold view?
  cases e.stream.subscriptions.find? t with
  | none => rfl
  | some id => simp [viewless]

/-- An engine without views adds nothing to what was complete. -/
theorem lastComplete?_of_viewless (viewless : e.views = ∅) (t : Target) :
    lastComplete? (e :: past) t = lastComplete? past t := by
  rw [lastComplete?, List.findSome?_cons, complete?, view?_of_viewless viewless, Option.bind_none]
  rfl

/-- A new engine over a store finds there what the last one left. -/
theorem Archived.restart (archived : Archived past e) {config : Config} {next : Engine}
    (persist : config.persistViews = true) (read : ofStore config e.store = .ok next) :
    Archived (e :: past) next := by
  have kept := kept_ofStore read archived.shelved.works
  obtain ⟨pending, rfl⟩ := ofStore_eq read
  refine ⟨⟨[], kept⟩, persist, archived.whole, fun t => ?_⟩
  rw [lastComplete?_of_viewless rfl]
  exact archived.last t

/-- Nothing is stored but what is complete, so what is stored later was complete later. -/
theorem Archived.step (archived : Archived past e) {happening : Happening}
    (own : happening.KeepsStore) (orderly : Moment.Orderly ⟨e, happening⟩) :
    Archived (e :: past) (e.meet happening) := by
  obtain ⟨moments, kept⟩ := archived.kept
  obtain ⟨kept, shelves⟩ := kept.step own orderly
  have persist : (e.meet happening).config.persistViews = true :=
    e.config_meet happening ▸ archived.persist
  have complete (t : Target) (r : Replica) :=
    complete?_eq_some (t := t) (r := r) kept.history.registered
      (kept.history.served kept.orderly) persist
  refine ⟨⟨_, kept⟩, persist, fun name r stored => ?_, fun t => ?_⟩
  · rcases shelves.files name with same | ⟨id, r', here⟩
    · exact archived.whole name r (same ▸ stored)
    · obtain rfl := Option.some.inj (stored.symm.trans (shelves.filed id name r' here not_false))
      obtain ⟨-, v, -, whole, -, rfl⟩ := ServerSide.entry?_eq_some.mp here
      exact whole
  · rw [lastComplete?, List.findSome?_cons]
    cases now : (e.meet happening).complete? t with
    | some r =>
      obtain ⟨id, here⟩ := (complete t r).mp now
      exact shelves.filed id _ r here not_false
    | none =>
      rcases shelves.files t.canonicalId with same | ⟨id, r, here⟩
      · exact same.trans (archived.last t)
      · cases now.symm.trans ((complete t r).mpr ⟨id, here⟩)

end Archive

end Engine

/-- An engine lives on through a run that leaves the store to it and whose removals fit. -/
theorem Lived.run {past : List Engine} {e : Engine} (lived : Lived past e)
    {happenings : List Happening} (own : ∀ happening ∈ happenings, happening.KeepsStore)
    (orderly : ∀ m ∈ e.momentsOf happenings, m.Orderly) :
    Lived (((e.momentsOf happenings).map Moment.before).reverse ++ past)
      (e.meetAll happenings) := by
  induction happenings generalizing past e with
  | nil => exact lived
  | cons happening rest ih =>
    obtain ⟨unstocked, own⟩ := List.forall_mem_cons.mp own
    obtain ⟨here, orderly⟩ := List.forall_mem_cons.mp orderly
    have later := ih (lived.step unstocked here) own orderly
    rw [Engine.momentsOf, List.map_cons, List.reverse_cons, List.append_assoc]
    exact later

theorem Lived.archived {past : List Engine} {e : Engine} (lived : Lived past e) :
    Engine.Archived past e := by
  induction lived with
  | start persist empty works read =>
    have kept := Engine.kept_ofStore read works
    obtain ⟨pending, rfl⟩ := Engine.ofStore_eq read
    refine ⟨⟨[], kept⟩, persist, fun name r stored => ?_, fun t => ?_⟩
    · simp [Engine.filed?, empty] at stored
    · rw [Engine.lastComplete?_of_viewless rfl]
      simp [Engine.filed?, Engine.lastComplete?, empty]
  | step _ own orderly ih => exact ih.step own orderly
  | restart _ persist read ih => exact ih.restart persist read

namespace Engine

section Listening

variable {past : List Engine} {e : Engine}

/-- A target without a view is not tracked. -/
theorem Archived.unknown (archived : Archived past e) {t : Target} (unviewed : e.view? t = none) :
    e.stream.subscriptions.find? t = none := by
  cases known : e.stream.subscriptions.find? t with
  | none => rfl
  | some id =>
    obtain ⟨sub, entered, named⟩ := Option.map_eq_some_iff.mp
      ((archived.registered.named t.canonicalId id).mp known)
    obtain ⟨_, there, target, -⟩ := archived.registered.viewed id sub entered
    obtain ⟨v, viewed, rfl⟩ := Option.map_eq_some_iff.mp there
    have found := (view?_eq_some archived.registered archived.served (t := t)).mpr
      ⟨id, v, viewed, (congrArg Target.canonicalId target).trans named, rfl⟩
    cases unviewed.symm.trans found

/-- Listening to a target without a view gives it a view of what is stored. -/
theorem Archived.listen (archived : Archived past e) {t : Target} (unviewed : e.view? t = none) :
    ∃ replicas, (e.listen t).2.view? t = some replicas ∧
      replicas.server.unedited = (lastComplete? (e :: past) t).getD (.blank 0) := by
  have own : (Happening.call (.listen t)).KeepsStore := by
    intro store restocked
    cases restocked
  have orderly : Moment.Orderly ⟨e, .call (.listen t)⟩ := by
    rintro ids cause ⟨action, same, -, now, rfl⟩
    cases same
  have after : Archived (e :: past) (e.listen t).2 := archived.step own orderly
  have made :=
    archived.registered.views_listen_of_unknown (archived.unknown unviewed) (e.storedServer t)
  rw [← serverSide_listen] at made
  obtain ⟨v, viewed, same⟩ := Option.map_eq_some_iff.mp made
  obtain ⟨target, server, -⟩ := ServerView.mk.inj same
  refine ⟨v.replicas, ?_, ?_⟩
  · exact (view?_eq_some after.registered after.served).mpr
      ⟨_, v, viewed, congrArg Target.canonicalId target, rfl⟩
  · rw [server, storedServer_eq archived.shelved.works, archived.last]

/-- What is stored of views is complete, and of each target it is the last that was. Take an
    engine that lives over a store that was without views at first. Every stored replica is
    complete, every complete view is stored as it is, and for each target the store holds the last
    complete replica that a view of it had, whether that view is still there, is incomplete after a
    reset or is gone. So a new view starts with the last complete replica or with nothing. This
    holds of any engine that takes over the store, at any time. Engine and store know a target by
    its canonical name, so targets that share one count as one target here: they have one view,
    and the replica that is stored may be one of either. -/
theorem stored_views_are_last_complete (lived : Lived past e) :
    (∀ (name : String) stored, e.store.views[name]? = some stored →
      stored.server.initialized = true) ∧
    (∀ (id : TargetId) v, e.views[id]? = some v → v.replicas.server.initialized = true →
      ∃ stored, e.store.views[v.target.canonicalId]? = some stored ∧
        stored.server.unedited = v.replicas.server.unedited) ∧
    (∀ t : Target, e.store.views[t.canonicalId]?.map (·.server.unedited) =
      lastComplete? (e :: past) t) ∧
    (∀ t : Target, e.view? t = none → ∃ replicas, (e.listen t).2.view? t = some replicas ∧
      replicas.server.unedited = (lastComplete? (e :: past) t).getD (.blank 0)) ∧
    ∀ config : Config, config.persistViews = true → ∃ next, ofStore config e.store = .ok next ∧
      Lived (e :: past) next ∧ ∀ t : Target, ∃ replicas, (next.listen t).2.view? t = some replicas ∧
        replicas.server.unedited = (lastComplete? (e :: past) t).getD (.blank 0) := by
  have archived := lived.archived
  refine ⟨fun name stored held => ?_, fun id v viewed complete => ?_, archived.last,
    fun t => archived.listen, fun config persist => ?_⟩
  · exact archived.whole name stored.server.unedited (congrArg _ held)
  · have entry : e.serverSide.entry? id =
        some (v.target.canonicalId, v.replicas.server.unedited) :=
      ServerSide.entry?_eq_some.mpr
        ⟨archived.persist, v.serverView,
          congrArg (Option.map View.serverView) viewed, complete, rfl, rfl⟩
    exact Option.map_eq_some_iff.mp (archived.shelved.filed id _ _ entry not_false)
  · have read := ofStore_of_works archived.shelved.works config
    have lives := lived.restart persist read
    refine ⟨_, read, lives, fun t => ?_⟩
    obtain ⟨replicas, viewed, server⟩ := lives.archived.listen (view?_of_viewless rfl t)
    exact ⟨replicas, viewed, server.trans (by rw [lastComplete?_of_viewless rfl])⟩

end Listening

/-- The engine that takes over after a collection was completed. -/
def successor : Engine where
  config := {}
  store := (blank.meetAll plainRun).store
  stream := .ofConfig .standard
  queue := .ofBatches (blank.meetAll plainRun).store.undecided

/-- The server starts the collection over and reports another document of it. A snapshot comes
    before the collection is complete. -/
def resetRun : List Happening :=
  [.call (.listen (.query (.ofPath "c"))), .call .connect, .call (.handle .opened .zero),
    .call .takeOutbound, .call (.handle (.watch (.targetAdded [⟨1⟩])) .zero),
    .call (.handle (.watch (.documentChanged ⟨⟨"c/b"⟩, ⟨2⟩, some ∅, false⟩ [⟨1⟩] [])) .zero),
    .call (.handle (.watch (.snapshot ⟨2⟩)) .zero)]

/-- The view then holds only the other document, and the next engine is given the first one. -/
theorem reset_is_not_served : ∃ past next replicas,
    Lived past (successor.meetAll resetRun) ∧
      ((successor.meetAll resetRun).views[(⟨1⟩ : TargetId)]?.any fun v =>
        !v.replicas.server.initialized && v.replicas.server.documents.keys == [⟨"c/b"⟩]) = true ∧
      ofStore {} (successor.meetAll resetRun).store = .ok next ∧
      (next.listen (.query (.ofPath "c"))).2.view? (.query (.ofPath "c")) = some replicas ∧
      replicas.server.initialized = true ∧ replicas.server.documents.keys = [⟨"c/a"⟩] := by
  have read : ofStore {} {} = .ok blank := rfl
  have first : Lived _ (blank.meetAll plainRun) := Lived.run (.start rfl rfl rfl read)
    (by simp [plainRun, Happening.KeepsStore]) (orderly_of_unremoved (by simp [plainRun]))
  have read' : ofStore {} (blank.meetAll plainRun).store = .ok successor :=
    ofStore_of_works first.archived.shelved.works {}
  have second : Lived _ (successor.meetAll resetRun) := Lived.run (first.restart rfl read')
    (by simp [resetRun, Happening.KeepsStore]) (orderly_of_unremoved (by simp [resetRun]))
  obtain ⟨-, -, last, -, restarts⟩ := stored_views_are_last_complete second
  obtain ⟨next, read, -, served⟩ := restarts {} rfl
  obtain ⟨replicas, viewed, server⟩ := served (.query (.ofPath "c"))
  rw [← last] at server
  refine ⟨_, next, replicas, second, by decide +kernel, read, viewed, ?_, ?_⟩
  · exact (congrArg Replica.initialized server).trans (by decide +kernel)
  · exact (congrArg (fun r : Replica => r.documents.keys) server).trans (by decide +kernel)

end Engine

end LiveQuery
