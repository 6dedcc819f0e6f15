import LiveQuery.Proofs.StoredViews

/-!
# What writes cannot reach

Take two runs of an engine over stores that never fail and that hold the same of the
server. In both the same calls are made but for those on writes: what is submitted, and
what the server decides on it, may be different in each, and so may the batches that
the stores brought along. Then the two engines agree in all that faces the server, their
stores hold the same of it, and the server was sent the same requests on targets.

A call on writes moves neither the side that faces the server nor the stored replicas.
Every other call moves both by what they were before.
-/

namespace LiveQuery

open Std

/-- The request, if it is on a target. -/
def StreamRequest.watch? : StreamRequest → Option WatchRequest
  | .watch request => some request
  | .write _ => none

namespace Engine

/-- A call that hands an engine writes or the decision on some. -/
def Action.writes : Action → Bool
  | .submit _ | .handle (.writeAcked ..) _ | .handle (.writeRejected ..) _ => true
  | _ => false

/-- The requests on targets that a call hands out. -/
def Reply.watchRequests : Reply → List WatchRequest
  | .requests all => all.filterMap StreamRequest.watch?
  | _ => []

/-- The engine after all that befell it. -/
def meetAll (e : Engine) (happenings : List Happening) : Engine := happenings.foldl meet e

/-- The moments of what befalls an engine, the first one first. -/
def momentsOf (e : Engine) : List Happening → List Moment
  | [] => []
  | happening :: rest => ⟨e, happening⟩ :: (e.meet happening).momentsOf rest

end Engine

/-- The call that this is, if it is one and not on writes. -/
def Happening.common? : Happening → Option Engine.Action
  | .call action => if action.writes then none else some action
  | _ => none

theorem Happening.eq_call_of_common {happening : Happening} {action : Engine.Action}
    (shared : happening.common? = some action) : happening = .call action := by
  unfold common? at shared
  split at shared
  case h_1 =>
    split at shared
    case isTrue => cases shared
    case isFalse => rw [Option.some.inj shared]
  case h_2 => cases shared

/-- The store is left to the engine. -/
def Happening.KeepsStore (happening : Happening) : Prop := ∀ store, happening ≠ .restock store

namespace Moment

/-- Every removal that comes is of different targets, all of them tracked. -/
def Orderly (m : Moment) : Prop :=
  ∀ ids cause, m.Brings (.targetRemoved ids cause) → m.before.stream.Fits ids

/-- The requests on targets that are handed out. -/
def watchRequests (m : Moment) : List WatchRequest :=
  match m.happening with
  | .call action => (m.before.perform action).1.watchRequests
  | _ => []

/-- A removal that fits strands nobody. -/
theorem Orderly.spares {m : Moment} (orderly : m.Orderly) (t : TargetId) : ¬m.Strands t := by
  rintro ⟨action, same, change, brings, -, front, ids, status, rfl, ⟨-, bad, rest, rfl, broken⟩, -⟩
  obtain ⟨distinct, known⟩ := orderly _ _ ⟨action, same, brings⟩
  rcases broken with again | unknown
  · exact (List.nodup_append.mp distinct).2.2 bad again bad List.mem_cons_self rfl
  · exact unknown (known bad (List.mem_append_right front List.mem_cons_self))

end Moment

/-- While every removal fits, every view is of a target that is tracked. -/
theorem History.served {past : List Moment} {e : Engine} (history : History past e)
    (orderly : ∀ m ∈ past, m.Orderly) : e.serverSide.Served := by
  intro id v viewed
  rcases history.registered.needed id v viewed with busy | tracked
  · obtain ⟨x, member⟩ := Engine.exists_listener busy
    obtain ⟨w, there, rfl⟩ := Option.map_eq_some_iff.mp viewed
    obtain ⟨l, entered, rfl⟩ := history.reachable.settled.informed.listed id w there x member
    obtain ⟨sub, there, -⟩ :=
      history.heard_of_unstranded entered fun m among => (orderly m among).spares l.target
    exact ⟨sub, there⟩
  · exact tracked

/-- Kept past e: the engine came to `e` through an orderly past, over a store that never fails and
    that nobody else wrote to. -/
structure Kept (past : List Moment) (e : Engine) : Prop where
  history : History past e
  orderly : ∀ m ∈ past, m.Orderly
  shelved : e.Shelved

section Kept

variable {past : List Moment} {e : Engine} {happening : Happening}

/-- In each moment of an orderly run only what it moves on is stored. -/
theorem Kept.step (kept : Kept past e) (own : happening.KeepsStore)
    (orderly : Moment.Orderly ⟨e, happening⟩) :
    Kept (⟨e, happening⟩ :: past) (e.meet happening) ∧ e.Shelves (e.meet happening) := by
  have shelves : e.Shelves (e.meet happening) := by
    cases happening with
    | call action =>
      exact kept.shelved.perform kept.history.sound kept.history.registered
        (kept.history.served kept.orderly) action
    | detach id =>
      exact kept.shelved.still rfl
        (e.serverSide_detach id ▸ ServerSide.sheds_of_views rfl rfl)
    | restock store => exact absurd rfl (own store)
  exact ⟨⟨kept.history.step happening, List.forall_mem_cons.mpr ⟨orderly, kept.orderly⟩,
    shelves.toShelved⟩, shelves⟩

/-- What a call hands out for targets is what waits on the stream. -/
theorem Engine.watchRequests_perform (e : Engine) (action : Engine.Action) :
    (e.perform action).1.watchRequests = match action with
      | .takeOutbound => e.stream.takeOutbox.1
      | _ => [] := by
  cases action with
  | takeOutbound =>
    change e.takeOutbound.1.filterMap StreamRequest.watch? = e.stream.takeOutbox.1
    unfold takeOutbound WatchStream.takeOutbox
    split
    case isFalse => rfl
    case isTrue =>
      have watches (all : List WatchRequest) :
          (all.map StreamRequest.watch).filterMap StreamRequest.watch? = all := by
        rw [List.filterMap_map]
        exact List.filterMap_some
      have writes (all : List MutationBatch) :
          (all.map StreamRequest.write).filterMap StreamRequest.watch? = [] := by
        rw [List.filterMap_map]
        exact List.filterMap_eq_nil_iff.mpr fun _ _ => rfl
      dsimp only
      rw [List.filterMap_append, watches, writes, List.append_nil]
  | connect =>
    unfold Engine.perform
    dsimp only
    split <;> rfl
  | handle | listen | interrupt | resume | disconnect | resync | takeRestart => rfl
  | unlisten x =>
    unfold Engine.perform Engine.orRefuse
    dsimp only
    split <;> rfl
  | submit mutations =>
    unfold Engine.perform
    dsimp only
    split <;> rfl
  | applyRemote event =>
    unfold Engine.perform Engine.orRefuse
    dsimp only
    split <;> rfl

/-- Calls on writes move neither the server's side nor what is stored of it, and they hand out no
    request on targets. -/
theorem Engine.meet_quiet (quiet : happening.common? = none) (own : happening.KeepsStore) :
    (e.meet happening).serverSide = e.serverSide ∧ (e.meet happening).filed? = e.filed? ∧
      Moment.watchRequests ⟨e, happening⟩ = [] := by
  cases happening with
  | detach id => exact ⟨e.serverSide_detach id, rfl, rfl⟩
  | restock store => exact absurd rfl (own store)
  | call action =>
    have writes : action.writes = true := by
      by_contra others
      rw [Happening.common?, if_neg others] at quiet
      cases quiet
    unfold Engine.Action.writes at writes
    split at writes
    case h_1 mutations =>
      refine ⟨?_, ?_, e.watchRequests_perform _⟩
      · rw [Engine.meet, e.perform_submit]
        exact e.serverSide_submit mutations
      · rw [Engine.meet, e.perform_submit]
        exact Engine.filed?_of_shelf (e.shelf_submit mutations)
    case h_2 id commit now =>
      exact ⟨e.serverSide_acknowledge id commit,
        Engine.filed?_of_shelf (e.shelf_acknowledge id commit), rfl⟩
    case h_3 id status now =>
      exact ⟨e.serverSide_reject id status,
        Engine.filed?_of_shelf (e.shelf_reject id status), rfl⟩
    case h_4 => cases writes

end Kept

namespace Engine

/-- Two engines agree in all that faces the server, and their stores hold the same of it. -/
structure SameServer (e f : Engine) : Prop where
  side : f.serverSide = e.serverSide
  filed : f.filed? = e.filed?

section Runs

variable {past past' : List Moment} {e f : Engine}

/-- What the stores hold of a target is what a view of it starts with. -/
theorem SameServer.stored (same : e.SameServer f) (works : e.store.failing = [])
    (works' : f.store.failing = []) : f.storedServer = e.storedServer := by
  funext t
  rw [storedServer_eq works, storedServer_eq works', same.filed]

/-- A call that both engines get keeps them in agreement, and both hand out the same. -/
theorem SameServer.call (same : e.SameServer f) (kept : Kept past e) (kept' : Kept past' f)
    {action : Action} (orderly : Moment.Orderly ⟨e, .call action⟩)
    (orderly' : Moment.Orderly ⟨f, .call action⟩) :
    (e.meet (.call action)).SameServer (f.meet (.call action)) ∧
      Moment.watchRequests ⟨f, .call action⟩ = Moment.watchRequests ⟨e, .call action⟩ := by
  have side : (f.meet (.call action)).serverSide = (e.meet (.call action)).serverSide := by
    rw [meet, meet, serverSide_perform, serverSide_perform, same.side,
      same.stored kept.shelved.works kept'.shelved.works]
  have own : (Happening.call action).KeepsStore := by
    intro store restocked
    cases restocked
  obtain ⟨-, shelves⟩ := kept.step own orderly
  obtain ⟨-, shelves'⟩ := kept'.step own orderly'
  have files := shelves'.files
  rw [side, same.filed] at files
  refine ⟨⟨side, shelves.files.unique files shelves.filed (side ▸ shelves'.filed)⟩, ?_⟩
  have stream : f.stream = e.stream := congrArg ServerSide.stream same.side
  change (f.perform action).1.watchRequests = (e.perform action).1.watchRequests
  rw [watchRequests_perform, watchRequests_perform, stream]

/-- What only some writes befall stays as it was. -/
theorem SameServer.quiet (same : e.SameServer f) (kept : Kept past f) {happenings : List Happening}
    (quiet : ∀ happening ∈ happenings, happening.common? = none)
    (own : ∀ happening ∈ happenings, happening.KeepsStore)
    (orderly : ∀ m ∈ f.momentsOf happenings, m.Orderly) :
    e.SameServer (f.meetAll happenings) ∧ (∃ past, Kept past (f.meetAll happenings)) ∧
      (f.momentsOf happenings).flatMap Moment.watchRequests = [] := by
  induction happenings generalizing past f with
  | nil => exact ⟨same, ⟨past, kept⟩, rfl⟩
  | cons happening rest ih =>
    obtain ⟨silent, quiet⟩ := List.forall_mem_cons.mp quiet
    obtain ⟨unstocked, own⟩ := List.forall_mem_cons.mp own
    obtain ⟨here, orderly⟩ := List.forall_mem_cons.mp orderly
    obtain ⟨side, filed, nothing⟩ := meet_quiet (e := f) silent unstocked
    obtain ⟨last, kept, none_asked⟩ := ih ⟨side.trans same.side, filed.trans same.filed⟩
      (kept.step unstocked here).1 quiet own orderly
    refine ⟨last, kept, ?_⟩
    rw [momentsOf, List.flatMap_cons, nothing]
    exact none_asked

theorem momentsOf_append (e : Engine) (front back : List Happening) :
    e.momentsOf (front ++ back) = e.momentsOf front ++ (e.meetAll front).momentsOf back := by
  induction front generalizing e with
  | nil => rfl
  | cons happening rest ih => exact congrArg (_ :: ·) (ih (e.meet happening))

/-- Runs that share all but what has to do with writes keep two engines in agreement. -/
theorem SameServer.run (same : e.SameServer f) (kept : Kept past e) (kept' : Kept past' f)
    {happenings others : List Happening}
    (common : others.filterMap Happening.common? = happenings.filterMap Happening.common?)
    (own : ∀ happening ∈ happenings, happening.KeepsStore)
    (own' : ∀ happening ∈ others, happening.KeepsStore)
    (orderly : ∀ m ∈ e.momentsOf happenings, m.Orderly)
    (orderly' : ∀ m ∈ f.momentsOf others, m.Orderly) :
    (e.meetAll happenings).SameServer (f.meetAll others) ∧
      (f.momentsOf others).flatMap Moment.watchRequests =
        (e.momentsOf happenings).flatMap Moment.watchRequests := by
  induction happenings generalizing past past' e f others with
  | nil =>
    obtain ⟨last, -, nothing⟩ :=
      same.quiet kept' (List.filterMap_eq_nil_iff.mp common) own' orderly'
    exact ⟨last, nothing⟩
  | cons happening rest ih =>
    obtain ⟨unstocked, ownLater⟩ := List.forall_mem_cons.mp own
    obtain ⟨here, orderlyLater⟩ := List.forall_mem_cons.mp orderly
    cases shared : happening.common? with
    | none =>
      obtain ⟨side, filed, nothing⟩ := meet_quiet (e := e) shared unstocked
      rw [List.filterMap_cons_none shared] at common
      obtain ⟨last, asked⟩ := ih ⟨same.side.trans side.symm, same.filed.trans filed.symm⟩
        (kept.step unstocked here).1 kept' common ownLater own' orderlyLater orderly'
      refine ⟨last, asked.trans ?_⟩
      rw [momentsOf, List.flatMap_cons, nothing]
      rfl
    | some action =>
      rw [List.filterMap_cons_some shared] at common
      obtain ⟨front, other, back, rfl, quiet, shared', commonBack⟩ :=
        List.filterMap_eq_cons_iff.mp common
      obtain rfl := Happening.eq_call_of_common shared
      obtain rfl := Happening.eq_call_of_common shared'
      obtain ⟨ownFront, ownRest⟩ := List.forall_mem_append.mp own'
      obtain ⟨unstocked', ownBack⟩ := List.forall_mem_cons.mp ownRest
      rw [momentsOf_append] at orderly' ⊢
      obtain ⟨orderlyFront, orderlyRest⟩ := List.forall_mem_append.mp orderly'
      obtain ⟨here', orderlyBack⟩ := List.forall_mem_cons.mp orderlyRest
      obtain ⟨waited, ⟨_, keptThere⟩, nothing⟩ := same.quiet kept' quiet ownFront orderlyFront
      obtain ⟨agreed, asked⟩ := waited.call kept keptThere here here'
      obtain ⟨last, askedBack⟩ := ih agreed (kept.step unstocked here).1
        (keptThere.step unstocked' here').1 commonBack ownLater ownBack orderlyLater orderlyBack
      refine ⟨?_, ?_⟩
      · have joined : f.meetAll (front ++ .call action :: back) =
            ((f.meetAll front).meet (.call action)).meetAll back := List.foldl_append
        exact joined ▸ last
      · rw [List.flatMap_append, nothing, momentsOf, momentsOf, List.flatMap_cons,
          List.flatMap_cons, asked, askedBack]
        rfl

/-- A new engine has nothing to store. -/
theorem kept_ofStore {config : Config} {store : Store} (read : ofStore config store = .ok e)
    (works : store.failing = []) : Kept [] e := by
  refine ⟨.start read, List.forall_mem_nil _, ?_⟩
  obtain ⟨pending, rfl⟩ := ofStore_eq read
  refine ⟨works, fun id name r stored _ => ?_⟩
  obtain ⟨-, v, viewed, -⟩ := ServerSide.entry?_eq_some.mp stored
  cases viewed

/-- What has to do with the server does not depend on writes. Two engines start with the same
    configuration over stores that never fail and that hold the same views of the server, and the
    same calls come to both, but for the submitted batches and the decisions on batches, while all
    removals fit. Then the two engines have the same views with the same replicas of the server, the
    same subscriptions and the same listeners, their stores hold the same replicas of the server,
    and both have handed out the same requests on targets. -/
theorem server_side_ignores_writes {config : Config} {store other : Store}
    (read : ofStore config store = .ok e) (read' : ofStore config other = .ok f)
    (works : store.failing = []) (works' : other.failing = [])
    (views : ∀ name : String, other.views[name]?.map (·.server.unedited) =
      store.views[name]?.map (·.server.unedited))
    {happenings others : List Happening}
    (common : others.filterMap Happening.common? = happenings.filterMap Happening.common?)
    (own : ∀ happening ∈ happenings, happening.KeepsStore)
    (own' : ∀ happening ∈ others, happening.KeepsStore)
    (orderly : ∀ m ∈ e.momentsOf happenings, m.Orderly)
    (orderly' : ∀ m ∈ f.momentsOf others, m.Orderly) :
    (f.meetAll others).serverSide = (e.meetAll happenings).serverSide ∧
      (f.meetAll others).filed? = (e.meetAll happenings).filed? ∧
      (f.momentsOf others).flatMap Moment.watchRequests =
        (e.momentsOf happenings).flatMap Moment.watchRequests := by
  have start : e.SameServer f := by
    obtain ⟨pending, rfl⟩ := ofStore_eq read
    obtain ⟨pending', rfl⟩ := ofStore_eq read'
    exact ⟨rfl, funext views⟩
  obtain ⟨⟨side, filed⟩, asked⟩ := start.run (kept_ofStore read works) (kept_ofStore read' works')
    common own own' orderly orderly'
  exact ⟨side, filed, asked⟩

end Runs

theorem mem_momentsOf {e : Engine} {happenings : List Happening} {m : Moment}
    (member : m ∈ e.momentsOf happenings) : m.happening ∈ happenings := by
  induction happenings generalizing e with
  | nil => cases member
  | cons happening rest ih =>
    rcases List.mem_cons.mp member with rfl | later
    · exact List.mem_cons_self
    · exact List.mem_cons_of_mem _ (ih later)

/-- A removal. -/
def removed (ids : List TargetId) (cause : Option Status) : Happening :=
  .call (.handle (.watch (.targetRemoved ids cause)) .zero)

/-- A run without removals is orderly. -/
theorem orderly_of_unremoved {e : Engine} {happenings : List Happening}
    (others : ∀ ids cause now,
      .call (.handle (.watch (.targetRemoved ids cause)) now) ∉ happenings) :
    ∀ m ∈ e.momentsOf happenings, m.Orderly := by
  rintro m among ids cause ⟨action, same, -, now, rfl⟩
  exact absurd (same ▸ mem_momentsOf among) (others ids cause now)

/-- A run is orderly if its only removal is the last thing that happens, and fits. -/
theorem orderly_of_last {e : Engine} {happenings : List Happening} {ids : List TargetId}
    {cause : Option Status}
    (others : ∀ ids cause now,
      .call (.handle (.watch (.targetRemoved ids cause)) now) ∉ happenings)
    (fits : (e.meetAll happenings).stream.Fits ids) :
    ∀ m ∈ e.momentsOf (happenings ++ [removed ids cause]), m.Orderly := by
  rw [momentsOf_append]
  refine List.forall_mem_append.mpr
    ⟨orderly_of_unremoved others, List.forall_mem_singleton.mpr ?_⟩
  · rintro other cause ⟨action, same, -, now, rfl⟩
    obtain ⟨rfl, -⟩ := WatchChange.targetRemoved.inj
      (StreamEvent.watch.inj (Action.handle.inj (Happening.call.inj same)).1)
    exact fits

/-- A collection is listened to, and the server reports a document of it. -/
def plainRun : List Happening :=
  [.call (.listen (.query (.ofPath "c"))), .call .connect, .call (.handle .opened .zero),
    .call .takeOutbound, .call (.handle (.watch (.targetAdded [⟨1⟩])) .zero),
    .call (.handle (.watch (.documentChanged ⟨⟨"c/a"⟩, ⟨1⟩, some ∅, false⟩ [⟨1⟩] [])) .zero),
    .call (.handle (.watch (.current ⟨1⟩ ⟨[]⟩)) .zero),
    .call (.handle (.watch (.snapshot ⟨1⟩)) .zero)]

/-- In the other run a document of the collection is deleted, and then the server commits the batch
    that the store brought along. -/
def writingRun : List Happening :=
  .call (.submit [.delete ⟨"c/a"⟩]) :: plainRun ++
    [.call (.handle (.writeAcked ⟨1⟩ ⟨1⟩) .zero)]

/-- A store with a batch that is not decided. -/
def undecidedStore : Store :=
  { pending := (∅ : ExtTreeMap BatchId MutationBatch).insert ⟨1⟩ ⟨⟨1⟩, [.set ⟨"c/b"⟩ ∅]⟩ }

/-- The engine over it, with the batch in its queue. -/
def restored : Engine where
  config := {}
  store := undecidedStore
  stream := .ofConfig .standard
  queue := .ofBatches undecidedStore.undecided

/-- The second engine does not show the document. Yet it holds the same of the server, even after
    the server dropped the collection. -/
theorem deletion_is_unseen :
    let e := blank.meetAll (plainRun ++ [removed [⟨1⟩] none])
    let f := restored.meetAll (writingRun ++ [removed [⟨1⟩] none])
    (e.views[(⟨1⟩ : TargetId)]?.any fun v => !v.result.isEmpty) = true ∧
      (f.views[(⟨1⟩ : TargetId)]?.any fun v => v.result.isEmpty) = true ∧
      (e.filed? "query:c").isSome = true ∧
      f.serverSide = e.serverSide ∧ f.filed? = e.filed? := by
  intro e f
  have read : ofStore {} {} = .ok blank := rfl
  have read' : ofStore {} undecidedStore = .ok restored := rfl
  have fits : (blank.meetAll plainRun).stream.Fits [⟨1⟩] := by
    refine ⟨by simp, List.forall_mem_singleton.mpr ?_⟩
    decide +kernel
  have fits' : (restored.meetAll writingRun).stream.Fits [⟨1⟩] := by
    refine ⟨by simp, List.forall_mem_singleton.mpr ?_⟩
    decide +kernel
  have common : (writingRun ++ [removed [⟨1⟩] none]).filterMap Happening.common? =
      (plainRun ++ [removed [⟨1⟩] none]).filterMap Happening.common? := rfl
  obtain ⟨side, filed, -⟩ := server_side_ignores_writes read read' rfl rfl (fun name => rfl) common
    (by simp [plainRun, removed, Happening.KeepsStore])
    (by simp [writingRun, plainRun, removed, Happening.KeepsStore])
    (orderly_of_last (by simp [plainRun]) fits)
    (orderly_of_last (by simp [writingRun, plainRun]) fits')
  refine ⟨by decide +kernel, by decide +kernel, by decide +kernel, side, filed⟩

end Engine

end LiveQuery
