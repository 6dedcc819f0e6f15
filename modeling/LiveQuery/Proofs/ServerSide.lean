import LiveQuery.Proofs.RepeatedEvents

/-!
# The side that faces the server

Much of what an engine holds has to do with the server alone: the stream, what the
server reported of each target, and who listens to what. This side is a machine of
its own. It has no queue of writes, shows nothing and tells nobody anything, and yet
it moves as the engine does: every call takes the engine's side to where the call
takes the side. The only thing that comes from elsewhere is the stored view with
which a new one starts.

A replica counts here without its edition, since editions are used up by what is
shown.
-/

namespace LiveQuery

open Std

/-- The replica without its edition. -/
def Replica.unedited (r : Replica) : Replica := { r with edition := 0 }

/-- What is held of the server for one target, and who listens to it. -/
structure ServerView where
  target : Target
  server : Replica
  listeners : ExtTreeSet ListenerId

/-- The view without what it shows. -/
def View.serverView (v : View) : ServerView := ⟨v.target, v.replicas.server.unedited, v.listeners⟩

/-- What an engine holds that has to do with the server alone. -/
structure ServerSide where
  config : Config
  stream : WatchStream
  views : TargetId → Option ServerView
  /-- The target of each listener. -/
  listeners : ListenerId → Option TargetId
  nextListener : Nat
  lastSnapshot : Version
  enabled : Bool
  restartRequested : Bool

namespace ServerSide

/-- Views that nobody listens to go with their subscriptions. -/
def prune (s : ServerSide) : ServerSide :=
  { s with views := fun id =>
      (s.views id).filter fun v => !v.listeners.isEmpty || s.stream.subscriptions.contains id }

/-- A rejected target loses its view, and the listeners of the view are struck off. -/
def rejectTarget (s : ServerSide) (r : Rejection) : ServerSide :=
  { s with
    views := fun id => if r.target = id then none else s.views id
    listeners := fun x =>
      if (s.views r.target).any (·.listeners.contains x) then none else s.listeners x }

def rejectTargets (s : ServerSide) (rejections : List Rejection) : ServerSide :=
  rejections.foldl rejectTarget s

/-- A view is made with the given replica unless there is one. -/
def ensureView (s : ServerSide) (id : TargetId) (t : Target) (server : Replica) : ServerSide :=
  { s with views := fun other =>
      if id = other then (s.views id).or (some ⟨t, server, ∅⟩) else s.views other }

/-- The view of one target with other listeners. -/
def relist (s : ServerSide) (id : TargetId)
    (f : ExtTreeSet ListenerId → ExtTreeSet ListenerId) : TargetId → Option ServerView :=
  fun other =>
    if id = other then (s.views id).map fun v => { v with listeners := f v.listeners }
    else s.views other

/-- The next listener is entered. -/
def attach (s : ServerSide) (id : TargetId) : ServerSide :=
  { s with
    nextListener := s.nextListener + 1
    listeners := fun x => if ⟨s.nextListener⟩ = x then some id else s.listeners x
    views := s.relist id (·.insert ⟨s.nextListener⟩) }

/-- A listener of a target is struck off. -/
def forget (s : ServerSide) (x : ListenerId) (id : TargetId) : ServerSide :=
  { s with
    listeners := fun y => if x = y then none else s.listeners y
    views := s.relist id (·.erase x) }

def listen (s : ServerSide) (t : Target) (server : Replica) : ServerSide :=
  let (id, stream) := s.stream.listen t
  ({ s with stream }.ensureView id t server).attach id

/-- The last listener that leaves ends the subscription. -/
def unlisten (s : ServerSide) (x : ListenerId) : ServerSide :=
  match s.listeners x with
  | none => s
  | some id =>
    let left := s.forget x id
    if (left.views id).any (·.listeners.isEmpty) then
      { left with stream := left.stream.unlisten id }.prune
    else left

/-- The first target of a snapshot that counts and yet has no view. -/
def viewless? (s : ServerSide) (event : RemoteEvent) : Option TargetId :=
  event.affected.toList.find? fun id =>
    !(s.views id).isSome && s.stream.subscriptions.isActive id

/-- A snapshot is taken into the replicas of the targets that it concerns. -/
def takeIn (s : ServerSide) (event : RemoteEvent) : ServerSide :=
  { s with
    lastSnapshot := s.lastSnapshot.later event.version
    views := fun id => (s.views id).map fun v =>
      if id ∈ event.affected.toList then
        { v with server := event.applyTo id v.target.isFiltered v.server 0 }
      else v }

def applyRemote (s : ServerSide) (event : RemoteEvent) : ServerSide :=
  if (s.viewless? event).isSome then s else s.takeIn event

def resync (s : ServerSide) : ServerSide :=
  { s with stream := s.stream.restart, restartRequested := true }.prune

/-- What a report leads to. -/
def follow (s : ServerSide) : Except Fault WatchOutcome → ServerSide
  | .ok .collected => s
  | .ok (.snapshot event) => if (s.viewless? event).isSome then s.resync else s.takeIn event
  | .ok (.rejected rejections) => s.rejectTargets rejections
  | .error _ => s.resync

def receive (s : ServerSide) (change : WatchChange) : ServerSide :=
  if s.stream.state ≠ .opened then s
  else ({ s with stream := (s.stream.receive change).1 }.follow (s.stream.receive change).2).prune

def streamClosed (s : ServerSide) (error : Option StreamError) (now : Duration) : ServerSide :=
  let (rejections, stream) := s.stream.closed error now
  ({ s with stream }.rejectTargets rejections).prune

def disconnect (s : ServerSide) : ServerSide :=
  if s.stream.state.isStarted then { s with stream := s.stream.disconnect }.prune else s

def interrupt (s : ServerSide) : ServerSide :=
  if s.enabled then { s with enabled := false }.disconnect else s

/-- An event of the stream. Decisions on writes are none of its business. -/
def handle (s : ServerSide) (event : StreamEvent) (now : Duration) : ServerSide :=
  match event with
  | .opened => { s with stream := s.stream.opened now }
  | .watch change => s.receive change
  | .writeAcked .. | .writeRejected .. => s
  | .closed error => s.streamClosed error now

/-- One call, given the stored replicas. -/
def perform (s : ServerSide) (stored : Target → Replica) : Engine.Action → ServerSide
  | .connect => { s with stream := s.stream.connect?.getD s.stream }
  | .handle event now => s.handle event now
  | .listen target => s.listen target (stored target)
  | .unlisten x => s.unlisten x
  | .submit _ => s
  | .takeOutbound => { s with stream := s.stream.takeOutbox.2 }
  | .applyRemote event => s.applyRemote event
  | .interrupt => s.interrupt
  | .resume => { s with enabled := true }
  | .disconnect => s.disconnect
  | .resync => s.resync
  | .takeRestart => { s with restartRequested := false }

end ServerSide

namespace Engine

/-- The side of an engine that faces the server. -/
def serverSide (e : Engine) : ServerSide where
  config := e.config
  stream := e.stream
  views id := e.views[id]?.map View.serverView
  listeners := e.listenerTarget?
  nextListener := e.nextListener
  lastSnapshot := e.lastSnapshot
  enabled := e.enabled
  restartRequested := e.restartRequested

/-- The replica with which a new view of a target starts. -/
def storedServer (e : Engine) (t : Target) : Replica := (e.startingServer t).unedited

section Side

variable {e after : Engine}

/-- The server's side of engines that agree in all of its parts. -/
theorem serverSide_congr (config : after.config = e.config) (stream : after.stream = e.stream)
    (views : ∀ id : TargetId, after.views[id]?.map View.serverView =
      e.views[id]?.map View.serverView)
    (listeners : ∀ x, after.listenerTarget? x = e.listenerTarget? x)
    (nextListener : after.nextListener = e.nextListener)
    (lastSnapshot : after.lastSnapshot = e.lastSnapshot) (enabled : after.enabled = e.enabled)
    (restartRequested : after.restartRequested = e.restartRequested) :
    after.serverSide = e.serverSide := by
  rw [serverSide, serverSide, config, stream, nextListener, lastSnapshot, enabled,
    restartRequested, funext views, funext listeners]

/-- Steps that leave the server's side alone, one after the other. -/
theorem serverSide_foldl {α : Type} {step : Engine → α → Engine}
    (each : ∀ (e : Engine) a, (step e a).serverSide = e.serverSide) (steps : List α) (e : Engine) :
    (steps.foldl step e).serverSide = e.serverSide := by
  induction steps generalizing e with
  | nil => rfl
  | cons first rest ih => exact (ih (step e first)).trans (each e first)

@[simp] theorem serverSide_deliver (e : Engine) (x : ListenerId) (l : Listener)
    (event : ListenEvent) : (e.deliver x l event).serverSide = e.serverSide := by
  unfold deliver
  split <;> rfl

/-- Telling a listener leaves it with its target. -/
@[simp] theorem serverSide_inform (e : Engine) (v : View) (flags : Flags) (x : ListenerId) :
    (e.inform v flags x).serverSide = e.serverSide := by
  unfold inform
  split
  case h_1 => rfl
  case h_2 l entered =>
    split
    case h_1 => rfl
    case h_2 =>
      dsimp only
      rw [serverSide_deliver]
      refine serverSide_congr rfl rfl (fun _ => rfl) (fun y => ?_) rfl rfl rfl rfl
      rw [listenerTarget?, listenerTarget?, ExtTreeMap.getElem?_insert]
      simp only [LawfulEqOrd.compare_eq_iff_eq]
      split
      case isTrue same => rw [← same, entered]; rfl
      case isFalse => rfl

@[simp] theorem serverSide_dispatch (e : Engine) (id : TargetId) :
    (e.dispatch id).serverSide = e.serverSide := by
  unfold dispatch
  split
  · rfl
  · exact serverSide_foldl (fun e => e.serverSide_inform _ _) _ e

@[simp] theorem serverSide_dispatchAll (e : Engine) : e.dispatchAll.serverSide = e.serverSide :=
  serverSide_foldl serverSide_dispatch _ e

/-- Editing what views show, and the listeners that are told, leaves the server's side alone. -/
theorem serverSide_of_modify {id : TargetId} {shown : View → Replica}
    (views : after.views = e.views.modify id fun v => v.withShown (shown v))
    (config : after.config = e.config) (stream : after.stream = e.stream)
    (listeners : ∀ x, after.listenerTarget? x = e.listenerTarget? x)
    (nextListener : after.nextListener = e.nextListener)
    (lastSnapshot : after.lastSnapshot = e.lastSnapshot) (enabled : after.enabled = e.enabled)
    (restartRequested : after.restartRequested = e.restartRequested) :
    after.serverSide = e.serverSide := by
  refine serverSide_congr config stream (fun other => ?_) listeners nextListener lastSnapshot
    enabled restartRequested
  rw [views, ExtTreeMap.getElem?_modify]
  split
  case isTrue same =>
    rw [← LawfulEqOrd.eq_of_compare same, Option.map_map]
    rfl
  case isFalse => rfl

@[simp] theorem serverSide_recompute (e : Engine) (id : TargetId) :
    (e.recompute id).serverSide = e.serverSide := by
  cases viewed : e.views[id]? with
  | none => rw [recompute_of_unviewed viewed]
  | some v =>
    rw [recompute_of_viewed viewed, serverSide_dispatch]
    exact serverSide_of_modify
      (insert_eq_modify viewed fun v =>
        v.withShown (e.queue.shownOver v.target v.replicas.server e.nextEdition))
      rfl rfl (fun _ => rfl) rfl rfl rfl rfl

@[simp] theorem serverSide_refresh (e : Engine) (batches : List MutationBatch) :
    (e.refresh batches).serverSide = e.serverSide :=
  serverSide_foldl serverSide_recompute _ e

@[simp] theorem serverSide_saveView (e : Engine) (id : TargetId) :
    (e.saveView id).serverSide = e.serverSide := by
  unfold saveView
  split
  · rfl
  · split <;> rfl

@[simp] theorem serverSide_decide (e : Engine) (id : BatchId) (outcome : WriteOutcome) :
    (e.decide id outcome).serverSide = e.serverSide := by
  unfold decide
  dsimp only
  split <;> rfl

/-- Submitting a batch is none of the server side's business, -/
@[simp] theorem serverSide_submit (e : Engine) (mutations : List Mutation) :
    (e.submit mutations).1.serverSide = e.serverSide := by
  unfold submit
  dsimp only
  split
  · rfl
  · exact serverSide_refresh _ _

/-- nor is an acknowledgement, -/
@[simp] theorem serverSide_acknowledge (e : Engine) (id : BatchId) (commit : Version) :
    (e.acknowledge id commit).serverSide = e.serverSide := by
  unfold acknowledge
  split
  · rfl
  · exact (serverSide_refresh _ _).trans (serverSide_decide _ _ _)

/-- nor a rejection. -/
@[simp] theorem serverSide_reject (e : Engine) (id : BatchId) (status : Status) :
    (e.reject id status).serverSide = e.serverSide := by
  unfold reject
  split
  · rfl
  · exact (serverSide_refresh _ _).trans (serverSide_decide _ _ _)

@[simp] theorem serverSide_prune (e : Engine) : e.prune.serverSide = e.serverSide.prune := by
  have views (id : TargetId) :
      e.prune.views[id]?.map View.serverView = e.serverSide.prune.views id := by
    rw [prune, ExtTreeMap.getElem?_filter']
    cases viewed : e.views[id]? with
    | none => simp [ServerSide.prune, serverSide, viewed]
    | some v =>
      have here : e.serverSide.views id = some v.serverView := by simp [serverSide, viewed]
      dsimp only [ServerSide.prune]
      rw [here, Option.filter_some, Option.filter_some, apply_ite (Option.map View.serverView)]
      rfl
  rw [serverSide, funext views]
  rfl

/-- The last event of some listeners strikes them off. -/
theorem serverSide_foldl_endListener (event : ListenEvent) (ids : List ListenerId) (e : Engine) :
    (ids.foldl (endListener event) e).serverSide = { e.serverSide with
      listeners := fun x => if x ∈ ids then none else e.listenerTarget? x } := by
  induction ids generalizing e with
  | nil => rfl
  | cons first rest ih =>
    have here : (endListener event e first).serverSide = { e.serverSide with
        listeners := fun x => if first = x then none else e.listenerTarget? x } := by
      unfold endListener
      split
      case h_1 absent =>
        refine congrArg (fun listeners => { e.serverSide with listeners }) (funext fun x => ?_)
        split
        case isTrue same => simp [listenerTarget?, ← same, absent]
        case isFalse => rfl
      case h_2 =>
        rw [serverSide_deliver]
        refine congrArg (fun listeners => { e.serverSide with listeners }) (funext fun x => ?_)
        rw [listenerTarget?, ExtTreeMap.getElem?_erase]
        simp only [LawfulEqOrd.compare_eq_iff_eq]
        split <;> rfl
    have target (x : ListenerId) : (endListener event e first).listenerTarget? x =
        if first = x then none else e.listenerTarget? x :=
      congrFun (congrArg ServerSide.listeners here) x
    rw [List.foldl_cons, ih, here]
    refine congrArg (fun listeners => { e.serverSide with listeners }) (funext fun x => ?_)
    rw [target]
    by_cases same : first = x
    · simp [same]
    · simp [same, Ne.symm same]

@[simp] theorem serverSide_rejectTarget (e : Engine) (r : Rejection) :
    (e.rejectTarget r).serverSide = e.serverSide.rejectTarget r := by
  unfold rejectTarget
  dsimp only
  split
  case h_1 unviewed =>
    have absent : e.serverSide.views r.target = none := by simp [serverSide, unviewed]
    have views (id : TargetId) :
        (if r.target = id then none else e.serverSide.views id) = e.serverSide.views id := by
      split
      case isTrue same => rw [← same, absent]
      case isFalse => rfl
    rw [ServerSide.rejectTarget, absent, funext views]
    rfl
  case h_2 v viewed =>
    rw [serverSide_foldl_endListener]
    have views (id : TargetId) : (e.views.erase r.target)[id]?.map View.serverView =
        if r.target = id then none else e.serverSide.views id := by
      rw [ExtTreeMap.getElem?_erase]
      simp only [LawfulEqOrd.compare_eq_iff_eq]
      split <;> rfl
    have listeners (x : ListenerId) :
        (if x ∈ v.listeners.toList then none else e.listenerTarget? x) =
          if (e.serverSide.views r.target).any (·.listeners.contains x) then none
          else e.serverSide.listeners x := by
      simp [serverSide, viewed, View.serverView]
    rw [ServerSide.rejectTarget, ← funext views, ← funext listeners]
    rfl

@[simp] theorem serverSide_rejectTargets (e : Engine) (rejections : List Rejection) :
    (e.rejectTargets rejections).serverSide = e.serverSide.rejectTargets rejections := by
  unfold rejectTargets ServerSide.rejectTargets
  induction rejections generalizing e with
  | nil => rfl
  | cons r rest ih => rw [List.foldl_cons, List.foldl_cons, ih, serverSide_rejectTarget]

theorem serverSide_views (e : Engine) (id : TargetId) :
    e.serverSide.views id = e.views[id]?.map View.serverView := rfl

/-- A new view starts with the stored replica. -/
@[simp] theorem serverSide_ensureView (e : Engine) (id : TargetId) (t : Target) :
    (e.ensureView id t).serverSide = e.serverSide.ensureView id t (e.storedServer t) := by
  unfold ensureView
  rw [ServerSide.ensureView, serverSide_views]
  cases viewed : e.views[id]? with
  | some v =>
    have views (other : TargetId) : (if id = other then
          (some v.serverView).or (some ⟨t, e.storedServer t, ∅⟩) else e.serverSide.views other) =
        e.serverSide.views other := by
      split
      case isTrue same => rw [← same, serverSide_views, viewed]; rfl
      case isFalse => rfl
    rw [if_pos (by rw [ExtTreeMap.contains_eq_isSome_getElem?, viewed]; rfl), Option.map_some,
      funext views]
  | none =>
    have views (other : TargetId) : (e.views.insert id
          ⟨t, ⟨e.queue.shownOver t (e.startingServer t) (e.nextEdition + 1), e.startingServer t⟩,
            ∅⟩)[other]?.map View.serverView =
        if id = other then some ⟨t, e.storedServer t, ∅⟩ else e.serverSide.views other := by
      rw [ExtTreeMap.getElem?_insert]
      simp only [LawfulEqOrd.compare_eq_iff_eq]
      split <;> rfl
    rw [if_neg (by rw [ExtTreeMap.contains_eq_isSome_getElem?, viewed]; nofun), Option.map_none,
      Option.none_or, ← funext views]
    rfl

/-- Listing other listeners of a view is a matter of the server's side. -/
theorem relist_serverSide (e : Engine) (id : TargetId)
    (f : ExtTreeSet ListenerId → ExtTreeSet ListenerId) :
    (fun other => (e.views.modify id fun v => { v with listeners := f v.listeners })[other]?.map
      View.serverView) = e.serverSide.relist id f := by
  funext other
  rw [ExtTreeMap.getElem?_modify, ServerSide.relist]
  simp only [LawfulEqOrd.compare_eq_iff_eq]
  split
  case isTrue =>
    rw [serverSide_views, Option.map_map, Option.map_map]
    rfl
  case isFalse => rfl

@[simp] theorem serverSide_attach (e : Engine) (id : TargetId) :
    (e.attach id).2.serverSide = e.serverSide.attach id := by
  have listeners (x : ListenerId) : (e.attach id).2.listenerTarget? x =
      if ⟨e.nextListener⟩ = x then some id else e.listenerTarget? x := by
    dsimp only [attach, listenerTarget?]
    rw [ExtTreeMap.getElem?_insert]
    simp only [LawfulEqOrd.compare_eq_iff_eq]
    split <;> rfl
  rw [ServerSide.attach, serverSide, funext listeners]
  exact congrArg (fun views => ({ e.serverSide.attach id with views } : ServerSide))
    (relist_serverSide e id (·.insert ⟨e.nextListener⟩))

@[simp] theorem serverSide_forget (e : Engine) (x : ListenerId) (id : TargetId) :
    (e.forget x id).serverSide = e.serverSide.forget x id := by
  have listeners (y : ListenerId) : (e.forget x id).listenerTarget? y =
      if x = y then none else e.listenerTarget? y := by
    dsimp only [forget, listenerTarget?]
    rw [ExtTreeMap.getElem?_erase]
    simp only [LawfulEqOrd.compare_eq_iff_eq]
    split <;> rfl
  rw [ServerSide.forget, serverSide, funext listeners]
  exact congrArg (fun views => ({ e.serverSide.forget x id with views } : ServerSide))
    (relist_serverSide e id (·.erase x))

theorem serverSide_listen (e : Engine) (t : Target) :
    (e.listen t).2.serverSide = e.serverSide.listen t (e.storedServer t) := by
  unfold listen
  dsimp only
  rw [serverSide_dispatch, serverSide_attach, serverSide_ensureView]
  rfl

/-- A listener that is entered leaves its view, and the last one ends the subscription. -/
theorem unlisten_eq {x : ListenerId} {l : Listener} (entered : e.listeners[x]? = some l) :
    e.unlisten x = .ok
      (if ((e.forget x l.target).views[l.target]?).any (·.listeners.isEmpty) then
        (e.forget x l.target).leave l.target
      else e.forget x l.target) := by
  unfold unlisten
  split
  case h_1 absent => cases entered.symm.trans absent
  case h_2 _ id seen attached found =>
    obtain rfl := Option.some.inj (entered.symm.trans found)
    dsimp only
    cases viewed : e.views[id]? with
    | none =>
      rw [forget, modify_of_absent viewed, viewed]
      rfl
    | some v =>
      rw [forget, ← insert_eq_modify viewed, ExtTreeMap.getElem?_insert_self]
      rfl

theorem serverSide_unlisten (e : Engine) (x : ListenerId) :
    (e.orRefuse (e.unlisten x)).2.serverSide = e.serverSide.unlisten x := by
  unfold ServerSide.unlisten
  cases entered : e.listeners[x]? with
  | none =>
    have absent : e.serverSide.listeners x = none := by
      simp [serverSide, listenerTarget?, entered]
    rw [absent, unlisten, entered]
    rfl
  | some l =>
    have target : e.serverSide.listeners x = some l.target := by
      simp [serverSide, listenerTarget?, entered]
    have empty : (e.serverSide.forget x l.target).views l.target =
        ((e.forget x l.target).views[l.target]?).map View.serverView := by
      rw [← serverSide_forget, serverSide_views]
    rw [target, unlisten_eq entered]
    dsimp only [orRefuse]
    rw [empty, Option.any_map]
    rw [show (fun v : View => v.serverView.listeners.isEmpty) =
      fun v => v.listeners.isEmpty from rfl]
    split
    case isTrue =>
      have left : ((e.forget x l.target).saveView l.target).serverSide =
          e.serverSide.forget x l.target :=
        (serverSide_saveView _ _).trans (serverSide_forget e x l.target)
      rw [leave, serverSide_prune, ← left]
      rfl
    case isFalse => exact serverSide_forget e x l.target

/-- The server's side knows which targets have no view. -/
theorem viewless?_serverSide (e : Engine) (event : RemoteEvent) :
    e.serverSide.viewless? event = e.viewless? event := by
  unfold viewless? ServerSide.viewless?
  congr 1
  funext id
  rw [ExtTreeMap.contains_eq_isSome_getElem?, serverSide_views, Option.isSome_map]
  rfl

/-- Taking a snapshot into the server's replicas edits nothing but the views. -/
theorem serverSide_foldl_absorb (event : RemoteEvent) (ids : List TargetId) (e : Engine) :
    (ids.foldl (absorb event) e).serverSide = { e.serverSide with
      views := (ids.foldl (absorb event) e).serverSide.views } := by
  induction ids generalizing e with
  | nil => rfl
  | cons first rest ih =>
    have here (views : TargetId → Option ServerView) :
        { (absorb event e first).serverSide with views } = { e.serverSide with views } := by
      unfold absorb
      split <;> rfl
    rw [List.foldl_cons]
    exact (ih (absorb event e first)).trans (here _)

/-- A snapshot is taken into the server's side alone, -/
theorem serverSide_takeIn (e : Engine) (event : RemoteEvent) :
    (e.takeIn event).serverSide = e.serverSide.takeIn event := by
  have views (id : TargetId) : (event.affected.toList.foldl (absorb event) e).serverSide.views id =
      (e.serverSide.takeIn event).views id := by
    obtain ⟨edition, absorbed⟩ := views_foldl_absorb event (nodup_toList _) e id
    rw [serverSide_views, absorbed, ServerSide.takeIn]
    dsimp only
    rw [serverSide_views, Option.map_map, Option.map_map]
    congr 1
    funext v
    dsimp only [Function.comp_apply]
    split <;> rfl
  have taken := serverSide_foldl_absorb event event.affected.toList e
  rw [funext views] at taken
  have last : (event.affected.toList.foldl (absorb event) e).lastSnapshot = e.lastSnapshot :=
    congrArg ServerSide.lastSnapshot taken
  calc (e.takeIn event).serverSide
      = { (event.affected.toList.foldl (absorb event) e).serverSide with
          lastSnapshot := e.lastSnapshot.later event.version } := by
        rw [takeIn, last]
        rfl
    _ = e.serverSide.takeIn event := by
        rw [taken]
        rfl

/-- and what is made anew after it is none of its business. -/
theorem serverSide_applyRemote {event : RemoteEvent} (applied : e.applyRemote event = .ok after) :
    after.serverSide = e.serverSide.takeIn event := by
  obtain ⟨-, _, rfl, rfl⟩ := applyRemote_eq applied
  have each (e : Engine) (id : TargetId) :
      ((e.recompute id).saveView id).serverSide = e.serverSide :=
    (serverSide_saveView _ id).trans (serverSide_recompute e id)
  have made := serverSide_foldl each (e.concerned event) (e.takeIn event)
  exact Eq.trans made (e.serverSide_takeIn event)

/-- A remote event is refused exactly for want of a view. -/
theorem applyRemote_side (e : Engine) (event : RemoteEvent) :
    ((e.serverSide.viewless? event).isSome = true ∧ ∃ fault, e.applyRemote event = .error fault) ∨
      (e.serverSide.viewless? event).isSome = false ∧ ∃ after, e.applyRemote event = .ok after ∧
        after.serverSide = e.serverSide.takeIn event := by
  rw [viewless?_serverSide]
  cases answer : e.applyRemote event with
  | error fault =>
    unfold applyRemote at answer
    split at answer
    case h_1 id viewless => exact .inl ⟨by rw [viewless]; rfl, fault, rfl⟩
    case h_2 => cases answer
  | ok after =>
    exact .inr ⟨by rw [(applyRemote_eq answer).1]; rfl, after, rfl, serverSide_applyRemote answer⟩

@[simp] theorem serverSide_resync (e : Engine) : e.resync.serverSide = e.serverSide.resync := by
  rw [resync_eq, serverSide_prune, serverSide_dispatchAll]
  rfl

theorem serverSide_receive (e : Engine) (change : WatchChange) :
    (e.receive change).serverSide = e.serverSide.receive change := by
  unfold ServerSide.receive
  by_cases opened : e.stream.state = .opened
  · rw [if_neg (not_not_intro opened : ¬e.serverSide.stream.state ≠ .opened), receive_eq opened,
      serverSide_prune]
    congr 1
    let taken : Engine := { e with stream := (e.stream.receive change).1 }
    change _ = taken.serverSide.follow (e.stream.receive change).2
    cases e.stream.receive change |>.2 with
    | error fault => exact serverSide_resync taken
    | ok outcome =>
      cases outcome with
      | collected => rfl
      | snapshot event =>
        dsimp only [ServerSide.follow]
        rcases taken.applyRemote_side event with
          ⟨viewless, fault, refused⟩ | ⟨viewed, after, applied, same⟩
        · rw [refused, if_pos viewless]
          exact serverSide_resync taken
        · rw [applied, viewed]
          exact same
      | rejected rejections => exact serverSide_rejectTargets taken rejections
  · have unheard : e.stream.state ≠ .opened := opened
    have same : e.receive change = e := if_pos unheard
    rw [same, if_pos (by exact unheard)]

theorem serverSide_streamClosed (e : Engine) (error : Option StreamError) (now : Duration) :
    (e.streamClosed error now).2.serverSide = e.serverSide.streamClosed error now := by
  rw [streamClosed_eq, serverSide_prune, serverSide_dispatchAll, serverSide_rejectTargets]
  rfl

@[simp] theorem serverSide_disconnect (e : Engine) :
    e.disconnect.serverSide = e.serverSide.disconnect := by
  unfold disconnect ServerSide.disconnect
  rw [show e.serverSide.stream = e.stream from rfl]
  split
  · rw [serverSide_prune, serverSide_dispatchAll]
    rfl
  · rfl

theorem serverSide_interrupt (e : Engine) : e.interrupt.serverSide = e.serverSide.interrupt := by
  unfold interrupt ServerSide.interrupt
  rw [show e.serverSide.enabled = e.enabled from rfl]
  split
  · exact serverSide_disconnect _
  · rfl

theorem serverSide_takeOutbound (e : Engine) :
    e.takeOutbound.2.serverSide = { e.serverSide with stream := e.stream.takeOutbox.2 } := by
  unfold takeOutbound WatchStream.takeOutbox
  split <;> rfl

theorem serverSide_handle (e : Engine) (event : StreamEvent) (now : Duration) :
    (e.handle event now).2.serverSide = e.serverSide.handle event now := by
  cases event with
  | opened => rfl
  | watch change => exact e.serverSide_receive change
  | writeAcked id commit => exact e.serverSide_acknowledge id commit
  | writeRejected id status => exact e.serverSide_reject id status
  | closed error => exact e.serverSide_streamClosed error now

/-- Every call moves the server's side as the side itself moves. What is written, shown and told has
    no part in it. -/
theorem serverSide_perform (e : Engine) (action : Action) :
    (e.perform action).2.serverSide = e.serverSide.perform e.storedServer action := by
  cases action with
  | connect =>
    unfold perform ServerSide.perform connect?
    dsimp only
    cases asked : e.stream.connect? with
    | none => rw [show e.serverSide.stream = e.stream from rfl, asked]; rfl
    | some stream => rw [show e.serverSide.stream = e.stream from rfl, asked]; rfl
  | handle event now => exact e.serverSide_handle event now
  | listen target => exact e.serverSide_listen target
  | unlisten x => exact e.serverSide_unlisten x
  | submit mutations => rw [perform_submit]; exact e.serverSide_submit mutations
  | takeOutbound => exact e.serverSide_takeOutbound
  | applyRemote event =>
    unfold perform ServerSide.perform ServerSide.applyRemote
    dsimp only
    rcases e.applyRemote_side event with
      ⟨viewless, fault, refused⟩ | ⟨viewed, after, applied, same⟩
    · rw [refused, if_pos viewless]
      rfl
    · rw [applied, viewed]
      exact same
  | interrupt => exact e.serverSide_interrupt
  | resume => rfl
  | disconnect => exact e.serverSide_disconnect
  | resync => exact e.serverSide_resync
  | takeRestart => rfl

end Side

end Engine

end LiveQuery
