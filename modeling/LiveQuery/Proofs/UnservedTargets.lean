import LiveQuery.Proofs.FifoExchange
import LiveQuery.Proofs.RepeatedEvents
import LiveQuery.Proofs.SubscriptionNames

/-!
# Targets that await their first answer

An engine that was asked for one target and got no answer yet holds at most one
subscription, which is not active, and at most one view, of which the server said
nothing. Such a view makes no claim, so nobody is told anything, however often
listeners come and go. What is on its way to the server meanwhile is what the
subscriptions count, and it is all about the one target.
-/

namespace LiveQuery

open Std

/-- Over a queue without writes the server's replica is shown as it is. -/
theorem Replicas.ShowOver.of_idle {r : Replicas} {t : Target} {q : WriteQueue}
    (shows : r.ShowOver t q) (idle : q.entries = []) :
    r.shown.documents = r.server.documents ∧ r.shown.initialized = r.server.initialized := by
  have unwritten (key : DocumentKey) : ¬q.Writes key := by
    rintro ⟨w, member, -⟩
    exact List.not_mem_nil (idle ▸ member)
  constructor
  · apply ExtTreeMap.ext_getElem?
    exact fun key => shows.untouched key fun both => unwritten key both.2
  · rw [Bool.eq_iff_iff, shows.initialized]
    refine or_iff_left ?_
    rintro ⟨key, -, overwritten⟩
    exact unwritten key overwritten.writes

/-- Of a queue without writes none is taken to be written. -/
theorem WriteQueue.takeUnsent_of_idle (q : WriteQueue) (idle : q.entries = []) (limit : Nat) :
    q.takeUnsent limit = ([], { q with entries := [] }) := by
  unfold takeUnsent
  rw [idle]
  cases limit - q.inFlight <;> rfl

namespace Engine

/-- Where every view has a listener or a subscription, none is dropped. -/
theorem prune_of_kept {e : Engine} (kept : ∀ (id : TargetId) v, e.views[id]? = some v →
    v.listeners.isEmpty = false ∨ id ∈ e.stream.subscriptions.table) : e.prune = e := by
  have views : (e.views.filter fun id v =>
      !v.listeners.isEmpty || e.stream.subscriptions.contains id) = e.views := by
    apply ExtTreeMap.ext_getElem?
    intro id
    rw [ExtTreeMap.getElem?_filter']
    cases viewed : e.views[id]? with
    | none => rfl
    | some v =>
      have stays : (!v.listeners.isEmpty || e.stream.subscriptions.contains id) = true := by
        rcases kept id v viewed with somebody | subscribed
        · simp [somebody]
        · simp [Subscriptions.contains, ExtTreeMap.mem_iff_contains.mp subscribed]
      simp [Option.filter, stays]
  rw [prune, views]

/-- A view that is not initialized is told to nobody. -/
theorem dispatch_of_uninitialized {e : Engine} {id : TargetId} {v : View}
    (viewed : e.views[id]? = some v) (blank : v.replicas.shown.initialized = false) :
    e.dispatch id = e := by
  have quiet (e : Engine) (flags : Flags) (x : ListenerId) : e.inform v flags x = e := by
    unfold inform
    split
    case h_1 => rfl
    case h_2 l _ =>
      rw [l.next?_of_uninitialized flags (Bool.eq_false_iff.mp blank)]
  rw [dispatch, viewed]
  dsimp only
  generalize e.flagsOf id v = flags
  induction v.listeners.toList with
  | nil => rfl
  | cons x rest ih => rw [List.foldl_cons, quiet, ih]

/-- Over an empty store a view starts with nothing. -/
theorem startingServer_of_empty (e : Engine) (empty : e.store.views = ∅) (t : Target) :
    e.startingServer t = .blank e.nextEdition := by
  unfold startingServer
  split
  case h_1 replicas loaded =>
    unfold Store.loadView Store.attempt at loaded
    split at loaded
    · cases loaded
    · rw [empty] at loaded
      cases (Except.ok.inj loaded).symm.trans ExtTreeMap.getElem?_empty
  case h_2 => rfl

/-- A view that the server said nothing of is not stored. -/
theorem saveView_of_uninitialized {e : Engine} {id : TargetId} {v : View}
    (viewed : e.views[id]? = some v) (blank : v.replicas.server.initialized = false) :
    e.saveView id = e := by
  simp [saveView, viewed, blank]

/-- Leaving strikes a listener off, and ends the subscription if nobody is left. -/
theorem unlisten_of_entered {e : Engine} {x : ListenerId} {l : Listener} {v : View}
    (entered : e.listeners[x]? = some l) (viewed : e.views[l.target]? = some v) :
    e.unlisten x = .ok (if (v.listeners.erase x).isEmpty then
      (e.forget x l.target).leave l.target else e.forget x l.target) := by
  rw [forget, ← insert_eq_modify viewed]
  unfold unlisten
  rw [entered]
  dsimp only
  rw [viewed]

/-- The engine was asked for the one target and got no answer that counts. -/
structure Unserved (e : Engine) (t : Target) : Prop where
  reached : e.Reachable
  opened : e.stream.state = .opened
  collected : e.stream.collected = {}
  idle : e.queue.entries = []
  calm : e.stats.resyncs = 0 ∧ e.restartRequested = false
  /-- A subscription has nothing to resume from and is not active, and its view has listeners if
      it is listened to. -/
  entered : ∀ (id : TargetId) sub, e.stream.subscriptions.table[id]? = some sub →
    id = ⟨1⟩ ∧ sub.token = none ∧ sub.isActive = false ∧
      ∃ v, e.views[id]? = some v ∧ sub.listening = !v.listeners.isEmpty
  viewed : ∀ (id : TargetId) v, e.views[id]? = some v →
    id ∈ e.stream.subscriptions.table ∧ v.target = t ∧ v.replicas.server.initialized = false
  unseen : ∀ (x : ListenerId) l, e.listeners[x]? = some l → l.seen = none ∧ l.attached = true
  untold : ∀ x, e.told x = []

namespace Unserved

variable {e : Engine} {t : Target}

theorem sound (unserved : e.Unserved t) : e.stream.Sound := by
  obtain ⟨past, history⟩ := unserved.reached.history
  exact history.sound

/-- There is at most one view. -/
theorem first (unserved : e.Unserved t) {id : TargetId} {v : View}
    (viewed : e.views[id]? = some v) : id = ⟨1⟩ := by
  obtain ⟨subscribed, -⟩ := unserved.viewed id v viewed
  obtain ⟨sub, entered⟩ := mem_iff_entry.mp subscribed
  exact (unserved.entered id sub entered).1

theorem prune (unserved : e.Unserved t) : e.prune = e :=
  prune_of_kept fun id v viewed => .inr (unserved.viewed id v viewed).1

/-- A view shows nothing. -/
theorem blank (unserved : e.Unserved t) {id : TargetId} {v : View}
    (viewed : e.views[id]? = some v) : v.replicas.shown.initialized = false := by
  have shows := unserved.reached.settled.shows viewed fun impossible => impossible
  rw [(shows.of_idle unserved.idle).2, (unserved.viewed id v viewed).2.2]

end Unserved

/-- The engine was asked for the one target and got no answer at all. What is on its way to the
    server is what was written and what is to be written. -/
structure Asking (e : Engine) (t : Target) (wire : List WatchRequest) : Prop
    extends Unserved e t where
  store : e.store.views = ∅
  named : ⟨1⟩ ∈ e.stream.subscriptions.table → e.stream.subscriptions.find? t = some ⟨1⟩
  next : ⟨1⟩ ∉ e.stream.subscriptions.table → e.stream.subscriptions.nextId = 1
  exchange : ∃ watched, Exchange.Sound ⟨e.stream.subscriptions, wire, [], watched⟩

namespace Asking

variable {e : Engine} {t : Target} {wire : List WatchRequest}

/-- Listening makes the one subscription or takes it up again. -/
theorem subscribes (asking : e.Asking t wire) :
    let s := e.stream.subscriptions
    ∃ sub, (s.listen t).1 = ⟨1⟩ ∧ s.Edited ⟨1⟩ (some sub) (s.listen t).2 ∧ sub.token = none ∧
      sub.isActive = false ∧ sub.listening = true ∧ (s.listen t).2.find? t = some ⟨1⟩ := by
  intro s
  have numbered : s.Numbered := asking.toUnserved.sound.numbered
  have opened : s.streamOpen = true := asking.toUnserved.sound.opened.mpr asking.opened
  have found := Subscriptions.find?_listen numbered t
  rcases Subscriptions.listen_cases numbered t with ⟨id, sub, entered, heard, same⟩ |
      ⟨id, sub, entered, -, made⟩ | ⟨unknown, made⟩
  · obtain ⟨rfl, token, inactive, -⟩ := asking.entered id sub entered
    rw [same] at found ⊢
    exact ⟨sub, rfl, Subscriptions.edited_self entered, token, inactive, heard, found⟩
  · obtain ⟨rfl, token, -, -⟩ := asking.entered id sub entered
    have own : sub.id = ⟨1⟩ := (numbered _ sub entered).1
    rw [made] at found ⊢
    refine ⟨s.started (Subscriptions.resumed sub), rfl, ?_, (s.token_started _).trans token,
      Subscriptions.inactive_started opened _, s.listening_started _, found⟩
    exact own ▸ s.edited_start (Subscriptions.resumed sub)
  · have absent : ⟨1⟩ ∉ s.table := by
      intro known
      obtain ⟨sub, entered⟩ := mem_iff_entry.mp known
      rw [asking.named known, Option.bind_some, Subscriptions.get?, entered] at unknown
      cases unknown
    have next : s.nextId = 1 := asking.next absent
    have own : (s.subscribe t).1 = ⟨1⟩ := congrArg TargetId.mk next
    rw [made] at found ⊢
    refine ⟨s.started (s.fresh t), own, ?_, s.token_started _,
      Subscriptions.inactive_started opened _, s.listening_started _, own ▸ found⟩
    exact own ▸ s.edited_subscribe t

/-- The new listener joins the one view, which shows nothing, and so nobody is told anything. -/
theorem joins (asking : e.Asking t wire) :
    ∃ (views : ExtTreeMap TargetId View) (nextEdition : Nat) (v : View),
      (∀ (id : TargetId) w, views[id]? = some w ↔ id = ⟨1⟩ ∧ w = v) ∧ v.target = t ∧
      v.replicas.server.initialized = false ∧ v.listeners.isEmpty = false ∧
      (e.listen t).2 = { e with
        stream := (e.stream.listen t).2
        views, nextEdition
        listeners := e.listeners.insert ⟨e.nextListener⟩ { target := ⟨1⟩ }
        nextListener := e.nextListener + 1 } := by
  obtain ⟨sub, named, -⟩ := asking.subscribes
  have named : (e.stream.listen t).1 = ⟨1⟩ := named
  let listening : Engine := { e with stream := (e.stream.listen t).2 }
  have ensured : ∃ (views : ExtTreeMap TargetId View) (nextEdition : Nat) (v : View),
      listening.ensureView ⟨1⟩ t = { listening with views, nextEdition } ∧
      views[(⟨1⟩ : TargetId)]? = some v ∧ v.target = t ∧
      v.replicas.server.initialized = false ∧ v.replicas.shown.initialized = false ∧
      ∀ (id : TargetId) w, views[id]? = some w → id = ⟨1⟩ := by
    by_cases known : e.views.contains ⟨1⟩ = true
    · obtain ⟨v, viewed⟩ := Option.isSome_iff_exists.mp
        (ExtTreeMap.contains_eq_isSome_getElem?.symm.trans known)
      obtain ⟨-, own, blank⟩ := asking.viewed _ v viewed
      refine ⟨e.views, e.nextEdition, v, ?_, viewed, own, blank, asking.toUnserved.blank viewed,
        fun id w there => asking.toUnserved.first there⟩
      exact if_pos known
    · have start : listening.startingServer t = .blank e.nextEdition :=
        startingServer_of_empty listening asking.store t
      let shown := e.queue.shownOver t (.blank e.nextEdition) (e.nextEdition + 1)
      let v : View := ⟨t, ⟨shown, .blank e.nextEdition⟩, ∅⟩
      refine ⟨e.views.insert ⟨1⟩ v, e.nextEdition + 1 + 1, v, ?_, ?_, rfl, rfl, ?_, ?_⟩
      · refine (if_neg known).trans ?_
        rw [start]
        rfl
      · exact ExtTreeMap.getElem?_insert_self
      · exact ((e.queue.showOver_shownOver t _ _).of_idle asking.idle).2
      · intro id w there
        rw [ExtTreeMap.getElem?_insert] at there
        split at there
        case isTrue same => exact (LawfulEqOrd.eq_of_compare same).symm
        case isFalse => exact asking.toUnserved.first there
  obtain ⟨views, nextEdition, v, made, viewed, own, blank, shown, only⟩ := ensured
  let joined : View := { v with listeners := v.listeners.insert ⟨e.nextListener⟩ }
  have single (id : TargetId) (w : View) :
      (views.modify ⟨1⟩ fun v => { v with
        listeners := v.listeners.insert ⟨e.nextListener⟩ })[id]? = some w ↔
        id = ⟨1⟩ ∧ w = joined := by
    rw [getElem?_modify_eq_some]
    constructor
    · rintro ⟨old, there, ⟨rfl, rfl⟩ | ⟨differs, rfl⟩⟩
      · exact ⟨rfl, by rw [Option.some.inj (there.symm.trans viewed)]⟩
      · exact absurd (only id w there).symm differs
    · rintro ⟨rfl, rfl⟩
      exact ⟨v, viewed, .inl ⟨rfl, rfl⟩⟩
  refine ⟨_, nextEdition, joined, single, own, blank, ?_, ?_⟩
  · refine Bool.eq_false_iff.mpr fun empty => ?_
    have here : ⟨e.nextListener⟩ ∈ joined.listeners := ExtTreeSet.mem_insert_self
    rw [ExtTreeSet.isEmpty_iff.mp empty] at here
    exact ExtTreeSet.not_mem_empty here
  have unfolded : (e.listen t).2 =
      (((listening.ensureView (e.stream.listen t).1 t).attach (e.stream.listen t).1).2).dispatch
        (e.stream.listen t).1 := rfl
  rw [unfolded, named, made]
  exact dispatch_of_uninitialized ((single ⟨1⟩ joined).mpr ⟨rfl, rfl⟩) shown

/-- A listener that comes leaves everybody waiting. -/
theorem listen (asking : e.Asking t wire) : (e.listen t).2.Asking t wire := by
  obtain ⟨sub, -, edited, token, inactive, heard, named⟩ := asking.subscribes
  obtain ⟨views, nextEdition, v, single, own, blank, somebody, made⟩ := asking.joins
  have stream : (e.listen t).2.stream = (e.stream.listen t).2 := by rw [made]
  have table (id : TargetId) : (e.listen t).2.stream.subscriptions.table[id]? =
      if ⟨1⟩ = id then some sub else e.stream.subscriptions.table[id]? := by
    rw [stream]
    exact edited.table id
  have known : ⟨1⟩ ∈ (e.listen t).2.stream.subscriptions.table :=
    mem_iff_entry.mpr ⟨sub, (table ⟨1⟩).trans (if_pos rfl)⟩
  have viewed : ∀ (id : TargetId) w, (e.listen t).2.views[id]? = some w ↔ id = ⟨1⟩ ∧ w = v := by
    rw [made]
    exact single
  constructor
  case toUnserved =>
    constructor
    case reached => exact asking.reached.perform (.listen t)
    case opened => exact stream ▸ asking.opened
    case collected => exact stream ▸ asking.collected
    case idle => exact made ▸ asking.idle
    case calm => exact made ▸ asking.calm
    case entered =>
      intro id next there
      rw [table] at there
      split at there
      case isTrue same =>
        obtain rfl := Option.some.inj there
        exact ⟨same.symm, token, inactive, v, (viewed id v).mpr ⟨same.symm, rfl⟩,
          by rw [heard, somebody]; rfl⟩
      case isFalse differs => exact absurd (asking.entered id next there).1.symm differs
    case viewed =>
      intro id w there
      obtain ⟨rfl, rfl⟩ := (viewed id w).mp there
      exact ⟨known, own, blank⟩
    case unseen =>
      intro x l entered
      rw [made] at entered
      have entered : (e.listeners.insert ⟨e.nextListener⟩ { target := ⟨1⟩ })[x]? = some l := entered
      rw [ExtTreeMap.getElem?_insert] at entered
      split at entered
      case isTrue => exact Option.some.inj entered ▸ ⟨rfl, rfl⟩
      case isFalse => exact asking.unseen x l entered
    case untold =>
      intro x
      rw [made]
      exact asking.untold x
  case store => exact made ▸ asking.store
  case named =>
    intro _
    rw [stream]
    exact named
  case next => exact fun absent => absurd known absent
  case exchange =>
    obtain ⟨watched, sound⟩ := asking.exchange
    exact ⟨watched, stream ▸ sound.listen t⟩

/-- A listener is struck off, and the one subscription is listened to if some are left. -/
theorem strike (asking : e.Asking t wire) {x : ListenerId} {v : View}
    (viewed : e.views[(⟨1⟩ : TargetId)]? = some v) {s : WatchStream} {sub : Subscription}
    (reached : Reachable { e.forget x ⟨1⟩ with stream := s }) (opened : s.state = .opened)
    (collected : s.collected = {})
    (edited : e.stream.subscriptions.Edited ⟨1⟩ (some sub) s.subscriptions)
    (token : sub.token = none) (inactive : sub.isActive = false)
    (heard : sub.listening = !(v.listeners.erase x).isEmpty)
    (named : s.subscriptions.find? t = some ⟨1⟩)
    (exchange : ∃ watched, Exchange.Sound ⟨s.subscriptions, wire, [], watched⟩) :
    Asking { e.forget x ⟨1⟩ with stream := s } t wire := by
  have known : ⟨1⟩ ∈ s.subscriptions.table :=
    mem_iff_entry.mpr ⟨sub, (edited.table ⟨1⟩).trans (if_pos rfl)⟩
  let left : View := { v with listeners := v.listeners.erase x }
  have single (id : TargetId) (w : View) :
      (e.views.modify ⟨1⟩ fun v => { v with listeners := v.listeners.erase x })[id]? = some w ↔
        id = ⟨1⟩ ∧ w = left := by
    rw [getElem?_modify_eq_some]
    constructor
    · rintro ⟨old, there, ⟨rfl, rfl⟩ | ⟨differs, rfl⟩⟩
      · exact ⟨rfl, by rw [Option.some.inj (there.symm.trans viewed)]⟩
      · exact absurd (asking.toUnserved.first there).symm differs
    · rintro ⟨rfl, rfl⟩
      exact ⟨v, viewed, .inl ⟨rfl, rfl⟩⟩
  constructor
  case toUnserved =>
    refine ⟨reached, opened, collected, asking.idle, asking.calm, ?_, ?_, ?_, asking.untold⟩
    · intro id next there
      have there := (edited.table id).symm.trans there
      split at there
      case isTrue same =>
        obtain rfl := Option.some.inj there
        exact ⟨same.symm, token, inactive, left, (single id left).mpr ⟨same.symm, rfl⟩, heard⟩
      case isFalse differs => exact absurd (asking.entered id next there).1.symm differs
    · intro id w there
      obtain ⟨rfl, rfl⟩ := (single id w).mp there
      obtain ⟨-, own, blank⟩ := asking.viewed _ v viewed
      exact ⟨known, own, blank⟩
    · intro y l entered
      have entered : (e.listeners.erase x)[y]? = some l := entered
      rw [ExtTreeMap.getElem?_erase] at entered
      split at entered
      case isTrue => cases entered
      case isFalse => exact asking.unseen y l entered
  case store => exact asking.store
  case named => exact fun _ => named
  case next => exact fun absent => absurd known absent
  case exchange => exact exchange

/-- A listener that leaves leaves everybody waiting, and if it was the last one a request to remove
    the target goes out. -/
theorem unlisten (asking : e.Asking t wire) {x : ListenerId} {after : Engine}
    (left : e.unlisten x = .ok after) : after.Asking t wire := by
  have reached : after.Reachable := by
    have reached := asking.reached.perform (.unlisten x)
    rwa [perform, left] at reached
  obtain ⟨l, entered, -⟩ := unlisten_cases left
  obtain ⟨v, placed⟩ := asking.reached.settled.informed.placed entered
  have own : l.target = ⟨1⟩ := asking.toUnserved.first placed.viewed
  have viewed := placed.viewed
  rw [unlisten_of_entered entered viewed] at left
  rw [own] at left viewed
  obtain ⟨subscribed, -, blank⟩ := asking.viewed _ v viewed
  obtain ⟨sub, there⟩ := mem_iff_entry.mp subscribed
  obtain ⟨-, token, inactive, w, again, heard⟩ := asking.entered _ sub there
  obtain rfl := Option.some.inj (viewed.symm.trans again)
  have heard : sub.listening = true := by
    have somebody : v.listeners.isEmpty = false := by
      refine Bool.eq_false_iff.mpr fun empty => ?_
      exact ExtTreeSet.not_mem_empty (ExtTreeSet.isEmpty_iff.mp empty ▸ placed.member)
    rw [heard, somebody]
    rfl
  obtain ⟨watched, exchange⟩ := asking.exchange
  split at left
  case isFalse somebody =>
    obtain rfl := Except.ok.inj left
    exact asking.strike (s := e.stream) viewed reached asking.opened asking.collected
      (Subscriptions.edited_self there) token inactive (by simp [heard, somebody])
      (asking.named subscribed) ⟨watched, exchange⟩
  case isTrue nobody =>
    let s := e.stream.unlisten ⟨1⟩
    let struck : View := { v with listeners := v.listeners.erase x }
    have there' : (e.forget x ⟨1⟩).views[(⟨1⟩ : TargetId)]? = some struck :=
      getElem?_modify_eq_some.mpr ⟨v, viewed, .inl ⟨rfl, rfl⟩⟩
    have numbered := asking.toUnserved.sound.numbered
    have opened : e.stream.subscriptions.streamOpen = true :=
      asking.toUnserved.sound.opened.mpr asking.opened
    have asked : s.subscriptions = { e.stream.subscriptions.put (Subscriptions.left sub) with
        outbox := e.stream.subscriptions.outbox ++ [.remove ⟨1⟩] } := by
      rcases e.stream.subscriptions.unlisten_cases ⟨1⟩ with
        ⟨-, unheard⟩ | ⟨other, again, -, ⟨closed, -⟩ | ⟨-, asked⟩⟩
      · cases heard.symm.trans (unheard sub there)
      · cases opened.symm.trans closed
      · exact Option.some.inj (there.symm.trans again) ▸ asked
    have edited : e.stream.subscriptions.Edited ⟨1⟩ (some (Subscriptions.left sub))
        s.subscriptions := by
      have own : (Subscriptions.left sub).id = ⟨1⟩ := (numbered _ sub there).1
      rw [asked]
      exact ⟨own ▸ e.stream.subscriptions.table_put (Subscriptions.left sub), Nat.le_refl _, rfl⟩
    have unpruned : (e.forget x ⟨1⟩).leave ⟨1⟩ = { e.forget x ⟨1⟩ with stream := s } := by
      unfold leave
      rw [saveView_of_uninitialized there' blank]
      refine prune_of_kept fun id w present => .inr ?_
      obtain ⟨old, before, -⟩ := getElem?_modify_eq_some.mp present
      obtain rfl := asking.toUnserved.first before
      exact mem_iff_entry.mpr ⟨_, (edited.table ⟨1⟩).trans (if_pos rfl)⟩
    obtain rfl := Except.ok.inj left
    rw [unpruned] at reached ⊢
    refine asking.strike (s := s) viewed reached asking.opened asking.collected edited token rfl
      (by simp [Subscriptions.left, nobody]) ?_ ⟨watched, exchange.unlisten ⟨1⟩⟩
    rw [asked]
    exact asking.named subscribed

/-- What is to be written goes out, and nothing else does. -/
theorem takeOutbound (asking : e.Asking t wire) :
    e.takeOutbound.1 = e.stream.subscriptions.outbox.map .watch ∧
      e.takeOutbound.2.Asking t (wire ++ e.stream.subscriptions.outbox) ∧
      e.takeOutbound.2.stream.subscriptions.outbox = [] ∧
      e.takeOutbound.2.listeners = e.listeners := by
  have none_taken := e.queue.takeUnsent_of_idle asking.idle e.config.maxWritesInFlight
  have taken : e.stream.takeOutbox = (e.stream.subscriptions.outbox, { e.stream with
      subscriptions := { e.stream.subscriptions with outbox := [] } }) := if_pos asking.opened
  have made : e.takeOutbound = (e.stream.subscriptions.outbox.map .watch, { e with
      stream := { e.stream with subscriptions := { e.stream.subscriptions with outbox := [] } }
      queue := { e.queue with entries := [] } }) := by
    unfold Engine.takeOutbound
    rw [if_pos asking.opened, none_taken, taken]
    exact congrArg (Prod.mk · _) (List.append_nil _)
  have reached := asking.reached.perform .takeOutbound
  obtain ⟨watched, exchange⟩ := asking.exchange
  rw [perform, made] at reached
  rw [made]
  refine ⟨rfl, ⟨⟨reached, asking.opened, asking.collected, rfl, asking.calm, asking.entered,
    asking.viewed, asking.unseen, asking.untold⟩, asking.store, asking.named, asking.next,
    watched, exchange.write⟩, rfl, rfl⟩

end Asking

/-- Calls of listeners of one target that come and go, and of the writer that empties the outbox. -/
inductive Cycling (t : Target) : Action → Prop
  | listen : Cycling t (.listen t)
  | unlisten (x : ListenerId) : Cycling t (.unlisten x)
  | takeOutbound : Cycling t .takeOutbound

/-- What a reply hands out to be written. -/
def Reply.written : Reply → List StreamRequest
  | .requests taken => taken
  | _ => []

/-- Everything that some calls hand out to be written, in order. -/
def written (e : Engine) : List Action → List StreamRequest
  | [] => []
  | action :: rest => (e.perform action).1.written ++ (e.perform action).2.written rest

theorem written_append (e : Engine) (front back : List Action) :
    e.written (front ++ back) = e.written front ++ (e.run front).written back := by
  induction front generalizing e with
  | nil => rfl
  | cons action rest ih =>
    rw [List.cons_append, written, written, ih, List.append_assoc]
    rfl

section Cycles

variable {e : Engine} {t : Target} {wire : List WatchRequest}

theorem Asking.perform (asking : e.Asking t wire) {action : Action} (cycling : Cycling t action) :
    ∃ more : List WatchRequest, (e.perform action).1.written = more.map .watch ∧
      (e.perform action).2.Asking t (wire ++ more) := by
  cases cycling with
  | listen => exact ⟨[], rfl, (List.append_nil wire).symm ▸ asking.listen⟩
  | unlisten x =>
    refine ⟨[], ?_⟩
    rw [List.append_nil]
    cases left : e.unlisten x with
    | error fault =>
      simp only [Engine.perform, left, orRefuse]
      exact ⟨rfl, asking⟩
    | ok after =>
      simp only [Engine.perform, left, orRefuse]
      exact ⟨rfl, asking.unlisten left⟩
  | takeOutbound =>
    obtain ⟨requests, taken, -⟩ := asking.takeOutbound
    exact ⟨e.stream.subscriptions.outbox, requests, taken⟩

/-- However often listeners come and go, everybody waits, and all that is written is about the one
    target. -/
theorem Asking.run (asking : e.Asking t wire) (calls : List Action)
    (cycling : ∀ action ∈ calls, Cycling t action) :
    ∃ more : List WatchRequest, e.written calls = more.map .watch ∧
      (e.run calls).Asking t (wire ++ more) := by
  induction calls generalizing e wire with
  | nil => exact ⟨[], rfl, (List.append_nil wire).symm ▸ asking⟩
  | cons action rest ih =>
    obtain ⟨first, wrote, asking⟩ := asking.perform (cycling action List.mem_cons_self)
    obtain ⟨others, wrote', asking⟩ :=
      ih asking fun other member => cycling other (List.mem_cons_of_mem action member)
    refine ⟨first ++ others, ?_, List.append_assoc .. ▸ asking⟩
    rw [written, wrote, wrote', List.map_append]

/-- A new engine over an empty store, once its stream is open, was asked for nothing. -/
theorem asking_start {config : Config} {store : Store} (read : ofStore config store = .ok e)
    (views : store.views = ∅) (pending : store.pending = ∅) (now : Duration) (t : Target) :
    (e.run [.connect, .handle .opened now]).Asking t [] := by
  have reached : (e.run [.connect, .handle .opened now]).Reachable :=
    (Reachable.start read).run _
  have none_pending : store.undecided = [] := by
    rw [Store.undecided, pending]
    rfl
  have made :
      e = { config, store, stream := .ofConfig config.backoff, queue := .ofBatches [] } := by
    unfold ofStore Store.loadPending Store.attempt at read
    rw [none_pending] at read
    split at read
    · cases read
    · exact (Except.ok.inj read).symm
  have connected : e.run [.connect, .handle .opened now] = { e with
      stream := { e.stream with
        state := .opened
        subscriptions := Subscriptions.streamOpened {}
        backoff := e.stream.backoff.recordOpen now
        collected := {} } } := by
    rw [made]
    rfl
  have unentered (id : TargetId) : (Subscriptions.streamOpened {}).table[id]? = none :=
    (Subscriptions.table_streamOpened {} id).trans (congrArg _ ExtTreeMap.getElem?_empty)
  have exchange : Exchange.Sound (Exchange.step {} .reopen) := Exchange.sound_start.reopen
  rw [connected] at reached ⊢
  subst made
  constructor
  case toUnserved =>
    refine ⟨reached, rfl, rfl, rfl, ⟨rfl, rfl⟩, ?_, ?_, ?_, fun _ => rfl⟩
    · exact fun id sub entered => nomatch (unentered id).symm.trans entered
    · exact fun id v viewed => nomatch ExtTreeMap.getElem?_empty.symm.trans viewed
    · exact fun x l entered => nomatch ExtTreeMap.getElem?_empty.symm.trans entered
  case store => exact views
  case named =>
    intro known
    obtain ⟨sub, entered⟩ := mem_iff_entry.mp known
    exact nomatch (unentered _).symm.trans entered
  case next => exact fun _ => rfl
  case exchange => exact ⟨_, exchange⟩

end Cycles

end Engine

end LiveQuery
