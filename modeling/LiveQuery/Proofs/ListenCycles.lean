import LiveQuery.Proofs.FirstSnapshots
import LiveQuery.Proofs.StreamSpans
import Mathlib

/-!
# Listening and leaving before any answer

Listeners of one target come and go faster than the server answers, and then it
answers everything that was written. All additions but the last are overtaken: the
target is not active when their documents come, so these say nothing. If somebody
still listens, the last request is an addition, and its documents are what everybody
is shown, once. If nobody does, the last request is a removal, and its answer ends
the subscription and with it the view.
-/

namespace LiveQuery

open Std

/-- The reports that answer a request on a target. -/
def Delivery.answers (delivery : Delivery) : WatchRequest → List WatchChange
  | .add id _ _ => .targetAdded [id] :: (delivery.contents id ++ [.snapshot delivery.version])
  | .remove id => [.targetRemoved [id] none]

/-- The documents that were sent last, once one more request is answered. -/
def Delivery.succeed (last : List Document) : WatchRequest × Delivery → List Document
  | (.add .., delivery) => delivery.documents
  | (.remove _, _) => last

/-- The documents that are sent after the last request to add. -/
def lastSent (served : List (WatchRequest × Delivery)) : List Document :=
  served.foldl Delivery.succeed []

/-- The reports that answer requests one after the other. -/
def replies (served : List (WatchRequest × Delivery)) : List WatchChange :=
  served.flatMap fun (request, delivery) => delivery.answers request

/-- About an active target nothing is under way. -/
theorem Exchange.Fits.nothing {sub : Subscription} {talk : List Bool}
    (fits : Exchange.Fits sub talk) (active : sub.isActive = true) : talk = [] := by
  obtain ⟨heard, answered⟩ : sub.listening = true ∧ (sub.adds == 0) = true :=
    Bool.and_eq_true_iff.mp active
  rcases List.eq_nil_or_concat talk with none_left | ⟨front, word, rfl⟩
  · exact none_left
  · have last : word = true := by simpa [heard] using fits.lastWord
    have counted := fits.counted
    rw [beq_iff_eq.mp answered, last] at counted
    simp at counted

namespace WatchStream

variable {s : WatchStream} {id : TargetId} {after : Subscriptions}

/-- A removal without a cause rejects nobody. -/
theorem targetsRemoved_single (numbered : s.subscriptions.Numbered) {outcome : RemoveOutcome}
    (done : s.subscriptions.removed id none = .ok (outcome, after)) :
    targetsRemoved none [id] s = ({ s with
      subscriptions := after, collected := s.collected.discard id }, .ok []) := by
  have plain : ∀ status, outcome ≠ .rejected status := by
    obtain ⟨_, -, ⟨-, ⟨-, rfl⟩ | ⟨-, _, impossible, -⟩⟩ | ⟨-, plain, -⟩⟩ :=
      Subscriptions.removed_cases numbered done
    · exact fun _ rejected => nomatch rejected
    · exact nomatch impossible
    · exact plain
  have removed : s.targetRemoved none id = .ok ([], { s with
      subscriptions := after, collected := s.collected.discard id }) := by
    unfold targetRemoved
    rw [done]
    cases outcome with
    | rejected status => exact absurd rfl (plain status)
    | _ => rfl
  unfold targetsRemoved
  rw [removed]
  rfl

/-- An addition that is counted is accepted. A target that has nothing to resume from is reset if it
    is active then. -/
theorem targetsAdded_single {sub : Subscription} (entered : s.subscriptions.table[id]? = some sub)
    (counted : 0 < sub.adds) (blank : sub.token = none) (nothing : s.collected = {}) :
    targetsAdded [id] s = ({ s with
      subscriptions := s.subscriptions.put { sub with adds := sub.adds - 1 }
      collected := if ({ sub with adds := sub.adds - 1 } : Subscription).isActive then
        ({} : RemoteEvent).reset id else {} }, .ok ()) := by
  unfold targetsAdded
  cases done : s.targetAdded id with
  | error fault =>
    have accepted : sub.adds ≠ 0 := Nat.ne_of_gt counted
    simp [targetAdded, Subscriptions.added, entered, accepted, bind, Except.bind, pure,
      Except.pure] at done
  | ok after =>
    obtain ⟨old, again, rfl⟩ := targetAdded_ok done
    obtain rfl := Option.some.inj (entered.symm.trans again)
    dsimp only
    rw [targetsAdded, blank, nothing]
    rfl

/-- Where nothing is collected a snapshot says nothing. -/
theorem flush_of_nothing (nothing : s.collected = {}) (version : Version) :
    s.flush version = ({ version }, s) := by
  obtain ⟨state, subscriptions, backoff, collected⟩ := s
  obtain rfl : collected = {} := nothing
  rfl

end WatchStream

namespace Engine

/-- Where no batch is queued and nothing is asked for, nothing is to be written. -/
theorem takeOutbound_of_idle {e : Engine} (idle : e.queue.entries = [])
    (written : e.stream.subscriptions.outbox = []) : e.takeOutbound.1 = [] := by
  by_cases opened : e.stream.state = .opened <;>
    simp [takeOutbound, WatchStream.takeOutbox, Subscriptions.takeOutbox,
      e.queue.takeUnsent_of_idle idle, opened, written]

/-- The engine awaits the answers to the requests on the wire, and has nothing else to write. -/
structure Answering (e : Engine) (t : Target) (wire : List WatchRequest) : Prop
    extends Unserved e t where
  written : e.stream.subscriptions.outbox = []
  exchange : ∃ watched, Exchange.Sound ⟨e.stream.subscriptions, wire, [], watched⟩

/-- Everything that was asked for is answered, and nothing else is to be written. Whoever listened
    was sent one snapshot, of the last documents, and nobody else was sent anything. If nobody
    listened, nothing is left of the target. -/
structure Concluded (listeners : ExtTreeMap ListenerId Listener) (e : Engine) (t : Target)
    (last : List Document) : Prop where
  calm : e.stats.resyncs = 0 ∧ e.restartRequested = false
  silent : e.takeOutbound.1 = []
  told : ∀ x ∈ listeners, x ∈ e.listeners ∧ ∃ s, e.told x = [.ok s] ∧ s.Introduces t last
  untold : ∀ x ∉ listeners, e.told x = []
  gone : (∀ x, x ∉ listeners) →
    ∀ id : TargetId, e.stream.subscriptions.table[id]? = none ∧ e.views[id]? = none

namespace Unserved

variable {e : Engine} {t : Target}

/-- No target counts. -/
theorem inactive (unserved : e.Unserved t) (id : TargetId) :
    e.stream.subscriptions.isActive id = false := by
  refine Bool.eq_false_iff.mpr fun active => ?_
  obtain ⟨sub, entered, active⟩ := (Subscriptions.isActive_iff _ id).mp active
  obtain ⟨-, -, idle, -⟩ := unserved.entered id sub entered
  exact Bool.eq_false_iff.mp idle active

/-- An answer that edits the one subscription and leaves it inactive leaves everybody waiting. If it
    ends the subscription, nobody listened, and the view goes as well. -/
theorem answered (unserved : e.Unserved t) {stream : WatchStream} {sub : Subscription}
    {entry : Option Subscription} (opened : stream.state = .opened)
    (collected : stream.collected = {})
    (there : e.stream.subscriptions.table[(⟨1⟩ : TargetId)]? = some sub)
    (edited : e.stream.subscriptions.Edited ⟨1⟩ entry stream.subscriptions)
    (idle : ∀ next, entry = some next → next.token = none ∧ next.isActive = false)
    (heard : entry.any (·.listening) = sub.listening)
    (reached : ({ e with stream } : Engine).prune.Reachable) :
    ({ e with stream } : Engine).prune.Unserved t := by
  have kept (id : TargetId) : ({ e with stream } : Engine).prune.views[id]? =
      e.views[id]?.filter fun v => !v.listeners.isEmpty || stream.subscriptions.contains id :=
    ExtTreeMap.getElem?_filter'
  obtain ⟨-, -, -, v, viewed, someone⟩ := unserved.entered _ sub there
  refine ⟨reached, opened, collected, unserved.idle, unserved.calm, ?_, ?_, unserved.unseen,
    unserved.untold⟩
  · intro id next found
    have entered : stream.subscriptions.table[id]? = some next := found
    have known : stream.subscriptions.contains id = true := by
      rw [Subscriptions.contains, ExtTreeMap.contains_eq_isSome_getElem?, entered]
      rfl
    rw [edited.table] at entered
    by_cases same : ⟨1⟩ = id
    case neg =>
      rw [if_neg same] at entered
      exact absurd (unserved.entered id next entered).1.symm same
    case pos =>
      rw [if_pos same] at entered
      subst same entered
      obtain ⟨token, inactive⟩ := idle next rfl
      exact ⟨rfl, token, inactive, v, by simp [kept, viewed, known], heard.trans someone⟩
  · intro id w present
    rw [kept, Option.filter_eq_some_iff] at present
    obtain ⟨present, needed⟩ := present
    obtain rfl := unserved.first present
    obtain rfl := Option.some.inj (viewed.symm.trans present)
    obtain ⟨-, own, blank⟩ := unserved.viewed _ v viewed
    refine ⟨ExtTreeMap.mem_iff_contains.mpr ?_, own, blank⟩
    rcases Bool.or_eq_true_iff.mp needed with somebody | known
    · rw [← someone, ← heard] at somebody
      obtain ⟨next, entered, -⟩ := (Option.any_eq_true _ _).mp somebody
      rw [ExtTreeMap.contains_eq_isSome_getElem?]
      change stream.subscriptions.table[(⟨1⟩ : TargetId)]?.isSome = true
      rw [edited.table, if_pos rfl, entered]
      rfl
    · exact known

end Unserved

/-- An accepted request to add, with others behind it on the wire. The subscription awaits one
    answer less, and the target is reset if it is active then. -/
structure Accepts (e : Engine) (wire : List WatchRequest) (sub next : Subscription)
    (subscriptions : Subscriptions) : Prop where
  entered : e.stream.subscriptions.table[(⟨1⟩ : TargetId)]? = some sub
  edited : e.stream.subscriptions.Edited ⟨1⟩ (some next) subscriptions
  token : next.token = none
  listening : next.listening = sub.listening
  rest : Exchange.Fits next (wire.map (·.answer.isAddition))
  written : subscriptions.outbox = []
  exchange : ∃ watched, Exchange.Sound ⟨subscriptions, wire, [], watched⟩
  received : e.receive (.targetAdded [⟨1⟩]) = prune { e with stream := { e.stream with
    subscriptions
    collected := if next.isActive then ({} : RemoteEvent).reset ⟨1⟩ else {} } }

theorem Accepts.known {e : Engine} {wire : List WatchRequest} {sub next : Subscription}
    {subscriptions : Subscriptions} (accepts : Accepts e wire sub next subscriptions) :
    subscriptions.contains ⟨1⟩ = true := by
  rw [Subscriptions.contains, ExtTreeMap.contains_eq_isSome_getElem?, accepts.edited.table,
    if_pos rfl]
  rfl

namespace Answering

variable {e : Engine} {t : Target} {request : WatchRequest} {wire : List WatchRequest}

/-- A target that is listened to awaits no removal. -/
theorem wanted (answering : e.Answering t wire) : e.stream.subscriptions.Wanted := by
  intro id sub entered
  obtain ⟨watched, sound⟩ := answering.exchange
  have fits := sound.fits id
  rw [show (Exchange.mk e.stream.subscriptions wire [] watched).client.table[id]? = some sub
    from entered] at fits
  exact Exchange.Fits.wished fits

/-- All that is under way is about the one target. -/
theorem about (answering : e.Answering t wire) :
    ∀ request ∈ wire, request.answer.target = ⟨1⟩ := by
  intro request member
  obtain ⟨watched, sound⟩ := answering.exchange
  have fits := sound.fits request.answer.target
  have said : Exchange.talk request.answer.target
      (Exchange.mk e.stream.subscriptions wire [] watched).outstanding ≠ [] := by
    have here : request.answer ∈
        (Exchange.mk e.stream.subscriptions wire [] watched).outstanding := by
      simpa [Exchange.outstanding, Exchange.unanswered] using .inl ⟨request, member, rfl⟩
    rw [Exchange.talk, ne_eq, List.map_eq_nil_iff, List.filter_eq_nil_iff]
    exact fun silent => silent _ here (beq_self_eq_true _)
  cases entered : e.stream.subscriptions.table[request.answer.target]? with
  | none =>
    rw [show (Exchange.mk e.stream.subscriptions wire [] watched).client.table[
      request.answer.target]? = none from entered] at fits
    exact absurd fits said
  | some sub => exact (answering.entered _ sub entered).1

/-- The next answer finds the subscription, and fits what is under way about it. -/
theorem front (answering : e.Answering t (request :: wire)) :
    request.answer.target = ⟨1⟩ ∧ ∃ sub : Subscription, sub.id = ⟨1⟩ ∧
      e.stream.subscriptions.table[(⟨1⟩ : TargetId)]? = some sub ∧
      Exchange.Fits sub (request.answer.isAddition :: wire.map (·.answer.isAddition)) ∧
      ∃ watched, Exchange.Sound
        ⟨Exchange.takeIn e.stream.subscriptions request.answer, wire, [], watched⟩ := by
  obtain ⟨watched, sound⟩ := answering.exchange
  have own : request.answer.target = ⟨1⟩ := answering.about request List.mem_cons_self
  have rest : Exchange.talk ⟨1⟩ (wire.map (·.answer)) = wire.map (·.answer.isAddition) := by
    have all : (wire.map (·.answer)).filter (·.target == ⟨1⟩) = wire.map (·.answer) := by
      rw [List.filter_eq_self]
      intro answer listed
      obtain ⟨later, member, rfl⟩ := List.mem_map.mp listed
      exact beq_iff_eq.mpr (answering.about later (List.mem_cons_of_mem request member))
    rw [Exchange.talk, all, List.map_map]
    rfl
  obtain ⟨sub, entered, here, fits⟩ := sound.answer.next rfl
  rw [own] at here fits
  rw [here] at entered
  refine ⟨own, sub, here, entered, ?_, _, sound.answer.deliver⟩
  rw [← rest]
  simpa [Exchange.outstanding, Exchange.unanswered, Exchange.step, answering.written] using fits

/-- A removal is taken in, and if it was the last request, the subscription and the view are
    gone. -/
theorem removal {id : TargetId} (answering : e.Answering t (.remove id :: wire)) :
    (e.receive (.targetRemoved [id] none)).Answering t wire ∧
      (e.receive (.targetRemoved [id] none)).listeners = e.listeners := by
  obtain ⟨own, sub, here, entered, fits, watched, sound⟩ := answering.front
  obtain rfl : id = ⟨1⟩ := own
  have numbered := answering.toUnserved.sound.numbered
  have opened : e.stream.subscriptions.streamOpen = true :=
    answering.toUnserved.sound.opened.mpr answering.opened
  obtain ⟨outcome, after, entry, done, -, -, replaced, -, -, heard⟩ :=
    Exchange.removed_law (here ▸ entered) fits
  rw [here] at done replaced
  obtain ⟨old, left, again, edited, idle⟩ :=
    Subscriptions.removed_idle numbered answering.wanted opened done
  obtain rfl := Option.some.inj (entered.symm.trans again)
  obtain rfl : entry = left := by
    have same := (replaced.table ⟨1⟩).symm.trans (edited.table ⟨1⟩)
    rwa [if_pos rfl, if_pos rfl] at same
  let stream : WatchStream := { e.stream with subscriptions := after, collected := {} }
  have received : e.receive (.targetRemoved [⟨1⟩] none) = ({ e with stream } : Engine).prune := by
    rw [receive_eq answering.opened, WatchStream.receive_removed answering.opened,
      WatchStream.targetsRemoved_single numbered done, answering.collected]
    rfl
  have reached := answering.reached.receive (.targetRemoved [⟨1⟩] none)
  rw [received] at reached ⊢
  refine ⟨⟨answering.toUnserved.answered answering.opened rfl entered edited ?_ heard reached, ?_,
    watched, ?_⟩, rfl⟩
  · intro next left
    obtain ⟨inactive, token, -⟩ := idle next left
    obtain ⟨-, blank, -⟩ := answering.entered _ sub entered
    exact ⟨token.trans blank, inactive⟩
  · exact replaced.outbox.trans answering.written
  · have taken : Exchange.takeIn e.stream.subscriptions (.removed ⟨1⟩) = after := by
      simp [Exchange.takeIn, done]
    have last : Exchange.Sound ⟨after, wire, [], watched⟩ := taken ▸ sound
    exact last

/-- An addition is taken in. -/
theorem addition {id : TargetId} {target : Target} {token : Option ResumeToken}
    (answering : e.Answering t (.add id target token :: wire)) :
    id = ⟨1⟩ ∧ ∃ sub next subscriptions, Accepts e wire sub next subscriptions := by
  obtain ⟨own, sub, here, entered, fits, watched, sound⟩ := answering.front
  obtain rfl : id = ⟨1⟩ := own
  obtain ⟨counted, rest⟩ := Exchange.Fits.accepted fits
  obtain ⟨-, blank, -⟩ := answering.entered _ sub entered
  let next : Subscription := { sub with adds := sub.adds - 1 }
  refine ⟨rfl, sub, next, e.stream.subscriptions.put next, ?_⟩
  constructor
  case entered => exact entered
  case edited => exact here ▸ e.stream.subscriptions.edited_put next
  case token => exact blank
  case listening => rfl
  case rest => exact rest
  case written => exact answering.written
  case exchange =>
    have taken : Exchange.takeIn e.stream.subscriptions (.added ⟨1⟩) =
        e.stream.subscriptions.put next := by
      have accepted : sub.adds ≠ 0 := Nat.ne_of_gt counted
      simp [Exchange.takeIn, Subscriptions.added, entered, accepted, next]
    exact ⟨watched, taken ▸ sound⟩
  case received =>
    have taken := WatchStream.targetsAdded_single entered counted blank answering.collected
    rw [receive_eq answering.opened, WatchStream.receive, if_neg (not_not_intro answering.opened)]
    dsimp only
    rw [taken]
    rfl

/-- While the target is inactive a snapshot says nothing. -/
theorem snapshot (answering : e.Answering t wire) (version : Version) :
    (e.receive (.snapshot version)).Answering t wire ∧
      (e.receive (.snapshot version)).listeners = e.listeners := by
  obtain ⟨after, applied, received⟩ := receive_snapshot answering.opened version fun id active =>
    absurd active (Bool.eq_false_iff.mp (answering.toUnserved.inactive id))
  rw [WatchStream.flush_of_nothing answering.collected] at applied
  have applied : e.applyRemote { version } = .ok after := applied
  have unmentioned (id : TargetId) : id ∉ ({ version } : RemoteEvent).affected := by
    rw [RemoteEvent.mem_affected]
    simp
  have none_released : (e.queue.release version).1 = [] := by
    simp [WriteQueue.release, answering.idle]
  have lines (x : ListenerId) : after.line x = e.line x := by
    cases entered : e.listeners[x]? with
    | none => exact (silent_applyRemote applied).line entered
    | some l =>
      obtain ⟨_, here⟩ := answering.reached.settled.informed.placed entered
      exact (still_applyRemote applied none_released here (unmentioned _)).1
  have listeners : after.listeners = e.listeners :=
    ExtTreeMap.ext_getElem? fun x => congrArg Line.entry (lines x)
  have views (id : TargetId) :
      ∃ shown, after.views[id]? = e.views[id]?.map (·.withShown shown) := by
    obtain ⟨_, shown, views⟩ := views_applyRemote applied id
    refine ⟨shown, views.trans ?_⟩
    simp [unmentioned]
  have viewed {id : TargetId} {w : View} (there : after.views[id]? = some w) :
      ∃ v, e.views[id]? = some v ∧ w.target = v.target ∧ w.replicas.server = v.replicas.server := by
    obtain ⟨shown, same⟩ := views id
    obtain ⟨v, before, rfl⟩ := Option.map_eq_some_iff.mp (same.symm.trans there)
    exact ⟨v, before, rfl, rfl⟩
  have stream : after.stream = e.stream := stream_applyRemote applied
  have kept : after.prune = after := prune_of_kept fun id w there => by
    obtain ⟨v, before, -⟩ := viewed there
    exact .inr (stream ▸ (answering.viewed id v before).1)
  have reached := answering.reached.receive (.snapshot version)
  rw [received, kept] at reached ⊢
  refine ⟨⟨?_, stream ▸ answering.written, stream ▸ answering.exchange⟩, listeners⟩
  constructor
  case reached => exact reached
  case opened => exact stream ▸ answering.opened
  case collected => exact stream ▸ answering.collected
  case idle =>
    rw [queue_applyRemote applied]
    simp [WriteQueue.release, answering.idle]
  case calm =>
    obtain ⟨resyncs, restart⟩ := resyncs_applyRemote applied
    exact ⟨resyncs.trans answering.calm.1, restart.trans answering.calm.2⟩
  case entered =>
    rw [stream]
    intro id sub entered
    obtain ⟨own, token, idle, v, before, someone⟩ := answering.entered id sub entered
    obtain ⟨shown, same⟩ := views id
    rw [before, Option.map_some] at same
    exact ⟨own, token, idle, _, same, someone⟩
  case viewed =>
    intro id w there
    obtain ⟨v, before, target, server⟩ := viewed there
    obtain ⟨subscribed, own, blank⟩ := answering.viewed id v before
    exact ⟨stream ▸ subscribed, target.trans own, server ▸ blank⟩
  case unseen => exact listeners ▸ answering.unseen
  case untold => exact fun x => (congrArg Line.events (lines x)).trans (answering.untold x)

/-- Documents that are sent for an addition that was overtaken say nothing. -/
theorem overtaken {first : WatchRequest} (answering : e.Answering t (first :: wire))
    {sub next : Subscription} {subscriptions : Subscriptions}
    (accepts : Accepts e wire sub next subscriptions) (idle : next.isActive = false)
    {delivery : Delivery} (fits : delivery.Fits t) (target : Target) (token : Option ResumeToken) :
    let after := (delivery.answers (.add ⟨1⟩ target token)).foldl receive e
    after.Answering t wire ∧ after.listeners = e.listeners := by
  let stream : WatchStream := { e.stream with subscriptions, collected := {} }
  have received : e.receive (.targetAdded [⟨1⟩]) = ({ e with stream } : Engine).prune := by
    rw [accepts.received, idle]
    rfl
  have reached := answering.reached.receive (.targetAdded [⟨1⟩])
  have waiting : (e.receive (.targetAdded [⟨1⟩])).Answering t wire := by
    rw [received] at reached ⊢
    refine ⟨answering.toUnserved.answered answering.opened rfl accepts.entered accepts.edited ?_
      accepts.listening reached, accepts.written, accepts.exchange⟩
    rintro _ ⟨rfl⟩
    exact ⟨accepts.token, idle⟩
  have known : (e.receive (.targetAdded [⟨1⟩])).stream.subscriptions.contains ⟨1⟩ = true := by
    rw [received]
    exact accepts.known
  have contents := receive_contents waiting.opened waiting.toUnserved.prune known fits
  rw [if_neg (Bool.eq_false_iff.mp (waiting.toUnserved.inactive ⟨1⟩))] at contents
  obtain ⟨last, listeners⟩ := waiting.snapshot delivery.version
  have same : (delivery.answers (.add ⟨1⟩ target token)).foldl receive e =
      (e.receive (.targetAdded [⟨1⟩])).receive (.snapshot delivery.version) := by
    rw [Delivery.answers, List.foldl_cons, List.foldl_append, contents]
    rfl
  rw [same]
  refine ⟨last, listeners.trans ?_⟩
  rw [received]
  rfl

/-- An addition that activates the target finds somebody listening, and no other target counts. -/
theorem activated {first : WatchRequest} (answering : e.Answering t (first :: wire))
    {sub next : Subscription} {subscriptions : Subscriptions}
    (accepts : Accepts e wire sub next subscriptions) (active : next.isActive = true) :
    (∃ v, e.views[(⟨1⟩ : TargetId)]? = some v ∧ v.target = t ∧ v.listeners.isEmpty = false) ∧
      (∀ other, subscriptions.isActive other = true ↔ other = ⟨1⟩) ∧
      let stream : WatchStream := { e.stream with
        subscriptions, collected := ({} : RemoteEvent).reset ⟨1⟩ }
      ({ e with stream } : Engine).prune = { e with stream } ∧
        e.receive (.targetAdded [⟨1⟩]) = { e with stream } := by
  have heard : sub.listening = true :=
    accepts.listening.symm.trans (Bool.and_eq_true_iff.mp active).1
  obtain ⟨-, -, -, v, viewed, someone⟩ := answering.entered _ sub accepts.entered
  obtain ⟨-, own, -⟩ := answering.viewed _ v viewed
  have listened : v.listeners.isEmpty = false := by simpa [heard] using someone.symm
  refine ⟨⟨v, viewed, own, listened⟩, fun other => ?_, ?_⟩
  · rw [Subscriptions.isActive, accepts.edited.table]
    split
    case isTrue same => simp [same, active]
    case isFalse differs =>
      have inactive := answering.toUnserved.inactive other
      rw [Subscriptions.isActive] at inactive
      simp [inactive, Ne.symm differs]
  · intro stream
    have kept : ({ e with stream } : Engine).prune = { e with stream } :=
      prune_of_kept fun id w there => by
        obtain rfl := answering.toUnserved.first there
        exact .inl (Option.some.inj (viewed.symm.trans there) ▸ listened)
    refine ⟨kept, ?_⟩
    rw [accepts.received, active]
    exact kept

/-- Documents that are sent for an addition that activates the target are what everybody is
    shown. -/
theorem shown {first : WatchRequest} (answering : e.Answering t (first :: wire))
    {sub next : Subscription} {subscriptions : Subscriptions}
    (accepts : Accepts e wire sub next subscriptions) (active : next.isActive = true)
    {delivery : Delivery} (fits : delivery.Fits t) (target : Target) (token : Option ResumeToken) :
    Concluded e.listeners ((delivery.answers (.add ⟨1⟩ target token)).foldl receive e) t
      delivery.documents := by
  obtain ⟨⟨v, viewed, own, listened⟩, alone, kept, received⟩ := answering.activated accepts active
  let asked : Engine := { e with stream := { e.stream with
    subscriptions, collected := ({} : RemoteEvent).reset ⟨1⟩ } }
  let ready : Engine := asked.collecting (delivery.collect ⟨1⟩ (({} : RemoteEvent).reset ⟨1⟩))
  have gathered : (.targetAdded [⟨1⟩] :: delivery.contents ⟨1⟩).foldl receive e = ready := by
    have contents := receive_contents (e := asked) answering.opened kept accepts.known fits
    rw [if_pos ((alone ⟨1⟩).mpr rfl)] at contents
    rw [List.foldl_cons, received]
    exact contents
  have final : (delivery.answers (.add ⟨1⟩ target token)).foldl receive e =
      ready.receive (.snapshot delivery.version) := by
    rw [Delivery.answers, ← List.cons_append, List.foldl_append, gathered]
    rfl
  have reached : ready.Reachable := gathered ▸ answering.reached.foldl_receive _
  obtain ⟨calm, idle, written, others, shown⟩ := receive_first_snapshot reached answering.opened
    answering.idle viewed alone (RemoteEvent.introduces_collect delivery ⟨1⟩) (own ▸ fits)
  rw [final]
  constructor
  case calm => exact ⟨calm.1.trans answering.calm.1, calm.2.trans answering.calm.2⟩
  case silent => exact takeOutbound_of_idle idle (written.trans accepts.written)
  case told =>
    intro x member
    obtain ⟨l, listening⟩ := mem_iff_entry.mp member
    obtain ⟨unseen, attached⟩ := answering.unseen x l listening
    obtain ⟨_, placed⟩ := answering.reached.settled.informed.placed listening
    obtain ⟨stays, s, told, introduces⟩ :=
      shown x l listening (answering.toUnserved.first placed.viewed) unseen attached
    rw [show ready.told x = [] from answering.untold x] at told
    exact ⟨stays, s, told, own ▸ introduces⟩
  case untold =>
    intro x absent
    have unlisted : e.listeners[x]? = none := by simpa using absent
    exact (others x unlisted).trans (answering.untold x)
  case gone =>
    intro nobody
    have empty : v.listeners = ∅ := by
      apply ExtTreeSet.ext_mem
      intro x
      refine iff_of_false (fun member => nobody x ?_) ExtTreeSet.not_mem_empty
      obtain ⟨l, listening, -⟩ := answering.reached.settled.informed.listed _ v viewed x member
      exact mem_iff_entry.mpr ⟨l, listening⟩
    simp [empty] at listened

/-- If the target is not active once every request is answered, nobody listens, and neither
    subscription nor view is left. -/
theorem nobody (answering : e.Answering t []) :
    (∀ id : TargetId, e.stream.subscriptions.table[id]? = none ∧ e.views[id]? = none) ∧
      ∀ x, x ∉ e.listeners := by
  obtain ⟨watched, sound⟩ := answering.exchange
  have released (id : TargetId) : e.stream.subscriptions.table[id]? = none := by
    cases entered : e.stream.subscriptions.table[id]? with
    | none => rfl
    | some sub =>
      have fits : Exchange.FitsEntry e.stream.subscriptions.table[id]? (Exchange.talk id
          (Exchange.mk e.stream.subscriptions [] [] watched).outstanding) := sound.fits id
      have silent : (Exchange.mk e.stream.subscriptions [] [] watched).outstanding = [] := by
        simp [Exchange.outstanding, Exchange.unanswered, answering.written]
      rw [entered, silent] at fits
      have fits : Exchange.Fits sub [] := fits
      have idle := (answering.entered id sub entered).2.2.1
      simp [Subscription.isActive, fits.listening, fits.counted] at idle
  have gone (id : TargetId) : e.views[id]? = none := by
    cases viewed : e.views[id]? with
    | none => rfl
    | some v =>
      obtain ⟨sub, entered⟩ := mem_iff_entry.mp (answering.viewed id v viewed).1
      cases (released id).symm.trans entered
  refine ⟨fun id => ⟨released id, gone id⟩, fun x member => ?_⟩
  obtain ⟨l, entered⟩ := mem_iff_entry.mp member
  obtain ⟨_, placed⟩ := answering.reached.settled.informed.placed entered
  cases placed.viewed.symm.trans (gone _)

/-- However the requests came about: once they are answered in order, everything is concluded. -/
theorem conclude (answering : e.Answering t wire) {served : List (WatchRequest × Delivery)}
    (order : served.map (·.1) = wire) (fits : ∀ answer ∈ served, answer.2.Fits t)
    (last : List Document) :
    Concluded e.listeners ((replies served).foldl receive e) t
      (served.foldl Delivery.succeed last) := by
  induction served generalizing e wire last with
  | nil =>
    obtain rfl : [] = wire := order
    obtain ⟨gone, nobody⟩ := answering.nobody
    exact ⟨answering.calm, takeOutbound_of_idle answering.idle answering.written,
      fun x member => absurd member (nobody x), fun x _ => answering.untold x, fun _ => gone⟩
  | cons answer rest ih =>
    obtain ⟨request, delivery⟩ := answer
    obtain ⟨here, others⟩ := List.forall_mem_cons.mp fits
    obtain rfl : request :: rest.map (·.1) = wire := order
    rw [replies, List.flatMap_cons, List.foldl_append, List.foldl_cons]
    cases request with
    | remove id =>
      obtain ⟨next, listeners⟩ := answering.removal
      exact listeners ▸ ih next rfl others last
    | add id target token =>
      obtain ⟨rfl, sub, next, subscriptions, accepts⟩ := answering.addition
      cases active : next.isActive with
      | false =>
        obtain ⟨waiting, listeners⟩ := answering.overtaken accepts active here target token
        exact listeners ▸ ih waiting rfl others delivery.documents
      | true =>
        -- An active target has no request behind the one that made it active.
        obtain rfl : rest = [] := by simpa using accepts.rest.nothing active
        exact answering.shown accepts active here target token

end Answering

/-- Calls that were made before any answer, and then the writer empties the outbox: all that was
    written is about the target, and everything written awaits its answer. -/
theorem Asking.written_out {e : Engine} {t : Target} (asking : e.Asking t []) {calls : List Action}
    (cycling : ∀ action ∈ calls, Cycling t action) :
    ∃ wire : List WatchRequest, e.written (calls ++ [.takeOutbound]) = wire.map .watch ∧
      (e.run (calls ++ [.takeOutbound])).Answering t wire := by
  obtain ⟨early, wrote, waiting⟩ := asking.run calls cycling
  obtain ⟨taken, answering, emptied, -⟩ := waiting.takeOutbound
  refine ⟨early ++ (e.run calls).stream.subscriptions.outbox, ?_, ?_⟩
  · rw [written_append, wrote, List.map_append, ← taken]
    exact congrArg _ (List.append_nil _)
  · have made : e.run (calls ++ [.takeOutbound]) = (e.run calls).takeOutbound.2 := by
      rw [Engine.run, List.foldl_append]
      rfl
    rw [made]
    exact ⟨answering.toUnserved, emptied, answering.exchange⟩

/-- Listeners of one target come and go on the open stream of a new engine, and the writer takes
    what is to be written whenever it likes, but nothing is answered. Then the server answers every
    request in order. Whoever listened when the last request was written gets one snapshot in all:
    the documents that were sent last, each as added, and fresh unless one of them carries local
    writes. Nobody else gets anything, nothing starts over, nothing more is written, and if nobody
    listened, neither subscription nor view is left. -/
theorem cycles_end_in_one_snapshot {config : Config} {store : Store} {e : Engine}
    (read : ofStore config store = .ok e) (unviewed : store.views = ∅)
    (decided : store.pending = ∅) (t : Target) {calls : List Action}
    (cycling : ∀ action ∈ calls, Cycling t action) (first later : Duration) :
    let start := e.run [.connect, .handle .opened first]
    let asked := start.run (calls ++ [.takeOutbound])
    ∃ requests : List WatchRequest,
      start.written (calls ++ [.takeOutbound]) = requests.map .watch ∧
      ∀ served : List (WatchRequest × Delivery), served.map (·.1) = requests →
        (∀ answer ∈ served, answer.2.Fits t) →
        Concluded asked.listeners
          (asked.run ((replies served).map fun change => .handle (.watch change) later)) t
          (lastSent served) := by
  intro start asked
  obtain ⟨requests, wrote, answering⟩ :=
    (asking_start read unviewed decided first t).written_out cycling
  refine ⟨requests, wrote, fun served order fits => ?_⟩
  rw [run, List.foldl_map]
  exact answering.conclude order fits []

/-- A collection. -/
def letters : Target := .query (.ofPath "c")

/-- A listener leaves before anything is answered, and another one comes. -/
def relisten : List Action := [.listen letters, .unlisten ⟨1⟩, .listen letters]

/-- The collection changes between the two additions. -/
def relistenServed : List (WatchRequest × Delivery) :=
  [(.add ⟨1⟩ letters none, { documents := [⟨⟨"c/a"⟩, ⟨1⟩, some ∅, false⟩], version := ⟨1⟩ }),
    (.remove ⟨1⟩, {}),
    (.add ⟨1⟩ letters none, { documents := [⟨⟨"c/b"⟩, ⟨2⟩, some ∅, false⟩], version := ⟨2⟩ })]

/-- Only the second listener is shown anything, and that is the second document alone. -/
theorem relisten_is_shown_last :
    let start := blank.run [.connect, .handle .opened .zero]
    let asked := start.run (relisten ++ [.takeOutbound])
    let final :=
      asked.run ((replies relistenServed).map fun change => .handle (.watch change) .zero)
    final.told ⟨1⟩ = [] ∧ ∃ s, final.told ⟨2⟩ = [.ok s] ∧ s.flags.fromCache = false ∧
      s.documents.Perm [⟨⟨"c/b"⟩, ⟨2⟩, some ∅, false⟩] := by
  intro start asked final
  have cycling : ∀ action ∈ relisten, Cycling letters action := by
    simp [relisten, Cycling.listen, Cycling.unlisten]
  have read : ofStore {} {} = .ok blank := rfl
  obtain ⟨requests, wrote, concluded⟩ :=
    cycles_end_in_one_snapshot read rfl rfl letters cycling .zero .zero
  have order : relistenServed.map (·.1) = requests := by
    have same : start.written (relisten ++ [.takeOutbound]) =
        (relistenServed.map (·.1)).map .watch := by cbv
    exact List.map_injective_iff.mpr (fun _ _ => StreamRequest.watch.inj) (same.symm.trans wrote)
  have fits : ∀ answer ∈ relistenServed, answer.2.Fits letters := by
    simp only [relistenServed, List.forall_mem_cons, List.not_mem_nil, false_implies, implies_true,
      and_true]
    refine ⟨⟨?_, ?_⟩, ⟨?_, ?_⟩, ⟨?_, ?_⟩⟩ <;> decide +kernel
  obtain ⟨-, -, told, untold, -⟩ := concluded relistenServed order fits
  have left : ⟨1⟩ ∉ asked.listeners := by decide +kernel
  have stayed : ⟨2⟩ ∈ asked.listeners := by decide +kernel
  obtain ⟨-, s, shown, introduces⟩ := told ⟨2⟩ stayed
  exact ⟨untold ⟨1⟩ left, s, shown, congrArg Flags.fromCache introduces.flags, introduces.held⟩

/-- A server that sends a document with the mark of local writes. -/
def markedServed : List (WatchRequest × Delivery) :=
  [(.add ⟨1⟩ letters none, { documents := [⟨⟨"c/a"⟩, ⟨1⟩, some ∅, true⟩], version := ⟨1⟩ })]

/-- The one snapshot that a listener gets is not fresh if a document carries the mark. -/
theorem marked_document_is_not_fresh :
    let start := blank.run [.connect, .handle .opened .zero]
    let asked := start.run ([.listen letters] ++ [.takeOutbound])
    let final := asked.run ((replies markedServed).map fun change => .handle (.watch change) .zero)
    start.written ([.listen letters] ++ [.takeOutbound]) =
        (markedServed.map (·.1)).map .watch ∧
      (∀ answer ∈ markedServed, answer.2.Fits letters) ∧ ⟨1⟩ ∈ asked.listeners ∧
      ¬∃ s, final.told ⟨1⟩ = [.ok s] ∧ s.flags.fromCache = false := by
  intro start asked final
  refine ⟨by cbv, ?_, by decide +kernel, ?_⟩
  · simp only [markedServed, List.forall_mem_cons, List.not_mem_nil, false_implies, implies_true,
      and_true]
    refine ⟨?_, ?_⟩ <;> decide +kernel
  · rintro ⟨s, told, fresh⟩
    have marked : ((final.told ⟨1⟩).all fun event => !event.isFresh) = true := by decide +kernel
    rw [told] at marked
    simp [ListenEvent.isFresh, fresh] at marked

end Engine

end LiveQuery
