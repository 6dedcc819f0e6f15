import LiveQuery.Proofs.History
import LiveQuery.Proofs.StreamSpans

/-!
# The last request to add a target

Whether a target is to be reset is decided when the server accepts a request to
add it, by the token that the entry holds then. The request itself was put into the
outbox long before, with the token of that time. The two agree: while a request is
unanswered its target is not active, so no snapshot gives it another token, and when
the stream is shut the request is not awaited any more.

What a moment puts into the outbox is read off the outbox, which only grows at its
end or is emptied.
-/

namespace LiveQuery

open Std

/-- The token that a request to add the target comes with. -/
def WatchRequest.asks? (t : TargetId) : WatchRequest → Option (Option ResumeToken)
  | .add id _ token => if id = t then some token else none
  | .remove _ => none

/-- The token of the last one of some requests that asks to add the target. -/
def lastAsk (t : TargetId) (requests : List WatchRequest) : Option (Option ResumeToken) :=
  requests.reverse.findSome? (·.asks? t)

theorem lastAsk_append (t : TargetId) (front back : List WatchRequest) :
    lastAsk t (front ++ back) = (lastAsk t back).or (lastAsk t front) := by
  rw [lastAsk, List.reverse_append, List.findSome?_append]
  rfl

/-- If the target is asked for, and always with the same token, then this is the last one. -/
theorem lastAsk_of_mem {t : TargetId} {requests : List WatchRequest} {request : WatchRequest}
    {token : Option ResumeToken} (member : request ∈ requests) (asks : request.asks? t = some token)
    (same : ∀ r ∈ requests, ∀ other, r.asks? t = some other → other = token) :
    lastAsk t requests = some token := by
  cases found : lastAsk t requests with
  | none =>
    have silent := List.findSome?_eq_none_iff.mp found request (List.mem_reverse.mpr member)
    cases silent.symm.trans asks
  | some other =>
    obtain ⟨r, among, asked⟩ := List.exists_of_findSome?_eq_some found
    rw [same r (List.mem_reverse.mp among) other asked]

namespace Subscriptions

/-- What is put into the outbox from one state to the next explains what is awaited then: an entry
    that awaits an answer was asked for last with the token that it holds, or it is as before and
    was not asked for. -/
def Asks (s : Subscriptions) (queued : List WatchRequest) (after : Subscriptions) : Prop :=
  ∀ (t : TargetId) next, after.table[t]? = some next → next.adds ≠ 0 →
    lastAsk t queued = some next.token ∨
      lastAsk t queued = none ∧
        ∃ sub, s.table[t]? = some sub ∧ sub.adds ≠ 0 ∧ next.token = sub.token

/-- The outbox grows by some requests, and they explain what is awaited. -/
structure Queues (s : Subscriptions) (queued : List WatchRequest) (after : Subscriptions) :
    Prop where
  outbox : after.outbox = s.outbox ++ queued
  asks : s.Asks queued after

section Queues

variable {s middle after : Subscriptions} {queued later : List WatchRequest}

theorem Asks.of_table (same : after.table = s.table) : s.Asks [] after :=
  fun _ next there awaited => .inr ⟨rfl, next, same ▸ there, awaited, rfl⟩

/-- Where nothing is awaited, nothing is to be explained. -/
theorem Asks.of_settled (settled : ∀ (t : TargetId) next, after.table[t]? = some next →
    next.adds = 0) : s.Asks [] after :=
  fun t next there awaited => absurd (settled t next there) awaited

theorem Asks.trans (first : s.Asks queued middle) (second : middle.Asks later after) :
    s.Asks (queued ++ later) after := by
  intro t next there awaited
  rw [lastAsk_append]
  rcases second t next there awaited with asked | ⟨silent, sub, here, unanswered, token⟩
  · exact .inl (by rw [asked, Option.some_or])
  · rw [silent, Option.none_or]
    refine (first t sub here unanswered).imp (fun asked => token ▸ asked) ?_
    rintro ⟨unasked, old, entered, waits, same⟩
    exact ⟨unasked, old, entered, waits, token.trans same⟩

theorem Queues.refl (s : Subscriptions) : s.Queues [] s :=
  ⟨(List.append_nil _).symm, .of_table rfl⟩

theorem Queues.trans (first : s.Queues queued middle) (second : middle.Queues later after) :
    s.Queues (queued ++ later) after where
  outbox := by rw [second.outbox, first.outbox, List.append_assoc]
  asks := first.asks.trans second.asks

/-- An edit that asks for no other target explains itself if the edited entry is explained. -/
theorem Asks.edited {id : TargetId} {entry : Option Subscription} (edited : s.Edited id entry after)
    (others : ∀ t, id ≠ t → lastAsk t queued = none)
    (own : ∀ next, entry = some next → next.adds ≠ 0 → lastAsk id queued = some next.token ∨
      lastAsk id queued = none ∧
        ∃ sub, s.table[id]? = some sub ∧ sub.adds ≠ 0 ∧ next.token = sub.token) :
    s.Asks queued after := by
  intro t next there awaited
  rw [edited.table] at there
  split at there
  case isTrue same => exact same ▸ own next there awaited
  case isFalse apart => exact .inr ⟨others t apart, next, there, awaited, rfl⟩

/-- An edit that asks for nothing and does not make its entry wait. -/
theorem Queues.quiet {id : TargetId} {entry : Option Subscription}
    (edited : s.Edited id entry after) (outbox : after.outbox = s.outbox)
    (own : ∀ next, entry = some next → next.adds ≠ 0 →
      ∃ sub, s.table[id]? = some sub ∧ sub.adds ≠ 0 ∧ next.token = sub.token) :
    s.Queues [] after where
  outbox := outbox.trans (List.append_nil _).symm
  asks := .edited edited (fun _ _ => rfl) fun next here awaited =>
    .inr ⟨rfl, own next here awaited⟩

theorem lastAsk_addRequest (sub : Subscription) (t : TargetId) :
    lastAsk t [sub.addRequest] = if sub.id = t then some sub.token else none := by
  simp [lastAsk, Subscription.addRequest, WatchRequest.asks?]

/-- Whatever is put back and asked for is explained by the request. -/
theorem queues_putAndAdd (s : Subscriptions) (sub : Subscription) :
    s.Queues [sub.addRequest] (s.putAndAdd sub) where
  outbox := rfl
  asks := by
    have edited : s.Edited sub.id (some sub) (s.putAndAdd sub) :=
      ⟨s.table_put sub, Nat.le_refl _, rfl⟩
    refine .edited edited (fun t apart => ?_) ?_
    · rw [lastAsk_addRequest, if_neg apart]
    · rintro _ ⟨rfl⟩ -
      exact .inl (by rw [lastAsk_addRequest, if_pos rfl])

/-- A subscription that is started on an open stream is asked for. Without one it waits only if it
    did before. -/
theorem queues_start (s : Subscriptions) (sub : Subscription)
    (waits : sub.adds ≠ 0 → ∃ old, s.table[sub.id]? = some old ∧ old.adds ≠ 0 ∧
      sub.token = old.token) :
    ∃ queued, s.Queues queued (s.start sub) ∧ (s.streamOpen = false → queued = []) := by
  unfold start
  split
  case isTrue opened =>
    exact ⟨_, s.queues_putAndAdd _, fun closed => nomatch opened.symm.trans closed⟩
  case isFalse =>
    refine ⟨[], .quiet (s.edited_put sub) rfl ?_, fun _ => rfl⟩
    rintro _ ⟨rfl⟩ awaited
    exact waits awaited

theorem queues_listen (numbered : s.Numbered) (t : Target) :
    ∃ queued, s.Queues queued (s.listen t).2 ∧ (s.streamOpen = false → queued = []) := by
  rcases listen_cases numbered t with ⟨id, sub, -, -, same⟩ |
      ⟨id, sub, entered, -, made⟩ | ⟨-, made⟩
  · rw [same]
    exact ⟨[], .refl s, fun _ => rfl⟩
  · obtain rfl := (numbered id sub entered).1
    rw [made]
    exact s.queues_start (resumed sub) fun awaited => ⟨sub, entered, awaited, rfl⟩
  · rw [made]
    let named : Subscriptions :=
      { s with byName := s.byName.insert t.canonicalId ⟨s.nextId⟩, nextId := s.nextId + 1 }
    obtain ⟨queued, ⟨outbox, asks⟩, mute⟩ :=
      named.queues_start (s.fresh t) fun awaited => absurd rfl awaited
    exact ⟨queued, ⟨outbox, asks⟩, mute⟩

theorem queues_unlisten (numbered : s.Numbered) (id : TargetId) :
    ∃ queued, s.Queues queued (s.unlisten id) ∧ (s.streamOpen = false → queued = []) := by
  rcases s.unlisten_cases id with ⟨same, -⟩ | ⟨sub, entered, -, ⟨-, gone⟩ | ⟨opened, kept⟩⟩
  · rw [same]
    exact ⟨[], .refl s, fun _ => rfl⟩
  · rw [gone]
    exact ⟨[], .quiet (s.edited_release id) (s.outbox_release id) nofun, fun _ => rfl⟩
  · obtain rfl := (numbered id sub entered).1
    have edited : s.Edited sub.id (some (left sub)) (s.unlisten sub.id) := by
      rw [kept]
      exact ⟨s.table_put (left sub), Nat.le_refl _, rfl⟩
    refine ⟨[.remove sub.id], ⟨by rw [kept], .edited edited (fun _ _ => rfl) ?_⟩,
      fun closed => nomatch opened.symm.trans closed⟩
    rintro _ ⟨rfl⟩ awaited
    exact .inr ⟨rfl, sub, entered, awaited, rfl⟩

/-- An accepted request to add is one answer less to wait for, and asks for nothing. -/
theorem queues_added (numbered : s.Numbered) {id : TargetId} {outcome : AddOutcome}
    (done : s.added id = .ok (outcome, after)) : s.Queues [] after := by
  obtain ⟨sub, entered, awaited, rfl⟩ := added_cases done
  obtain rfl := (numbered id sub entered).1
  refine .quiet (s.edited_put { sub with adds := sub.adds - 1 }) rfl ?_
  rintro _ ⟨rfl⟩ -
  exact ⟨sub, entered, awaited, rfl⟩

/-- A target is activated by the last answer that is awaited, and reset if its entry holds no
    token. -/
theorem added_activated {id : TargetId} {reset : Bool}
    (done : s.added id = .ok (.activated reset, after)) :
    ∃ sub, s.table[id]? = some sub ∧ sub.adds ≠ 0 ∧
      ({ sub with adds := sub.adds - 1 } : Subscription).isActive = true ∧
      reset = sub.token.isNone := by
  unfold added at done
  split at done
  case h_1 => cases done
  case h_2 sub entered =>
    split at done
    case isTrue => cases done
    case isFalse awaited =>
      have outcome := (Prod.mk.inj (Except.ok.inj done)).1
      dsimp only at outcome
      split at outcome
      case isTrue active =>
        exact ⟨sub, entered, awaited, active, (AddOutcome.activated.inj outcome).symm⟩
      case isFalse => cases outcome

theorem queues_dropped {sub : Subscription} (entered : s.table[sub.id]? = some sub) :
    ∃ queued, s.Queues queued (s.dropped sub).2 := by
  have released : s.Queues [] (s.release sub.id) :=
    .quiet (s.edited_release sub.id) (s.outbox_release sub.id) nofun
  have put (next : Subscription) (id : next.id = sub.id) (adds : next.adds = sub.adds)
      (token : next.token = sub.token) : s.Queues [] (s.put next) := by
    refine .quiet (s.edited_put next) rfl ?_
    rintro _ ⟨rfl⟩ awaited
    exact ⟨sub, id ▸ entered, adds ▸ awaited, token⟩
  unfold dropped
  dsimp only
  split
  · split
    · exact ⟨[], released⟩
    · exact ⟨[], put { sub with removes := sub.removes - 1 } rfl rfl rfl⟩
  · split
    · exact ⟨[], .refl s⟩
    · split
      · split
        · exact ⟨_, s.queues_putAndAdd _⟩
        · exact ⟨[], put { sub with current := false } rfl rfl rfl⟩
      · exact ⟨[], released⟩

theorem queues_removed (numbered : s.Numbered) {id : TargetId} {cause : Option Status}
    {outcome : RemoveOutcome} (done : s.removed id cause = .ok (outcome, after)) :
    ∃ queued, s.Queues queued after := by
  unfold removed at done
  split at done
  case h_1 => cases done
  case h_2 sub status entered =>
    obtain ⟨-, rfl⟩ := Prod.mk.inj (Except.ok.inj done)
    exact ⟨[], .quiet (s.edited_release id) (s.outbox_release id) nofun⟩
  case h_3 sub entered =>
    obtain rfl := (numbered id sub entered).1
    have same : after = (s.dropped sub).2 := congrArg Prod.snd (Except.ok.inj done).symm
    exact same ▸ queues_dropped entered

/-- Only an active target is marked as current, and that awaits nothing. -/
theorem queues_markCurrent (numbered : s.Numbered) (id : TargetId) (token : Option ResumeToken)
    (version : Version) : s.Queues [] (s.markCurrent id token version) := by
  refine .quiet (edited_markCurrent numbered id token version) ?_ fun next here awaited => ?_
  · unfold markCurrent
    split
    · rfl
    · split <;> rfl
  · obtain ⟨sub, entered, rfl⟩ := Option.map_eq_some_iff.mp here
    unfold marked at awaited ⊢
    split at awaited
    case isTrue active =>
      exact absurd (beq_iff_eq.mp (Bool.and_eq_true_iff.mp active).2) awaited
    case isFalse idle =>
      rw [if_neg idle]
      exact ⟨sub, entered, awaited, rfl⟩

theorem queues_foldl_markCurrent (version : Version) (changes : List (TargetId × TargetChange))
    (numbered : s.Numbered) :
    s.Queues [] (changes.foldl (fun subs (id, change) =>
      if change.current then subs.markCurrent id change.token version else subs) s) := by
  induction changes generalizing s with
  | nil => exact .refl s
  | cons first rest ih =>
    obtain ⟨id, change⟩ := first
    rw [List.foldl_cons]
    dsimp only
    split
    case isTrue =>
      have stamped : s.Stamped (fun _ => True) (s.markCurrent id change.token version) :=
        stamped_markCurrent numbered trivial _ _
      exact (queues_markCurrent numbered id change.token version).trans
        (ih (numbered.stamped stamped))
    case isFalse => exact ih numbered

/-- A new stream asks for every entry with the token that it holds. -/
theorem asks_streamOpened (numbered : s.Numbered) :
    s.Asks s.streamOpened.outbox s.streamOpened := by
  intro t next there _
  rw [table_streamOpened, Option.map_eq_some_iff] at there
  obtain ⟨sub, entered, rfl⟩ := there
  have own : sub.id = t := (numbered t sub entered).1
  rw [outbox_streamOpened]
  have listed : sub.addRequest ∈ (s.table.toList.map (·.2)).map (·.addRequest) := by
    refine List.mem_map_of_mem (List.mem_map.mpr ⟨(t, sub), ?_, rfl⟩)
    exact ExtTreeMap.mem_toList_iff_getElem?_eq_some.mpr entered
  refine .inl (lastAsk_of_mem listed (if_pos own) ?_)
  intro request member token asks
  obtain ⟨other, among, rfl⟩ := List.mem_map.mp member
  obtain ⟨⟨id, other⟩, listed, rfl⟩ := List.mem_map.mp among
  have entered' := ExtTreeMap.mem_toList_iff_getElem?_eq_some.mp listed
  obtain rfl := (numbered id other entered').1
  have asks : (if other.id = t then some other.token else none) = some token := asks
  split at asks
  case isTrue same =>
    rw [same, entered] at entered'
    obtain rfl := Option.some.inj entered'
    exact (Option.some.inj asks).symm
  case isFalse => cases asks

/-- Without a stream nothing is awaited. -/
theorem settled_streamClosed (s : Subscriptions) {t : TargetId} {next : Subscription}
    (there : s.streamClosed.table[t]? = some next) : next.adds = 0 := by
  rw [table_streamClosed, Option.map_eq_some_iff] at there
  obtain ⟨sub, -, rfl⟩ := there
  rfl

end Queues

end Subscriptions

namespace WatchStream

/-- There are no requests without an open stream. -/
def Mute (s : WatchStream) : Prop := s.state ≠ .opened → s.subscriptions.outbox = []

/-- What a call puts into the outbox explains what is awaited after it. It puts nothing there if it
    empties the outbox. -/
def Asks (s : WatchStream) (queued : List WatchRequest) (after : WatchStream) : Prop :=
  s.subscriptions.Asks queued after.subscriptions ∧
    (after.subscriptions.outbox = s.subscriptions.outbox ++ queued ∨
      after.subscriptions.outbox = [] ∧ queued = [])

section Asks

variable {s after : WatchStream}

theorem Asks.of_queues {queued : List WatchRequest}
    (queues : s.subscriptions.Queues queued after.subscriptions) : s.Asks queued after :=
  ⟨queues.asks, .inl queues.outbox⟩

/-- A stream that is shut awaits nothing, and nothing is to be written. -/
theorem asks_shut {closed : WatchStream} {subscriptions : Subscriptions}
    (same : closed.subscriptions = subscriptions.streamClosed) :
    s.Asks [] closed ∧ closed.Mute := by
  have emptied : closed.subscriptions.outbox = [] := same ▸ subscriptions.outbox_streamClosed
  refine ⟨⟨.of_settled fun t next there => ?_, .inr ⟨emptied, rfl⟩⟩, fun _ => emptied⟩
  exact subscriptions.settled_streamClosed (same ▸ there)

/-- What asks for nothing without a stream leaves nothing to be written there. -/
theorem mute_of_queues (sound : s.Sound) (mute : s.Mute) (state : after.state = s.state)
    {queued : List WatchRequest}
    (queues : s.subscriptions.Queues queued after.subscriptions)
    (silent : s.subscriptions.streamOpen = false → queued = []) : after.Mute := by
  intro unopened
  have unopened : s.state ≠ .opened := state ▸ unopened
  have closed : s.subscriptions.streamOpen = false :=
    Bool.eq_false_iff.mpr fun streaming => unopened (sound.opened.mp streaming)
  rw [queues.outbox, mute unopened, silent closed, List.nil_append]

theorem Turn.asks (turn : s.Turn after) (sound : s.Sound) (mute : s.Mute) :
    (∃ queued, s.Asks queued after) ∧ after.Mute := by
  have shut {closed : WatchStream} {subscriptions : Subscriptions}
      (same : closed.subscriptions = subscriptions.streamClosed) :
      (∃ queued, s.Asks queued closed) ∧ closed.Mute :=
    ⟨⟨[], (asks_shut same).1⟩, (asks_shut (s := s) same).2⟩
  cases turn with
  | connect asked =>
    unfold connect? at asked
    split at asked
    case isTrue => cases asked
    case isFalse unstarted =>
      obtain rfl := Option.some.inj asked
      have unopened : s.state ≠ .opened := fun opened => unstarted (opened ▸ rfl)
      exact ⟨⟨[], .of_queues (.refl _)⟩, fun _ => mute unopened⟩
  | opened now =>
    unfold WatchStream.opened
    split
    case isTrue => exact ⟨⟨[], .of_queues (.refl _)⟩, mute⟩
    case isFalse unopened =>
      refine ⟨⟨_, Subscriptions.asks_streamOpened sound.numbered, .inl ?_⟩, fun still => ?_⟩
      · rw [mute unopened, List.nil_append]
      · exact absurd rfl still
  | closed error now =>
    rw [closed_eq]
    exact shut rfl
  | disconnect =>
    unfold WatchStream.disconnect
    split
    · exact shut rfl
    · exact ⟨⟨[], .of_queues (.refl _)⟩, mute⟩
  | restart => exact shut rfl
  | listen t =>
    obtain ⟨queued, queues, silent⟩ := Subscriptions.queues_listen sound.numbered t
    exact ⟨⟨queued, .of_queues queues⟩, mute_of_queues sound mute rfl queues silent⟩
  | unlisten id =>
    obtain ⟨queued, queues, silent⟩ := Subscriptions.queues_unlisten sound.numbered id
    exact ⟨⟨queued, .of_queues queues⟩, mute_of_queues sound mute rfl queues silent⟩
  | takeOutbox =>
    unfold WatchStream.takeOutbox
    split
    · exact ⟨⟨[], .of_table rfl, .inr ⟨rfl, rfl⟩⟩, fun _ => rfl⟩
    · exact ⟨⟨[], .of_queues (.refl _)⟩, mute⟩

theorem queues_targetAdded (sound : s.Sound) {id : TargetId} (done : s.targetAdded id = .ok after) :
    s.subscriptions.Queues [] after.subscriptions ∧ after.state = s.state := by
  unfold targetAdded at done
  cases answered : s.subscriptions.added id with
  | error fault =>
    rw [answered] at done
    cases done
  | ok result =>
    obtain ⟨outcome, subscriptions⟩ := result
    rw [answered] at done
    obtain rfl := Except.ok.inj done
    exact ⟨Subscriptions.queues_added sound.numbered answered, rfl⟩

/-- Additions ask for nothing, up to the first fault. -/
theorem queues_targetsAdded (ids : List TargetId) (sound : s.Sound) :
    s.subscriptions.Queues [] (targetsAdded ids s).1.subscriptions ∧
      (targetsAdded ids s).1.state = s.state := by
  induction ids generalizing s with
  | nil => exact ⟨.refl _, rfl⟩
  | cons id rest ih =>
    unfold targetsAdded
    cases added : s.targetAdded id with
    | error fault => exact ⟨.refl _, rfl⟩
    | ok next =>
      obtain ⟨first, state⟩ := queues_targetAdded sound added
      obtain ⟨second, still⟩ := ih (gains_targetAdded sound added).1
      exact ⟨first.trans second, still.trans state⟩

theorem queues_targetRemoved (sound : s.Sound) {cause : Option Status} {id : TargetId}
    {rejections : List Rejection} (done : s.targetRemoved cause id = .ok (rejections, after)) :
    (∃ queued, s.subscriptions.Queues queued after.subscriptions) ∧ after.state = s.state := by
  unfold targetRemoved at done
  cases answered : s.subscriptions.removed id cause with
  | error fault =>
    rw [answered] at done
    cases done
  | ok result =>
    obtain ⟨outcome, subscriptions⟩ := result
    rw [answered] at done
    obtain ⟨-, rfl⟩ := Prod.mk.inj (Except.ok.inj done)
    exact ⟨Subscriptions.queues_removed sound.numbered answered, rfl⟩

theorem queues_targetsRemoved (cause : Option Status) (ids : List TargetId) (sound : s.Sound) :
    (∃ queued, s.subscriptions.Queues queued (targetsRemoved cause ids s).1.subscriptions) ∧
      (targetsRemoved cause ids s).1.state = s.state := by
  induction ids generalizing s with
  | nil => exact ⟨⟨[], .refl _⟩, rfl⟩
  | cons id rest ih =>
    unfold targetsRemoved
    cases removed : s.targetRemoved cause id with
    | error fault => exact ⟨⟨[], .refl _⟩, rfl⟩
    | ok result =>
      obtain ⟨rejections, next⟩ := result
      obtain ⟨⟨queued, first⟩, state⟩ := queues_targetRemoved sound removed
      obtain ⟨⟨later, second⟩, still⟩ := ih (fades_targetRemoved sound removed).1
      exact ⟨⟨queued ++ later, first.trans second⟩, still.trans state⟩

/-- What a report puts into the outbox explains what is awaited after it, be it a fault or not. -/
theorem queues_receive (sound : s.Sound) (change : WatchChange) :
    (∃ queued, s.subscriptions.Queues queued (s.receive change).1.subscriptions) ∧
      (s.receive change).1.state = s.state := by
  unfold receive
  split
  case isTrue => exact ⟨⟨[], .refl _⟩, rfl⟩
  case isFalse opened =>
    cases change <;> dsimp only
    case targetAdded ids =>
      obtain ⟨queues, state⟩ := queues_targetsAdded ids sound
      exact ⟨⟨[], queues⟩, state⟩
    case targetRemoved ids cause => exact queues_targetsRemoved cause ids sound
    case documentChanged => exact ⟨⟨[], .refl _⟩, rfl⟩
    case current id token =>
      split
      · exact ⟨⟨[], .refl _⟩, rfl⟩
      · split <;> exact ⟨⟨[], .refl _⟩, rfl⟩
    case snapshot version =>
      exact ⟨⟨[], Subscriptions.queues_foldl_markCurrent version _ sound.numbered⟩, rfl⟩

end Asks

end WatchStream

namespace Moment

/-- What is put into the outbox. -/
def queued (m : Moment) : List WatchRequest :=
  m.after.stream.subscriptions.outbox.drop m.before.stream.subscriptions.outbox.length

/-- The outbox grows by what is put into it, or is emptied. What is put there explains what is
    awaited after the moment. -/
theorem asks (m : Moment) (sound : m.before.stream.Sound) (mute : m.before.stream.Mute) :
    m.before.stream.Asks m.queued m.after.stream ∧ m.after.stream.Mute := by
  have read {requests : List WatchRequest} (asks : m.before.stream.Asks requests m.after.stream) :
      m.before.stream.Asks m.queued m.after.stream := by
    have same : m.queued = requests := by
      rcases asks.2 with grown | ⟨emptied, rfl⟩
      · rw [queued, grown, List.drop_left]
      · rw [queued, emptied, List.drop_nil]
    exact same ▸ asks
  suffices known : (∃ requests, m.before.stream.Asks requests m.after.stream) ∧
      m.after.stream.Mute from known.1.elim fun _ asks => ⟨read asks, known.2⟩
  clear read
  obtain ⟨e, happening⟩ := m
  cases happening with
  | detach id => exact ⟨⟨[], .of_queues (.refl _)⟩, mute⟩
  | restock store => exact ⟨⟨[], .of_queues (.refl _)⟩, mute⟩
  | call action =>
    change (∃ requests, e.stream.Asks requests (e.perform action).2.stream) ∧
      (e.perform action).2.stream.Mute
    rcases e.stream_perform action with same | turn | ⟨change, brings, same | restarted⟩
    · rw [same]
      exact ⟨⟨[], .of_queues (.refl _)⟩, mute⟩
    · exact turn.asks sound mute
    · rw [same]
      obtain ⟨⟨requests, queues⟩, state⟩ := WatchStream.queues_receive sound change
      exact ⟨⟨requests, .of_queues queues⟩, fun unopened => absurd (state.trans brings.1) unopened⟩
    · rw [restarted]
      have shut : e.stream.Asks [] (e.stream.receive change).1.restart ∧
          (e.stream.receive change).1.restart.Mute := WatchStream.asks_shut rfl
      exact ⟨⟨[], shut.1⟩, shut.2⟩

end Moment

/-- The token of the last request to add the target that was put into the outbox. -/
def lastAdd (t : TargetId) (past : List Moment) : Option (Option ResumeToken) :=
  past.findSome? fun m => lastAsk t m.queued

namespace History

variable {past : List Moment} {e : Engine}

/-- The target of an entry that awaits an answer was asked for last with the token that the entry
    holds, and without an open stream there are no requests. -/
theorem asked (history : History past e) :
    (∀ (t : TargetId) sub, e.stream.subscriptions.table[t]? = some sub → sub.adds ≠ 0 →
      lastAdd t past = some sub.token) ∧ e.stream.Mute := by
  induction history with
  | start read =>
    obtain ⟨pending, rfl⟩ := Engine.ofStore_eq read
    refine ⟨fun t sub entered => ?_, fun _ => rfl⟩
    cases entered.symm.trans ExtTreeMap.getElem?_empty
  | @step past e history happening ih =>
    obtain ⟨asked, mute⟩ := ih
    obtain ⟨⟨asks, -⟩, mute⟩ := Moment.asks ⟨e, happening⟩ history.sound mute
    refine ⟨fun t next there awaited => ?_, mute⟩
    rw [lastAdd, List.findSome?_cons]
    rcases asks t next there awaited with now | ⟨silent, sub, entered, unanswered, token⟩
    · rw [now]
    · rw [silent]
      exact token ▸ asked t sub entered unanswered

end History

namespace WatchStream

/-- In the course of a report that targets are added, a request to add the target is accepted, and
    reports on the target count from then on. With `reset` what is known of it is to be dropped. -/
structure Accepts (s : WatchStream) (ids : List TargetId) (t : TargetId) (reset : Bool)
    (after : WatchStream) : Prop where
  opened : s.state = .opened
  added : ∃ front rest middle subscriptions, ids = front ++ t :: rest ∧
    targetsAdded front s = (middle, .ok ()) ∧
    middle.subscriptions.added t = .ok (.activated reset, subscriptions) ∧
    middle.targetAdded t = .ok after

end WatchStream

/-- A target that is activated is to be reset if and only if the last request to add it came without
    a token. -/
theorem History.accepts {past : List Moment} {e : Engine} (history : History past e)
    (frugal : e.stream.Frugal) {ids : List TargetId} {t : TargetId} {reset : Bool}
    {after : WatchStream} (accepts : e.stream.Accepts ids t reset after) :
    ∃ token, lastAdd t past = some token ∧ reset = token.isNone ∧
      (t ∈ after.collected.resets ↔ token = none) ∧
      ∃ sub, e.stream.subscriptions.table[t]? = some sub ∧ sub.adds ≠ 0 ∧ sub.token = token := by
  obtain ⟨opened, front, rest, middle, subscriptions, rfl, before, answered, done⟩ := accepts
  have first : (WatchStream.targetsAdded front e.stream).2 = .ok () := by rw [before]
  obtain ⟨renewed, -⟩ := WatchStream.renewed_targetsAdded front history.sound.numbered frugal first
  obtain ⟨queues, -⟩ := WatchStream.queues_targetsAdded front history.sound
  obtain ⟨sound, -⟩ := WatchStream.gains_targetsAdded front history.sound
  rw [before] at renewed queues sound
  dsimp only at renewed queues sound
  obtain ⟨own, -, -⟩ := WatchStream.renewed_targetAdded sound.numbered (renewed.frugal frugal) done
  obtain ⟨sub, entered, awaited, active, rfl⟩ := Subscriptions.added_activated answered
  obtain ⟨_, again, rfl⟩ := WatchStream.targetAdded_ok done
  obtain rfl := Option.some.inj (entered.symm.trans again)
  have kept : (middle.subscriptions.put { sub with adds := sub.adds - 1 }).table[t]? =
      some { sub with adds := sub.adds - 1 } := by
    rw [Subscriptions.table_put, if_pos (sound.numbered t sub entered).1]
  -- what `front` adds asks for nothing, so the entry awaited its answer before the report
  rcases queues.asks t sub entered awaited with ⟨⟨⟩⟩ | ⟨-, old, there, unanswered, token⟩
  refine ⟨sub.token, token ▸ history.asked.1 t old there unanswered, rfl, ?_, old, there,
    unanswered, token.symm⟩
  rw [own.resets t List.mem_cons_self]
  constructor
  · rintro ⟨_, here, -, bare⟩
    obtain rfl := Option.some.inj (kept.symm.trans here)
    exact bare
  · exact fun bare => ⟨_, kept, active, bare⟩

end LiveQuery
