import LiveQuery.Proofs.FedReplicas

/-!
# Starting over

After a resync nothing is resumed and nothing is under way. The views keep what they
show, but nothing of it counts any more: on the next stream every target that was
listened to is added without a token, so its replica is reset before it is fresh
again, and a fresh snapshot rests only on what was reported since.
-/

namespace LiveQuery

open Std

namespace WriteQueue

/-- Where no batch is sent, the oldest undecided ones are taken. -/
theorem takeFrom_of_unsent (budget : Nat) {entries : List QueuedWrite}
    (unsent : ∀ w ∈ entries, w.sent = false) :
    (takeFrom budget entries).1 =
      ((entries.filter (·.isPending)).map (·.batch)).take budget := by
  induction entries generalizing budget with
  | nil => cases budget <;> rfl
  | cons w rest ih =>
    obtain ⟨first, unsent⟩ := List.forall_mem_cons.mp unsent
    cases budget with
    | zero => rfl
    | succ budget =>
      rw [takeFrom, List.filter_cons]
      by_cases pending : w.isPending = true
      · simp [pending, first, ih budget unsent]
      · simp [pending, ih (budget + 1) unsent]

/-- Once nothing counts as sent, the oldest undecided batches are taken, up to the limit. -/
theorem takeUnsent_markAllUnsent (q : WriteQueue) (limit : Nat) :
    (q.markAllUnsent.takeUnsent limit).1 = q.pending.take limit := by
  have unsent : ∀ w ∈ q.markAllUnsent.entries, w.sent = false := by
    intro w member
    obtain ⟨old, -, rfl⟩ := List.mem_map.mp member
    rfl
  have idle : q.markAllUnsent.inFlight = 0 := by
    refine List.countP_eq_zero.mpr fun w member => ?_
    simp [unsent w member]
  change (takeFrom (limit - q.markAllUnsent.inFlight) q.markAllUnsent.entries).1 = _
  rw [idle, Nat.sub_zero, takeFrom_of_unsent limit unsent, pending, markAllUnsent, List.filter_map,
    List.map_map]
  rfl

theorem markAllUnsent_markAllUnsent (q : WriteQueue) :
    q.markAllUnsent.markAllUnsent = q.markAllUnsent := by
  simp [markAllUnsent, Function.comp_def]

end WriteQueue

namespace Subscription

/-- An entry with nothing to resume from and nothing under way. -/
def blanked (sub : Subscription) : Subscription :=
  { sub with token := none, version := .start, adds := 0, removes := 0, current := false }

end Subscription

namespace WatchStream

/-- A restart forgets whom nobody listens to, and blanks the entries of the others. -/
theorem table_restart (s : WatchStream) :
    s.restart.subscriptions.table =
      (s.subscriptions.table.filter fun _ sub => sub.listening).map fun _ sub => sub.blanked := by
  apply ExtTreeMap.ext_getElem?
  intro t
  change s.subscriptions.clearTokens.streamClosed.table[t]? = _
  rw [Subscriptions.table_streamClosed, Subscriptions.table_clearTokens, ExtTreeMap.getElem?_map,
    ExtTreeMap.getElem?_filter']
  cases s.subscriptions.table[t]? with
  | none => rfl
  | some sub =>
    simp only [Option.map_some, Option.filter_some]
    split <;> rfl

/-- On the stream that opens next, everybody who is listened to is asked for without a token, in
    order. -/
theorem outbox_restart_opened (s : WatchStream) (now : Duration) :
    (s.restart.opened now).takeOutbox.1 =
      ((s.subscriptions.table.filter fun _ sub => sub.listening).toList.map (·.2)).map
        fun sub => .add sub.id sub.target none := by
  have opened : s.restart.opened now = { s.restart with
      state := .opened
      subscriptions := s.restart.subscriptions.streamOpened
      backoff := s.restart.backoff.recordOpen now
      collected := {} } := rfl
  rw [opened, takeOutbox, if_pos rfl]
  change s.restart.subscriptions.streamOpened.outbox = _
  rw [Subscriptions.outbox_streamOpened, table_restart, ExtTreeMap.toList_map, List.map_map,
    List.map_map, List.map_map]
  rfl

end WatchStream

namespace Engine

theorem unmoved_dispatchAll (e : Engine) : e.Unmoved e.dispatchAll :=
  .foldl unmoved_dispatch _ e

/-- Nothing is to be resumed and nothing is under way, and the present stream is to be given up,
    which is told once. -/
structure Blanked (e : Engine) : Prop where
  closed : e.stream.state = .closed
  entries : ∀ (t : TargetId) sub, e.stream.subscriptions.table[t]? = some sub →
    sub.token = none ∧ sub.adds = 0 ∧ sub.removes = 0 ∧ sub.current = false
  told : e.takeRestart.1 = true
  once : e.takeRestart.2.takeRestart.1 = false

theorem blanked_resync (e : Engine) : e.resync.Blanked where
  closed := by
    rw [stream_resync]
    rfl
  entries t sub entered := by
    rw [stream_resync, WatchStream.table_restart, ExtTreeMap.getElem?_map,
      Option.map_eq_some_iff] at entered
    obtain ⟨old, -, rfl⟩ := entered
    exact ⟨rfl, rfl, rfl, rfl⟩
  told := (unmoved_dispatchAll _).restartRequested
  once := rfl

/-- What is written on the stream that opens right after a resync. -/
theorem outbound_resync (e : Engine) (now : Duration) :
    (e.resync.handle .opened now).2.takeOutbound.1 =
      ((e.stream.subscriptions.table.filter fun _ sub => sub.listening).toList.map (·.2)).map
          (fun sub => .watch (.add sub.id sub.target none)) ++
        (e.queue.pending.take e.config.maxWritesInFlight).map .write := by
  have config : e.resync.config = e.config := (unmoved_dispatchAll e.startedOver).config
  have queue : e.resync.queue = e.queue.markAllUnsent :=
    (OnlyTells.foldl onlyTells_dispatch _ e.startedOver).queue
  have opened : (e.resync.handle .opened now).2.stream = e.stream.restart.opened now := by
    change e.resync.stream.opened now = _
    rw [stream_resync]
  have state : (e.stream.restart.opened now).state = .opened := rfl
  have resent : (e.resync.handle .opened now).2.queue = e.queue.markAllUnsent := by
    change e.resync.queue.markAllUnsent = _
    rw [queue, WriteQueue.markAllUnsent_markAllUnsent]
  have limit : (e.resync.handle .opened now).2.config = e.config := config
  rw [takeOutbound, if_pos (opened ▸ state), opened, resent, limit]
  dsimp only
  rw [WatchStream.outbox_restart_opened, WriteQueue.takeUnsent_markAllUnsent, List.map_map]
  rfl

end Engine

/-- In one of the moments the document under the key was reported for the target, and in an earlier
    one of them the target was activated. -/
def Redelivered (recent : List Moment) (t : TargetId) (key : DocumentKey) : Prop :=
  ∃ later m earlier, recent = later ++ m :: earlier ∧ m.Delivers t key ∧
    ∃ n ∈ earlier, n.Activates t

namespace History

variable {past recent : List Moment} {m : Moment} {after : Engine} {t : TargetId}

/-- What comes before a moment of a history is a history. -/
theorem before {later earlier : List Moment} (history : History (later ++ m :: earlier) after) :
    History earlier m.before := by
  induction later generalizing after with
  | nil =>
    cases history with
    | step history _ => exact history
  | cons n later ih =>
    cases history with
    | step history _ => exact ih history

/-- A target that is live now and was not so once was activated since. -/
theorem activates_since (history : History (recent ++ m :: past) after)
    (idle : ¬m.after.stream.Live t) (live : after.stream.Live t) : ∃ n ∈ recent, n.Activates t := by
  obtain ⟨later, n, earlier, split, activates, on⟩ := history.attested.live t live
  rcases List.append_eq_append_iff.mp split with ⟨more, rfl, rest⟩ | ⟨more, rfl, rest⟩
  · cases more with
    | nil =>
      obtain ⟨rfl, -⟩ := List.cons_eq_cons.mp rest
      exact absurd activates.2.2 idle
    | cons first more =>
      obtain ⟨rfl, -⟩ := List.cons_eq_cons.mp rest
      exact absurd (on m (by simp)).2 idle
  · cases more with
    | nil =>
      obtain ⟨rfl, -⟩ := List.cons_eq_cons.mp rest
      exact absurd activates.2.2 idle
    | cons first more =>
      obtain ⟨rfl, -⟩ := List.cons_eq_cons.mp rest
      exact ⟨n, by simp, activates⟩

/-- What is reported for a target that was not live once is reported after it was activated. -/
theorem redelivered (history : History (recent ++ m :: past) after)
    (idle : ¬m.after.stream.Live t) {key : DocumentKey}
    (delivered : ∃ n ∈ recent, n.Delivers t key) : Redelivered recent t key := by
  obtain ⟨n, member, delivers⟩ := delivered
  obtain ⟨later, earlier, rfl⟩ := List.append_of_mem member
  rw [List.append_assoc, List.cons_append] at history
  exact ⟨later, n, earlier, rfl, delivers, history.before.activates_since idle delivers.1⟩

end History

namespace Engine

/-- After a resync no stream vouches for anything, and nothing is collected. -/
theorem fed_resync (e : Engine) (t : TargetId) :
    e.resync.Fed (fun _ => False) (fun _ _ => False) t := by
  have collected : e.resync.stream.collected = {} := by
    rw [stream_resync]
    rfl
  refine ⟨fun vouches => ?_, fun change here => ?_, fun key d here => ?_⟩
  · rw [stream_resync] at vouches
    rcases vouches with resumable | ⟨live, -⟩
    · exact absurd resumable (e.stream.unresumable_restart t)
    · cases live.1
  · rw [collected] at here
    cases here.symm.trans ExtTreeMap.getElem?_empty
  · rw [collected] at here
    cases here.symm.trans ExtTreeMap.getElem?_empty

/-- A resync starts over. Right after it nothing is to be resumed or under way, and the stream is to
    be given up. What is written on a stream that opens next are requests to add the targets that
    were listened to, without a token and in order, and then the oldest undecided batches. And
    whatever follows, as long as it comes over the stream or from calls: a snapshot that is labelled
    fresh shows the server's replica under the queued writes, and every document in this replica was
    reported since the resync, and its key for the target after the target was activated again. -/
theorem resync_starts_over {past : List Moment} {e : Engine} (history : History past e) :
    e.resync.Blanked ∧
      (∀ now, ∃ subs : List Subscription,
        (∀ sub, sub ∈ subs ↔
          ∃ t : TargetId, e.stream.subscriptions.table[t]? = some sub ∧ sub.listening = true) ∧
        subs.Pairwise (·.id.val < ·.id.val) ∧
        (e.resync.handle .opened now).2.takeOutbound.1 =
          subs.map (fun sub => .watch (.add sub.id sub.target none)) ++
            (e.queue.pending.take e.config.maxWritesInFlight).map .write) ∧
      ∀ (recent : List Moment) (after : Engine) (action : Action) (x : ListenerId)
        (s : ViewSnapshot), History (recent ++ ⟨e, .call .resync⟩ :: past) after →
        Driven (⟨after, .call action⟩ :: recent) → .ok s ∈ after.sent action x →
        s.flags.fromCache = false → ∃ l v, (after.perform action).2.listeners[x]? = some l ∧
          (after.perform action).2.views[l.target]? = some v ∧
          s.Shows v.target v.result s.flags ∧
          v.replicas.ShowOver v.target (after.perform action).2.queue ∧
          ∀ key d, v.replicas.server.documents[key]? = some d →
            Redelivered (⟨after, .call action⟩ :: recent) l.target key ∧
              ∃ m ∈ (⟨after, .call action⟩ :: recent : List Moment), m.States key d := by
  refine ⟨e.blanked_resync, fun now => ⟨_, fun sub => ?_, ?_, e.outbound_resync now⟩, ?_⟩
  · rw [List.mem_map]
    constructor
    · rintro ⟨⟨t, other⟩, listed, rfl⟩
      have kept := ExtTreeMap.mem_toList_iff_getElem?_eq_some.mp listed
      rw [ExtTreeMap.getElem?_filter', Option.filter_eq_some_iff] at kept
      exact ⟨t, kept⟩
    · rintro ⟨t, entered, heard⟩
      refine ⟨(t, sub), ExtTreeMap.mem_toList_iff_getElem?_eq_some.mpr ?_, rfl⟩
      rw [ExtTreeMap.getElem?_filter', Option.filter_eq_some_iff]
      exact ⟨entered, heard⟩
  · rw [List.pairwise_map]
    have named {t : TargetId} {sub : Subscription} (listed : (t, sub) ∈
        (e.stream.subscriptions.table.filter fun _ sub => sub.listening).toList) : sub.id = t := by
      have kept := ExtTreeMap.mem_toList_iff_getElem?_eq_some.mp listed
      rw [ExtTreeMap.getElem?_filter', Option.filter_eq_some_iff] at kept
      exact (history.sound.numbered t sub kept.1).1
    refine ExtTreeMap.ordered_keys_toList.imp_of_mem fun {a b} here there less => ?_
    rw [named here, named there]
    exact Nat.compare_eq_lt.mp less
  · intro recent after action x s later driven member fresh
    obtain ⟨l, v, entered, viewed, -, shows⟩ :=
      sent_shows later.reachable.settled.informed later.sound member
    have whole : History ((⟨after, .call action⟩ :: recent) ++ ⟨e, .call .resync⟩ :: past)
        (after.perform action).2 := later.step (.call action)
    have current : (after.perform action).2.stream.Current l.target := by
      rw [shows.flags, flagsOf, View.flags, Bool.or_eq_false_iff] at fresh
      exact Bool.not_eq_eq_eq_not.mp fresh.2
    have vouches : (after.perform action).2.stream.Vouches l.target :=
      .inr ⟨whole.sound.current _ current, fun reset => whole.sound.resets _ reset current⟩
    have start {start : Engine} (began : History (⟨e, .call .resync⟩ :: past) start) :
        start.Fed (fun _ => False) (fun _ _ => False) l.target := by
      cases began with
      | step => exact e.fed_resync l.target
    obtain ⟨w, there, all⟩ := (History.fed start whole driven).replica vouches
    obtain rfl := Option.some.inj (viewed.symm.trans there)
    have idle : ¬(⟨e, .call .resync⟩ : Moment).after.stream.Live l.target := by
      rintro ⟨opened, -⟩
      cases e.blanked_resync.closed.symm.trans opened
    refine ⟨l, v, entered, viewed, ⟨shows.target, shows.documents, rfl⟩,
      whole.reachable.settled.shows viewed fun impossible => impossible, fun key d held => ?_⟩
    obtain ⟨delivered, stated⟩ := all key d held
    exact ⟨whole.redelivered idle (delivered.resolve_left id), stated.resolve_left id⟩

/-- The server reports a document of target 1, but not yet the snapshot that closes the report. -/
def delivering (version : Version) : List Action :=
  [.connect, .handle .opened .zero, .handle (.watch (.targetAdded [⟨1⟩])) .zero,
    .handle (.watch (.documentChanged ⟨⟨"c/a"⟩, version, some ∅, false⟩ [⟨1⟩] [])) .zero,
    .handle (.watch (.current ⟨1⟩ ⟨[]⟩)) .zero]

/-- A fresh snapshot after a resync shows the document that was reported again. -/
theorem fresh_after_resync :
    let e := blank.run (.listen (.document ⟨"c/a"⟩) :: delivering ⟨1⟩)
    let after := e.resync.run (delivering ⟨2⟩)
    let closing := Action.handle (.watch (.snapshot ⟨2⟩)) .zero
    let recent := ⟨after, .call closing⟩ :: e.resync.moments (delivering ⟨2⟩)
    ∃ past, History past e ∧
      History (e.resync.moments (delivering ⟨2⟩) ++ ⟨e, .call .resync⟩ :: past) after ∧
      Driven recent ∧ ∃ s, .ok s ∈ after.sent closing ⟨1⟩ ∧ s.flags.fromCache = false ∧
        s.documents.length = 1 ∧ ∃ l v,
          (after.perform closing).2.listeners[(⟨1⟩ : ListenerId)]? = some l ∧
          (after.perform closing).2.views[l.target]? = some v ∧ s.Shows v.target v.result s.flags ∧
          ∀ key d, v.replicas.server.documents[key]? = some d →
            Redelivered recent l.target key ∧ ∃ m ∈ recent, m.States key d := by
  intro e after closing recent
  have history := history_blank.run (.listen (.document ⟨"c/a"⟩) :: delivering ⟨1⟩)
  have later := (history.step (.call .resync)).run (delivering ⟨2⟩)
  have driven : Driven recent := by
    have genuine : Driven (e.resync.moments (delivering ⟨2⟩) ++ []) :=
      driven_moments e.resync (by simp [delivering])
    rw [List.append_nil] at genuine
    refine List.forall_mem_cons.mpr ⟨fun event same => ?_, genuine⟩
    have same : Action.handle (.watch (.snapshot ⟨2⟩)) .zero = .applyRemote event :=
      Happening.call.inj same
    cases same
  have told : (after.sent closing ⟨1⟩).any (fun event => event.isFresh &&
      event.toOption.all (·.documents.length == 1)) = true := by decide +kernel
  obtain ⟨event, member, label⟩ := List.any_eq_true.mp told
  obtain ⟨label, single⟩ := Bool.and_eq_true_iff.mp label
  obtain ⟨s, rfl, fresh⟩ := ListenEvent.of_isFresh label
  obtain ⟨-, -, continues⟩ := resync_starts_over history
  obtain ⟨l, v, entered, viewed, shows, -, held⟩ :=
    continues _ after closing ⟨1⟩ s later driven member fresh
  exact ⟨_, history, later, driven, s, member, fresh, beq_iff_eq.mp single, l, v, entered, viewed,
    shows, held⟩

end Engine

end LiveQuery
